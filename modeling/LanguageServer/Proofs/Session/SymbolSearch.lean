import LanguageServer.Proofs.Session.Answers

/-!
# What a search for symbols returns

The matches of a search are ranked by weight, and of equal weight the project comes before
libraries. A list is the `Ranking` of another one if it has the same matches in that order, and
those that tie in the order in which they were found; there is only one (`Ranking.unique`).

The ranking is made last. Before it, the workspace stops at the first matches that fill the limit,
in the order of the index, and a better one behind them is never seen. So the answer is the ranking
of those, and it is the best of all matches exactly if none that is left out outranks one of them.
-/

namespace LanguageServer

namespace SymbolMatch

/-- Whether a match is better than another one. -/
def Outranks (a b : SymbolMatch) : Prop :=
  b.weight < a.weight ∨ a.weight = b.weight ∧ a.inProject = true ∧ b.inProject = false

instance (a b : SymbolMatch) : Decidable (a.Outranks b) :=
  inferInstanceAs (Decidable (_ ∨ _))

/-- Whether two matches are equally good. -/
def ties (a b : SymbolMatch) : Bool := a.weight == b.weight && a.inProject == b.inProject

theorem le_iff {a b : SymbolMatch} : a.le b = true ↔ ¬ b.Outranks a := by
  cases ha : a.inProject <;> cases hb : b.inProject <;> simp [le, Outranks, ha, hb] <;> omega

theorem le_trans (a b c : SymbolMatch) (hab : a.le b = true) (hbc : b.le c = true) :
    a.le c = true := by
  rw [le_iff, Outranks] at hab hbc ⊢
  cases ha : a.inProject <;> cases hb : b.inProject <;> cases hc : c.inProject <;>
    simp_all <;> omega

theorem le_total (a b : SymbolMatch) : (a.le b || b.le a) = true := by
  rw [Bool.or_eq_true, le_iff, le_iff, Outranks, Outranks]
  cases ha : a.inProject <;> cases hb : b.inProject <;> simp <;> omega

theorem ties_iff {a b : SymbolMatch} : a.ties b = true ↔ ¬ a.Outranks b ∧ ¬ b.Outranks a := by
  cases ha : a.inProject <;> cases hb : b.inProject <;> simp [ties, Outranks, ha, hb] <;> omega

/-- The matches of a list, best first. -/
structure Ranking (found ranked : List SymbolMatch) : Prop where
  perm : ranked.Perm found
  ordered : ranked.Pairwise fun a b => ¬ b.Outranks a
  stable : ∀ m : SymbolMatch, ranked.filter m.ties = found.filter m.ties

theorem ranking_mergeSort (found : List SymbolMatch) : Ranking found (found.mergeSort le) := by
  have hperm := List.mergeSort_perm found le
  have hsorted := List.pairwise_mergeSort le_trans le_total found
  refine ⟨hperm, hsorted.imp le_iff.1, fun m => ?_⟩
  -- Matches that tie are in order already, so sorting keeps them as a sublist.
  have htied : (found.filter m.ties).Pairwise fun a b => a.le b = true := by
    refine List.pairwise_of_forall_mem_list fun a ha b hb => ?_
    have ha := (List.mem_filter.1 ha).2
    have hb := (List.mem_filter.1 hb).2
    simp only [ties, Bool.and_eq_true, beq_iff_eq] at ha hb
    rw [le_iff, Outranks, ← ha.1, ← hb.1, ← ha.2, ← hb.2]
    cases m.inProject <;> simp
  have hkept := (List.sublist_mergeSort le_trans le_total htied List.filter_sublist).filter m.ties
  simp only [List.filter_filter, Bool.and_self] at hkept
  have hlength := (hperm.filter m.ties).length_eq
  exact (hkept.eq_of_length hlength.symm).symm

/-- A better match that was found later comes first. -/
theorem ranking_pair {a b : SymbolMatch} (h : b.Outranks a) : Ranking [a, b] [b, a] := by
  refine ⟨.swap a b [], ?_, fun m => ?_⟩
  · have hordered : ¬ a.Outranks b := by
      intro hback
      rcases h with h | ⟨h, -, h'⟩ <;> rcases hback with hback | ⟨hback, hback', -⟩
      · omega
      · omega
      · omega
      · rw [h'] at hback'
        cases hback'
    simpa using hordered
  · have hapart : ¬ (m.ties a = true ∧ m.ties b = true) := by
      rintro ⟨ha, hb⟩
      simp only [ties, Bool.and_eq_true, beq_iff_eq] at ha hb
      rcases h with h | ⟨-, h, h'⟩
      · omega
      · rw [h'] at ha
        rw [h] at hb
        rw [ha.2] at hb
        cases hb.2
    cases ha : m.ties a <;> cases hb : m.ties b <;> simp [ha, hb] at hapart ⊢

namespace Ranking

variable {found ranked ranked' : List SymbolMatch}

/-- Sorting in this way leaves no choice. -/
theorem unique (h : Ranking found ranked) (h' : Ranking found ranked') : ranked = ranked' := by
  have hstable : ∀ m : SymbolMatch, ranked.filter m.ties = ranked'.filter m.ties := fun m =>
    (h.stable m).trans (h'.stable m).symm
  have hperm := h.perm.trans h'.perm.symm
  replace h := h.ordered
  replace h' := h'.ordered
  induction ranked generalizing ranked' with
  | nil => exact hperm.nil_eq
  | cons a ranked ih =>
      cases ranked' with
      | nil => exact absurd hperm.length_eq (by simp)
      | cons b ranked' =>
          rw [List.pairwise_cons] at h h'
          -- Neither head outranks the other, as each of them occurs in the other list.
          have hself : ∀ m : SymbolMatch, m.ties m = true := fun m => by simp [ties]
          have htied : a.ties b = true := by
            refine ties_iff.2 ⟨?_, ?_⟩
            · rcases List.mem_cons.1 (hperm.mem_iff.1 List.mem_cons_self) with rfl | ha
              · exact (ties_iff.1 (hself a)).1
              · exact h'.1 a ha
            · rcases List.mem_cons.1 (hperm.mem_iff.2 List.mem_cons_self) with rfl | hb
              · exact (ties_iff.1 (hself b)).1
              · exact h.1 b hb
          have hheads := hstable a
          rw [List.filter_cons_of_pos (hself a), List.filter_cons_of_pos htied] at hheads
          obtain rfl : a = b := (List.cons.inj hheads).1
          refine congrArg (a :: ·) (ih (fun m => ?_) (hperm.cons_inv) h.2 h'.2)
          have htails := hstable m
          rw [List.filter_cons, List.filter_cons] at htails
          split at htails
          · exact (List.cons.inj htails).2
          · exact htails

theorem append {first second : List SymbolMatch} (h : Ranking first ranked)
    (h' : Ranking second ranked') (hbetter : ∀ a ∈ first, ∀ b ∈ second, ¬ b.Outranks a) :
    Ranking (first ++ second) (ranked ++ ranked') := by
  refine ⟨h.perm.append h'.perm, List.pairwise_append.2 ⟨h.ordered, h'.ordered, ?_⟩, fun m => ?_⟩
  · exact fun a ha b hb => hbetter a (h.perm.mem_iff.1 ha) b (h'.perm.mem_iff.1 hb)
  · rw [List.filter_append, List.filter_append, h.stable, h'.stable]

/-- The first matches that were found are the best ones exactly if none of the others outranks one
of them. -/
theorem eq_take_iff {limit : Nat} (h : Ranking (found.take limit) ranked)
    (h' : Ranking found ranked') :
    ranked = ranked'.take limit ↔
      ∀ kept ∈ found.take limit, ∀ left ∈ found.drop limit, ¬ left.Outranks kept := by
  constructor
  · intro heq kept hkept left hleft
    have hsplit : (ranked'.take limit ++ ranked'.drop limit).Perm
        (ranked'.take limit ++ found.drop limit) := by
      rw [List.take_append_drop]
      refine h'.perm.trans ?_
      rw [← heq]
      conv_lhs => rw [← List.take_append_drop limit found]
      exact h.perm.symm.append_right _
    have hrest := (List.perm_append_left_iff _).1 hsplit
    have hordered := h'.ordered
    rw [← List.take_append_drop limit ranked', List.pairwise_append] at hordered
    exact hordered.2.2 kept (heq ▸ h.perm.mem_iff.2 hkept) left (hrest.mem_iff.2 hleft)
  · intro hbest
    have hwhole := h.append (ranking_mergeSort (found.drop limit)) hbest
    rw [List.take_append_drop] at hwhole
    rw [h'.unique hwhole]
    have hlength := h.perm.length_eq
    rw [List.length_take] at hlength
    rcases Nat.le_total limit found.length with hle | hle
    · rw [Nat.min_eq_left hle] at hlength
      exact (List.take_left' hlength).symm
    · rw [List.drop_eq_nil_of_le hle, List.mergeSort_nil, List.append_nil,
        List.take_of_length_le (hlength ▸ Nat.min_le_left _ _)]

end Ranking

/-- The best matches are the ranking of those that fill the limit, which may be none. -/
theorem ranking_best (found : List SymbolMatch) (limit : Nat) :
    Ranking (found.take limit) (best limit (found.take (max 1 limit))) := by
  rcases Nat.eq_zero_or_pos limit with rfl | hpos
  · rw [best, List.take_zero, List.take_zero]
    exact ⟨.nil, .nil, fun _ => rfl⟩
  · have hlength : ((found.take limit).mergeSort le).length ≤ limit := by
      rw [List.length_mergeSort, List.length_take]
      exact Nat.min_le_left _ _
    rw [Nat.max_eq_right hpos, best, List.take_of_length_le hlength]
    exact ranking_mergeSort _

/-- Symbols that are written in the same way have the same name. -/
theorem name_eq_of_toJson? {m m' : SymbolMatch} {j : Json} (h : m.toJson? = some j)
    (h' : m'.toJson? = some j) : m.name = m'.name := by
  have hname : ∀ {m : SymbolMatch}, m.toJson? = some j → j.get? "name" = some (.str m.name) := by
    intro m h
    obtain ⟨location, -, rfl⟩ := Option.map_eq_some_iff.1 h
    cases m.container <;> rfl
  exact Json.str.inj (Option.some.inj ((hname h).symm.trans (hname h')))

end SymbolMatch

namespace Query

/-- The matches of all searchable declarations of an index, in the order of the index. -/
def symbolMatches (root : FileKey) (ix : Index) (pattern : Text) : List SymbolMatch :=
  ix.files.flatMap fun (key, file) => matchesIn root (pattern.filter (· != '*')) key file

/-- Nothing and an asterisk match the same. -/
theorem symbolMatches_wildcard (root : FileKey) (ix : Index) (query : Text) :
    symbolMatches root ix (if query.isEmpty then ['*'] else query)
      = symbolMatches root ix query := by
  split
  · next hempty =>
      rw [List.isEmpty_iff.1 hempty]
      rfl
  · rfl

end Query

namespace Session

open SymbolMatch (Ranking best)

variable {s : Session} {b : Binding} {job : Job} {p : Project} {query : Text}

theorem searchSymbols_run {w : Workspace} {project : Nat}
    (hcapabilities : w.capabilities = .standard) (hp : w.project? project = some p)
    (query : Text) (limit : Nat) :
    ((searchSymbols project query limit false).run w).1 =
      .ok (some (best limit
        ((Query.symbolMatches p.root p.index query).take (max 1 limit)))) := by
  have hready : (w.capabilities.isIndexing || !w.capabilities.runsUnits) = false := by
    rw [hcapabilities]
    rfl
  have hfound : w.capabilities.workspaceSymbols p.toSources (if query.isEmpty then ['*'] else query)
      limit false = .ok ((Query.symbolMatches p.root p.index query).take (max 1 limit)) := by
    rw [hcapabilities, ← Query.symbolMatches_wildcard]
    rfl
  simp only [searchSymbols, StateT.run_bind, StateT.run_get, pure_bind, hready, Bool.false_eq_true,
    if_false, workspaceSymbols_run, hp, hfound]
  rfl

theorem outcome_symbols (hcapabilities : s.workspace.capabilities = .standard)
    (hp : s.workspace.project? b.project = some p) (hquestion : job.question = .symbols query)
    (hactive : job.cancelled = false) :
    (s.outcome b job).1 = some (.ok (.arr ((best s.symbolLimit
      ((Query.symbolMatches p.root p.index query).take (max 1 s.symbolLimit))).filterMap
        SymbolMatch.toJson?))) := by
  have hsearch : (s.within b.documents
      (searchSymbols b.project query s.symbolLimit false)).1 = _ :=
    searchSymbols_run hcapabilities hp query s.symbolLimit
  simp only [outcome, hquestion, hactive]
  generalize s.within b.documents _ = outcome at hsearch ⊢
  obtain ⟨result, s₁⟩ := outcome
  cases hsearch
  rfl

/-- The answer to a search is the ranking of the first matches that fill the limit. Those are the
best of all matches exactly if no match behind them outranks one of them. -/
theorem symbols_ranked_within_limit (hs : s.Live)
    (hcapabilities : s.workspace.capabilities = .standard) {rest : List Job}
    (hqueue : s.queue = job :: rest) (hb : s.bindings[job.binding]? = some b)
    (hp : s.workspace.project? b.project = some p) (hquestion : job.question = .symbols query)
    (hactive : job.cancelled = false) :
    let listed := Query.symbolMatches p.root p.index query
    ∃ found ranked, Ranking (listed.take s.symbolLimit) found ∧ Ranking listed ranked ∧
      s.workNext.client.sent.getLast? = some (.response
        (.ok job.id (.arr (found.filterMap SymbolMatch.toJson?)))) ∧
      (found = ranked.take s.symbolLimit ↔ ∀ kept ∈ listed.take s.symbolLimit,
        ∀ left ∈ listed.drop s.symbolLimit, ¬ left.Outranks kept) := by
  intro listed
  have hfound := SymbolMatch.ranking_best listed s.symbolLimit
  have hranked := SymbolMatch.ranking_mergeSort listed
  have houtcome : (outcome { s with queue := rest } b job).1 = _ :=
    outcome_symbols hcapabilities hp hquestion hactive
  exact ⟨_, _, hfound, hranked, sent_workNext hs hqueue hb houtcome, hfound.eq_take_iff hranked⟩

/-- Files of which one declares a longer name than the one behind it. -/
def searchedDisk : FileTree :=
  let place (name : String) : Place := ["p".toList, name.toList]
  ⟨[(["p".toList], .directory),
    (place "a.rs", .file (.text "fn main_loop() {}\n".toList) true),
    (place "b.rs", .file (.text "fn main() {}\n".toList) true)]⟩

def searchedProject : Project :=
  .ofDirectory searchedDisk [] (.ofUri Workspace.sampleRoot) "/p".toList

/-- A session on those files that asks for the shorter name, and that gives so many symbols. -/
def searching (symbolLimit : Nat) : Session where
  phase := .serving
  symbolLimit := symbolLimit
  workspace :=
    { disk := searchedDisk
      projects := [searchedProject]
      table := [(.ofUri Workspace.sampleRoot, 0)] }
  slot := some 0
  bindings := [{ project := 0, documents := { project := 0 } }]
  current := some 0
  queue := [⟨0, 0, .number 2, .symbols "main".toList, false, false⟩]
  issued := 1

theorem live_searching (symbolLimit : Nat) : (searching symbolLimit).Live := by
  refine ⟨rfl, fun job hjob => ?_, fun i hi => ?_⟩
  · rw [List.mem_singleton.1 hjob]
    exact Nat.one_pos
  · cases hi
    exact Nat.one_pos

/-- With room for two symbols nothing is left out, and the answer is the ranking of all matches. -/
theorem symbols_ranked_within_limit_two :
    ∃ ranked,
      Ranking (Query.symbolMatches searchedProject.root searchedProject.index "main".toList)
        ranked ∧
      (searching 2).workNext.client.sent.getLast? = some (.response
        (.ok (.number 2) (.arr ((ranked.take 2).filterMap SymbolMatch.toJson?)))) := by
  obtain ⟨found, ranked, -, hranked, hsent, hbest⟩ := symbols_ranked_within_limit
    (live_searching 2) rfl rfl rfl (p := searchedProject) rfl rfl rfl
  have hfound : found = ranked.take 2 := hbest.2 (by decide +kernel)
  exact ⟨ranked, hranked, hfound ▸ hsent⟩

/-- With room for one symbol the longer name is the answer, although the very name is listed as
well, has an address and outranks it. -/
theorem better_symbol_left_out :
    let listed := Query.symbolMatches searchedProject.root searchedProject.index "main".toList
    ∃ kept left, listed = [kept, left] ∧ left.Outranks kept ∧ left.toJson?.isSome = true ∧
      (searching 1).workNext.client.sent.getLast? = some (.response
        (.ok (.number 2) (.arr ([kept].filterMap SymbolMatch.toJson?)))) ∧
      ∀ ranked, Ranking listed ranked →
        (searching 1).workNext.client.sent.getLast? ≠ some (.response
          (.ok (.number 2) (.arr ((ranked.take 1).filterMap SymbolMatch.toJson?)))) := by
  intro listed
  let kept : SymbolMatch := ⟨"main_loop".toList, .function, none,
    ⟨.ofUri "file:///p/a.rs".toList, ⟨⟨0, 3⟩, ⟨0, 12⟩⟩⟩, 70, true⟩
  let left : SymbolMatch := ⟨"main".toList, .function, none,
    ⟨.ofUri "file:///p/b.rs".toList, ⟨⟨0, 3⟩, ⟨0, 7⟩⟩⟩, 100, true⟩
  have hlisted : listed = [kept, left] := by decide +kernel
  have hbetter : left.Outranks kept := by decide
  have hnames : kept.name ≠ left.name := by decide
  have hexpressible : kept.toJson?.isSome = true ∧ left.toJson?.isSome = true := by decide +kernel
  clear_value kept left
  obtain ⟨keptJson, hkept⟩ := Option.isSome_iff_exists.1 hexpressible.1
  obtain ⟨leftJson, hleft⟩ := Option.isSome_iff_exists.1 hexpressible.2
  have hcut : best 1 (listed.take (max 1 1)) = [kept] := by
    rw [hlisted]
    exact congrArg (List.take 1) (List.mergeSort_singleton kept)
  have hsent : (searching 1).workNext.client.sent.getLast? = some (.response
      (.ok (.number 2) (.arr ((best 1 (listed.take (max 1 1))).filterMap SymbolMatch.toJson?)))) :=
    sent_workNext (live_searching 1) rfl rfl
      (outcome_symbols (p := searchedProject) rfl rfl rfl rfl)
  rw [hcut] at hsent
  refine ⟨kept, left, hlisted, hbetter, hexpressible.2, hsent, fun ranked hranked heq => ?_⟩
  rw [hlisted] at hranked
  rw [hranked.unique (SymbolMatch.ranking_pair hbetter), hsent] at heq
  simp only [List.take_succ_cons, List.take_zero, List.filterMap_cons, List.filterMap_nil, hkept,
    hleft, Response.ok, Option.some.injEq, Message.response.injEq, Response.mk.injEq,
    Json.arr.injEq, List.cons.injEq, and_true, true_and] at heq
  exact hnames (SymbolMatch.name_eq_of_toJson? hkept (heq ▸ hleft))

end Session

end LanguageServer
