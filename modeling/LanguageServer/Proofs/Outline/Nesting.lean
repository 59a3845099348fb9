import LanguageServer.Outline.Scan
import LanguageServer.Proofs.Outline.Lines
import LanguageServer.Proofs.Outline.Preorder
import LanguageServer.Proofs.Text.Cuts

/-!
# Declarations nest

The blocks that are open while a text is read are a stack, and the declarations they belong to lie
on the path to the last declaration. A declaration ends when its block is taken off the stack, at
the end of the text read so far, so it ends no earlier than anything below it; and it is never
changed again, so whatever comes next to it starts on a later line. This is what `Nests` says of the
declarations and the open blocks; taking a block off (`Nests.pop`) and adding a declaration
(`Nests.push`) keep it.
-/

namespace LanguageServer

namespace Position

theorem line_le_of_le {p q : Position} (h : p.le q = true) : p.line ≤ q.line := by
  rw [le_iff] at h
  omega

end Position

namespace Range

/-- The other range lies inside, both its ends included. -/
structure Encloses (outer inner : Range) : Prop where
  start : outer.contains inner.start = true
  stop : outer.contains inner.stop = true

theorem contains_iff {r : Range} {p : Position} :
    r.contains p = true ↔ r.start.le p = true ∧ p.le r.stop = true := by
  rw [contains, Bool.and_eq_true]

theorem Encloses.start_le_stop {outer inner : Range} (h : outer.Encloses inner) :
    outer.start.le outer.stop = true := by
  obtain ⟨hlow, hhigh⟩ := contains_iff.1 h.start
  exact Position.le_trans hlow hhigh

/-- A range that ends later still encloses what it enclosed. -/
theorem Encloses.extend {outer inner : Range} (h : outer.Encloses inner) {stop : Position}
    (hstop : outer.stop.le stop = true) : Encloses { outer with stop } inner := by
  constructor
  · obtain ⟨hlow, hhigh⟩ := contains_iff.1 h.start
    exact contains_iff.2 ⟨hlow, Position.le_trans hhigh hstop⟩
  · obtain ⟨hlow, hhigh⟩ := contains_iff.1 h.stop
    exact contains_iff.2 ⟨hlow, Position.le_trans hhigh hstop⟩

end Range

namespace Outline

variable {o : Outline} {b : Block} {blocks rest : List Block} {stop : Position}

/-! ### Ending a block -/

/-- A declaration after the block has ended. -/
def endedBy (b : Block) (stop : Position) (i : Nat) (d : Declaration) : Declaration :=
  if b.declaration = some i ∧ b.startLine < stop.line then { d with range := { d.range with stop } }
  else d

theorem getElem?_endBlock (o : Outline) (b : Block) (stop : Position) (i : Nat) :
    (endBlock o b stop).declarations[i]? = o.declarations[i]?.map (endedBy b stop i) := by
  unfold endBlock endedBy
  split
  · next hnone => simp [hnone]
  · next j hj =>
      split
      · next hle =>
          simp [Nat.not_lt.2 hle]
      · next hlt =>
          simp only [hj, Option.some.injEq, Array.getElem?_modify]
          split
          · next heq => simp [heq, Nat.lt_of_not_le hlt]
          · next hne => simp [hne]

theorem exists_of_getElem?_endBlock {i : Nat} {d : Declaration}
    (h : (endBlock o b stop).declarations[i]? = some d) :
    ∃ e, o.declarations[i]? = some e ∧ endedBy b stop i e = d := by
  rwa [getElem?_endBlock, Option.map_eq_some_iff] at h

theorem endedBy_cases (b : Block) (stop : Position) (i : Nat) (d : Declaration) :
    endedBy b stop i d = d ∧ (b.declaration = some i → stop.line ≤ b.startLine) ∨
      b.declaration = some i ∧ endedBy b stop i d = { d with range := { d.range with stop } } := by
  unfold endedBy
  split
  · next h => exact .inr ⟨h.1, rfl⟩
  · next h => exact .inl ⟨rfl, fun hb => Nat.le_of_not_lt fun hlt => h ⟨hb, hlt⟩⟩

theorem endedBy_of_ne {i : Nat} (h : b.declaration ≠ some i) (stop : Position) (d : Declaration) :
    endedBy b stop i d = d := by
  rw [endedBy, if_neg fun hb => h hb.1]

@[simp] theorem parent_endedBy (b : Block) (stop : Position) (i : Nat) (d : Declaration) :
    (endedBy b stop i d).parent = d.parent := by
  unfold endedBy
  split <;> rfl

@[simp] theorem selection_endedBy (b : Block) (stop : Position) (i : Nat) (d : Declaration) :
    (endedBy b stop i d).selection = d.selection := by
  unfold endedBy
  split <;> rfl

@[simp] theorem start_endedBy (b : Block) (stop : Position) (i : Nat) (d : Declaration) :
    (endedBy b stop i d).range.start = d.range.start := by
  unfold endedBy
  split <;> rfl

theorem parents_endBlock (o : Outline) (b : Block) (stop : Position) :
    (endBlock o b stop).parents = o.parents := by
  refine List.ext_getElem? fun i => ?_
  rw [parents, parents, List.getElem?_map, List.getElem?_map, Array.getElem?_toList,
    Array.getElem?_toList, getElem?_endBlock, Option.map_map]
  congr 1
  funext d
  exact parent_endedBy b stop i d

/-! ### Open blocks -/

/-- The declarations that the open blocks belong to, innermost first. -/
def opened (blocks : List Block) : List Nat := blocks.filterMap (·.declaration)

/-- The declarations nest as far as they have ended, and the others lie on the path. -/
structure Nests (o : Outline) (blocks : List Block) (stop : Position) : Prop where
  selection : ∀ {i : Nat} {d : Declaration}, o.declarations[i]? = some d →
    d.range.Encloses d.selection
  bounded : ∀ {i : Nat} {d : Declaration}, o.declarations[i]? = some d →
    d.range.stop.le stop = true
  ascending : ∀ {i j : Nat} {d e : Declaration}, i < j → o.declarations[i]? = some d →
    o.declarations[j]? = some e → d.range.start.line < e.range.start.line
  behind : ∀ {i p : Nat} {d : Declaration}, o.declarations[i]? = some d → d.parent = some p → p < i
  within : ∀ {i p : Nat} {d e : Declaration}, o.declarations[i]? = some d → d.parent = some p →
    o.declarations[p]? = some e → p ∉ opened blocks → d.range.stop.le e.range.stop = true
  apart : ∀ {i j : Nat} {d e : Declaration}, i < j → o.declarations[i]? = some d →
    o.declarations[j]? = some e → d.parent = e.parent →
    i ∉ opened blocks ∧ d.range.stop.line < e.range.start.line
  preorder : o.IsPreorder
  onPath : (opened blocks).Sublist o.path
  around : ∀ {i p : Nat} {d : Declaration}, i ∈ opened blocks → o.declarations[i]? = some d →
    d.parent = some p → p ∈ opened blocks
  starts : ∀ {b : Block} {i : Nat} {d : Declaration}, b ∈ blocks → b.declaration = some i →
    o.declarations[i]? = some d → d.range.start.line = b.startLine

namespace Nests

theorem isPath (h : Nests o blocks stop) : IsPath (opened blocks) o.declarations.size :=
  ⟨(isPath_path o).descending.sublist h.onPath, fun i hi =>
    (isPath_path o).lt i (h.onPath.subset hi)⟩

theorem mono (h : Nests o blocks stop) {later : Position} (hlater : stop.le later = true) :
    Nests o blocks later :=
  { h with bounded := fun hd => Position.le_trans (h.bounded hd) hlater }

/-- Blocks without a declaration come and go. -/
theorem of_opened_eq (h : Nests o blocks stop) {blocks' : List Block}
    (hopened : opened blocks' = opened blocks)
    (hblocks : ∀ b ∈ blocks', b.declaration = none ∨ b ∈ blocks) : Nests o blocks' stop := by
  have hwithin := @h.within
  have hapart := @h.apart
  have honPath := h.onPath
  have haround := @h.around
  rw [← hopened] at hwithin hapart honPath haround
  refine { h with
    within := hwithin, apart := hapart, onPath := honPath, around := haround, starts := ?_ }
  intro b i d hb hi hd
  rcases hblocks b hb with hnone | hb
  · rw [hnone] at hi
    cases hi
  · exact h.starts hb hi hd

/-- The innermost block ends where the text ends that has been read so far. -/
theorem pop (h : Nests o (b :: rest) stop) : Nests (endBlock o b stop) rest stop := by
  cases hb : b.declaration with
  | none =>
      have hsame : endBlock o b stop = o := by simp only [endBlock, hb]
      rw [hsame]
      refine h.of_opened_eq (List.filterMap_cons_none hb).symm fun c hc => .inr ?_
      exact List.mem_cons_of_mem b hc
  | some n =>
      have hopened : opened (b :: rest) = n :: opened rest := List.filterMap_cons_some hb
      have hpath := h.isPath.descending
      have hwithin := @h.within
      have hapart := @h.apart
      have honPath := h.onPath
      have haround := @h.around
      rw [hopened] at hpath hwithin hapart honPath haround
      have houter := (List.pairwise_cons.1 hpath).1
      have hkept : ∀ {i : Nat} (d : Declaration), i ≠ n → endedBy b stop i d = d :=
        fun d hi => endedBy_of_ne (fun heq => hi (Option.some.inj (heq.symm.trans hb))) stop d
      constructor
      case selection =>
        intro i d hd'
        obtain ⟨e, he, rfl⟩ := exists_of_getElem?_endBlock hd'
        rw [selection_endedBy]
        rcases endedBy_cases b stop i e with ⟨hsame, -⟩ | ⟨-, hended⟩
        · rw [hsame]
          exact h.selection he
        · rw [hended]
          exact (h.selection he).extend (h.bounded he)
      case bounded =>
        intro i d hd'
        obtain ⟨e, he, rfl⟩ := exists_of_getElem?_endBlock hd'
        rcases endedBy_cases b stop i e with ⟨hsame, -⟩ | ⟨-, hended⟩
        · rw [hsame]
          exact h.bounded he
        · rw [hended]
          exact Position.le_refl stop
      case ascending =>
        intro i j d e hij hd' he'
        obtain ⟨d, hd, rfl⟩ := exists_of_getElem?_endBlock hd'
        obtain ⟨e, he, rfl⟩ := exists_of_getElem?_endBlock he'
        rw [start_endedBy, start_endedBy]
        exact h.ascending hij hd he
      case behind =>
        intro i p d hd' hp
        obtain ⟨d, hd, rfl⟩ := exists_of_getElem?_endBlock hd'
        rw [parent_endedBy] at hp
        exact h.behind hd hp
      case within =>
        intro i p d e hd' hp he' hout
        obtain ⟨d, hd, rfl⟩ := exists_of_getElem?_endBlock hd'
        obtain ⟨e, he, rfl⟩ := exists_of_getElem?_endBlock he'
        rw [parent_endedBy] at hp
        have hpi := h.behind hd hp
        -- What the block belongs to has ended before only if nothing is below it.
        by_cases hpn : p = n
        · subst hpn
          rw [hkept d (Nat.ne_of_gt hpi)]
          rcases endedBy_cases b stop p e with ⟨-, hearly⟩ | ⟨-, hended⟩
          · have hstart := h.starts List.mem_cons_self hb he
            have hline := h.ascending hpi he hd
            have hstop := Position.line_le_of_le (h.bounded hd)
            have hrange := Position.line_le_of_le (h.selection hd).start_le_stop
            have := hearly hb
            omega
          · rw [hended]
            exact h.bounded hd
        · have hin : i ≠ n := by
            rintro rfl
            have hmem := haround List.mem_cons_self hd hp
            exact (List.mem_cons.1 hmem).elim hpn hout
          rw [hkept d hin, hkept e hpn]
          exact hwithin hd hp he fun hmem => (List.mem_cons.1 hmem).elim hpn hout
      case apart =>
        intro i j d e hij hd' he' hsame
        obtain ⟨d, hd, rfl⟩ := exists_of_getElem?_endBlock hd'
        obtain ⟨e, he, rfl⟩ := exists_of_getElem?_endBlock he'
        rw [parent_endedBy, parent_endedBy] at hsame
        obtain ⟨hout, hline⟩ := hapart hij hd he hsame
        rw [List.mem_cons, not_or] at hout
        rw [hkept d hout.1, start_endedBy]
        exact ⟨hout.2, hline⟩
      case preorder =>
        rw [IsPreorder, parents_endBlock]
        exact h.preorder
      case onPath =>
        rw [path, parents_endBlock]
        exact (List.sublist_cons_self n _).trans honPath
      case around =>
        intro i p d hi hd' hp
        obtain ⟨d, hd, rfl⟩ := exists_of_getElem?_endBlock hd'
        rw [parent_endedBy] at hp
        rcases List.mem_cons.1 (haround (List.mem_cons_of_mem n hi) hd hp) with rfl | hmem
        · exact absurd (h.behind hd hp) (Nat.lt_asymm (houter i hi))
        · exact hmem
      case starts =>
        intro c i d hc hi hd'
        obtain ⟨d, hd, rfl⟩ := exists_of_getElem?_endBlock hd'
        rw [start_endedBy]
        exact h.starts (List.mem_cons_of_mem b hc) hi hd

end Nests

/-! ### Adding a declaration -/

theorem sublist_dropWhile {inner path : List Nat} (h : inner.Sublist path) :
    inner.Sublist (path.dropWhile (inner.head? != some ·)) := by
  cases inner with
  | nil => exact List.nil_sublist _
  | cons first rest =>
      induction path with
      | nil => cases h
      | cons i path ih =>
          by_cases hi : first = i
          · rw [List.dropWhile_cons_of_neg (by simpa using hi)]
            exact h
          · rw [List.dropWhile_cons_of_pos (by simpa using hi)]
            cases h with
            | cons _ h => exact ih h
            | cons_cons _ h => exact absurd rfl hi

/-- A declaration with its block, if it opens one, on top of the open blocks. -/
structure Pushes (o : Outline) (d : Declaration) (blocks blocks' : List Block) : Prop where
  opened : opened blocks' = opened blocks ∨ opened blocks' = o.declarations.size :: opened blocks
  starts : ∀ b ∈ blocks', b ∈ blocks ∨
    b.declaration = some o.declarations.size ∧ b.startLine = d.range.start.line

theorem getElem?_push_cases {o : Outline} {d e : Declaration} {i : Nat}
    (h : (o.declarations.push d)[i]? = some e) :
    i = o.declarations.size ∧ e = d ∨ i < o.declarations.size ∧ o.declarations[i]? = some e := by
  rw [Array.getElem?_push] at h
  split at h
  · next hi => exact .inl ⟨hi, (Option.some.inj h).symm⟩
  · exact .inr ⟨(Array.getElem?_eq_some_iff.1 h).1, h⟩

/-- A declaration of the innermost open block is added on a later line than all before. -/
theorem Nests.push (h : Nests o blocks stop) {d : Declaration} {blocks' : List Block}
    {later : Position} (hparent : d.parent = (opened blocks).head?)
    (hselection : d.range.Encloses d.selection) (hlater : stop.le later = true)
    (hstop : d.range.stop.le later = true)
    (hbefore : ∀ {i : Nat} {e : Declaration}, o.declarations[i]? = some e →
      e.range.stop.line < d.range.start.line)
    (hpushes : Pushes o d blocks blocks') (implementations : Array Implementation) :
    Nests ⟨o.declarations.push d, implementations⟩ blocks' later := by
  have hpath := h.isPath
  have hparents : Outline.parents ⟨o.declarations.push d, implementations⟩
      = o.parents ++ [d.parent] := by
    rw [parents, Array.toList_push, List.map_append, parents]
    rfl
  have hhead : ∀ p, d.parent = some p → p ∈ opened blocks := fun p hp =>
    List.mem_of_head? (hparent ▸ hp)
  have hopened : ∀ i < o.declarations.size, i ∈ opened blocks' ↔ i ∈ opened blocks := by
    intro i hi
    rcases hpushes.opened with hsame | hcons
    · rw [hsame]
    · rw [hcons, List.mem_cons, or_iff_right (Nat.ne_of_lt hi)]
  constructor
  case selection =>
    intro i e he
    rcases getElem?_push_cases he with ⟨-, rfl⟩ | ⟨-, he⟩
    · exact hselection
    · exact h.selection he
  case bounded =>
    intro i e he
    rcases getElem?_push_cases he with ⟨-, rfl⟩ | ⟨-, he⟩
    · exact hstop
    · exact Position.le_trans (h.bounded he) hlater
  case ascending =>
    intro i j c e hij hc he
    rcases getElem?_push_cases he with ⟨rfl, rfl⟩ | ⟨hj, he⟩
    · rcases getElem?_push_cases hc with ⟨rfl, -⟩ | ⟨-, hc⟩
      · exact absurd hij (Nat.lt_irrefl _)
      · have hrange := Position.line_le_of_le (h.selection hc).start_le_stop
        exact Nat.lt_of_le_of_lt hrange (hbefore hc)
    · rcases getElem?_push_cases hc with ⟨rfl, -⟩ | ⟨-, hc⟩
      · exact absurd hij (Nat.lt_asymm hj)
      · exact h.ascending hij hc he
  case behind =>
    intro i p e he hp
    rcases getElem?_push_cases he with ⟨rfl, rfl⟩ | ⟨-, he⟩
    · exact hpath.lt p (hhead p hp)
    · exact h.behind he hp
  case within =>
    intro i p c e hc hp he hout
    rcases getElem?_push_cases hc with ⟨-, rfl⟩ | ⟨hi, hc⟩
    · have hmem := hhead p hp
      exact absurd ((hopened p (hpath.lt p hmem)).2 hmem) hout
    · have hpi := h.behind hc hp
      rcases getElem?_push_cases he with ⟨rfl, -⟩ | ⟨hlt, he⟩
      · exact absurd hi (Nat.lt_asymm hpi)
      · exact h.within hc hp he fun hmem => hout ((hopened p hlt).2 hmem)
  case apart =>
    intro i j c e hij hc he hsame
    rcases getElem?_push_cases he with ⟨rfl, rfl⟩ | ⟨hj, he⟩
    · rcases getElem?_push_cases hc with ⟨rfl, -⟩ | ⟨hi, hc⟩
      · exact absurd hij (Nat.lt_irrefl _)
      · refine ⟨fun hmem => ?_, hbefore hc⟩
        -- The parent is the innermost open one, so no sibling is open any more.
        have hmem := (hopened i hi).1 hmem
        cases hblocks : opened blocks with
        | nil =>
            rw [hblocks] at hmem
            cases hmem
        | cons first outer =>
            rw [hblocks] at hparent hmem
            have hbehind := h.behind hc (hsame.trans hparent)
            have hdescending := hpath.descending
            rw [hblocks] at hdescending
            rcases List.mem_cons.1 hmem with rfl | hmem
            · exact Nat.lt_irrefl i hbehind
            · exact Nat.lt_asymm hbehind ((List.pairwise_cons.1 hdescending).1 i hmem)
    · rcases getElem?_push_cases hc with ⟨rfl, -⟩ | ⟨hi, hc⟩
      · exact absurd hij (Nat.lt_asymm hj)
      · obtain ⟨hout, hline⟩ := h.apart hij hc he hsame
        exact ⟨fun hmem => hout ((hopened i hi).1 hmem), hline⟩
  case preorder =>
    rw [IsPreorder, hparents, isPreorderFrom_concat]
    exact ⟨h.preorder, fun p hp => h.onPath.subset (hhead p hp)⟩
  case onPath =>
    have hlength : o.parents.length = o.declarations.size := by simp [parents]
    have hkept := sublist_dropWhile h.onPath
    rw [path, hparents, pathAfter_concat, Nat.zero_add, hlength, hparent]
    rcases hpushes.opened with hsame | hcons
    · rw [hsame]
      exact hkept.cons _
    · rw [hcons]
      exact hkept.cons_cons _
  case around =>
    intro i p e hi he hp
    rcases getElem?_push_cases he with ⟨rfl, rfl⟩ | ⟨hlt, he⟩
    · have hmem := hhead p hp
      exact (hopened p (hpath.lt p hmem)).2 hmem
    · have hmem := h.around ((hopened i hlt).1 hi) he hp
      exact (hopened p (hpath.lt p hmem)).2 hmem
  case starts =>
    intro b i e hb hi he
    rcases hpushes.starts b hb with hold | ⟨hsize, hstart⟩
    · have hlt : i < o.declarations.size :=
        hpath.lt i (List.mem_filterMap.2 ⟨b, hold, hi⟩)
      rcases getElem?_push_cases he with ⟨rfl, -⟩ | ⟨-, he⟩
      · exact absurd hlt (Nat.lt_irrefl _)
      · exact h.starts hold hi he
    · obtain rfl := Option.some.inj (hsize.symm.trans hi)
      rcases getElem?_push_cases he with ⟨-, rfl⟩ | ⟨hlt, -⟩
      · exact hstart.symm
      · exact absurd hlt (Nat.lt_irrefl _)

end Outline

end LanguageServer
