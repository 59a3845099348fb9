import LanguageServer.Proofs.Text.Cuts

/-!
# Line breaks of two kinds

A text whose carriage returns are all followed by a line feed keeps its meaning when they are left
out. In such a text normalizing is just that (`normalizeNewlines_eq_withoutReturns`), and because
leaving characters out goes through every cut, two texts that are equal without their returns are
cut in the same places by the same positions. `withoutReturns_replaceRange` puts that together: the
same edit, made in either text, leads to texts that are equal without their returns again.
-/

namespace LanguageServer.Text

/-- Every carriage return is directly followed by a line feed. -/
def ReturnsPaired (t : Text) : Prop :=
  ∀ before after, t = before ++ '\r' :: after → after.head? = some '\n'

/-- A text without its carriage returns. -/
def withoutReturns (t : Text) : Text := t.filter (· != '\r')

@[simp] theorem withoutReturns_append (s t : Text) :
    withoutReturns (s ++ t) = withoutReturns s ++ withoutReturns t :=
  List.filter_append s t

theorem withoutReturns_of_not_mem {t : Text} (ht : '\r' ∉ t) : withoutReturns t = t := by
  refine List.filter_eq_self.2 fun c hc => ?_
  simpa using fun h : c = '\r' => ht (h ▸ hc)

theorem return_not_mem_withoutReturns (t : Text) : '\r' ∉ withoutReturns t := by
  simp [withoutReturns]

/-! ### Texts with paired returns -/

theorem returnsPaired_nil : ReturnsPaired [] := by
  intro before after h
  simp at h

theorem returnsPaired_cons_iff {c : Char} {t : Text} :
    ReturnsPaired (c :: t) ↔ (c = '\r' → t.head? = some '\n') ∧ ReturnsPaired t := by
  constructor
  · intro h
    refine ⟨fun hc => h [] t (by rw [hc, List.nil_append]), fun before after ht => ?_⟩
    exact h (c :: before) after (by rw [ht, List.cons_append])
  · rintro ⟨hc, ht⟩ before after h
    cases before with
    | nil =>
        rw [List.nil_append, List.cons.injEq] at h
        exact h.2 ▸ hc h.1
    | cons b before =>
        rw [List.cons_append, List.cons.injEq] at h
        exact ht before after h.2

instance decidableReturnsPaired : (t : Text) → Decidable (ReturnsPaired t)
  | [] => isTrue returnsPaired_nil
  | _ :: t =>
    have := decidableReturnsPaired t
    decidable_of_iff' _ returnsPaired_cons_iff

theorem returnsPaired_of_not_mem {t : Text} (ht : '\r' ∉ t) : ReturnsPaired t := by
  intro before after h
  exact absurd (h ▸ List.mem_append_right before List.mem_cons_self) ht

namespace ReturnsPaired

theorem append {s t : Text} (hs : ReturnsPaired s) (ht : ReturnsPaired t) :
    ReturnsPaired (s ++ t) := by
  induction s with
  | nil => exact ht
  | cons c s ih =>
      obtain ⟨hc, hs⟩ := returnsPaired_cons_iff.1 hs
      refine returnsPaired_cons_iff.2 ⟨fun h => ?_, ih hs⟩
      change (s ++ t).head? = some '\n'
      rw [List.head?_append, hc h, Option.some_or]

theorem right {s t : Text} (h : ReturnsPaired (s ++ t)) : ReturnsPaired t := by
  induction s with
  | nil => exact h
  | cons c s ih => exact ih (returnsPaired_cons_iff.1 h).2

theorem left {s t : Text} (h : ReturnsPaired (s ++ t)) (hs : s.getLast? ≠ some '\r') :
    ReturnsPaired s := by
  intro before after hcut
  have hhead := h before (after ++ t) (by rw [hcut, List.append_assoc, List.cons_append])
  cases after with
  | nil => exact absurd (by rw [hcut, List.getLast?_append]; rfl) hs
  | cons a after => exact hhead

/-- A line break is needed for a return. -/
theorem return_not_mem {t : Text} (h : ReturnsPaired t) (ht : '\n' ∉ t) : '\r' ∉ t := by
  intro hmem
  obtain ⟨before, after, rfl⟩ := List.append_of_mem hmem
  have hhead := List.mem_of_mem_head? (h before after rfl)
  exact ht (List.mem_append_right before (List.mem_cons_of_mem _ hhead))

end ReturnsPaired

/-! ### Normalizing -/

theorem normalizeNewlines_go_eq (done : Text) {t : Text} (ht : ReturnsPaired t) :
    normalizeNewlines.go done t = done.reverse ++ withoutReturns t := by
  fun_induction normalizeNewlines.go done t with
  | case1 done => simp [withoutReturns]
  | case2 done rest ih =>
      have hrest := (returnsPaired_cons_iff.1 (returnsPaired_cons_iff.1 ht).2).2
      rw [ih hrest]
      simp [withoutReturns]
  | case3 done c rest hunpaired ih =>
      obtain ⟨hc, hrest⟩ := returnsPaired_cons_iff.1 ht
      have hne : c ≠ '\r' := by
        rintro rfl
        obtain ⟨tail, rfl⟩ := List.head?_eq_some_iff.1 (hc rfl)
        exact hunpaired tail rfl rfl
      rw [ih hrest]
      simp [withoutReturns, hne]

/-- Normalizing a text with paired returns leaves them out. -/
theorem normalizeNewlines_eq_withoutReturns {t : Text} (ht : ReturnsPaired t) :
    t.normalizeNewlines = withoutReturns t :=
  normalizeNewlines_go_eq [] ht

/-! ### Cutting two texts in the same place -/

/-- A cut of a text without its returns is one of the text itself, and not inside a line break. -/
theorem exists_cut_of_withoutReturns {t s u : Text} (ht : ReturnsPaired t)
    (hcut : withoutReturns t = s ++ u) :
    ∃ before after, t = before ++ after ∧ before.getLast? ≠ some '\r' ∧
      withoutReturns before = s ∧ withoutReturns after = u := by
  obtain ⟨before, after, rfl, hbefore, hafter⟩ := List.filter_eq_append_iff.1 hcut
  by_cases hlast : before.getLast? = some '\r'
  · obtain ⟨start, rfl⟩ := List.getLast?_eq_some_iff.1 hlast
    refine ⟨start, '\r' :: after, by simp, fun hstart => ?_, ?_, ?_⟩
    · obtain ⟨start', rfl⟩ := List.getLast?_eq_some_iff.1 hstart
      exact absurd (ht start' ('\r' :: after) (by simp)) (by simp)
    · simpa [withoutReturns] using hbefore
    · simpa [withoutReturns] using hafter
  · exact ⟨before, after, rfl, hlast, hbefore, hafter⟩

/-- Returns take part in no position that lies outside of a line break. -/
theorem after_withoutReturns {t : Text} (ht : ReturnsPaired t) :
    Position.after (withoutReturns t) = Position.after t := by
  rcases exists_lastLine t with hnone | ⟨start, last, rfl, hlast⟩
  · rw [withoutReturns_of_not_mem (ht.return_not_mem hnone)]
  · have hreturn : '\r' ∉ last := (returnsPaired_cons_iff.1 ht.right).2.return_not_mem hlast
    have hcount : (withoutReturns start).count '\n' = start.count '\n' :=
      List.count_filter (by decide)
    have hcut : withoutReturns (start ++ '\n' :: last) = withoutReturns start ++ '\n' :: last := by
      have hcons : withoutReturns ('\n' :: last) = '\n' :: last :=
        withoutReturns_of_not_mem (by simpa using hreturn)
      rw [withoutReturns_append, hcons]
    rw [hcut, after_append_cons _ hlast, after_append_cons _ hlast, hcount]

/-- The position right after a beginning of one text cuts the other text in the same place. -/
theorem beforePosition_after_of_withoutReturns {before after : Text} {mine : Text}
    (hbefore : before.getLast? ≠ some '\r') (hpaired : ReturnsPaired before)
    (hmine : ReturnsPaired mine) (heq : withoutReturns mine = withoutReturns before) :
    beforePosition (before ++ after) (.after mine) = before := by
  rw [← after_withoutReturns hmine, heq, after_withoutReturns hpaired,
    beforePosition_after hbefore after]

/-- Two texts that are equal without their returns stay so when the same edit is made in both: in
`theirs` between the places it names, and in `mine` at the positions of these places. -/
theorem withoutReturns_replaceRange {mine before old after new : Text}
    (hmine : ReturnsPaired mine) (htheirs : ReturnsPaired (before ++ old ++ after))
    (hstart : before.getLast? ≠ some '\r') (hstop : (before ++ old).getLast? ≠ some '\r')
    (hnew : ReturnsPaired new)
    (heq : withoutReturns mine = withoutReturns (before ++ old ++ after)) :
    ReturnsPaired
        (mine.replaceRange ⟨.after before, .after (before ++ old)⟩ new.normalizeNewlines) ∧
      withoutReturns
          (mine.replaceRange ⟨.after before, .after (before ++ old)⟩ new.normalizeNewlines)
        = withoutReturns (before ++ new ++ after) := by
  have hbefore : ReturnsPaired before := by
    rw [List.append_assoc] at htheirs
    exact htheirs.left hstart
  have hinside : ReturnsPaired (before ++ old) := htheirs.left hstop
  rw [withoutReturns_append, withoutReturns_append, List.append_assoc] at heq
  -- The places of `theirs` are found in `mine` from the left, the second in what the first leaves.
  obtain ⟨before', rest, rfl, hstart', hbefore', hrest⟩ := exists_cut_of_withoutReturns hmine heq
  obtain ⟨old', after', rfl, hold', hold, hafter⟩ :=
    exists_cut_of_withoutReturns hmine.right hrest
  have hstop' : (before' ++ old').getLast? ≠ some '\r' := by
    rw [List.getLast?_append]
    cases h : List.getLast? old' with
    | none => rwa [Option.none_or]
    | some c => rwa [Option.some_or, ← h]
  have hfirst : beforePosition (before' ++ (old' ++ after')) (.after before) = before' :=
    beforePosition_after_of_withoutReturns hstart' (hmine.left hstart') hbefore hbefore'.symm
  have hsecond : beforePosition (before' ++ (old' ++ after')) (.after (before ++ old))
      = before' ++ old' := by
    rw [← List.append_assoc]
    refine beforePosition_after_of_withoutReturns hstop' ?_ hinside ?_
    · rw [← List.append_assoc] at hmine
      exact hmine.left hstop'
    · rw [withoutReturns_append, withoutReturns_append, hbefore', hold]
  have hreplaced : replaceRange (before' ++ (old' ++ after'))
      ⟨.after before, .after (before ++ old)⟩ new.normalizeNewlines
        = before' ++ withoutReturns new ++ after' := by
    have hlength : before'.length ≤ (before' ++ old').length := by
      rw [List.length_append]
      exact Nat.le_add_right _ _
    simp only [replaceRange, charSpan, hfirst, hsecond, splice, Nat.min_eq_left hlength,
      Nat.max_eq_right hlength, List.take_left, normalizeNewlines_eq_withoutReturns hnew]
    rw [← List.append_assoc before' old' after', List.drop_left]
  rw [hreplaced]
  constructor
  · refine ((hmine.left hstart').append ?_).append hmine.right.right
    exact returnsPaired_of_not_mem (return_not_mem_withoutReturns new)
  · rw [withoutReturns_append, withoutReturns_append, hbefore', hafter,
      withoutReturns_of_not_mem (return_not_mem_withoutReturns new)]
    simp only [withoutReturns_append]

end LanguageServer.Text
