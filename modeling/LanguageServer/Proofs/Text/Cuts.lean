import LanguageServer.Proofs.Text.Places

/-!
# Cuts and positions

Positions and the cuts of a text are in order together. A cut is clean if it does not come right
after a carriage return that belongs to a line break or ends the text: that return is no part of the
content of its line, so no position names the cut. For a clean cut, `le_iff_isPrefix` says that a
position is at or behind it exactly if the beginning that the position names covers all that stands
before the cut. Read in bytes, this is an adjunction between `positionOf` and `offsetOf`
(`addressing_adjunction`).
-/

namespace LanguageServer

namespace Position

theorem le_iff {p q : Position} :
    p.le q = true ↔ p.line < q.line ∨ p.line = q.line ∧ p.character ≤ q.character := by
  simp [le]

theorem le_refl (p : Position) : p.le p = true :=
  le_iff.2 (.inr ⟨rfl, Nat.le_refl _⟩)

theorem le_trans {p q r : Position} (hpq : p.le q = true) (hqr : q.le r = true) :
    p.le r = true := by
  rw [le_iff] at *
  omega

end Position

namespace Text

/-! ### Beginnings of one text -/

theorem splitWithinFrom_eq (w : Char → Nat) (taken : Text) (budget : Nat) (t : Text) :
    splitWithinFrom w taken budget t
      = (taken.reverse ++ (splitWithin w budget t).1, (splitWithin w budget t).2) := by
  induction t generalizing taken budget with
  | nil => simp [splitWithin, splitWithinFrom]
  | cons c t ih =>
      simp only [splitWithin, splitWithinFrom]
      split
      · rw [ih, ih [c], List.reverse_cons, List.reverse_singleton]
        simp
      · simp

theorem splitWithin_cons (w : Char → Nat) (budget : Nat) (c : Char) (t : Text) :
    (splitWithin w budget (c :: t)).1
      = if w c ≤ budget then c :: (splitWithin w (budget - w c) t).1 else [] := by
  rw [splitWithin, splitWithinFrom]
  split
  · rw [splitWithinFrom_eq, List.reverse_singleton, List.singleton_append]
  · rfl

theorem width_splitWithin_le (w : Char → Nat) (budget : Nat) (t : Text) :
    width w (splitWithin w budget t).1 ≤ budget := by
  induction t generalizing budget with
  | nil => exact Nat.zero_le budget
  | cons c t ih =>
      rw [splitWithin_cons]
      split
      · have hrest := ih (budget - w c)
        rw [width_cons]
        omega
      · exact Nat.zero_le budget

theorem width_le_of_isPrefix (w : Char → Nat) {s t : Text} (h : s <+: t) :
    width w s ≤ width w t := by
  obtain ⟨rest, rfl⟩ := h
  rw [width_append]
  exact Nat.le_add_right _ _

/-- What `splitWithin` cuts off is the longest beginning that is narrow enough. -/
theorem isPrefix_splitWithin_iff (w : Char → Nat) {s t : Text} (h : s <+: t) (budget : Nat) :
    s <+: (splitWithin w budget t).1 ↔ width w s ≤ budget := by
  constructor
  · intro hs
    exact (width_le_of_isPrefix w hs).trans (width_splitWithin_le w budget t)
  · intro hs
    induction s generalizing t budget with
    | nil => exact List.nil_prefix
    | cons c s ih =>
        obtain ⟨rest, rfl⟩ := h
        rw [width_cons] at hs
        rw [List.cons_append, splitWithin_cons, if_pos (by omega), List.cons_prefix_cons]
        exact ⟨rfl, ih (List.prefix_append s rest) _ (by omega)⟩

theorem splitWithin_isPrefix_of_le (w : Char → Nat) {a b : Nat} (hab : a ≤ b) (t : Text) :
    (splitWithin w a t).1 <+: (splitWithin w b t).1 :=
  (isPrefix_splitWithin_iff w (splitWithin_isPrefix w a t) b).2
    ((width_splitWithin_le w a t).trans hab)

/-- Of two beginnings of one text, the one with fewer bytes comes first. -/
theorem byteSize_le_iff_isPrefix {s u t : Text} (hs : s <+: t) (hu : u <+: t) :
    byteSize s ≤ byteSize u ↔ s <+: u := by
  constructor
  · intro hle
    rcases List.prefix_or_prefix_of_prefix hs hu with h | ⟨rest, rfl⟩
    · exact h
    · cases rest with
      | nil => exact ⟨[], by rw [List.append_nil, List.append_nil]⟩
      | cons c rest =>
          have hc := Char.utf8Size_pos c
          rw [byteSize_append, byteSize_cons] at hle
          omega
  · exact width_le_of_isPrefix Char.utf8Size

/-! ### Clean cuts -/

/-- The cut does not come right after a carriage return that a line feed follows, or nothing. -/
def CleanCut (before after : Text) : Prop :=
  before.getLast? = some '\r' → after ≠ [] ∧ after.head? ≠ some '\n'

instance (before after : Text) : Decidable (CleanCut before after) :=
  inferInstanceAs (Decidable (_ → _))

theorem cleanCut_of_getLast?_ne {before : Text} (h : before.getLast? ≠ some '\r') (after : Text) :
    CleanCut before after :=
  fun hreturn => absurd hreturn h

/-- The line that a cut lies in: `last` is the part of it before the cut, and `line` the part behind
it. -/
structure LineAt (before after : Text) (above : List Text) (last line : Text)
    (below : List Text) : Prop where
  lines_eq : lines (before ++ after) = above ++ (last ++ line) :: below
  before_eq : before = above.flatMap (· ++ ['\n']) ++ last
  after_eq : Position.after before = ⟨above.length, units last⟩
  ends : line = [] → after = [] ∨ after.head? = some '\n'

theorem head?_of_lines_eq {after : Text} {rest : List Text} (h : lines after = [] :: rest) :
    after = [] ∨ after.head? = some '\n' := by
  cases after with
  | nil => exact .inl rfl
  | cons c after =>
      have hwhole := flatMap_lines (c :: after)
      rw [h, List.flatMap_cons, List.nil_append, List.singleton_append, List.cons_append,
        List.cons.injEq] at hwhole
      exact .inr (congrArg some hwhole.1.symm)

theorem exists_lineAt (before after : Text) :
    ∃ above last line below, LineAt before after above last line below := by
  rcases exists_lastLine before with hnone | ⟨start, last, rfl, hlast⟩
  · obtain ⟨line, below, hafter, hlines⟩ := lines_append hnone after
    refine ⟨[], before, line, below, hlines, rfl, after_of_not_mem hnone, ?_⟩
    rintro rfl
    exact head?_of_lines_eq hafter
  · obtain ⟨line, below, hafter, hlines⟩ := lines_append hlast after
    refine ⟨lines start, last, line, below, ?_, ?_, ?_, ?_⟩
    · rw [List.append_assoc, List.cons_append, lines_append_cons, hlines]
    · rw [flatMap_lines, List.append_assoc, List.singleton_append]
    · rw [after_append_cons start hlast, length_lines]
    · rintro rfl
      exact head?_of_lines_eq hafter

namespace LineAt

variable {before after last line : Text} {above below : List Text}

/-- The part of the line before a clean cut belongs to the content of the line. -/
theorem isPrefix_lineContent (h : LineAt before after above last line below)
    (hclean : CleanCut before after) : last <+: lineContent (last ++ line) := by
  by_cases hlast : last.getLast? = some '\r'
  · have hline : line ≠ [] := by
      intro hnil
      have hreturn : before.getLast? = some '\r' := by
        rw [h.before_eq, List.getLast?_append, hlast, Option.some_or]
      obtain ⟨hafter, hhead⟩ := hclean hreturn
      exact (h.ends hnil).elim hafter hhead
    unfold lineContent
    split
    · rw [List.dropLast_append_of_ne_nil hline]
      exact List.prefix_append last _
    · exact List.prefix_append last line
  · rw [lineContent_append hlast]
    exact List.prefix_append last _

end LineAt

/-! ### The order of positions is that of cuts -/

/-- A position is at or behind a clean cut exactly if it covers what stands before the cut. -/
theorem le_iff_isPrefix {before after : Text} (hclean : CleanCut before after) (p : Position) :
    (Position.after before).le p = true ↔ before <+: beforePosition (before ++ after) p := by
  obtain ⟨above, last, line, below, h⟩ := exists_lineAt before after
  obtain ⟨lineNumber, character⟩ := p
  rw [h.after_eq, Position.le_iff]
  rcases Nat.lt_trichotomy above.length lineNumber with hlt | rfl | hgt
  · refine iff_of_true (.inl hlt) ?_
    have hlater := line_isPrefix_beforePosition h.lines_eq (p := ⟨lineNumber, character⟩) hlt
    rw [← List.append_assoc, ← h.before_eq] at hlater
    exact (List.prefix_append before line).trans hlater
  · have hcontent := h.isPrefix_lineContent hclean
    rw [beforePosition_eq h.lines_eq]
    conv => rhs; lhs; rw [h.before_eq]
    rw [List.prefix_append_right_inj, isPrefix_splitWithin_iff unitsOf hcontent]
    simp [units]
  · refine iff_of_false (by simp only; omega) fun hheld => ?_
    -- The line of the position ends before the line of the cut starts.
    obtain ⟨earlier, passed, between, rfl, rfl⟩ :
        ∃ earlier passed between, above = earlier ++ passed :: between
          ∧ earlier.length = lineNumber :=
      ⟨above.take lineNumber, above[lineNumber], above.drop (lineNumber + 1),
        by rw [List.getElem_cons_drop, List.take_append_drop],
        by rw [List.length_take, Nat.min_eq_left hgt.le]⟩
    have hlines := h.lines_eq
    rw [List.append_assoc, List.cons_append] at hlines
    have hlength := (hheld.trans (beforePosition_isPrefix_line hlines character)).length_le
    rw [h.before_eq, List.flatMap_append, List.flatMap_cons] at hlength
    simp only [List.length_append, List.length_cons, List.length_nil] at hlength
    omega

/-- The position of a clean cut leads back to it. -/
theorem beforePosition_after_of_cleanCut {before after : Text} (hclean : CleanCut before after) :
    beforePosition (before ++ after) (.after before) = before := by
  obtain ⟨above, last, line, below, h⟩ := exists_lineAt before after
  obtain ⟨rest, hrest⟩ := h.isPrefix_lineContent hclean
  rw [h.after_eq, beforePosition_eq h.lines_eq, ← hrest, units, splitWithin_width unitsOf_pos]
  exact h.before_eq.symm

/-- The position right after a beginning leads back to it, unless that ends with a return. -/
theorem beforePosition_after {before : Text} (hbefore : before.getLast? ≠ some '\r')
    (after : Text) : beforePosition (before ++ after) (.after before) = before :=
  beforePosition_after_of_cleanCut (cleanCut_of_getLast?_ne hbefore after)

/-- A later position covers more of the text. -/
theorem beforePosition_mono (t : Text) {p q : Position} (hpq : p.le q = true) :
    beforePosition t p <+: beforePosition t q := by
  by_cases hp : p.line < (lines t).length
  · obtain ⟨above, line, below, hlines, hline⟩ := exists_line hp
    rw [hline]
    rcases Position.le_iff.1 hpq with hlt | ⟨heq, hle⟩
    · rw [hline] at hlt
      exact (beforePosition_isPrefix_line hlines p.character).trans
        (line_isPrefix_beforePosition hlines hlt)
    · have hq : q = ⟨above.length, q.character⟩ := by
        rw [hline] at heq
        exact congrArg (Position.mk · q.character) heq.symm
      rw [hq, beforePosition_eq hlines, beforePosition_eq hlines, List.prefix_append_right_inj]
      exact splitWithin_isPrefix_of_le unitsOf hle _
  · have hq : (lines t).length ≤ q.line := by
      rcases Position.le_iff.1 hpq with hlt | ⟨heq, -⟩ <;> omega
    rw [beforePosition_of_length_le hq]
    exact beforePosition_isPrefix t p

/-! ### Byte offsets -/

/-- An offset between two characters that cuts the text cleanly. -/
def Addressable (t : Text) (offset : Nat) : Prop :=
  t.isBoundary offset = true ∧ CleanCut (t.beforeByte offset) (t.afterByte offset)

instance (t : Text) (offset : Nat) : Decidable (Addressable t offset) :=
  inferInstanceAs (Decidable (_ ∧ _))

theorem Addressable.exists_cut {t : Text} {offset : Nat} (h : t.Addressable offset) :
    ∃ before after, t = before ++ after ∧ byteSize before = offset ∧ CleanCut before after :=
  ⟨t.beforeByte offset, t.afterByte offset, (splitWithin_append Char.utf8Size offset t).symm,
    eq_of_beq h.1, h.2⟩

theorem isBoundary_offsetOf (t : Text) (p : Position) : t.isBoundary (t.offsetOf p) = true := by
  obtain ⟨after, hafter⟩ := beforePosition_isPrefix t p
  have hcut := isBoundary_byteSize (beforePosition t p) after
  rwa [hafter] at hcut

theorem positionOf_byteSize (before after : Text) :
    positionOf (before ++ after) (byteSize before) = .after before := by
  rw [positionOf, beforeByte_byteSize]

theorem offsetOf_mono (t : Text) {p q : Position} (hpq : p.le q = true) :
    t.offsetOf p ≤ t.offsetOf q :=
  width_le_of_isPrefix Char.utf8Size (beforePosition_mono t hpq)

/-- Positions and the offsets of clean cuts are adjoint: every position leads to a place between
two characters, and it is at or behind a clean cut exactly if the place it leads to is. So a clean
cut is found again through its position, later positions lead to later places, and a range, in
whichever order its ends are, is a stretch of whole characters. -/
theorem addressing_adjunction (t : Text) :
    (∀ p, t.isBoundary (t.offsetOf p) = true ∧ t.offsetOf p ≤ byteSize t) ∧
    (∀ p offset, t.Addressable offset →
      ((t.positionOf offset).le p = true ↔ offset ≤ t.offsetOf p)) ∧
    (∀ offset, t.Addressable offset → t.offsetOf (t.positionOf offset) = offset) ∧
    (∀ p q, p.le q = true → t.offsetOf p ≤ t.offsetOf q) ∧
    ∀ r, (t.byteSpan r).1 ≤ (t.byteSpan r).2 ∧
      t.isBoundary (t.byteSpan r).1 = true ∧ t.isBoundary (t.byteSpan r).2 = true := by
  refine ⟨fun p => ⟨isBoundary_offsetOf t p, ?_⟩, ?_, ?_, fun p q => offsetOf_mono t, fun r => ?_⟩
  · exact width_le_of_isPrefix Char.utf8Size (beforePosition_isPrefix t p)
  · intro p offset hoffset
    obtain ⟨before, after, rfl, rfl, hclean⟩ := hoffset.exists_cut
    rw [positionOf_byteSize, le_iff_isPrefix hclean, offsetOf]
    exact (byteSize_le_iff_isPrefix (List.prefix_append before after)
      (beforePosition_isPrefix _ p)).symm
  · intro offset hoffset
    obtain ⟨before, after, rfl, rfl, hclean⟩ := hoffset.exists_cut
    rw [positionOf_byteSize, offsetOf, beforePosition_after_of_cleanCut hclean]
  · obtain ⟨before, inside, after, rfl, -, hbytes⟩ := exists_cut t r
    rw [hbytes]
    refine ⟨width_le_of_isPrefix Char.utf8Size (List.prefix_append before inside), ?_,
      isBoundary_byteSize (before ++ inside) after⟩
    rw [List.append_assoc]
    exact isBoundary_byteSize before (inside ++ after)

theorem addressing_adjunction_behind_pair :
    Addressable ['a', '😀', '\r', '\n', 'b'] 5 ∧
    ((positionOf ['a', '😀', '\r', '\n', 'b'] 5).le ⟨0, 9⟩ = true ↔
      5 ≤ offsetOf ['a', '😀', '\r', '\n', 'b'] ⟨0, 9⟩) ∧
    offsetOf ['a', '😀', '\r', '\n', 'b'] (positionOf ['a', '😀', '\r', '\n', 'b'] 5) = 5 ∧
    Position.le ⟨0, 9⟩ ⟨1, 0⟩ = true ∧
    offsetOf ['a', '😀', '\r', '\n', 'b'] ⟨0, 9⟩ ≤ offsetOf ['a', '😀', '\r', '\n', 'b'] ⟨1, 0⟩ :=
  have hplace : Addressable ['a', '😀', '\r', '\n', 'b'] 5 := by decide
  have hadjoint := addressing_adjunction ['a', '😀', '\r', '\n', 'b']
  ⟨hplace, hadjoint.2.1 ⟨0, 9⟩ 5 hplace, hadjoint.2.2.1 5 hplace, by decide,
    hadjoint.2.2.2.1 ⟨0, 9⟩ ⟨1, 0⟩ (by decide)⟩

end Text

end LanguageServer
