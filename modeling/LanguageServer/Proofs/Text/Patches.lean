import LanguageServer.Text.LineEdits
import LanguageServer.Proofs.Text.Cuts

/-!
# Making edits at once

The edits of one answer are all about the text as it was before any of them. So they are made in one
walk over that text: `applyEdits` asks at each character whether an edit covers it, and puts the new
texts in where their ranges start.

Edits that were found by cutting the text into pieces (`Piece`), some of which are kept and some
replaced, are in order (`ordered_editsFrom`), and making them replaces just these pieces
(`applyEdits_editsFrom`). What is needed for that is that all the cuts are clean, so that the
positions of the edits lead back to them.
-/

namespace LanguageServer

namespace Position

theorem after_append_of_not_mem (s : Text) {t : Text} (ht : '\n' ∉ t) :
    after (s ++ t) = ⟨(after s).line, (after s).character + Text.units t⟩ := by
  have hkeep : ∀ c ∈ t.reverse, (c != '\n') = true := by
    intro c hc
    simpa using fun h : c = '\n' => ht (h ▸ List.mem_reverse.1 hc)
  simp only [after, List.count_append, List.count_eq_zero_of_not_mem ht, List.reverse_append,
    List.takeWhile_append_of_pos hkeep, Text.units_append, Text.units_reverse, Nat.add_zero,
    Nat.add_comm]

theorem line_lt_after_append (s : Text) {t : Text} (ht : '\n' ∈ t) :
    (after s).line < (after (s ++ t)).line := by
  have hcount := List.count_pos_iff.2 ht
  simp only [after, List.count_append]
  omega

/-- The position behind a text moves on when the text is continued. -/
theorem after_le_append (s t : Text) : (after s).le (after (s ++ t)) = true := by
  rw [le_iff]
  by_cases ht : '\n' ∈ t
  · exact .inl (line_lt_after_append s ht)
  · rw [after_append_of_not_mem s ht]
    exact .inr ⟨rfl, Nat.le_add_right _ _⟩

end Position

namespace Text

/-! ### The walk -/

/-- The bytes from `start` up to `stop` are to be replaced by `new`. -/
structure Patch where
  start : Nat
  stop : Nat
  new : Text

/-- The character at an offset is among those to be replaced. -/
def Covered (patches : List Patch) (i : Nat) : Prop := ∃ p ∈ patches, p.start ≤ i ∧ i < p.stop

instance (patches : List Patch) (i : Nat) : Decidable (Covered patches i) :=
  inferInstanceAs (Decidable (∃ p ∈ patches, _))

/-- What is put in at an offset: the new texts of the patches that start there, in their order. -/
def putAt (patches : List Patch) (i : Nat) : Text :=
  (patches.filter (·.start == i)).flatMap (·.new)

/-- What becomes of the characters from offset `i` on. -/
def patchFrom (patches : List Patch) (i : Nat) : Text → Text
  | [] => []
  | c :: t =>
    (if Covered patches i then [] else [c]) ++ putAt patches (i + c.utf8Size)
      ++ patchFrom patches (i + c.utf8Size) t

def patched (patches : List Patch) (t : Text) : Text := putAt patches 0 ++ patchFrom patches 0 t

/-- The text after some edits that are all made at once. -/
def applyEdits (t : Text) (edits : List TextEdit) : Text :=
  t.patched (edits.map fun e => ⟨(t.byteSpan e.range).1, (t.byteSpan e.range).2, e.newText⟩)

/-- No edit ends before it starts, and each one ends before the next one starts. -/
def Ordered (edits : List TextEdit) : Prop :=
  (∀ e ∈ edits, e.range.start.le e.range.stop = true) ∧
    edits.Pairwise fun a b => a.range.stop.le b.range.start = true

theorem byteSize_pos {t : Text} (ht : t ≠ []) : 0 < byteSize t := by
  obtain ⟨c, rest, rfl⟩ := List.exists_cons_of_ne_nil ht
  have hc := Char.utf8Size_pos c
  rw [byteSize_cons]
  omega

theorem putAt_append (ps qs : List Patch) (i : Nat) :
    putAt (ps ++ qs) i = putAt ps i ++ putAt qs i := by
  rw [putAt, List.filter_append, List.flatMap_append]
  rfl

theorem putAt_eq_nil {patches : List Patch} {i : Nat} (h : ∀ p ∈ patches, p.start ≠ i) :
    putAt patches i = [] := by
  rw [putAt, List.filter_eq_nil_iff.2 (by simpa using h)]
  rfl

/-- Where no patch starts or ends, all characters are kept or all are left out. -/
theorem patchFrom_append {patches : List Patch} {i : Nat} {t : Text} (ht : t ≠ [])
    (h : ∀ p ∈ patches, p.start ≤ i ∧ (p.stop ≤ i ∨ i + byteSize t ≤ p.stop) ∨
      i + byteSize t ≤ p.start) (rest : Text) :
    patchFrom patches i (t ++ rest)
      = (if Covered patches i then [] else t) ++ putAt patches (i + byteSize t)
          ++ patchFrom patches (i + byteSize t) rest := by
  induction t generalizing i with
  | nil => exact absurd rfl ht
  | cons c t ih =>
      cases t with
      | nil => rw [List.singleton_append, patchFrom, byteSize_cons, byteSize_nil, Nat.add_zero]
      | cons d t =>
          have hc := Char.utf8Size_pos c
          have hd := Char.utf8Size_pos d
          simp only [byteSize_cons] at h ih
          have hnone : putAt patches (i + c.utf8Size) = [] :=
            putAt_eq_nil fun p hp => by have := h p hp; omega
          have hcovered : Covered patches (i + c.utf8Size) ↔ Covered patches i := by
            refine exists_congr fun p => and_congr_right fun hp => ?_
            have := h p hp
            omega
          have hrest := ih (i := i + c.utf8Size) (List.cons_ne_nil d t)
            fun p hp => by have := h p hp; omega
          rw [List.cons_append, patchFrom, hnone, hrest]
          simp only [hcovered, byteSize_cons, Nat.add_assoc]
          split <;> simp

/-- A stretch of text behind some patches and before others; those behind may cover it. -/
theorem patchFrom_stretch {passed coming : List Patch} {i : Nat} {t : Text} (ht : t ≠ [])
    (hpassed : ∀ p ∈ passed, p.start ≤ i ∧ (p.stop ≤ i ∨ i + byteSize t ≤ p.stop))
    (hcoming : ∀ p ∈ coming, i + byteSize t ≤ p.start) (rest : Text) :
    patchFrom (passed ++ coming) i (t ++ rest)
      = (if Covered passed i then [] else t) ++ (putAt coming (i + byteSize t)
          ++ patchFrom (passed ++ coming) (i + byteSize t) rest) := by
  have hpos := byteSize_pos ht
  have hcovered : Covered (passed ++ coming) i ↔ Covered passed i := by
    constructor
    · rintro ⟨p, hp, hstart, hstop⟩
      rcases List.mem_append.1 hp with hp | hp
      · exact ⟨p, hp, hstart, hstop⟩
      · have := hcoming p hp
        omega
    · rintro ⟨p, hp, hp'⟩
      exact ⟨p, List.mem_append_left _ hp, hp'⟩
  have hbehind : putAt passed (i + byteSize t) = [] :=
    putAt_eq_nil fun p hp => by have := hpassed p hp; omega
  have hwalk := patchFrom_append (i := i) ht (fun p (hp : p ∈ passed ++ coming) =>
    (List.mem_append.1 hp).imp (hpassed p) (hcoming p)) rest
  simp only [hwalk, hcovered, putAt_append, hbehind, List.nil_append, List.append_assoc]

/-! ### Pieces -/

/-- A piece of a text that is kept, or replaced. -/
inductive Piece
  | keep (t : Text)
  | replace (old new : Text)

def Piece.old : Piece → Text
  | .keep t => t
  | .replace old _ => old

def Piece.new : Piece → Text
  | .keep t => t
  | .replace _ new => new

/-- The edits that replace pieces of a text. `before` is what stands before the pieces. -/
def editsFrom (before : Text) : List Piece → List TextEdit
  | [] => []
  | .keep t :: pieces => editsFrom (before ++ t) pieces
  | .replace old new :: pieces =>
    ⟨⟨.after before, .after (before ++ old)⟩, new⟩ :: editsFrom (before ++ old) pieces

def patchesFrom (i : Nat) : List Piece → List Patch
  | [] => []
  | .keep t :: pieces => patchesFrom (i + byteSize t) pieces
  | .replace old new :: pieces =>
    ⟨i, i + byteSize old, new⟩ :: patchesFrom (i + byteSize old) pieces

/-- The pieces that are replaced start and end at clean cuts. -/
def CleanFrom (before : Text) : List Piece → Prop
  | [] => True
  | .keep t :: pieces => CleanFrom (before ++ t) pieces
  | .replace old _ :: pieces =>
    CleanCut before (old ++ pieces.flatMap Piece.old) ∧
      CleanCut (before ++ old) (pieces.flatMap Piece.old) ∧ CleanFrom (before ++ old) pieces

theorem le_start_of_mem_patchesFrom {pieces : List Piece} {i : Nat} {p : Patch}
    (hp : p ∈ patchesFrom i pieces) : i ≤ p.start := by
  fun_induction patchesFrom i pieces with
  | case1 => cases hp
  | case2 i t pieces ih => exact (Nat.le_add_right _ _).trans (ih hp)
  | case3 i old new pieces ih =>
      rcases List.mem_cons.1 hp with rfl | hp
      · exact Nat.le_refl _
      · exact (Nat.le_add_right _ _).trans (ih hp)

theorem putAt_patchesFrom_eq_nil {pieces : List Piece} {i j : Nat} (hij : i < j) :
    putAt (patchesFrom j pieces) i = [] :=
  putAt_eq_nil fun p hp => by have := le_start_of_mem_patchesFrom hp; omega

/-- The walk over some pieces, after patches for what stands before them. -/
theorem patchFrom_pieces (pieces : List Piece) {i : Nat} {passed : List Patch}
    (hpassed : ∀ p ∈ passed, p.start ≤ i ∧ p.stop ≤ i) :
    putAt (patchesFrom i pieces) i
        ++ patchFrom (passed ++ patchesFrom i pieces) i (pieces.flatMap Piece.old)
      = pieces.flatMap Piece.new := by
  induction pieces generalizing i passed with
  | nil => rfl
  | cons piece pieces ih =>
      have hcoming {j : Nat} : ∀ p ∈ patchesFrom j pieces, j ≤ p.start :=
        fun p => le_start_of_mem_patchesFrom
      rw [List.flatMap_cons, List.flatMap_cons]
      cases piece with
      | keep t =>
          rw [patchesFrom, Piece.old, Piece.new]
          by_cases ht : t = []
          · subst ht
            exact ih hpassed
          · have hpos := byteSize_pos ht
            have huncovered : ¬ Covered passed i := by
              rintro ⟨p, hp, -, hstop⟩
              have := hpassed p hp
              omega
            rw [putAt_patchesFrom_eq_nil (by omega), List.nil_append,
              patchFrom_stretch ht (fun p hp => ⟨(hpassed p hp).1, .inl (hpassed p hp).2⟩) hcoming,
              ih fun p hp => by have := hpassed p hp; omega, if_neg huncovered]
      | replace old new =>
          have hput : putAt (patchesFrom i (.replace old new :: pieces)) i
              = new ++ putAt (patchesFrom (i + byteSize old) pieces) i := by
            simp [patchesFrom, putAt]
          rw [hput, patchesFrom, Piece.old, Piece.new, List.append_assoc, List.append_cons,
            List.append_cancel_left_eq]
          by_cases hold : old = []
          · subst hold
            refine ih fun p hp => ?_
            rcases List.mem_append.1 hp with hp | hp
            · exact hpassed p hp
            · rw [List.mem_singleton.1 hp]
              exact ⟨Nat.le_refl _, Nat.le_refl _⟩
          · have hpos := byteSize_pos hold
            have hpassed' : ∀ p ∈ passed ++ [⟨i, i + byteSize old, new⟩],
                p.start ≤ i ∧ (p.stop ≤ i ∨ p.stop = i + byteSize old) := by
              intro p hp
              rcases List.mem_append.1 hp with hp | hp
              · exact ⟨(hpassed p hp).1, .inl (hpassed p hp).2⟩
              · rw [List.mem_singleton.1 hp]
                exact ⟨Nat.le_refl _, .inr rfl⟩
            have hcovered : Covered (passed ++ [⟨i, i + byteSize old, new⟩]) i :=
              ⟨_, List.mem_append_right _ List.mem_cons_self, Nat.le_refl i, by simpa using hpos⟩
            rw [putAt_patchesFrom_eq_nil (by omega), List.nil_append,
              patchFrom_stretch hold (fun p hp => ?_) hcoming, ih (fun p hp => ?_),
              if_pos hcovered, List.nil_append]
            · have := hpassed' p hp
              omega
            · have := hpassed' p hp
              omega

theorem patched_pieces (pieces : List Piece) :
    patched (patchesFrom 0 pieces) (pieces.flatMap Piece.old) = pieces.flatMap Piece.new := by
  have hnone : ∀ p ∈ ([] : List Patch), p.start ≤ 0 ∧ p.stop ≤ 0 := nofun
  have hwalk := patchFrom_pieces pieces hnone
  rwa [List.nil_append] at hwalk

/-! ### The edits of pieces -/

theorem offsetOf_after {before after : Text} (hclean : CleanCut before after) :
    offsetOf (before ++ after) (.after before) = byteSize before := by
  rw [offsetOf, beforePosition_after_of_cleanCut hclean]

theorem byteSpan_between {before old after : Text} (hstart : CleanCut before (old ++ after))
    (hstop : CleanCut (before ++ old) after) :
    byteSpan (before ++ old ++ after) ⟨.after before, .after (before ++ old)⟩
      = (byteSize before, byteSize before + byteSize old) := by
  have hfirst := offsetOf_after hstart
  rw [← List.append_assoc] at hfirst
  simp only [byteSpan, hfirst, offsetOf_after hstop, byteSize_append]
  rw [Nat.min_eq_left (Nat.le_add_right _ _), Nat.max_eq_right (Nat.le_add_right _ _)]

theorem map_editsFrom {pieces : List Piece} {before : Text} (hclean : CleanFrom before pieces) :
    ((editsFrom before pieces).map fun e =>
        let span := (before ++ pieces.flatMap Piece.old).byteSpan e.range
        (⟨span.1, span.2, e.newText⟩ : Patch))
      = patchesFrom (byteSize before) pieces := by
  induction pieces generalizing before with
  | nil => rfl
  | cons piece pieces ih =>
      cases piece with
      | keep t =>
          have hclean' : CleanFrom (before ++ t) pieces := hclean
          have hrest := ih hclean'
          rw [byteSize_append, List.append_assoc] at hrest
          exact hrest
      | replace old new =>
          obtain ⟨hstart, hstop, hrest⟩ := hclean
          have hedits := ih hrest
          have hspan := byteSpan_between hstart hstop
          rw [byteSize_append] at hedits
          simp only [List.append_assoc] at hedits hspan
          simp only [editsFrom, patchesFrom, List.map_cons, List.flatMap_cons, Piece.old, hspan,
            hedits]

/-- Making the edits replaces the pieces that are to be replaced, and nothing else. -/
theorem applyEdits_editsFrom {pieces : List Piece} (hclean : CleanFrom [] pieces) :
    applyEdits (pieces.flatMap Piece.old) (editsFrom [] pieces) = pieces.flatMap Piece.new := by
  have hpatches := map_editsFrom hclean
  rw [List.nil_append] at hpatches
  rw [applyEdits, hpatches]
  exact patched_pieces pieces

theorem le_start_of_mem_editsFrom {pieces : List Piece} {before : Text} {e : TextEdit}
    (he : e ∈ editsFrom before pieces) : (Position.after before).le e.range.start = true := by
  fun_induction editsFrom before pieces with
  | case1 => cases he
  | case2 before t pieces ih => exact Position.le_trans (Position.after_le_append before t) (ih he)
  | case3 before old new pieces ih =>
      rcases List.mem_cons.1 he with rfl | he
      · exact Position.le_refl _
      · exact Position.le_trans (Position.after_le_append before old) (ih he)

theorem ordered_editsFrom (before : Text) (pieces : List Piece) :
    Ordered (editsFrom before pieces) := by
  fun_induction editsFrom before pieces with
  | case1 => exact ⟨nofun, .nil⟩
  | case2 before t pieces ih => exact ih
  | case3 before old new pieces ih =>
      refine ⟨List.forall_mem_cons.2 ⟨Position.after_le_append before old, ih.1⟩, ?_⟩
      exact List.pairwise_cons.2 ⟨fun e he => le_start_of_mem_editsFrom he, ih.2⟩

end Text

end LanguageServer
