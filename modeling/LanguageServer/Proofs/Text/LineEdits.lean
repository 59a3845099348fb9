import LanguageServer.Proofs.Text.Patches

/-!
# The edits between two texts

What a line diff says holds of two texts if its lines are theirs, no line of the old one ends inside
a line break, and its operations go through both lists, one behind the other
(`LineDiff.Describes`). The diff that compares the texts from both ends only is of that kind
(`LineDiff.describes_ofEnds`). Each operation is then a piece of the old text that is kept or
replaced (`DiffOp.piece`), with clean cuts unless that text ends with a carriage return, and making
the edits gives the new text (`lineEdits_reproduce`).
-/

namespace LanguageServer

/-! ### What a diff says -/

namespace DiffOp

variable {old new : List Text} {i j : Nat} {op : DiffOp} {ops : List DiffOp}

/-- The operation is about what stands at two indexes. It calls only equal lines equal. -/
structure StandsAt (old new : List Text) (i j : Nat) (op : DiffOp) : Prop where
  oldStart : op.oldStart = i
  newStart : op.newStart = j
  oldBound : i + op.oldSize ≤ old.length
  newBound : j + op.newSize ≤ new.length
  equal : op.isEqual = true → (old.drop i).take op.oldSize = (new.drop j).take op.newSize

/-- Each operation stands where the one before it has ended, up to the ends of both lists. -/
def Tile (old new : List Text) (i j : Nat) : List DiffOp → Prop
  | [] => i = old.length ∧ j = new.length
  | op :: ops => op.StandsAt old new i j ∧ Tile old new (i + op.oldSize) (j + op.newSize) ops

end DiffOp

/-- What a line diff says about two texts holds of them. -/
structure LineDiff.Describes (diff : LineDiff) (before after : Text) : Prop where
  old : diff.oldLines.flatten = before
  new : diff.newLines.flatten = after
  /-- No line ends between the two characters of a line break. -/
  unbroken : ∀ xs ys, diff.oldLines = xs ++ ys → xs.flatten.getLast? = some '\r' →
    ys.flatten.head? ≠ some '\n'
  tile : DiffOp.Tile diff.oldLines diff.newLines 0 0 diff.ops

theorem LineDiff.Describes.cleanCut {diff : LineDiff} {before after : Text}
    (h : diff.Describes before after) (hbefore : before.getLast? ≠ some '\r') {xs ys : List Text}
    (hcut : diff.oldLines = xs ++ ys) : Text.CleanCut xs.flatten ys.flatten := by
  intro hreturn
  refine ⟨fun hys => hbefore ?_, h.unbroken xs ys hcut hreturn⟩
  rw [← h.old, hcut, List.flatten_append, hys, List.append_nil, hreturn]

namespace Text

/-! ### Lines with their ends -/

/-- The lines of a text, where the first one has already begun. `line` is what has been read of it,
last character first. -/
inductive LinesOf : Text → Text → List Text → Prop
  | none : LinesOf [] [] []
  | last {line : Text} (h : line ≠ []) : LinesOf line [] [line.reverse]
  | pair {line rest : Text} {lines : List Text} (h : LinesOf [] rest lines) :
      LinesOf line ('\r' :: '\n' :: rest) ((line.reverse ++ ['\r', '\n']) :: lines)
  | ended {line rest : Text} {lines : List Text} {c : Char}
      (hrest : c = '\r' → rest.head? ≠ some '\n') (h : LinesOf [] rest lines) :
      LinesOf line (c :: rest) ((line.reverse ++ [c]) :: lines)
  | char {line rest : Text} {lines : List Text} {c : Char} (h : LinesOf (c :: line) rest lines) :
      LinesOf line (c :: rest) lines

theorem exists_linesOf (out : List Text) (line t : Text) :
    ∃ lines, LinesOf line t lines ∧ terminatedLinesFrom out line t = out.reverse ++ lines := by
  fun_induction terminatedLinesFrom out line t with
  | case1 out line =>
      by_cases hline : line = []
      · subst hline
        exact ⟨[], .none, by simp⟩
      · exact ⟨[line.reverse], .last hline, by simp [hline]⟩
  | case2 out line rest ih =>
      obtain ⟨lines, hlines, heq⟩ := ih
      exact ⟨_, .pair hlines, by rw [heq]; simp⟩
  | case3 out line c rest hpair hends ih =>
      obtain ⟨lines, hlines, heq⟩ := ih
      refine ⟨_, .ended (fun hc hhead => ?_) hlines, by rw [heq]; simp⟩
      obtain ⟨tail, hrest⟩ := List.head?_eq_some_iff.1 hhead
      exact hpair tail hc hrest
  | case4 out line c rest hpair hends ih =>
      obtain ⟨lines, hlines, heq⟩ := ih
      exact ⟨lines, .char hlines, heq⟩

namespace LinesOf

variable {line t : Text} {lines : List Text}

theorem flatten (h : LinesOf line t lines) : lines.flatten = line.reverse ++ t := by
  induction h with
  | none => rfl
  | last h => simp
  | pair h ih => simp [ih]
  | ended hrest h ih => simp [ih]
  | char h ih => simp [ih]

theorem ne_nil (h : LinesOf line t lines) : ∀ l ∈ lines, l ≠ [] := by
  induction h with
  | none => exact nofun
  | last h => simpa using h
  | pair h ih => exact List.forall_mem_cons.2 ⟨by simp, ih⟩
  | ended hrest h ih => exact List.forall_mem_cons.2 ⟨by simp, ih⟩
  | char h ih => exact ih

/-- A line starts with the line feed of a line break only behind its first line. -/
theorem head?_ne_of_cons {l : Text} {xs ys : List Text} (hne : ∀ l ∈ lines, l ≠ [])
    (hcut : l :: lines = xs ++ ys) (hxs : xs ≠ []) (hreturn : xs.flatten.getLast? = some '\r')
    (hfirst : l.getLast? = some '\r' → lines.flatten.head? ≠ some '\n')
    (hrest : ∀ {xs' : List Text}, lines = xs' ++ ys → xs' ≠ [] →
      xs'.flatten.getLast? = some '\r' → ys.flatten.head? ≠ some '\n') :
    ys.flatten.head? ≠ some '\n' := by
  obtain ⟨first, xs', rfl⟩ := List.exists_cons_of_ne_nil hxs
  rw [List.cons_append, List.cons.injEq] at hcut
  obtain ⟨rfl, hcut⟩ := hcut
  rw [List.flatten_cons, List.getLast?_append] at hreturn
  cases xs' with
  | nil =>
      rw [List.nil_append] at hcut
      exact hcut ▸ hfirst hreturn
  | cons next more =>
      have hnext : next ≠ [] := hne next (by rw [hcut]; exact List.mem_cons_self)
      have hflat : (next :: more).flatten ≠ [] := by simp [hnext]
      rw [List.getLast?_eq_some_getLast hflat, Option.some_or,
        ← List.getLast?_eq_some_getLast hflat] at hreturn
      exact hrest hcut (List.cons_ne_nil next more) hreturn

theorem head?_ne (h : LinesOf line t lines) {xs ys : List Text} (hcut : lines = xs ++ ys)
    (hxs : xs ≠ []) (hreturn : xs.flatten.getLast? = some '\r') :
    ys.flatten.head? ≠ some '\n' := by
  induction h generalizing xs with
  | none => exact absurd (List.append_eq_nil_iff.1 hcut.symm).1 hxs
  | last h =>
      refine head?_ne_of_cons (by simp) hcut hxs hreturn (fun _ => by simp) fun hnil hxs' => ?_
      exact absurd (List.append_eq_nil_iff.1 hnil.symm).1 hxs'
  | pair h ih => exact head?_ne_of_cons h.ne_nil hcut hxs hreturn (by simp) ih
  | ended hrest h ih =>
      refine head?_ne_of_cons h.ne_nil hcut hxs hreturn (fun hc => ?_) ih
      rw [h.flatten]
      exact hrest (by simpa using hc)
  | char h ih => exact ih hcut hxs hreturn

end LinesOf

theorem linesOf_terminatedLines (t : Text) : LinesOf [] t (terminatedLines t) := by
  obtain ⟨lines, hlines, heq⟩ := exists_linesOf [] [] t
  rw [terminatedLines, heq]
  exact hlines

@[simp] theorem flatten_terminatedLines (t : Text) : (terminatedLines t).flatten = t :=
  (linesOf_terminatedLines t).flatten

end Text

/-! ### A diff by both ends -/

namespace LineDiff

variable {old new : List Text}

theorem commonStart_le (old new : List Text) :
    commonStart old new ≤ old.length ∧ commonStart old new ≤ new.length := by
  fun_induction commonStart old new with
  | case1 a as bs ih => exact ⟨Nat.succ_le_succ ih.1, Nat.succ_le_succ ih.2⟩
  | case2 => exact ⟨Nat.zero_le _, Nat.zero_le _⟩
  | case3 => exact ⟨Nat.zero_le _, Nat.zero_le _⟩

theorem take_commonStart (old new : List Text) :
    old.take (commonStart old new) = new.take (commonStart old new) := by
  fun_induction commonStart old new with
  | case1 a as bs ih => rw [List.take_succ_cons, List.take_succ_cons, ih]
  | case2 => rfl
  | case3 => rfl

theorem drop_commonEnd {s : Nat} (hs : s = commonStart old.reverse new.reverse) :
    old.drop (old.length - s) = new.drop (new.length - s) := by
  have htake := take_commonStart old.reverse new.reverse
  rwa [← hs, List.take_reverse, List.take_reverse, List.reverse_inj] at htake

theorem tile_ends {p s : Nat} (hp : p = commonStart old new)
    (hs : s = commonStart (old.drop p).reverse (new.drop p).reverse) :
    DiffOp.Tile old new 0 0 [.equal 0 0 p, .replace p (old.length - p - s) p (new.length - p - s),
      .equal (p + (old.length - p - s)) (p + (new.length - p - s)) s] := by
  have hstart := commonStart_le old new
  have hstop := commonStart_le (old.drop p).reverse (new.drop p).reverse
  have hlast := drop_commonEnd hs
  rw [← hp] at hstart
  rw [← hs] at hstop
  simp only [List.length_reverse, List.length_drop, List.drop_drop] at hstop hlast
  have hlast : (old.drop (0 + p + (old.length - p - s))).take s
      = (new.drop (0 + p + (new.length - p - s))).take s := by rw [Nat.zero_add, hlast]
  refine ⟨⟨rfl, rfl, ?_, ?_, fun _ => hp ▸ take_commonStart old new⟩,
    ⟨?_, ?_, ?_, ?_, nofun⟩, ⟨?_, ?_, ?_, ?_, fun _ => hlast⟩, ?_, ?_⟩
  all_goals
    simp only [DiffOp.oldStart, DiffOp.oldSize, DiffOp.newStart, DiffOp.newSize]
    omega

/-- The diff by both ends describes any two texts. -/
theorem describes_ofEnds (before after : Text) : (ofEnds before after).Describes before after where
  old := Text.flatten_terminatedLines before
  new := Text.flatten_terminatedLines after
  unbroken xs ys hcut hreturn := by
    refine (Text.linesOf_terminatedLines before).head?_ne hcut ?_ hreturn
    rintro rfl
    cases hreturn
  tile := tile_ends rfl rfl

end LineDiff

/-! ### Operations are pieces -/

namespace DiffOp

open Text (Piece CleanCut CleanFrom editsFrom)

variable {old new : List Text} {i j : Nat} {op : DiffOp} {ops : List DiffOp}

/-- The piece of the old text that an operation is about. -/
def piece (old new : List Text) (op : DiffOp) : Piece :=
  let kept := ((old.drop op.oldStart).take op.oldSize).flatten
  if op.isEqual then .keep kept
  else .replace kept ((new.drop op.newStart).take op.newSize).flatten

theorem StandsAt.old_piece (h : op.StandsAt old new i j) :
    (op.piece old new).old = ((old.drop i).take op.oldSize).flatten := by
  rw [piece, h.oldStart]
  split <;> rfl

theorem StandsAt.new_piece (h : op.StandsAt old new i j) :
    (op.piece old new).new = ((new.drop j).take op.newSize).flatten := by
  rw [piece, h.oldStart, h.newStart]
  split
  · next hequal => exact congrArg List.flatten (h.equal hequal)
  · rfl

theorem flatten_drop_add (lines : List Text) (i n : Nat) :
    ((lines.drop i).take n).flatten ++ (lines.drop (i + n)).flatten = (lines.drop i).flatten := by
  rw [← List.flatten_append, ← List.drop_drop, List.take_append_drop]

theorem flatten_take_add (lines : List Text) (i n : Nat) :
    (lines.take i).flatten ++ ((lines.drop i).take n).flatten = (lines.take (i + n)).flatten := by
  rw [← List.flatten_append, List.take_add]

theorem Tile.old_pieces (h : Tile old new i j ops) :
    (ops.map (piece old new)).flatMap Piece.old = (old.drop i).flatten := by
  induction ops generalizing i j with
  | nil => simp [h.1]
  | cons op ops ih =>
      rw [List.map_cons, List.flatMap_cons, h.1.old_piece, ih h.2, flatten_drop_add]

theorem Tile.new_pieces (h : Tile old new i j ops) :
    (ops.map (piece old new)).flatMap Piece.new = (new.drop j).flatten := by
  induction ops generalizing i j with
  | nil => simp [h.2]
  | cons op ops ih =>
      rw [List.map_cons, List.flatMap_cons, h.1.new_piece, ih h.2, flatten_drop_add]

theorem Tile.cleanFrom (hclean : ∀ k, CleanCut (old.take k).flatten (old.drop k).flatten)
    (h : Tile old new i j ops) : CleanFrom (old.take i).flatten (ops.map (piece old new)) := by
  induction ops generalizing i j with
  | nil => trivial
  | cons op ops ih =>
      have hrest := ih h.2
      have hold := h.1.old_piece
      rw [← flatten_take_add] at hrest
      rw [List.map_cons]
      cases hpiece : op.piece old new with
      | keep kept =>
          rw [hpiece] at hold
          obtain rfl : kept = _ := hold
          exact hrest
      | replace kept put =>
          rw [hpiece] at hold
          obtain rfl : kept = _ := hold
          refine ⟨?_, ?_, hrest⟩
          · rw [h.2.old_pieces, flatten_drop_add]
            exact hclean i
          · rw [h.2.old_pieces, flatten_take_add]
            exact hclean (i + op.oldSize)

end DiffOp

namespace Text

/-! ### Edits of operations -/

theorem lineStartsFrom_getElem? (lines : List Text) (offset : Nat) {n : Nat}
    (hn : n ≤ lines.length) :
    (lineStartsFrom offset lines)[n]? = some (offset + byteSize (lines.take n).flatten) := by
  induction lines generalizing offset n with
  | nil =>
      obtain rfl : n = 0 := Nat.le_zero.1 hn
      rfl
  | cons line rest ih =>
      cases n with
      | zero => rfl
      | succ n =>
          rw [lineStartsFrom, List.getElem?_cons_succ, ih _ (Nat.le_of_succ_le_succ hn),
            List.take_succ_cons, List.flatten_cons, byteSize_append, Nat.add_assoc]

variable {diff : LineDiff} {before : Text} {i j : Nat} {op : DiffOp} {ops : List DiffOp}

theorem positionOf_lineStart (hold : diff.oldLines.flatten = before) (n : Nat) :
    before.positionOf (byteSize (diff.oldLines.take n).flatten)
      = .after (diff.oldLines.take n).flatten := by
  have hcut := positionOf_byteSize (diff.oldLines.take n).flatten (diff.oldLines.drop n).flatten
  rwa [← List.flatten_append, List.take_append_drop, hold] at hcut

theorem editOf_standing (hold : diff.oldLines.flatten = before)
    (h : op.StandsAt diff.oldLines diff.newLines i j) :
    editOf before diff op = .ok
      ⟨⟨.after (diff.oldLines.take i).flatten,
        .after (diff.oldLines.take (i + op.oldSize)).flatten⟩,
        ((diff.newLines.drop j).take op.newSize).flatten⟩ := by
  have hstart := lineStartsFrom_getElem? diff.oldLines 0 (Nat.le_of_add_right_le h.oldBound)
  have hstop := lineStartsFrom_getElem? diff.oldLines 0 h.oldBound
  rw [editOf, elementAt, elementAt, elementsAt, h.oldStart, h.newStart, hstart, hstop,
    if_pos h.newBound, Nat.zero_add, Nat.zero_add]
  simp only [bind, Except.bind, pure, Except.pure, positionOf_lineStart hold]

/-- The edits of operations are the edits of the pieces that these are. -/
theorem mapM_editOf (hold : diff.oldLines.flatten = before)
    (h : DiffOp.Tile diff.oldLines diff.newLines i j ops) :
    (ops.filter (!·.isEqual)).mapM (editOf before diff)
      = .ok (editsFrom (diff.oldLines.take i).flatten
          (ops.map (DiffOp.piece diff.oldLines diff.newLines))) := by
  induction ops generalizing i j with
  | nil => rfl
  | cons op ops ih =>
      have hrest := ih h.2
      rw [← DiffOp.flatten_take_add] at hrest
      rw [List.map_cons, DiffOp.piece, h.1.oldStart, h.1.newStart]
      cases hequal : op.isEqual with
      | true => rw [List.filter_cons_of_neg (by simp [hequal]), hrest, if_pos rfl, editsFrom]
      | false =>
          rw [List.filter_cons_of_pos (by simp [hequal]), List.mapM_cons,
            editOf_standing hold h.1, hrest, if_neg (by simp), editsFrom, DiffOp.flatten_take_add]
          rfl

theorem applyEdits_nil (t : Text) : applyEdits t [] = t := by
  have hmade := applyEdits_editsFrom (show CleanFrom [] [.keep t] from trivial)
  simpa [editsFrom, Piece.old, Piece.new] using hmade

/-- The edits between two texts, the first of which does not end with a carriage return, by any diff
that describes them. There are none exactly if the texts are equal; they are in order; and making
them gives the second text. -/
theorem lineEdits_reproduce {differ : LineDiffer} {before after : Text}
    (hdiffer : (differ before after).Describes before after)
    (hbefore : before.getLast? ≠ some '\r') :
    ∃ edits, lineEdits differ before after = .ok edits ∧ (edits = [] ↔ before = after) ∧
      Ordered edits ∧ applyEdits before edits = after := by
  by_cases heq : before = after
  · subst heq
    exact ⟨[], if_pos rfl, iff_of_true rfl rfl, ⟨nofun, .nil⟩, applyEdits_nil before⟩
  have hedits := mapM_editOf hdiffer.old hdiffer.tile
  have hcut : ∀ k, CleanCut ((differ before after).oldLines.take k).flatten
      ((differ before after).oldLines.drop k).flatten := fun k =>
    hdiffer.cleanCut hbefore (List.take_append_drop k _).symm
  have hmade := applyEdits_editsFrom (hdiffer.tile.cleanFrom hcut)
  rw [hdiffer.tile.old_pieces, hdiffer.tile.new_pieces, List.drop_zero, List.drop_zero,
    hdiffer.old, hdiffer.new] at hmade
  refine ⟨_, (if_neg heq).trans hedits, iff_of_false (fun hnil => heq ?_) heq,
    ordered_editsFrom _ _, hmade⟩
  rw [List.take_zero, List.flatten_nil] at hnil
  rw [← hmade, hnil, applyEdits_nil]

/-- Lines that differ are replaced as a whole. -/
theorem lineEdits_reproduce_replaced :
    lineEdits .ofEnds "one\ntwo\nthree".toList "one\n2\nthree".toList
      = .ok [⟨⟨⟨1, 0⟩, ⟨2, 0⟩⟩, "2\n".toList⟩] ∧
    ∃ edits, lineEdits .ofEnds "one\ntwo\nthree".toList "one\n2\nthree".toList = .ok edits ∧
      edits ≠ [] ∧ Ordered edits ∧
      applyEdits "one\ntwo\nthree".toList edits = "one\n2\nthree".toList := by
  have hdiffer := LineDiff.describes_ofEnds "one\ntwo\nthree".toList "one\n2\nthree".toList
  have hbefore : "one\ntwo\nthree".toList.getLast? ≠ some '\r' := by decide
  obtain ⟨edits, hedits, hnil, hordered, hmade⟩ := lineEdits_reproduce hdiffer hbefore
  have hne : "one\ntwo\nthree".toList ≠ "one\n2\nthree".toList := by decide
  exact ⟨by decide +kernel, edits, hedits, mt hnil.1 hne, hordered, hmade⟩

end Text

end LanguageServer
