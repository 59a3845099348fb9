import LanguageServer.Proofs.Sliced.Slice
import LanguageServer.Proofs.Text.Utf8

/-!
# Lines and positions by byte offsets

The lines of a text are found by the byte offsets at which they start. A position is looked up in
the slice of its line, and an offset in the slice from the start of its line up to it. All of these
slices are in the text and between its characters: `lineSpan?_eq`, `offsetOf_eq` and `positionOf_eq`
say that nothing breaks off, whatever the line, the position or the offset is.
-/

namespace LanguageServer.Sliced

open Text (byteSize bytesTo)

/-- The byte with an index in the UTF-8 form of a text. -/
def byteAt? (t : Text) (i : Nat) : Option UInt8 := (Utf8.encode t)[i]?

/-- Goes back from an offset to the next one between two characters. -/
def floor (t : Text) : Nat → Except Fault Nat
  | 0 => if t.isBoundary 0 then .ok 0 else .error broken
  | n + 1 => if t.isBoundary (n + 1) then .ok (n + 1) else floor t n

/-- The byte offsets at which the lines of a text start, and the size of the text. -/
structure LineIndex where
  starts : List Nat
  size : Nat

namespace LineIndex

/-- The offsets behind the line feeds of a text, whose first byte has the offset `n`. -/
def startsFrom (n : Nat) (t : Text) : List Nat :=
  ((charIndices n t).filter (·.2 == '\n')).map (·.1 + 1)

def ofText (t : Text) : LineIndex := ⟨0 :: startsFrom 0 t, byteSize t⟩

/-- The offset of the line feed that ends a line, or the end of the text. -/
def lineEnd (ix : LineIndex) (line : Nat) : Except Fault Nat :=
  match ix.starts[line + 1]? with
  | some next => sub next 1
  | none => .ok ix.size

/-- The end of a line without the carriage return that may stand there. -/
def contentEnd (t : Text) (start stop : Nat) : Except Fault Nat :=
  if start < stop then do
    let last ← sub stop 1
    .ok (if byteAt? t last = some 13 then last else stop)
  else .ok stop

def lineSpan? (ix : LineIndex) (t : Text) (line : Nat) : Except Fault (Option (Nat × Nat)) :=
  match ix.starts[line]? with
  | none => .ok none
  | some start => do
    let stop ← ix.lineEnd line
    let stop ← contentEnd t start stop
    .ok (some (start, stop))

/-- The offset of the character in which a column lies, if the line goes on that far. `units` counts
the code units before the rest of the line. -/
def columnFrom? (column units : Nat) : List (Nat × Char) → Option Nat
  | [] => none
  | (i, c) :: rest =>
    if column < units + Text.unitsOf c then some i
    else columnFrom? column (units + Text.unitsOf c) rest

def offsetOf (ix : LineIndex) (t : Text) (p : Position) : Except Fault Nat := do
  match ← ix.lineSpan? t p.line with
  | none => .ok ix.size
  | some (start, stop) =>
    let line ← slice t start stop
    .ok (((columnFrom? p.character 0 (charIndices 0 line)).map (start + ·)).getD stop)

def positionOf (ix : LineIndex) (t : Text) (offset : Nat) : Except Fault Position := do
  let offset ← floor t (min offset ix.size)
  let line ← sub (ix.starts.takeWhile (· ≤ offset)).length 1
  let start ← entry ix.starts line
  let before ← slice t start offset
  .ok ⟨line, before.units⟩

def range (ix : LineIndex) (t : Text) (i j : Nat) : Except Fault Range := do
  let start ← ix.positionOf t i
  let stop ← ix.positionOf t j
  .ok ⟨start, stop⟩

/-! ### Starts of lines -/

theorem startsFrom_append (n : Nat) (s t : Text) :
    startsFrom n (s ++ t) = startsFrom n s ++ startsFrom (n + byteSize s) t := by
  simp only [startsFrom, charIndices_append, List.filter_append, List.map_append]

theorem length_startsFrom (n : Nat) (t : Text) : (startsFrom n t).length = t.count '\n' := by
  rw [startsFrom, List.length_map]
  induction t generalizing n with
  | nil => rfl
  | cons c t ih =>
      rw [charIndices, List.filter_cons, List.count_cons, ← ih (n + c.utf8Size)]
      split <;> rfl

theorem le_of_mem_charIndices {n i : Nat} {c : Char} {t : Text} (h : (i, c) ∈ charIndices n t) :
    n ≤ i ∧ i + c.utf8Size ≤ n + byteSize t := by
  induction t generalizing n with
  | nil => cases h
  | cons d t ih =>
      rw [Text.byteSize_cons]
      rcases List.mem_cons.1 h with heq | h
      · cases heq
        omega
      · have hrest := ih h
        omega

theorem lt_of_mem_startsFrom {n k : Nat} {t : Text} (h : k ∈ startsFrom n t) :
    n < k ∧ k ≤ n + byteSize t := by
  obtain ⟨⟨i, c⟩, hfound, rfl⟩ := List.mem_map.1 h
  obtain ⟨hmem, hfeed⟩ := List.mem_filter.1 hfound
  obtain rfl : c = '\n' := eq_of_beq hfeed
  obtain ⟨hlow, hhigh⟩ := le_of_mem_charIndices hmem
  exact ⟨Nat.lt_succ_of_le hlow, hhigh⟩

/-- A text that ends where a line does, so that a new line starts behind it. -/
def EndsLine (s : Text) : Prop := s = [] ∨ ∃ line, s = line ++ ['\n']

theorem getElem?_starts {s : Text} (h : EndsLine s) (t : Text) :
    (ofText (s ++ t)).starts[s.count '\n']? = some (byteSize s) := by
  rcases h with rfl | ⟨line, rfl⟩
  · rfl
  · have hlength : (0 :: startsFrom 0 line).length = (line ++ ['\n']).count '\n' := by
      simp [length_startsFrom]
    rw [ofText, List.append_assoc, startsFrom_append, ← List.cons_append, ← hlength,
      List.getElem?_append_right (Nat.le_refl _), Nat.sub_self, startsFrom_append]
    simp [startsFrom, charIndices]
    rfl

theorem length_starts (t : Text) : (ofText t).starts.length = (Text.lines t).length := by
  rw [ofText, List.length_cons, length_startsFrom, Text.length_lines]

/-- The lines that start up to some place are those of the text before it. -/
theorem takeWhile_starts (s t : Text) :
    (ofText (s ++ t)).starts.takeWhile (· ≤ byteSize s) = 0 :: startsFrom 0 s := by
  have hbefore : ∀ k ∈ 0 :: startsFrom 0 s, decide (k ≤ byteSize s) = true := by
    refine List.forall_mem_cons.2 ⟨by simp, fun k hk => ?_⟩
    have hlt := lt_of_mem_startsFrom hk
    simpa using hlt.2
  rw [ofText, startsFrom_append, ← List.cons_append, List.takeWhile_append_of_pos hbefore,
    Nat.zero_add]
  cases hafter : startsFrom (byteSize s) t with
  | nil => simp
  | cons k rest =>
      have hlt := lt_of_mem_startsFrom (hafter ▸ List.mem_cons_self : k ∈ startsFrom (byteSize s) t)
      rw [List.takeWhile_cons_of_neg (by simpa using hlt.1), List.append_nil]

end LineIndex

/-! ### Back to a character -/

theorem floor_eq (t : Text) (n : Nat) : floor t n = .ok (byteSize (t.beforeByte n)) := by
  induction n with
  | zero =>
      have hzero : t.isBoundary 0 = true := Text.isBoundary_bytesTo t 0
      rw [floor, if_pos hzero, eq_of_beq hzero]
  | succ n ih =>
      rw [floor]
      split
      · next hboundary => rw [eq_of_beq hboundary]
      · next hinside =>
          have hwidth : byteSize (t.beforeByte (n + 1)) ≤ n + 1 := Text.width_splitWithin_le ..
          have hne : byteSize (t.beforeByte (n + 1)) ≠ n + 1 := fun h => hinside (beq_iff_eq.2 h)
          have hprefix : t.beforeByte (n + 1) <+: t.beforeByte n :=
            (Text.isPrefix_splitWithin_iff _ (Text.splitWithin_isPrefix _ _ t) n).2
              (Nat.le_of_lt_succ (Nat.lt_of_le_of_ne hwidth hne))
          have hless : t.beforeByte n <+: t.beforeByte (n + 1) :=
            Text.splitWithin_isPrefix_of_le _ (Nat.le_succ n) t
          rw [ih, List.IsPrefix.eq_of_length_le hprefix hless.length_le]

theorem beforeByte_min (t : Text) (n : Nat) :
    t.beforeByte (min n (byteSize t)) = t.beforeByte n := by
  rcases Nat.le_total n (byteSize t) with h | h
  · rw [Nat.min_eq_left h]
  · have hall : t <+: t.beforeByte n :=
      (Text.isPrefix_splitWithin_iff _ (List.prefix_refl t) n).2 h
    rw [Nat.min_eq_right h, ← Text.bytesTo_length, Text.beforeByte_bytesTo, List.take_length]
    exact hall.eq_of_length_le (Text.splitWithin_isPrefix _ n t).length_le

namespace LineIndex

/-! ### Positions -/

/-- The start of the line that a text ends in, and its part of that line. -/
theorem exists_lineStart (s : Text) : ∃ start last, s = start ++ last ∧ EndsLine start ∧
    start.count '\n' = s.count '\n' ∧ Position.after s = ⟨s.count '\n', last.units⟩ := by
  rcases Text.exists_lastLine s with hs | ⟨start, last, rfl, hlast⟩
  · refine ⟨[], s, rfl, .inl rfl, ?_, ?_⟩
    · rw [List.count_eq_zero_of_not_mem hs, List.count_nil]
    · rw [Text.after_of_not_mem hs, List.count_eq_zero_of_not_mem hs]
  · have hcount : (start ++ '\n' :: last).count '\n' = start.count '\n' + 1 := by
      rw [List.count_append, List.count_cons_self, List.count_eq_zero_of_not_mem hlast]
    refine ⟨start ++ ['\n'], last, by simp, .inr ⟨start, rfl⟩, ?_, ?_⟩
    · rw [hcount, List.count_append, List.count_singleton_self]
    · rw [hcount, Text.after_append_cons start hlast]

theorem positionOf_eq (t : Text) (offset : Nat) :
    (ofText t).positionOf t offset = .ok (t.positionOf offset) := by
  rw [positionOf, floor_eq, show (ofText t).size = byteSize t from rfl, beforeByte_min,
    Text.positionOf]
  obtain ⟨rest, hrest⟩ : t.beforeByte offset <+: t := Text.splitWithin_isPrefix _ _ t
  generalize t.beforeByte offset = s at hrest
  subst hrest
  rw [ok_bind, takeWhile_starts, List.length_cons, sub_eq (Nat.le_add_left 1 _), ok_bind,
    length_startsFrom, Nat.add_sub_cancel]
  obtain ⟨start, last, rfl, hstart, hcount, hafter⟩ := exists_lineStart s
  have hslice := slice_append start last rest
  rw [List.append_assoc, ← hcount, entry_eq (getElem?_starts hstart (last ++ rest)), ok_bind,
    Text.byteSize_append, hslice, ok_bind, hafter, hcount]

theorem range_bytesTo (t : Text) (i j : Nat) :
    (ofText t).range t (t.bytesTo i) (t.bytesTo j) = .ok (t.rangeAt i j) := by
  rw [range, positionOf_eq, positionOf_eq, Text.positionOf, Text.positionOf,
    Text.beforeByte_bytesTo, Text.beforeByte_bytesTo]
  rfl

/-! ### Lines -/

/-- The text before a line ends where a line does. -/
theorem endsLine_flatMap {above : List Text} (h : ∀ l ∈ above, '\n' ∉ l) :
    EndsLine (above.flatMap (· ++ ['\n'])) ∧
      (above.flatMap (· ++ ['\n'])).count '\n' = above.length := by
  constructor
  · rcases List.eq_nil_or_concat above with rfl | ⟨init, last, rfl⟩
    · exact .inl rfl
    · exact .inr ⟨init.flatMap (· ++ ['\n']) ++ last, by simp⟩
  · exact Text.count_terminated h

/-! ### The byte before a line feed -/

theorem length_encode (t : Text) : (Utf8.encode t).length = byteSize t := by
  induction t with
  | nil => rfl
  | cons c t ih =>
      rw [Utf8.encode, List.flatMap_cons, List.length_append, Text.byteSize_cons, ← ih,
        Utf8.encodeChar, String.length_utf8EncodeChar]
      rfl

theorem getElem?_encodeChar (c : Char) :
    (Utf8.encodeChar c)[c.utf8Size - 1]? = some 13 ↔ c = '\r' := by
  have hvalid := Utf8.toNat_cases c
  have hc : c = '\r' ↔ c.toNat = 13 := ⟨fun h => h ▸ rfl, fun h => Char.toNat_inj.1 h⟩
  rw [Utf8.encodeChar, ← String.length_utf8EncodeChar, ← List.getLast?_eq_getElem?, hc,
    String.utf8EncodeChar, show c.val.toNat = c.toNat from rfl]
  generalize c.toNat = n at hvalid
  have hbyte : ∀ m : Nat, m < 256 → (UInt8.ofNat m = 13 ↔ m = 13) := by
    intro m hm
    rw [← UInt8.toNat_inj, Utf8.toNat_ofNat hm]
    rfl
  have hlater : ∀ m : Nat, UInt8.ofNat (m % 64 + 128) ≠ 13 := by
    intro m heq
    have hm := (hbyte _ (by omega)).1 heq
    omega
  split_ifs
  · rw [List.getLast?_singleton, Option.some.injEq]
    exact hbyte n (by omega)
  all_goals
    simp only [List.getLast?_cons_cons, List.getLast?_singleton, Option.some.injEq]
    exact iff_of_false (hlater _) (by omega)

/-- The last byte of a character tells whether it is a carriage return. -/
theorem byteAt?_eq_return_iff (s : Text) (c : Char) (rest : Text) :
    byteAt? (s ++ c :: rest) (byteSize s + c.utf8Size - 1) = some 13 ↔ c = '\r' := by
  have hc := Char.utf8Size_pos c
  have hlast : byteSize s + c.utf8Size - 1 = (Utf8.encode s).length + (c.utf8Size - 1) := by
    rw [length_encode]
    omega
  rw [byteAt?, Utf8.encode, List.flatMap_append, List.flatMap_cons, hlast]
  erw [List.getElem?_append_right (Nat.le_add_right _ _)]
  rw [Nat.add_sub_cancel_left, List.getElem?_append_left, getElem?_encodeChar]
  rw [Utf8.encodeChar, String.length_utf8EncodeChar]
  omega

theorem lineSpan?_of_lines {t line : Text} {above below : List Text}
    (h : Text.lines t = above ++ line :: below) :
    t.lineSpan? above.length = some (byteSize (above.flatMap (· ++ ['\n'])),
      byteSize (above.flatMap (· ++ ['\n'])) + byteSize (Text.lineContent line)) := by
  rw [Text.lineSpan?, h, List.getElem?_append_right (Nat.le_refl _), Nat.sub_self, List.take_left]
  rfl

theorem lineEnd_eq {t line : Text} {above below : List Text}
    (h : Text.lines t = above ++ line :: below) :
    (ofText t).lineEnd above.length
      = .ok (byteSize (above.flatMap (· ++ ['\n'])) + byteSize line) := by
  have habove : ∀ l ∈ above, '\n' ∉ l := fun l hl =>
    Text.not_mem_of_mem_lines (h ▸ List.mem_append_left _ hl)
  have hline : '\n' ∉ line := Text.not_mem_of_mem_lines (h ▸ List.mem_append_cons_self)
  obtain ⟨-, hcount⟩ := endsLine_flatMap habove
  obtain ⟨rest, hrest, ⟨rfl, rfl⟩ | ⟨more, rfl⟩⟩ := Text.exists_rest h
  · have hend : (ofText t).starts[above.length + 1]? = none := by
      rw [List.getElem?_eq_none_iff, length_starts, h, List.length_append]
      simp
    rw [lineEnd, hend, ofText, hrest, List.append_nil, Text.byteSize_append]
  · have hnext : (ofText t).starts[above.length + 1]?
        = some (byteSize (above.flatMap (· ++ ['\n']) ++ line ++ ['\n'])) := by
      have hstart := getElem?_starts (s := above.flatMap (· ++ ['\n']) ++ line ++ ['\n'])
        (.inr ⟨_, rfl⟩) more
      rw [List.count_append, List.count_append, hcount, List.count_eq_zero_of_not_mem hline,
        List.count_singleton_self] at hstart
      rw [hrest]
      simpa only [List.append_assoc, List.singleton_append] using hstart
    rw [lineEnd, hnext]
    simp only [Text.byteSize_append]
    exact sub_eq (Nat.le_add_left 1 _)

theorem contentEnd_eq {t s line rest : Text} (h : t = s ++ (line ++ rest)) :
    contentEnd t (byteSize s) (byteSize s + byteSize line)
      = .ok (byteSize s + byteSize (Text.lineContent line)) := by
  rw [contentEnd]
  rcases List.eq_nil_or_concat line with rfl | ⟨init, last, rfl⟩
  · exact if_neg (Nat.lt_irrefl _)
  · rw [List.concat_eq_append] at h ⊢
    have hlast := Char.utf8Size_pos last
    have hbyte := byteAt?_eq_return_iff (s ++ init) last rest
    have ht : t = s ++ init ++ last :: rest := by simpa using h
    have hsize : byteSize (init ++ [last]) = byteSize init + last.utf8Size := by
      rw [Text.byteSize_append, Text.byteSize_cons, Text.byteSize_nil, Nat.add_zero]
    rw [← ht, Text.byteSize_append] at hbyte
    rw [hsize, ← Nat.add_assoc, if_pos (by omega), sub_eq (by omega), ok_bind, Text.lineContent,
      List.getLast?_concat]
    by_cases hreturn : last = '\r'
    · rw [if_pos (hbyte.2 hreturn), if_pos (congrArg some hreturn), List.dropLast_concat, hreturn]
      rfl
    · rw [if_neg (mt hbyte.1 hreturn), if_neg (mt Option.some.inj hreturn), hsize, Nat.add_assoc]

theorem lineSpan?_eq (t : Text) (n : Nat) : (ofText t).lineSpan? t n = .ok (t.lineSpan? n) := by
  by_cases hn : n < (Text.lines t).length
  · obtain ⟨above, line, below, hlines, hline⟩ := Text.exists_line (p := ⟨n, 0⟩) hn
    obtain rfl : n = above.length := congrArg Position.line hline
    obtain ⟨hends, hcount⟩ := endsLine_flatMap fun l hl =>
      Text.not_mem_of_mem_lines (hlines ▸ List.mem_append_left _ hl)
    obtain ⟨rest, hrest, -⟩ := Text.exists_rest hlines
    have hstart : (ofText t).starts[above.length]?
        = some (byteSize (above.flatMap (· ++ ['\n']))) := by
      rw [hrest, ← hcount]
      exact getElem?_starts hends _
    simp only [lineSpan?, hstart, lineSpan?_of_lines hlines, lineEnd_eq hlines,
      contentEnd_eq hrest, ok_bind]
  · rw [lineSpan?, Text.lineSpan?, List.getElem?_eq_none_iff.2 (Nat.le_of_not_lt hn),
      List.getElem?_eq_none_iff.2 (length_starts t ▸ Nat.le_of_not_lt hn)]
    rfl

theorem columnFrom?_eq (column units : Nat) (n : Nat) (line : Text) (h : units ≤ column) :
    (columnFrom? column units (charIndices n line)).getD (n + byteSize line)
      = n + byteSize (Text.splitWithin Text.unitsOf (column - units) line).1 := by
  induction line generalizing units n with
  | nil => rfl
  | cons c line ih =>
      rw [charIndices, columnFrom?, Text.splitWithin_cons]
      split
      · rw [if_neg (by omega)]
        rfl
      · next hwide =>
          rw [if_pos (by omega), Text.byteSize_cons, Text.byteSize_cons, ← Nat.add_assoc,
            ih (units + Text.unitsOf c) _ (by omega), Nat.sub_sub, Nat.add_assoc]

theorem offsetOf_eq (t : Text) (p : Position) : (ofText t).offsetOf t p = .ok (t.offsetOf p) := by
  rw [offsetOf, lineSpan?_eq, ok_bind]
  by_cases hp : p.line < (Text.lines t).length
  · obtain ⟨above, line, below, hlines, hline⟩ := Text.exists_line hp
    obtain ⟨rest, hrest, -⟩ := Text.exists_rest hlines
    obtain ⟨back, hback⟩ := Text.lineContent_isPrefix line
    rw [hline, Text.offsetOf, Text.beforePosition_eq hlines, Text.byteSize_append]
    have hslice := slice_append (above.flatMap (· ++ ['\n'])) (Text.lineContent line) (back ++ rest)
    rw [← List.append_assoc (Text.lineContent line), hback, ← hrest] at hslice
    simp only [lineSpan?_of_lines hlines, hslice, ok_bind]
    have hcolumn := columnFrom?_eq p.character 0 0 (Text.lineContent line) (Nat.zero_le _)
    rw [Nat.zero_add, Nat.zero_add, Nat.sub_zero] at hcolumn
    rw [← hcolumn, ← Option.getD_map (_ + ·)]
  · rw [Text.offsetOf, Text.beforePosition_of_length_le (Nat.le_of_not_lt hp), Text.lineSpan?,
      List.getElem?_eq_none_iff.2 (Nat.le_of_not_lt hp)]
    rfl

end LineIndex

end LanguageServer.Sliced
