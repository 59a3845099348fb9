import LanguageServer.Text.Addressing
import Mathlib.Data.List.TakeWhile

/-!
# Places in a text

A place is where a text can be cut in two, so it is named by the part before it. Everything that is
known of positions and byte offsets is read off that part, and what `beforePosition` gives is always
a beginning of the text (`beforePosition_isPrefix`).

It follows that the bytes of a range are always those of whole characters (`replaceBytes_byteSpan`),
whatever the range is.
-/

namespace LanguageServer.Text

/-! ### Cutting by width -/

theorem splitWithinFrom_width {w : Char → Nat} (hw : ∀ c, 0 < w c) (taken before after : Text) :
    splitWithinFrom w taken (width w before) (before ++ after)
      = (taken.reverse ++ before, after) := by
  induction before generalizing taken with
  | nil =>
      cases after with
      | nil => simp [splitWithinFrom]
      | cons c after =>
          have hc := hw c
          rw [width_nil, List.nil_append, splitWithinFrom, if_neg (by omega), List.append_nil]
  | cons c before ih =>
      rw [width_cons, List.cons_append, splitWithinFrom, if_pos (by omega), Nat.add_sub_cancel_left,
        ih, List.reverse_cons, List.append_assoc, List.singleton_append]

/-- A text is cut where a beginning of it ends by the width of that beginning. -/
theorem splitWithin_width {w : Char → Nat} (hw : ∀ c, 0 < w c) (before after : Text) :
    splitWithin w (width w before) (before ++ after) = (before, after) :=
  splitWithinFrom_width hw [] before after

theorem splitWithin_isPrefix (w : Char → Nat) (budget : Nat) (t : Text) :
    (splitWithin w budget t).1 <+: t :=
  ⟨(splitWithin w budget t).2, splitWithin_append w budget t⟩

theorem unitsOf_pos (c : Char) : 0 < unitsOf c := by
  unfold unitsOf
  split <;> decide

@[simp] theorem beforeByte_byteSize (before after : Text) :
    beforeByte (before ++ after) (byteSize before) = before := by
  rw [beforeByte, byteSize, splitWithin_width Char.utf8Size_pos]

@[simp] theorem afterByte_byteSize (before after : Text) :
    afterByte (before ++ after) (byteSize before) = after := by
  rw [afterByte, byteSize, splitWithin_width Char.utf8Size_pos]

theorem isBoundary_byteSize (before after : Text) :
    isBoundary (before ++ after) (byteSize before) = true := by
  rw [isBoundary, beforeByte_byteSize, beq_self_eq_true]

/-! ### What is found -/

theorem indexFrom?_eq (pattern : Text) (i : Nat) (t : Text) :
    indexFrom? pattern i t = (indexOf? pattern t).map (i + ·) := by
  induction t generalizing i with
  | nil =>
      rw [indexOf?, indexFrom?, indexFrom?]
      split <;> rfl
  | cons c t ih =>
      rw [indexOf?, indexFrom?, indexFrom?]
      split
      · rfl
      · rw [ih, ih (0 + 1), Option.map_map]
        congr 1
        funext k
        exact Nat.add_assoc i 1 k

theorem isPrefix_of_indexOf? {pattern t : Text} {i : Nat} (h : indexOf? pattern t = some i) :
    pattern <+: t.drop i := by
  induction t generalizing i with
  | nil =>
      rw [indexOf?, indexFrom?] at h
      split at h
      · next hempty =>
          rw [List.isEmpty_iff.1 hempty]
          exact List.nil_prefix
      · cases h
  | cons c t ih =>
      rw [indexOf?, indexFrom?] at h
      split at h
      · next hprefix =>
          cases h
          exact List.isPrefixOf_iff_prefix.1 hprefix
      · rw [indexFrom?_eq] at h
        obtain ⟨k, hk, rfl⟩ := Option.map_eq_some_iff.1 h
        rw [Nat.zero_add, Nat.add_comm]
        exact ih hk

/-! ### Lines -/

theorem unlines_singleton (l : Text) : unlines [l] = l := List.append_nil l

theorem unlines_cons_cons (l m : Text) (ls : List Text) :
    unlines (l :: m :: ls) = l ++ '\n' :: unlines (m :: ls) := by
  rw [unlines, unlines, List.intercalate_cons_cons, List.append_assoc]
  rfl

theorem flatMap_terminated {ls : List Text} (hls : ls ≠ []) :
    ls.flatMap (· ++ ['\n']) = unlines ls ++ ['\n'] := by
  induction ls with
  | nil => exact absurd rfl hls
  | cons l ls ih =>
      cases ls with
      | nil => simp [unlines]
      | cons m ls =>
          rw [List.flatMap_cons, ih (List.cons_ne_nil m ls), unlines_cons_cons]
          simp only [List.append_assoc, List.cons_append, List.nil_append]

theorem flatMap_lines (t : Text) : (lines t).flatMap (· ++ ['\n']) = t ++ ['\n'] := by
  rw [flatMap_terminated (lines_ne_nil t), unlines_lines]

theorem lines_unlines {ls : List Text} (hls : ls ≠ []) (h : ∀ l ∈ ls, '\n' ∉ l) :
    lines (unlines ls) = ls :=
  List.splitOn_intercalate '\n' h hls

theorem length_lines (t : Text) : (lines t).length = t.count '\n' + 1 := by
  induction t with
  | nil => rfl
  | cons c t ih =>
      have hcons := List.splitOn_cons_eq_if_modifyHead (a := '\n') c t
      rw [lines] at ih ⊢
      rw [hcons]
      by_cases hc : c = '\n'
      · subst hc
        simp [ih]
      · simp [hc, ih]

theorem lines_append_cons (t after : Text) :
    lines (t ++ '\n' :: after) = lines t ++ lines after :=
  List.splitOn_append_cons_self t after

/-- A text without a line break stands before the first line of what follows it. -/
theorem lines_append {t : Text} (ht : '\n' ∉ t) (after : Text) :
    ∃ line rest, lines after = line :: rest ∧ lines (t ++ after) = (t ++ line) :: rest := by
  obtain ⟨line, rest, hafter⟩ := List.exists_cons_of_ne_nil (lines_ne_nil after)
  refine ⟨line, rest, hafter, ?_⟩
  induction t with
  | nil => exact hafter
  | cons c t ih =>
      have hc : c ≠ '\n' := fun h => ht (h ▸ List.mem_cons_self)
      have hrest := ih fun h => ht (List.mem_cons_of_mem c h)
      rw [lines] at hrest ⊢
      rw [List.cons_append, List.splitOn_cons_eq_if_modifyHead, if_neg (by simpa using hc), hrest]
      rfl

theorem not_mem_of_mem_lines {t line : Text} (h : line ∈ lines t) : '\n' ∉ line := by
  induction t generalizing line with
  | nil =>
      rw [List.mem_singleton.1 h]
      exact List.not_mem_nil
  | cons c t ih =>
      obtain ⟨first, rest, hlines⟩ := List.exists_cons_of_ne_nil (lines_ne_nil t)
      rw [hlines] at ih
      rw [lines] at h hlines
      rw [List.splitOn_cons_eq_if_modifyHead, hlines] at h
      split at h
      · rcases List.mem_cons.1 h with rfl | h
        · exact List.not_mem_nil
        · exact ih h
      · next hc =>
          rcases List.mem_cons.1 h with rfl | h
          · intro hmem
            rcases List.mem_cons.1 hmem with rfl | hmem
            · exact hc (beq_self_eq_true _)
            · exact ih List.mem_cons_self hmem
          · exact ih (List.mem_cons_of_mem first h)

/-- The numbers of lines go up. -/
theorem pairwise_zipIdx (ls : List Text) (n : Nat) :
    (ls.zipIdx n).Pairwise fun a b => a.2 < b.2 := by
  rw [← List.pairwise_map (f := Prod.snd), List.zipIdx_map_snd]
  exact List.pairwise_lt_range'

theorem count_terminated {above : List Text} (h : ∀ l ∈ above, '\n' ∉ l) :
    (above.flatMap (· ++ ['\n'])).count '\n' = above.length := by
  induction above with
  | nil => rfl
  | cons l above ih =>
      rw [List.flatMap_cons, List.count_append, ih (List.forall_mem_cons.1 h).2,
        List.count_append, List.count_eq_zero_of_not_mem (List.forall_mem_cons.1 h).1,
        List.count_singleton_self, List.length_cons, Nat.zero_add, Nat.add_comm]

theorem lineContent_isPrefix (line : Text) : lineContent line <+: line := by
  unfold lineContent
  split
  · exact List.dropLast_prefix line
  · exact List.prefix_refl line

/-- Only what comes last in a line is left out of its content. -/
theorem lineContent_append {before : Text} (hbefore : before.getLast? ≠ some '\r') (after : Text) :
    lineContent (before ++ after) = before ++ lineContent after := by
  unfold lineContent
  cases after with
  | nil => simp [hbefore]
  | cons c after =>
      rw [List.getLast?_append, List.getLast?_cons, Option.some_or]
      split
      · rw [List.dropLast_append_of_ne_nil (List.cons_ne_nil c after)]
      · rfl

/-- A line break may start with a carriage return, which stays where it is when the content of the
line is replaced. -/
theorem exists_lineBreak (line : Text) :
    ∃ back, line = lineContent line ++ back ∧ '\n' ∉ back ∧
      ∀ new, new.getLast? = (lineContent line).getLast? → lineContent (new ++ back) = new := by
  by_cases hreturn : line.getLast? = some '\r'
  · obtain ⟨content, rfl⟩ := List.getLast?_eq_some_iff.1 hreturn
    have hcontent : lineContent (content ++ ['\r']) = content := by simp [lineContent]
    exact ⟨['\r'], by rw [hcontent], by decide, fun new _ => by simp [lineContent]⟩
  · have hcontent : lineContent line = line := if_neg hreturn
    refine ⟨[], by rw [hcontent, List.append_nil], List.not_mem_nil, fun new hnew => ?_⟩
    rw [List.append_nil, lineContent, hnew, hcontent, if_neg hreturn]

/-! ### Positions -/

theorem beforePosition_eq {t : Text} {above below : List Text} {line : Text}
    (hlines : lines t = above ++ line :: below) (character : Nat) :
    beforePosition t ⟨above.length, character⟩
      = above.flatMap (· ++ ['\n']) ++ (splitWithin unitsOf character (lineContent line)).1 := by
  rw [beforePosition, hlines, List.getElem?_append_right (Nat.le_refl _), Nat.sub_self,
    List.getElem?_cons_zero, List.take_left]

theorem exists_line {t : Text} {p : Position} (hp : p.line < (lines t).length) :
    ∃ above line below, lines t = above ++ line :: below ∧ p = ⟨above.length, p.character⟩ := by
  refine ⟨(lines t).take p.line, (lines t)[p.line], (lines t).drop (p.line + 1), ?_, ?_⟩
  · rw [List.getElem_cons_drop, List.take_append_drop]
  · rw [List.length_take, Nat.min_eq_left hp.le]

theorem beforePosition_of_length_le {t : Text} {p : Position} (hp : (lines t).length ≤ p.line) :
    beforePosition t p = t := by
  rw [beforePosition, List.getElem?_eq_none hp]

theorem beforePosition_isPrefix_line {t line : Text} {above below : List Text}
    (hlines : lines t = above ++ line :: below) (character : Nat) :
    beforePosition t ⟨above.length, character⟩ <+: above.flatMap (· ++ ['\n']) ++ line := by
  rw [beforePosition_eq hlines, List.prefix_append_right_inj]
  exact (splitWithin_isPrefix _ _ _).trans (lineContent_isPrefix line)

theorem line_isPrefix {t line : Text} {above below : List Text}
    (hlines : lines t = above ++ line :: below) :
    above.flatMap (· ++ ['\n']) ++ line <+: t := by
  have hwhole := flatMap_lines t
  rw [hlines, List.flatMap_append, List.flatMap_cons, List.append_assoc,
    ← List.append_assoc] at hwhole
  refine List.prefix_of_prefix_length_le ⟨_, hwhole⟩ (List.prefix_append t _) ?_
  have hlength := congrArg List.length hwhole
  simp only [List.length_append, List.length_cons, List.length_nil] at hlength ⊢
  omega

/-- The text from the start of a line on. -/
theorem exists_rest {t line : Text} {above below : List Text}
    (h : lines t = above ++ line :: below) :
    ∃ rest, t = above.flatMap (· ++ ['\n']) ++ (line ++ rest) ∧
      (rest = [] ∧ below = [] ∨ ∃ more, rest = '\n' :: more) := by
  obtain ⟨rest, hrest⟩ := line_isPrefix h
  refine ⟨rest, by rw [← hrest, List.append_assoc], ?_⟩
  have hwhole := flatMap_lines t
  rw [h, List.flatMap_append, List.flatMap_cons, ← hrest] at hwhole
  simp only [List.append_assoc, List.append_cancel_left_eq] at hwhole
  cases rest with
  | nil =>
      have hbelow : below.flatMap (· ++ ['\n']) = [] := by simpa using hwhole
      refine .inl ⟨rfl, List.eq_nil_iff_forall_not_mem.2 fun l hl => ?_⟩
      simpa using List.flatMap_eq_nil_iff.1 hbelow l hl
  | cons c more => exact .inr ⟨more, by rw [(List.cons.inj hwhole).1]⟩

/-- One line of a text is replaced by another. -/
theorem lines_replaced {above below : List Text} {line rest : Text}
    (h : lines (above.flatMap (· ++ ['\n']) ++ (line ++ rest)) = above ++ line :: below)
    {new : Text} (hnew : '\n' ∉ new) :
    lines (above.flatMap (· ++ ['\n']) ++ (new ++ rest)) = above ++ new :: below := by
  have hnone : ∀ l ∈ above ++ line :: below, '\n' ∉ l := fun l hl =>
    not_mem_of_mem_lines (h ▸ hl)
  have hwhole := flatMap_lines (above.flatMap (· ++ ['\n']) ++ (line ++ rest))
  have hne : above ++ new :: below ≠ [] := by simp
  have hjoined := flatMap_terminated hne
  rw [h] at hwhole
  simp only [List.flatMap_append, List.flatMap_cons, List.append_assoc, List.append_cancel_left_eq]
    at hwhole hjoined
  rw [hwhole, ← List.append_assoc, ← List.append_assoc, List.append_cancel_right_eq,
    List.append_assoc] at hjoined
  rw [hjoined]
  refine lines_unlines hne ?_
  simp only [List.forall_mem_append, List.forall_mem_cons] at hnone ⊢
  exact ⟨hnone.1, hnew, hnone.2.2⟩

/-- A position names a beginning of the text, also if the text does not have it. -/
theorem beforePosition_isPrefix (t : Text) (p : Position) : beforePosition t p <+: t := by
  by_cases hp : p.line < (lines t).length
  · obtain ⟨above, line, below, hlines, hline⟩ := exists_line hp
    rw [hline]
    exact (beforePosition_isPrefix_line hlines p.character).trans (line_isPrefix hlines)
  · rewrite [beforePosition_of_length_le (Nat.le_of_not_lt hp)]
    exact List.prefix_refl t

/-- A position on a later line comes behind the whole of an earlier line. -/
theorem line_isPrefix_beforePosition {t line : Text} {above below : List Text} {p : Position}
    (hlines : lines t = above ++ line :: below) (hp : above.length < p.line) :
    above.flatMap (· ++ ['\n']) ++ line <+: beforePosition t p := by
  cases hlater : (lines t)[p.line]? with
  | none =>
      rw [beforePosition_of_length_le (List.getElem?_eq_none_iff.1 hlater)]
      exact line_isPrefix hlines
  | some later =>
      have htake : (lines t).take p.line
          = above ++ line :: below.take (p.line - above.length - 1) := by
        rw [hlines, List.take_append, List.take_of_length_le hp.le, List.take_cons (by omega)]
      simp only [beforePosition, hlater, htake, List.flatMap_append, List.flatMap_cons,
        List.append_assoc]
      exact (List.prefix_append_right_inj _).2 (List.prefix_append line _)

/-- The start of the line that a text ends in, and its part of that line. -/
theorem exists_lastLine (t : Text) :
    '\n' ∉ t ∨ ∃ start last, t = start ++ '\n' :: last ∧ '\n' ∉ last := by
  induction t with
  | nil => exact .inl List.not_mem_nil
  | cons c t ih =>
      rcases ih with ht | ⟨start, last, rfl, hlast⟩
      · by_cases hc : c = '\n'
        · exact .inr ⟨[], t, by rw [hc, List.nil_append], ht⟩
        · exact .inl (by simp [Ne.symm hc, ht])
      · exact .inr ⟨c :: start, last, rfl, hlast⟩

@[simp] theorem units_reverse (t : Text) : units t.reverse = units t := by
  induction t with
  | nil => rfl
  | cons c t ih =>
      rw [List.reverse_cons, units_append, ih, units_cons, units_cons, units_nil]
      omega

/-- The column right after a text is the width of its last line. -/
theorem units_takeWhile_reverse {last : Text} (hlast : '\n' ∉ last) (start : Text) :
    units ((start ++ '\n' :: last).reverse.takeWhile (· != '\n')) = units last := by
  have hkeep : ∀ c ∈ last.reverse, (c != '\n') = true := by
    intro c hc
    simpa using fun h : c = '\n' => hlast (h ▸ List.mem_reverse.1 hc)
  rw [List.reverse_append, List.reverse_cons, List.append_assoc,
    List.takeWhile_append_of_pos hkeep, List.singleton_append, List.takeWhile_cons_of_neg (by simp),
    List.append_nil, units_reverse]

theorem after_append_cons (start : Text) {last : Text} (hlast : '\n' ∉ last) :
    Position.after (start ++ '\n' :: last) = ⟨start.count '\n' + 1, units last⟩ := by
  rw [Position.after, units_takeWhile_reverse hlast, List.count_append, List.count_cons_self,
    List.count_eq_zero_of_not_mem hlast]

theorem after_of_not_mem {t : Text} (ht : '\n' ∉ t) : Position.after t = ⟨0, units t⟩ := by
  have hkeep : ∀ c ∈ t.reverse, (c != '\n') = true := by
    intro c hc
    simpa using fun h : c = '\n' => ht (h ▸ List.mem_reverse.1 hc)
  rw [Position.after, List.takeWhile_eq_self_iff.2 hkeep, units_reverse,
    List.count_eq_zero_of_not_mem ht]

/-- The position right after a part of the line behind these lines. -/
theorem after_lines {above : List Text} (habove : ∀ l ∈ above, '\n' ∉ l) {t : Text}
    (ht : '\n' ∉ t) :
    Position.after (above.flatMap (· ++ ['\n']) ++ t) = ⟨above.length, units t⟩ := by
  rcases List.eq_nil_or_concat above with rfl | ⟨init, last, rfl⟩
  · exact after_of_not_mem ht
  · rw [List.concat_eq_append] at habove ⊢
    obtain ⟨hinit, hlast⟩ := List.forall_mem_append.1 habove
    rw [List.flatMap_append, List.flatMap_singleton, ← List.append_assoc, List.append_assoc,
      List.singleton_append, after_append_cons _ ht, List.count_append, count_terminated hinit,
      List.count_eq_zero_of_not_mem (hlast last List.mem_cons_self), List.length_append]
    rfl

/-! ### Ranges -/

theorem rangeAt_append (before inside after : Text) :
    (before ++ inside ++ after).rangeAt before.length (before.length + inside.length)
      = ⟨.after before, .after (before ++ inside)⟩ := by
  rw [rangeAt, positionAt, positionAt, ← List.length_append, List.take_left, List.append_assoc,
    List.take_left]

/-- The two ends of a range cut a text in three. -/
theorem exists_cut (t : Text) (r : Range) :
    ∃ before inside after, t = before ++ inside ++ after ∧
      charSpan t r = (before.length, (before ++ inside).length) ∧
      byteSpan t r = (byteSize before, byteSize (before ++ inside)) := by
  have hstart := beforePosition_isPrefix t r.start
  have hstop := beforePosition_isPrefix t r.stop
  simp only [charSpan, byteSpan, offsetOf]
  rcases List.prefix_or_prefix_of_prefix hstart hstop with ⟨inside, hinside⟩ | ⟨inside, hinside⟩
  · obtain ⟨after, hafter⟩ := hstop
    refine ⟨_, inside, after, by rw [hinside, hafter], ?_⟩
    rw [← hinside]
    simp only [List.length_append, byteSize_append, Nat.min_eq_left (Nat.le_add_right _ _),
      Nat.max_eq_right (Nat.le_add_right _ _), and_self]
  · obtain ⟨after, hafter⟩ := hstart
    refine ⟨_, inside, after, by rw [hinside, hafter], ?_⟩
    rw [← hinside]
    simp only [List.length_append, byteSize_append, Nat.min_eq_right (Nat.le_add_right _ _),
      Nat.max_eq_left (Nat.le_add_right _ _), and_self]

/-- The bytes of a range are those of whole characters, so putting a text in their place never
breaks off. -/
theorem replaceBytes_byteSpan (t : Text) (r : Range) (new : Text) :
    t.replaceBytes? (t.byteSpan r).1 (t.byteSpan r).2 new = some (t.replaceRange r new) := by
  obtain ⟨before, inside, after, rfl, hchars, hbytes⟩ := exists_cut t r
  have hstart : isBoundary (before ++ inside ++ after) (byteSize before) = true := by
    rw [List.append_assoc]
    exact isBoundary_byteSize before (inside ++ after)
  have hbefore : beforeByte (before ++ inside ++ after) (byteSize before) = before := by
    rw [List.append_assoc, beforeByte_byteSize]
  have htake : (before ++ inside ++ after).take before.length = before := by
    rw [List.append_assoc, List.take_left]
  simp only [replaceBytes?, replaceRange, splice, hchars, hbytes, hstart, hbefore, htake,
    isBoundary_byteSize, afterByte_byteSize, List.drop_left]
  simp

end LanguageServer.Text
