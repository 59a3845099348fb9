import LanguageServer.Proofs.Sliced.LineIndex
import LanguageServer.Proofs.Text.Ends
import LanguageServer.Proofs.Text.Patches
import LanguageServer.Proofs.Text.Words

/-!
# Words by byte offsets

The words of a text are found by going through its characters once: where an identifier starts, a
second loop looks for its end, and the identifier is the slice between the two offsets. A word under
a caret is looked for to both sides of it. The offsets are those of characters in every case, so
`words_eq`, `wordAt?_eq` and `occurrences_eq` hold of every text and caret.
-/

namespace LanguageServer

namespace Text

/-! ### Runs one after the other -/

/-- The words of a text whose first character has the index `k`. -/
def wordsAt (k : Nat) (t : Text) : List (Nat × Text) :=
  (locatedFrom [] k (runs t)).filter (isWordRun ·.2)

/-- A run ends where a character of the other kind follows. -/
theorem runs_append {s t : Text} {isWord : Bool} (hs : s ≠ [])
    (hkind : ∀ c ∈ s, isWordChar c = isWord)
    (hnext : ∀ c, t.head? = some c → isWordChar c ≠ isWord) :
    runs (s ++ t) = s :: runs t := by
  have hwhole : IsTokenized (s ++ t) ([s] ++ runs t) := by
    refine isTokenized_append_iff.2 ⟨s, t, rfl, .singleton hs hkind, isTokenized_runs t,
      fun c d hc hd => ?_⟩
    rw [hkind c (List.mem_of_getLast? hc)]
    exact (hnext d hd).symm
  exact runs_eq_iff.2 hwhole

theorem wordsAt_run {s t : Text} (k : Nat) (hs : s ≠ []) (hword : ∀ c ∈ s, isWordChar c = true)
    (hnext : ∀ c, t.head? = some c → isWordChar c = false) :
    wordsAt k (s ++ t) = (if isWordRun s then [(k, s)] else []) ++ wordsAt (k + s.length) t := by
  rw [wordsAt, runs_append hs hword (by simpa using hnext), locatedFrom_cons, List.filter_cons]
  split <;> rfl

theorem wordsAt_gap {s t : Text} (k : Nat) (hgap : ∀ c ∈ s, isWordChar c = false)
    (hnext : ∀ c, t.head? = some c → isWordChar c = true) :
    wordsAt k (s ++ t) = wordsAt (k + s.length) t := by
  cases s with
  | nil => rfl
  | cons c s =>
      rw [wordsAt, runs_append (List.cons_ne_nil c s) hgap (by simpa using hnext), locatedFrom_cons,
        List.filter_cons, if_neg]
      · rfl
      · simp [isWordRun, hgap c List.mem_cons_self]

theorem wordsAt_cons {c : Char} (k : Nat) (hc : isWordChar c = false) (t : Text) :
    wordsAt k (c :: t) = wordsAt (k + 1) t := by
  have hgap : ∀ d ∈ t.takeWhile (!isWordChar ·), isWordChar d = false := fun d hd => by
    simpa using List.all_eq_true.1 List.all_takeWhile d hd
  have hnext : ∀ d, (t.dropWhile (!isWordChar ·)).head? = some d → isWordChar d = true :=
    fun d hd => by simpa using head?_dropWhile hd
  have hwhole := List.takeWhile_append_dropWhile (p := (!isWordChar ·)) (l := t)
  rw [← hwhole, wordsAt_gap (k + 1) hgap hnext, ← List.cons_append,
    wordsAt_gap k (List.forall_mem_cons.2 ⟨hc, hgap⟩) hnext, List.length_cons, Nat.add_right_comm,
    Nat.add_assoc]

end Text

namespace Sliced

open Text (byteSize bytesTo)

/-- The offset at which a run of identifier characters ends, and what follows it. `stop` is where
the part that has been read ends. -/
def runEnd (stop : Nat) : List (Nat × Char) → Nat × List (Nat × Char)
  | [] => (stop, [])
  | (i, c) :: rest => if isWordChar c then runEnd (i + c.utf8Size) rest else (stop, (i, c) :: rest)

theorem length_runEnd_le (stop : Nat) (cs : List (Nat × Char)) :
    (runEnd stop cs).2.length ≤ cs.length := by
  fun_induction runEnd stop cs with
  | case1 => exact Nat.le_refl _
  | case2 stop i c rest _ ih => exact Nat.le_succ_of_le ih
  | case3 => exact Nat.le_refl _

def startsWithDigit : Text → Bool
  | [] => false
  | c :: _ => c.isDigit

/-- The words among the last characters of a text. -/
def wordsFrom (t : Text) : List (Nat × Char) → Except Fault (List (Nat × Text))
  | [] => .ok []
  | (i, c) :: rest =>
    if isWordChar c then do
      let run := runEnd (i + c.utf8Size) rest
      let word ← slice t i run.1
      let later ← wordsFrom t run.2
      .ok (if startsWithDigit word then later else (i, word) :: later)
    else wordsFrom t rest
termination_by cs => cs.length
decreasing_by
  · exact Nat.lt_succ_of_le (length_runEnd_le _ rest)
  · exact Nat.lt_succ_self _

def words (t : Text) : Except Fault (List (Nat × Text)) := wordsFrom t (charIndices 0 t)

/-- Where the longest end of a text starts whose characters satisfy `p`, unless it is empty. -/
def endStart? (p : Char → Bool) (t : Text) : Option Nat :=
  (((charIndices 0 t).reverse.takeWhile (p ·.2)).getLast?).map (·.1)

/-- The ends of the identifier around an offset. -/
def wordAt? (t : Text) (offset : Nat) : Except Fault (Option (Nat × Nat)) := do
  let offset ← floor t (min offset (byteSize t))
  let before ← sliceTo t offset
  let after ← sliceFrom t offset
  let start := (endStart? isWordChar before).getD offset
  let stop := ((findChar? (!isWordChar ·) after).map (offset + ·)).getD (byteSize t)
  .ok (if start = stop then none else some (start, stop))

def occurrences (t word : Text) : Except Fault (List (Nat × Nat)) := do
  let found ← words t
  .ok ((found.filter (·.2 = word)).map fun (i, w) => (i, i + byteSize w))

/-! ### The words of a text -/

/-- A word that was found, by its byte offset. -/
def atBytes (t : Text) (entry : Nat × Text) : Nat × Text := (t.bytesTo entry.1, entry.2)

theorem runEnd_charIndices (n : Nat) (t : Text) :
    runEnd n (charIndices n t) = (n + byteSize (t.takeWhile isWordChar),
      charIndices (n + byteSize (t.takeWhile isWordChar)) (t.dropWhile isWordChar)) := by
  induction t generalizing n with
  | nil => rfl
  | cons c t ih =>
      rw [charIndices, runEnd]
      split
      · next hc =>
          rw [ih, List.takeWhile_cons_of_pos hc, List.dropWhile_cons_of_pos hc, Text.byteSize_cons,
            Nat.add_assoc]
      · next hc =>
          rw [List.takeWhile_cons_of_neg hc, List.dropWhile_cons_of_neg hc]
          rfl

theorem isWordRun_eq {c : Char} (hc : isWordChar c = true) (run : Text) :
    Text.isWordRun (c :: run) = !startsWithDigit (c :: run) := by
  rw [Text.isWordRun, hc]
  rfl

/-- The identifier characters that a text starts with, and what follows them. -/
theorem exists_run (t : Text) : ∃ run behind, (∀ c ∈ run, isWordChar c = true) ∧
    (∀ c, behind.head? = some c → isWordChar c = false) ∧ t = run ++ behind ∧
    t.takeWhile isWordChar = run ∧ t.dropWhile isWordChar = behind := by
  exact ⟨_, _, fun c hc => List.all_eq_true.1 List.all_takeWhile c hc,
    fun c hc => Text.head?_dropWhile hc, List.takeWhile_append_dropWhile.symm, rfl, rfl⟩

theorem wordsFrom_charIndices (s t : Text) :
    wordsFrom (s ++ t) (charIndices (byteSize s) t)
      = .ok ((Text.wordsAt s.length t).map (atBytes (s ++ t))) := by
  induction hlength : t.length using Nat.strong_induction_on generalizing s t with
  | h length ih =>
      cases t with
      | nil =>
          rw [charIndices, wordsFrom]
          rfl
      | cons c t =>
          rw [charIndices, wordsFrom]
          split
          · next hc =>
              obtain ⟨run, behind, hrun, hbehind, rfl, htake, hdrop⟩ := exists_run t
              have hslice := slice_append s (c :: run) behind
              have hshorter : behind.length < length := by
                rw [← hlength, List.length_cons, List.length_append]
                omega
              have hrest := ih behind.length hshorter (s ++ c :: run) behind rfl
              have hwords := Text.wordsAt_run s.length (List.cons_ne_nil c run)
                (List.forall_mem_cons.2 ⟨hc, hrun⟩) hbehind
              simp only [List.cons_append, List.append_assoc, Text.byteSize_append,
                Text.byteSize_cons, List.length_append] at hslice hrest hwords
              rw [runEnd_charIndices, htake, hdrop]
              simp only [Nat.add_assoc, hslice, ok_bind, hrest, hwords, isWordRun_eq hc]
              cases startsWithDigit (c :: run) with
              | true => rfl
              | false => simp [atBytes]
          · next hc =>
              have hrest := ih t.length (by simp [← hlength]) (s ++ [c]) t rfl
              rw [Text.wordsAt_cons _ (by simpa using hc)]
              simpa using hrest

theorem words_eq (t : Text) : words t = .ok ((Text.words t).map (atBytes t)) :=
  wordsFrom_charIndices [] t

/-! ### The word around an offset -/

theorem mem_charIndices {n : Nat} {t : Text} {entry : Nat × Char} (h : entry ∈ charIndices n t) :
    entry.2 ∈ t := by
  induction t generalizing n with
  | nil => cases h
  | cons c t ih =>
      rcases List.mem_cons.1 h with rfl | h
      · exact List.mem_cons_self
      · exact List.mem_cons_of_mem c (ih h)

theorem endStart?_eq (p : Char → Bool) (t : Text) :
    endStart? p t = if t.takeEndWhile p = [] then none else some (byteSize (t.dropEndWhile p)) := by
  have hwhole := Text.dropEndWhile_append_takeEndWhile p t
  have htail : ∀ entry ∈ (charIndices (byteSize (t.dropEndWhile p)) (t.takeEndWhile p)).reverse,
      p entry.2 = true := by
    intro entry hentry
    exact Text.of_mem_takeEndWhile (mem_charIndices (List.mem_reverse.1 hentry))
  have hfront : (charIndices 0 (t.dropEndWhile p)).reverse.takeWhile (p ·.2) = [] := by
    have hnot := List.head?_dropWhile_not p t.reverse
    rw [Text.dropEndWhile]
    cases hdrop : t.reverse.dropWhile p with
    | nil => rfl
    | cons c u =>
        rw [hdrop] at hnot
        rw [List.reverse_cons, charIndices_append, List.reverse_append]
        exact List.takeWhile_cons_of_neg (by simpa using hnot)
  rw [endStart?]
  conv => lhs; rw [← hwhole]
  rw [charIndices_append, List.reverse_append, Nat.zero_add, List.takeWhile_append_of_pos htail,
    hfront, List.append_nil, List.getLast?_reverse]
  cases t.takeEndWhile p with
  | nil => rfl
  | cons c u => rfl

theorem endStart?_getD (p : Char → Bool) (t : Text) :
    (endStart? p t).getD (byteSize t) = byteSize (t.dropEndWhile p) := by
  rw [endStart?_eq]
  split
  · next hnone =>
      have hwhole := Text.dropEndWhile_append_takeEndWhile p t
      rw [hnone, List.append_nil] at hwhole
      rw [hwhole]
      rfl
  · rfl

theorem findChar?_getD (p : Char → Bool) (t : Text) :
    (findChar? (!p ·) t).getD (byteSize t) = byteSize (t.takeWhile p) := by
  rcases findChar?_cases (!p ·) t with ⟨hnone, ht⟩ | ⟨s, c, u, rfl, hs, hc, hfound⟩
  · rw [hnone, List.takeWhile_eq_self_iff.2 (by simpa using ht)]
    rfl
  · rw [hfound, List.takeWhile_append_of_pos (by simpa using hs),
      List.takeWhile_cons_of_neg (by simpa using hc), List.append_nil]
    rfl

theorem wordAt?_eq (t : Text) (offset : Nat) :
    wordAt? t offset
      = .ok ((t.wordAt? offset).map fun (i, w) => (t.bytesTo i, t.bytesTo (i + w.length))) := by
  rw [wordAt?, floor_eq, beforeByte_min, ok_bind, Text.wordAt?]
  obtain ⟨after, hafter⟩ : t.beforeByte offset <+: t := Text.splitWithin_isPrefix _ _ t
  generalize t.beforeByte offset = before at hafter
  subst hafter
  rw [sliceTo_of_isPrefix (List.prefix_append before after), ok_bind, sliceFrom_append, ok_bind,
    List.drop_left, endStart?_getD, Text.byteSize_append,
    Option.getD_map, findChar?_getD]
  have hwhole := Text.dropEndWhile_append_takeEndWhile isWordChar before
  generalize before.dropEndWhile isWordChar = front at hwhole
  generalize before.takeEndWhile isWordChar = left at hwhole
  subst hwhole
  have hprefix :
      left ++ after.takeWhile isWordChar <+: (front ++ left ++ after).drop front.length := by
    rw [List.append_assoc, List.drop_left, List.prefix_append_right_inj]
    exact List.takeWhile_prefix _
  have hstop := Text.bytesTo_add_of_isPrefix hprefix
  have hstart := Text.bytesTo_append_length front (left ++ after)
  rw [← List.append_assoc] at hstart
  rw [hstart] at hstop
  generalize after.takeWhile isWordChar = right at hstop
  rw [List.length_append, Nat.add_sub_cancel]
  by_cases hword : left ++ right = []
  · obtain ⟨rfl, rfl⟩ := List.append_eq_nil_iff.1 hword
    simp
  · have hsize := Text.byteSize_pos hword
    have hempty : ¬ (left ++ right).isEmpty = true := mt List.isEmpty_iff.1 hword
    rw [if_neg hempty, Option.map_some]
    dsimp only
    rw [hstart, hstop, Text.byteSize_append, Nat.add_assoc, ← Text.byteSize_append left right,
      if_neg (by omega)]

/-! ### Occurrences -/

theorem occurrences_eq (t word : Text) :
    occurrences t word
      = .ok ((t.occurrences word).map fun i => (t.bytesTo i, t.bytesTo (i + word.length))) := by
  have hwords : ∀ entry ∈ Text.words t,
      t.bytesTo (entry.1 + entry.2.length) = t.bytesTo entry.1 + byteSize entry.2 := fun _ hentry =>
    Text.bytesTo_add_of_isPrefix (Text.isWordAt_of_mem_words hentry).isPrefix
  rw [occurrences, words_eq, ok_bind, Text.occurrences]
  refine congrArg Except.ok ?_
  generalize Text.words t = found at hwords
  induction found with
  | nil => rfl
  | cons entry found ih =>
      obtain ⟨i, w⟩ := entry
      obtain ⟨hi, hfound⟩ := List.forall_mem_cons.1 hwords
      have hrest := ih hfound
      rw [List.map_cons, List.filter_cons, List.filterMap_cons]
      by_cases hw : w = word
      · subst hw
        simp only [atBytes, decide_true, if_true, List.map_cons, hi]
        exact congrArg _ hrest
      · simp only [atBytes, hw, decide_false, Bool.false_eq_true, if_false]
        exact hrest

/-! ### Blanks at the end -/

theorem trimEnd_isPrefix (t : Text) : t.trimEnd <+: t :=
  ⟨_, Text.dropEndWhile_append_takeEndWhile isSpace t⟩

theorem sliceTo_trimEnd (t : Text) : sliceTo t (byteSize t.trimEnd) = .ok t.trimEnd :=
  sliceTo_of_isPrefix (trimEnd_isPrefix t)

theorem byteSize_trimEnd_iff (t : Text) : byteSize t.trimEnd = byteSize t ↔ t.trimEnd = t := by
  refine ⟨fun hsize => ?_, congrArg byteSize⟩
  obtain ⟨rest, hrest⟩ := trimEnd_isPrefix t
  by_contra hne
  have hne' : rest ≠ [] := fun hnil => hne (by rwa [hnil, List.append_nil] at hrest)
  have hpos := Text.byteSize_pos hne'
  have hwhole := congrArg byteSize hrest
  rw [Text.byteSize_append] at hwhole
  omega

end Sliced

end LanguageServer
