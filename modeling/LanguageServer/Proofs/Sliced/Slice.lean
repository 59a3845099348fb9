import LanguageServer.Proofs.Text.Cuts
import LanguageServer.Workspace.Fault

/-!
# Slices of a text

A text is stored as bytes, and queries cut pieces out of it by byte offsets. That breaks off if the
offsets are out of order, past the end or inside a character; so does taking more from a number than
there is, or an element behind the end of a list. These steps are written here with what they check.

All offsets that queries compute are the offsets of some numbers of characters (`Text.bytesTo`), and
for those a slice is a piece of the list of characters (`slice_bytesTo`).
-/

namespace LanguageServer

namespace Text

/-- Byte offset of the character with index `i`, or of the end of the text. -/
def bytesTo (t : Text) (i : Nat) : Nat := byteSize (t.take i)

@[simp] theorem bytesTo_zero (t : Text) : t.bytesTo 0 = 0 := rfl

theorem bytesTo_of_length_le {t : Text} {i : Nat} (h : t.length ≤ i) :
    t.bytesTo i = byteSize t := by
  rw [bytesTo, List.take_of_length_le h]

@[simp] theorem bytesTo_length (t : Text) : t.bytesTo t.length = byteSize t :=
  bytesTo_of_length_le (Nat.le_refl _)

@[simp] theorem bytesTo_append_length (s t : Text) : (s ++ t).bytesTo s.length = byteSize s := by
  rw [bytesTo, List.take_left]

theorem bytesTo_add (t : Text) (i k : Nat) :
    t.bytesTo (i + k) = t.bytesTo i + bytesTo (t.drop i) k := by
  rw [bytesTo, List.take_add, byteSize_append, bytesTo, bytesTo]

theorem bytesTo_mono (t : Text) {i j : Nat} (h : i ≤ j) : t.bytesTo i ≤ t.bytesTo j := by
  obtain ⟨k, rfl⟩ := Nat.exists_eq_add_of_le h
  rw [bytesTo_add]
  exact Nat.le_add_right _ _

theorem bytesTo_le (t : Text) (i : Nat) : t.bytesTo i ≤ byteSize t :=
  width_le_of_isPrefix Char.utf8Size (List.take_prefix i t)

theorem bytesTo_of_isPrefix {word t : Text} (h : word <+: t) :
    t.bytesTo word.length = byteSize word := by
  obtain ⟨rest, rfl⟩ := h
  exact bytesTo_append_length word rest

theorem bytesTo_add_of_isPrefix {word t : Text} {i : Nat} (h : word <+: t.drop i) :
    t.bytesTo (i + word.length) = t.bytesTo i + byteSize word := by
  rw [bytesTo_add, bytesTo_of_isPrefix h]

theorem bytesTo_min (t : Text) (i j : Nat) :
    min (t.bytesTo i) (t.bytesTo j) = t.bytesTo (min i j) := by
  rcases Nat.le_total i j with h | h
  · rw [Nat.min_eq_left h, Nat.min_eq_left (bytesTo_mono t h)]
  · rw [Nat.min_eq_right h, Nat.min_eq_right (bytesTo_mono t h)]

theorem bytesTo_eq_of_isPrefix {s t : Text} (h : s <+: t) {i : Nat} (hi : i ≤ s.length) :
    t.bytesTo i = s.bytesTo i := by
  obtain ⟨rest, rfl⟩ := h
  rw [bytesTo, List.take_append_of_le_length hi, bytesTo]

theorem byteSize_takeWhile_add (p : Char → Bool) (t : Text) :
    byteSize (t.takeWhile p) + byteSize (t.dropWhile p) = byteSize t := by
  rw [← byteSize_append, List.takeWhile_append_dropWhile]

theorem beforeByte_bytesTo (t : Text) (i : Nat) : t.beforeByte (t.bytesTo i) = t.take i := by
  have hcut := beforeByte_byteSize (t.take i) (t.drop i)
  rwa [List.take_append_drop] at hcut

theorem afterByte_bytesTo (t : Text) (i : Nat) : t.afterByte (t.bytesTo i) = t.drop i := by
  have hcut := afterByte_byteSize (t.take i) (t.drop i)
  rwa [List.take_append_drop] at hcut

theorem isBoundary_bytesTo (t : Text) (i : Nat) : t.isBoundary (t.bytesTo i) = true := by
  have hcut := isBoundary_byteSize (t.take i) (t.drop i)
  rwa [List.take_append_drop] at hcut

end Text

namespace Sliced

open Text (bytesTo)

/-! ### Steps that check -/

/-- How a query ends that breaks off. -/
def broken : Fault := .panic "out of range".toList

/-- The bytes from offset `i` up to, but without, `j`. -/
def slice (t : Text) (i j : Nat) : Except Fault Text :=
  if i ≤ j && t.isBoundary i && t.isBoundary j then .ok ((t.afterByte i).beforeByte (j - i))
  else .error broken

def sliceTo (t : Text) (j : Nat) : Except Fault Text := slice t 0 j

def sliceFrom (t : Text) (i : Nat) : Except Fault Text := slice t i (Text.byteSize t)

/-- The difference of two numbers of which the first is not smaller. -/
def sub (a b : Nat) : Except Fault Nat := if b ≤ a then .ok (a - b) else .error broken

/-- The quotient and the remainder of a division, which is never one by zero. -/
def divide (a b : Nat) : Except Fault (Nat × Nat) :=
  if b = 0 then .error broken else .ok (a / b, a % b)

/-- The element of a list that has an index. -/
def entry {α : Type} (xs : List α) (i : Nat) : Except Fault α :=
  match xs[i]? with
  | some x => .ok x
  | none => .error broken

/-- The first `n` elements of a list that has so many. -/
def initial {α : Type} (xs : List α) (n : Nat) : Except Fault (List α) :=
  if n ≤ xs.length then .ok (xs.take n) else .error broken

theorem slice_bytesTo (t : Text) {i j : Nat} (h : i ≤ j) :
    slice t (t.bytesTo i) (t.bytesTo j) = .ok ((t.take j).drop i) := by
  obtain ⟨k, rfl⟩ := Nat.exists_eq_add_of_le h
  rw [slice, Text.isBoundary_bytesTo, Text.isBoundary_bytesTo,
    decide_eq_true (Text.bytesTo_mono t h), Text.afterByte_bytesTo, Text.bytesTo_add,
    Nat.add_sub_cancel_left, Text.beforeByte_bytesTo, List.drop_take, Nat.add_sub_cancel_left]
  rfl

/-- Inside a character nothing can be cut. -/
example : slice ['é', 'a'] 0 2 = .ok ['é'] ∧ slice ['é', 'a'] 1 3 = .error broken := by decide

theorem sliceTo_bytesTo (t : Text) (i : Nat) : sliceTo t (t.bytesTo i) = .ok (t.take i) :=
  slice_bytesTo t (Nat.zero_le i)

theorem sliceFrom_bytesTo (t : Text) (i : Nat) : sliceFrom t (t.bytesTo i) = .ok (t.drop i) := by
  rcases Nat.le_total i t.length with h | h
  · rw [sliceFrom, ← Text.bytesTo_length, slice_bytesTo t h, List.take_length]
  · have hend := slice_bytesTo t (Nat.le_refl t.length)
    rw [Text.bytesTo_length, List.take_length] at hend
    rw [sliceFrom, Text.bytesTo_of_length_le h, hend, List.drop_of_length_le h,
      List.drop_of_length_le (Nat.le_refl _)]

/-- A slice that starts and ends where the middle of three parts does. -/
theorem slice_append (s t u : Text) :
    slice (s ++ (t ++ u)) (Text.byteSize s) (Text.byteSize s + Text.byteSize t) = .ok t := by
  have hslice := slice_bytesTo (s ++ (t ++ u)) (Nat.le_add_right s.length t.length)
  rwa [Text.bytesTo_append_length, Text.bytesTo_add, Text.bytesTo_append_length, List.drop_left,
    Text.bytesTo_append_length, List.take_length_add_append, List.drop_left, List.take_left]
    at hslice

/-- A slice from where a text stands to where it ends. -/
theorem slice_of_isPrefix {s t : Text} {i : Nat} (h : s <+: t.drop i) :
    slice t (t.bytesTo i) (t.bytesTo (i + s.length)) = .ok s := by
  rw [slice_bytesTo t (Nat.le_add_right i s.length), List.drop_take, Nat.add_sub_cancel_left,
    ← List.prefix_iff_eq_take.1 h]

theorem sliceTo_of_isPrefix {s t : Text} (h : s <+: t) : sliceTo t (Text.byteSize s) = .ok s := by
  rw [← Text.bytesTo_of_isPrefix h, sliceTo_bytesTo, ← List.prefix_iff_eq_take.1 h]

theorem sliceFrom_append (s u : Text) : sliceFrom (s ++ u) (Text.byteSize s) = .ok u := by
  rw [← Text.bytesTo_append_length s u, sliceFrom_bytesTo, List.drop_left]

theorem sub_eq {a b : Nat} (h : b ≤ a) : sub a b = .ok (a - b) := if_pos h

theorem divide_eq {b : Nat} (h : b ≠ 0) (a : Nat) : divide a b = .ok (a / b, a % b) := if_neg h

theorem entry_eq {α : Type} {xs : List α} {i : Nat} {x : α} (h : xs[i]? = some x) :
    entry xs i = .ok x := by
  rw [entry, h]

/-! ### Running steps -/

variable {α β γ : Type}

@[simp] theorem ok_bind (a : α) (f : α → Except Fault β) : (Except.ok a >>= f) = f a := rfl

@[simp] theorem pure_eq_ok (a : α) : (pure a : Except Fault α) = .ok a := rfl

theorem mapM_eq_ok {f : α → Except Fault β} {g : α → β} {xs : List α}
    (h : ∀ a ∈ xs, f a = .ok (g a)) : xs.mapM f = .ok (xs.map g) := by
  induction xs with
  | nil => rfl
  | cons a xs ih =>
      rw [List.mapM_cons, h a List.mem_cons_self, ih fun b hb => h b (List.mem_cons_of_mem a hb)]
      rfl

/-! ### Searching -/

/-- The characters of a text with their byte offsets, the first of which is `n`. -/
def charIndices (n : Nat) : Text → List (Nat × Char)
  | [] => []
  | c :: t => (n, c) :: charIndices (n + c.utf8Size) t

theorem charIndices_append (n : Nat) (s t : Text) :
    charIndices n (s ++ t) = charIndices n s ++ charIndices (n + Text.byteSize s) t := by
  induction s generalizing n with
  | nil => rfl
  | cons c s ih =>
      rw [List.cons_append, charIndices, charIndices, ih, List.cons_append, Text.byteSize_cons,
        Nat.add_assoc]

/-- The loop of `find?`, from offset `n`. -/
def findFrom? (pattern : Text) (n : Nat) : Text → Option Nat
  | [] => if pattern.isEmpty then some n else none
  | c :: t => if pattern.isPrefixOf (c :: t) then some n else findFrom? pattern (n + c.utf8Size) t

/-- Byte offset of the first place where a pattern occurs. -/
def find? (pattern t : Text) : Option Nat := findFrom? pattern 0 t

/-- Byte offset of the first character that satisfies `p`. -/
def findChar? (p : Char → Bool) (t : Text) : Option Nat :=
  ((charIndices 0 t).find? (p ·.2)).map (·.1)

/-- No character is found, or the first one that satisfies `p`, with its offset. -/
theorem findChar?_cases (p : Char → Bool) (t : Text) :
    (findChar? p t = none ∧ ∀ c ∈ t, p c = false) ∨
      ∃ s c u, t = s ++ c :: u ∧ (∀ d ∈ s, p d = false) ∧ p c = true ∧
        findChar? p t = some (Text.byteSize s) := by
  suffices h : ∀ n, (((charIndices n t).find? (p ·.2)).map (·.1) = none ∧ ∀ c ∈ t, p c = false) ∨
      ∃ s c u, t = s ++ c :: u ∧ (∀ d ∈ s, p d = false) ∧ p c = true ∧
        ((charIndices n t).find? (p ·.2)).map (·.1) = some (n + Text.byteSize s) by
    simpa [findChar?] using h 0
  induction t with
  | nil => exact fun n => .inl ⟨rfl, by simp⟩
  | cons c t ih =>
      intro n
      cases hc : p c with
      | true => exact .inr ⟨[], c, t, rfl, by simp, hc, by simp [charIndices, hc]⟩
      | false =>
          have hskip : (charIndices n (c :: t)).find? (p ·.2)
              = (charIndices (n + c.utf8Size) t).find? (p ·.2) := by simp [charIndices, hc]
          rw [hskip]
          rcases ih (n + c.utf8Size) with ⟨hnone, ht⟩ | ⟨s, d, u, rfl, hs, hd, hfound⟩
          · exact .inl ⟨hnone, List.forall_mem_cons.2 ⟨hc, ht⟩⟩
          · refine .inr ⟨c :: s, d, u, rfl, List.forall_mem_cons.2 ⟨hc, hs⟩, hd, ?_⟩
            rw [hfound, Text.byteSize_cons, Nat.add_assoc]

/-- Looking for one sign cuts a text in front of it. -/
theorem findSign_cases (c : Char) (t : Text) :
    (findChar? (· == c) t = none ∧ t.takeWhile (· != c) = t ∧ t.dropWhile (· != c) = []) ∨
      ∃ s u, t = s ++ c :: u ∧ t.takeWhile (· != c) = s ∧ t.dropWhile (· != c) = c :: u ∧
        findChar? (· == c) t = some (Text.byteSize s) := by
  rcases findChar?_cases (· == c) t with ⟨hnone, ht⟩ | ⟨s, d, u, rfl, hs, hd, hfound⟩
  · have hother : ∀ d ∈ t, (d != c) = true := fun d hd => by simpa using ht d hd
    refine .inl ⟨hnone, List.takeWhile_eq_self_iff.2 hother, ?_⟩
    rw [← List.append_nil t, List.dropWhile_append_of_pos hother, List.dropWhile_nil]
  · obtain rfl : d = c := eq_of_beq hd
    have hother : ∀ e ∈ s, (e != d) = true := fun e he => by simpa using hs e he
    refine .inr ⟨s, u, rfl, ?_, ?_, hfound⟩
    · rw [List.takeWhile_append_of_pos hother, List.takeWhile_cons_of_neg (by simp),
        List.append_nil]
    · rw [List.dropWhile_append_of_pos hother, List.dropWhile_cons_of_neg (by simp)]

theorem sliceFrom_sign (s u : Text) {c : Char} (hc : c.utf8Size = 1) :
    sliceFrom (s ++ c :: u) (Text.byteSize s + 1) = .ok u := by
  have hslice := sliceFrom_bytesTo (s ++ ([c] ++ u)) (s.length + [c].length)
  rwa [Text.bytesTo_add, Text.bytesTo_append_length, List.drop_left, Text.bytesTo_append_length,
    ← List.drop_drop, List.drop_left, List.drop_left, Text.byteSize_cons, Text.byteSize_nil, hc]
    at hslice

theorem findFrom?_eq (pattern : Text) (n : Nat) (t : Text) :
    findFrom? pattern n t = (Text.indexOf? pattern t).map fun i => n + t.bytesTo i := by
  induction t generalizing n with
  | nil =>
      rw [Text.indexOf?, findFrom?, Text.indexFrom?]
      split <;> rfl
  | cons c t ih =>
      rw [Text.indexOf?, findFrom?, Text.indexFrom?]
      split
      · rfl
      · rw [ih, Text.indexFrom?_eq, Option.map_map]
        congr 1
        funext i
        simp only [Function.comp_apply, Nat.zero_add, Nat.add_comm 1 i, bytesTo,
          List.take_succ_cons,
          Text.byteSize_cons, Nat.add_assoc]

theorem find?_eq (pattern t : Text) :
    find? pattern t = (Text.indexOf? pattern t).map t.bytesTo := by
  rw [find?, findFrom?_eq]
  simp only [Nat.zero_add]

theorem find?_getD (pattern t : Text) :
    (find? pattern t).getD (Text.byteSize t)
      = t.bytesTo ((Text.indexOf? pattern t).getD t.length) := by
  rw [find?_eq, ← Text.bytesTo_length, Option.getD_map]

end Sliced

end LanguageServer
