import LanguageServer.Proofs.Text.Tokens

/-!
# Where words stand

A word of a text stands where it was found (`isWordAt_of_mem_words`), in every text that goes on
after it (`IsWordAt.of_isPrefix`), and never in the indentation, as no blank is an identifier
character (`IsWordAt.indentation_le`).
-/

namespace LanguageServer

/-! ### Blanks -/

theorem inClass_cons_cons (first last : Nat) (changes : List Nat) (n : Nat) :
    inClass (first :: last :: changes) n
      = if n < first then false else if n < last then true else inClass changes n := by
  by_cases hfirst : n < first
  · rw [if_pos hfirst, inClass, List.takeWhile_cons_of_neg (by simpa using hfirst)]
    rfl
  · rw [if_neg hfirst, inClass, List.takeWhile_cons_of_pos (by simpa using hfirst)]
    by_cases hlast : n < last
    · rw [if_pos hlast, List.takeWhile_cons_of_neg (by simpa using hlast)]
      rfl
    · rw [if_neg hlast, List.takeWhile_cons_of_pos (by simpa using hlast), List.length_cons,
        List.length_cons, Nat.add_assoc, Nat.add_mod_right, inClass]

/-- The code points of blank characters. -/
def spaces : List Nat :=
  [9, 10, 11, 12, 13, 32, 133, 160, 5760, 8192, 8193, 8194, 8195, 8196, 8197, 8198, 8199, 8200,
    8201, 8202, 8232, 8233, 8239, 8287, 12288]

theorem mem_spaces_of_inClass {n : Nat} (h : inClass spaceChanges n = true) : n ∈ spaces := by
  have hnil : inClass [] n = false := rfl
  simp only [spaceChanges, inClass_cons_cons, hnil, Bool.ite_eq_true_distrib, Bool.false_eq_true,
    if_false_left, if_true_left, Decidable.imp_iff_not_or, Decidable.not_not,
    or_false] at h
  simp only [spaces, List.mem_cons]
  omega

theorem toNat_mem_spaces {c : Char} (h : isSpace c = true) : c.toNat ∈ spaces := by
  rw [isSpace, Bool.or_eq_true, Bool.or_eq_true, Bool.and_eq_true, Bool.and_eq_true] at h
  rcases h with (h | ⟨hlow, hhigh⟩) | ⟨-, h⟩
  · rw [beq_iff_eq.1 h]
    decide
  · have hlow : 9 ≤ c.toNat := of_decide_eq_true hlow
    have hhigh : c.toNat ≤ 13 := of_decide_eq_true hhigh
    simp only [spaces, List.mem_cons]
    omega
  · exact mem_spaces_of_inClass h

/-- Blanks are no identifier characters. -/
theorem isWordChar_of_isSpace {c : Char} (h : isSpace c = true) : isWordChar c = false := by
  have hword : ∀ n ∈ spaces, isWordChar (Char.ofNat n) = false := by decide +kernel
  have hc := hword c.toNat (toNat_mem_spaces h)
  rwa [Char.ofNat_toNat] at hc

namespace Text

/-! ### Words -/

/-- The word stands at this index. -/
structure IsWordAt (t : Text) (i : Nat) (word : Text) : Prop where
  isWordRun : isWordRun word = true
  isPrefix : word <+: t.drop i

theorem exists_of_mem_locatedFrom {pieces : List Text} {piece : Text} {n i : Nat}
    (h : (i, piece) ∈ locatedFrom [] n pieces) :
    ∃ before after, pieces = before ++ piece :: after ∧ i = n + before.flatten.length := by
  induction pieces generalizing n with
  | nil => cases h
  | cons first rest ih =>
      rw [locatedFrom_cons] at h
      rcases List.mem_cons.1 h with heq | h
      · cases heq
        exact ⟨[], rest, rfl, rfl⟩
      · obtain ⟨before, after, rfl, rfl⟩ := ih h
        refine ⟨first :: before, after, rfl, ?_⟩
        rw [List.flatten_cons, List.length_append, Nat.add_assoc]

theorem isWordAt_of_mem_words {t word : Text} {i : Nat} (h : (i, word) ∈ words t) :
    IsWordAt t i word := by
  obtain ⟨hlocated, hword⟩ := List.mem_filter.1 h
  obtain ⟨before, after, hruns, rfl⟩ := exists_of_mem_locatedFrom hlocated
  refine ⟨hword, after.flatten, ?_⟩
  rw [← (isTokenized_runs t).whole, hruns, List.flatten_append, List.flatten_cons, Nat.zero_add,
    List.drop_left]

/-- The words of a text come one after the other. -/
theorem pairwise_words (t : Text) : (words t).Pairwise fun a b => a.1 + a.2.length ≤ b.1 := by
  suffices h : ∀ pieces n, (locatedFrom [] n pieces).Pairwise (fun a b => a.1 + a.2.length ≤ b.1) ∧
      ∀ entry ∈ locatedFrom [] n pieces, n ≤ entry.1 from (h _ 0).1.filter _
  intro pieces
  induction pieces with
  | nil => exact fun n => ⟨.nil, nofun⟩
  | cons piece rest ih =>
      intro n
      obtain ⟨hpairwise, hbehind⟩ := ih (n + piece.length)
      rw [locatedFrom_cons]
      refine ⟨List.pairwise_cons.2 ⟨hbehind, hpairwise⟩, ?_⟩
      refine List.forall_mem_cons.2 ⟨Nat.le_refl n, fun entry hentry => ?_⟩
      exact (Nat.le_add_right n _).trans (hbehind entry hentry)

namespace IsWordAt

variable {t word : Text} {i : Nat}

theorem ne_nil (h : IsWordAt t i word) : word ≠ [] := by
  rintro rfl
  exact absurd h.isWordRun (by decide)

theorem le_length (h : IsWordAt t i word) : i + word.length ≤ t.length := by
  have hlength := h.isPrefix.length_le
  have hne : 0 < word.length := List.length_pos_iff.2 h.ne_nil
  rw [List.length_drop] at hlength
  omega

theorem of_drop {n : Nat} (h : IsWordAt (t.drop n) i word) : IsWordAt t (n + i) word := by
  refine ⟨h.isWordRun, ?_⟩
  have hprefix := h.isPrefix
  rwa [List.drop_drop] at hprefix

theorem of_isPrefix {line : Text} (h : IsWordAt t i word) (hline : t <+: line) :
    IsWordAt line i word := by
  obtain ⟨rest, rfl⟩ := hline
  refine ⟨h.isWordRun, h.isPrefix.trans ⟨rest, ?_⟩⟩
  rw [List.drop_append_of_le_length (Nat.le_of_add_right_le h.le_length)]

/-- Words stand behind the indentation. -/
theorem indentation_le (h : IsWordAt t i word) : t.indentation.length ≤ i := by
  obtain ⟨first, rest, rfl⟩ := List.exists_cons_of_ne_nil h.ne_nil
  obtain ⟨after, hafter⟩ := h.isPrefix
  by_contra hinside
  have hmem : first ∈ t.indentation := by
    have hfirst : (t.indentation ++ t.trimStart)[i]? = some first := by
      rw [indentation_append_trimStart, ← List.head?_drop, ← hafter]
      rfl
    rw [List.getElem?_append_left (Nat.lt_of_not_le hinside)] at hfirst
    exact List.mem_of_getElem? hfirst
  have hblank : isSpace first = true := List.all_eq_true.1 List.all_takeWhile first hmem
  have hword : isWordChar first = true := (Bool.and_eq_true_iff.1 h.isWordRun).1
  rw [isWordChar_of_isSpace hblank] at hword
  cases hword

end IsWordAt

end Text

end LanguageServer
