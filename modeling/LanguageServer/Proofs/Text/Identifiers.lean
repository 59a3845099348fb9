import LanguageServer.Proofs.Text.Cuts
import LanguageServer.Proofs.Text.Ends
import LanguageServer.Proofs.Text.Words

/-!
# Identifiers that stand alone

The identifiers of a text can be found in two ways: by cutting the whole text into tokens, or by
going to both sides of a place in it. Either way what is found has no further identifier character
next to it, and everything of that kind is found (`mem_words_iff`, `wordAt?_eq_some_iff`). So the
two ways agree, and an identifier is found in every longer text that does not continue it
(`mem_words_append`).
-/

namespace LanguageServer.Text

/-- Identifier characters between two parts of a text that do not continue them. -/
structure StandsAlone (before word after : Text) : Prop where
  ne_nil : word ≠ []
  chars : ∀ c ∈ word, isWordChar c = true
  left : ∀ c, before.getLast? = some c → isWordChar c = false
  right : ∀ c, after.head? = some c → isWordChar c = false

variable {t word before after : Text} {i : Nat}

/-! ### Tokens -/

/-- What stands alone is a token, and the parts around it are cut as if they stood by themselves. -/
theorem StandsAlone.runs_eq (h : StandsAlone before word after) :
    runs (before ++ word ++ after) = runs before ++ word :: runs after := by
  have hright : IsTokenized (word ++ after) ([word] ++ runs after) := by
    refine isTokenized_append_iff.2 ⟨word, after, rfl, .singleton h.ne_nil h.chars,
      isTokenized_runs after, fun c d hc hd => ?_⟩
    rw [h.chars c (List.mem_of_getLast? hc), h.right d hd]
    decide
  refine runs_eq_iff.2 (isTokenized_append_iff.2 ⟨before, word ++ after, List.append_assoc _ _ _,
    isTokenized_runs before, hright, fun c d hc hd => ?_⟩)
  rw [List.head?_append_of_ne_nil _ h.ne_nil] at hd
  rw [h.left c hc, h.chars d (List.mem_of_head? hd)]
  decide

/-- A token made of identifier characters stands alone. -/
theorem standsAlone_of_runs {pre post : List Text} (hruns : runs t = pre ++ word :: post)
    (hword : isWordRun word = true) :
    t = pre.flatten ++ word ++ post.flatten ∧ StandsAlone pre.flatten word post.flatten := by
  obtain ⟨_, behind, rfl, ⟨rfl, -⟩, hbehind, hleft⟩ :=
    isTokenized_append_iff.1 (runs_eq_iff.1 hruns)
  have hsplit : IsTokenized behind ([word] ++ post) := hbehind
  obtain ⟨token, _, rfl, htoken, ⟨rfl, -⟩, hright⟩ := isTokenized_append_iff.1 hsplit
  obtain rfl : word = token := List.flatten_singleton.symm.trans htoken.whole
  have hne := htoken.ne_nil word (List.mem_singleton_self word)
  have hchars : ∀ c ∈ word, isWordChar c = true := by
    obtain ⟨first, rest, rfl⟩ := List.exists_cons_of_ne_nil hne
    intro c hc
    rw [htoken.uniform _ List.mem_cons_self c hc first List.mem_cons_self]
    exact (Bool.and_eq_true_iff.1 hword).1
  refine ⟨(List.append_assoc _ _ _).symm, hne, hchars, fun c hc => ?_, fun c hc => ?_⟩
  · have hdiff := hleft c _ hc
      ((List.head?_append_of_ne_nil _ hne).trans (List.head?_eq_some_head hne))
    rwa [hchars _ (List.head_mem hne), ne_eq, Bool.not_eq_true] at hdiff
  · have hdiff := hright _ c (List.getLast?_eq_some_getLast hne) hc
    rwa [hchars _ (List.getLast_mem hne), ne_eq, eq_comm, Bool.not_eq_true] at hdiff

/-! ### The words of a text -/

theorem mem_locatedFrom (n : Nat) (before : List Text) (piece : Text) (after : List Text) :
    (n + before.flatten.length, piece) ∈ locatedFrom [] n (before ++ piece :: after) := by
  induction before generalizing n with
  | nil =>
      rw [List.nil_append, locatedFrom_cons]
      exact List.mem_cons_self
  | cons first rest ih =>
      rw [List.cons_append, locatedFrom_cons, List.flatten_cons, List.length_append,
        ← Nat.add_assoc]
      exact List.mem_cons_of_mem _ (ih (n + first.length))

/-- The words of a text are what stands alone in it and does not start with a digit. -/
theorem mem_words_iff : (i, word) ∈ words t ↔ isWordRun word = true ∧
    ∃ before after, t = before ++ word ++ after ∧ before.length = i ∧
      StandsAlone before word after := by
  constructor
  · intro h
    obtain ⟨hlocated, hword⟩ := List.mem_filter.1 h
    obtain ⟨pre, post, hruns, rfl⟩ := exists_of_mem_locatedFrom hlocated
    obtain ⟨ht, halone⟩ := standsAlone_of_runs hruns hword
    exact ⟨hword, _, _, ht, (Nat.zero_add _).symm, halone⟩
  · rintro ⟨hword, before, after, rfl, rfl, halone⟩
    refine List.mem_filter.2 ⟨?_, hword⟩
    have hmem := mem_locatedFrom 0 (runs before) word (runs after)
    rwa [(isTokenized_runs before).whole, Nat.zero_add, ← halone.runs_eq] at hmem

theorem mem_occurrences_iff : i ∈ occurrences t word ↔ (i, word) ∈ words t := by
  rw [occurrences, List.mem_filterMap]
  constructor
  · rintro ⟨⟨j, w⟩, hmem, hi⟩
    obtain ⟨rfl, rfl⟩ : w = word ∧ j = i := by simpa using hi
    exact hmem
  · exact fun hmem => ⟨(i, word), hmem, if_pos rfl⟩

/-- A word of a text is one of every longer text that does not continue it. -/
theorem mem_words_append (hword : (i, word) ∈ words t)
    (hbefore : ∀ c, before.getLast? = some c → isWordChar c = false)
    (hafter : ∀ c, after.head? = some c → isWordChar c = false) :
    (before.length + i, word) ∈ words (before ++ t ++ after) := by
  obtain ⟨hrun, s, u, rfl, rfl, halone⟩ := mem_words_iff.1 hword
  refine mem_words_iff.2 ⟨hrun, before ++ s, u ++ after, by simp, List.length_append, ?_⟩
  refine ⟨halone.ne_nil, halone.chars, fun c hc => ?_, fun c hc => ?_⟩
  · cases s with
    | nil => exact hbefore c (by rwa [List.append_nil] at hc)
    | cons first s =>
        rw [List.getLast?_append_of_ne_nil _ (List.cons_ne_nil first s)] at hc
        exact halone.left c hc
  · cases u with
    | nil => exact hafter c hc
    | cons first u => exact halone.right c hc

/-! ### The word at a place -/

/-- An identifier does not touch a line break from inside. -/
theorem cleanCut_of_chars (hne : word ≠ []) (hchars : ∀ c ∈ word, isWordChar c = true)
    (before after : Text) : CleanCut before (word ++ after) ∧ CleanCut (before ++ word) after := by
  refine ⟨fun _ => ⟨List.append_ne_nil_of_left_ne_nil hne _, fun hhead => ?_⟩,
    cleanCut_of_getLast?_ne (fun hlast => ?_) after⟩
  · rw [List.head?_append_of_ne_nil _ hne] at hhead
    exact absurd (hchars _ (List.mem_of_head? hhead)) (by decide)
  · rw [List.getLast?_append_of_ne_nil _ hne] at hlast
    exact absurd (hchars _ (List.mem_of_getLast? hlast)) (by decide)

/-- Around a place there is a word exactly if something that stands alone touches the place. -/
theorem wordAt?_eq_some_iff {offset : Nat} : wordAt? t offset = some (i, word) ↔
    ∃ before after, t = before ++ word ++ after ∧ before.length = i ∧
      StandsAlone before word after ∧
      before <+: t.beforeByte offset ∧ t.beforeByte offset <+: before ++ word := by
  obtain ⟨rest, hrest⟩ : t.beforeByte offset <+: t := splitWithin_isPrefix _ _ t
  rw [wordAt?]
  generalize t.beforeByte offset = place at hrest
  subst hrest
  rw [List.drop_left]
  constructor
  · intro h
    split at h
    · cases h
    · next hne =>
        obtain ⟨rfl, rfl⟩ := Prod.mk.inj (Option.some.inj h)
        have hfront := dropEndWhile_append_takeEndWhile isWordChar place
        have hlast := fun c => getLast?_dropEndWhile (p := isWordChar) (t := place) (c := c)
        have hleft : ∀ c ∈ place.takeEndWhile isWordChar, isWordChar c = true := fun c =>
          of_mem_takeEndWhile
        generalize place.dropEndWhile isWordChar = front at hfront hlast
        generalize place.takeEndWhile isWordChar = left at hfront hleft hne
        subst hfront
        refine ⟨front, rest.dropWhile isWordChar, ?_, by simp, ⟨?_, ?_, hlast, ?_⟩, ?_, ?_⟩
        · simp [List.takeWhile_append_dropWhile]
        · exact mt List.isEmpty_iff.2 hne
        · exact List.forall_mem_append.2 ⟨hleft, fun c hc => List.mem_takeWhile_imp hc⟩
        · exact fun c hc => head?_dropWhile hc
        · exact List.prefix_append front left
        · rw [← List.append_assoc]
          exact List.prefix_append (front ++ left) _
  · rintro ⟨before, after, ht, rfl, halone, ⟨left, rfl⟩, right, hright⟩
    rw [List.append_assoc, List.append_cancel_left_eq] at hright
    subst hright
    obtain rfl : rest = right ++ after := by simpa using ht
    obtain ⟨hleft, hright⟩ := List.forall_mem_append.1 halone.chars
    rw [takeEndWhile_append halone.left hleft, takeWhile_append hright halone.right,
      if_neg (mt List.isEmpty_iff.1 halone.ne_nil), List.length_append, Nat.add_sub_cancel]

end LanguageServer.Text
