import LanguageServer.Text.Word
import Mathlib.Data.List.SplitBy

/-!
# The tokens of a text

A text is cut into tokens where identifier characters and other ones meet (`IsTokenized`). There is
one way to do that, and it is what `runs` gives (`runs_eq_iff`). So the tokens of a text that is put
together where they meet are those of its parts (`isTokenized_append_iff`). Putting another
identifier in place of some tokens cuts the new text in the same places, so what occurs in it
afterwards can be counted in the old one.
-/

namespace LanguageServer.Text

/-- The pieces of a text whose characters are all of one kind, and which are as long as that allows.
-/
structure IsTokenized (t : Text) (tokens : List Text) : Prop where
  whole : tokens.flatten = t
  ne_nil : ∀ token ∈ tokens, token ≠ []
  uniform : ∀ token ∈ tokens, ∀ c ∈ token, ∀ d ∈ token, isWordChar c = isWordChar d
  maximal : tokens.IsChain fun a b => ∀ c ∈ a, ∀ d ∈ b, isWordChar c ≠ isWordChar d

/-- An identifier, and nothing else. -/
structure IsIdentifier (word : Text) : Prop where
  isWordRun : isWordRun word = true
  chars : ∀ c ∈ word, isWordChar c = true

theorem IsIdentifier.ne_nil {word : Text} (h : IsIdentifier word) : word ≠ [] := by
  rintro rfl
  exact absurd h.isWordRun (by decide)

theorem isChain_same_iff (token : Text) :
    (token.IsChain fun a b => (isWordChar a == isWordChar b) = true) ↔
      ∀ c ∈ token, ∀ d ∈ token, isWordChar c = isWordChar d := by
  simp only [beq_iff_eq]
  rw [List.isChain_iff_pairwise (R := fun a b => isWordChar a = isWordChar b)]
  constructor
  · intro h c hc d hd
    cases token with
    | nil => cases hc
    | cons first rest =>
        have hfirst : ∀ e ∈ first :: rest, isWordChar first = isWordChar e :=
          List.forall_mem_cons.2 ⟨rfl, (List.pairwise_cons.1 h).1⟩
        rw [← hfirst c hc, ← hfirst d hd]
  · intro h
    exact List.pairwise_of_forall_mem_list h

/-- The runs of a text are its tokens, and there is no other way to cut it. -/
theorem runs_eq_iff {t : Text} {tokens : List Text} : runs t = tokens ↔ IsTokenized t tokens := by
  rw [runs, List.splitBy_eq_iff]
  constructor
  · rintro ⟨hwhole, hnil, huniform, hmeet⟩
    have hsame := fun token htoken => (isChain_same_iff token).1 (huniform token htoken)
    refine ⟨hwhole.symm, fun token htoken h => hnil (h ▸ htoken), hsame, ?_⟩
    refine hmeet.imp_of_mem_imp fun a b ha hb ⟨hane, hbne, hdiff⟩ c hc d hd => ?_
    rw [hsame a ha c hc _ (List.getLast_mem hane), hsame b hb d hd _ (List.head_mem hbne)]
    simpa using hdiff
  · rintro ⟨hwhole, hne, huniform, hmaximal⟩
    refine ⟨hwhole.symm, fun hnil => hne [] hnil rfl, fun token htoken =>
      (isChain_same_iff token).2 (huniform token htoken), ?_⟩
    refine hmaximal.imp_of_mem_imp fun a b ha hb hdiff => ⟨hne a ha, hne b hb, ?_⟩
    simpa using hdiff _ (List.getLast_mem (hne a ha)) _ (List.head_mem (hne b hb))

theorem isTokenized_runs (t : Text) : IsTokenized t (runs t) := runs_eq_iff.1 rfl

/-! ### Texts that are put together -/

namespace IsTokenized

variable {t : Text} {tokens : List Text}

theorem head?_eq (h : IsTokenized t tokens) : t.head? = tokens.head?.bind List.head? := by
  rw [← h.whole]
  cases tokens with
  | nil => rfl
  | cons first rest =>
      rw [List.flatten_cons, List.head?_append_of_ne_nil _ (h.ne_nil first List.mem_cons_self)]
      rfl

theorem getLast?_eq (h : IsTokenized t tokens) :
    t.getLast? = tokens.getLast?.bind List.getLast? := by
  rw [← h.whole]
  rcases List.eq_nil_or_concat tokens with rfl | ⟨init, last, rfl⟩
  · rfl
  · have hne : last ≠ [] := h.ne_nil last (by simp)
    rw [List.concat_eq_append, List.flatten_append, List.flatten_singleton,
      List.getLast?_append_of_ne_nil _ hne, List.getLast?_concat]
    rfl

theorem singleton {isWord : Bool} (hne : t ≠ []) (hkind : ∀ c ∈ t, isWordChar c = isWord) :
    IsTokenized t [t] where
  whole := List.flatten_singleton
  ne_nil := List.forall_mem_singleton.2 hne
  uniform := List.forall_mem_singleton.2 fun c hc d hd => (hkind c hc).trans (hkind d hd).symm
  maximal := .singleton t

end IsTokenized

/-- The tokens are divided where a text is, if characters of different kinds meet there. -/
theorem isTokenized_append_iff {t : Text} {left right : List Text} :
    IsTokenized t (left ++ right) ↔ ∃ s u, t = s ++ u ∧ IsTokenized s left ∧
      IsTokenized u right ∧
      ∀ c d, s.getLast? = some c → u.head? = some d → isWordChar c ≠ isWordChar d := by
  constructor
  · rintro ⟨hwhole, hne, huniform, hmaximal⟩
    obtain ⟨hnel, hner⟩ := List.forall_mem_append.1 hne
    obtain ⟨huniforml, huniformr⟩ := List.forall_mem_append.1 huniform
    obtain ⟨hmaximall, hmaximalr, hmeet⟩ := List.isChain_append.1 hmaximal
    have hleft : IsTokenized left.flatten left := ⟨rfl, hnel, huniforml, hmaximall⟩
    have hright : IsTokenized right.flatten right := ⟨rfl, hner, huniformr, hmaximalr⟩
    refine ⟨_, _, by rw [← hwhole, List.flatten_append], hleft, hright, fun c d hc hd => ?_⟩
    rw [hleft.getLast?_eq] at hc
    rw [hright.head?_eq] at hd
    obtain ⟨a, ha, hc⟩ := Option.bind_eq_some_iff.1 hc
    obtain ⟨b, hb, hd⟩ := Option.bind_eq_some_iff.1 hd
    exact hmeet a ha b hb c (List.mem_of_getLast? hc) d (List.mem_of_head? hd)
  · rintro ⟨s, u, rfl, hs, hu, hmeet⟩
    refine ⟨by rw [List.flatten_append, hs.whole, hu.whole],
      List.forall_mem_append.2 ⟨hs.ne_nil, hu.ne_nil⟩,
      List.forall_mem_append.2 ⟨hs.uniform, hu.uniform⟩,
      List.isChain_append.2 ⟨hs.maximal, hu.maximal, fun a ha b hb c hc d hd => ?_⟩⟩
    have hlast : s.getLast? = some (a.getLast (List.ne_nil_of_mem hc)) := by
      rw [hs.getLast?_eq, ha, Option.bind_some, List.getLast?_eq_some_getLast]
    have hhead : u.head? = some (b.head (List.ne_nil_of_mem hd)) := by
      rw [hu.head?_eq, hb, Option.bind_some, List.head?_eq_some_head]
    rw [hs.uniform a (List.mem_of_getLast? ha) c hc _ (List.getLast_mem (List.ne_nil_of_mem hc)),
      hu.uniform b (List.mem_of_head? hb) d hd _ (List.head_mem (List.ne_nil_of_mem hd))]
    exact hmeet _ _ hlast hhead

/-! ### Where tokens stand -/

theorem locatedFrom_eq (out : List (Nat × Text)) (i : Nat) (pieces : List Text) :
    locatedFrom out i pieces = out.reverse ++ locatedFrom [] i pieces := by
  induction pieces generalizing out i with
  | nil => simp [locatedFrom]
  | cons piece rest ih =>
      rw [locatedFrom, locatedFrom, ih, ih [(i, piece)]]
      simp

theorem locatedFrom_cons (i : Nat) (piece : Text) (rest : List Text) :
    locatedFrom [] i (piece :: rest) = (i, piece) :: locatedFrom [] (i + piece.length) rest := by
  rw [locatedFrom, locatedFrom_eq]
  rfl

/-- Where a word stands among some pieces, the first of which starts at index `i`. -/
def occurrencesFrom (word : Text) (i : Nat) : List Text → List Nat
  | [] => []
  | piece :: rest =>
    if piece = word then i :: occurrencesFrom word (i + piece.length) rest
    else occurrencesFrom word (i + piece.length) rest

/-- A word that starts with a digit is not found anywhere. -/
theorem occurrences_eq {word : Text} (hword : isWordRun word = true) (t : Text) :
    occurrences t word = occurrencesFrom word 0 (runs t) := by
  rw [occurrences, words, located]
  generalize 0 = i
  induction runs t generalizing i with
  | nil => rfl
  | cons piece rest ih =>
      rw [locatedFrom_cons, occurrencesFrom, ← ih]
      by_cases hpiece : piece = word
      · subst hpiece
        simp [hword]
      · rw [if_neg hpiece, List.filter_cons]
        split <;> simp [hpiece]

theorem length_occurrencesFrom (word : Text) (i : Nat) (pieces : List Text) :
    (occurrencesFrom word i pieces).length = pieces.count word := by
  induction pieces generalizing i with
  | nil => rfl
  | cons piece rest ih =>
      rw [occurrencesFrom, List.count_cons]
      split
      · next h => simp [h, ih]
      · next h => simp [h, ih]

theorem length_occurrences {word : Text} (hword : isWordRun word = true) {t : Text}
    {tokens : List Text} (ht : IsTokenized t tokens) :
    (occurrences t word).length = tokens.count word := by
  rw [occurrences_eq hword, length_occurrencesFrom, runs_eq_iff.2 ht]

/-! ### Another identifier in place of some tokens -/

/-- A token, or another one in its place. -/
def substituted (word new token : Text) : Text := if token = word then new else token

section

variable {word new : Text} (hword : IsIdentifier word) (hnew : IsIdentifier new)
include hword hnew

/-- The new token is of the kind of the old one. -/
theorem exists_of_mem_substituted {token : Text} {c : Char}
    (hc : c ∈ substituted word new token) : ∃ d ∈ token, isWordChar d = isWordChar c := by
  rw [substituted] at hc
  split at hc
  · next h =>
      obtain ⟨d, hd⟩ := List.exists_mem_of_ne_nil word hword.ne_nil
      exact ⟨d, h ▸ hd, (hword.chars d hd).trans (hnew.chars c hc).symm⟩
  · exact ⟨c, hc, rfl⟩

/-- Where identifiers are put in place of identifiers, the text is cut in the same places. -/
theorem IsTokenized.map_substituted {t : Text} {tokens : List Text} (ht : IsTokenized t tokens) :
    IsTokenized (tokens.map (substituted word new)).flatten
      (tokens.map (substituted word new)) := by
  have hkind : ∀ {token : Text} {c}, c ∈ substituted word new token →
      ∃ d ∈ token, isWordChar d = isWordChar c := exists_of_mem_substituted hword hnew
  refine ⟨rfl, ?_, ?_, ?_⟩
  · intro token htoken
    obtain ⟨old, hold, rfl⟩ := List.mem_map.1 htoken
    rw [substituted]
    split
    · exact hnew.ne_nil
    · exact ht.ne_nil old hold
  · intro token htoken c hc d hd
    obtain ⟨old, hold, rfl⟩ := List.mem_map.1 htoken
    obtain ⟨c', hc', hcc⟩ := hkind hc
    obtain ⟨d', hd', hdd⟩ := hkind hd
    rw [← hcc, ← hdd]
    exact ht.uniform old hold c' hc' d' hd'
  · rw [List.isChain_map]
    refine ht.maximal.imp fun a b hdiff c hc d hd => ?_
    obtain ⟨c', hc', hcc⟩ := hkind hc
    obtain ⟨d', hd', hdd⟩ := hkind hd
    rw [← hcc, ← hdd]
    exact hdiff c' hc' d' hd'

end

theorem count_substituted_self {word new : Text} (hne : new ≠ word) (tokens : List Text) :
    (tokens.map (substituted word new)).count word = 0 := by
  rw [List.count_eq_zero]
  intro hmem
  obtain ⟨token, -, htoken⟩ := List.mem_map.1 hmem
  rw [substituted] at htoken
  split at htoken
  · exact hne htoken
  · next h => exact h htoken

theorem count_substituted_new {word new : Text} (hne : new ≠ word) (tokens : List Text) :
    (tokens.map (substituted word new)).count new = tokens.count word + tokens.count new := by
  induction tokens with
  | nil => rfl
  | cons token rest ih =>
      rw [List.map_cons, List.count_cons, List.count_cons, List.count_cons, ih, substituted]
      by_cases hword : token = word
      · subst hword
        simp [hne.symm]
        omega
      · simp [hword]
        omega

end LanguageServer.Text
