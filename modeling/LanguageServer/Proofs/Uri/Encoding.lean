import LanguageServer.Proofs.Uri.Spellings
import LanguageServer.Uri.Reference

/-!
# Escaped texts

Escaping goes character by character, so it can be moved past everything else that does: past
cutting a path at its slashes (`splitOn_encode`), dropping slashes (`dropWhile_encode`) and checking
that a reference is made of characters its part admits (`isMadeOf_encode`). It brings up no
separators, as the escapes have none (`mem_encode`), and if percent signs are escaped as well it is
a spelling (`spells_encode`).
-/

namespace LanguageServer

namespace Percent

variable {p : Char → Bool}

/-! ### One character -/

/-- What escapes are made of. -/
def escapeAlphabet : List Char := "%0123456789ABCDEF".toList

theorem hexDigit_mem : ∀ n < 16, hexDigit n ∈ escapeAlphabet := by decide

theorem mem_escapeByte {b : UInt8} {c : Char} (h : c ∈ escapeByte b) : c ∈ escapeAlphabet := by
  have hb : b.toNat < 256 := UInt8.toNat_lt b
  simp only [escapeByte, List.mem_cons, List.not_mem_nil, or_false] at h
  rcases h with rfl | rfl | rfl
  · decide
  · exact hexDigit_mem _ (by omega)
  · exact hexDigit_mem _ (by omega)

/-- What is written for a character. -/
def encodeOne (p : Char → Bool) (c : Char) : Text :=
  if p c then (Utf8.encodeChar c).flatMap escapeByte else [c]

@[simp] theorem encode_nil : encode p [] = [] := rfl

theorem encode_cons (c : Char) (t : Text) : encode p (c :: t) = encodeOne p c ++ encode p t :=
  List.flatMap_cons

theorem encode_singleton (c : Char) : encode p [c] = encodeOne p c :=
  List.flatMap_singleton _ c

@[simp] theorem encode_append (s t : Text) : encode p (s ++ t) = encode p s ++ encode p t :=
  List.flatMap_append

theorem encode_cons_of_not {c : Char} (h : p c = false) (t : Text) :
    encode p (c :: t) = c :: encode p t := by
  rw [encode_cons, encodeOne, h]
  rfl

theorem encode_flatMap_cons {c : Char} (h : p c = false) (parts : List Text) :
    encode p (parts.flatMap (c :: ·)) = (parts.map (encode p)).flatMap (c :: ·) := by
  induction parts with
  | nil => rfl
  | cons part parts ih =>
      rw [List.flatMap_cons, encode_append, ih, encode_cons_of_not h]
      rfl

theorem encode_congr {q : Char → Bool} {t : Text} (h : ∀ c ∈ t, p c = q c) :
    encode p t = encode q t := by
  induction t with
  | nil => rfl
  | cons c t ih =>
      rw [encode_cons, encode_cons, ih fun d hd => h d (List.mem_cons_of_mem c hd), encodeOne,
        encodeOne, h c List.mem_cons_self]

/-! ### What an escaped text has in it -/

theorem mem_encodeOne {c d : Char} (h : d ∈ encodeOne p c) :
    d = c ∧ p d = false ∨ d ∈ escapeAlphabet := by
  rw [encodeOne] at h
  split at h
  · obtain ⟨b, -, hb⟩ := List.mem_flatMap.1 h
    exact .inr (mem_escapeByte hb)
  · next hp =>
      rw [List.mem_singleton.1 h]
      exact .inl ⟨rfl, Bool.eq_false_iff.2 hp⟩

/-- A character of an escaped text is one of the text that needs no escape, or part of an escape. -/
theorem mem_encode {t : Text} {d : Char} (h : d ∈ encode p t) :
    d ∈ t ∧ p d = false ∨ d ∈ escapeAlphabet := by
  obtain ⟨c, hc, hd⟩ := List.mem_flatMap.1 h
  rcases mem_encodeOne hd with ⟨rfl, hp⟩ | hd
  · exact .inl ⟨hc, hp⟩
  · exact .inr hd

theorem encodeOne_ne_nil (c : Char) : encodeOne p c ≠ [] := by
  have hspells : Spells (encodeOne p c) [c] ∨ encodeOne p c = [c] := by
    rw [encodeOne]
    split
    · exact .inl (Spells.escaped c)
    · exact .inr rfl
  rcases hspells with hspells | hsame
  · intro hnil
    have hdecode := hspells.decode_eq
    rw [hnil] at hdecode
    cases hdecode
  · rw [hsame]
    exact List.cons_ne_nil c []

theorem encode_ne_nil {t : Text} (h : t ≠ []) : encode p t ≠ [] := by
  obtain ⟨c, t, rfl⟩ := List.exists_cons_of_ne_nil h
  rw [encode_cons]
  exact List.append_ne_nil_of_left_ne_nil (encodeOne_ne_nil c) _

/-- The first character of what is written for a character. -/
theorem exists_encodeOne_eq_cons (c : Char) :
    ∃ d rest, encodeOne p c = d :: rest ∧ (d = c ∧ p d = false ∨ d ∈ escapeAlphabet) := by
  obtain ⟨d, rest, heq⟩ := List.exists_cons_of_ne_nil (encodeOne_ne_nil (p := p) c)
  exact ⟨d, rest, heq, mem_encodeOne (heq ▸ List.mem_cons_self)⟩

/-- An escaped text without percent signs of its own is a spelling. -/
theorem spells_encode (hpercent : p '%' = true) (t : Text) : Spells (encode p t) t := by
  refine Spells.flatMap fun c _ => ?_
  split
  · exact Spells.escaped c
  · next hp =>
      refine Spells.char ?_
      rintro rfl
      exact hp hpercent

/-- Escaping percent signs first is escaping them with the others. -/
theorem encode_escapePercent (h : p '%' = false ∧ p '2' = false ∧ p '5' = false) (t : Text) :
    encode p (FileKey.escapePercent t) = encode (fun c => c == '%' || p c) t := by
  induction t with
  | nil => rfl
  | cons c t ih =>
      by_cases hc : c = '%'
      · subst hc
        change encode p ('%' :: '2' :: '5' :: FileKey.escapePercent t) = _
        rw [encode_cons_of_not h.1, encode_cons_of_not h.2.1, encode_cons_of_not h.2.2, ih]
        rfl
      · rw [FileKey.escapePercent_cons_of_ne hc, encode_cons, encode_cons, ih, encodeOne, encodeOne,
          beq_false_of_ne hc, Bool.false_or]

/-! ### Slashes -/

theorem slash_not_mem_encode {t : Text} (h : '/' ∉ t) : '/' ∉ encode p t := by
  intro hmem
  rcases mem_encode hmem with ⟨hmem, -⟩ | hmem
  · exact h hmem
  · exact absurd hmem (by decide)

/-- The segments of an escaped path are the escaped segments. -/
theorem splitOn_encode (hslash : p '/' = false) (t : Text) :
    (encode p t).splitOn '/' = (t.splitOn '/').map (encode p) := by
  by_cases hmem : '/' ∈ t
  · obtain ⟨first, rest, ht, hfirst⟩ := List.eq_append_cons_of_mem hmem
    have hshorter : rest.length < t.length := by simp +arith [ht]
    rw [ht, encode_append, encode_cons_of_not hslash,
      List.splitOn_append_cons_self_of_not_mem (slash_not_mem_encode hfirst),
      List.splitOn_append_cons_self_of_not_mem hfirst, List.map_cons, splitOn_encode hslash rest]
  · rw [List.splitOn_eq_singleton hmem, List.splitOn_eq_singleton (slash_not_mem_encode hmem)]
    rfl
termination_by t.length

theorem dropWhile_encode (hslash : p '/' = false) (t : Text) :
    (encode p t).dropWhile (· == '/') = encode p (t.dropWhile (· == '/')) := by
  induction t with
  | nil => rfl
  | cons c t ih =>
      by_cases hc : c = '/'
      · subst hc
        rw [encode_cons_of_not hslash]
        exact ih
      · obtain ⟨d, rest, heq, hd⟩ := exists_encodeOne_eq_cons (p := p) c
        have hne : d ≠ '/' := by
          rintro rfl
          rcases hd with ⟨rfl, -⟩ | hd
          · exact hc rfl
          · exact absurd hd (by decide)
        rw [List.dropWhile_cons_of_neg (by simpa using hc), encode_cons, heq, List.cons_append,
          List.dropWhile_cons_of_neg (by simpa using hne)]

/-! ### Admitted characters -/

open Reference (isMadeOf)

variable {admitted : Char → Bool}

theorem isMadeOf_cons {c : Char} (hc : c ≠ '%') (t : Text) :
    isMadeOf admitted (c :: t) = (admitted c && isMadeOf admitted t) := by
  rw [isMadeOf, bne_iff_ne.2 hc, Bool.and_true]
  rintro high low rest rfl
  exact absurd rfl hc

theorem isMadeOf_escapeByte (b : UInt8) (t : Text) :
    isMadeOf admitted (escapeByte b ++ t) = isMadeOf admitted t := by
  have hb : b.toNat < 256 := UInt8.toNat_lt b
  change isMadeOf admitted ('%' :: hexDigit _ :: hexDigit _ :: t) = _
  rw [isMadeOf, escaped?, hexValue_hexDigit _ (by omega), hexValue_hexDigit _ (by omega)]
  rfl

theorem isMadeOf_escapeBytes (bytes : List UInt8) (t : Text) :
    isMadeOf admitted (bytes.flatMap escapeByte ++ t) = isMadeOf admitted t := by
  induction bytes with
  | nil => rfl
  | cons b bytes ih => rw [List.flatMap_cons, List.append_assoc, isMadeOf_escapeByte, ih]

/-- An escaped text is made of escapes and admitted characters exactly if each of its characters is
escaped or admitted. -/
theorem isMadeOf_encode (hpercent : p '%' = true) (t : Text) :
    isMadeOf admitted (encode p t) = t.all fun c => p c || admitted c := by
  induction t with
  | nil => rfl
  | cons c t ih =>
      rw [encode_cons, List.all_cons, ← ih, encodeOne]
      by_cases hp : p c = true
      · rw [if_pos hp, hp, isMadeOf_escapeBytes, Bool.true_or, Bool.true_and]
      · have hc : c ≠ '%' := by
          rintro rfl
          exact hp hpercent
        rw [if_neg hp, Bool.eq_false_iff.2 hp, Bool.false_or, List.singleton_append,
          isMadeOf_cons hc]

end Percent

end LanguageServer
