import LanguageServer.Proofs.Text.Utf8
import LanguageServer.Uri.Percent

/-!
# Escapes and what they stand for

Decoding goes from left to right and takes an escape for a byte wherever it meets one, so what a
piece of a text stands for can depend on what follows it. A text `Spells` a word if it does not: it
stands for the word in front of every text. Spellings can be put together, and what escaping makes
of a word is a spelling of it.
-/

namespace LanguageServer.Percent

/-! ### One step of decoding -/

theorem decodeBytesFrom_append (out base : List UInt8) (t : Text) :
    decodeBytesFrom (out ++ base) t = base.reverse ++ decodeBytesFrom out t := by
  induction out, t using decodeBytesFrom.induct with
  | case1 out => simp [decodeBytesFrom]
  | case2 out high low rest b hb ih =>
      simp only [decodeBytesFrom, hb]
      exact ih
  | case3 out high low rest hb ih =>
      simp only [decodeBytesFrom, hb]
      exact ih
  | case4 out c rest hc ih =>
      rw [decodeBytesFrom, decodeBytesFrom, ← ih, List.append_assoc]
      · exact hc
      · exact hc

theorem decodeBytesFrom_eq (out : List UInt8) (t : Text) :
    decodeBytesFrom out t = out.reverse ++ decodeBytes t :=
  decodeBytesFrom_append [] out t

theorem decodeBytes_cons {c : Char} (hc : c ≠ '%') (t : Text) :
    decodeBytes (c :: t) = Utf8.encodeChar c ++ decodeBytes t := by
  rw [decodeBytes, decodeBytesFrom, decodeBytesFrom_eq, List.append_nil, List.reverse_reverse]
  rintro high low rest rfl
  exact absurd rfl hc

theorem decodeBytes_escaped {high low : Char} {b : UInt8} (h : escaped? high low = some b)
    (t : Text) : decodeBytes ('%' :: high :: low :: t) = b :: decodeBytes t := by
  rw [decodeBytes, decodeBytesFrom, h]
  exact decodeBytesFrom_eq [b] t

theorem decodeBytes_percent {t : Text}
    (h : ∀ high low rest, t = high :: low :: rest → escaped? high low = none) :
    decodeBytes ('%' :: t) = 37 :: decodeBytes t := by
  cases t with
  | nil => rfl
  | cons high t =>
  cases t with
  | nil => exact decodeBytesFrom_eq [37] [high]
  | cons low rest =>
      rw [decodeBytes, decodeBytesFrom, h high low rest rfl]
      exact decodeBytesFrom_eq [37] _

theorem hexValue_hexDigit : ∀ n < 16, hexValue? (hexDigit n) = some n := by decide

theorem decodeBytes_escapeByte (b : UInt8) (t : Text) :
    decodeBytes (escapeByte b ++ t) = b :: decodeBytes t := by
  have hb : b.toNat < 256 := UInt8.toNat_lt b
  refine decodeBytes_escaped ?_ t
  rw [escaped?, hexValue_hexDigit _ (by omega), hexValue_hexDigit _ (by omega)]
  dsimp only
  rw [Nat.div_add_mod', UInt8.ofNat_toNat]

theorem decodeBytes_escapeBytes (bytes : List UInt8) (t : Text) :
    decodeBytes (bytes.flatMap escapeByte ++ t) = bytes ++ decodeBytes t := by
  induction bytes with
  | nil => rfl
  | cons b bytes ih =>
      rw [List.flatMap_cons, List.append_assoc, decodeBytes_escapeByte, ih, List.cons_append]

theorem bounds_of_le {low high c : Char} (h : (low ≤ c && c ≤ high) = true) :
    low.toNat ≤ c.toNat ∧ c.toNat ≤ high.toNat := by
  rw [Bool.and_eq_true, decide_eq_true_eq, decide_eq_true_eq] at h
  exact h

theorem hexValue?_eq_some {c : Char} {n : Nat} (h : hexValue? c = some n) :
    c.toNat = 48 + n ∧ n < 10 ∨ (c.toNat = 87 + n ∨ c.toNat = 55 + n) ∧ 10 ≤ n ∧ n < 16 := by
  rw [hexValue?] at h
  split at h
  · next hc =>
      have hbounds : 48 ≤ c.toNat ∧ c.toNat ≤ 57 := bounds_of_le hc
      cases h
      omega
  split at h
  · next hc =>
      have hbounds : 97 ≤ c.toNat ∧ c.toNat ≤ 102 := bounds_of_le hc
      cases h
      omega
  split at h
  · next hc =>
      have hbounds : 65 ≤ c.toNat ∧ c.toNat ≤ 70 := bounds_of_le hc
      cases h
      omega
  · cases h

/-- The two digits of a byte. -/
theorem exists_of_escaped? {high low : Char} {b : UInt8} (h : escaped? high low = some b) :
    ∃ m n, hexValue? high = some m ∧ hexValue? low = some n ∧ m < 16 ∧ n < 16 ∧
      b.toNat = m * 16 + n := by
  unfold escaped? at h
  split at h
  · next m n hm hn =>
      have hm' := hexValue?_eq_some hm
      have hn' := hexValue?_eq_some hn
      refine ⟨m, n, hm, hn, by omega, by omega, ?_⟩
      rw [← Option.some.inj h]
      exact Utf8.toNat_ofNat (by omega)
  · cases h

/-! ### Spellings -/

/-- Wherever the text stands, it stands for the word. -/
def Spells (t word : Text) : Prop :=
  ∀ rest, decodeBytes (t ++ rest) = Utf8.encode word ++ decodeBytes rest

namespace Spells

variable {s t u v : Text}

theorem nil : Spells [] [] := fun _ => rfl

theorem append (hs : Spells s u) (ht : Spells t v) : Spells (s ++ t) (u ++ v) := by
  intro rest
  rw [List.append_assoc, hs, ht, Utf8.encode, Utf8.encode, Utf8.encode, List.flatMap_append,
    List.append_assoc]

theorem char {c : Char} (hc : c ≠ '%') : Spells [c] [c] := by
  intro rest
  rw [List.singleton_append, decodeBytes_cons hc, Utf8.encode, List.flatMap_singleton]

theorem escaped (c : Char) : Spells ((Utf8.encodeChar c).flatMap escapeByte) [c] := by
  intro rest
  rw [decodeBytes_escapeBytes, Utf8.encode, List.flatMap_singleton]

theorem flatMap {f : Char → Text} (hf : ∀ c ∈ t, Spells (f c) [c]) : Spells (t.flatMap f) t := by
  induction t with
  | nil => exact nil
  | cons c t ih =>
      rw [List.flatMap_cons]
      exact (hf c List.mem_cons_self).append (ih fun d hd => hf d (List.mem_cons_of_mem c hd))

/-- A spelling is decoded to the word it stands for. -/
theorem decode_append (h : Spells t u) (rest : Text) : decode (t ++ rest) = u ++ decode rest := by
  rw [decode, h, Utf8.decodeLossy_encode_append]
  rfl

theorem decode_eq (h : Spells t u) : decode t = u := by
  have ht := h.decode_append []
  rwa [List.append_nil, show decode [] = [] from rfl, List.append_nil] at ht

end Spells

end LanguageServer.Percent
