import LanguageServer.Text.Utf8
import Mathlib.Tactic.SplitIfs

/-!
# Reading back what was written

The UTF-8 form of a text is read as that text. A character has one to four bytes, by its code point;
the first byte announces the others and bounds the second one, so that no character is read in two
ways (`foldl_step_encodeChar`).
-/

namespace LanguageServer.Utf8

/-! ### First bytes -/

theorem toNat_ofNat {n : Nat} (h : n < 256) : (UInt8.ofNat n).toNat = n := by
  rw [UInt8.toNat_ofNat', Nat.mod_eq_of_lt h]

theorem step_one {n : Nat} (h : n < 0x80) (out : Text) :
    step (out, none) (UInt8.ofNat n) = (Char.ofNat n :: out, none) := by
  rw [step, toNat_ofNat (by omega), start, lead?, if_pos h]
  rfl

theorem step_two {n : Nat} (h : 0xC2 ≤ n) (h' : n < 0xE0) (out : Text) :
    step (out, none) (UInt8.ofNat n) = (out, some ⟨1, 0x80, 0xBF, n % 0x20⟩) := by
  rw [step, toNat_ofNat (by omega), start, lead?, if_neg (by omega), if_neg (by omega), if_pos h']
  rfl

theorem step_three {n : Nat} (h : 0xE0 ≤ n) (h' : n < 0xF0) (out : Text) :
    step (out, none) (UInt8.ofNat n) = (out, some ⟨2, if n = 0xE0 then 0xA0 else 0x80,
      if n = 0xED then 0x9F else 0xBF, n % 0x10⟩) := by
  rw [step, toNat_ofNat (by omega), start, lead?, if_neg (by omega), if_neg (by omega),
    if_neg (by omega)]
  by_cases hfirst : n = 0xE0
  · subst hfirst
    rfl
  by_cases hsurrogate : n = 0xED
  · subst hsurrogate
    rfl
  · simp only [hfirst, hsurrogate, if_false, if_pos h']

theorem step_four {n : Nat} (h : 0xF0 ≤ n) (h' : n < 0xF5) (out : Text) :
    step (out, none) (UInt8.ofNat n) = (out, some ⟨3, if n = 0xF0 then 0x90 else 0x80,
      if n = 0xF4 then 0x8F else 0xBF, n % 8⟩) := by
  rw [step, toNat_ofNat (by omega), start, lead?, if_neg (by omega), if_neg (by omega),
    if_neg (by omega), if_neg (by omega), if_neg (by omega), if_neg (by omega)]
  by_cases hfirst : n = 0xF0
  · subst hfirst
    rfl
  by_cases hlast : n = 0xF4
  · subst hlast
    rfl
  · simp only [hfirst, hlast, if_false, if_pos (show n < 0xF4 by omega)]

/-! ### The bytes behind the first one -/

theorem step_owed {owed low high n : Nat} (hlow : low ≤ n % 64 + 128)
    (hhigh : n % 64 + 128 ≤ high) (code : Nat) (out : Text) :
    step (out, some ⟨owed + 2, low, high, code⟩) (UInt8.ofNat (n % 64 + 128))
      = (out, some ⟨owed + 1, 0x80, 0xBF, code * 64 + n % 64⟩) := by
  have hbits : (n % 64 + 128) % 0x40 = n % 64 := by omega
  simp only [step, toNat_ofNat (show n % 64 + 128 < 256 by omega), hlow, hhigh, decide_true,
    Bool.and_true, if_true, hbits]
  rfl

theorem step_last {low high n : Nat} (hlow : low ≤ n % 64 + 128) (hhigh : n % 64 + 128 ≤ high)
    (code : Nat) (out : Text) :
    step (out, some ⟨1, low, high, code⟩) (UInt8.ofNat (n % 64 + 128))
      = (Char.ofNat (code * 64 + n % 64) :: out, none) := by
  have hbits : (n % 64 + 128) % 0x40 = n % 64 := by omega
  simp only [step, toNat_ofNat (show n % 64 + 128 < 256 by omega), hlow, hhigh, decide_true,
    Bool.and_true, if_true, hbits]
  rfl

/-! ### Characters and texts -/

theorem toNat_cases (c : Char) : c.toNat < 0xD800 ∨ 0xDFFF < c.toNat ∧ c.toNat < 0x110000 :=
  c.valid

/-- The bytes of a character are read as that character. -/
theorem foldl_step_encodeChar (c : Char) (out : Text) :
    (encodeChar c).foldl step (out, none) = (c :: out, none) := by
  have hvalid := toNat_cases c
  have hc : Char.ofNat c.toNat = c := Char.ofNat_toNat c
  have hval : c.val.toNat = c.toNat := rfl
  generalize c.toNat = n at hvalid hc hval
  subst hc
  rw [encodeChar, String.utf8EncodeChar, hval]
  by_cases h1 : n ≤ 0x7F
  · simp only [if_pos h1, List.foldl_cons, List.foldl_nil]
    exact step_one (by omega) out
  by_cases h2 : n ≤ 0x7FF
  · have hcode : (n / 64 % 32 + 192) % 0x20 * 64 + n % 64 = n := by omega
    simp only [if_neg h1, if_pos h2, List.foldl_cons, List.foldl_nil]
    rw [step_two (by omega) (by omega), step_last (by omega) (by omega), hcode]
  by_cases h3 : n ≤ 0xFFFF
  · have hcode : ((n / 4096 % 16 + 224) % 0x10 * 64 + n / 64 % 64) * 64 + n % 64 = n := by omega
    simp only [if_neg h1, if_neg h2, if_pos h3, List.foldl_cons, List.foldl_nil]
    rw [step_three (by omega) (by omega), step_owed (by split <;> omega) (by split <;> omega),
      step_last (by omega) (by omega), hcode]
  · have hcode : (((n / 262144 % 8 + 240) % 8 * 64 + n / 4096 % 64) * 64 + n / 64 % 64) * 64
        + n % 64 = n := by omega
    simp only [if_neg h1, if_neg h2, if_neg h3, List.foldl_cons, List.foldl_nil]
    rw [step_four (by omega) (by omega), step_owed (by split <;> omega) (by split <;> omega),
      step_owed (by omega) (by omega), step_last (by omega) (by omega), hcode]

/-! ### Texts -/

/-- The text read so far, and a replacement character for a character that is not complete. -/
def closed : Text × Option Partial → Text
  | (out, none) => out.reverse
  | (out, some _) => (replacement :: out).reverse

theorem decodeLossy_eq (bytes : List UInt8) :
    decodeLossy bytes = closed (bytes.foldl step ([], none)) := rfl

theorem closed_append (out base : Text) (p : Option Partial) :
    closed (out ++ base, p) = base.reverse ++ closed (out, p) := by
  cases p with
  | none => exact List.reverse_append
  | some p => simp [closed]

theorem start_append (out base : Text) (b : Nat) :
    start (out ++ base) b = ((start out b).1 ++ base, (start out b).2) := by
  rw [start, start]
  split <;> rfl

/-- What has been read does not matter for what is read next. -/
theorem step_append (out base : Text) (p : Option Partial) (b : UInt8) :
    step (out ++ base, p) b = ((step (out, p) b).1 ++ base, (step (out, p) b).2) := by
  cases p with
  | none => exact start_append out base b.toNat
  | some p =>
      rw [step, step]
      split
      · dsimp only
        split <;> rfl
      · exact start_append (replacement :: out) base b.toNat

theorem foldl_step_append (bytes : List UInt8) (out base : Text) (p : Option Partial) :
    bytes.foldl step (out ++ base, p)
      = ((bytes.foldl step (out, p)).1 ++ base, (bytes.foldl step (out, p)).2) := by
  induction bytes generalizing out p with
  | nil => rfl
  | cons b bytes ih => rw [List.foldl_cons, List.foldl_cons, step_append, ih]

theorem closed_foldl_step (bytes : List UInt8) (base : Text) (p : Option Partial) :
    closed (bytes.foldl step (base, p)) = base.reverse ++ closed (bytes.foldl step ([], p)) := by
  have hbase := foldl_step_append bytes [] base p
  rw [List.nil_append] at hbase
  rw [hbase, closed_append]

theorem decodeLossy_encodeChar_append (c : Char) (bytes : List UInt8) :
    decodeLossy (encodeChar c ++ bytes) = c :: decodeLossy bytes := by
  rw [decodeLossy_eq, List.foldl_append, foldl_step_encodeChar, closed_foldl_step]
  rfl

/-- The UTF-8 form of a text is read as that text, whatever follows. -/
theorem decodeLossy_encode_append (t : Text) (bytes : List UInt8) :
    decodeLossy (encode t ++ bytes) = t ++ decodeLossy bytes := by
  induction t with
  | nil => rfl
  | cons c t ih =>
      rw [encode] at ih
      rw [encode, List.flatMap_cons, List.append_assoc, decodeLossy_encodeChar_append, ih]
      rfl

@[simp] theorem decodeLossy_encode (t : Text) : decodeLossy (encode t) = t := by
  have ht := decodeLossy_encode_append t []
  rwa [List.append_nil, show decodeLossy [] = [] from rfl, List.append_nil] at ht

/-- A byte of ASCII is a character, whatever follows. -/
theorem decodeLossy_ascii {b : UInt8} (hb : b.toNat < 0x80) (bytes : List UInt8) :
    decodeLossy (b :: bytes) = Char.ofNat b.toNat :: decodeLossy bytes := by
  have hstep := step_one hb []
  rw [UInt8.ofNat_toNat] at hstep
  rw [decodeLossy_eq, List.foldl_cons, hstep, closed_foldl_step]
  rfl

/-! ### Bytes outside ASCII -/

/-- A character that no byte below 128 stands for. The exception is made for code points that are
no characters, which come out as the null character. -/
def IsForeign (c : Char) : Prop := c.toNat = 0 ∨ 0x80 ≤ c.toNat

theorem isForeign_ofNat {n : Nat} (h : 0x80 ≤ n) : IsForeign (Char.ofNat n) := by
  rw [IsForeign, Char.ofNat]
  by_cases hvalid : n.isValidChar
  · rw [dif_pos hvalid]
    exact .inr h
  · rw [dif_neg hvalid]
    exact .inl rfl

/-- A character that is being read and will not be one of ASCII. -/
structure Partial.IsForeign (p : Partial) : Prop where
  low : 0x80 ≤ p.low
  high : p.high ≤ 0xBF
  code : p.owed = 1 ∧ 2 ≤ p.code ∨ 2 ≤ p.owed ∧ (1 ≤ p.code ∨ 0x90 ≤ p.low)

theorem isForeign_of_lead? {b owed low high code : Nat} (hb : 0x80 ≤ b)
    (h : lead? b = some (owed, low, high, code)) :
    (⟨owed, low, high, code⟩ : Partial).IsForeign := by
  rw [lead?, if_neg (by omega)] at h
  split_ifs at h <;> cases h <;> refine ⟨?_, ?_, ?_⟩ <;> dsimp only <;> omega

theorem start_foreign {b : Nat} (hb : 0x80 ≤ b) (out : Text) :
    start out b = (replacement :: out, none) ∨
      ∃ p : Partial, start out b = (out, some p) ∧ p.IsForeign := by
  rw [start]
  split
  · exact .inl rfl
  · next hlead =>
      have howed := (isForeign_of_lead? hb hlead).code
      dsimp only at howed
      omega
  · next hlead => exact .inr ⟨_, rfl, isForeign_of_lead? hb hlead⟩

/-- What is being read goes on, or it ends with a foreign character. -/
theorem step_foreign {p : Partial} (hp : p.IsForeign) (b : UInt8) :
    (∃ q : Partial, step ([], some p) b = ([], some q) ∧ q.IsForeign) ∨
      ∃ out c q, step ([], some p) b = (out ++ [c], q) ∧ IsForeign c := by
  rw [step]
  split
  · next hin =>
      obtain ⟨hlow, hhigh⟩ : p.low ≤ b.toNat ∧ b.toNat ≤ p.high := by simpa using hin
      have hbounds := hp.low
      have hbounds' := hp.high
      dsimp only
      split
      · refine .inr ⟨[], _, none, rfl, isForeign_ofNat ?_⟩
        rcases hp.code with ⟨-, hcode⟩ | ⟨howed, -⟩ <;> omega
      · refine .inl ⟨_, rfl, Nat.le_refl 0x80, Nat.le_refl 0xBF, ?_⟩
        have hcode := hp.code
        dsimp only
        omega
  · rw [← List.nil_append [replacement], start_append [] [replacement] b.toNat]
    exact .inr ⟨_, _, _, rfl, .inr (by decide)⟩

theorem closed_foldl_foreign {p : Partial} (hp : p.IsForeign) (bytes : List UInt8) :
    ∃ c rest, closed (bytes.foldl step ([], some p)) = c :: rest ∧ IsForeign c := by
  induction bytes generalizing p with
  | nil => exact ⟨replacement, [], rfl, .inr (by decide)⟩
  | cons b bytes ih =>
      rw [List.foldl_cons]
      rcases step_foreign hp b with ⟨q, hstep, hq⟩ | ⟨out, c, q, hstep, hc⟩
      · rw [hstep]
        exact ih hq
      · rw [hstep, closed_foldl_step, List.reverse_append]
        exact ⟨c, _, rfl, hc⟩

/-- A byte that is not one of ASCII does not start a character of ASCII. -/
theorem decodeLossy_foreign {b : UInt8} (hb : 0x80 ≤ b.toNat) (bytes : List UInt8) :
    ∃ c rest, decodeLossy (b :: bytes) = c :: rest ∧ IsForeign c := by
  rw [decodeLossy_eq, List.foldl_cons, step]
  rcases start_foreign hb [] with hstart | ⟨p, hstart, hp⟩
  · rw [hstart, closed_foldl_step]
    exact ⟨replacement, _, rfl, .inr (by decide)⟩
  · rw [hstart]
    exact closed_foldl_foreign hp bytes

end LanguageServer.Utf8
