import LanguageServer.Proofs.Sliced.Words
import LanguageServer.Query.Runnable

/-!
# What a file offers to run, by byte offsets

The local path of a key is what follows its scheme, found by the offset of the colon; whether it
starts with a drive is asked of its first two bytes. A byte below 128 is a character of its own, so
the bytes tell the same as the characters (`hasDrive_eq`), and the rest reads words only.
-/

namespace LanguageServer.Sliced

open Text (byteSize bytesTo)

/-! ### Reading keys and lines -/

def splitScheme? (t : Text) : Except Fault (Option (Text × Text)) :=
  match findChar? (· == ':') t with
  | none => .ok none
  | some colon => do
    let scheme ← sliceTo t colon
    match scheme with
    | first :: second :: more =>
      if FileKey.isSchemeStart first && (second :: more).all FileKey.isSchemeChar then do
        let after ← sliceFrom t (colon + 1)
        let rest := after.dropWhile (· == '/')
        .ok (if byteSize rest = byteSize after then none else some (scheme, rest))
      else .ok none
    | _ => .ok none

def isLetterByte (b : UInt8) : Bool := (65 ≤ b && b ≤ 90) || (97 ≤ b && b ≤ 122)

/-- Whether the second byte of a path is a colon and the first one a letter. -/
def hasDrive (path : Text) : Except Fault Bool :=
  if 1 < (Utf8.encode path).length then do
    let sign ← entry (Utf8.encode path) 1
    let letter ← entry (Utf8.encode path) 0
    .ok (sign == 58 && isLetterByte letter)
  else .ok false

def localPath? (key : FileKey) : Except Fault (Option Text) := do
  match ← splitScheme? key.text with
  | none => .ok none
  | some (scheme, rest) =>
    if scheme = "file".toList then
      let path := FileKey.unescapePercent rest
      let drive ← hasDrive path
      .ok (some (if drive then path else '/' :: path))
    else .ok none

def functionName? (line : Text) : Except Fault (Option Text) := do
  let found ← words line
  .ok (((found.take 4).map (·.2)).dropWhile (!isRunnableKeyword ·))[1]?

/-- What the lines of a text offer to run; `marked` says that a test mark came before. -/
def runnableLines (directory file : Text) (language : Option String) (marked : Bool) :
    List Text → Except Fault (List Runnable)
  | [] => .ok []
  | line :: rest =>
    let line := line.trim
    let later (marked : Bool) := runnableLines directory file language marked rest
    let behind (first : Runnable) : Except Fault (List Runnable) := do
      let rest ← later false
      .ok (first :: rest)
    let main (command : String) (arguments : List Text) : Runnable :=
      ⟨"Run main".toList, directory, command.toList, arguments⟩
    if marksTest line then later true
    else do
      match marked, ← functionName? line with
      | true, some name =>
        behind ⟨"Test ".toList ++ name, directory, "cargo".toList, ["test".toList, name]⟩
      | true, none => later true
      | false, name =>
        if name = some "main".toList then
          behind (match language with
            | some "python" => main "python3" [file]
            | some "kotlin" => main "kotlin" [file]
            | _ => main "cargo" ["run".toList])
        else if "if __name__ == ".toList.isPrefixOf line then behind (main "python3" [file])
        else later false

def runnables (directory : Text) (c : Context) : Except Fault (List Runnable) := do
  let path ← localPath? c.key
  runnableLines directory (path.getD c.key.text) (languageOf? c.key) false c.text.lines

/-! ### Schemes -/

/-- Without its slashes at the start a text has fewer bytes. -/
theorem byteSize_dropSlashes_ne (rest : Text) :
    byteSize (('/' :: rest).dropWhile (· == '/')) ≠ byteSize ('/' :: rest) := by
  have hrest := Text.byteSize_takeWhile_add (· == '/') rest
  rw [List.dropWhile_cons, if_pos (beq_self_eq_true '/'), Text.byteSize_cons,
    show '/'.utf8Size = 1 from rfl]
  omega

theorem splitScheme?_eq (t : Text) : splitScheme? t = .ok (FileKey.splitScheme? t) := by
  rw [splitScheme?, FileKey.splitScheme?]
  rcases findSign_cases ':' t with ⟨hnone, -, hnothing⟩ | ⟨s, u, rfl, hscheme, hrest, hfound⟩
  · rw [hnone, hnothing]
    dsimp only
    split
    · next heq => cases heq
    · rfl
  · rw [hfound, hscheme, hrest]
    dsimp only
    rw [sliceTo_of_isPrefix (List.prefix_append s _), ok_bind, sliceFrom_sign s u rfl, ok_bind]
    match s with
    | [] => rfl
    | [first] => rfl
    | first :: second :: more =>
        match u with
        | [] =>
            dsimp only
            split <;> rfl
        | c :: u =>
            by_cases hc : c = '/'
            · subst hc
              simp only [if_neg (byteSize_dropSlashes_ne u)]
              split <;> rfl
            · have hsame : (c :: u).dropWhile (· == '/') = c :: u :=
                List.dropWhile_cons_of_neg (by simpa using hc)
              simp only [hsame, if_true]
              split <;> simp [hc]

/-! ### Drives -/

/-- A character has one byte, or none of its bytes is that of a smaller character. -/
theorem encodeChar_cases (c : Char) :
    (c.toNat < 128 ∧ Utf8.encodeChar c = [UInt8.ofNat c.toNat]) ∨
      (128 ≤ c.toNat ∧ ∃ b b' bs, Utf8.encodeChar c = b :: b' :: bs ∧
        128 ≤ b.toNat ∧ 128 ≤ b'.toNat) := by
  have hval : c.val.toNat = c.toNat := rfl
  rw [Utf8.encodeChar, String.utf8EncodeChar, hval]
  generalize c.toNat = n
  by_cases h1 : n ≤ 0x7F
  · exact .inl ⟨by omega, if_pos h1⟩
  · refine .inr ⟨by omega, ?_⟩
    rw [if_neg h1]
    split
    · refine ⟨_, _, _, rfl, ?_, ?_⟩ <;> rw [Utf8.toNat_ofNat (by omega)] <;> omega
    · split
      · refine ⟨_, _, _, rfl, ?_, ?_⟩ <;> rw [Utf8.toNat_ofNat (by omega)] <;> omega
      · refine ⟨_, _, _, rfl, ?_, ?_⟩ <;> rw [Utf8.toNat_ofNat (by omega)] <;> omega

theorem ofNat_beq_colon {n : Nat} (h : n < 128) :
    (UInt8.ofNat n == 58) = (Char.ofNat n == ':') := by
  revert n
  decide

theorem beq_colon_of_le {b : UInt8} (h : 128 ≤ b.toNat) : (b == 58) = false := by
  refine beq_eq_false_iff_ne.2 fun hb => ?_
  subst hb
  exact absurd h (by decide)

/-- The first byte of a text tells whether a colon comes first. -/
theorem exists_firstByte (c : Char) (t : Text) :
    ∃ b bs, Utf8.encode (c :: t) = b :: bs ∧ (b == 58) = (c == ':') := by
  rw [Utf8.encode, List.flatMap_cons]
  rcases encodeChar_cases c with ⟨hc, hbytes⟩ | ⟨hc, b, b', bs, hbytes, hb, -⟩
  · have hsign := ofNat_beq_colon hc
    rw [Char.ofNat_toNat] at hsign
    exact ⟨_, _, by rw [hbytes]; rfl, hsign⟩
  · have hne : c ≠ ':' := fun heq => absurd hc (by rw [heq]; decide)
    refine ⟨_, _, by rw [hbytes]; rfl, ?_⟩
    rw [beq_colon_of_le hb, beq_eq_false_iff_ne.2 hne]

theorem hasDrive_of_encode {path : Text} {b b' : UInt8} {bs : List UInt8}
    (h : Utf8.encode path = b :: b' :: bs) :
    hasDrive path = .ok (b' == 58 && isLetterByte b) := by
  rw [hasDrive, h, if_pos (by simp)]
  rfl

theorem isLetterByte_eq {n : Nat} (h : n < 128) :
    isLetterByte (UInt8.ofNat n) = (Char.ofNat n).isAlpha := by
  revert n
  decide

theorem isAlpha_of_le {c : Char} (h : 128 ≤ c.toNat) : c.isAlpha = false := by
  have hupper : c.isUpper = false := decide_eq_false fun hrange => by
    have hhigh : c.toNat ≤ 90 := hrange.2
    omega
  have hlower : ¬ c.val ≤ 'z'.val := fun hle => by
    have hhigh : c.toNat ≤ 122 := hle
    omega
  have hboth : c.isLower = (decide ('a'.val ≤ c.val) && decide (c.val ≤ 'z'.val)) := rfl
  exact Bool.or_eq_false_iff.2 ⟨hupper, by rw [hboth, decide_eq_false hlower, Bool.and_false]⟩

theorem fileKey_hasDrive_cons (d c : Char) (rest : Text) :
    FileKey.hasDrive (d :: c :: rest) = (c == ':' && d.isAlpha) := by
  by_cases hc : c = ':'
  · subst hc
    rfl
  · rw [beq_eq_false_iff_ne.2 hc, Bool.false_and]
    unfold FileKey.hasDrive
    split
    · next heq => exact absurd (List.cons.inj (List.cons.inj heq).2).1 hc
    · rfl

/-- Two bytes of a text tell whether its first two characters are a letter and a colon. -/
theorem hasDrive_eq (path : Text) : hasDrive path = .ok (FileKey.hasDrive path) := by
  match path with
  | [] => rfl
  | d :: rest =>
      have hencode : Utf8.encode (d :: rest) = Utf8.encodeChar d ++ Utf8.encode rest :=
        List.flatMap_cons
      rcases encodeChar_cases d with ⟨hd, hbytes⟩ | ⟨hd, b, b', bs, hbytes, -, hb'⟩
      · rw [hbytes, List.singleton_append] at hencode
        match rest with
        | [] =>
            rw [hasDrive, hencode]
            rfl
        | c :: rest =>
            obtain ⟨b, bs, hfirst, hsign⟩ := exists_firstByte c rest
            rw [hfirst] at hencode
            rw [hasDrive_of_encode hencode, hsign, isLetterByte_eq hd, Char.ofNat_toNat,
              fileKey_hasDrive_cons]
      · rw [hbytes, List.cons_append, List.cons_append] at hencode
        rw [hasDrive_of_encode hencode, beq_colon_of_le hb', Bool.false_and]
        cases rest with
        | nil => rfl
        | cons c rest => rw [fileKey_hasDrive_cons, isAlpha_of_le hd, Bool.and_false]

theorem localPath?_eq (key : FileKey) : localPath? key = .ok key.localPath? := by
  rw [localPath?, splitScheme?_eq, ok_bind, FileKey.localPath?]
  cases FileKey.splitScheme? key.text with
  | none => rfl
  | some found =>
      dsimp only
      split
      · rw [hasDrive_eq, ok_bind]
        split <;> rfl
      · rfl

/-! ### Lines -/

theorem functionName?_eq (line : Text) :
    functionName? line = .ok (LanguageServer.functionName? line) := by
  rw [functionName?, words_eq, ok_bind, ← List.map_take, List.map_map]
  rfl

theorem runnableLines_eq (directory file : Text) (language : Option String) (marked : Bool)
    (lines : List Text) :
    runnableLines directory file language marked lines
      = .ok (LanguageServer.runnableLines directory file language marked lines) := by
  induction lines generalizing marked with
  | nil => rfl
  | cons line rest ih =>
      unfold runnableLines LanguageServer.runnableLines
      dsimp only
      simp only [functionName?_eq, ok_bind, ih]
      split
      · rfl
      · cases marked with
        | true =>
            cases LanguageServer.functionName? line.trim with
            | none => rfl
            | some name => rfl
        | false =>
            dsimp only
            split
            · rfl
            · split <;> rfl

theorem runnables_eq (directory : Text) (c : Context) :
    runnables directory c = Query.runnables directory c := by
  rw [runnables, localPath?_eq, ok_bind, runnableLines_eq]
  rfl

end LanguageServer.Sliced
