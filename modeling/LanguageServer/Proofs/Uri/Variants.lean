import LanguageServer.Proofs.Uri.Encoding
import LanguageServer.Proofs.Uri.Keys

/-!
# All ways to spell a file

A path can be written with any of its characters escaped, with digits of either case, and with
either separator; a drive letter may be large, and any number of separators may stand in front of
the path and behind it. Cleaning the separators of what is written and decoding it is decoding it
and cleaning what comes out (`exists_cleanSlashes_written`), so all of that makes no difference to
the key (`normalize_of_isSpelling`).
-/

namespace LanguageServer

namespace Percent

/-! ### Writing a character -/

theorem toUpper_cases (c : Char) :
    c.toUpper = c ∨ c.toNat = c.toUpper.toNat + 32 ∧ 97 ≤ c.toNat ∧ c.toNat ≤ 122 := by
  unfold Char.toUpper
  split
  · next h =>
      obtain ⟨hlow, hhigh⟩ : 97 ≤ c.toNat ∧ c.toNat ≤ 122 := h
      have hshift : ('A'.val - 'a'.val).toNat = 2 ^ 32 - 32 := by decide
      refine .inr ⟨?_, hlow, hhigh⟩
      change c.toNat = (c.val + ('A'.val - 'a'.val)).toNat + 32
      rw [UInt32.toNat_add, hshift]
      change c.toNat = (c.toNat + (2 ^ 32 - 32)) % 2 ^ 32 + 32
      omega
  · exact .inl rfl

/-- A digit of either case has the value of the large one. -/
theorem hexValue?_of_toUpper {c : Char} {n : Nat} (hn : n < 16) (h : c.toUpper = hexDigit n) :
    hexValue? c = some n := by
  have hsmall : ∀ n < 16, 97 ≤ (hexDigit n).toNat + 32 →
      hexValue? (Char.ofNat ((hexDigit n).toNat + 32)) = some n := by decide
  rcases toUpper_cases c with hsame | ⟨hc, hlow, -⟩
  · rw [← hsame, h, hexValue_hexDigit n hn]
  · rw [h] at hc
    rw [← Char.ofNat_toNat c, hc]
    exact hsmall n hn (hc ▸ hlow)

theorem eq_percent_of_toUpper {c : Char} (h : c.toUpper = '%') : c = '%' := by
  rcases toUpper_cases c with hsame | ⟨hc, hlow, -⟩
  · exact hsame.symm.trans h
  · have hvalue : '%'.toNat = 37 := rfl
    rw [h] at hc
    omega

/-- The escapes of some bytes, with digits of either case. -/
def AreEscapes (bytes : List UInt8) (t : Text) : Prop :=
  t.map Char.toUpper = bytes.flatMap escapeByte

instance (bytes : List UInt8) (t : Text) : Decidable (AreEscapes bytes t) :=
  inferInstanceAs (Decidable (_ = _))

theorem AreEscapes.exists_of_cons {b : UInt8} {bytes : List UInt8} {t : Text}
    (h : AreEscapes (b :: bytes) t) :
    ∃ high low rest, t = '%' :: high :: low :: rest ∧ escaped? high low = some b ∧
      AreEscapes bytes rest := by
  have hb : b.toNat < 256 := UInt8.toNat_lt b
  obtain ⟨sign, digits, rfl, hsign, hdigits⟩ := List.map_eq_cons_iff.1 h
  obtain ⟨high, digits, rfl, hhigh, hdigits⟩ := List.map_eq_cons_iff.1 hdigits
  obtain ⟨low, rest, rfl, hlow, hrest⟩ := List.map_eq_cons_iff.1 hdigits
  obtain rfl := eq_percent_of_toUpper hsign
  refine ⟨high, low, rest, rfl, ?_, hrest⟩
  rw [escaped?, hexValue?_of_toUpper (by omega) hhigh, hexValue?_of_toUpper (by omega) hlow]
  dsimp only
  rw [Nat.div_add_mod', UInt8.ofNat_toNat]

theorem AreEscapes.decodeBytes_append {bytes : List UInt8} {t : Text} (h : AreEscapes bytes t)
    (rest : Text) : decodeBytes (t ++ rest) = bytes ++ decodeBytes rest := by
  induction bytes generalizing t with
  | nil =>
      obtain rfl := List.map_eq_nil_iff.1 h
      rfl
  | cons b bytes ih =>
      obtain ⟨high, low, tail, rfl, hescape, htail⟩ := h.exists_of_cons
      rw [List.cons_append, List.cons_append, List.cons_append, decodeBytes_escaped hescape,
        ih htail, List.cons_append]

/-- The escapes have no separator in them. -/
theorem AreEscapes.not_isSeparator {bytes : List UInt8} {t : Text} (h : AreEscapes bytes t) :
    ∀ c ∈ t, FileKey.isSeparator c = false := by
  intro c hc
  have hupper : c.toUpper ∈ bytes.flatMap escapeByte := h ▸ List.mem_map_of_mem hc
  obtain ⟨b, -, hmem⟩ := List.mem_flatMap.1 hupper
  by_contra hseparator
  rw [Bool.not_eq_false, FileKey.isSeparator_iff] at hseparator
  rcases hseparator with rfl | rfl <;> exact absurd (mem_escapeByte hmem) (by decide)

/-- The ways to write a character: as it is, unless it is a percent sign, or as the escapes of its
bytes. -/
inductive Writes (c : Char) : Text → Prop
  | plain (h : c ≠ '%') : Writes c [c]
  | escaped {t : Text} (h : AreEscapes (Utf8.encodeChar c) t) : Writes c t

instance : DecidableRel Writes := fun c t =>
  decidable_of_iff (c ≠ '%' ∧ t = [c] ∨ AreEscapes (Utf8.encodeChar c) t) <| by
    constructor
    · rintro (⟨hc, rfl⟩ | h)
      · exact .plain hc
      · exact .escaped h
    · rintro (hc | h)
      · exact .inl ⟨hc, rfl⟩
      · exact .inr h

theorem Writes.spells {c : Char} {t : Text} (h : Writes c t) : Spells t [c] := by
  cases h with
  | plain h => exact .char h
  | escaped h =>
      intro rest
      rw [h.decodeBytes_append, Utf8.encode, List.flatMap_singleton]

namespace Writes

variable {c : Char} {t : Text}

theorem ne_nil (h : Writes c t) : t ≠ [] := by
  rintro rfl
  cases h.spells.decode_eq

/-- What is written for a character has a separator in it only if it is one. -/
theorem not_isSeparator (h : Writes c t) (hc : FileKey.isSeparator c = false) :
    ∀ d ∈ t, FileKey.isSeparator d = false := by
  cases h with
  | plain => exact fun d hd => List.mem_singleton.1 hd ▸ hc
  | escaped h => exact h.not_isSeparator

end Writes

end Percent

namespace FileKey

open Percent (Writes Spells)

/-! ### Cleaning what is written -/

theorem slashed_of_not_isSeparator {t : Text} (h : ∀ c ∈ t, isSeparator c = false) :
    slashed t = t :=
  slashed_of_not_mem fun hmem => absurd (h _ hmem) (by decide)

theorem isClean_of_not_isSeparator {t : Text} (h : ∀ c ∈ t, isSeparator c = false) : IsClean t :=
  ⟨fun hmem => absurd (h _ hmem) (by decide),
    fun hlast => absurd (h _ (List.mem_of_getLast? hlast)) (by decide)⟩

theorem slashed_of_isSeparator {t : Text} (h : ∀ c ∈ t, isSeparator c = true) :
    slashed t = List.replicate t.length '/' := by
  refine List.eq_replicate_iff.2 ⟨List.length_map _, fun c hc => ?_⟩
  obtain ⟨d, hd, rfl⟩ := List.mem_map.1 hc
  exact slash_eq_iff.2 (h d hd)

theorem cleanSlashes_of_isSeparator {t : Text} (h : ∀ c ∈ t, isSeparator c = true) :
    cleanSlashes t = [] := by
  rw [cleanSlashes_eq, slashed_of_isSeparator h]
  exact List.rdropWhile_eq_nil_iff.2 fun c hc => beq_iff_eq.2 (List.eq_of_mem_replicate hc)

@[simp] theorem slashed_slashed (t : Text) : slashed (slashed t) = slashed t :=
  slashed_of_not_mem (backslash_not_mem_slashed t)

theorem cleanSlashes_congr {s t : Text} (h : slashed s = slashed t) :
    cleanSlashes s = cleanSlashes t := by
  rw [cleanSlashes_eq, h, cleanSlashes_eq]

theorem spells_slashed {c : Char} (hc : c ≠ '%') : Spells (slashed [c]) (slashed [c]) := by
  refine Spells.char ?_
  change (if c = '\\' then '/' else c) ≠ '%'
  split
  · decide
  · exact hc

/-- What is written for a character, with slashes for backslashes, is read as the character up to
the same change. -/
theorem exists_slashed_of_writes {c : Char} {t : Text} (h : Writes c t) :
    ∃ u, Spells (slashed t) u ∧ slashed u = slashed [c] := by
  cases h with
  | plain hc => exact ⟨slashed [c], spells_slashed hc, slashed_slashed [c]⟩
  | escaped h =>
      rw [slashed_of_not_isSeparator h.not_isSeparator]
      exact ⟨[c], (Writes.escaped h).spells, rfl⟩

theorem exists_cleanSlashes_of_writes {c : Char} {t : Text} (h : Writes c t) :
    ∃ u, Spells (cleanSlashes t) u ∧ cleanSlashes u = cleanSlashes [c] := by
  cases h with
  | plain hc =>
      refine ⟨cleanSlashes [c], ?_, cleanSlashes_of_isClean (isClean_cleanSlashes [c])⟩
      by_cases hslash : slashed [c] = ['/']
      · rw [cleanSlashes_eq, hslash]
        exact Spells.nil
      · have hkept : cleanSlashes [c] = slashed [c] := by
          refine List.rdropWhile_eq_self_iff.2 fun _ hlast => hslash ?_
          exact congrArg (fun d => [d]) (beq_iff_eq.1 hlast)
        rw [hkept]
        exact spells_slashed hc
  | escaped h =>
      rw [cleanSlashes_of_isClean (isClean_of_not_isSeparator h.not_isSeparator)]
      exact ⟨[c], (Writes.escaped h).spells, rfl⟩

/-- A path is the same however it has been written, when separators are cleaned before it is decoded
and after that. -/
theorem exists_cleanSlashes_written {t : Text} {pieces : List Text}
    (h : List.Forall₂ Writes t pieces) :
    ∃ u, Spells (cleanSlashes pieces.flatten) u ∧ cleanSlashes u = cleanSlashes t := by
  induction h with
  | nil => exact ⟨[], Spells.nil, rfl⟩
  | @cons c piece t pieces hpiece _ ih =>
      obtain ⟨u, hspells, hclean⟩ := ih
      rw [List.flatten_cons, cleanSlashes_append, ← List.singleton_append, cleanSlashes_append [c],
        ← hclean]
      split
      · next hnil =>
          -- Nothing is left of the pieces behind this one, so nothing is read from them.
          rw [hnil] at hspells
          have hu : u = [] := hspells.decode_eq.symm
          rw [if_pos (by rw [hu]; rfl)]
          exact exists_cleanSlashes_of_writes hpiece
      · obtain ⟨v, hv, hslashed⟩ := exists_slashed_of_writes hpiece
        refine ⟨v ++ u, hv.append hspells, ?_⟩
        rw [cleanSlashes_append, hslashed, cleanSlashes_congr hslashed]

/-! ### Paths that mean the same -/

/-- Separators are not told apart. -/
def Interchangeable (c d : Char) : Prop := c = d ∨ isSeparator c = true ∧ isSeparator d = true

instance : DecidableRel Interchangeable := fun c d => inferInstanceAs (Decidable (c = d ∨ _))

/-- The same path with other separators and, if it starts with a drive, a letter of either case. -/
inductive Variant : Text → Text → Prop
  | drive {d e : Char} {s t : Text} (hletter : d.isAlpha = true) (hcase : e.toLower = d.toLower)
      (hrest : List.Forall₂ Interchangeable s t) : Variant (d :: ':' :: s) (e :: ':' :: t)
  | path {s t : Text} (h : List.Forall₂ Interchangeable s t) : Variant s t

theorem slashed_eq_of_forall₂ {s t : Text} (h : List.Forall₂ Interchangeable s t) :
    slashed s = slashed t := by
  induction h with
  | nil => rfl
  | cons hcd _ ih =>
      rcases hcd with rfl | ⟨hc, hd⟩
      · exact congrArg (List.cons _) ih
      · exact congrArg₂ List.cons ((slash_eq_iff.2 hc).trans (slash_eq_iff.2 hd).symm) ih

theorem cleanSlashes_drive {d : Char} (hd : d ≠ '\\') (t : Text) :
    cleanSlashes (d :: ':' :: t) = d :: ':' :: cleanSlashes t := by
  have hslashed : slashed [d, ':'] = [d, ':'] := slashed_of_not_mem (by simp [Ne.symm hd])
  have hdrive : cleanSlashes [d, ':'] = [d, ':'] :=
    cleanSlashes_of_isClean ⟨by simp [Ne.symm hd], by simp⟩
  change cleanSlashes ([d, ':'] ++ t) = [d, ':'] ++ cleanSlashes t
  rw [cleanSlashes_append, hslashed, hdrive]
  split
  · next hnil => rw [hnil, List.append_nil]
  · rfl

theorem Variant.lowerDrive_eq {s t : Text} (h : Variant s t) :
    lowerDrive (cleanSlashes s) = lowerDrive (cleanSlashes t) := by
  cases h with
  | @drive d e _ _ hletter hcase hrest =>
      have hd : d ≠ '\\' := by
        rintro rfl
        exact absurd hletter (by decide)
      have he : e ≠ '\\' := by
        rintro rfl
        exact hd ((toLower_eq_iff (.inr rfl)).1 hcase.symm)
      rw [cleanSlashes_drive hd, cleanSlashes_drive he, lowerDrive, lowerDrive, hcase,
        cleanSlashes_congr (slashed_eq_of_forall₂ hrest)]
  | path h => rw [cleanSlashes_congr (slashed_eq_of_forall₂ h)]

/-- A path starts with a separator if another way to spell it does. -/
theorem Variant.exists_cons {c : Char} {s t : Text} (h : Variant (c :: s) t) :
    ∃ d t', t = d :: t' ∧ (isSeparator c = false → isSeparator d = false) := by
  cases h with
  | @drive _ e _ _ hletter hcase hrest =>
      refine ⟨e, _, rfl, fun hc => ?_⟩
      by_contra he
      rw [Bool.not_eq_false, isSeparator_iff] at he
      rcases he with rfl | rfl
      · obtain rfl := (toLower_eq_iff (.inl (by decide))).1 hcase.symm
        exact absurd hc (by decide)
      · obtain rfl := (toLower_eq_iff (.inr rfl)).1 hcase.symm
        exact absurd hc (by decide)
  | path h =>
      cases h with
      | cons hcd _ =>
          refine ⟨_, _, rfl, fun hc => ?_⟩
          rcases hcd with rfl | ⟨hseparator, -⟩
          · exact hc
          · exact absurd hc (by rw [hseparator]; decide)

/-! ### Spellings of a file -/

/-- The ways to spell a file by its scheme and a path: separators behind the colon, then the path as
it may be written, and more separators at the end. -/
inductive IsSpelling (scheme path : Text) : Text → Prop
  | mk {front variant back : Text} {pieces : List Text} (hne : front ≠ [])
      (hfront : ∀ c ∈ front, isSeparator c = true) (hvariant : Variant path variant)
      (hpieces : List.Forall₂ Writes variant pieces)
      (hback : ∀ c ∈ back, isSeparator c = true) :
      IsSpelling scheme path (scheme ++ ':' :: (front ++ pieces.flatten ++ back))

variable {scheme path uri : Text}

theorem splitScheme?_of_front {front written : Text} (hscheme : IsScheme scheme) (hne : front ≠ [])
    (hfront : ∀ c ∈ front, isSeparator c = true) (hwritten : written.head? ≠ some '/') :
    splitScheme? (scheme ++ ':' :: (slashed front ++ written)) = some (scheme, written) := by
  obtain ⟨first, front, rfl⟩ := List.exists_cons_of_ne_nil hne
  rw [slashed_of_isSeparator hfront, List.length_cons, List.replicate_succ, List.cons_append]
  refine splitScheme?_eq_some_iff.2 ⟨hscheme, _, rfl, ?_⟩
  rw [List.dropWhile_append_of_pos fun c hc => by simp [List.eq_of_mem_replicate hc]]
  exact (Text.dropWhile_eq_self hwritten).symm

/-- Every spelling of a file has the same key. -/
theorem normalize_of_isSpelling {first : Char} {rest : Text} (hscheme : IsScheme scheme)
    (hfirst : isSeparator first = false) (h : IsSpelling scheme (first :: rest) uri) :
    normalize uri = keyText scheme (lowerDrive (cleanSlashes (first :: rest))) := by
  obtain ⟨hne, hfront, hvariant, hpieces, hback⟩ := h
  obtain ⟨u, hspells, hclean⟩ := exists_cleanSlashes_written hpieces
  rename_i front variant back pieces
  -- What is written starts with what is written for the first character, which is no separator.
  obtain ⟨d, written, hwritten, hd⟩ :
      ∃ d written, pieces.flatten = d :: written ∧ isSeparator d = false := by
    obtain ⟨c, variant', rfl, hc⟩ := hvariant.exists_cons
    cases hpieces with
    | @cons _ piece _ pieces' hpiece _ =>
        obtain ⟨d, piece', rfl⟩ := List.exists_cons_of_ne_nil hpiece.ne_nil
        exact ⟨d, _, rfl, hpiece.not_isSeparator (hc hfirst) d List.mem_cons_self⟩
  have hhead := mt (cleanSlashes_cons_cases d written).1 (by rw [hd]; decide)
  rw [not_or, ← hwritten] at hhead
  have hcleaned : cleanSlashes (scheme ++ ':' :: (front ++ pieces.flatten ++ back))
      = scheme ++ ':' :: (slashed front ++ cleanSlashes pieces.flatten) := by
    have hscheme' : slashed (scheme ++ [':']) = scheme ++ [':'] :=
      slashed_of_not_mem (by simp [hscheme.backslash_not_mem])
    have hparts : scheme ++ ':' :: (front ++ pieces.flatten ++ back)
        = scheme ++ [':'] ++ front ++ pieces.flatten ++ back := by simp
    rw [hparts, cleanSlashes_append, if_pos (cleanSlashes_of_isSeparator hback),
      cleanSlashes_append, if_neg hhead.1, slashed_append, hscheme']
    simp
  have hsplit := splitScheme?_of_front hscheme hne hfront hhead.2
  rw [← hcleaned] at hsplit
  rw [normalize_of_split hsplit, hspells.decode_eq, hclean, hvariant.lowerDrive_eq]

/-- All spellings of a file lead to one key: the scheme, three slashes, and the path with slashes
for backslashes, none of them at the end, with escaped percent signs and a small drive letter. -/
theorem ofUri_of_isSpelling {address tail other : Text}
    (hscheme : splitScheme? address = some (scheme, tail)) (hne : path ≠ [])
    (hhead : path.head? ≠ some '/' ∧ path.head? ≠ some '\\') (huri : IsSpelling scheme path uri)
    (hother : IsSpelling scheme path other) :
    ofUri uri = ofUri other ∧
      (ofUri uri).text = scheme ++ ":///".toList
        ++ lowerDrive (escapePercent (cleanSlashes path)) := by
  obtain ⟨first, rest, rfl⟩ := List.exists_cons_of_ne_nil hne
  have hfirst : isSeparator first = false := by
    rw [← Bool.not_eq_true, isSeparator_iff, not_or]
    simpa using hhead
  have hscheme := (splitScheme?_eq_some_iff.1 hscheme).1
  rw [ofUri, ofUri, normalize_of_isSpelling hscheme hfirst huri,
    normalize_of_isSpelling hscheme hfirst hother, lowerDrive_escapePercent]
  exact ⟨rfl, rfl⟩

/-- A path with a drive, a percent sign and a letter outside of ASCII, spelled in two ways. -/
theorem ofUri_of_isSpelling_drive :
    splitScheme? "file:/x".toList = some ("file".toList, "x".toList) ∧
    IsSpelling "file".toList "C:\\a%/é/".toList "file:/c%3a/a%25\\%c3%A9/\\".toList ∧
    IsSpelling "file".toList "C:\\a%/é/".toList "file:\\//C:%5C%61%25/é/".toList ∧
    ofUri "file:/c%3a/a%25\\%c3%A9/\\".toList = ofUri "file:\\//C:%5C%61%25/é/".toList ∧
    (ofUri "file:/c%3a/a%25\\%c3%A9/\\".toList).text = "file:///c:/a%25/é".toList := by
  have hsmall : IsSpelling "file".toList "C:\\a%/é/".toList
      "file:/c%3a/a%25\\%c3%A9/\\".toList :=
    @IsSpelling.mk _ _ ['/'] "c:/a%\\é/".toList ['\\']
      [['c'], "%3a".toList, ['/'], ['a'], "%25".toList, ['\\'], "%c3%A9".toList, ['/']]
      (by decide) (List.all_eq_true.1 (by decide))
      (.drive rfl rfl (by decide)) (by decide) (List.all_eq_true.1 (by decide))
  have hlarge : IsSpelling "file".toList "C:\\a%/é/".toList "file:\\//C:%5C%61%25/é/".toList :=
    @IsSpelling.mk _ _ ['\\', '/', '/'] "C:\\a%/é/".toList []
      [['C'], [':'], "%5C".toList, "%61".toList, "%25".toList, ['/'], ['é'], ['/']]
      (by decide) (List.all_eq_true.1 (by decide))
      (.path (by decide)) (by decide) (List.forall_mem_nil _)
  have hscheme : splitScheme? "file:/x".toList = some ("file".toList, "x".toList) := by decide
  obtain ⟨hsame, htext⟩ :=
    ofUri_of_isSpelling hscheme (by decide) (by decide) hsmall hlarge
  exact ⟨hscheme, hsmall, hlarge, hsame, htext⟩

end FileKey

end LanguageServer
