import LanguageServer.Proofs.Uri.Spellings

/-!
# Canonical keys

The text of a key with a scheme is the scheme, three slashes and an escaped path (`keyText`), and
normalizing that text gives the same key unless the path is empty or starts with a further slash
(`normalize_keyText_eq_iff`). Both come from one kind of spelling only: decoding comes after the
slashes behind the scheme have been counted, so a separator that is escaped at the start of the path
comes up too late. `ofUri_canonical_iff` says that this is the only way to get a key that is not
canonical.
-/

namespace LanguageServer

open Percent (Spells)

namespace FileKey

/-! ### Keys with a scheme -/

/-- The key of a path behind a scheme. -/
def keyText (scheme path : Text) : Text := scheme ++ [':', '/', '/', '/'] ++ escapePercent path

theorem normalize_of_split {uri scheme path : Text}
    (h : splitScheme? (cleanSlashes uri) = some (scheme, path)) :
    normalize uri = keyText scheme (lowerDrive (cleanSlashes (Percent.decode path))) := by
  simp only [normalize, h, keyText, lowerDrive_escapePercent]

theorem normalize_of_not_split {uri : Text} (h : splitScheme? (cleanSlashes uri) = none) :
    normalize uri = cleanSlashes uri := by
  simp only [normalize, h]

theorem keyText_injective {scheme path path' : Text}
    (h : keyText scheme path = keyText scheme path') : path = path' := by
  have hescaped := congrArg Percent.decode (List.append_cancel_left h)
  rwa [decode_escapePercent, decode_escapePercent] at hescaped

theorem splitScheme?_keyText {scheme : Text} (h : IsScheme scheme) (path : Text) :
    splitScheme? (keyText scheme path)
      = some (scheme, escapePercent (path.dropWhile (· == '/'))) := by
  refine splitScheme?_eq_some_iff.2 ⟨h, '/' :: '/' :: escapePercent path, ?_, ?_⟩
  · rw [keyText, List.append_assoc]
    rfl
  · exact (dropWhile_escapePercent path).symm

theorem isClean_keyText {scheme path : Text} (hscheme : IsScheme scheme) (hpath : IsClean path)
    (hne : path ≠ []) : IsClean (keyText scheme path) := by
  constructor
  · intro hmem
    rcases List.mem_append.1 hmem with hmem | hmem
    · rcases List.mem_append.1 hmem with hmem | hmem
      · exact hscheme.backslash_not_mem hmem
      · exact absurd hmem (by decide)
    · exact hpath.no_backslash (mem_escapePercent hmem (by decide))
  · intro hlast
    have hescaped := mt (escapePercent_eq_nil_iff path).1 hne
    rw [keyText, List.getLast?_append_of_ne_nil _ hescaped] at hlast
    exact hpath.last_ne (getLast?_escapePercent hlast (by decide))

theorem isClean_dropWhile {t : Text} (h : IsClean t) (p : Char → Bool) :
    IsClean (t.dropWhile p) := by
  refine ⟨fun hmem => h.no_backslash ((List.dropWhile_suffix p).subset hmem), fun hlast => ?_⟩
  obtain ⟨before, hbefore⟩ := List.dropWhile_suffix (l := t) p
  refine h.last_ne ?_
  rw [← hbefore, List.getLast?_append, hlast, Option.some_or]

theorem normalize_keyText {scheme path : Text} (hscheme : IsScheme scheme) (hpath : IsClean path)
    (hne : path ≠ []) :
    normalize (keyText scheme path) = keyText scheme (lowerDrive (path.dropWhile (· == '/'))) := by
  have hsplit := splitScheme?_keyText hscheme path
  rw [← cleanSlashes_of_isClean (isClean_keyText hscheme hpath hne)] at hsplit
  rw [normalize_of_split hsplit, decode_escapePercent,
    cleanSlashes_of_isClean (isClean_dropWhile hpath _)]

theorem normalize_keyText_nil {scheme : Text} (hscheme : IsScheme scheme) :
    normalize (keyText scheme []) = scheme ++ [':'] := by
  have hcolon : IsClean (scheme ++ [':']) := ⟨by simp [hscheme.backslash_not_mem], by simp⟩
  have hclean : cleanSlashes (keyText scheme []) = scheme ++ [':'] := by
    have htext : keyText scheme [] = scheme ++ [':'] ++ ['/'] ++ ['/'] ++ ['/'] := by
      simp [keyText, escapePercent]
    rw [htext, cleanSlashes_append_slash, cleanSlashes_append_slash, cleanSlashes_append_slash,
      cleanSlashes_of_isClean hcolon]
  have hnone : splitScheme? (scheme ++ [':']) = none := by
    rw [splitScheme?, takeWhile_ne_colon hscheme.colon_not_mem,
      dropWhile_ne_colon hscheme.colon_not_mem]
    split
    · next heq => cases heq
    · rfl
  rw [← hclean] at hnone ⊢
  exact normalize_of_not_split hnone

/-! ### Escaped separators -/

/-- The escapes of a slash and of a backslash. -/
def escapedSeparators : List Text := ["%2F".toList, "%2f".toList, "%5C".toList, "%5c".toList]

def isSeparator (c : Char) : Bool := c == '/' || c == '\\'

theorem isSeparator_iff {c : Char} : isSeparator c = true ↔ c = '/' ∨ c = '\\' := by
  rw [isSeparator, Bool.or_eq_true, beq_iff_eq, beq_iff_eq]

theorem slash_eq_iff {c : Char} : (if c = '\\' then '/' else c) = '/' ↔ isSeparator c = true := by
  by_cases hback : c = '\\' <;> simp [isSeparator_iff, hback]

theorem eq_of_toNat_eq {c d : Char} (h : c.toNat = d.toNat) : c = d :=
  Char.ext (UInt32.toNat_inj.1 h)

theorem mem_escapedSeparators_iff (high low : Char) :
    ['%', high, low] ∈ escapedSeparators ↔
      ∃ b, Percent.escaped? high low = some b ∧ (b.toNat = 47 ∨ b.toNat = 92) := by
  constructor
  · intro hmem
    have hcases :
        high = '2' ∧ (low = 'F' ∨ low = 'f') ∨ high = '5' ∧ (low = 'C' ∨ low = 'c') := by
      simpa [escapedSeparators, and_or_left, or_assoc] using hmem
    rcases hcases with ⟨rfl, rfl | rfl⟩ | ⟨rfl, rfl | rfl⟩
    · exact ⟨47, by decide, by decide⟩
    · exact ⟨47, by decide, by decide⟩
    · exact ⟨92, by decide, by decide⟩
    · exact ⟨92, by decide, by decide⟩
  · rintro ⟨b, hb, hseparator⟩
    obtain ⟨m, n, hm, hn, hm16, hn16, hvalue⟩ := Percent.exists_of_escaped? hb
    have hhigh := Percent.hexValue?_eq_some hm
    have hlow := Percent.hexValue?_eq_some hn
    rcases hseparator with hslash | hslash
    · obtain rfl : high = '2' := eq_of_toNat_eq (show high.toNat = 50 by omega)
      rcases (show low.toNat = 70 ∨ low.toNat = 102 by omega) with h | h
      · obtain rfl : low = 'F' := eq_of_toNat_eq h
        decide
      · obtain rfl : low = 'f' := eq_of_toNat_eq h
        decide
    · obtain rfl : high = '5' := eq_of_toNat_eq (show high.toNat = 53 by omega)
      rcases (show low.toNat = 67 ∨ low.toNat = 99 by omega) with h | h
      · obtain rfl : low = 'C' := eq_of_toNat_eq h
        decide
      · obtain rfl : low = 'c' := eq_of_toNat_eq h
        decide

/-- A path that starts with an escaped separator. -/
def StartsEscaped (path : Text) : Prop := ∃ e ∈ escapedSeparators, e <+: path

theorem startsEscaped_iff (path : Text) :
    StartsEscaped path ↔ ∃ high low rest b, path = '%' :: high :: low :: rest ∧
      Percent.escaped? high low = some b ∧ (b.toNat = 47 ∨ b.toNat = 92) := by
  constructor
  · rintro ⟨e, he, rest, rfl⟩
    obtain ⟨high, low, rfl⟩ : ∃ high low, e = ['%', high, low] := by
      simp only [escapedSeparators, List.mem_cons, List.not_mem_nil, or_false] at he
      rcases he with rfl | rfl | rfl | rfl <;> exact ⟨_, _, rfl⟩
    obtain ⟨b, hb⟩ := (mem_escapedSeparators_iff high low).1 he
    exact ⟨high, low, rest, b, rfl, hb⟩
  · rintro ⟨high, low, rest, b, rfl, hb⟩
    exact ⟨_, (mem_escapedSeparators_iff high low).2 ⟨b, hb⟩, rest, rfl⟩

theorem isSeparator_ofNat :
    ∀ n < 0x80, isSeparator (Char.ofNat n) = true ↔ n = 47 ∨ n = 92 := by decide

theorem not_isSeparator_of_isForeign {c : Char} (h : Utf8.IsForeign c) : isSeparator c = false := by
  rw [Utf8.IsForeign] at h
  by_contra hseparator
  rw [Bool.not_eq_false, isSeparator_iff] at hseparator
  rcases hseparator with rfl | rfl <;> exact absurd h (by decide)

/-- What a path without a separator in front is decoded to starts with a separator exactly if the
path starts with an escaped one. -/
theorem decode_cons_cases {c : Char} (hc : isSeparator c = false) (path : Text) :
    ∃ d rest, Percent.decode (c :: path) = d :: rest ∧
      (isSeparator d = true ↔ StartsEscaped (c :: path)) := by
  by_cases hpercent : c = '%'
  · subst hpercent
    by_cases hescape : ∃ high low rest b, path = high :: low :: rest ∧
        Percent.escaped? high low = some b
    · obtain ⟨high, low, rest, b, rfl, hb⟩ := hescape
      have hstarts :
          StartsEscaped ('%' :: high :: low :: rest) ↔ b.toNat = 47 ∨ b.toNat = 92 := by
        rw [startsEscaped_iff]
        constructor
        · rintro ⟨_, _, _, _, heq, hb', hvalue⟩
          cases heq
          rwa [Option.some.inj (hb.symm.trans hb')]
        · exact fun hvalue => ⟨_, _, _, b, rfl, hb, hvalue⟩
      rw [Percent.decode, Percent.decodeBytes_escaped hb, hstarts]
      by_cases hascii : b.toNat < 0x80
      · exact ⟨_, _, Utf8.decodeLossy_ascii hascii _, isSeparator_ofNat b.toNat hascii⟩
      · obtain ⟨d, rest', hdecode, hd⟩ :=
          Utf8.decodeLossy_foreign (Nat.le_of_not_lt hascii) (Percent.decodeBytes rest)
        refine ⟨d, rest', hdecode, iff_of_false ?_ (by omega)⟩
        rw [not_isSeparator_of_isForeign hd]
        decide
    · refine ⟨'%', Percent.decode path, ?_, iff_of_false (by decide) ?_⟩
      · rw [Percent.decode, Percent.decodeBytes_percent]
        · exact Utf8.decodeLossy_ascii (by decide) _
        · intro high low rest hpath
          exact Option.eq_none_iff_forall_ne_some.2 fun b hb => hescape ⟨_, _, _, b, hpath, hb⟩
      · rw [startsEscaped_iff]
        rintro ⟨high, low, rest, b, heq, hb, -⟩
        cases heq
        exact hescape ⟨_, _, _, b, rfl, hb⟩
  · refine ⟨c, Percent.decode path, (Spells.char hpercent).decode_append path,
      iff_of_false (by simp [hc]) ?_⟩
    rw [startsEscaped_iff]
    rintro ⟨_, _, _, _, heq, -⟩
    cases heq
    exact hpercent rfl

/-! ### Canonical keys -/

/-- A spelling whose path starts with an escaped separator behind the slashes of the scheme. -/
def HidesSeparator (uri : Text) : Prop :=
  ∃ scheme path, splitScheme? (cleanSlashes uri) = some (scheme, path) ∧ StartsEscaped path

/-- What stands behind the three slashes of a key, except for its first character. -/
structure IsCanonicalPath (path : Text) : Prop where
  isClean : IsClean path
  percents : ∀ before after, path = before ++ '%' :: after → ['2', '5'] <+: after
  drive : ∀ d after, path = d :: ':' :: after → d.isUpper = false

theorem percents_escapePercent (t : Text) :
    ∀ before after, escapePercent t = before ++ '%' :: after → ['2', '5'] <+: after := by
  induction t with
  | nil => simp [escapePercent]
  | cons c t ih =>
      intro before after heq
      by_cases hc : c = '%'
      · subst hc
        change '%' :: '2' :: '5' :: escapePercent t = _ at heq
        rcases before with _ | ⟨first, before⟩
        · rw [← (List.cons.inj heq).2]
          exact ⟨escapePercent t, rfl⟩
        obtain ⟨-, heq⟩ := List.cons.inj heq
        rcases before with _ | ⟨second, before⟩
        · cases heq
        obtain ⟨-, heq⟩ := List.cons.inj heq
        rcases before with _ | ⟨third, before⟩
        · cases heq
        exact ih before after (List.cons.inj heq).2
      · rw [escapePercent_cons_of_ne hc] at heq
        rcases before with _ | ⟨first, before⟩
        · exact absurd (List.cons.inj heq).1 hc
        · exact ih before after (List.cons.inj heq).2

theorem isClean_escapePercent {t : Text} (h : IsClean t) : IsClean (escapePercent t) :=
  ⟨fun hmem => h.no_backslash (mem_escapePercent hmem (by decide)), fun hlast =>
    h.last_ne (getLast?_escapePercent hlast (by decide))⟩

theorem isCanonicalPath_escapePercent {t : Text} (h : IsClean t) :
    IsCanonicalPath (escapePercent (lowerDrive t)) := by
  refine ⟨isClean_escapePercent (isClean_lowerDrive h), percents_escapePercent _, ?_⟩
  intro d after heq
  rw [← lowerDrive_escapePercent] at heq
  rcases lowerDrive_cases (escapePercent t) with ⟨e, rest, -, hdrive⟩ | ⟨hsame, hne⟩
  · rw [heq] at hdrive
    rw [(List.cons.inj hdrive).1]
    exact isUpper_toLower e
  · exact absurd (hsame.symm.trans heq) (hne d after)

theorem cleanSlashes_cons_cases (d : Char) (rest : Text) :
    cleanSlashes (d :: rest) = [] ∨ (cleanSlashes (d :: rest)).head? = some '/' ↔
      isSeparator d = true := by
  rw [← slash_eq_iff, cleanSlashes, List.map_cons]
  generalize (if d = '\\' then '/' else d) = first
  generalize (rest.map fun c => if c = '\\' then '/' else c) = more
  obtain ⟨tail, htail⟩ : Text.dropEndWhile (· == '/') (first :: more) <+: first :: more :=
    List.rdropWhile_prefix _ _
  constructor
  · rintro (hnil | hhead)
    · exact beq_iff_eq.1 (List.rdropWhile_eq_nil_iff.1 hnil first List.mem_cons_self)
    · obtain ⟨kept, hkept⟩ := List.head?_eq_some_iff.1 hhead
      rw [hkept] at htail
      exact (List.cons.inj htail).1.symm
  · rintro rfl
    cases hkept : Text.dropEndWhile (· == '/') ('/' :: more) with
    | nil => exact .inl rfl
    | cons c kept =>
        rw [hkept] at htail
        rw [(List.cons.inj htail).1]
        exact .inr rfl

/-- Behind the scheme of a clean spelling there is something, and it does not start with a
separator. -/
theorem exists_cons_of_split {uri scheme path : Text}
    (h : splitScheme? (cleanSlashes uri) = some (scheme, path)) :
    ∃ c rest, path = c :: rest ∧ isSeparator c = false := by
  have hclean := isClean_cleanSlashes uri
  obtain ⟨-, slashes, hcleaned, rfl⟩ := splitScheme?_eq_some_iff.1 h
  have hhead := List.head?_dropWhile_not (· == '/') slashes
  cases hpath : slashes.dropWhile (· == '/') with
  | nil =>
      -- All that follows the colon would be slashes, one of them at the end.
      have hslashes : ∀ c ∈ '/' :: slashes, c = '/' := by
        refine List.forall_mem_cons.2 ⟨rfl, fun c hc => ?_⟩
        exact beq_iff_eq.1 (List.dropWhile_eq_nil_iff.1 hpath c hc)
      refine absurd ?_ hclean.last_ne
      rw [hcleaned, List.getLast?_append_of_ne_nil _ (List.cons_ne_nil _ _),
        List.getLast?_cons_cons, List.getLast?_eq_some_getLast (List.cons_ne_nil _ _),
        hslashes _ (List.getLast_mem _)]
  | cons c rest =>
      rw [hpath] at hhead
      refine ⟨c, rest, rfl, ?_⟩
      have hback : c ≠ '\\' := by
        rintro rfl
        have hmem : '\\' ∈ slashes :=
          (List.dropWhile_suffix _).subset (hpath ▸ List.mem_cons_self)
        exact hclean.no_backslash (by simp [hcleaned, hmem])
      simpa [isSeparator, hback] using hhead

/-- Decoding brings up a separator, or nothing but separators, exactly if the spelling hides one. -/
theorem hidesSeparator_iff {uri scheme path : Text}
    (h : splitScheme? (cleanSlashes uri) = some (scheme, path)) :
    HidesSeparator uri ↔ cleanSlashes (Percent.decode path) = [] ∨
      (cleanSlashes (Percent.decode path)).head? = some '/' := by
  obtain ⟨c, rest, rfl, hc⟩ := exists_cons_of_split h
  obtain ⟨d, decoded, hdecode, hd⟩ := decode_cons_cases hc rest
  rw [hdecode, cleanSlashes_cons_cases, hd]
  constructor
  · rintro ⟨scheme', path', hsplit, hstarts⟩
    rw [h] at hsplit
    cases hsplit
    exact hstarts
  · exact fun hstarts => ⟨scheme, _, h, hstarts⟩

theorem normalize_keyText_eq_iff {scheme path : Text} (hscheme : IsScheme scheme)
    (hpath : IsClean path) (hdrive : lowerDrive path = path) :
    normalize (keyText scheme path) = keyText scheme path ↔
      ¬ (path = [] ∨ path.head? = some '/') := by
  cases path with
  | nil =>
      rw [normalize_keyText_nil hscheme]
      refine iff_of_false (fun heq => ?_) (by simp)
      have hlength := congrArg List.length heq
      simp [keyText] at hlength
  | cons c rest =>
      rw [normalize_keyText hscheme hpath (List.cons_ne_nil c rest)]
      by_cases hslash : c = '/'
      · subst hslash
        refine iff_of_false (fun heq => ?_) (by simp)
        have hhead := List.head?_dropWhile_not (· == '/') ('/' :: rest)
        rw [(head?_lowerDrive_slash _).1 (by rw [keyText_injective heq]; rfl)] at hhead
        cases hhead
      · rw [List.dropWhile_cons_of_neg (by simpa using hslash), hdrive]
        exact iff_of_true rfl (by simpa using hslash)

/-- A key is found again from its own text, and what stands behind the three slashes of its scheme
has no backslash, no slash at either end, only escaped percent signs and no large drive letter,
unless the path was spelled with an escaped separator in front: then the key has a further slash
there or nothing at all, and its own text gives another key. -/
theorem ofUri_canonical_iff (uri : Text) :
    (ofUri (ofUri uri).text = ofUri uri ↔ ¬ HidesSeparator uri) ∧
      ∀ scheme, (ofUri uri).scheme? = some scheme →
        ∃ path, (ofUri uri).text = scheme ++ [':', '/', '/', '/'] ++ path ∧
          IsCanonicalPath path ∧ (HidesSeparator uri ↔ path = [] ∨ path.head? = some '/') := by
  simp only [ofUri, scheme?, mk.injEq]
  cases hsplit : splitScheme? (cleanSlashes uri) with
  | none =>
      have hshown : ¬ HidesSeparator uri := by
        rintro ⟨scheme, path, hsome, -⟩
        rw [hsplit] at hsome
        cases hsome
      have hagain : cleanSlashes (cleanSlashes uri) = cleanSlashes uri :=
        cleanSlashes_of_isClean (isClean_cleanSlashes uri)
      rw [normalize_of_not_split hsplit, hsplit]
      refine ⟨iff_of_true ?_ hshown, nofun⟩
      rw [normalize_of_not_split (by rw [hagain]; exact hsplit), hagain]
  | some pair =>
      obtain ⟨scheme, path⟩ := pair
      have hscheme := (splitScheme?_eq_some_iff.1 hsplit).1
      have hclean := isClean_cleanSlashes (Percent.decode path)
      have hhides := hidesSeparator_iff hsplit
      rw [normalize_of_split hsplit]
      generalize cleanSlashes (Percent.decode path) = decoded at hclean hhides
      rw [← lowerDrive_eq_nil_iff, ← head?_lowerDrive_slash] at hhides
      constructor
      · rw [normalize_keyText_eq_iff hscheme (isClean_lowerDrive hclean) (lowerDrive_lowerDrive _),
          hhides]
      · intro scheme' hscheme'
        rw [splitScheme?_keyText hscheme] at hscheme'
        cases hscheme'
        refine ⟨_, rfl, isCanonicalPath_escapePercent hclean, ?_⟩
        rw [hhides, escapePercent_eq_nil_iff, head?_escapePercent_slash]

/-- An escaped slash in front gives a key with four slashes, whose own text gives another key. -/
theorem escaped_slash_leads_to_two_keys :
    (ofUri "file:///%2Fx".toList).text = "file:////x".toList ∧
      ofUri (ofUri "file:///%2Fx".toList).text = ofUri "file:///x".toList ∧
      ofUri (ofUri "file:///%2Fx".toList).text ≠ ofUri "file:///%2Fx".toList := by
  decide

end FileKey

end LanguageServer
