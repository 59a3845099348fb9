import LanguageServer.Proofs.Uri.LocalPaths

/-!
# Paths that an address can express

A local path is kept decoded in its key, and the address of the key is read from the decoded form.
So a number sign or a question mark in a path ends it, line breaks, tabs and blanks at the end are
dropped, and brackets, bars and carets are left without an escape, which no reference admits. For
all other paths the address stands for the path and leads back to the key (`uri?_ofLocalPath_iff`).
-/

namespace LanguageServer

open Address (escapedInAddress stripped)

open Reference (Denotes)

namespace FileKey

/-! ### Absolute paths -/

/-- Names along an absolute path: there is one, none is empty, means a directory or has a separator
in it, and the first one does not start with a drive. -/
structure AreNames (names : List Text) : Prop where
  ne_nil : names ≠ []
  name_ne_nil : ∀ name ∈ names, name ≠ []
  separator : ∀ name ∈ names, ∀ c ∈ name, isSeparator c = false
  dots : ∀ name ∈ names, name ≠ ['.'] ∧ name ≠ ['.', '.']
  drive : hasDrive (names.headD []) = false

instance (names : List Text) : Decidable (AreNames names) :=
  decidable_of_iff (names ≠ [] ∧ (∀ name ∈ names, name ≠ []) ∧
      (∀ name ∈ names, name.any isSeparator = false) ∧
      (∀ name ∈ names, name ≠ ['.'] ∧ name ≠ ['.', '.']) ∧ hasDrive (names.headD []) = false)
    ⟨fun ⟨hne, hname, hseparator, hdots, hdrive⟩ =>
        ⟨hne, hname, fun name hmem => by simpa using hseparator name hmem, hdots, hdrive⟩,
      fun h => ⟨h.ne_nil, h.name_ne_nil, fun name hmem => by simpa using h.separator name hmem,
        h.dots, h.drive⟩⟩

namespace AreNames

variable {names : List Text}

/-- Names are segments, so what is known of the path along segments holds here too. -/
theorem areSegments (h : AreNames names) : AreSegments names where
  ne_nil := h.ne_nil
  name_ne_nil := h.name_ne_nil
  separator := h.separator
  dot name hname := (h.dots name hname).1
  drive := h.drive

theorem absolutePath_eq (h : AreNames names) : absolutePath names = '/' :: relativePath names :=
  h.areSegments.absolutePath_eq

theorem splitOn_relativePath (h : AreNames names) : (relativePath names).splitOn '/' = names :=
  h.areSegments.splitOn_relativePath

theorem relativePath_ne_nil (h : AreNames names) : relativePath names ≠ [] :=
  h.areSegments.relativePath_ne_nil

theorem head?_relativePath (h : AreNames names) : (relativePath names).head? ≠ some '/' :=
  h.areSegments.head?_relativePath

theorem isClean_relativePath (h : AreNames names) : IsClean (relativePath names) :=
  h.areSegments.isClean_relativePath

theorem lowerDrive_relativePath (h : AreNames names) :
    lowerDrive (relativePath names) = relativePath names :=
  h.areSegments.lowerDrive_relativePath

end AreNames

theorem text_ofLocalPath {names : List Text} (h : AreNames names) :
    (ofLocalPath (absolutePath names)).text = keyText "file".toList (relativePath names) :=
  h.areSegments.text_ofLocalPath

/-! ### Paths that can be expressed -/

/-- Characters that an address takes for the end of the path, drops, or keeps without an escape. -/
def unwritable : List Char := ['#', '?', '[', ']', '|', '^', '\t', '\n', '\r']

/-- A path without these characters and without a blank or control character at its end. -/
structure IsExpressible (path : Text) : Prop where
  chars : ∀ c ∈ path, c ∉ unwritable
  last : ∀ c, path.getLast? = some c → ' ' < c

theorem isWritten_ofNat : ∀ n < 0x80, Char.ofNat n ≠ '\\' →
    ((escapedInAddress (Char.ofNat n) || Reference.isPathChar (Char.ofNat n)) = true ↔
      Char.ofNat n ∉ ['[', ']', '|', '^']) := by
  decide

/-- Of the characters other than backslashes, only brackets, bars and carets are neither escaped nor
admitted. -/
theorem isWritten_iff {c : Char} (hc : c ≠ '\\') :
    (escapedInAddress c || Reference.isPathChar c) = true ↔ c ∉ ['[', ']', '|', '^'] := by
  by_cases hascii : c.toNat < 0x80
  · have hwritten := isWritten_ofNat c.toNat hascii
    rw [Char.ofNat_toNat] at hwritten
    exact hwritten hc
  · have hcontrol : Address.isControl c = true := by
      rw [Address.isControl, Bool.or_eq_true, decide_eq_true_eq, decide_eq_true_eq]
      exact .inr (show 0x7e < c.toNat by omega)
    have hescaped : escapedInAddress c = true := by
      simp [escapedInAddress, Address.escapedInPath, Address.escapedInFragment, hcontrol]
    rw [hescaped, Bool.true_or]
    refine iff_of_true rfl fun hmem => hascii ?_
    have hall : ['[', ']', '|', '^'].all (·.toNat < 0x80) = true := by decide
    exact of_decide_eq_true (List.all_eq_true.1 hall c hmem)

theorem mem_escapePercent_of_ne {c : Char} (hc : c ≠ '%') {t : Text} (h : c ∈ t) :
    c ∈ escapePercent t :=
  List.mem_flatMap.2 ⟨c, h, by rw [if_neg hc]; exact List.mem_singleton_self c⟩

theorem mem_unwritable_iff (c : Char) :
    c ∈ unwritable ↔ c = '#' ∨ c = '?' ∨ c ∈ ['[', ']', '|', '^'] ∨ Address.isDropped c = true := by
  simp [unwritable, Address.isDropped, or_assoc]

variable {names : List Text}

/-- A path can be expressed if nothing of it is cut off, dropped, or left without its escape. -/
theorem isExpressible_iff (h : AreNames names) :
    IsExpressible (absolutePath names) ↔
      '#' ∉ relativePath names ∧ '?' ∉ relativePath names ∧
      (relativePath names).all (fun c => escapedInAddress c || Reference.isPathChar c) = true ∧
      stripped (relativePath names) = relativePath names := by
  have hwritten : ∀ c ∈ relativePath names,
      (escapedInAddress c || Reference.isPathChar c) = true ↔ c ∉ ['[', ']', '|', '^'] := by
    refine fun c hc => isWritten_iff ?_
    rintro rfl
    exact h.isClean_relativePath.no_backslash hc
  have hlast : (absolutePath names).getLast? = (relativePath names).getLast? := by
    obtain ⟨c, rest, hcons⟩ := List.exists_cons_of_ne_nil h.relativePath_ne_nil
    rw [h.absolutePath_eq, hcons, List.getLast?_cons_cons]
  rw [Address.stripped_eq_self_iff, List.all_eq_true, ← hlast]
  constructor
  · intro hpath
    have hchars : ∀ c ∈ relativePath names, c ∉ unwritable := fun c hc =>
      hpath.chars c (h.absolutePath_eq ▸ List.mem_cons_of_mem '/' hc)
    refine ⟨fun hc => hchars _ hc (by decide), fun hc => hchars _ hc (by decide), ?_, ?_,
      hpath.last⟩
    · exact fun c hc => (hwritten c hc).2 fun hmem =>
        hchars c hc ((mem_unwritable_iff c).2 (.inr (.inr (.inl hmem))))
    · exact fun c hc => Bool.eq_false_iff.2 fun hdropped =>
        hchars c hc ((mem_unwritable_iff c).2 (.inr (.inr (.inr hdropped))))
  · rintro ⟨hnumber, hquestion, hall, hdropped, hblank⟩
    refine ⟨fun c hc hmem => ?_, hblank⟩
    rw [h.absolutePath_eq] at hc
    rcases List.mem_cons.1 hc with rfl | hc
    · exact absurd hmem (by decide)
    · rcases (mem_unwritable_iff c).1 hmem with rfl | rfl | hmem | hmem
      · exact hnumber hc
      · exact hquestion hc
      · exact (hwritten c hc).1 (hall c hc) hmem
      · rw [hdropped c hc] at hmem
        cases hmem

/-! ### Addresses of paths -/

theorem parse?_keyText (t : Text) :
    Address.parse? (keyText "file".toList t) = some ⟨"file".toList, some [],
      Address.pathOf .file (Address.splitTail .file (escapePercent (stripped t))).1,
      (Address.splitTail .file (escapePercent (stripped t))).2.1,
      (Address.splitTail .file (escapePercent (stripped t))).2.2⟩ := by
  rw [← Address.stripped_escapePercent, ← Address.local?_slashes, ← Address.parse?_local]
  rfl

theorem uri?_eq_some_iff {k : FileKey} {u : Text} {address : Address}
    (h : Address.parse? k.text = some address) :
    k.uri? = some u ↔ u = address.render ∧ Reference.isReference u = true := by
  simp only [uri?, h, Option.bind_eq_bind, Option.bind_some]
  split
  · next href =>
      rw [Option.some.injEq, eq_comm]
      exact ⟨fun heq => ⟨heq, heq ▸ href⟩, And.left⟩
  · next href =>
      refine iff_of_false nofun ?_
      rintro ⟨rfl, hreference⟩
      exact href hreference

theorem render_local (t : Text) :
    Address.render ⟨"file".toList, some [], '/' :: t, none, none⟩ = "file:///".toList ++ t := by
  simp [Address.render]

theorem signs_not_mem_encode (t : Text) :
    '#' ∉ Percent.encode escapedInAddress t ∧ '?' ∉ Percent.encode escapedInAddress t := by
  constructor <;> intro hmem
  · rcases Percent.mem_encode hmem with ⟨-, hkept⟩ | hmem
    · exact absurd hkept (by decide)
    · exact absurd hmem (by decide)
  · rcases Percent.mem_encode hmem with ⟨-, hkept⟩ | hmem
    · exact absurd hkept (by decide)
    · exact absurd hmem (by decide)

/-- An escaped path behind the scheme stands for the path. -/
theorem denotes_encode (t : Text) :
    Denotes ("file:///".toList ++ Percent.encode escapedInAddress t) ('/' :: t) := by
  obtain ⟨hnumber, hquestion⟩ := signs_not_mem_encode t
  have hfragment : '#' ∉ "file:///".toList ++ Percent.encode escapedInAddress t := by
    simp [hnumber]
  refine ⟨(Reference.query?_eq_none_iff hfragment).2 (by simp [hquestion]),
    Reference.fragment?_eq_none_iff.2 hfragment, ?_⟩
  rw [Reference.path_local hnumber hquestion, ← Percent.encode_cons_of_not (by decide),
    (Percent.spells_encode (by decide) _).decode_eq]

/-- An address that stands for the whole path is the escaped path. -/
theorem expressible_of_denotes (h : AreNames names) {u : Text}
    (hu : (ofLocalPath (absolutePath names)).uri? = some u)
    (hpath : Denotes u (absolutePath names)) :
    u = "file:///".toList ++ Percent.encode escapedInAddress (relativePath names) ∧
      IsExpressible (absolutePath names) := by
  have hparse := parse?_keyText (relativePath names)
  rw [← text_ofLocalPath h] at hparse
  obtain ⟨rfl, hreference⟩ := (uri?_eq_some_iff hparse).1 hu
  obtain ⟨hnumber, hquestion⟩ := hpath.not_mem
  obtain ⟨kept, hkept, hlength⟩ := Address.exists_pathOf_eq (stripped (relativePath names))
  generalize hsplit :
    Address.splitTail .file (escapePercent (stripped (relativePath names))) = parts at *
  obtain ⟨body, query, fragment⟩ := parts
  obtain rfl : fragment = none := by
    cases fragment with
    | none => rfl
    | some f => exact absurd (by simp [Address.render]) hnumber
  obtain rfl : query = none := by
    cases query with
    | none => rfl
    | some q => exact absurd (by simp [Address.render]) hquestion
  have hsigns := Address.not_mem_of_splitTail hsplit
  rw [Address.splitTail_of_not_mem hsigns.1 hsigns.2] at hsplit
  obtain rfl := (Prod.mk.inj hsplit).1
  rw [hkept, render_local] at hpath hreference ⊢
  -- The address stands for what was kept, so that is the whole path and nothing was dropped.
  obtain rfl : kept = relativePath names := by
    have hwhole := (denotes_encode kept).path.symm.trans hpath.path
    rw [h.absolutePath_eq] at hwhole
    exact (List.cons.inj hwhole).2
  have hstripped : stripped (relativePath names) = relativePath names :=
    (Address.stripped_sublist _).eq_of_length_le hlength
  refine ⟨rfl, (isExpressible_iff h).2 ⟨?_, ?_, ?_, hstripped⟩⟩
  · rw [hstripped] at hsigns
    exact fun hmem => hsigns.1 (mem_escapePercent_of_ne (by decide) hmem)
  · rw [hstripped] at hsigns
    exact fun hmem => hsigns.2 (mem_escapePercent_of_ne (by decide) hmem)
  · obtain ⟨hnumber, hquestion⟩ := signs_not_mem_encode (relativePath names)
    rwa [Reference.isReference_local hnumber hquestion, Percent.isMadeOf_encode (by decide)]
      at hreference

theorem uri?_of_isExpressible (h : AreNames names) (hpath : IsExpressible (absolutePath names)) :
    (ofLocalPath (absolutePath names)).uri?
      = some ("file:///".toList ++ Percent.encode escapedInAddress (relativePath names)) := by
  obtain ⟨hnumber, hquestion, hall, hstripped⟩ := (isExpressible_iff h).1 hpath
  have hparse := parse?_keyText (relativePath names)
  have hsplit : Address.splitTail .file (escapePercent (relativePath names))
      = (escapePercent (relativePath names), none, none) :=
    Address.splitTail_of_not_mem (fun hmem => hnumber (mem_escapePercent hmem (by decide)))
      (fun hmem => hquestion (mem_escapePercent hmem (by decide)))
  have hdots : ∀ name ∈ (relativePath names).splitOn '/', name ≠ ['.'] ∧ name ≠ ['.', '.'] := by
    rw [h.splitOn_relativePath]
    exact h.dots
  rw [hstripped, hsplit, Address.pathOf_of_no_dots hdots h.head?_relativePath,
    ← text_ofLocalPath h] at hparse
  refine (uri?_eq_some_iff hparse).2 ⟨(render_local _).symm, ?_⟩
  obtain ⟨hnumber, hquestion⟩ := signs_not_mem_encode (relativePath names)
  rw [Reference.isReference_local hnumber hquestion, Percent.isMadeOf_encode (by decide), hall]

/-- A local path has an address that stands for it exactly if it can be expressed, and such an
address leads back to the key of the path. -/
theorem uri?_ofLocalPath_iff (h : AreNames names) :
    ((∃ u, (ofLocalPath (absolutePath names)).uri? = some u ∧ Denotes u (absolutePath names)) ↔
        IsExpressible (absolutePath names)) ∧
      ∀ u, (ofLocalPath (absolutePath names)).uri? = some u → Denotes u (absolutePath names) →
        ofUri u = ofLocalPath (absolutePath names) := by
  refine ⟨⟨?_, fun hpath => ⟨_, uri?_of_isExpressible h hpath, ?_⟩⟩, ?_⟩
  · rintro ⟨u, hu, hpath⟩
    exact (expressible_of_denotes h hu hpath).2
  · rw [h.absolutePath_eq]
    exact denotes_encode _
  · intro u hu hpath
    rw [(expressible_of_denotes h hu hpath).1, ofUri, FileKey.mk.injEq, text_ofLocalPath h,
      normalize_encode (by decide) (by decide) h.isClean_relativePath h.head?_relativePath
        h.relativePath_ne_nil, h.lowerDrive_relativePath]

/-- Blanks and percent signs are escaped. -/
theorem uri?_ofLocalPath_escaped :
    AreNames ["My Docs".toList, "50%.txt".toList] ∧
      ∃ u, (ofLocalPath "/My Docs/50%.txt".toList).uri? = some u ∧
        Denotes u "/My Docs/50%.txt".toList ∧
        ofUri u = ofLocalPath "/My Docs/50%.txt".toList := by
  have hnames : AreNames ["My Docs".toList, "50%.txt".toList] := by decide
  have hpath : IsExpressible (absolutePath ["My Docs".toList, "50%.txt".toList]) :=
    ⟨by simp [absolutePath, unwritable], by rintro c ⟨⟩; decide⟩
  obtain ⟨hiff, hback⟩ := uri?_ofLocalPath_iff hnames
  obtain ⟨u, hu, hdenotes⟩ := hiff.2 hpath
  exact ⟨hnames, u, hu, hdenotes, hback u hu hdenotes⟩

/-- A number sign in a name starts a fragment, and a bracket leaves a path without an address. -/
theorem signs_left_in_address :
    AreNames ["p".toList, "a#b".toList] ∧
      (ofLocalPath "/p/a#b".toList).uri? = some "file:///p/a#b".toList ∧
      Reference.fragment? "file:///p/a#b".toList = some "b".toList ∧
      Percent.decode (Reference.path "file:///p/a#b".toList) = "/p/a".toList ∧
      AreNames ["p".toList, "a[1].rs".toList] ∧
      (ofLocalPath "/p/a[1].rs".toList).uri? = none := by
  decide

end FileKey

end LanguageServer
