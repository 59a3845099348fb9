import LanguageServer.Proofs.Uri.LocalAddresses

/-!
# Keys of local paths

The address of a local path has its segments escaped, and in its key nothing of them is escaped but
their percent signs (`AreSegments.text_ofLocalPath`). From the key the path is read back
(`localPath_round_trip`), also when a segment looks like an escape. Two dots are a segment like any
other: neither the address nor the key resolves them.
-/

namespace LanguageServer

namespace FileKey

/-! ### Absolute paths -/

/-- Segments of an absolute path: there is one, none is empty, means the same directory or has a
separator in it, and the first one does not start with a drive. -/
structure AreSegments (names : List Text) : Prop where
  ne_nil : names ≠ []
  name_ne_nil : ∀ name ∈ names, name ≠ []
  separator : ∀ name ∈ names, ∀ c ∈ name, isSeparator c = false
  dot : ∀ name ∈ names, name ≠ ['.']
  drive : hasDrive (names.headD []) = false

instance (names : List Text) : Decidable (AreSegments names) :=
  decidable_of_iff (names ≠ [] ∧ (∀ name ∈ names, name ≠ []) ∧
      (∀ name ∈ names, name.any isSeparator = false) ∧ (∀ name ∈ names, name ≠ ['.']) ∧
      hasDrive (names.headD []) = false)
    ⟨fun ⟨hne, hname, hseparator, hdot, hdrive⟩ =>
        ⟨hne, hname, fun name hmem => by simpa using hseparator name hmem, hdot, hdrive⟩,
      fun h => ⟨h.ne_nil, h.name_ne_nil, fun name hmem => by simpa using h.separator name hmem,
        h.dot, h.drive⟩⟩

/-- The absolute path along these names. -/
def absolutePath (names : List Text) : Text := names.flatMap ('/' :: ·)

/-- The path along these names from the root. -/
def relativePath (names : List Text) : Text := ['/'].intercalate names

theorem hasDrive_append_slash {t : Text} (hne : t ≠ []) (rest : Text) :
    hasDrive (t ++ '/' :: rest) = hasDrive t := by
  match t with
  | [] => exact absurd rfl hne
  | [c] => rfl
  | c :: sign :: t =>
      by_cases hsign : sign = ':'
      · subst hsign
        rfl
      · simp [hasDrive, hsign]

theorem lowerDrive_of_not_hasDrive {t : Text} (h : hasDrive t = false) : lowerDrive t = t := by
  rcases lowerDrive_cases t with ⟨d, rest, rfl, hlower⟩ | ⟨hsame, -⟩
  · rw [hlower]
    rcases toLower_cases d with ⟨hsame, -⟩ | ⟨-, hlow, hhigh⟩
    · rw [hsame]
    · have hupper : d.isUpper = true := decide_eq_true ⟨hlow, hhigh⟩
      have hletter : (d.isUpper || d.isLower) = false := h
      rw [hupper] at hletter
      cases hletter
  · exact hsame

namespace AreSegments

variable {names : List Text}

theorem absolutePath_eq (h : AreSegments names) :
    absolutePath names = '/' :: relativePath names :=
  Address.flatMap_slash h.ne_nil

theorem slash_not_mem (h : AreSegments names) {name : Text} (hname : name ∈ names) :
    '/' ∉ name := fun hmem => absurd (h.separator name hname '/' hmem) (by decide)

theorem splitOn_relativePath (h : AreSegments names) : (relativePath names).splitOn '/' = names :=
  List.splitOn_intercalate '/' (fun _ hname => h.slash_not_mem hname) h.ne_nil

theorem relativePath_ne_nil (h : AreSegments names) : relativePath names ≠ [] := by
  intro hnil
  have hsplit := h.splitOn_relativePath
  rw [hnil, List.splitOn_nil] at hsplit
  exact h.name_ne_nil [] (hsplit ▸ List.mem_singleton_self []) rfl

theorem head?_relativePath (h : AreSegments names) : (relativePath names).head? ≠ some '/' := by
  intro hhead
  obtain ⟨rest, hrest⟩ := List.head?_eq_some_iff.1 hhead
  have hsplit := h.splitOn_relativePath
  rw [hrest, ← List.nil_append ('/' :: rest), List.splitOn_append_cons_self, List.splitOn_nil]
    at hsplit
  exact h.name_ne_nil [] (hsplit ▸ List.mem_cons_self) rfl

/-- The path from the root has no backslash and does not end with a slash. -/
theorem isClean_relativePath (h : AreSegments names) : IsClean (relativePath names) := by
  constructor
  · intro hmem
    have habsolute : '\\' ∈ absolutePath names :=
      h.absolutePath_eq ▸ List.mem_cons_of_mem '/' hmem
    obtain ⟨name, hname, hc⟩ := List.mem_flatMap.1 habsolute
    rcases List.mem_cons.1 hc with hc | hc
    · cases hc
    · exact absurd (h.separator name hname '\\' hc) (by decide)
  · intro hlast
    obtain ⟨init, hinit⟩ := List.getLast?_eq_some_iff.1 hlast
    have hsplit := h.splitOn_relativePath
    rw [hinit, List.splitOn_append_cons_self, List.splitOn_nil] at hsplit
    exact h.name_ne_nil [] (hsplit ▸ List.mem_append_right _ List.mem_cons_self) rfl

theorem hasDrive_relativePath (h : AreSegments names) : hasDrive (relativePath names) = false := by
  obtain ⟨first, others, rfl⟩ := List.exists_cons_of_ne_nil h.ne_nil
  have hpath : relativePath (first :: others) = first ++ absolutePath others :=
    (List.cons.inj h.absolutePath_eq).2.symm
  rw [hpath]
  cases others with
  | nil => exact (congrArg hasDrive (List.append_nil first)).trans h.drive
  | cons next others =>
      change hasDrive (first ++ '/' :: (next ++ absolutePath others)) = false
      rw [hasDrive_append_slash (h.name_ne_nil first List.mem_cons_self)]
      exact h.drive

theorem lowerDrive_relativePath (h : AreSegments names) :
    lowerDrive (relativePath names) = relativePath names :=
  lowerDrive_of_not_hasDrive h.hasDrive_relativePath

end AreSegments

/-! ### Keys of escaped paths -/

theorem isScheme_file : IsScheme "file".toList :=
  ⟨⟨'f', 'i', ['l', 'e'], rfl, rfl⟩, List.all_eq_true.1 rfl⟩

variable {p : Char → Bool} {t : Text}

theorem isClean_encode (h : IsClean t) : IsClean (Percent.encode p t) := by
  constructor
  · intro hmem
    rcases Percent.mem_encode hmem with ⟨hmem, -⟩ | hmem
    · exact h.no_backslash hmem
    · exact absurd hmem (by decide)
  · rcases List.eq_nil_or_concat t with rfl | ⟨init, last, rfl⟩
    · nofun
    · intro hlast
      rw [List.concat_eq_append, Percent.encode_append, Percent.encode_singleton,
        List.getLast?_append_of_ne_nil _ (Percent.encodeOne_ne_nil last)] at hlast
      rcases Percent.mem_encodeOne (List.mem_of_getLast? hlast) with ⟨rfl, -⟩ | hmem
      · exact h.last_ne (by rw [List.concat_eq_append, List.getLast?_concat])
      · exact absurd hmem (by decide)

/-- However the characters of a path are escaped, its key is the same. -/
theorem normalize_encode (hpercent : p '%' = true) (hslash : p '/' = false) (hclean : IsClean t)
    (hhead : t.head? ≠ some '/') (hne : t ≠ []) :
    normalize ("file:///".toList ++ Percent.encode p t)
      = keyText "file".toList (lowerDrive t) := by
  have hencoded := isClean_encode (p := p) hclean
  have hcleaned : IsClean ("file:///".toList ++ Percent.encode p t) := by
    refine ⟨fun hmem => ?_, fun hlast => ?_⟩
    · rcases List.mem_append.1 hmem with hmem | hmem
      · exact absurd hmem (by decide)
      · exact hencoded.no_backslash hmem
    · rw [List.getLast?_append_of_ne_nil _ (Percent.encode_ne_nil hne)] at hlast
      exact hencoded.last_ne hlast
  have hsplit : splitScheme? (cleanSlashes ("file:///".toList ++ Percent.encode p t))
      = some ("file".toList, Percent.encode p t) := by
    rw [cleanSlashes_of_isClean hcleaned]
    refine splitScheme?_eq_some_iff.2 ⟨isScheme_file, '/' :: '/' :: Percent.encode p t, rfl, ?_⟩
    change _ = (Percent.encode p t).dropWhile (· == '/')
    rw [Percent.dropWhile_encode hslash, Text.dropWhile_eq_self hhead]
  rw [normalize_of_split hsplit, (Percent.spells_encode hpercent t).decode_eq,
    cleanSlashes_of_isClean hclean]

/-- The key of a local path: nothing of the path is escaped but its percent signs. -/
theorem AreSegments.text_ofLocalPath {names : List Text} (h : AreSegments names) :
    (ofLocalPath (absolutePath names)).text = keyText "file".toList (relativePath names) := by
  have hcomponents : components (absolutePath names) = names := by
    rw [components, h.absolutePath_eq, ← List.nil_append ('/' :: relativePath names),
      List.splitOn_append_cons_self_of_not_mem List.not_mem_nil, h.splitOn_relativePath,
      List.filter_cons_of_neg (by decide)]
    refine List.filter_eq_self.2 fun name hname => ?_
    simp [h.name_ne_nil name hname, h.dot name hname]
  have haddress : fileAddress (absolutePath names) = "file:///".toList
      ++ Percent.encode (fun c => c != '/' && escapedInComponent c) (relativePath names) := by
    have hescaped : ∀ name ∈ names, Percent.encode escapedInComponent name
        = Percent.encode (fun c => c != '/' && escapedInComponent c) name := by
      refine fun name hname => Percent.encode_congr fun c hc => ?_
      have hne : c ≠ '/' := by
        rintro rfl
        exact h.slash_not_mem hname hc
      rw [bne_iff_ne.2 hne, Bool.true_and]
    have hencoded := Percent.encode_flatMap_cons
      (p := fun c => c != '/' && escapedInComponent c) (c := '/') rfl names
    rw [List.flatMap_map] at hencoded
    rw [fileAddress, hcomponents]
    split
    · exact absurd rfl h.ne_nil
    · rw [List.flatMap_congr fun name hname => congrArg ('/' :: ·) (hescaped name hname),
        ← hencoded]
      change _ ++ Percent.encode _ (absolutePath names) = _
      rw [h.absolutePath_eq, Percent.encode_cons_of_not rfl]
      rfl
  rw [h.absolutePath_eq] at haddress ⊢
  rw [ofLocalPath, haddress, normalize_encode (by decide) (by decide) h.isClean_relativePath
    h.head?_relativePath h.relativePath_ne_nil, h.lowerDrive_relativePath]

/-! ### Reading a path back -/

theorem unescapePercent_escapePercent (t : Text) : unescapePercent (escapePercent t) = t := by
  rw [unescapePercent]
  split
  · exact decode_escapePercent t
  · next hmem =>
      refine (List.flatMap_congr fun c hc => if_neg ?_).trans (List.flatMap_singleton' t)
      rintro rfl
      exact hmem (List.contains_iff_mem.2 (List.mem_flatMap.2 ⟨'%', hc, List.mem_cons_self⟩))

namespace AreSegments

variable {names : List Text}

theorem localPath?_ofLocalPath (h : AreSegments names) :
    (ofLocalPath (absolutePath names)).localPath? = some (absolutePath names) := by
  have hsplit := splitScheme?_keyText isScheme_file (relativePath names)
  rw [Text.dropWhile_eq_self h.head?_relativePath, ← h.text_ofLocalPath] at hsplit
  simp only [localPath?, hsplit, if_true, unescapePercent_escapePercent, h.hasDrive_relativePath,
    Bool.false_eq_true, if_false]
  rw [h.absolutePath_eq]

theorem ofUri_text_ofLocalPath (h : AreSegments names) :
    ofUri (ofLocalPath (absolutePath names)).text = ofLocalPath (absolutePath names) := by
  rw [ofUri, mk.injEq, h.text_ofLocalPath,
    normalize_keyText_eq_iff isScheme_file h.isClean_relativePath h.lowerDrive_relativePath, not_or]
  exact ⟨h.relativePath_ne_nil, h.head?_relativePath⟩

/-- Behind the last slash of the key there is the last segment of the path. -/
theorem lastSegment_ofLocalPath (h : AreSegments names) {last : Text}
    (hlast : names.getLast? = some last) (hmark : '!' ∉ last) :
    (ofLocalPath (absolutePath names)).lastSegment = escapePercent last := by
  obtain ⟨init, rfl⟩ := List.getLast?_eq_some_iff.1 hlast
  have hslash : '/' ∉ last := h.slash_not_mem (List.mem_append_right init List.mem_cons_self)
  have htext : (ofLocalPath (absolutePath (init ++ [last]))).text
      = "file://".toList ++ escapePercent (absolutePath init) ++ ['/'] ++ escapePercent last := by
    have hkey : keyText "file".toList (relativePath (init ++ [last]))
        = "file://".toList ++ escapePercent ('/' :: relativePath (init ++ [last])) := rfl
    rw [h.text_ofLocalPath, hkey, ← h.absolutePath_eq]
    simp [absolutePath, escapePercent]
  rw [lastSegment, htext]
  refine Text.takeEndWhile_append (fun c hc => ?_) fun c hc => ?_
  · rw [List.getLast?_concat] at hc
    cases hc
    rfl
  · rw [Bool.and_eq_true, bne_iff_ne, bne_iff_ne]
    constructor <;> rintro rfl
    · exact hslash (mem_escapePercent hc (by decide))
    · exact hmark (mem_escapePercent hc (by decide))

theorem fileName?_ofLocalPath (h : AreSegments names) {last : Text}
    (hlast : names.getLast? = some last) (hmark : '!' ∉ last) (hcolon : last.getLast? ≠ some ':') :
    (ofLocalPath (absolutePath names)).fileName? = some last := by
  have hne : escapePercent last ≠ [] :=
    mt (escapePercent_eq_nil_iff last).1 (h.name_ne_nil last (List.mem_of_getLast? hlast))
  have hend : (escapePercent last).getLast? ≠ some ':' := fun hc =>
    hcolon (getLast?_escapePercent hc (by decide))
  rw [fileName?, h.lastSegment_ofLocalPath hlast hmark]
  simp only [List.isEmpty_iff, hne, hend, Bool.or_eq_true, decide_eq_true_eq, or_self, if_false,
    unescapePercent_escapePercent]

end AreSegments

/-- A local path is read back from its key, the key is found again from its own text, and the name
of the file is the last segment, unless an exclamation mark in it counts as a separator or a colon
at its end makes it a drive. So different paths have different keys. -/
theorem localPath_round_trip {names : List Text} (h : AreSegments names) :
    (ofLocalPath (absolutePath names)).localPath? = some (absolutePath names) ∧
      ofUri (ofLocalPath (absolutePath names)).text = ofLocalPath (absolutePath names) ∧
      (∀ last, names.getLast? = some last → '!' ∉ last → last.getLast? ≠ some ':' →
        (ofLocalPath (absolutePath names)).fileName? = some last) ∧
      ∀ names', AreSegments names' →
        ofLocalPath (absolutePath names) = ofLocalPath (absolutePath names') →
        absolutePath names = absolutePath names' := by
  refine ⟨h.localPath?_ofLocalPath, h.ofUri_text_ofLocalPath, fun last hlast hmark hcolon =>
    h.fileName?_ofLocalPath hlast hmark hcolon, fun names' h' hkey => ?_⟩
  have hpath := h.localPath?_ofLocalPath
  rw [hkey, h'.localPath?_ofLocalPath] at hpath
  exact (Option.some.inj hpath).symm

/-- Neither two dots nor what looks like an escape is changed. -/
theorem localPath_round_trip_escape_in_name :
    AreSegments ["..".toList, "50%41é.txt".toList] ∧
      (ofLocalPath "/../50%41é.txt".toList).localPath? = some "/../50%41é.txt".toList ∧
      ofUri (ofLocalPath "/../50%41é.txt".toList).text = ofLocalPath "/../50%41é.txt".toList ∧
      (ofLocalPath "/../50%41é.txt".toList).fileName? = some "50%41é.txt".toList ∧
      ofLocalPath "/../50%41é.txt".toList ≠ ofLocalPath "/../50Aé.txt".toList := by
  have hnames : AreSegments ["..".toList, "50%41é.txt".toList] := by decide
  have hother : AreSegments ["..".toList, "50Aé.txt".toList] := by decide
  have hescape : absolutePath ["..".toList, "50%41é.txt".toList] = "/../50%41é.txt".toList := rfl
  have hletter : absolutePath ["..".toList, "50Aé.txt".toList] = "/../50Aé.txt".toList := rfl
  obtain ⟨hpath, hagain, hname, hkeys⟩ := localPath_round_trip hnames
  have hdiff := hkeys _ hother
  rw [hescape] at hpath hagain hname hdiff
  rw [hletter] at hdiff
  exact ⟨hnames, hpath, hagain, hname _ rfl (by decide) (by decide),
    fun hkey => absurd (hdiff hkey) (by decide)⟩

end FileKey

end LanguageServer
