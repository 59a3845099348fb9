import LanguageServer.Proofs.Query.Occurrences
import LanguageServer.Proofs.Uri.LocalPaths
import LanguageServer.Proofs.Workspace.Rebuild

/-!
# Paths below a directory

A file lies below a directory if its key starts with that of the directory and goes on with a slash
or not at all. That is, with a slash behind both, the one key starts with the other (`isUnder_iff`).
Escapes do not get in the way, as they can be taken back on both sides
(`escapePercent_isPrefix_iff`), and no name goes past its slash, so the names are compared one by
one (`terminated_isPrefix_iff`). So the keys tell the same as the segments of the paths
(`isUnder_iff_isPrefix`), also if one name goes on where another one ends.
-/

namespace LanguageServer

namespace Text

theorem dropHead?_eq_some_iff {t head rest : Text} :
    dropHead? t head = some rest ↔ t = head ++ rest := by
  induction head generalizing t with
  | nil => simp [dropHead?]
  | cons c head ih =>
      cases t with
      | nil => simp [dropHead?]
      | cons d t =>
          rw [dropHead?, List.cons_append, List.cons.injEq]
          split
          · next heq => rw [ih, and_iff_right heq]
          · next hne => exact iff_of_false nofun fun h => hne h.1

end Text

namespace FileKey

/-! ### Keys that start with a key -/

theorem isUnder_iff {k ancestor : FileKey} :
    k.isUnder ancestor = true ↔ ancestor.text ++ ['/'] <+: k.text ++ ['/'] := by
  rw [List.prefix_concat_iff, List.append_left_inj]
  constructor
  · intro h
    rw [isUnder] at h
    split at h
    · next heq => exact .inl (by rw [Text.dropHead?_eq_some_iff.1 heq, List.append_nil])
    · next rest heq =>
        rw [Text.dropHead?_eq_some_iff.1 heq, List.append_cons]
        exact .inr (List.prefix_append _ rest)
    · cases h
  · rintro (heq | ⟨rest, hrest⟩)
    · rw [isUnder, Text.dropHead?_eq_some_iff.2 (heq.symm.trans (List.append_nil _).symm)]
    · rw [List.append_assoc] at hrest
      rw [isUnder, Text.dropHead?_eq_some_iff.2 hrest.symm]
      rfl

theorem escapePercent_isPrefix_iff {s t : Text} :
    escapePercent s <+: escapePercent t ↔ s <+: t := by
  constructor
  · rintro ⟨rest, hrest⟩
    -- What is behind the escaped `s` is decoded on its own, as no escape is cut in two there.
    have hdecoded := (spells_escapePercent s).decode_append rest
    rw [hrest, decode_escapePercent] at hdecoded
    exact ⟨Percent.decode rest, hdecoded.symm⟩
  · rintro ⟨rest, rfl⟩
    exact ⟨escapePercent rest, List.flatMap_append.symm⟩

/-! ### Names one by one -/

/-- The names with a slash behind each of them. -/
def terminated (names : List Text) : Text := names.flatMap (· ++ ['/'])

theorem terminated_cons (name : Text) (names : List Text) :
    terminated (name :: names) = name ++ '/' :: terminated names :=
  List.append_assoc name ['/'] (terminated names)

theorem absolutePath_append_slash (names : List Text) :
    absolutePath names ++ ['/'] = '/' :: terminated names := by
  induction names with
  | nil => rfl
  | cons name names ih =>
      rw [terminated_cons, ← ih]
      exact congrArg ('/' :: ·) (List.append_assoc name (absolutePath names) ['/'])

/-- A name ends at the first slash, so the names on both sides have the same length. -/
theorem append_slash_isPrefix_iff {name other rest behind : Text} (hname : '/' ∉ name)
    (hother : '/' ∉ other) :
    name ++ '/' :: rest <+: other ++ '/' :: behind ↔ name = other ∧ rest <+: behind := by
  constructor
  · rintro ⟨more, hmore⟩
    rw [List.append_assoc, List.cons_append] at hmore
    have hsplit := congrArg (List.splitOn '/') hmore
    rw [List.splitOn_append_cons_self_of_not_mem hname,
      List.splitOn_append_cons_self_of_not_mem hother] at hsplit
    obtain rfl := (List.cons.inj hsplit).1
    exact ⟨rfl, more, (List.cons.inj (List.append_cancel_left hmore)).2⟩
  · rintro ⟨rfl, hrest⟩
    exact (List.prefix_append_right_inj name).2 (List.cons_prefix_cons.2 ⟨rfl, hrest⟩)

theorem terminated_isPrefix_iff {root names : List Text} (hroot : ∀ name ∈ root, '/' ∉ name)
    (hnames : ∀ name ∈ names, '/' ∉ name) :
    terminated root <+: terminated names ↔ root <+: names := by
  induction root generalizing names with
  | nil => exact iff_of_true List.nil_prefix List.nil_prefix
  | cons name root ih =>
      cases names with
      | nil =>
          rw [terminated_cons]
          simp [terminated]
      | cons other names =>
          rw [terminated_cons, terminated_cons, List.cons_prefix_cons,
            append_slash_isPrefix_iff (hroot name List.mem_cons_self)
              (hnames other List.mem_cons_self),
            ih (fun n hn => hroot n (List.mem_cons_of_mem _ hn))
              fun n hn => hnames n (List.mem_cons_of_mem _ hn)]

namespace AreSegments

variable {root names : List Text}

/-- The key of a local path starts with two slashes, and the path with another one. -/
theorem text_ofLocalPath_eq (h : AreSegments names) :
    (ofLocalPath (absolutePath names)).text = "file://".toList ++ escapePercent (absolutePath names)
    := by
  rw [h.text_ofLocalPath, h.absolutePath_eq]
  rfl

theorem isUnder_ofLocalPath_iff (hroot : AreSegments root) (h : AreSegments names) :
    (ofLocalPath (absolutePath names)).isUnder (ofLocalPath (absolutePath root)) = true ↔
      root <+: names := by
  have hslash (path : Text) : escapePercent path ++ ['/'] = escapePercent (path ++ ['/']) := by
    change escapePercent path ++ escapePercent ['/'] = _
    exact List.flatMap_append.symm
  calc (ofLocalPath (absolutePath names)).isUnder (ofLocalPath (absolutePath root)) = true
    _ ↔ escapePercent (absolutePath root ++ ['/']) <+:
          escapePercent (absolutePath names ++ ['/']) := by
        rw [isUnder_iff, hroot.text_ofLocalPath_eq, h.text_ofLocalPath_eq, List.append_assoc,
          List.append_assoc, List.prefix_append_right_inj, hslash, hslash]
    _ ↔ terminated root <+: terminated names := by
        rw [escapePercent_isPrefix_iff, absolutePath_append_slash, absolutePath_append_slash,
          List.cons_prefix_cons, and_iff_right rfl]
    _ ↔ root <+: names :=
        terminated_isPrefix_iff (fun _ => hroot.slash_not_mem) fun _ => h.slash_not_mem

end AreSegments

end FileKey

/-! ### Files of a project -/

/-- What a symbol search finds in a file is in the project if the file has been indexed with the
project and lies below its root. -/
theorem Query.inProject_of_mem_workspaceSymbols {root : FileKey} {ix : Index} {pattern : Text}
    {limit : Nat} {cancelled : Bool} {found : List SymbolMatch} {m : SymbolMatch}
    (h : Query.workspaceSymbols root ix pattern limit cancelled = .ok found) (hm : m ∈ found) :
    ∃ file, (m.location.key, file) ∈ ix ∧
      m.inProject = (file.inProject && m.location.key.isUnder root) := by
  rw [workspaceSymbols] at h
  split at h
  · cases h
  · obtain rfl := Except.ok.inj h
    obtain ⟨⟨key, file⟩, hfile, hmatch⟩ := List.mem_flatMap.1 (List.mem_of_mem_take hm)
    obtain ⟨d, -, hd⟩ := List.mem_filterMap.1 hmatch
    obtain ⟨weight, -, rfl⟩ := Option.map_eq_some_iff.1 hd
    exact ⟨file, mem_files.1 hfile, rfl⟩

namespace FileKey

/-- A local path lies below another one, as their keys tell it, if its segments go on from those of
the other one. So it is with the files that are read for a project and with what is found in them.
-/
theorem isUnder_iff_isPrefix {root names : List Text} (hroot : AreSegments root)
    (h : AreSegments names) :
    ((ofLocalPath (absolutePath names)).isUnder (ofLocalPath (absolutePath root)) = true ↔
      root <+: names) ∧
    ∀ p : Project, p.root = ofLocalPath (absolutePath root) →
      (∀ disk text, p.editors.get? (ofLocalPath (absolutePath names)) = none →
        disk.source? (absolutePath names) = some text →
        Keyed.get? (p.rescan disk (ofLocalPath (absolutePath names)) (absolutePath names)).1.index
            (ofLocalPath (absolutePath names)) =
          some (.ofText text (decide (root <+: names)))) ∧
      ∀ pattern limit cancelled found,
        Query.workspaceSymbols p.root p.index pattern limit cancelled = .ok found →
        ∀ m ∈ found, m.location.key = ofLocalPath (absolutePath names) →
          ∃ file, (m.location.key, file) ∈ p.index ∧
            m.inProject = (file.inProject && decide (root <+: names)) := by
  have hunder := hroot.isUnder_ofLocalPath_iff h
  have hdecide : (ofLocalPath (absolutePath names)).isUnder (ofLocalPath (absolutePath root))
      = decide (root <+: names) := Bool.eq_iff_iff.2 (hunder.trans decide_eq_true_iff.symm)
  refine ⟨hunder, fun p hp => ⟨fun disk text hclosed hsource => ?_, ?_⟩⟩
  · rw [Project.get?_rescan hclosed, if_pos rfl, hsource, hp, hdecide, Option.map_some]
  · intro pattern limit cancelled found hfound m hm hkey
    obtain ⟨file, hfile, hflag⟩ := Query.inProject_of_mem_workspaceSymbols hfound hm
    rw [hkey, hp, hdecide] at hflag
    exact ⟨file, hfile, hflag⟩

/-- A percent sign is a character like any other, and a longer name is another name. -/
theorem isUnder_iff_isPrefix_longer_name :
    let root := ofLocalPath "/p/50%41".toList
    let inside := ofLocalPath "/p/50%41/é.rs".toList
    let beside := ofLocalPath "/p/50%41x/é.rs".toList
    let disk : FileTree := ⟨[(["p".toList], .directory),
      (["p".toList, "50%41x".toList], .directory),
      (["p".toList, "50%41x".toList, "é.rs".toList], .file (.text "x".toList) true)]⟩
    let p := Project.ofDirectory disk ["/p".toList] root "/p/50%41".toList
    AreSegments ["p".toList, "50%41".toList] ∧
      inside.isUnder root = true ∧ beside.isUnder root = false ∧
      Keyed.get? (p.rescan disk beside "/p/50%41x/é.rs".toList).1.index beside =
        some (.ofText "x".toList false) := by
  intro root inside beside disk p
  have hroot : AreSegments ["p".toList, "50%41".toList] := by decide
  have hinside : AreSegments ["p".toList, "50%41".toList, "é.rs".toList] := by decide
  have hbeside : AreSegments ["p".toList, "50%41x".toList, "é.rs".toList] := by decide
  obtain ⟨hother, hproject⟩ := isUnder_iff_isPrefix hroot hbeside
  refine ⟨hroot, (isUnder_iff_isPrefix hroot hinside).1.2 (by decide),
    Bool.eq_false_iff.2 fun h => absurd (hother.1 h) (by decide), ?_⟩
  exact (hproject p rfl).1 disk "x".toList rfl (by decide)

end FileKey

end LanguageServer
