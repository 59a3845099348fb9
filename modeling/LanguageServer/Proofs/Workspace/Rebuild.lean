import LanguageServer.Proofs.Workspace.Buffers

/-!
# Reading files again and building the index anew

An index that is built has, under the key of a file that is not open, what the tree of files lists
there (`FileTree.listed?`). Reading some keys again replaces what the index has under the keys of
the files that are read (`FileTree.reread?`) and leaves the rest as it was. So the two agree exactly
if, under every key, what was put there or else what was listed before is what is listed now.

They need not agree. A directory that has gone is read as the one file that it is not, and nothing
below it; and whatever is read is put in, be it one that a new index leaves out or a file of a
library.
-/

namespace LanguageServer

theorem Keyed.get?_append {α : Type} (values more : Keyed α) (key : FileKey) :
    Keyed.get? (values ++ more) key = (values.get? key).or (more.get? key) := by
  rw [get?, get?, get?, List.find?_append]
  cases List.find? (·.1 = key) values <;> rfl

namespace FileTree

/-- Sources under the keys of their paths. -/
def keyed (sources : List (Text × Text)) : Keyed Text :=
  sources.map fun (path, text) => (.ofLocalPath path, text)

/-- What is listed under a key: the last source of a library with that key, or else the last one of
the project. -/
def listed? (t : FileTree) (directory : Text) (libraries : List Text) (key : FileKey) :
    Option IndexedFile :=
  ((Keyed.get? (keyed (libraries.flatMap t.sources)).reverse key).map (.ofText · false)).or
    ((Keyed.get? (keyed (t.sources directory)).reverse key).map (.ofText · true))

/-- The files that are read again for a key: the sources of a directory, or else the file itself. -/
def rereads (t : FileTree) (key : FileKey) : Keyed Text :=
  match key.localPath? with
  | none => []
  | some path =>
    if t.isDirectory path then (t.sources path).map fun (child, _) => (.ofLocalPath child, child)
    else [(key, path)]

/-- What is put under a key when some keys are read again: nothing in place of what cannot be
indexed. There is none if the key is not among those that are read. -/
def reread? (t : FileTree) (root : FileKey) (keys : List FileKey) (key : FileKey) :
    Option (Option IndexedFile) :=
  (Keyed.get? (keys.flatMap t.rereads).reverse key).map fun path =>
    (t.source? path).map (.ofText · (key.isUnder root))

end FileTree

namespace Index

theorem get?_foldl_sources (sources : List (Text × Text)) (inProject : Bool) (ix : Index)
    (key : FileKey) :
    Keyed.get? (sources.foldl
        (fun ix source => update ix (.ofLocalPath source.1) source.2 inProject) ix) key =
      ((Keyed.get? (FileTree.keyed sources).reverse key).map (.ofText · inProject)).or
        (Keyed.get? ix key) := by
  induction sources generalizing ix with
  | nil => rfl
  | cons source rest ih =>
      obtain ⟨path, text⟩ := source
      have hkeyed : FileTree.keyed ((path, text) :: rest)
          = (.ofLocalPath path, text) :: FileTree.keyed rest := rfl
      rw [List.foldl_cons, ih, get?_update, hkeyed, List.reverse_cons, Keyed.get?_append,
        Keyed.get?_cons, Keyed.get?_nil]
      cases Keyed.get? (FileTree.keyed rest).reverse key with
      | some text => rfl
      | none => split <;> rfl

theorem get?_build_listed (disk : FileTree) (directory : Text) (libraries : List Text)
    (key : FileKey) :
    Keyed.get? (build disk directory libraries []) key = disk.listed? directory libraries key := by
  rw [build, List.foldl_nil, get?_foldl_sources, get?_foldl_sources, Keyed.get?_nil, Option.or_none]
  rfl

end Index

namespace Project

variable {p : Project} {key : FileKey}

/-- Reads some files and directories again. -/
def refreshAll (p : Project) (disk : FileTree) (keys : List FileKey) : Project :=
  keys.foldl (fun p key => (p.refresh disk key).1) p

/-- Reads files again, one after the other. -/
def rescanAll (p : Project) (disk : FileTree) (files : Keyed Text) : Project :=
  files.foldl (fun p file => (p.rescan disk file.1 file.2).1) p

theorem refresh_eq_rescanAll (p : Project) (disk : FileTree) (key : FileKey) :
    (p.refresh disk key).1 = p.rescanAll disk (disk.rereads key) := by
  rw [refresh, FileTree.rereads]
  cases key.localPath? with
  | none => rfl
  | some path =>
      cases hdirectory : disk.isDirectory path with
      | true =>
          simp only [hdirectory, if_true, rescanAll, List.foldl_map]
      | false =>
          simp only [hdirectory]
          rfl

theorem refreshAll_eq_rescanAll (p : Project) (disk : FileTree) (keys : List FileKey) :
    p.refreshAll disk keys = p.rescanAll disk (keys.flatMap disk.rereads) := by
  induction keys generalizing p with
  | nil => rfl
  | cons key keys ih =>
      rw [refreshAll, List.foldl_cons, ← refreshAll, ih, refresh_eq_rescanAll, List.flatMap_cons]
      exact (List.foldl_append ..).symm

theorem get?_rescan (hclosed : p.editors.get? key = none) (disk : FileTree) (other : FileKey)
    (path : Text) :
    Keyed.get? (p.rescan disk other path).1.index key =
      if other = key then (disk.source? path).map (.ofText · (key.isUnder p.root))
      else Keyed.get? p.index key := by
  rw [rescan]
  split
  · next hopen =>
      have hne : other ≠ key := by
        rintro rfl
        rw [hclosed] at hopen
        cases hopen
      rw [if_neg hne]
  · cases hsource : disk.source? path with
    | some text =>
        dsimp only
        rw [Index.get?_update]
        split
        · next heq =>
            subst heq
            rfl
        · rfl
    | none =>
        dsimp only
        rw [Keyed.get?_erase]
        rfl

theorem get?_rescanAll (hclosed : p.editors.get? key = none) (disk : FileTree)
    (files : Keyed Text) :
    Keyed.get? (p.rescanAll disk files).index key =
      ((Keyed.get? files.reverse key).map fun path =>
        (disk.source? path).map (.ofText · (key.isUnder p.root))).getD
          (Keyed.get? p.index key) := by
  induction files generalizing p with
  | nil => rfl
  | cons file rest ih =>
      obtain ⟨other, path⟩ := file
      have hsame := p.rescan_eq disk other path
      have hread := get?_rescan hclosed disk other path
      rw [rescanAll, List.foldl_cons, ← rescanAll]
      generalize (p.rescan disk other path).1 = p₁ at hsame hread ⊢
      have hrest := @ih p₁ (by rw [hsame]; exact hclosed)
      rw [hrest, hread, List.reverse_cons, Keyed.get?_append, Keyed.get?_cons, Keyed.get?_nil,
        hsame]
      cases Keyed.get? (List.reverse rest) key with
      | some path => rfl
      | none => split <;> rfl

theorem refreshAll_eq (p : Project) (disk : FileTree) (keys : List FileKey) :
    ∃ index, p.refreshAll disk keys = { p with index } := by
  induction keys generalizing p with
  | nil => exact ⟨p.index, rfl⟩
  | cons key keys ih =>
      obtain ⟨index, hindex⟩ := p.refresh_eq disk key
      obtain ⟨index', hindex'⟩ := ih (p.refresh disk key).1
      refine ⟨index', ?_⟩
      rw [refreshAll, List.foldl_cons, ← refreshAll, hindex', hindex]

theorem upkeep_refreshAll {gone : FileKey → Prop} (p : Project) (disk : FileTree)
    (keys : List FileKey) : Upkeep gone p (p.refreshAll disk keys) :=
  List.foldlRecOn (motive := (Upkeep gone p ·)) keys _ (.refl p)
    fun q hq key _ => hq.trans (q.upkeep_refresh disk key)

/-- When keys are read again after the files have changed, the index is the one that would be built
exactly if what was put under each key, or else what had been listed there, is listed there now.
Only the keys of open files do not matter. -/
theorem index_refreshAll_eq_build_iff {before disk : FileTree} {libraries : List Text}
    (hsorted : p.editors.Sorted)
    (hbuilt : p.index = .build before p.directory libraries p.editors) (keys : List FileKey) :
    (p.refreshAll disk keys).index = .build disk p.directory libraries p.editors ↔
      ∀ key, p.editors.get? key = none →
        disk.listed? p.directory libraries key =
          (disk.reread? p.root keys key).getD (before.listed? p.directory libraries key) := by
  have hcoherent := p.coherent_of_build hsorted hbuilt
  have hkept : Upkeep (fun _ => False) p (p.refreshAll disk keys) := p.upkeep_refreshAll disk keys
  have hrefreshed := hkept.coherent hcoherent
  have hclosed : ∀ key, p.editors.get? key = none →
      Keyed.get? (p.refreshAll disk keys).index key
        = (disk.reread? p.root keys key).getD (before.listed? p.directory libraries key) := by
    intro key hkey
    rw [refreshAll_eq_rescanAll, get?_rescanAll hkey, hbuilt, Index.get?_build hsorted, hkey,
      Index.get?_build_listed]
    rfl
  have hlisted : ∀ key, p.editors.get? key = none →
      Keyed.get? (Index.build disk p.directory libraries p.editors) key
        = disk.listed? p.directory libraries key := by
    intro key hkey
    rw [Index.get?_build hsorted, hkey, Index.get?_build_listed]
    rfl
  constructor
  · intro heq key hkey
    rw [← hclosed key hkey, ← hlisted key hkey, heq]
  · intro hsame
    refine hrefreshed.index.ext (Index.sorted_build ..) fun key => ?_
    cases hkey : p.editors.get? key with
    | none => rw [hclosed key hkey, hlisted key hkey, hsame key hkey]
    | some editor =>
        obtain ⟨index, hindex⟩ := p.refreshAll_eq disk keys
        have hopen : (p.refreshAll disk keys).editors.get? key = some editor := by
          rw [hindex]
          exact hkey
        rw [hrefreshed.buffers key editor hopen, Index.get?_build hsorted, hkey]
        rfl

end Project

end LanguageServer
