import LanguageServer.Proofs.Workspace.Rebuild
import LanguageServer.Proofs.Workspace.Steady

/-!
# Projects with different files open

Of two projects the one may have more files open than the other and show the same otherwise
(`Project.Kin`). What is open there besides makes no difference as long as it is expected here: the
index has the text of that editor already, and whenever the file is read, that text is found
(`Project.Expects`). Then whatever is done in both projects leaves them like that
(`Project.Alike`). Where the carets stand is left out of account.
-/

namespace LanguageServer

/-- All that an editor holds but its caret. -/
def Editor.content (e : Editor) : Text × Bool := (e.text, e.writable)

namespace Project

variable {p p' q : Project} {disk : FileTree} {libraries : List Text} {key : FileKey}

/-- The projects show the same, and the first has the editors of the second and maybe more. -/
structure Kin (p p' : Project) : Prop where
  sources : p.toSources = p'.toSources
  isOpen : p.isOpen = p'.isOpen
  listeners : p.listeners = p'.listeners
  nextSubscription : p.nextSubscription = p'.nextSubscription
  coherent : p.Coherent
  coherent' : p'.Coherent
  editors : ∀ key e', p'.editors.get? key = some e' →
    ∃ e, p.editors.get? key = some e ∧ e.content = e'.content

/-- An editor would be no news: the index has its text, and so does whoever reads the file, be it to
open it, to build the index anew, or to put it into the index again. -/
structure Expects (p : Project) (disk : FileTree) (libraries : List Text) (key : FileKey)
    (e : Editor) : Prop where
  indexed : Keyed.get? p.index key = some (.ofText e.text true)
  read : key.localPath?.map disk.readText = some (.ok e.content)
  rebuilt : disk.listed? p.directory libraries key = some (.ofText e.text true)
  reread : ∀ k file, disk.reread? p.root [k] key = some file → file = some (.ofText e.text true)

/-- The first project has nothing open besides that the second does not expect. -/
structure Alike (disk : FileTree) (libraries : List Text) (p p' : Project) : Prop
    extends Kin p p' where
  expected : ∀ key e, p.editors.get? key = some e → p'.editors.get? key = none →
    p'.Expects disk libraries key e

/-! ### What keeps a project coherent -/

namespace Coherent

theorem setEditor (h : p.Coherent) (key : FileKey) (e : Editor) : (p.setEditor key e).Coherent :=
  have hkept : Upkeep (fun _ => False) p (p.setEditor key e) := p.upkeep_setEditor key e
  hkept.coherent h

theorem refresh (h : p.Coherent) (disk : FileTree) (k : FileKey) :
    (p.refresh disk k).1.Coherent :=
  have hkept : Upkeep (fun _ => False) p (p.refresh disk k).1 := p.upkeep_refresh disk k
  hkept.coherent h

theorem moveCaret (h : p.Coherent) (key : FileKey) (offset : Nat) :
    (p.moveCaret key offset).Coherent :=
  have hkept : Upkeep (fun _ => False) p (p.moveCaret key offset) := p.upkeep_moveCaret key offset
  hkept.coherent h

end Coherent

/-! ### Kin -/

namespace Kin

theorem refl (h : p.Coherent) : Kin p p :=
  ⟨rfl, rfl, rfl, rfl, h, h, fun _ e he => ⟨e, he, rfl⟩⟩

theorem root (h : Kin p p') : p.root = p'.root := congrArg Sources.root h.sources

theorem directory (h : Kin p p') : p.directory = p'.directory :=
  congrArg Sources.directory h.sources

theorem index (h : Kin p p') : p.index = p'.index := congrArg Sources.index h.sources

theorem get?_none (h : Kin p p') (hkey : p.editors.get? key = none) :
    p'.editors.get? key = none := by
  cases hkey' : p'.editors.get? key with
  | none => rfl
  | some e' =>
      obtain ⟨e, he, -⟩ := h.editors key e' hkey'
      cases hkey.symm.trans he

/-- Other indexes and editors, both as they should be. -/
theorem change (h : Kin p p') {index index' : Index} {editors editors' : Keyed Editor}
    (hp : Coherent { p with index, editors })
    (hp' : Coherent { p' with index := index', editors := editors' })
    (hindex : ∀ key, Keyed.get? index key = Keyed.get? index' key)
    (heditors : ∀ key e', editors'.get? key = some e' →
      ∃ e, editors.get? key = some e ∧ e.content = e'.content) :
    Kin { p with index, editors } { p' with index := index', editors := editors' } := by
  obtain rfl : index = index' := hp.index.ext hp'.index hindex
  refine ⟨?_, h.isOpen, h.listeners, h.nextSubscription, hp, hp', heditors⟩
  rw [h.root, h.directory]

end Kin

namespace Expects

variable {e e' : Editor}

theorem mono (h : p.Expects disk libraries key e) (hroot : q.root = p.root)
    (hdirectory : q.directory = p.directory)
    (hindex : Keyed.get? q.index key = some (.ofText e.text true)) :
    q.Expects disk libraries key e :=
  ⟨hindex, h.read, hdirectory ▸ h.rebuilt, hroot ▸ h.reread⟩

theorem congr (h : p.Expects disk libraries key e) (hcontent : e.content = e'.content) :
    p.Expects disk libraries key e' := by
  have htext : e.text = e'.text := congrArg Prod.fst hcontent
  exact ⟨htext ▸ h.indexed, hcontent ▸ h.read, htext ▸ h.rebuilt, htext ▸ h.reread⟩

/-- A file that is read again goes into the index with the same text. -/
theorem closed (h : p.Expects disk libraries key e) :
    (key.localPath?.map fun path =>
      (disk.source? path).map (IndexedFile.ofText · (key.isUnder p.root)))
        = some (some (.ofText e.text true)) := by
  cases hpath : key.localPath? with
  | none =>
      have hread := h.read
      rw [hpath] at hread
      cases hread
  | some path =>
      have hread := h.read
      rw [hpath, Option.map_some, Option.some.injEq] at hread
      have hdirectory : disk.isDirectory path = false := by
        rw [FileTree.readText] at hread
        rw [FileTree.isDirectory]
        generalize disk.follow path = found at hread ⊢
        rcases found with _ | ⟨place, _ | _⟩
        · rfl
        · cases hread
        · rfl
      refine congrArg some (h.reread key _ ?_)
      rw [FileTree.reread?, List.flatMap_singleton, FileTree.rereads, hpath]
      simp [hdirectory, Keyed.get?]

end Expects

/-! ### What is done in both -/

namespace Alike

theorem refl (h : p.Coherent) : Alike disk libraries p p :=
  { toKin := .refl h, expected := fun _ _ he hnone => nomatch he.symm.trans hnone }

/-- Other indexes and editors, where nothing is open in one only but what was so before. -/
theorem change (h : Alike disk libraries p p') {index index' : Index}
    {editors editors' : Keyed Editor} (hp : Coherent { p with index, editors })
    (hp' : Coherent { p' with index := index', editors := editors' })
    (hindex : ∀ key, Keyed.get? index key = Keyed.get? index' key)
    (heditors : ∀ key e', editors'.get? key = some e' →
      ∃ e, editors.get? key = some e ∧ e.content = e'.content)
    (honly : ∀ key e, editors.get? key = some e → editors'.get? key = none →
      ∃ e₀, p.editors.get? key = some e₀ ∧ e₀.content = e.content ∧ p'.editors.get? key = none) :
    Alike disk libraries { p with index, editors }
      { p' with index := index', editors := editors' } := by
  refine { toKin := h.toKin.change hp hp' hindex heditors, expected := fun key e he hnone => ?_ }
  obtain ⟨e₀, he₀, hcontent, hnone₀⟩ := honly key e he hnone
  refine ((h.expected key e₀ he₀ hnone₀).congr hcontent).mono rfl rfl ?_
  rw [← hindex]
  exact hp.buffers key e he

theorem setEditor (h : Alike disk libraries p p') (key : FileKey) {e e' : Editor}
    (hcontent : e.content = e'.content) :
    Alike disk libraries (p.setEditor key e) (p'.setEditor key e') := by
  have htext : e.text = e'.text := congrArg Prod.fst hcontent
  have hp := h.coherent.setEditor key e
  have hp' := h.coherent'.setEditor key e'
  refine h.change hp hp' (fun other => ?_) (fun other e₁' he₁' => ?_) fun other e₁ he₁ hnone => ?_
  · rw [Index.get?_update, Index.get?_update, htext, h.index]
  · rw [Keyed.get?_insert] at he₁' ⊢
    split at he₁'
    · next hkey =>
        cases he₁'
        exact ⟨e, if_pos hkey, hcontent⟩
    · next hkey =>
        rw [if_neg hkey]
        exact h.editors other e₁' he₁'
  · rw [Keyed.get?_insert] at he₁ hnone
    split at hnone
    · cases hnone
    · next hkey =>
        rw [if_neg hkey] at he₁
        exact ⟨e₁, he₁, rfl, hnone⟩

/-- The second project opens what the first has open already. -/
theorem setEditor_right (h : Alike disk libraries p p') {e e' : Editor}
    (he : p.editors.get? key = some e) (hcontent : e.content = e'.content) :
    Alike disk libraries p (p'.setEditor key e') := by
  have htext : e.text = e'.text := congrArg Prod.fst hcontent
  have hp' := h.coherent'.setEditor key e'
  refine h.change h.coherent hp' (fun other => ?_) (fun other e₁' he₁' => ?_)
    fun other e₁ he₁ hnone => ?_
  · rw [Index.get?_update, ← htext, h.index]
    split
    · next hkey => rw [← hkey, ← h.index, h.coherent.buffers key e he]
    · rfl
  · rw [Keyed.get?_insert] at he₁'
    split at he₁'
    · next hkey =>
        cases he₁'
        exact ⟨e, hkey ▸ he, hcontent⟩
    · exact h.editors other e₁' he₁'
  · rw [Keyed.get?_insert] at hnone
    split at hnone
    · cases hnone
    · exact ⟨e₁, he₁, rfl, hnone⟩

/-- Opening a file opens it in both. -/
theorem openEditor (h : Alike disk libraries p p') (key : FileKey) :
    Alike disk libraries (p.openEditor disk key).1 (p'.openEditor disk key).1 ∧
      (p.openEditor disk key).2.1 = (p'.openEditor disk key).2.1 := by
  rw [Project.openEditor, Project.openEditor, h.isOpen]
  cases p'.isOpen with
  | false => exact ⟨h, rfl⟩
  | true =>
      simp only [Bool.not_true, Bool.false_eq_true, if_false]
      cases he' : p'.editors.get? key with
      | some e' =>
          obtain ⟨e, he, -⟩ := h.editors key e' he'
          rw [he]
          exact ⟨h, rfl⟩
      | none =>
          cases he : p.editors.get? key with
          | some e =>
              -- What is open in the first project only, the second one finds on disk.
              rw [(h.expected key e he he').read]
              exact ⟨h.setEditor_right he rfl, rfl⟩
          | none =>
              simp only [Option.isSome_none, Bool.false_eq_true, if_false]
              split
              · exact ⟨h.setEditor key rfl, rfl⟩
              · exact ⟨h, rfl⟩

theorem get?_refresh (hclosed : p.editors.get? key = none) (disk : FileTree) (k : FileKey) :
    Keyed.get? (p.refresh disk k).1.index key
      = (disk.reread? p.root [k] key).getD (Keyed.get? p.index key) := by
  rw [refresh_eq_rescanAll, get?_rescanAll hclosed, FileTree.reread?, List.flatMap_singleton]

theorem refresh (h : Alike disk libraries p p') (k : FileKey) :
    Alike disk libraries (p.refresh disk k).1 (p'.refresh disk k).1 := by
  have hp := h.coherent.refresh disk k
  have hp' := h.coherent'.refresh disk k
  have hindex : ∀ key, Keyed.get? (p.refresh disk k).1.index key
      = Keyed.get? (p'.refresh disk k).1.index key := by
    intro key
    obtain ⟨index, hfirst⟩ := p.refresh_eq disk k
    obtain ⟨index', hsecond⟩ := p'.refresh_eq disk k
    have hopen : (p.refresh disk k).1.editors = p.editors := by rw [hfirst]
    have hopen' : (p'.refresh disk k).1.editors = p'.editors := by rw [hsecond]
    cases he : p.editors.get? key with
    | none =>
        rw [get?_refresh he, get?_refresh (h.get?_none he), h.root, h.index]
    | some e =>
        rw [hp.buffers key e (hopen ▸ he)]
        cases he' : p'.editors.get? key with
        | none =>
            have hexpects := h.expected key e he he'
            rw [get?_refresh he', hexpects.indexed]
            cases hread : disk.reread? p'.root [k] key with
            | none => rfl
            | some file => rw [hexpects.reread k file hread, Option.getD_some]
        | some e' =>
            obtain ⟨e₁, he₁, hcontent⟩ := h.editors key e' he'
            cases he.symm.trans he₁
            have htext : e.text = e'.text := congrArg Prod.fst hcontent
            rw [hp'.buffers key e' (hopen' ▸ he'), htext]
  obtain ⟨index, hfirst⟩ := p.refresh_eq disk k
  obtain ⟨index', hsecond⟩ := p'.refresh_eq disk k
  rw [hfirst, hsecond] at hindex ⊢
  rw [hfirst] at hp
  rw [hsecond] at hp'
  exact h.change hp hp' hindex h.editors fun key e he hnone => ⟨e, he, rfl, hnone⟩

theorem rebuild (h : Alike disk libraries p p') :
    Alike disk libraries (p.rebuild disk libraries) (p'.rebuild disk libraries) := by
  refine h.change (h.coherent.rebuild disk libraries) (h.coherent'.rebuild disk libraries)
    (fun key => ?_) h.editors fun key e he hnone => ⟨e, he, rfl, hnone⟩
  rw [Project.collect, Project.collect, Index.get?_build h.coherent.editors,
    Index.get?_build h.coherent'.editors, h.directory]
  cases he' : p'.editors.get? key with
  | some e' =>
      obtain ⟨e, he, hcontent⟩ := h.editors key e' he'
      have htext : e.text = e'.text := congrArg Prod.fst hcontent
      rw [he, Option.map_some, Option.map_some, htext]
  | none =>
      cases he : p.editors.get? key with
      | none => rfl
      | some e =>
          rw [Index.get?_build_listed, (h.expected key e he he').rebuilt]
          rfl

end Alike

/-! ### Closing -/

/-- What the index gets for a file once its editor is closed, if the file has a path. -/
def onceClosed? (p : Project) (disk : FileTree) (key : FileKey) : Option (Option IndexedFile) :=
  key.localPath?.map fun path => (disk.source? path).map (.ofText · (key.isUnder p.root))

theorem get?_rescan_of_ne {other : FileKey} (hne : key ≠ other) (p : Project) (disk : FileTree)
    (path : Text) :
    Keyed.get? (p.rescan disk key path).1.index other = Keyed.get? p.index other := by
  rw [rescan]
  split
  · rfl
  · split
    · exact (Index.get?_update ..).trans (if_neg hne)
    · exact (Keyed.get?_erase ..).trans (if_neg hne)

theorem get?_index_closeEditor (p : Project) (disk : FileTree) (key other : FileKey) :
    Keyed.get? (p.closeEditor disk key).index other =
      if key = other ∧ (p.editors.get? other).isSome then
        (p.onceClosed? disk other).getD (Keyed.get? p.index other)
      else Keyed.get? p.index other := by
  rw [closeEditor]
  by_cases hkey : key = other
  · subst hkey
    cases he : p.editors.get? key with
    | none => simp
    | some e =>
        have hclosed : (p.editors.erase key).get? key = none := by
          rw [Keyed.get?_erase, if_pos rfl]
        simp only [Option.isNone_some, Bool.false_eq_true, if_false, Option.isSome_some, and_self,
          if_true, onceClosed?]
        cases key.localPath? with
        | none => rfl
        | some path =>
            have hread := get?_rescan (p := { p with editors := p.editors.erase key }) hclosed disk
              key path
            rw [if_pos rfl] at hread
            exact hread
  · simp only [hkey, false_and, if_false]
    split
    · rfl
    · split
      · exact get?_rescan_of_ne hkey ..
      · rfl

/-- Closes the editors of some files. -/
def closeEditors (p : Project) (disk : FileTree) (keys : List FileKey) : Project :=
  keys.foldl (·.closeEditor disk ·) p

theorem closeEditors_cons (p : Project) (disk : FileTree) (key : FileKey) (keys : List FileKey) :
    p.closeEditors disk (key :: keys) = (p.closeEditor disk key).closeEditors disk keys := rfl

theorem closeEditors_eq (p : Project) (disk : FileTree) (keys : List FileKey) :
    ∃ index editors, p.closeEditors disk keys = { p with index, editors } := by
  induction keys generalizing p with
  | nil => exact ⟨p.index, p.editors, rfl⟩
  | cons key keys ih =>
      obtain ⟨index, hclosed⟩ := p.closeEditor_eq disk key
      obtain ⟨index', editors, hrest⟩ := ih (p.closeEditor disk key)
      exact ⟨index', editors, by rw [closeEditors_cons, hrest, hclosed]⟩

theorem get?_editors_closeEditors (p : Project) (disk : FileTree) (keys : List FileKey)
    (other : FileKey) :
    (p.closeEditors disk keys).editors.get? other =
      if other ∈ keys then none else p.editors.get? other := by
  induction keys generalizing p with
  | nil => rfl
  | cons key keys ih =>
      obtain ⟨index, hclosed⟩ := p.closeEditor_eq disk key
      rw [closeEditors_cons, ih, hclosed, Keyed.get?_erase]
      by_cases hkey : key = other
      · rw [if_pos hkey, ite_self, if_pos (hkey ▸ List.mem_cons_self)]
      · simp [hkey, Ne.symm hkey]

theorem get?_index_closeEditors (p : Project) (disk : FileTree) (keys : List FileKey)
    (other : FileKey) :
    Keyed.get? (p.closeEditors disk keys).index other =
      if other ∈ keys ∧ (p.editors.get? other).isSome then
        (p.onceClosed? disk other).getD (Keyed.get? p.index other)
      else Keyed.get? p.index other := by
  induction keys generalizing p with
  | nil => simp [closeEditors]
  | cons key keys ih =>
      obtain ⟨index, hclosed⟩ := p.closeEditor_eq disk key
      have hsame : (p.closeEditor disk key).onceClosed? disk other = p.onceClosed? disk other := by
        rw [hclosed]
        rfl
      have heditors : (p.closeEditor disk key).editors.get? other
          = if key = other then none else p.editors.get? other := by
        rw [hclosed, Keyed.get?_erase]
      rw [closeEditors_cons, ih, hsame, heditors, get?_index_closeEditor]
      by_cases hkey : key = other
      · simp [hkey]
      · simp [hkey, Ne.symm hkey]

theorem Coherent.closeEditors (h : p.Coherent) (disk : FileTree) (keys : List FileKey) :
    (p.closeEditors disk keys).Coherent := by
  refine List.foldlRecOn (motive := Coherent) keys _ h fun q hq key _ => ?_
  have hkept : Upkeep (fun _ => True) q (q.closeEditor disk key) :=
    q.upkeep_closeEditor disk trivial
  exact hkept.coherent hq

/-- Editors may be closed in the one project that are not open in the other. -/
theorem Alike.closeEditors (h : Alike disk libraries p p') {keys keys' : List FileKey}
    (hkeys : ∀ key, (p'.editors.get? key).isSome → (key ∈ keys ↔ key ∈ keys')) :
    Alike disk libraries (p.closeEditors disk keys) (p'.closeEditors disk keys') := by
  have hp := h.coherent.closeEditors disk keys
  have hp' := h.coherent'.closeEditors disk keys'
  have hindex : ∀ key, Keyed.get? (p.closeEditors disk keys).index key
      = Keyed.get? (p'.closeEditors disk keys').index key := by
    intro key
    have honce : p.onceClosed? disk key = p'.onceClosed? disk key := by
      rw [onceClosed?, onceClosed?, h.root]
    rw [get?_index_closeEditors, get?_index_closeEditors, honce, h.index]
    cases he' : p'.editors.get? key with
    | some e' =>
        obtain ⟨e, he, -⟩ := h.editors key e' he'
        simp only [he, Option.isSome_some, and_true, hkeys key (by rw [he']; rfl)]
    | none =>
        cases he : p.editors.get? key with
        | none => simp
        | some e =>
            have hexpects := h.expected key e he he'
            have hclosed : p'.onceClosed? disk key = _ := hexpects.closed
            simp [hclosed, hexpects.indexed]
  have heditors : ∀ key e', (p'.closeEditors disk keys').editors.get? key = some e' →
      ∃ e, (p.closeEditors disk keys).editors.get? key = some e ∧ e.content = e'.content := by
    intro key e' he'
    rw [get?_editors_closeEditors] at he' ⊢
    split at he'
    · cases he'
    · next hkey =>
        rw [if_neg ((hkeys key (by rw [he']; rfl)).not.2 hkey)]
        exact h.editors key e' he'
  have honly : ∀ key e, (p.closeEditors disk keys).editors.get? key = some e →
      (p'.closeEditors disk keys').editors.get? key = none →
      p.editors.get? key = some e ∧ p'.editors.get? key = none := by
    intro key e he hnone
    rw [get?_editors_closeEditors] at he hnone
    split at he
    · cases he
    · next hkey =>
        refine ⟨he, ?_⟩
        cases he' : p'.editors.get? key with
        | none => rfl
        | some e' =>
            rw [if_neg ((hkeys key (by rw [he']; rfl)).not.1 hkey), he'] at hnone
            cases hnone
  obtain ⟨index, editors, hfirst⟩ := p.closeEditors_eq disk keys
  obtain ⟨index', editors', hsecond⟩ := p'.closeEditors_eq disk keys'
  rw [hfirst] at hp hindex heditors honly ⊢
  rw [hsecond] at hp' hindex heditors honly ⊢
  exact h.change hp hp' hindex heditors fun key e he hnone =>
    ⟨e, (honly key e he hnone).1, rfl, (honly key e he hnone).2⟩

/-! ### What concerns no file -/

theorem Kin.close (h : Kin p p') : Kin p.close p'.close := by
  have hclosed : ∀ {q : Project}, q.Coherent → q.close.Coherent := fun hq =>
    ⟨⟨hq.index, hq.outlined, Keyed.sorted_nil⟩, nofun⟩
  exact ⟨h.sources, rfl, rfl, h.nextSubscription, hclosed h.coherent, hclosed h.coherent', nofun⟩

theorem Alike.close (h : Alike disk libraries p p') : Alike disk libraries p.close p'.close :=
  { toKin := h.toKin.close, expected := nofun }

/-- Other listeners. -/
theorem Alike.listen (h : Alike disk libraries p p') (listeners : List (Nat × Listener))
    (nextSubscription : Nat) :
    Alike disk libraries { p with listeners, nextSubscription }
      { p' with listeners, nextSubscription } :=
  { sources := h.sources
    isOpen := h.isOpen
    listeners := rfl
    nextSubscription := rfl
    coherent := ⟨⟨h.coherent.index, h.coherent.outlined, h.coherent.editors⟩, h.coherent.buffers⟩
    coherent' :=
      ⟨⟨h.coherent'.index, h.coherent'.outlined, h.coherent'.editors⟩, h.coherent'.buffers⟩
    editors := h.editors
    expected := fun key e he hnone => (h.expected key e he hnone).mono rfl rfl
      (h.expected key e he hnone).indexed }

/-! ### Carets and what is opened in one project only -/

theorem moveCaret_eq (p : Project) (key : FileKey) (offset : Nat) :
    ∃ editors, p.moveCaret key offset = { p with editors } ∧
      ∀ other, (editors.get? other).map Editor.content
        = (p.editors.get? other).map Editor.content := by
  rw [moveCaret]
  split
  · exact ⟨p.editors, rfl, fun _ => rfl⟩
  · next e he =>
      refine ⟨_, rfl, fun other => ?_⟩
      rw [Keyed.get?_insert]
      split
      · next hkey =>
          rw [← hkey, he]
          rfl
      · rfl

/-- Other carets. -/
theorem Kin.moveCarets (h : Kin p p') {editors editors' : Keyed Editor}
    (hp : Coherent { p with editors }) (hp' : Coherent { p' with editors := editors' })
    (hsame : ∀ key, (editors.get? key).map Editor.content
      = (p.editors.get? key).map Editor.content)
    (hsame' : ∀ key, (editors'.get? key).map Editor.content
      = (p'.editors.get? key).map Editor.content) :
    Kin { p with editors } { p' with editors := editors' } := by
  refine h.change hp hp' (fun key => by rw [h.index]) fun key e₁' he₁' => ?_
  have hsecond := hsame' key
  rw [he₁', Option.map_some, eq_comm, Option.map_eq_some_iff] at hsecond
  obtain ⟨e', he', hcontent'⟩ := hsecond
  obtain ⟨e, he, hcontent⟩ := h.editors key e' he'
  have hfirst := hsame key
  rw [he, Option.map_some, Option.map_eq_some_iff] at hfirst
  obtain ⟨e₁, he₁, hcontent₁⟩ := hfirst
  exact ⟨e₁, he₁, hcontent₁.trans (hcontent.trans hcontent')⟩

theorem Kin.moveCaret_left (h : Kin p p') (key : FileKey) (offset : Nat) :
    Kin (p.moveCaret key offset) p' := by
  have hp := h.coherent.moveCaret key offset
  obtain ⟨editors, hmoved, hsame⟩ := p.moveCaret_eq key offset
  rw [hmoved] at hp ⊢
  exact h.moveCarets hp h.coherent' hsame fun _ => rfl

theorem Alike.moveCaret (h : Alike disk libraries p p') (key : FileKey) (offset offset' : Nat) :
    Alike disk libraries (p.moveCaret key offset) (p'.moveCaret key offset') := by
  have hp := h.coherent.moveCaret key offset
  have hp' := h.coherent'.moveCaret key offset'
  obtain ⟨editors, hmoved, hsame⟩ := p.moveCaret_eq key offset
  obtain ⟨editors', hmoved', hsame'⟩ := p'.moveCaret_eq key offset'
  rw [hmoved] at hp ⊢
  rw [hmoved'] at hp' ⊢
  refine { toKin := h.toKin.moveCarets hp hp' hsame hsame', expected := fun k e he hnone => ?_ }
  have hfirst := hsame k
  rw [he, Option.map_some, eq_comm, Option.map_eq_some_iff] at hfirst
  obtain ⟨e₀, he₀, hcontent⟩ := hfirst
  have hsecond := hsame' k
  rw [hnone, Option.map_none, eq_comm, Option.map_eq_none_iff] at hsecond
  have hexpects := (h.expected k e₀ he₀ hsecond).congr hcontent
  exact hexpects.mono rfl rfl hexpects.indexed

/-- Opening a file puts an editor of it in place, unless there is one or it cannot be opened. -/
theorem openEditor_cases (p : Project) (disk : FileTree) (key : FileKey) :
    (p.openEditor disk key).1 = p ∨
      ∃ e, p.editors.get? key = none ∧ (p.openEditor disk key).1 = p.setEditor key e := by
  rw [openEditor]
  split
  · exact .inl rfl
  · split
    · exact .inl rfl
    · next hnone =>
        split
        · exact .inr ⟨_, Option.not_isSome_iff_eq_none.1 hnone, rfl⟩
        · exact .inl rfl

/-- A file is opened in the first project only. That is not seen if the index of the second has its
text. -/
theorem Kin.setEditor_left (h : Kin p p') (hnone : p'.editors.get? key = none) {e : Editor}
    (hindexed : Keyed.get? p'.index key = some (.ofText e.text true)) :
    Kin (p.setEditor key e) p' := by
  have hp := h.coherent.setEditor key e
  refine h.change hp h.coherent' (fun other => ?_) fun other e₁' he₁' => ?_
  · rw [Index.get?_update, h.index]
    split
    · next hkey => rw [← hkey, hindexed]
    · rfl
  · rw [Keyed.get?_insert]
    split
    · next hkey =>
        rw [← hkey, hnone] at he₁'
        cases he₁'
    · exact h.editors other e₁' he₁'

end Project

end LanguageServer
