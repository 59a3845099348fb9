import LanguageServer.Proofs.Documents.Along
import LanguageServer.Proofs.Workspace.Keyed

/-!
# The texts of open files in the index

For an open file the index holds the text of the editor, with its outline, and not the one on disk
(`Project.UpToDate`). Every operation of a project puts a changed text into the index, or passes
over the files that are open. So files stay up to date, and no editor goes away but one that is
closed (`Project.Upkeep`). An index that is built at one moment has all open files up to date
(`Project.Coherent`).
-/

namespace LanguageServer

namespace Index

variable {editors : Keyed Editor}

theorem sorted_update {ix : Index} (h : Keyed.Sorted ix) (key : FileKey) (text : Text)
    (inProject : Bool) : Keyed.Sorted (ix.update key text inProject) :=
  Keyed.sorted_insert h key _

theorem get?_update (ix : Index) (key : FileKey) (text : Text) (inProject : Bool)
    (other : FileKey) :
    Keyed.get? (ix.update key text inProject) other =
      if key = other then some (.ofText text inProject) else Keyed.get? ix other :=
  Keyed.get?_insert ix key _ other

/-- An index is built by putting in one file after the other. -/
theorem build_of_update {motive : Index → Prop} (hnil : motive [])
    (hupdate : ∀ ix key text inProject, motive ix → motive (ix.update key text inProject))
    (disk : FileTree) (directory : Text) (libraries : List Text) (editors : Keyed Editor) :
    motive (build disk directory libraries editors) := by
  have hfold : ∀ {α : Type} (f : Index → α → Index) (as : List α) {ix : Index},
      (∀ ix a, motive ix → motive (f ix a)) → motive ix → motive (as.foldl f ix) := by
    intro α f as ix hf h
    exact List.foldlRecOn as f h fun _ hix a _ => hf _ a hix
  unfold build
  refine hfold _ _ (fun _ _ h => hupdate _ _ _ _ h) ?_
  refine hfold _ _ (fun _ _ h => hupdate _ _ _ _ h) ?_
  exact hfold _ _ (fun _ _ h => hupdate _ _ _ _ h) hnil

theorem sorted_build (disk : FileTree) (directory : Text) (libraries : List Text)
    (editors : Keyed Editor) : Keyed.Sorted (build disk directory libraries editors) :=
  build_of_update Keyed.sorted_nil
    (fun _ key text inProject h => sorted_update h key text inProject) ..

/-- A file stands in an index once, with the text of its editor, exactly if it is found there with
that text. -/
theorem filter_key_iff {ix : Index} (hsorted : Keyed.Sorted ix) {key : FileKey} {text : Text} :
    ix.filter (·.1 = key) = [(key, ⟨text, Outline.scan text, true⟩)] ↔
      Keyed.get? ix key = some (.ofText text true) := by
  constructor
  · intro hfilter
    rw [Keyed.get?, ← List.head?_filter, hfilter]
    rfl
  · exact hsorted.filter_key

/-- Every file has the outline of its text. -/
def Outlined (ix : Index) : Prop :=
  ∀ key file, (key, file) ∈ ix → file.outline = Outline.scan file.text

theorem Outlined.update {ix : Index} (h : ix.Outlined) (key : FileKey) (text : Text)
    (inProject : Bool) : (ix.update key text inProject).Outlined := by
  intro other file hfile
  rcases Keyed.mem_insert hfile with heq | hfile
  · rw [(Prod.mk.inj heq).2]
    rfl
  · exact h other file hfile

theorem Outlined.erase {ix : Index} (h : ix.Outlined) (key : FileKey) :
    Outlined (Keyed.erase ix key) :=
  fun other file hfile => h other file (List.mem_of_mem_filter hfile)

theorem outlined_build (disk : FileTree) (directory : Text) (libraries : List Text)
    (editors : Keyed Editor) : (build disk directory libraries editors).Outlined :=
  build_of_update (motive := Outlined) (by simp [Outlined])
    (fun _ key text inProject h => h.update key text inProject)
    disk directory libraries editors

/-- The texts of editors go in front of whatever is there. -/
theorem get?_foldl_editors (h : editors.Sorted) (ix : Index) (key : FileKey) :
    Keyed.get? (editors.foldl (fun ix (key, editor) => update ix key editor.text true) ix) key =
      ((editors.get? key).map fun editor => IndexedFile.ofText editor.text true).or
        (Keyed.get? ix key) := by
  induction editors generalizing ix with
  | nil => rfl
  | cons entry rest ih =>
      obtain ⟨k, editor⟩ := entry
      have hnone := h.get?_tail
      rw [List.foldl_cons, ih (List.pairwise_cons.1 h).2, get?_update, Keyed.get?_cons]
      split
      · next hk =>
          subst hk
          rw [hnone]
          rfl
      · rfl

theorem get?_build (h : editors.Sorted) (disk : FileTree) (directory : Text)
    (libraries : List Text) (key : FileKey) :
    Keyed.get? (build disk directory libraries editors) key =
      ((editors.get? key).map fun editor => IndexedFile.ofText editor.text true).or
        (Keyed.get? (build disk directory libraries []) key) :=
  get?_foldl_editors h _ key

end Index

namespace Project

variable {p p' q : Project} {gone : FileKey → Prop}

/-- The index and the editors are in order, and every file of the index has the outline of its
text. -/
structure WellFormed (p : Project) : Prop where
  index : Keyed.Sorted p.index
  outlined : p.index.Outlined
  editors : p.editors.Sorted

/-- If a file is open, the index has the text of its editor. -/
def UpToDate (p : Project) (key : FileKey) : Prop :=
  ∀ editor, p.editors.get? key = some editor →
    Keyed.get? p.index key = some (.ofText editor.text true)

/-- Open files have the texts of their editors in the index. -/
structure Coherent (p : Project) : Prop extends WellFormed p where
  buffers : ∀ key, p.UpToDate key

/-- Well formed and up to date as before, with the editors of before except some that may have been
closed. -/
structure Upkeep (gone : FileKey → Prop) (p p' : Project) : Prop where
  isOpen : p'.isOpen = p.isOpen
  wellFormed : p.WellFormed → p'.WellFormed
  upToDate : p.WellFormed → ∀ key, p.UpToDate key → p'.UpToDate key
  editors : ∀ key, ¬ gone key → (p.editors.get? key).isSome → (p'.editors.get? key).isSome

namespace Upkeep

theorem refl (p : Project) : Upkeep gone p p := ⟨rfl, id, fun _ _ h => h, fun _ _ h => h⟩

theorem trans (h : Upkeep gone p p') (h' : Upkeep gone p' q) : Upkeep gone p q :=
  ⟨h'.isOpen.trans h.isOpen, fun hp => h'.wellFormed (h.wellFormed hp),
    fun hp key hkey => h'.upToDate (h.wellFormed hp) key (h.upToDate hp key hkey),
    fun key hkey hsome => h'.editors key hkey (h.editors key hkey hsome)⟩

theorem coherent (h : Upkeep gone p p') (hp : p.Coherent) : p'.Coherent :=
  ⟨h.wellFormed hp.toWellFormed, fun key => h.upToDate hp.toWellFormed key (hp.buffers key)⟩

end Upkeep

theorem coherent_of_build (hsorted : p.editors.Sorted) {disk : FileTree} {directory : Text}
    {libraries : List Text} (hindex : p.index = .build disk directory libraries p.editors) :
    p.Coherent := by
  refine ⟨⟨?_, ?_, hsorted⟩, fun key editor heditor => ?_⟩
  · rw [hindex]
    exact Index.sorted_build ..
  · rw [hindex]
    exact Index.outlined_build _ _ _ _
  · rw [hindex, Index.get?_build hsorted, heditor]
    rfl

theorem WellFormed.text_of_mem (h : p.WellFormed) {key : FileKey} (hkey : p.UpToDate key)
    {file : IndexedFile} (hmem : (key, file) ∈ p.index) {editor : Editor}
    (heditor : p.editors.get? key = some editor) : file.text = editor.text := by
  have hfile := h.index.get?_of_mem hmem
  rw [hkey editor heditor] at hfile
  cases hfile
  rfl

theorem WellFormed.rebuild (h : p.WellFormed) (disk : FileTree) (libraries : List Text) :
    (p.rebuild disk libraries).Coherent :=
  coherent_of_build (p := p.rebuild disk libraries) h.editors rfl

theorem upkeep_rebuild (p : Project) (disk : FileTree) (libraries : List Text) :
    Upkeep gone p (p.rebuild disk libraries) :=
  ⟨rfl, fun h => (h.rebuild disk libraries).toWellFormed,
    fun h key _ => (h.rebuild disk libraries).buffers key, fun _ _ h => h⟩

theorem upkeep_setEditor (p : Project) (key : FileKey) (editor : Editor) :
    Upkeep gone p (p.setEditor key editor) := by
  have hget : ∀ other, (p.setEditor key editor).editors.get? other
      = if key = other then some editor else p.editors.get? other :=
    Keyed.get?_insert p.editors key editor
  refine ⟨rfl, fun hp => ⟨Index.sorted_update hp.index .., hp.outlined.update _ _ _,
    Keyed.sorted_insert hp.editors ..⟩, fun _ other hother e he => ?_, fun other _ hsome => ?_⟩
  · have hindex := Index.get?_update p.index key editor.text true other
    rw [hget] at he
    rw [setEditor, hindex]
    split at he
    · next hkey =>
        cases he
        rw [if_pos hkey]
    · next hkey =>
        rw [if_neg hkey]
        exact hother e he
  · rw [hget]
    split
    · rfl
    · exact hsome

/-- An open file is not read again. -/
theorem upkeep_rescan (p : Project) (disk : FileTree) (key : FileKey) (path : Text) :
    Upkeep gone p (p.rescan disk key path).1 := by
  rw [rescan]
  split
  · exact .refl p
  · next hclosed =>
      have hne : ∀ {other e}, p.editors.get? other = some e → key ≠ other := by
        intro other e he heq
        rw [heq, he] at hclosed
        exact hclosed rfl
      split
      · refine ⟨rfl, fun hp => ⟨Index.sorted_update hp.index .., hp.outlined.update _ _ _,
          hp.editors⟩, fun _ other hother e he => ?_, fun _ _ h => h⟩
        rw [Index.get?_update, if_neg (hne he)]
        exact hother e he
      · refine ⟨rfl, fun hp => ⟨Keyed.sorted_erase hp.index _, hp.outlined.erase _, hp.editors⟩,
          fun _ other hother e he => ?_, fun _ _ h => h⟩
        rw [Keyed.get?_erase, if_neg (hne he)]
        exact hother e he

theorem upkeep_refresh (p : Project) (disk : FileTree) (key : FileKey) :
    Upkeep gone p (p.refresh disk key).1 := by
  rw [refresh]
  split
  · exact .refl p
  · split
    · exact List.foldlRecOn (motive := (Upkeep gone p ·)) _ _ (.refl p)
        fun q hq source _ => hq.trans (q.upkeep_rescan ..)
    · exact p.upkeep_rescan ..

theorem upkeep_openEditor (p : Project) (disk : FileTree) (key : FileKey) :
    Upkeep gone p (p.openEditor disk key).1 := by
  rw [openEditor]
  split
  · exact .refl p
  · split
    · exact .refl p
    · split
      · exact p.upkeep_setEditor ..
      · exact .refl p

theorem upkeep_edit {key : FileKey} {change : Text → Text} {events : List ProjectEvent}
    (h : p.edit key change = .ok (p', events)) : Upkeep gone p p' := by
  rw [edit] at h
  split at h
  · cases h
  · split at h
    · cases h
    · cases h
      exact p.upkeep_setEditor ..

theorem upkeep_reload {disk : FileTree} {key : FileKey} {events : List ProjectEvent}
    (h : p.reload disk key = .ok (p', events)) : Upkeep gone p p' := by
  rw [reload] at h
  split at h
  · cases h
    exact p.upkeep_setEditor ..
  · cases h
  · cases h

theorem upkeep_moveCaret (p : Project) (key : FileKey) (offset : Nat) :
    Upkeep gone p (p.moveCaret key offset) := by
  rw [moveCaret]
  split
  · exact .refl p
  · next editor heditor =>
      have hget := Keyed.get?_insert p.editors key (editor.moveCaret offset)
      refine ⟨rfl, fun hp => ⟨hp.index, hp.outlined, Keyed.sorted_insert hp.editors ..⟩,
        fun _ other hother e he => ?_, fun other _ hsome => ?_⟩
      · rw [hget] at he
        split at he
        · next hkey =>
            cases he
            exact hother editor (hkey ▸ heditor)
        · exact hother e he
      · rw [hget]
        split
        · rfl
        · exact hsome

/-- The index goes back to the file on disk, once the editor is gone. -/
theorem upkeep_closeEditor (p : Project) (disk : FileTree) {key : FileKey} (hgone : gone key) :
    Upkeep gone p (p.closeEditor disk key) := by
  have hclosed : Upkeep gone p { p with editors := p.editors.erase key } := by
    refine ⟨rfl, fun hp => ⟨hp.index, hp.outlined, Keyed.sorted_erase hp.editors _⟩,
      fun _ other hother e he => ?_, fun other hother hsome => ?_⟩
    · rw [Keyed.get?_erase] at he
      split at he
      · cases he
      · exact hother e he
    · have hne : key ≠ other := fun heq => hother (heq ▸ hgone)
      rw [Keyed.get?_erase, if_neg hne]
      exact hsome
  rw [closeEditor]
  split
  · exact .refl p
  · dsimp only
    split
    · exact hclosed.trans (upkeep_rescan _ ..)
    · exact hclosed

theorem Operation.upkeep {disk : FileTree} {closes : FileKey → Prop} {events : List ProjectEvent}
    (h : p.Operation disk closes q events) (hcloses : ∀ key, closes key → gone key) :
    Upkeep gone p q := by
  cases h with
  | refresh key => exact p.upkeep_refresh disk key
  | openEditor key => exact p.upkeep_openEditor disk key
  | edit h => exact upkeep_edit h
  | reload h => exact upkeep_reload h
  | moveCaret key offset => exact p.upkeep_moveCaret key offset
  | closeEditor h => exact p.upkeep_closeEditor disk (hcloses _ h)

end Project

namespace Workspace

variable {w w' w₁ : Workspace} {id other : Nat} {gone : FileKey → Prop}

/-- A project has been kept up. -/
def Upkeep (id : Nat) (gone : FileKey → Prop) (w w' : Workspace) : Prop :=
  ∀ p, w.project? id = some p → ∃ p', w'.project? id = some p' ∧ p.Upkeep gone p'

namespace Upkeep

theorem refl (w : Workspace) : Upkeep id gone w w := fun p hp => ⟨p, hp, .refl p⟩

theorem trans (h : Upkeep id gone w w₁) (h' : Upkeep id gone w₁ w') : Upkeep id gone w w' := by
  intro p hp
  obtain ⟨p₁, hp₁, hkept⟩ := h p hp
  obtain ⟨p', hp', hkept'⟩ := h' p₁ hp₁
  exact ⟨p', hp', hkept.trans hkept'⟩

/-- The project that has been replaced may be another one. -/
theorem of_setProject {p q : Project} (hp : w.project? other = some p) (h : p.Upkeep gone q) :
    Upkeep id gone w (w.setProject other q) := by
  intro p' hp'
  by_cases hid : other = id
  · subst hid
    cases hp.symm.trans hp'
    exact ⟨q, project?_setProject hp q, h⟩
  · exact ⟨p', (project?_setProject_of_ne hid q).trans hp', .refl p'⟩

end Upkeep

/-- Operations on one project keep up every other one as well. -/
theorem Operates.upkeep {closes : FileKey → Prop} (h : Operates other closes w w')
    (hcloses : ∀ key, closes key → gone key) : Upkeep id gone w w' := by
  rcases h.projects with ⟨hprojects, -⟩ | ⟨p, q, events, hp, hoperation, hprojects, -⟩
  · intro p hp
    rw [project?, hprojects]
    exact ⟨p, hp, .refl p⟩
  · intro p₁ hp₁
    rw [project?, hprojects]
    exact Upkeep.of_setProject hp (hoperation.upkeep hcloses) p₁ hp₁

theorem upkeep_closeEditor {key : FileKey} (hgone : gone key) :
    Along (Upkeep id gone) (closeEditor other key) := by
  intro w
  have hcloses : Operates other gone w ((closeEditor other key).run w).2 :=
    w.operates_closeEditor other hgone
  exact hcloses.upkeep fun _ h => h

theorem workRelation_upkeep (id : Nat) (gone : FileKey → Prop) (other : Nat) :
    WorkRelation (Upkeep id gone) other :=
  .of_operates .refl .trans fun h => h.upkeep fun _ hcloses => hcloses.elim

end Workspace

end LanguageServer
