import LanguageServer.Proofs.Workspace.Operations

/-!
# What work on files leaves alone

Most operations of a workspace open, change and close editors, and read files. They open and close
no project, and nobody listens to a project who did not before: they are `Workspace.Steady`. A
closed project without editors is left without editors as well. A step that is steady whatever the
workspace was before is one that `Workspace.Keeps` it so.
-/

namespace LanguageServer

namespace Project

/-- A project that is open or closed as before, for the same listeners. -/
structure Steady (p p' : Project) : Prop where
  root : p'.root = p.root
  isOpen : p'.isOpen = p.isOpen
  listeners : p'.listeners = p.listeners
  editors : p.isOpen = false → p.editors = [] → p'.editors = []

namespace Steady

variable {p p' q : Project}

theorem refl (p : Project) : Steady p p := ⟨rfl, rfl, rfl, fun _ h => h⟩

theorem trans (h : Steady p p') (h' : Steady p' q) : Steady p q :=
  ⟨h'.root.trans h.root, h'.isOpen.trans h.isOpen, h'.listeners.trans h.listeners,
    fun hopen heditors => h'.editors (h.isOpen.trans hopen) (h.editors hopen heditors)⟩

end Steady

theorem steady_openEditor (p : Project) (disk : FileTree) (key : FileKey) :
    Steady p (p.openEditor disk key).1 := by
  unfold openEditor
  cases hopen : p.isOpen with
  | false => exact .refl p
  | true =>
      simp only [Bool.not_true, Bool.false_eq_true, if_false]
      split
      · exact .refl p
      · split
        · exact ⟨rfl, rfl, rfl, fun hclosed => absurd (hopen.symm.trans hclosed) (by decide)⟩
        · exact .refl p

theorem steady_refresh (p : Project) (disk : FileTree) (key : FileKey) :
    Steady p (p.refresh disk key).1 := by
  obtain ⟨index, hindex⟩ := p.refresh_eq disk key
  rw [hindex]
  exact ⟨rfl, rfl, rfl, fun _ h => h⟩

/-- Closing an editor takes it away, whether it was open or not. -/
theorem closeEditor_eq (p : Project) (disk : FileTree) (key : FileKey) :
    ∃ index, p.closeEditor disk key = { p with index, editors := p.editors.erase key } := by
  unfold closeEditor
  split
  · next hnone =>
      rw [Keyed.erase_of_get?_eq_none (Option.isNone_iff_eq_none.1 hnone)]
      exact ⟨p.index, rfl⟩
  · dsimp only
    split
    · rw [rescan_eq]
      exact ⟨_, rfl⟩
    · exact ⟨p.index, rfl⟩

theorem steady_closeEditor (p : Project) (disk : FileTree) (key : FileKey) :
    Steady p (p.closeEditor disk key) := by
  obtain ⟨index, hclose⟩ := p.closeEditor_eq disk key
  rw [hclose]
  exact ⟨rfl, rfl, rfl, fun _ h => by rw [h]; rfl⟩

/-- Only an editor that is open is changed. -/
theorem Steady.of_editor {p p' : Project} {key : FileKey} {editor : Editor}
    (heditor : p.editors.get? key = some editor) (hroot : p'.root = p.root)
    (hopen : p'.isOpen = p.isOpen) (hlisteners : p'.listeners = p.listeners) : Steady p p' := by
  refine ⟨hroot, hopen, hlisteners, fun _ hnone => ?_⟩
  rw [hnone] at heditor
  cases heditor

theorem steady_edit {p p' : Project} {key : FileKey} {change : Text → Text}
    {events : List ProjectEvent} (h : p.edit key change = .ok (p', events)) : Steady p p' := by
  unfold edit at h
  split at h
  · cases h
  · next editor heditor =>
      split at h
      · cases h
      · cases h
        exact .of_editor heditor rfl rfl rfl

theorem steady_reload {p p' : Project} {disk : FileTree} {key : FileKey}
    {events : List ProjectEvent} (h : p.reload disk key = .ok (p', events)) : Steady p p' := by
  unfold reload at h
  split at h
  · next heditor _ =>
      cases h
      exact .of_editor heditor rfl rfl rfl
  · cases h
  · cases h

theorem steady_moveCaret (p : Project) (key : FileKey) (offset : Nat) :
    Steady p (p.moveCaret key offset) := by
  unfold moveCaret
  split
  · exact .refl p
  · next heditor => exact .of_editor heditor rfl rfl rfl

theorem Operation.steady {p q : Project} {disk : FileTree} {closes : FileKey → Prop}
    {events : List ProjectEvent} (h : p.Operation disk closes q events) : p.Steady q := by
  cases h with
  | refresh key => exact p.steady_refresh disk key
  | openEditor key => exact p.steady_openEditor disk key
  | edit h => exact steady_edit h
  | reload h => exact steady_reload h
  | moveCaret key offset => exact p.steady_moveCaret key offset
  | closeEditor _ => exact p.steady_closeEditor disk _

end Project

namespace Workspace

/-- A workspace with the same projects, each of them steady. -/
structure Steady (w w' : Workspace) : Prop where
  table : w'.table = w.table
  calls : ∃ more, w'.calls = w.calls ++ more ∧ ∀ call ∈ more, call.IsQuiet
  length : w'.projects.length = w.projects.length
  projects : ∀ id p, w.project? id = some p → ∃ p', w'.project? id = some p' ∧ p.Steady p'

namespace Steady

variable {w w' w₁ : Workspace}

theorem refl (w : Workspace) : Steady w w :=
  ⟨rfl, ⟨[], (List.append_nil _).symm, nofun⟩, rfl, fun _ p hp => ⟨p, hp, .refl p⟩⟩

theorem trans (h : Steady w w₁) (h' : Steady w₁ w') : Steady w w' := by
  refine ⟨h'.table.trans h.table, ?_, h'.length.trans h.length, fun id p hp => ?_⟩
  · obtain ⟨more, hmore, hquiet⟩ := h.calls
    obtain ⟨more', hmore', hquiet'⟩ := h'.calls
    refine ⟨more ++ more', by rw [hmore', hmore, List.append_assoc], fun call hcall => ?_⟩
    rcases List.mem_append.1 hcall with hcall | hcall
    · exact hquiet call hcall
    · exact hquiet' call hcall
  · obtain ⟨p₁, hp₁, hsteady⟩ := h.projects id p hp
    obtain ⟨p', hp', hsteady'⟩ := h'.projects id p₁ hp₁
    exact ⟨p', hp', hsteady.trans hsteady'⟩

/-- A project has been put in place of a steady one. -/
theorem setProject {id : Nat} {p q : Project} (hp : w.project? id = some p) (h : p.Steady q) :
    Steady w (w.setProject id q) := by
  refine ⟨rfl, ⟨[], (List.append_nil _).symm, nofun⟩, List.length_set, fun other p' hp' => ?_⟩
  by_cases hid : id = other
  · subst hid
    cases hp.symm.trans hp'
    exact ⟨q, project?_setProject hp q, h⟩
  · exact ⟨p', (project?_setProject_of_ne hid q).trans hp', .refl p'⟩

end Steady

/-- Operations neither open nor close projects. -/
theorem Operates.steady {w w' : Workspace} {id : Nat} {closes : FileKey → Prop}
    (h : Operates id closes w w') : Steady w w' := by
  rcases h.projects with ⟨hprojects, -⟩ | ⟨p, q, events, hp, hoperation, hprojects, -⟩
  · refine ⟨h.table, h.calls, by rw [hprojects], fun other p hp => ⟨p, ?_, .refl p⟩⟩
    rw [project?, hprojects]
    exact hp
  · have hset := Steady.setProject hp hoperation.steady
    refine ⟨h.table, h.calls, by rw [hprojects, hset.length], fun other p₁ hp₁ => ?_⟩
    rw [project?, hprojects]
    exact hset.projects other p₁ hp₁

/-- Steps after which a workspace is steady, whatever it was before. -/
def Keeps {α : Type} (steps : WorkspaceM α) : Prop := ∀ w, Steady w (steps.run w).2

theorem keeps_closeEditor (id : Nat) (key : FileKey) : Keeps (closeEditor id key) := by
  intro w
  have hcloses : Operates id (fun _ => True) w ((closeEditor id key).run w).2 :=
    w.operates_closeEditor id trivial
  exact hcloses.steady

theorem openFiles_closeEditor (w : Workspace) (id : Nat) (key : FileKey) :
    ((closeEditor id key).run w).2.openFiles id = (w.openFiles id).filter (· ≠ key) := by
  rw [closeEditor_run]
  cases hp : w.project? id with
  | none =>
      have hnone : ((note (.closeEditor key)).run w).2.project? id = none := hp
      simp [openFiles, hp, hnone]
  | some p =>
      obtain ⟨index, hclose⟩ := p.closeEditor_eq w.disk key
      dsimp only
      rw [hclose]
      have hset := project?_setProject (w := ((note (.closeEditor key)).run w).2) hp
        { p with index, editors := p.editors.erase key }
      simp only [openFiles, hset, hp, Option.map_some, Option.getD_some, List.filter_map]
      rfl

/-- Closing editors one by one leaves those that were not named. -/
theorem openFiles_forM_closeEditor (keys : List FileKey) (w : Workspace) (id : Nat) :
    ((keys.forM (closeEditor id)).run w).2.openFiles id = (w.openFiles id).filter (· ∉ keys) := by
  induction keys generalizing w with
  | nil => exact (List.filter_eq_self.2 fun _ _ => by simp).symm
  | cons key keys ih =>
      have hrest := ih ((closeEditor id key).run w).2
      rw [openFiles_closeEditor, List.filter_filter] at hrest
      refine hrest.trans (List.filter_congr fun other _ => ?_)
      simp [Bool.and_comm]

end Workspace

end LanguageServer
