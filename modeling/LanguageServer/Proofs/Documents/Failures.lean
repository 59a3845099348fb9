import LanguageServer.Proofs.Documents.Versions

/-!
# Operations that fail

A document operation reads files again, opens the editor of the file and changes its text in the
last step, so one that fails has not come to the change: every editor that was open is as before
(`Workspace.KeepsEditors`). The list of documents is changed at the other end. Opening and changing
do it after the last step that can fail, but saving forgets the version and closing forgets the
document before the first one. What is left of the documents is `DocumentEvent.left`.
-/

namespace LanguageServer

/-- Every editor that is open in a project stays as it is. -/
def Project.KeepsEditors (p p' : Project) : Prop :=
  ∀ key editor, p.editors.get? key = some editor → p'.editors.get? key = some editor

/-- Every editor that is open in a workspace stays as it is. -/
def Workspace.KeepsEditors (w w' : Workspace) : Prop :=
  ∀ id key editor, w.editor? id key = some editor → w'.editor? id key = some editor

namespace Project

theorem keepsEditors_openEditor (p : Project) (disk : FileTree) (key : FileKey) :
    p.KeepsEditors (p.openEditor disk key).1 := by
  intro other editor heditor
  unfold openEditor
  split
  · exact heditor
  · split
    · exact heditor
    · next hclosed =>
        split
        · -- The editor that is put in place is one that was not there.
          have hne : key ≠ other := by
            rintro rfl
            exact hclosed (by rw [heditor, Option.isSome_some])
          exact (Keyed.get?_insert ..).trans ((if_neg hne).trans heditor)
        · exact heditor

theorem keepsEditors_refresh (p : Project) (disk : FileTree) (key : FileKey) :
    p.KeepsEditors (p.refresh disk key).1 := by
  obtain ⟨index, hindex⟩ := p.refresh_eq disk key
  rw [hindex]
  exact fun _ _ heditor => heditor

end Project

namespace Workspace

variable {w w₁ w' : Workspace} {id : Nat}

namespace KeepsEditors

theorem refl (w : Workspace) : w.KeepsEditors w := fun _ _ _ heditor => heditor

theorem trans (h : w.KeepsEditors w₁) (h' : w₁.KeepsEditors w') : w.KeepsEditors w' :=
  fun id key editor heditor => h' id key editor (h id key editor heditor)

theorem setProject {p q : Project} (hp : w.project? id = some p) (h : p.KeepsEditors q) :
    w.KeepsEditors (w.setProject id q) := by
  intro other key editor heditor
  obtain ⟨p', hp', hget⟩ := exists_project_of_editor heditor
  by_cases hother : other = id
  · subst hother
    rw [hp, Option.some.injEq] at hp'
    subst hp'
    exact (editor?_setProject hp q).trans (h key editor hget)
  · rw [editor?_setProject_of_ne (Ne.symm hother)]
    exact heditor

end KeepsEditors

theorem keepsEditors_openEditor (w : Workspace) (id : Nat) (key : FileKey) :
    w.KeepsEditors ((openEditor id key).run w).2 := by
  rw [openEditor_run]
  split
  · exact .refl w
  · exact .refl w
  · exact .refl w
  · next p _ hp =>
      have hset := KeepsEditors.setProject hp (p.keepsEditors_openEditor w.disk key)
      exact hset.trans fun _ _ _ h => h

theorem keepsEditors_refresh (w : Workspace) (id : Nat) (key : FileKey) :
    w.KeepsEditors ((refresh id key).run w).2 := by
  rw [refresh_run]
  cases hp : w.project? id with
  | none => exact .refl w
  | some p =>
      exact KeepsEditors.setProject (w := ((note (.refresh key)).run w).2) hp
        (p.keepsEditors_refresh w.disk key)

theorem settle_of_error {outcome : Except WorkspaceError (Project × List ProjectEvent)}
    {cause : WorkspaceError} (h : ((settle id outcome).run w).1 = .error cause) :
    ((settle id outcome).run w).2 = w := by
  rw [settle_run] at h ⊢
  rcases outcome with _ | ⟨p, events⟩
  · rfl
  · cases h

/-- Editing fails before anything is changed. -/
theorem edit_of_error {key : FileKey} {change : Text → Text} {cause : WorkspaceError}
    (h : ((edit id key change).run w).1 = .error cause) :
    ((edit id key change).run w).2 = w := by
  rw [edit_run] at h ⊢
  cases hp : w.project? id with
  | none => rfl
  | some p =>
      rw [hp] at h
      exact settle_of_error h

/-- Reading from disk fails before anything is changed. -/
theorem reload_of_error {key : FileKey} {cause : WorkspaceError}
    (h : ((reload id key).run w).1 = .error cause) : ((reload id key).run w).2 = w := by
  rw [reload_run] at h ⊢
  cases hp : w.project? id with
  | none => rfl
  | some p =>
      rw [hp] at h
      exact settle_of_error h

end Workspace

open Workspace (KeepsEditors)

namespace Documents

variable {docs : Documents} {w w₁ : Workspace} {e : DocumentError}

/-! ### Steps that fail -/

/-- Steps that have left the editors as they were whenever they fail. -/
def SparesEditors {α : Type} (steps : DocumentM α) : Prop :=
  ∀ w w' e, steps.run.run w = (.error e, w') → w.KeepsEditors w'

theorem sparesEditors_bind {α β : Type} {steps : DocumentM α} {next : α → DocumentM β}
    (hsteps : ∀ w : Workspace, w.KeepsEditors (steps.run.run w).2)
    (hnext : ∀ a, SparesEditors (next a)) :
    SparesEditors (steps >>= next) := by
  intro w w' e h
  have hkept := hsteps w
  rw [run_bind] at h
  generalize steps.run.run w = outcome at hkept h
  rcases outcome with ⟨_ | a, w₁⟩
  · cases h
    exact hkept
  · exact hkept.trans (hnext a w₁ w' e h)

theorem sparesEditors_lift {steps : WorkspaceM (Except WorkspaceError Unit)}
    (h : ∀ w cause, (steps.run w).1 = .error cause → (steps.run w).2 = w) :
    SparesEditors (lift steps) := by
  intro w w' e hfailed
  have hsteps := h w
  rw [lift_run] at hfailed
  generalize steps.run w = outcome at hsteps hfailed
  rcases outcome with ⟨cause | _, w₁⟩
  · obtain ⟨-, rfl⟩ := Prod.mk.inj hfailed
    rw [hsteps cause rfl]
    exact .refl w
  · cases hfailed

theorem sparesEditors_pure {α : Type} (a : α) : SparesEditors (pure a) := by
  intro w w' e h
  cases h

theorem keepsEditors_editorOf (docs : Documents) (key : FileKey) (missing : DocumentError)
    (w : Workspace) : w.KeepsEditors ((docs.editorOf key missing).run.run w).2 := by
  have hopened := w.keepsEditors_openEditor docs.project key
  rw [editorOf_run]
  generalize (Workspace.openEditor docs.project key).run w = outcome at hopened ⊢
  rcases outcome with ⟨_ | _ | _, w₁⟩
  · exact hopened
  · exact hopened
  · dsimp only
    split <;> exact hopened

theorem sparesEditors_edit (docs : Documents) (key : FileKey) (text : Text) :
    SparesEditors (lift (Workspace.edit docs.project key fun _ => text)) :=
  sparesEditors_lift fun _ _ => Workspace.edit_of_error

theorem sparesEditors_fill (docs : Documents) (key : FileKey) (text : Text) :
    SparesEditors (docs.fill key text) := by
  refine sparesEditors_bind (fun w => ?_) fun _ =>
    sparesEditors_bind (docs.keepsEditors_editorOf key _) fun editor => ?_
  · rw [run_discard_lift]
    exact w.keepsEditors_refresh docs.project key
  · split
    · exact docs.sparesEditors_edit key text
    · exact sparesEditors_pure ()

theorem sparesEditors_change (docs : Documents) (key : FileKey) (changes : List ContentChange) :
    SparesEditors (docs.change key changes) := by
  refine sparesEditors_bind (docs.keepsEditors_editorOf key _) fun editor => ?_
  dsimp only
  rw [ContentChange.foldlM_apply]
  split
  · exact sparesEditors_bind (fun w => .refl w) fun _ => docs.sparesEditors_edit key _
  · exact docs.sparesEditors_edit key _

theorem sparesEditors_reload (docs : Documents) (key : FileKey) :
    SparesEditors (docs.reload key) := by
  refine sparesEditors_bind (fun w => ?_) fun _ =>
    sparesEditors_lift fun _ _ => Workspace.reload_of_error
  rw [run_discard]
  exact docs.keepsEditors_editorOf key _ w

theorem keepsEditors_guarded {α : Type} {steps : DocumentM α} (hsteps : SparesEditors steps)
    (h : ((docs.guarded steps).run w).1 = .error e) :
    w.KeepsEditors ((docs.guarded steps).run w).2 := by
  cases haccepting : docs.accepting with
  | false =>
      rw [guarded_run_of_not haccepting]
      exact .refl w
  | true =>
      rw [guarded_run haccepting] at h ⊢
      exact hsteps w _ e (Prod.ext h rfl)

/-! ### Operations that fail -/

variable {uri : Text}

theorem keepsEditors_start {text : Text} {version : Int}
    (h : ((docs.start uri text version).run w).1.1 = .error e) :
    w.KeepsEditors ((docs.start uri text version).run w).2 := by
  have hfill := @keepsEditors_guarded docs w e _ _
    (docs.sparesEditors_fill (.ofUri uri) text.normalizeNewlines)
  rw [start_run] at h ⊢
  split
  · next hsupported =>
      rw [if_pos hsupported] at h
      generalize (docs.guarded _).run w = outcome at hfill h ⊢
      rcases outcome with ⟨_ | _, w'⟩
      · exact hfill h
      · cases h
  · exact .refl w

theorem keepsEditors_update {version : Int} {changes : List ContentChange}
    (h : ((docs.update uri version changes).run w).1.1 = .error e) :
    w.KeepsEditors ((docs.update uri version changes).run w).2 := by
  have hchange := @keepsEditors_guarded docs w e _ _
    (docs.sparesEditors_change (.ofUri uri) changes)
  rw [update_run] at h ⊢
  cases hget : docs.get? (.ofUri uri) with
  | none => exact .refl w
  | some d =>
      cases hcheck : checkVersion d.version version (min changes.length maxInt32) with
      | error cause =>
          simp only [hcheck]
          exact .refl w
      | ok =>
          simp only [hget, hcheck] at h ⊢
          generalize (docs.guarded _).run w = outcome at hchange h ⊢
          rcases outcome with ⟨_ | _, w'⟩
          · exact hchange h
          · cases h

theorem keepsEditors_sync (h : ((docs.sync uri).run w).1.1 = .error e) :
    w.KeepsEditors ((docs.sync uri).run w).2 := by
  rw [sync_run] at h ⊢
  cases hget : docs.get? (.ofUri uri) with
  | none => exact .refl w
  | some d =>
      rw [hget] at h
      exact keepsEditors_guarded (sparesEditors_reload _ _) h

/-- Closing an open document fails only when editors cannot be changed any more. -/
theorem accepting_of_stop_error {d : ManagedDocument} (hget : docs.get? (.ofUri uri) = some d)
    (h : ((docs.stop uri).run w).1.1 = .error e) : docs.accepting = false := by
  rw [stop_run, hget] at h
  cases haccepting : docs.accepting with
  | false => rfl
  | true =>
      simp only [@guarded_run (docs.erase (.ofUri uri)) haccepting] at h
      cases h

theorem workspace_stop_of_error (h : ((docs.stop uri).run w).1.1 = .error e) :
    ((docs.stop uri).run w).2 = w := by
  cases hget : docs.get? (.ofUri uri) with
  | none => rw [stop_run, hget]
  | some d =>
      have haccepting := accepting_of_stop_error hget h
      rw [stop_run, hget]
      simp only [@guarded_run_of_not (docs.erase (.ofUri uri)) haccepting]

theorem get?_sync (docs : Documents) (uri : Text) (w : Workspace) (key : FileKey) :
    ((docs.sync uri).run w).1.2.get? key =
      if FileKey.ofUri uri = key then (docs.get? key).map fun d => { d with version := none }
      else docs.get? key := by
  rw [sync_run]
  cases hget : docs.get? (.ofUri uri) with
  | none =>
      dsimp only
      split
      · next hkey => rw [← hkey, hget, Option.map_none]
      · rfl
  | some d => exact get?_setVersion docs (.ofUri uri) none key

theorem get?_stop (docs : Documents) (uri : Text) (w : Workspace) (key : FileKey) :
    ((docs.stop uri).run w).1.2.get? key =
      if FileKey.ofUri uri = key then none else docs.get? key := by
  rw [stop_run]
  cases hget : docs.get? (.ofUri uri) with
  | none =>
      dsimp only
      split
      · next hkey => rw [← hkey, hget]
      · rfl
  | some d => exact get?_erase docs (.ofUri uri) key

end Documents

namespace DocumentEvent

/-- What is left of an open document by an event that fails. Saving has forgotten its version by
then, and closing the document itself. -/
def left (key : FileKey) (d : ManagedDocument) : DocumentEvent → Option ManagedDocument
  | sync uri => if FileKey.ofUri uri = key then some { d with version := none } else some d
  | stop uri => if FileKey.ofUri uri = key then none else some d
  | start .. | update .. | closeAll | elsewhere _ => some d

end DocumentEvent

namespace DocumentState

/-- When an operation fails, every editor that was open before is as it was, whatever the project.
The documents are the same after opening and changing, and what is left of them after saving and
closing is known: a document that was to be saved has lost its version, and one that was to be
closed is gone. The latter needs that editors cannot be changed any more. -/
theorem left_of_error (s : DocumentState) (e : DocumentEvent) (error : DocumentError)
    (h : (e.apply s).1 = .error error) :
    s.workspace.KeepsEditors (e.apply s).2.workspace ∧
      (∀ key, (e.apply s).2.docs.get? key = (s.docs.get? key).bind fun d => e.left key d) ∧
      ∀ uri, e = .stop uri → (s.docs.get? (.ofUri uri)).isSome → s.docs.accepting = false := by
  have hsame : ∀ docs : Documents, ∀ key, docs.get? key = (docs.get? key).bind some :=
    fun docs key => (Option.bind_fun_some _).symm
  cases e with
  | start uri text version =>
      refine ⟨Documents.keepsEditors_start h, fun key => ?_, fun _ hstop => by cases hstop⟩
      rcases Documents.start_cases s.docs uri text version s.workspace with ⟨hok, -⟩ | ⟨-, hdocs⟩
      · cases h.symm.trans hok
      · rw [DocumentEvent.apply, DocumentEvent.outcome, hdocs]
        exact hsame s.docs key
  | update uri version changes =>
      refine ⟨Documents.keepsEditors_update h, fun key => ?_, fun _ hstop => by cases hstop⟩
      rcases Documents.update_cases s.docs uri version changes s.workspace with
        ⟨hok, -⟩ | ⟨-, hdocs⟩
      · cases h.symm.trans hok
      · rw [DocumentEvent.apply, DocumentEvent.outcome, hdocs]
        exact hsame s.docs key
  | sync uri =>
      refine ⟨Documents.keepsEditors_sync h, fun key => ?_, fun _ hstop => by cases hstop⟩
      have hget := Documents.get?_sync s.docs uri s.workspace key
      rw [DocumentEvent.apply, DocumentEvent.outcome, hget]
      cases s.docs.get? key <;> simp [DocumentEvent.left]
  | stop uri =>
      have hworkspace := Documents.workspace_stop_of_error h
      refine ⟨?_, fun key => ?_, ?_⟩
      · rw [DocumentEvent.apply, DocumentEvent.outcome, hworkspace]
        exact .refl s.workspace
      · have hget := Documents.get?_stop s.docs uri s.workspace key
        rw [DocumentEvent.apply, DocumentEvent.outcome, hget]
        cases s.docs.get? key <;> simp [DocumentEvent.left]
      · rintro _ ⟨⟩ hmanaged
        obtain ⟨d, hd⟩ := Option.isSome_iff_exists.1 hmanaged
        exact Documents.accepting_of_stop_error hd h
  | closeAll => cases h
  | elsewhere w => cases h

/-- An open document whose file is deleted keeps its text but not its version when it is saved. -/
theorem left_of_error_deleted :
    let uri := Workspace.sampleUri
    let opened := (initial 0 Workspace.sample).after [.start uri "three".toList 5]
    let s := opened.after [.elsewhere { opened.workspace with disk := {} }]
    let saved := (DocumentEvent.sync uri).apply s
    saved.1 = .error (.workspace (.unreadable .missing)) ∧
      s.docs.get? (.ofUri uri) = some ⟨.ofUri uri, uri, some 5, true⟩ ∧
      saved.2.docs.get? (.ofUri uri) = some ⟨.ofUri uri, uri, none, true⟩ ∧
      saved.2.workspace.editor? 0 (.ofUri uri) = some ⟨"three".toList, 0, true⟩ := by
  intro uri opened s saved
  have hfailed : saved.1 = .error (.workspace (.unreadable .missing)) := by decide +kernel
  have hmanaged : s.docs.get? (.ofUri uri) = some ⟨.ofUri uri, uri, some 5, true⟩ := by
    decide +kernel
  have heditor : s.workspace.editor? 0 (.ofUri uri) = some ⟨"three".toList, 0, true⟩ := by
    decide +kernel
  obtain ⟨hkept, hleft, -⟩ := left_of_error s (.sync uri) _ hfailed
  refine ⟨hfailed, hmanaged, ?_, hkept 0 _ _ heditor⟩
  rw [hleft, hmanaged, Option.bind_some, DocumentEvent.left, if_pos rfl]

end DocumentState

end LanguageServer
