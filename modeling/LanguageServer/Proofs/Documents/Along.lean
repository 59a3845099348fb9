import LanguageServer.Proofs.Documents.Steps
import LanguageServer.Proofs.Workspace.Operations
import LanguageServer.Server.Execution

/-!
# What holds along the work for a client

Operations on documents, work on files and searches for symbols are put together from a few steps
of the workspace: a file is read again, its editor is opened, its text is changed or its caret is
moved. A relation of the workspace before and after that holds along those (`WorkRelation`) holds
along everything that is made of them. It does if it holds along all operations on files that close
no editor (`WorkRelation.of_operates`). Closing an editor stands apart, since less stays as it was.
-/

namespace LanguageServer

namespace Workspace

/-- A workspace is related to the one after some steps, whatever it was before. -/
def Along {α : Type} (R : Workspace → Workspace → Prop) (steps : WorkspaceM α) : Prop :=
  ∀ w, R w (steps.run w).2

/-- A relation along the steps that work on the files of a project is made of. -/
structure WorkRelation (R : Workspace → Workspace → Prop) (id : Nat) : Prop where
  refl : ∀ w, R w w
  trans : ∀ {w w₁ w' : Workspace}, R w w₁ → R w₁ w' → R w w'
  refresh : ∀ key, Along R (refresh id key)
  openEditor : ∀ key, Along R (openEditor id key)
  edit : ∀ key change, Along R (edit id key change)
  reload : ∀ key, Along R (reload id key)
  moveCaret : ∀ key offset, Along R (moveCaret id key offset)
  note : ∀ pattern limit, Along R (note (.workspaceSymbols pattern limit))

end Workspace

open Workspace (Along)

namespace Workspace.WorkRelation

variable {α β : Type} {R : Workspace → Workspace → Prop} {id : Nat}

theorem of_operates (hrefl : ∀ w, R w w)
    (htrans : ∀ {w w₁ w' : Workspace}, R w w₁ → R w₁ w' → R w w')
    (h : ∀ {w w' : Workspace}, Operates id (fun _ => False) w w' → R w w') : WorkRelation R id where
  refl := hrefl
  trans := htrans
  refresh key w := h (w.operates_refresh id key)
  openEditor key w := h (w.operates_openEditor id key)
  edit key change w := h (w.operates_edit id key change)
  reload key w := h (w.operates_reload id key)
  moveCaret key offset w := h (w.operates_moveCaret id key offset)
  note _ _ w := h (w.operates_note id trivial)

/-! ### Combinations of steps -/

theorem pure (h : WorkRelation R id) (a : α) : Along R (Pure.pure a : WorkspaceM α) :=
  fun w => h.refl w

theorem get (h : WorkRelation R id) : Along R (MonadState.get : WorkspaceM Workspace) :=
  fun w => h.refl w

theorem bind (h : WorkRelation R id) {steps : WorkspaceM α} {next : α → WorkspaceM β}
    (hsteps : Along R steps) (hnext : ∀ a, Along R (next a)) : Along R (steps >>= next) :=
  fun w => h.trans (hsteps w) (hnext _ _)

theorem forM (h : WorkRelation R id) {steps : α → WorkspaceM PUnit}
    (hsteps : ∀ a, Along R (steps a)) (as : List α) : Along R (as.forM steps) := by
  induction as with
  | nil => exact h.pure _
  | cons a as ih => exact h.bind (hsteps a) fun _ => ih

theorem run_bind (h : WorkRelation R id) {steps : DocumentM α} {next : α → DocumentM β}
    (hsteps : Along R steps.run) (hnext : ∀ a, Along R (next a).run) :
    Along R (steps >>= next).run := by
  intro w
  have hfirst := hsteps w
  rw [Documents.run_bind]
  generalize steps.run.run w = outcome at hfirst ⊢
  rcases outcome with ⟨e | a, w'⟩
  · exact hfirst
  · exact h.trans hfirst (hnext a w')

theorem run_discard {steps : DocumentM α} (hsteps : Along R steps.run) :
    Along R (Functor.discard steps).run := by
  intro w
  rw [Documents.run_discard]
  exact hsteps w

theorem run_lift {steps : WorkspaceM (Except WorkspaceError Unit)} (hsteps : Along R steps) :
    Along R (Documents.lift steps).run := by
  intro w
  rw [Documents.lift_run]
  exact hsteps w

theorem guarded (h : WorkRelation R id) (docs : Documents) {steps : DocumentM α}
    (hsteps : Along R steps.run) : Along R (docs.guarded steps) := by
  intro w
  cases haccepting : docs.accepting with
  | false =>
      rw [Documents.guarded_run_of_not haccepting]
      exact h.refl w
  | true =>
      rw [Documents.guarded_run haccepting]
      exact hsteps w

/-! ### Operations on documents -/

variable {docs : Documents}

theorem editorOf (h : WorkRelation R docs.project) (key : FileKey) (missing : DocumentError) :
    Along R (docs.editorOf key missing).run := by
  intro w
  have hopened := h.openEditor key w
  rw [Documents.editorOf_run]
  generalize (Workspace.openEditor docs.project key).run w = outcome at hopened ⊢
  rcases outcome with ⟨_ | _ | _, w'⟩
  · exact hopened
  · exact hopened
  · dsimp only
    split <;> exact hopened

theorem fill (h : WorkRelation R docs.project) (key : FileKey) (text : Text) :
    Along R (docs.fill key text).run := by
  have hrefresh : Along R (liftM (Workspace.refresh docs.project key) : DocumentM Bool).run :=
    h.refresh key
  refine h.run_bind (run_discard hrefresh) fun _ => ?_
  refine h.run_bind (h.editorOf key _) fun editor => ?_
  split
  · exact run_lift (h.edit _ _)
  · exact h.pure _

theorem change (h : WorkRelation R docs.project) (key : FileKey) (changes : List ContentChange) :
    Along R (docs.change key changes).run := by
  refine h.run_bind (h.editorOf key _) fun editor => ?_
  cases editor.writable with
  | false => exact h.pure _
  | true =>
      simp only [Bool.not_true, Bool.false_eq_true, if_false, ContentChange.foldlM_apply]
      exact run_lift (h.edit _ _)

theorem reloadDocument (h : WorkRelation R docs.project) (key : FileKey) :
    Along R (docs.reload key).run := by
  refine h.run_bind (run_discard (h.editorOf key _)) fun _ => ?_
  exact run_lift (h.reload _)

theorem start (h : WorkRelation R docs.project) (uri text : Text) (version : Int) :
    Along R (docs.start uri text version) := by
  intro w
  have hfill := h.guarded docs (h.fill (.ofUri uri) text.normalizeNewlines) w
  rw [Documents.start_run]
  split
  · generalize (docs.guarded _).run w = outcome at hfill ⊢
    rcases outcome with ⟨_ | _, w'⟩ <;> exact hfill
  · exact h.refl w

theorem update (h : WorkRelation R docs.project) (uri : Text) (version : Int)
    (changes : List ContentChange) : Along R (docs.update uri version changes) := by
  intro w
  have hchange := h.guarded docs (h.change (.ofUri uri) changes) w
  rw [Documents.update_run]
  split
  · exact h.refl w
  · next d _ =>
      cases Documents.checkVersion d.version version (min changes.length Documents.maxInt32) with
      | error e => exact h.refl w
      | ok =>
          dsimp only
          generalize (docs.guarded _).run w = outcome at hchange ⊢
          rcases outcome with ⟨_ | _, w'⟩ <;> exact hchange

theorem sync (h : WorkRelation R docs.project) (uri : Text) : Along R (docs.sync uri) := by
  intro w
  rw [Documents.sync_run]
  split
  · exact h.refl w
  · have hlater : WorkRelation R (docs.setVersion (.ofUri uri) none).project := h
    exact h.guarded _ (hlater.reloadDocument _) w

theorem stop (h : WorkRelation R docs.project) {uri : Text}
    (hclose : Along R (Workspace.closeEditor docs.project (.ofUri uri))) :
    Along R (docs.stop uri) := by
  intro w
  have hlift : Along R
      (liftM (Workspace.closeEditor docs.project (.ofUri uri)) : DocumentM Unit).run := hclose
  rw [Documents.stop_run]
  split
  · exact h.refl w
  · exact h.guarded _ hlift w

theorem closeAll (h : WorkRelation R docs.project)
    (hclose : ∀ key, Along R (Workspace.closeEditor docs.project key)) :
    Along R docs.closeAll := by
  unfold Documents.closeAll
  split
  · refine h.bind h.get fun w => ?_
    exact h.bind (h.forM hclose _) fun _ => h.pure _
  · exact h.pure _

/-! ### Work on files -/

theorem enter {work : Work} (h : WorkRelation R work.project) : Along R work.enter := by
  refine h.bind (h.openEditor _) fun opened => ?_
  rcases opened with _ | _ | _
  · exact h.pure _
  · exact h.pure _
  · refine h.bind h.get fun w => ?_
    split
    · exact h.bind (h.moveCaret _ _) fun _ => h.pure _
    · exact h.pure _

theorem runWork {work : Work} (h : WorkRelation R work.project) (accepting : Bool)
    (query : Sources → Context → Except Fault α) : Along R (work.run accepting query) := by
  unfold Work.run
  split
  · exact h.pure _
  · split
    · exact h.pure _
    · refine h.bind h.enter fun entered => ?_
      rcases entered with _ | _ | ⟨sources, context⟩
      · exact h.pure _
      · exact h.pure _
      · dsimp only
        split <;> exact h.pure _

theorem searchSymbols {project : Nat} (h : WorkRelation R project) (query : Text) (limit : Nat)
    (cancelled : Bool) : Along R (searchSymbols project query limit cancelled) := by
  refine h.bind h.get fun w => ?_
  dsimp only
  split
  · exact h.pure _
  · refine h.bind ?_ fun found => ?_
    · refine h.bind (h.note _ _) fun _ => h.bind h.get fun w => ?_
      split <;> exact h.pure _
    · rcases found with _ | found
      · exact h.pure _
      · dsimp only
        split <;> exact h.pure _

end Workspace.WorkRelation

namespace Work

theorem enter_run (work : Work) (w : Workspace) :
    work.enter.run w =
      match (Workspace.openEditor work.project work.key).run w with
      | (.error fault, w₁) => (.error fault, w₁)
      | (.ok false, w₁) => (.ok none, w₁)
      | (.ok true, w₁) =>
        match w₁.project? work.project, w₁.editor? work.project work.key with
        | some p, some e =>
          let caret := match work.position with
            | some position => e.text.offsetOf position
            | none => e.caret
          (.ok (some (p.toSources,
            ⟨work.key, e.text, caret, work.cancellable && work.cancellation = .during⟩)),
            ((Workspace.moveCaret work.project work.key caret).run w₁).2)
        | _, _ => (.ok none, w₁) := by
  simp only [enter, StateT.run_bind]
  generalize (Workspace.openEditor work.project work.key).run w = outcome
  obtain ⟨_ | _ | _, w₁⟩ := outcome
  · rfl
  · rfl
  · change (StateT.run (do let workspace ← get; _) w₁ : Id _) = _
    simp only [StateT.run_bind, StateT.run_get, pure_bind]
    cases w₁.project? work.project <;> cases w₁.editor? work.project work.key <;> rfl

end Work

end LanguageServer
