import LanguageServer.Proofs.Text.Places
import LanguageServer.Proofs.Workspace.Editing
import LanguageServer.Server.Documents

/-!
# Operations on a document

An equation for each operation on a document, and what it does to the editor of the file. Changes
never break off (`foldlM_apply`): whatever the ranges are, the text becomes the one that is made by
putting one change after the other in place.
-/

namespace LanguageServer

namespace ContentChange

/-- A text after a change that does not break off. -/
def applied (t : Text) (change : ContentChange) : Text :=
  match change.range with
  | none => change.text.normalizeNewlines
  | some range => t.replaceRange range change.text.normalizeNewlines

theorem apply_eq (t : Text) (change : ContentChange) : apply t change = .ok (applied t change) := by
  unfold apply applied
  cases change.range with
  | none => rfl
  | some range => simp only [Text.replaceBytes_byteSpan]

theorem foldlM_apply (changes : List ContentChange) (t : Text) :
    changes.foldlM apply t = .ok (changes.foldl applied t) := by
  induction changes generalizing t with
  | nil => rfl
  | cons change changes ih =>
      rw [List.foldlM_cons, apply_eq, List.foldl_cons]
      exact ih (applied t change)

end ContentChange

namespace Documents

variable {docs : Documents} {w : Workspace} {key : FileKey} {editor : Editor}

/-! ### The list of documents -/

theorem get?_insert (docs : Documents) (d : ManagedDocument) (key : FileKey) :
    (docs.insert d).get? key = if d.key = key then some d else docs.get? key :=
  Keyed.get?_insert docs.managed d.key d key

theorem get?_erase (docs : Documents) (key other : FileKey) :
    (docs.erase key).get? other = if key = other then none else docs.get? other :=
  Keyed.get?_erase docs.managed key other

theorem get?_setVersion (docs : Documents) (key : FileKey) (version : Option Int)
    (other : FileKey) :
    (docs.setVersion key version).get? other =
      if key = other then (docs.get? other).map fun d => { d with version }
      else docs.get? other := by
  unfold setVersion get?
  induction docs.managed with
  | nil => simp
  | cons entry rest ih =>
      obtain ⟨k, d⟩ := entry
      by_cases hk : k = key
      · subst hk
        simp only [List.map_cons, if_true, Keyed.get?_cons, ih]
        split <;> rfl
      · simp only [List.map_cons, hk, if_false, Keyed.get?_cons, ih]
        split
        · next hother => rw [if_neg fun h => hk (hother.trans h.symm)]
        · rfl

/-! ### Running steps -/

theorem run_lift_bind {α β : Type} (steps : WorkspaceM α) (next : α → DocumentM β) (w : Workspace) :
    ((liftM steps : DocumentM α) >>= next).run.run w
      = (next (steps.run w).1).run.run (steps.run w).2 :=
  rfl

theorem run_bind {α β : Type} (steps : DocumentM α) (next : α → DocumentM β) (w : Workspace) :
    (steps >>= next).run.run w =
      match steps.run.run w with
      | (.ok a, w') => (next a).run.run w'
      | (.error e, w') => (.error e, w') := by
  rw [ExceptT.run_bind, StateT.run_bind]
  rcases steps.run.run w with ⟨_ | a, w'⟩ <;> rfl

theorem run_discard {α : Type} (steps : DocumentM α) (w : Workspace) :
    (discard steps).run.run w
      = ((steps.run.run w).1.map fun _ => (), (steps.run.run w).2) := by
  change (Functor.mapConst PUnit.unit steps).run.run w = _
  rw [map_const, Function.comp_apply, ← bind_pure_comp, run_bind]
  rcases steps.run.run w with ⟨_ | _, w'⟩ <;> rfl

theorem run_discard_lift {α : Type} (steps : WorkspaceM α) (w : Workspace) :
    (discard (liftM steps : DocumentM α)).run.run w = (.ok (), (steps.run w).2) := by
  rw [run_discard]
  rfl

theorem run_get_bind {β : Type} (next : Workspace → DocumentM β) (w : Workspace) :
    ((get : DocumentM Workspace) >>= next).run.run w = (next w).run.run w :=
  rfl

theorem guarded_run (haccepting : docs.accepting = true) {α : Type} (steps : DocumentM α)
    (w : Workspace) : (docs.guarded steps).run w = steps.run.run w := by
  rw [guarded, if_pos haccepting]

theorem guarded_run_of_not (haccepting : docs.accepting = false) {α : Type} (steps : DocumentM α)
    (w : Workspace) : (docs.guarded steps).run w = (.error (.command .unavailable), w) := by
  rw [guarded, if_neg (by simp [haccepting])]
  rfl

theorem lift_run (steps : WorkspaceM (Except WorkspaceError Unit)) (w : Workspace) :
    (lift steps).run.run w = ((steps.run w).1.mapError .workspace, (steps.run w).2) := by
  rw [lift, run_lift_bind]
  rcases steps.run w with ⟨_ | _, w'⟩ <;> rfl

/-! ### The editor of a document -/

theorem editorOf_run (docs : Documents) (key : FileKey) (missing : DocumentError) (w : Workspace) :
    (docs.editorOf key missing).run.run w =
      match (Workspace.openEditor docs.project key).run w with
      | (.error fault, w') => (.error (.command (.ofFault fault)), w')
      | (.ok false, w') => (.error missing, w')
      | (.ok true, w') =>
        match w'.editor? docs.project key with
        | some editor => (.ok editor, w')
        | none => (.error missing, w') := by
  rw [editorOf, run_lift_bind]
  rcases (Workspace.openEditor docs.project key).run w with ⟨_ | _ | _, w'⟩
  · rfl
  · rfl
  · change ((get : DocumentM Workspace) >>= _).run.run w' = _
    rw [run_get_bind]
    cases heditor : w'.editor? docs.project key <;> simp only [heditor] <;> rfl

theorem editorOf_of_opened (hopened : w.opened? docs.project key = some editor)
    (missing : DocumentError) :
    ∃ w', (docs.editorOf key missing).run.run w = (.ok editor, w') ∧
      w'.editor? docs.project key = some editor := by
  obtain ⟨w', hrun, heditor⟩ := Workspace.openEditor_of_opened hopened
  refine ⟨w', ?_, heditor⟩
  simp only [editorOf_run, hrun, heditor]

theorem editorOf_of_not_opened (hopened : w.opened? docs.project key = none)
    (missing : DocumentError) :
    ∃ e, (docs.editorOf key missing).run.run w
      = (.error e, ((Workspace.openEditor docs.project key).run w).2) := by
  have hresult := Workspace.openEditor_of_not_opened hopened
  rw [editorOf_run]
  generalize (Workspace.openEditor docs.project key).run w = outcome at hresult ⊢
  rcases outcome with ⟨_ | _ | _, w'⟩
  · exact ⟨_, rfl⟩
  · exact ⟨_, rfl⟩
  · exact absurd rfl hresult

/-! ### The operations one by one -/

/-- Changes that are made in an editor which can be written lead to the text with all of them put in
place in their order. -/
theorem change_of_opened (hopened : w.opened? docs.project key = some editor)
    (hwritable : editor.writable = true) (changes : List ContentChange) :
    ∃ w', (docs.change key changes).run.run w = (.ok (), w') ∧
      w'.editor? docs.project key
        = some (editor.setText (changes.foldl ContentChange.applied editor.text)) := by
  obtain ⟨w₁, hrun, heditor⟩ := editorOf_of_opened hopened (.noEditor key)
  obtain ⟨w₂, hedit, htext⟩ := Workspace.edit_of_editor heditor hwritable
    fun _ => changes.foldl ContentChange.applied editor.text
  refine ⟨w₂, ?_, htext⟩
  rw [change, run_bind, hrun]
  simp only [hwritable, Bool.not_true, Bool.false_eq_true, if_false, ContentChange.foldlM_apply]
  rw [lift_run, hedit]
  rfl

theorem change_of_not_opened (hopened : w.opened? docs.project key = none)
    (changes : List ContentChange) :
    ∃ e, (docs.change key changes).run.run w
      = (.error e, ((Workspace.openEditor docs.project key).run w).2) := by
  obtain ⟨e, hrun⟩ := editorOf_of_not_opened hopened (.noEditor key)
  refine ⟨e, ?_⟩
  rw [change, run_bind, hrun]

theorem fill_of_opened (hopened : w.opened? docs.project key = some editor)
    (hwritable : editor.writable = true) (text : Text) :
    ∃ w', (docs.fill key text).run.run w = (.ok (), w') ∧
      ∃ filled, w'.editor? docs.project key = some filled ∧ filled.text = text ∧
        filled.writable = true := by
  rw [← Workspace.opened?_refresh w docs.project key key] at hopened
  obtain ⟨w₁, hrun, heditor⟩ := editorOf_of_opened hopened (.fileNotFound key)
  have hfill : (docs.fill key text).run.run w =
      (if editor.writable && editor.text ≠ text then
        lift (Workspace.edit docs.project key fun _ => text) else pure ()).run.run w₁ := by
    rw [fill, run_bind, run_discard_lift]
    simp only
    rw [run_bind, hrun]
  rw [hfill, hwritable, Bool.true_and]
  by_cases htext : editor.text = text
  · rw [if_neg (by simpa using htext)]
    exact ⟨w₁, rfl, editor, heditor, htext, hwritable⟩
  · obtain ⟨w₂, hedit, hfilled⟩ := Workspace.edit_of_editor heditor hwritable fun _ => text
    rw [if_pos (by simpa using htext), lift_run, hedit]
    exact ⟨w₂, rfl, _, hfilled, rfl, hwritable⟩

/-- A document that is open keeps its editor when it is read again. The editor has the text on disk
then, unless it could not be opened again. -/
theorem reload_of_editor (heditor : w.editor? docs.project key = some editor)
    {path text : Text} {writable : Bool} (hpath : key.localPath? = some path)
    (hread : w.disk.readText path = .ok (text, writable)) :
    ((docs.reload key).run.run w).2.editor? docs.project key = some editor ∨
      ((docs.reload key).run.run w).2.editor? docs.project key = some (editor.setText text) := by
  have hstays := Workspace.editor?_openEditor heditor
  rw [← Workspace.openEditor_disk w docs.project key] at hread
  rw [reload, run_bind, run_discard, editorOf_run]
  generalize (Workspace.openEditor docs.project key).run w = outcome at hstays hread ⊢
  rcases outcome with ⟨_ | _ | _, w'⟩
  · exact .inl hstays
  · exact .inl hstays
  · obtain ⟨w₁, hreload, htext⟩ := Workspace.reload_of_editor hstays hpath hread
    simp only at hstays
    simp only [hstays, Except.map, lift_run, hreload]
    exact .inr htext

/-! ### What the client asks for -/

theorem start_run (docs : Documents) (uri text : Text) (version : Int) (w : Workspace) :
    (docs.start uri text version).run w =
      if isSupported (.ofUri uri) then
        match (docs.guarded (docs.fill (.ofUri uri) text.normalizeNewlines)).run w with
        | (.error e, w') => ((.error e, docs), w')
        | (.ok (), w') =>
          ((.ok (), docs.insert
            ⟨.ofUri uri, uri, if version = 0 then none else some version, true⟩), w')
      else ((.error (.unsupportedScheme uri), docs), w) := by
  cases hsupported : isSupported (.ofUri uri) with
  | false =>
      simp only [start, hsupported]
      rfl
  | true =>
      simp only [start, hsupported, Bool.not_true, Bool.false_eq_true, if_false, if_true,
        StateT.run_bind]
      rcases (docs.guarded _).run w with ⟨_ | _, w'⟩ <;> rfl

theorem update_run (docs : Documents) (uri : Text) (version : Int) (changes : List ContentChange)
    (w : Workspace) :
    (docs.update uri version changes).run w =
      match docs.get? (.ofUri uri) with
      | none => ((.error (.notManaged (.ofUri uri)), docs), w)
      | some d =>
        match checkVersion d.version version (min changes.length maxInt32) with
        | .error e => ((.error e, docs), w)
        | .ok () =>
          match (docs.guarded (docs.change (.ofUri uri) changes)).run w with
          | (.error e, w') => ((.error e, docs), w')
          | (.ok (), w') => ((.ok (), docs.setVersion (.ofUri uri) (some version)), w') := by
  cases hget : docs.get? (.ofUri uri) with
  | none =>
      simp only [update, hget]
      rfl
  | some d =>
      cases hcheck : checkVersion d.version version (min changes.length maxInt32) with
      | error e =>
          simp only [update, hget, hcheck]
          rfl
      | ok =>
          simp only [update, hget, hcheck, StateT.run_bind]
          rcases (docs.guarded _).run w with ⟨_ | _, w'⟩ <;> rfl

/-- An update whose version is right changes an editor that can be written, and stores the version.
-/
theorem update_of_opened (haccepting : docs.accepting = true) {uri : Text} {d : ManagedDocument}
    (hget : docs.get? (.ofUri uri) = some d)
    (hopened : w.opened? docs.project (.ofUri uri) = some editor)
    (hwritable : editor.writable = true) {version : Int} {changes : List ContentChange}
    (hcheck : checkVersion d.version version (min changes.length maxInt32) = .ok ()) :
    ∃ w', (docs.update uri version changes).run w
        = ((.ok (), docs.setVersion (.ofUri uri) (some version)), w') ∧
      w'.editor? docs.project (.ofUri uri)
        = some (editor.setText (changes.foldl ContentChange.applied editor.text)) := by
  obtain ⟨w', hchange, heditor⟩ := change_of_opened hopened hwritable changes
  refine ⟨w', ?_, heditor⟩
  simp only [update_run, hget, hcheck, guarded_run haccepting, hchange]

theorem sync_run (docs : Documents) (uri : Text) (w : Workspace) :
    (docs.sync uri).run w =
      match docs.get? (.ofUri uri) with
      | none => ((.error (.notManaged (.ofUri uri)), docs), w)
      | some _ =>
        let docs := docs.setVersion (.ofUri uri) none
        let read := (docs.guarded (docs.reload (.ofUri uri))).run w
        ((read.1, docs), read.2) := by
  cases hget : docs.get? (.ofUri uri) <;> simp only [sync, hget] <;> rfl

/-- Saving a document changes the text of its editor into the one on disk, or leaves it as it is. -/
theorem sync_of_editor {uri path text : Text} {writable : Bool}
    (heditor : w.editor? docs.project (.ofUri uri) = some editor)
    (hpath : (FileKey.ofUri uri).localPath? = some path)
    (hread : w.disk.readText path = .ok (text, writable)) :
    ((docs.sync uri).run w).1.2.project = docs.project ∧
      (((docs.sync uri).run w).2.editor? docs.project (.ofUri uri) = some editor ∨
        ((docs.sync uri).run w).2.editor? docs.project (.ofUri uri)
          = some (editor.setText text)) := by
  rw [sync_run]
  cases docs.get? (.ofUri uri) with
  | none => exact ⟨rfl, .inl heditor⟩
  | some d =>
      refine ⟨rfl, ?_⟩
      dsimp only
      cases haccepting : (docs.setVersion (.ofUri uri) none).accepting with
      | false =>
          rw [guarded_run_of_not haccepting]
          exact .inl heditor
      | true =>
          rw [guarded_run haccepting]
          exact reload_of_editor heditor hpath hread

theorem stop_run (docs : Documents) (uri : Text) (w : Workspace) :
    (docs.stop uri).run w =
      match docs.get? (.ofUri uri) with
      | none => ((.error (.notManaged (.ofUri uri)), docs), w)
      | some _ =>
        let docs := docs.erase (.ofUri uri)
        let closed := (docs.guarded
          (Workspace.closeEditor docs.project (.ofUri uri) : WorkspaceM Unit)).run w
        ((closed.1, docs), closed.2) := by
  cases hget : docs.get? (.ofUri uri) <;> simp only [stop, hget] <;> rfl

/-- Changes are only taken as long as editors can be changed, and if the file can be opened. -/
theorem opened_of_update {uri : Text} {version : Int} {changes : List ContentChange}
    (hok : ((docs.update uri version changes).run w).1.1 = .ok ()) :
    docs.accepting = true ∧ ∃ d editor, docs.get? (.ofUri uri) = some d ∧
      checkVersion d.version version (min changes.length maxInt32) = .ok () ∧
      w.opened? docs.project (.ofUri uri) = some editor := by
  rw [update_run] at hok
  cases hget : docs.get? (.ofUri uri) with
  | none =>
      rw [hget] at hok
      cases hok
  | some d =>
      cases hcheck : checkVersion d.version version (min changes.length maxInt32) with
      | error e =>
          simp only [hget, hcheck] at hok
          cases hok
      | ok =>
          simp only [hget, hcheck] at hok
          cases haccepting : docs.accepting with
          | false =>
              rw [guarded_run_of_not haccepting] at hok
              cases hok
          | true =>
              rw [guarded_run haccepting] at hok
              cases hopened : w.opened? docs.project (.ofUri uri) with
              | none =>
                  obtain ⟨e, hrun⟩ := change_of_not_opened hopened changes
                  rw [hrun] at hok
                  cases hok
              | some editor => exact ⟨rfl, d, editor, rfl, hcheck, rfl⟩

/-! ### What becomes of the list -/

theorem start_cases (docs : Documents) (uri text : Text) (version : Int) (w : Workspace) :
    (((docs.start uri text version).run w).1.1 = .ok () ∧
      ((docs.start uri text version).run w).1.2
        = docs.insert ⟨.ofUri uri, uri, if version = 0 then none else some version, true⟩) ∨
    (((docs.start uri text version).run w).1.1 ≠ .ok () ∧
      ((docs.start uri text version).run w).1.2 = docs) := by
  rw [start_run]
  split
  · rcases (docs.guarded _).run w with ⟨_ | _, w'⟩
    · exact .inr ⟨nofun, rfl⟩
    · exact .inl ⟨rfl, rfl⟩
  · exact .inr ⟨nofun, rfl⟩

theorem update_cases (docs : Documents) (uri : Text) (version : Int) (changes : List ContentChange)
    (w : Workspace) :
    (((docs.update uri version changes).run w).1.1 = .ok () ∧
      ((docs.update uri version changes).run w).1.2
        = docs.setVersion (.ofUri uri) (some version)) ∨
    (((docs.update uri version changes).run w).1.1 ≠ .ok () ∧
      ((docs.update uri version changes).run w).1.2 = docs) := by
  rw [update_run]
  split
  · exact .inr ⟨nofun, rfl⟩
  · next d hget =>
      cases checkVersion d.version version (min changes.length maxInt32) with
      | error e => exact .inr ⟨nofun, rfl⟩
      | ok =>
          dsimp only
          rcases (docs.guarded _).run w with ⟨_ | _, w'⟩
          · exact .inr ⟨nofun, rfl⟩
          · exact .inl ⟨rfl, rfl⟩

theorem sync_docs (docs : Documents) (uri : Text) (w : Workspace) :
    ((docs.sync uri).run w).1.2 = docs ∨
      ((docs.sync uri).run w).1.2 = docs.setVersion (.ofUri uri) none := by
  rw [sync_run]
  split
  · exact .inl rfl
  · exact .inr rfl

theorem stop_docs (docs : Documents) (uri : Text) (w : Workspace) :
    ((docs.stop uri).run w).1.2 = docs ∨ ((docs.stop uri).run w).1.2 = docs.erase (.ofUri uri) := by
  rw [stop_run]
  split
  · exact .inl rfl
  · exact .inr rfl

/-- Closing a document closes an editor, or does nothing. -/
theorem stop_workspace (docs : Documents) (uri : Text) (w : Workspace) :
    ((docs.stop uri).run w).2 = w ∨
      ((docs.stop uri).run w).2 = ((Workspace.closeEditor docs.project (.ofUri uri)).run w).2 := by
  rw [stop_run]
  split
  · exact .inl rfl
  · cases haccepting : (docs.erase (.ofUri uri)).accepting with
    | false =>
        dsimp only
        rw [guarded_run_of_not haccepting]
        exact .inl rfl
    | true =>
        dsimp only
        rw [guarded_run haccepting]
        exact .inr rfl

theorem closeAll_docs (docs : Documents) (w : Workspace) :
    (docs.closeAll.run w).1 = { docs with managed := [] } := by
  unfold closeAll
  split <;> rfl

end Documents

/-- The documents of a project with the workspace that holds their editors. -/
structure DocumentState where
  docs : Documents
  workspace : Workspace

/-- What happens to the documents of a project. `elsewhere` stands for all that other parties do
with the workspace. -/
inductive DocumentEvent
  | start (uri text : Text) (version : Int)
  | update (uri : Text) (version : Int) (changes : List ContentChange)
  | sync (uri : Text)
  | stop (uri : Text)
  | closeAll
  | elsewhere (w : Workspace)

namespace DocumentEvent

/-- The outcome of an operation, and the state that it leaves. -/
def outcome (result : (Except DocumentError Unit × Documents) × Workspace) :
    Except DocumentError Unit × DocumentState :=
  (result.1.1, ⟨result.1.2, result.2⟩)

/-- The outcome of an event, and the state that it leaves. -/
def apply (s : DocumentState) : DocumentEvent → Except DocumentError Unit × DocumentState
  | start uri text version => outcome ((s.docs.start uri text version).run s.workspace)
  | update uri version changes => outcome ((s.docs.update uri version changes).run s.workspace)
  | sync uri => outcome ((s.docs.sync uri).run s.workspace)
  | stop uri => outcome ((s.docs.stop uri).run s.workspace)
  | closeAll =>
    let closed := s.docs.closeAll.run s.workspace
    (.ok (), ⟨closed.1, closed.2⟩)
  | elsewhere w => (.ok (), ⟨s.docs, w⟩)

end DocumentEvent

end LanguageServer
