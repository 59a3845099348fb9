import LanguageServer.Proofs.Workspace.Editing

/-!
# Operations on files

Whatever is done with a file of a project, it comes to the same for a workspace: either all projects
stay as they are, or one is replaced by what the operation makes of it (`Project.Operation`), and
those who listen to it are told (`Workspace.Operates`). So what an operation keeps up in a project,
it keeps up in a workspace.
-/

namespace LanguageServer

/-- What an operation on a file can make of a project, and the events that it tells of. Only some
editors may be closed. -/
inductive Project.Operation (disk : FileTree) (closes : FileKey → Prop) (p : Project) :
    Project → List ProjectEvent → Prop
  | refresh (key : FileKey) : Operation disk closes p (p.refresh disk key).1 []
  | openEditor (key : FileKey) :
      Operation disk closes p (p.openEditor disk key).1 (p.openEditor disk key).2.2
  | edit {key : FileKey} {change : Text → Text} {q : Project} {events : List ProjectEvent}
      (h : p.edit key change = .ok (q, events)) : Operation disk closes p q events
  | reload {key : FileKey} {q : Project} {events : List ProjectEvent}
      (h : p.reload disk key = .ok (q, events)) : Operation disk closes p q events
  | moveCaret (key : FileKey) (offset : Nat) :
      Operation disk closes p (p.moveCaret key offset) []
  | closeEditor {key : FileKey} (h : closes key) :
      Operation disk closes p (p.closeEditor disk key) []

/-- A call that neither opens nor closes a project. -/
def Call.IsQuiet : Call → Prop
  | .resolve .. | .closeProject .. => False
  | .closeEditor _ | .refresh _ | .workspaceSymbols .. => True

namespace Workspace

/-- A workspace before and after an operation on a file of a project. -/
structure Operates (id : Nat) (closes : FileKey → Prop) (w w' : Workspace) : Prop where
  disk : w'.disk = w.disk
  table : w'.table = w.table
  calls : ∃ more, w'.calls = w.calls ++ more ∧ ∀ call ∈ more, call.IsQuiet
  projects : (w'.projects = w.projects ∧ w'.events = w.events) ∨
    ∃ p q events, w.project? id = some p ∧ p.Operation w.disk closes q events ∧
      w'.projects = (w.setProject id q).projects ∧
      w'.events = w.events ++ events.flatMap fun e => (q.listeners.map (·.2)).map (·, e)

variable {closes : FileKey → Prop} (w : Workspace) (id : Nat)

theorem calls_kept : ∃ more, w.calls = w.calls ++ more ∧ ∀ call ∈ more, call.IsQuiet :=
  ⟨[], (List.append_nil _).symm, fun _ h => absurd h List.not_mem_nil⟩

theorem operates_refl : Operates id closes w w := ⟨rfl, rfl, w.calls_kept, .inl ⟨rfl, rfl⟩⟩

theorem operates_note {call : Call} (hcall : call.IsQuiet) :
    Operates id closes w ((note call).run w).2 :=
  ⟨rfl, rfl, ⟨[call], rfl, fun _ hmem => List.mem_singleton.1 hmem ▸ hcall⟩, .inl ⟨rfl, rfl⟩⟩

theorem operates_emit {p q : Project} {events : List ProjectEvent} (hp : w.project? id = some p)
    (h : p.Operation w.disk closes q events) :
    Operates id closes w ((emit id events).run (w.setProject id q)).2 := by
  refine ⟨rfl, rfl, w.calls_kept, .inr ⟨p, q, events, hp, h, rfl, ?_⟩⟩
  simp only [emit, StateT.run_modify, project?_setProject hp]
  rfl

/-- Nobody is told of an operation without events, whatever calls have been noted before. -/
theorem operates_setProject {w₁ : Workspace} (hnoted : Operates id closes w w₁)
    (hprojects : w₁.projects = w.projects) (hevents : w₁.events = w.events) {p q : Project}
    (hp : w.project? id = some p) (h : p.Operation w.disk closes q []) :
    Operates id closes w (w₁.setProject id q) :=
  ⟨hnoted.disk, hnoted.table, hnoted.calls,
    .inr ⟨p, q, [], hp, h, congrArg (·.set id q) hprojects, hevents.trans (List.append_nil _).symm⟩⟩

theorem operates_settle {p : Project} (hp : w.project? id = some p)
    {outcome : Except WorkspaceError (Project × List ProjectEvent)}
    (h : ∀ q events, outcome = .ok (q, events) → p.Operation w.disk closes q events) :
    Operates id closes w ((settle id outcome).run w).2 := by
  rw [settle_run]
  split
  · exact w.operates_refl id
  · exact w.operates_emit id hp (h _ _ rfl)

theorem operates_refresh (key : FileKey) : Operates id closes w ((refresh id key).run w).2 := by
  have hquiet : (Call.refresh key).IsQuiet := trivial
  rw [refresh_run]
  cases hp : w.project? id with
  | none => exact w.operates_note id hquiet
  | some p => exact w.operates_setProject id (w.operates_note id hquiet) rfl rfl hp (.refresh key)

theorem operates_openEditor (key : FileKey) :
    Operates id closes w ((openEditor id key).run w).2 := by
  rw [openEditor_run]
  split
  · exact w.operates_refl id
  · exact w.operates_refl id
  · exact w.operates_refl id
  · next p _ hp => exact w.operates_emit id hp (.openEditor key)

theorem operates_edit (key : FileKey) (change : Text → Text) :
    Operates id closes w ((edit id key change).run w).2 := by
  rw [edit_run]
  split
  · exact w.operates_refl id
  · next p hp => exact w.operates_settle id hp fun q events h => .edit h

theorem operates_reload (key : FileKey) : Operates id closes w ((reload id key).run w).2 := by
  rw [reload_run]
  split
  · exact w.operates_refl id
  · next p hp => exact w.operates_settle id hp fun q events h => .reload h

theorem operates_moveCaret (key : FileKey) (offset : Nat) :
    Operates id closes w ((moveCaret id key offset).run w).2 := by
  rw [moveCaret_run]
  split
  · exact w.operates_refl id
  · next p hp =>
      exact w.operates_setProject id (w.operates_refl id) rfl rfl hp (.moveCaret key offset)

theorem operates_closeEditor {key : FileKey} (h : closes key) :
    Operates id closes w ((closeEditor id key).run w).2 := by
  have hquiet : (Call.closeEditor key).IsQuiet := trivial
  rw [closeEditor_run]
  split
  · exact w.operates_note id hquiet
  · next p hp =>
      exact w.operates_setProject id (w.operates_note id hquiet) rfl rfl hp (.closeEditor h)

end Workspace

end LanguageServer
