import LanguageServer.Proofs.Session.Tended

/-!
# Sessions that keep their project

Only three things change the project of a session: it opens one, shuts down or ends. All the rest is
`Session.Steady`: the workspace is steady, and neither the phase nor the binding in force changes.
Tended steps are steady, and so are operations on documents, which are not tended.
-/

namespace LanguageServer

/-- What a binding says about projects: the one that it is for, and the one of its documents with
whether they can be changed. -/
def Binding.stance (b : Binding) : Nat × Nat × Bool :=
  (b.project, b.documents.project, b.documents.accepting)

namespace Session

open Workspace (Keeps)

/-- A session with a steady workspace, and bindings that say the same about projects. -/
structure Steady (s s' : Session) : Prop where
  workspace : s.workspace.Steady s'.workspace
  slot : s'.slot = s.slot
  phase : s'.phase = s.phase
  current : s'.current = s.current
  bindings : s'.bindings.map Binding.stance = s.bindings.map Binding.stance

namespace Steady

theorem refl (s : Session) : Steady s s := ⟨.refl _, rfl, rfl, rfl, rfl⟩

theorem trans {s s₁ s' : Session} (h : Steady s s₁) (h' : Steady s₁ s') : Steady s s' :=
  ⟨h.workspace.trans h'.workspace, h'.slot.trans h.slot, h'.phase.trans h.phase,
    h'.current.trans h.current, h'.bindings.trans h.bindings⟩

theorem of_client (s : Session) (c : Client) : Steady s { s with client := c } :=
  ⟨.refl _, rfl, rfl, rfl, rfl⟩

end Steady

variable {s s' : Session}

theorem Tended.steady (h : Tended s s') : Steady s s' := by
  refine ⟨h.workspace.steady, h.slot, h.phase, h.current, ?_⟩
  have hstance : Binding.stance
      = (fun held => (held.1, held.2.project, held.2.accepting)) ∘ Binding.held := rfl
  rw [hstance, ← List.map_map, ← List.map_map, h.bindings]

theorem steady_modifyBinding {i : Nat} {change : Binding → Binding}
    (hchange : ∀ b, s.bindings[i]? = some b → (change b).stance = b.stance) :
    Steady s (s.modifyBinding i change) :=
  ⟨.refl _, rfl, rfl, rfl, map_modifyBinding hchange⟩

theorem steady_within {α : Type} (documents : Documents) {steps : WorkspaceM α}
    (hsteps : Keeps steps) : Steady s (s.within documents steps).2 := by
  have hsteady : Steady s
      { s with workspace := { (steps.run s.workspace).2 with events := [] } } := by
    have hworkspace := hsteps s.workspace
    exact ⟨⟨hworkspace.table, hworkspace.calls, hworkspace.length, hworkspace.projects⟩, rfl, rfl,
      rfl, rfl⟩
  exact hsteady.trans (Tended.foldl (tended_deliver documents) _ _).steady

/-! ### Operations on documents -/

theorem Steady.stance {i : Nat} {b b' : Binding} (h : Steady s s') (hb : s.bindings[i]? = some b)
    (hb' : s'.bindings[i]? = some b') : b'.stance = b.stance := by
  have hsame := congrArg (·[i]?) h.bindings
  simpa [hb, hb'] using hsame

theorem steady_withDocuments {i : Nat} {b : Binding} (hb : s.bindings[i]? = some b)
    (seen : Documents) {steps : WorkspaceM (Except DocumentError Unit × Documents)}
    (hsteps : Keeps steps) (hsame : b.documents.SameProject (steps.run s.workspace).1.2) :
    Steady s (s.withDocuments i seen steps) := by
  have hwithin := steady_within (s := s) seen hsteps
  -- The events of the steps may have changed the binding, but not what it says about projects.
  refine hwithin.trans (steady_modifyBinding fun b' hb' => ?_)
  have hstance := hwithin.stance hb hb'
  simp only [Binding.stance, Prod.mk.injEq, true_and] at hstance ⊢
  obtain ⟨-, hproject, haccepting⟩ := hstance
  exact ⟨hsame.project.trans hproject.symm, hsame.accepting.trans haccepting.symm⟩

theorem steady_didOpen {i : Nat} {b : Binding} (hb : s.bindings[i]? = some b)
    (d : Params.OpenedDocument) : Steady s (s.didOpen i b.documents d) := by
  have hsame := b.documents.sameProject_start d.uri d.text d.version s.workspace
  have hstart := steady_withDocuments hb b.documents (Documents.keeps_start _ _ _ _) hsame
  exact hstart.trans (stepRelation_tended.announceIndexing _).steady

theorem steady_didChange {i : Nat} {b : Binding} (hb : s.bindings[i]? = some b)
    (d : Params.ChangedDocument) : Steady s (s.didChange i b.documents d) := by
  have hsame := b.documents.sameProject_update d.uri d.version d.changes s.workspace
  exact steady_withDocuments hb b.documents (Documents.keeps_update _ _ _ _) hsame

theorem steady_didSave {i : Nat} {b : Binding} (hb : s.bindings[i]? = some b) (uri : Text) :
    Steady s (s.didSave i b.documents uri) := by
  have hsame := b.documents.sameProject_sync uri s.workspace
  exact steady_withDocuments hb _ (Documents.keeps_sync _ _) hsame

theorem steady_didClose {i : Nat} {b : Binding} (hb : s.bindings[i]? = some b) (uri : Text) :
    Steady s (s.didClose i b.documents uri) := by
  have hsame := b.documents.sameProject_stop uri s.workspace
  exact steady_withDocuments hb b.documents (Documents.keeps_stop _ _) hsame

theorem steady_notified {i : Nat} {b : Binding} (hb : s.bindings[i]? = some b)
    (n : Notification) : Steady s (s.notified i b.documents n) := by
  rw [notified]
  split
  · exact taken_or_dropped (steady_didOpen hb) (.refl s) _
  · exact taken_or_dropped (steady_didChange hb) (.refl s) _
  · exact taken_or_dropped (steady_didSave hb) (.refl s) _
  · exact taken_or_dropped (steady_didClose hb) (.refl s) _
  · exact taken_or_dropped (fun uris => (stepRelation_tended.didRename hb uris).steady) (.refl s) _
  · exact .refl s

theorem steady_handleNotification (s : Session) (n : Notification) :
    Steady s (s.handleNotification n).2 := by
  rw [handleNotification]
  split
  · exact .refl s
  · split
    · exact taken_or_dropped (fun id => (stepRelation_tended.cancel s id).steady) (.refl s) _
    · split
      · exact .refl s
      · split
        · next i b _ hcurrent hbinding =>
            refine steady_notified ?_ n
            rwa [binding?, hcurrent, Option.bind_some] at hbinding
        · exact .refl s

end Session

end LanguageServer
