import LanguageServer.Proofs.Documents.Steady
import LanguageServer.Proofs.Session.Along
import LanguageServer.Proofs.Workspace.Buffers

/-!
# Steps that leave documents alone

Most of what a session does is about none of its documents. It may open the editor of a file to work
on it, but it opens and closes no project, closes no editor, and leaves the list of documents as it
is. Such a step is `Session.Tended`.
-/

namespace LanguageServer

/-- Every project is open or closed as before, for the same listeners, and has all its editors. -/
structure Workspace.Worked (w w' : Workspace) : Prop where
  steady : Steady w w'
  upkeep : ∀ id, Upkeep id (fun _ => False) w w'

namespace Workspace

theorem Worked.refl (w : Workspace) : Worked w w := ⟨.refl w, fun _ => .refl w⟩

theorem Worked.trans {w w₁ w' : Workspace} (h : Worked w w₁) (h' : Worked w₁ w') : Worked w w' :=
  ⟨h.steady.trans h'.steady, fun id => (h.upkeep id).trans (h'.upkeep id)⟩

theorem Worked.of_projects {w w' : Workspace} (hprojects : w'.projects = w.projects)
    (htable : w'.table = w.table) (hcalls : w'.calls = w.calls) : Worked w w' := by
  have hproject : ∀ id, w'.project? id = w.project? id := fun id => by
    rw [project?, hprojects, project?]
  refine ⟨⟨htable, ⟨[], ?_, fun _ h => absurd h List.not_mem_nil⟩, by rw [hprojects],
    fun id p hp => ?_⟩, fun id p hp => ?_⟩
  · rw [hcalls, List.append_nil]
  · exact ⟨p, (hproject id).trans hp, .refl p⟩
  · exact ⟨p, (hproject id).trans hp, .refl p⟩

theorem Operates.worked {w w' : Workspace} {id : Nat} (h : Operates id (fun _ => False) w w') :
    Worked w w' :=
  ⟨h.steady, fun _ => h.upkeep fun _ hcloses => hcloses.elim⟩

theorem workRelation_worked (id : Nat) : WorkRelation Worked id :=
  .of_operates .refl .trans Operates.worked

end Workspace

namespace Session

open Workspace (Along Worked)

variable {s s' : Session}

/-- The same documents and projects, with every editor still open. -/
structure Tended (s s' : Session) : Prop where
  connected : s'.client.connected = s.client.connected
  slot : s'.slot = s.slot
  phase : s'.phase = s.phase
  current : s'.current = s.current
  bindings : s'.bindings.map Binding.held = s.bindings.map Binding.held
  events : s.workspace.events = [] → s'.workspace.events = []
  workspace : s.workspace.Worked s'.workspace

namespace Tended

theorem refl (s : Session) : Tended s s := ⟨rfl, rfl, rfl, rfl, rfl, id, .refl _⟩

theorem trans {s s₁ s' : Session} (h : Tended s s₁) (h' : Tended s₁ s') : Tended s s' :=
  ⟨h'.connected.trans h.connected, h'.slot.trans h.slot, h'.phase.trans h.phase,
    h'.current.trans h.current, h'.bindings.trans h.bindings,
    fun hevents => h'.events (h.events hevents), h.workspace.trans h'.workspace⟩

theorem of_client (s : Session) {c : Client} (h : c.connected = s.client.connected) :
    Tended s { s with client := c } :=
  ⟨h, rfl, rfl, rfl, rfl, id, .refl _⟩

theorem foldl {α : Type} {f : Session → α → Session} (h : ∀ s a, Tended s (f s a)) (as : List α)
    (s : Session) : Tended s (as.foldl f s) :=
  List.foldlRecOn as f (refl s) fun s₁ hs a _ => hs.trans (h s₁ a)

end Tended

/-! ### The parts of a session -/

/-- What a change leaves alone in one binding is as before in all of them. -/
theorem map_modifyBinding {α : Type} {f : Binding → α} {i : Nat} {change : Binding → Binding}
    (hchange : ∀ b, s.bindings[i]? = some b → f (change b) = f b) :
    (s.modifyBinding i change).bindings.map f = s.bindings.map f := by
  refine List.ext_getElem? fun j => ?_
  rw [modifyBinding, List.getElem?_map, List.getElem?_map, List.getElem?_modify]
  cases hb : s.bindings[j]? with
  | none => rfl
  | some b =>
      simp only [Option.map_eq_map, Option.map_some]
      split
      · next hj => rw [hchange b (hj ▸ hb)]
      · rfl

theorem modifyProgress_workspace (s : Session) (change : Progress → Client → Progress × Client) :
    (s.modifyProgress change).workspace = s.workspace := by
  rw [modifyProgress]
  split <;> rfl

theorem deliver_workspace (docs : Documents) (s : Session) (e : Listener × ProjectEvent) :
    (deliver docs s e).workspace = s.workspace := by
  unfold deliver
  split
  · rfl
  · rfl
  · rfl
  · exact modifyProgress_workspace ..
  · exact modifyProgress_workspace ..
  · rfl

/-- Passing events on changes nothing in the workspace. -/
theorem within_workspace {α : Type} (s : Session) (docs : Documents) (steps : WorkspaceM α) :
    (s.within docs steps).2.workspace = { (steps.run s.workspace).2 with events := [] } := by
  rw [within]
  generalize steps.run s.workspace = outcome
  obtain ⟨result, w⟩ := outcome
  exact List.foldlRecOn (motive := fun s : Session => s.workspace = { w with events := [] })
    w.events _ rfl fun s₁ hs e _ => (deliver_workspace docs s₁ e).trans hs

/-! ### Parts of steps -/

theorem tended_modifyBinding (s : Session) (i : Nat) {change : Binding → Binding}
    (hchange : ∀ b, (change b).held = b.held) : Tended s (s.modifyBinding i change) :=
  ⟨rfl, rfl, rfl, rfl, map_modifyBinding fun b _ => hchange b, id, .refl _⟩

theorem tended_modifyProgress (s : Session) {change : Progress → Client → Progress × Client}
    (hchange : ∀ p c, Client.Quiet c (change p c).2) : Tended s (s.modifyProgress change) := by
  rw [modifyProgress]
  split
  · next i b _ _ =>
      have hclient := hchange b.progress s.client
      dsimp only
      generalize change b.progress s.client = outcome at hclient ⊢
      obtain ⟨progress, client⟩ := outcome
      exact (Tended.of_client s hclient.connected).trans (tended_modifyBinding _ i fun _ => rfl)
  · exact .refl s

theorem tended_deliver (documents : Documents) (s : Session) (e : Listener × ProjectEvent) :
    Tended s (deliver documents s e) := by
  have hconnected := (quiet_deliver documents s e).client.connected
  unfold deliver at hconnected ⊢
  split
  · exact .of_client s hconnected
  · exact .of_client s hconnected
  · exact .of_client s hconnected
  · exact tended_modifyProgress s fun p => Progress.reportRelation_quiet.push p _
  · exact tended_modifyProgress s fun p => Progress.reportRelation_quiet.push p _
  · exact .refl s

theorem tended_within (s : Session) (documents : Documents) {α : Type} {steps : WorkspaceM α}
    (hsteps : Along Worked steps) : Tended s (s.within documents steps).2 := by
  obtain ⟨hsteady, hupkeep⟩ := hsteps s.workspace
  have hworkspace : Tended s
      { s with workspace := { (steps.run s.workspace).2 with events := [] } } :=
    ⟨rfl, rfl, rfl, rfl, rfl, fun _ => rfl,
      ⟨hsteady.table, hsteady.calls, hsteady.length, hsteady.projects⟩, hupkeep⟩
  exact hworkspace.trans (Tended.foldl (tended_deliver documents) _ _)

/-- Every step that leaves documents alone is tended. -/
theorem stepRelation_tended : StepRelation Tended where
  refl := .refl
  trans := .trans
  client s _ hc := .of_client s hc.connected
  requests _ _ _ := ⟨rfl, rfl, rfl, rfl, rfl, id, .refl _⟩
  binding s i _ hchange := tended_modifyBinding s i hchange
  within := fun {s _ b} _ {_ _} ⟨id, hworks⟩ =>
    tended_within s b.documents (hworks (Workspace.workRelation_worked id))

end Session

end LanguageServer
