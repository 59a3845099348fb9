import LanguageServer.Proofs.Documents.Along
import LanguageServer.Proofs.Session.Posted

/-!
# What holds along the steps of a session

Most steps of a session are put together from a few parts that are about none of its documents:
something is sent that brings no findings, the requests that wait are changed, a binding takes note
of something, or files are worked on. A relation that holds along those (`Session.StepRelation`)
holds along every step made of them.
-/

namespace LanguageServer

/-- Steps that work on the files of a project. -/
def Workspace.Works {α : Type} (steps : WorkspaceM α) : Prop :=
  ∃ id, ∀ {R : Workspace → Workspace → Prop}, WorkRelation R id → Along R steps

/-- The project of a binding with its documents. -/
def Binding.held (b : Binding) : Nat × Documents := (b.project, b.documents)

namespace Session

open Workspace (Works)

/-- A relation along the parts that the steps which leave documents alone are made of. -/
structure StepRelation (R : Session → Session → Prop) : Prop where
  refl : ∀ s, R s s
  trans : ∀ {s s₁ s' : Session}, R s s₁ → R s₁ s' → R s s'
  client : ∀ s {c : Client}, s.client.Unposted c → R s { s with client := c }
  requests : ∀ s queue issued, R s { s with queue, issued }
  binding : ∀ s i (change : Binding → Binding), (∀ b, (change b).held = b.held) →
    R s (s.modifyBinding i change)
  within : ∀ {s : Session} {i : Nat} {b : Binding}, s.bindings[i]? = some b →
    ∀ {α : Type} {steps : WorkspaceM α}, Works steps → R s (s.within b.documents steps).2

namespace StepRelation

variable {R : Session → Session → Prop} {s : Session} {i : Nat} {b : Binding}

variable (h : StepRelation R)

include h

/-! ### Requests and responses -/

theorem respond (s : Session) (r : Response) : R s (s.respond r) :=
  h.client s (s.client.unposted_respond r)

theorem modifyProgress (s : Session) {change : Progress → Client → Progress × Client}
    (hchange : ∀ p c, Client.Unposted c (change p c).2) : R s (s.modifyProgress change) := by
  rw [Session.modifyProgress]
  split
  · exact h.trans (h.client s (hchange _ _)) (h.binding _ _ _ fun _ => rfl)
  · exact h.refl s

theorem cancelTicket (s : Session) (ticket : Nat) : R s (s.cancelTicket ticket) :=
  h.requests s _ _

theorem cancel (s : Session) (id : RequestId) : R s (s.cancel id) := by
  rw [Session.cancel]
  split
  · split
    · exact h.trans (h.binding s _ (·.forget id) fun _ => rfl) (h.cancelTicket ..)
    · exact h.refl s
  · exact h.refl s

theorem cancelAll (s : Session) : R s s.cancelAll := by
  rw [Session.cancelAll]
  split
  · next i b _ _ =>
      exact List.foldlRecOn b.tickets _ (h.binding s i _ fun _ => rfl)
        fun s₁ hs t _ => h.trans hs (h.cancelTicket s₁ t.2)
  · exact h.refl s

theorem enqueue (s : Session) (i : Nat) (id : RequestId) (question : Question) :
    R s (s.enqueue i id question) :=
  h.trans (h.binding s i (·.register id s.issued) fun _ => rfl) (h.requests ..)

theorem ask (s : Session) (i : Nat) (r : Request) : R s (s.ask i r) := by
  rw [Session.ask]
  split
  · exact h.respond ..
  · exact h.respond ..
  · exact h.enqueue ..

theorem handleResponse (s : Session) (r : Response) : R s (s.handleResponse r) := by
  have hroute := s.client.unposted_route r
  rw [Session.handleResponse]
  split
  · next client hrouted =>
      rw [hrouted] at hroute
      exact h.trans (h.client s hroute)
        (h.modifyProgress _ fun p => Progress.reportRelation_unposted.answered p r.id)
  · exact h.refl s

/-! ### Notifications -/

theorem announceIndexing (s : Session) : R s s.announceIndexing := by
  rw [Session.announceIndexing]
  split
  · exact h.client s (s.client.unposted_notify _ (by decide))
  · exact h.refl s

theorem didRename (hb : s.bindings[i]? = some b) (uris : List Text) :
    R s (s.didRename b.documents uris) :=
  h.within hb ⟨_, fun hR => hR.forM (fun uri => hR.refresh (.ofUri uri)) uris⟩

/-! ### Work on requests -/

theorem perform (hb : s.bindings[i]? = some b) (job : Job) (uri : Text)
    (position : Option Position) (command : Command) :
    R s (s.perform b job uri position command).2 := by
  have hworks : Works ((workOf b job uri position command).run true fun sources =>
      command.execute s.workspace.capabilities sources b.cache) :=
    ⟨_, fun hR => hR.runWork true _⟩
  have hwithin := h.within hb hworks
  rw [Session.perform]
  generalize s.within _ _ = outcome at hwithin ⊢
  rcases outcome with ⟨_ | _ | ⟨result, cache⟩, s'⟩
  · exact hwithin
  · exact hwithin
  · exact h.trans hwithin (h.binding _ _ _ fun _ => rfl)

theorem outcome (hb : s.bindings[i]? = some b) (job : Job) : R s (s.outcome b job).2 := by
  rw [Session.outcome]
  split
  · exact h.perform hb ..
  · next query _ =>
      have hworks : Works (searchSymbols b.project query s.symbolLimit job.cancelled) :=
        ⟨_, fun hR => hR.searchSymbols _ _ _⟩
      have hwithin := h.within hb hworks
      generalize s.within _ _ = found at hwithin ⊢
      exact hwithin
  · split <;> exact h.refl s
  · exact h.refl s

theorem runJob (s : Session) (job : Job) : R s (s.runJob job) := by
  rw [Session.runJob]
  split
  · exact h.refl s
  · next b hb =>
      have houtcome := h.outcome hb job
      split
      · next heq => rwa [heq] at houtcome
      · next heq =>
          rw [heq] at houtcome
          exact h.trans houtcome
            (h.trans (h.binding _ _ (·.forget job.id) fun _ => rfl) (h.respond ..))

theorem beginNext (s : Session) : R s s.beginNext := h.requests s _ _

theorem workNext (s : Session) : R s s.workNext := by
  rw [Session.workNext]
  split
  · exact h.refl s
  · next job rest _ => exact h.trans (h.requests s rest s.issued) (h.runJob _ job)

theorem workSome (s : Session) (n : Nat) : R s (s.workSome n) := by
  induction n generalizing s with
  | zero => exact h.refl s
  | succ n ih => exact h.trans (h.workNext s) (ih s.workNext)

end StepRelation

end Session

end LanguageServer
