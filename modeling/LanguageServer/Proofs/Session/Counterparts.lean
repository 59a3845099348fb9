import LanguageServer.Proofs.Documents.Parallel
import LanguageServer.Proofs.Protocol.Queries
import LanguageServer.Proofs.Session.Informed
import LanguageServer.Proofs.Session.Moves

/-!
# Sessions in which some requests are left out

Two sessions take the same steps, but some requests arrive in the first one only. Then the requests
of the second one have other tickets (`Job.renumber`), and its client has not got the responses to
what was left out (`Client.responsesBut`). All else should be the same, up to the editors that are
open in the first session only (`Session.Counterparts`).
-/

namespace LanguageServer

/-! ### Clients -/

namespace Client

variable {out : RequestId → Bool} {c c' c₁ : Client}

/-- The responses that were sent, but for those to requests that are left out. -/
def responsesBut (out : RequestId → Bool) (c : Client) : List Response :=
  c.sent.filterMap fun
    | .response r => if out r.id then none else some r
    | _ => none

/-- The same responses were sent to the requests that are not left out, and the same ids are given
to the requests of the server. -/
structure Alike (out : RequestId → Bool) (c c' : Client) : Prop where
  connected : c.connected = c'.connected
  asked : c.asked = c'.asked
  waiting : c.waiting = c'.waiting
  responses : c.responsesBut out = c'.responsesBut out

namespace Alike

theorem refl (c : Client) : Alike out c c := ⟨rfl, rfl, rfl, rfl⟩

theorem symm (h : Alike out c c') : Alike out c' c :=
  ⟨h.connected.symm, h.asked.symm, h.waiting.symm, h.responses.symm⟩

theorem trans (h : Alike out c c₁) (h' : Alike out c₁ c') : Alike out c c' :=
  ⟨h.connected.trans h'.connected, h.asked.trans h'.asked, h.waiting.trans h'.waiting,
    h.responses.trans h'.responses⟩

end Alike

theorem responsesBut_send (out : RequestId → Bool) (c : Client) (m : Message) :
    (c.send m).responsesBut out =
      if c.connected then c.responsesBut out ++ responsesBut out { sent := [m] }
      else c.responsesBut out := by
  rw [send]
  split
  · exact List.filterMap_append
  · rfl

/-- Sending the same message. -/
theorem Alike.send (h : Alike out c c') (m : Message) : Alike out (c.send m) (c'.send m) := by
  refine ⟨?_, ?_, ?_, ?_⟩
  · simp only [connected_send, h.connected]
  · simp only [asked_send, h.asked]
  · simp only [waiting_send, h.waiting]
  · rw [responsesBut_send, responsesBut_send, h.connected, h.responses]

/-- A message may be sent to one of them only if it is none of the responses that are compared. -/
theorem alike_send {m : Message} (hm : responsesBut out { sent := [m] } = []) (c : Client) :
    Alike out (c.send m) c := by
  refine ⟨connected_send c m, asked_send c m, waiting_send c m, ?_⟩
  rw [responsesBut_send, hm, List.append_nil, ite_self]

theorem alike_notify (c : Client) (method : String) (params : Json) :
    Alike out (c.notify method params) c :=
  alike_send rfl c

theorem alike_respond {r : Response} (hr : out r.id = true) (c : Client) :
    Alike out (c.respond r) c := by
  refine alike_send ?_ c
  simp [responsesBut, hr]

theorem Alike.notify (h : Alike out c c') (method : String) (params : Json) :
    Alike out (c.notify method params) (c'.notify method params) :=
  h.send _

theorem Alike.request (h : Alike out c c') (method : String) (params : Json) :
    (c.request method params).1 = (c'.request method params).1 ∧
      Alike out (c.request method params).2 (c'.request method params).2 := by
  have hasked : Alike out
      { c with asked := c.asked + 1, waiting := c.waiting.filter (· ≠ idAfter c.asked) ++
        [idAfter c.asked] }
      { c' with asked := c'.asked + 1, waiting := c'.waiting.filter (· ≠ idAfter c'.asked) ++
        [idAfter c'.asked] } := by
    refine ⟨h.connected, ?_, ?_, h.responses⟩ <;> simp only [h.asked, h.waiting]
  simp only [Client.request]
  rw [← h.asked] at hasked ⊢
  exact ⟨rfl, hasked.send _⟩

theorem Alike.forget (h : Alike out c c') (id : RequestId) :
    Alike out (c.forget id) (c'.forget id) :=
  ⟨h.connected, h.asked, congrArg (List.filter (· ≠ id)) h.waiting, h.responses⟩

theorem Alike.route (h : Alike out c c') (r : Response) :
    (c.route r).1 = (c'.route r).1 ∧ Alike out (c.route r).2 (c'.route r).2 := by
  rw [Client.route, Client.route, ← h.waiting]
  split
  · exact ⟨rfl, h.connected, h.asked, rfl, h.responses⟩
  · exact ⟨rfl, h⟩

theorem alike_publishFindings (c : Client) (docs : Documents) (key : FileKey)
    (found : List Finding) : Alike out (c.publishFindings docs key found) c := by
  rw [publishFindings]
  split
  · exact .refl c
  · exact alike_notify ..

end Client

/-! ### Progress -/

namespace Progress

variable {out : RequestId → Bool} {c c' : Client}

/-- Something is reported to a client in the same way whatever responses it has got. -/
def Alike {α : Type} (out : RequestId → Bool) (report : Client → α × Client) : Prop :=
  ∀ ⦃c c'⦄, Client.Alike out c c' → (report c).1 = (report c').1 ∧
    Client.Alike out (report c).2 (report c').2

theorem report_alike (h : Client.Alike out c c') (task : TaskInfo) (value : Json) :
    Client.Alike out (report task value c) (report task value c') :=
  h.notify _ _

theorem alike_ask (task : TaskInfo) : Alike out (ask task) := fun _ _ h => h.request _ _

theorem alike_advance (events : List ProgressEvent) : Alike out (advance events) := by
  induction events with
  | nil => exact fun c c' h => ⟨rfl, h⟩
  | cons e events ih =>
      intro c c' h
      cases e with
      | start task =>
          obtain ⟨hid, hasked⟩ := alike_ask task h
          exact ⟨congrArg (fun id => (events, some (id, task))) hid, hasked⟩
      | finish task => exact ih (report_alike h task _)

theorem alike_run (p : Progress) : Alike out p.run := by
  intro c c' h
  obtain ⟨hevents, hclient⟩ := alike_advance p.pending h
  rw [run, run]
  split
  · exact ⟨rfl, h⟩
  · exact ⟨congrArg (fun rest => { p with pending := rest.1, awaiting := rest.2 }) hevents, hclient⟩

theorem alike_push (p : Progress) (e : ProgressEvent) : Alike out (p.push e) := by
  intro c c' h
  rw [push, push]
  split
  · exact ⟨rfl, h⟩
  · exact alike_run _ h

theorem alike_answered (p : Progress) (id : RequestId) : Alike out (p.answered id) := by
  intro c c' h
  rw [answered, answered]
  split
  · split
    · exact alike_run _ (report_alike h ..)
    · exact ⟨rfl, h⟩
  · exact ⟨rfl, h⟩

theorem alike_timedOut (p : Progress) : Alike out p.timedOut := by
  intro c c' h
  rw [timedOut, timedOut]
  split
  · exact alike_run _ (report_alike (h.forget _) ..)
  · exact ⟨rfl, h⟩

theorem reportNow_alike (h : Client.Alike out c c') (e : ProgressEvent) :
    Client.Alike out (reportNow c e) (reportNow c' e) := by
  cases e with
  | finish task => exact report_alike h ..
  | start task =>
      obtain ⟨hid, hasked⟩ := alike_ask task h
      have hforgotten := hasked.forget (ask task c).1
      rw [reportNow, reportNow]
      dsimp only
      rw [hid] at hforgotten ⊢
      exact report_alike hforgotten task _

theorem alike_stop (p : Progress) : Alike out p.stop := by
  have hfoldl : ∀ (events : List ProgressEvent) {c c'}, Client.Alike out c c' →
      Client.Alike out (events.foldl reportNow c) (events.foldl reportNow c') := by
    intro events
    induction events with
    | nil => exact id
    | cons e events ih => exact fun h => ih (reportNow_alike h e)
  refine fun c c' h => ⟨rfl, hfoldl p.pending ?_⟩
  split
  · exact report_alike (h.forget _) ..
  · exact h

end Progress

/-! ### Requests with other tickets -/

/-- The request with another ticket, if it has one. -/
def Job.renumber (number : Nat → Option Nat) (job : Job) : Option Job :=
  (number job.ticket).map fun ticket => { job with ticket }

theorem Job.renumber_of_some {number : Nat → Option Nat} {job : Job} {n : Nat}
    (h : number job.ticket = some n) : job.renumber number = some { job with ticket := n } := by
  rw [renumber, h, Option.map_some]

theorem Job.renumber_of_none {number : Nat → Option Nat} {job : Job}
    (h : number job.ticket = none) : job.renumber number = none := by
  rw [renumber, h, Option.map_none]

/-- The binding with other tickets, as far as there are any. -/
def Binding.renumber (number : Nat → Option Nat) (b : Binding) : Binding :=
  { b with tickets := b.tickets.filterMap fun t => (number t.2).map (t.1, ·) }

namespace Binding

variable {number : Nat → Option Nat}

theorem renumber_forget (b : Binding) (number : Nat → Option Nat) (id : RequestId) :
    (b.renumber number).forget id = (b.forget id).renumber number := by
  simp only [renumber, forget, List.filter_filterMap, List.filterMap_filter]
  congr 1
  refine List.filterMap_congr fun t _ => ?_
  cases number t.2 with
  | none => simp
  | some n => by_cases ht : t.1 = id <;> simp [ht, Option.filter]

theorem renumber_register (b : Binding) (id : RequestId) {ticket n : Nat}
    (hn : number ticket = some n) :
    (b.renumber number).register id n = (b.register id ticket).renumber number := by
  have hforget := congrArg tickets (b.renumber_forget number id)
  simp only [renumber, forget] at hforget
  simp only [renumber, register, hforget, List.filterMap_append]
  simp [hn]

/-- Tickets without a number may as well be forgotten. -/
theorem renumber_forget_of_none (b : Binding) {id : RequestId}
    (hnone : ∀ t ∈ b.tickets, t.1 = id → number t.2 = none) :
    (b.forget id).renumber number = b.renumber number := by
  simp only [renumber, forget, List.filterMap_filter]
  congr 1
  refine List.filterMap_congr fun t ht => ?_
  split
  · rfl
  · next hsame => rw [hnone t ht (by simpa using hsame), Option.map_none]

theorem renumber_register_of_none (b : Binding) {id : RequestId} {ticket : Nat}
    (hticket : number ticket = none) (hnone : ∀ t ∈ b.tickets, t.1 = id → number t.2 = none) :
    (b.register id ticket).renumber number = b.renumber number := by
  have hforget := congrArg tickets (b.renumber_forget_of_none hnone)
  simp only [renumber, forget] at hforget
  simp only [renumber, register, List.filterMap_append, hforget]
  simp [hticket]

end Binding

namespace Session

open Workspace (Matched)

/-- A ticket that has been issued for a request. It has no number if the request is left out. -/
structure Issued (out : RequestId → Bool) (number : Nat → Option Nat) (issued : Nat)
    (id : RequestId) (ticket : Nat) : Prop where
  lt : ticket < issued
  number_eq_none : number ticket = none ↔ out id = true

/-- The second session does not know of the requests that are left out, and is as the first
otherwise. The tickets that it will issue next come after those that it has issued. All that waits
is placed, and what is left out only asks. -/
structure Counterparts (W : Workspace → Workspace → Prop) (out : RequestId → Bool)
    (number : Nat → Option Nat) (s s' : Session) : Prop where
  phase : s.phase = s'.phase
  symbolLimit : s.symbolLimit = s'.symbolLimit
  slot : s.slot = s'.slot
  current : s.current = s'.current
  client : s.client.Alike out s'.client
  workspace : W s.workspace s'.workspace
  told : s.workspace.events = []
  bindings : s'.bindings = s.bindings.map (Binding.renumber number)
  queue : s'.queue = s.queue.filterMap (Job.renumber number)
  fresh : ∀ n, number (s.issued + n) = some (s'.issued + n)
  injective : ∀ t u n, number t = some n → number u = some n → t = u
  tickets : ∀ (i : Nat) b, s.bindings[i]? = some b →
    ∀ t ∈ b.tickets, Issued out number s.issued t.1 t.2
  jobs : ∀ job ∈ s.queue, Issued out number s.issued job.id job.ticket
  placed : ∀ job ∈ s.queue, job.question.IsPlaced
  queries : ∀ job ∈ s.queue, out job.id = true → job.question.IsQuery

variable {W : Workspace → Workspace → Prop} {out : RequestId → Bool} {number : Nat → Option Nat}
  {s s' : Session} {i : Nat}

/-- Without a binding in force, nothing is done with it. -/
theorem inForce_of_none {β : Type} (hb : s.binding? = none) (act : Nat → Binding → β)
    (otherwise : β) :
    (match s.current, s.binding? with
      | some i, some b => act i b
      | _, _ => otherwise) = otherwise := by
  rw [hb]
  cases s.current <;> rfl

theorem modifyProgress_of_unbound (hb : s.binding? = none)
    (change : Progress → Client → Progress × Client) : s.modifyProgress change = s :=
  inForce_of_none hb _ s

theorem cancel_of_unbound (hb : s.binding? = none) (id : RequestId) : s.cancel id = s :=
  inForce_of_none hb _ s

theorem cancelAll_of_unbound (hb : s.binding? = none) : s.cancelAll = s := inForce_of_none hb _ s

namespace Counterparts

theorem binding (h : Counterparts W out number s s') (i : Nat) :
    s'.bindings[i]? = (s.bindings[i]?).map (Binding.renumber number) := by
  rw [h.bindings, List.getElem?_map]

theorem binding? (h : Counterparts W out number s s') :
    s'.binding? = s.binding?.map (Binding.renumber number) := by
  rw [Session.binding?, Session.binding?, ← h.current]
  cases s.current with
  | none => rfl
  | some i => exact h.binding i

/-- There is a binding in force in both sessions, or in neither. -/
theorem force_cases (h : Counterparts W out number s s') :
    s.binding? = none ∧ s'.binding? = none ∨
      ∃ i b, s.current = some i ∧ s.bindings[i]? = some b ∧ s.binding? = some b ∧
        s'.current = some i ∧ s'.binding? = some (b.renumber number) := by
  rw [h.binding?]
  cases hb : s.binding? with
  | none => exact .inl ⟨rfl, rfl⟩
  | some b =>
      obtain ⟨i, hi, hib⟩ := Option.bind_eq_some_iff.1 hb
      exact .inr ⟨i, b, hi, hib, rfl, h.current ▸ hi, rfl⟩

theorem imp {W' : Workspace → Workspace → Prop} (h : Counterparts W out number s s')
    (hW : W' s.workspace s'.workspace) : Counterparts W' out number s s' :=
  { h with workspace := hW }

theorem ofClient (h : Counterparts W out number s s') {c c' : Client} (hclient : c.Alike out c') :
    Counterparts W out number { s with client := c } { s' with client := c' } :=
  { h with client := hclient }

theorem respond (h : Counterparts W out number s s') (r : Response) :
    Counterparts W out number (s.respond r) (s'.respond r) :=
  h.ofClient (h.client.send _)

theorem respond_left (h : Counterparts W out number s s') {r : Response} (hr : out r.id = true) :
    Counterparts W out number (s.respond r) s' :=
  h.ofClient ((Client.alike_respond hr _).trans h.client)

theorem refuse (h : Counterparts W out number s s') (id : RequestId) (code : ErrorCode)
    (message : Text) : Counterparts W out number (s.refuse id code message)
      (s'.refuse id code message) :=
  h.respond _

theorem enter (h : Counterparts W out number s s') (phase : Phase) :
    Counterparts W out number (s.enter phase) (s'.enter phase) :=
  { h with phase := rfl }

/-! ### Bindings -/

theorem modifyBinding (h : Counterparts W out number s s') (i : Nat)
    {change change' : Binding → Binding} (hchange : ∀ b, s.bindings[i]? = some b →
      change' (b.renumber number) = (change b).renumber number)
    (htickets : ∀ b, s.bindings[i]? = some b →
      ∀ t ∈ (change b).tickets, Issued out number s.issued t.1 t.2) :
    Counterparts W out number (s.modifyBinding i change) (s'.modifyBinding i change') := by
  refine { h with bindings := ?_, tickets := fun j b hb => ?_ }
  · refine List.ext_getElem? fun j => ?_
    simp only [Session.modifyBinding, List.getElem?_map, List.getElem?_modify, h.binding]
    cases hb : s.bindings[j]? with
    | none => rfl
    | some b =>
        simp only [Option.map_eq_map, Option.map_some]
        split
        · next hij => rw [hchange b (hij ▸ hb)]
        · rfl
  · simp only [Session.modifyBinding, List.getElem?_modify, Option.map_eq_map] at hb
    obtain ⟨b₀, hb₀, rfl⟩ := Option.map_eq_some_iff.1 hb
    split
    · next hij => exact htickets b₀ (hij ▸ hb₀)
    · exact h.tickets j b₀ hb₀

theorem modifyBinding_left (h : Counterparts W out number s s') (i : Nat)
    {change : Binding → Binding} (hchange : ∀ b, s.bindings[i]? = some b →
      (change b).renumber number = b.renumber number)
    (htickets : ∀ b, s.bindings[i]? = some b →
      ∀ t ∈ (change b).tickets, Issued out number s.issued t.1 t.2) :
    Counterparts W out number (s.modifyBinding i change) s' := by
  have hsame : s'.modifyBinding i id = s' := by
    rw [Session.modifyBinding, List.modify_id]
  rw [← hsame]
  exact h.modifyBinding i (fun b hb => (hchange b hb).symm) htickets

theorem setDocuments (h : Counterparts W out number s s') (i : Nat) (docs : Documents) :
    Counterparts W out number (s.modifyBinding i fun b => { b with documents := docs })
      (s'.modifyBinding i fun b => { b with documents := docs }) :=
  h.modifyBinding i (fun _ _ => rfl) (h.tickets i)

theorem setCache (h : Counterparts W out number s s') (i : Nat) (cache : CompletionCache) :
    Counterparts W out number (s.modifyBinding i fun b => { b with cache })
      (s'.modifyBinding i fun b => { b with cache }) :=
  h.modifyBinding i (fun _ _ => rfl) (h.tickets i)

theorem forget (h : Counterparts W out number s s') (i : Nat) (id : RequestId) :
    Counterparts W out number (s.modifyBinding i (·.forget id))
      (s'.modifyBinding i (·.forget id)) :=
  h.modifyBinding i (fun b _ => b.renumber_forget number id) fun b hb t ht =>
    h.tickets i b hb t (List.mem_of_mem_filter ht)

/-- The ticket of a request that is left out is there in the first session only. -/
theorem forget_left (h : Counterparts W out number s s') (i : Nat) {id : RequestId}
    (hid : out id = true) : Counterparts W out number (s.modifyBinding i (·.forget id)) s' :=
  h.modifyBinding_left i
    (fun b hb => b.renumber_forget_of_none fun t ht htid =>
      (h.tickets i b hb t ht).number_eq_none.2 (htid ▸ hid))
    fun b hb t ht => h.tickets i b hb t (List.mem_of_mem_filter ht)

/-! ### Events of projects -/

theorem modifyProgress_eq {b : Binding} (hcurrent : s.current = some i)
    (hb : s.binding? = some b) (change : Progress → Client → Progress × Client) :
    s.modifyProgress change = { s with client := (change b.progress s.client).2 }.modifyBinding i
      fun b' => { b' with progress := (change b.progress s.client).1 } := by
  simp only [Session.modifyProgress, hcurrent, hb]

theorem modifyProgress (h : Counterparts W out number s s')
    {change : Progress → Client → Progress × Client}
    (hchange : ∀ p, Progress.Alike out (change p)) :
    Counterparts W out number (s.modifyProgress change) (s'.modifyProgress change) := by
  rcases h.force_cases with ⟨hb, hb'⟩ | ⟨i, b, hcurrent, -, hb, hcurrent', hb'⟩
  · rw [modifyProgress_of_unbound hb, modifyProgress_of_unbound hb']
    exact h
  · obtain ⟨hprogress, hclient⟩ := hchange b.progress h.client
    rw [modifyProgress_eq hcurrent hb, modifyProgress_eq hcurrent' hb']
    refine (h.ofClient hclient).modifyBinding i (fun b' _ => ?_) (h.tickets i)
    exact congrArg (fun progress => ({ b' with progress } : Binding).renumber number)
      hprogress.symm

/-- Findings are of no concern to the session but for its client. -/
theorem deliver_finding (docs : Documents) (s : Session) {e : Listener × ProjectEvent}
    (he : Workspace.isFinding e = true) :
    ∃ c, deliver docs s e = { s with client := c } ∧ c.Alike out s.client := by
  unfold deliver
  split
  · exact ⟨_, rfl, Client.alike_publishFindings ..⟩
  · cases he
  · cases he
  · cases he
  · cases he
  · exact ⟨s.client, rfl, .refl _⟩

theorem deliver (h : Counterparts W out number s s') (docs : Documents)
    (e : Listener × ProjectEvent) :
    Counterparts W out number (deliver docs s e) (Session.deliver docs s' e) := by
  unfold Session.deliver
  split
  · exact h.ofClient (((Client.alike_publishFindings ..).trans h.client).trans
      (Client.alike_publishFindings ..).symm)
  · exact h.ofClient (h.client.notify ..)
  · exact h.ofClient (h.client.notify ..)
  · exact h.modifyProgress fun p => p.alike_push _
  · exact h.modifyProgress fun p => p.alike_push _
  · exact h

theorem foldl_deliver (h : Counterparts W out number s s') (docs : Documents)
    {events events' : List (Listener × ProjectEvent)}
    (hevents : events.filter (!Workspace.isFinding ·) = events'.filter (!Workspace.isFinding ·)) :
    Counterparts W out number (events.foldl (Session.deliver docs) s)
      (events'.foldl (Session.deliver docs) s') := by
  have hright : ∀ {s s'}, Counterparts W out number s s' →
      ∀ events : List (Listener × ProjectEvent), (∀ e ∈ events, ¬ (!Workspace.isFinding e) = true) →
      Counterparts W out number s (events.foldl (Session.deliver docs) s') := by
    intro s s' h events hfindings
    refine List.foldlRecOn events _ h fun s₁ h₁ e he => ?_
    obtain ⟨c, hc, halike⟩ := deliver_finding docs s₁ (by simpa using hfindings e he)
    rw [hc]
    exact h₁.ofClient (h₁.client.trans halike.symm)
  induction events generalizing s s' events' with
  | nil => exact hright h events' (List.filter_eq_nil_iff.1 hevents.symm)
  | cons e events ih =>
      rw [List.filter_cons] at hevents
      split at hevents
      · -- The other session has findings of its own before the next event that is no finding.
        obtain ⟨before, after, rfl, hbefore, -, hafter⟩ := List.filter_eq_cons_iff.1 hevents.symm
        rw [List.foldl_append, List.foldl_cons, List.foldl_cons]
        exact ih ((hright h before hbefore).deliver docs e) hafter.symm
      · next he =>
          obtain ⟨c, hc, halike⟩ := deliver_finding docs s (by simpa using he)
          rw [List.foldl_cons, hc]
          exact ih (h.ofClient (halike.trans h.client)) hevents

/-! ### Steps in the workspaces -/

theorem within (h : Counterparts Workspace.Alike out number s s') (docs : Documents)
    {α β : Type} {S : α → β → Prop} {steps : WorkspaceM α} {steps' : WorkspaceM β}
    (hsteps : Matched S steps steps') :
    S (s.within docs steps).1 (s'.within docs steps').1 ∧
      Counterparts Workspace.Alike out number (s.within docs steps).2
        (s'.within docs steps').2 := by
  obtain ⟨hresult, halike⟩ := hsteps h.workspace
  refine ⟨hresult, foldl_deliver ?_ docs halike.events⟩
  exact { h with workspace := halike.clear, told := rfl }

theorem quietly (h : Counterparts Workspace.Alike out number s s')
    {α β : Type} {S : α → β → Prop} {steps : WorkspaceM α} {steps' : WorkspaceM β}
    (hsteps : Matched S steps steps')
    (hquiet : ∀ w : Workspace, (steps.run w).2.events = w.events) :
    S (s.quietly steps).1 (s'.quietly steps').1 ∧
      Counterparts Workspace.Alike out number (s.quietly steps).2 (s'.quietly steps').2 := by
  obtain ⟨hresult, halike⟩ := hsteps h.workspace
  exact ⟨hresult, { h with workspace := halike, told := (hquiet _).trans h.told }⟩

/-! ### Cancelling -/

/-- Of the requests that wait the same are cancelled, by their numbers. -/
theorem cancelIf (h : Counterparts W out number s s') {p p' : Job → Bool}
    (hp : ∀ job ∈ s.queue, ∀ n, number job.ticket = some n → p' { job with ticket := n } = p job) :
    Counterparts W out number { s with queue := s.queue.map (Job.cancelIf p) }
      { s' with queue := s'.queue.map (Job.cancelIf p') } := by
  have hof : ∀ job ∈ s.queue.map (Job.cancelIf p), ∃ old ∈ s.queue, old.id = job.id ∧
      old.ticket = job.ticket ∧ old.question = job.question := by
    intro job hjob
    obtain ⟨old, hold, rfl⟩ := List.mem_map.1 hjob
    refine ⟨old, hold, ?_⟩
    rw [Job.cancelIf]
    split <;> exact ⟨rfl, rfl, rfl⟩
  refine { h with queue := ?_, jobs := fun job hjob => ?_, placed := fun job hjob => ?_,
                  queries := fun job hjob => ?_ }
  · rw [h.queue, List.map_filterMap, List.filterMap_map]
    refine List.filterMap_congr fun job hjob => ?_
    rw [Job.renumber, Function.comp_apply, Job.renumber, Option.map_map]
    have hticket : (Job.cancelIf p job).ticket = job.ticket := by
      rw [Job.cancelIf]
      split <;> rfl
    rw [hticket]
    cases hn : number job.ticket with
    | none => rfl
    | some n =>
        rw [Option.map_some, Option.map_some, Function.comp_apply, Job.cancelIf, Job.cancelIf,
          hp job hjob n hn]
        split <;> rfl
  · obtain ⟨old, hold, hid, hticket, -⟩ := hof job hjob
    exact hid ▸ hticket ▸ h.jobs old hold
  · obtain ⟨old, hold, -, -, hquestion⟩ := hof job hjob
    exact hquestion ▸ h.placed old hold
  · obtain ⟨old, hold, hid, -, hquestion⟩ := hof job hjob
    exact hquestion ▸ hid ▸ h.queries old hold

theorem cancelTicket_eq (s : Session) (ticket : Nat) :
    s.cancelTicket ticket = { s with queue := s.queue.map (Job.cancelIf (·.ticket = ticket)) } := by
  rw [Session.cancelTicket]
  congr 1
  refine List.map_congr_left fun job _ => ?_
  by_cases hjob : job.ticket = ticket <;> simp [Job.cancelIf, hjob]

theorem cancelTicket (h : Counterparts W out number s s') {ticket n : Nat}
    (hn : number ticket = some n) :
    Counterparts W out number (s.cancelTicket ticket) (s'.cancelTicket n) := by
  rw [cancelTicket_eq, cancelTicket_eq]
  refine h.cancelIf fun job _ m hm => decide_eq_decide.2 ?_
  constructor
  · intro hmn
    exact h.injective _ _ n (hmn ▸ hm) hn
  · intro hticket
    rw [hticket, hn] at hm
    exact (Option.some.inj hm).symm

/-- A ticket without a number is not that of a request in the other session. -/
theorem cancelTicket_left (h : Counterparts W out number s s') {ticket : Nat}
    (hn : number ticket = none) : Counterparts W out number (s.cancelTicket ticket) s' := by
  have hsame : s'.queue.map (Job.cancelIf fun _ => false) = s'.queue := List.map_id _
  have hcancelled : Counterparts W out number
      { s with queue := s.queue.map (Job.cancelIf (·.ticket = ticket)) }
      { s' with queue := s'.queue.map (Job.cancelIf fun _ => false) } := by
    refine h.cancelIf fun job _ m hm => (decide_eq_false fun hticket => ?_).symm
    rw [hticket, hn] at hm
    cases hm
  rw [hsame] at hcancelled
  rw [cancelTicket_eq]
  exact hcancelled

theorem find?_renumber {issued : Nat} {tickets : List (RequestId × Nat)}
    (h : ∀ t ∈ tickets, Issued out number issued t.1 t.2) (id : RequestId) :
    (tickets.filterMap fun t => (number t.2).map (t.1, ·)).find? (·.1 = id)
      = (tickets.find? (·.1 = id)).bind fun t => (number t.2).map (t.1, ·) := by
  induction tickets with
  | nil => rfl
  | cons t tickets ih =>
      have hrest := ih fun u hu => h u (List.mem_cons_of_mem _ hu)
      by_cases ht : t.1 = id
      · cases hn : number t.2 with
        | some n => simp [hn, ht]
        | none =>
            have hout : out id = true := ht ▸ (h t List.mem_cons_self).number_eq_none.1 hn
            -- No other ticket of this request has a number either.
            have hnone : ((t :: tickets).filterMap fun t => (number t.2).map (t.1, ·)).find?
                (·.1 = id) = none := by
              refine List.find?_eq_none.2 fun entry hentry hid => ?_
              obtain ⟨u, hu, hmap⟩ := List.mem_filterMap.1 hentry
              obtain ⟨n, hn, rfl⟩ := Option.map_eq_some_iff.1 hmap
              have hid : u.1 = id := by simpa using hid
              rw [(h u hu).number_eq_none.2 (hid ▸ hout)] at hn
              cases hn
            rw [hnone]
            simp [ht, hn]
      · rw [List.find?_cons_of_neg (by simpa using ht), ← hrest]
        cases hn : number t.2 with
        | none => simp [hn]
        | some n => simp [hn, ht]

theorem cancel (h : Counterparts W out number s s') (id : RequestId) :
    Counterparts W out number (s.cancel id) (s'.cancel id) := by
  rcases h.force_cases with ⟨hb, hb'⟩ | ⟨i, b, hcurrent, hib, hb, hcurrent', hb'⟩
  · rw [cancel_of_unbound hb, cancel_of_unbound hb']
    exact h
  · have htickets := h.tickets i b hib
    simp only [Session.cancel, hcurrent, hb, hcurrent', hb', Binding.renumber]
    rw [find?_renumber htickets]
    cases hfound : b.tickets.find? (·.1 = id) with
    | none => exact h
    | some t =>
        have hid : t.1 = id := by simpa using List.find?_some hfound
        have hissued := htickets t (List.mem_of_find?_eq_some hfound)
        rw [Option.bind_some]
        cases hn : number t.2 with
        | none => exact (h.forget_left i (hid ▸ hissued.number_eq_none.1 hn)).cancelTicket_left hn
        | some n => exact (h.forget i id).cancelTicket hn

theorem cancelAll (h : Counterparts W out number s s') :
    Counterparts W out number s.cancelAll s'.cancelAll := by
  rcases h.force_cases with ⟨hb, hb'⟩ | ⟨i, b, hcurrent, hib, hb, hcurrent', hb'⟩
  · rw [cancelAll_of_unbound hb, cancelAll_of_unbound hb']
    exact h
  · rw [cancelAll_eq hcurrent hb, cancelAll_eq hcurrent' hb']
    have hemptied : Counterparts W out number
        (s.modifyBinding i fun b => { b with tickets := [] })
        (s'.modifyBinding i fun b => { b with tickets := [] }) :=
      h.modifyBinding i (fun _ _ => rfl) fun _ _ _ ht => absurd ht List.not_mem_nil
    refine hemptied.cancelIf fun job _ n hn => ?_
    rw [Bool.eq_iff_iff, List.contains_iff_mem, List.contains_iff_mem, List.mem_map, List.mem_map]
    constructor
    · rintro ⟨entry, hentry, rfl⟩
      obtain ⟨t, ht, hmap⟩ := List.mem_filterMap.1 hentry
      obtain ⟨m, hm, rfl⟩ := Option.map_eq_some_iff.1 hmap
      exact ⟨t, ht, h.injective _ _ m hm hn⟩
    · rintro ⟨t, ht, hticket⟩
      refine ⟨(t.1, n), List.mem_filterMap.2 ⟨t, ht, ?_⟩, rfl⟩
      rw [hticket, hn, Option.map_some]

end Counterparts

end Session

end LanguageServer
