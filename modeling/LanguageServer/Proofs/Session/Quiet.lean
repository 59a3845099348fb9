import LanguageServer.Server.Session.Messages

/-!
# Steps that answer nothing

Most of what a session does is heard by the client only as notifications and requests of the server,
if at all. Such steps are `Session.Quiet`: the same requests have been answered and the same ones
wait, each under the binding that it was asked under. Quiet steps can be put one after the other, so
that a request is accounted for by the one step in it that is not quiet.
-/

namespace LanguageServer

namespace Client

/-- The requests that have been answered, by their ids. -/
def responses (c : Client) : List RequestId :=
  c.sent.filterMap fun
    | .response r => some r.id
    | _ => none

/-- The same requests have been answered. -/
structure Quiet (c c' : Client) : Prop where
  responses : c'.responses = c.responses
  connected : c'.connected = c.connected

theorem Quiet.refl (c : Client) : Quiet c c := ⟨rfl, rfl⟩

theorem Quiet.trans {c c₁ c₂ : Client} (h : Quiet c c₁) (h' : Quiet c₁ c₂) : Quiet c c₂ :=
  ⟨h'.responses.trans h.responses, h'.connected.trans h.connected⟩

theorem sent_respond {c : Client} (hconnected : c.connected = true) (r : Response) :
    (c.respond r).sent = c.sent ++ [.response r] := by
  rw [respond, send, if_pos hconnected]

theorem responses_respond {c : Client} (hconnected : c.connected = true) (r : Response) :
    (c.respond r).responses = c.responses ++ [r.id] := by
  rw [responses, sent_respond hconnected, List.filterMap_append]
  rfl

theorem quiet_notify (c : Client) (method : String) (params : Json) :
    Quiet c (c.notify method params) := by
  rw [notify, send]
  split
  · exact ⟨List.filterMap_append.trans (List.append_nil _), rfl⟩
  · exact .refl c

theorem quiet_request (c : Client) (method : String) (params : Json) :
    Quiet c (c.request method params).2 := by
  rw [request, send]
  split
  · exact ⟨List.filterMap_append.trans (List.append_nil _), rfl⟩
  · exact ⟨rfl, rfl⟩

theorem quiet_forget (c : Client) (id : RequestId) : Quiet c (c.forget id) := ⟨rfl, rfl⟩

theorem quiet_route (c : Client) (r : Response) : Quiet c (c.route r).2 := by
  rw [route]
  split
  · exact ⟨rfl, rfl⟩
  · exact .refl c

theorem quiet_publishFindings (c : Client) (docs : Documents) (key : FileKey)
    (findings : List Finding) : Quiet c (c.publishFindings docs key findings) := by
  rw [publishFindings]
  split
  · exact .refl c
  · exact quiet_notify ..

end Client

namespace Progress

variable {R : Client → Client → Prop}

/-- A relation along the steps that the reports of tasks are made of. -/
structure ReportRelation (R : Client → Client → Prop) : Prop where
  refl : ∀ c, R c c
  trans : ∀ {c c₁ c' : Client}, R c c₁ → R c₁ c' → R c c'
  report : ∀ task value c, R c (report task value c)
  ask : ∀ task c, R c (ask task c).2
  forget : ∀ (c : Client) id, R c (c.forget id)

namespace ReportRelation

variable (h : ReportRelation R)

include h

theorem advance (events : List ProgressEvent) (c : Client) : R c (advance events c).2 := by
  induction events generalizing c with
  | nil => exact h.refl c
  | cons e events ih =>
      cases e with
      | start task => exact h.ask task c
      | finish task => exact h.trans (h.report task _ c) (ih _)

theorem run (p : Progress) (c : Client) : R c (p.run c).2 := by
  rw [Progress.run]
  split
  · exact h.refl c
  · exact h.advance p.pending c

theorem push (p : Progress) (e : ProgressEvent) (c : Client) : R c (p.push e c).2 := by
  rw [Progress.push]
  split
  · exact h.refl c
  · exact h.run _ c

theorem answered (p : Progress) (id : RequestId) (c : Client) : R c (p.answered id c).2 := by
  rw [Progress.answered]
  split
  · split
    · exact h.trans (h.report _ _ c) (h.run ..)
    · exact h.refl c
  · exact h.refl c

theorem timedOut (p : Progress) (c : Client) : R c (p.timedOut c).2 := by
  rw [Progress.timedOut]
  split
  · exact h.trans (h.trans (h.forget c _) (h.report ..)) (h.run ..)
  · exact h.refl c

theorem reportNow (c : Client) (e : ProgressEvent) : R c (reportNow c e) := by
  cases e with
  | start task => exact h.trans (h.trans (h.ask task c) (h.forget _ _)) (h.report ..)
  | finish task => exact h.report ..

theorem stop (p : Progress) (c : Client) : R c (p.stop c).2 := by
  refine h.trans ?_ (List.foldlRecOn p.pending Progress.reportNow (h.refl _)
    fun c₁ hc e _ => h.trans hc (h.reportNow c₁ e))
  split
  · exact h.trans (h.forget c _) (h.report ..)
  · exact h.refl c

end ReportRelation

theorem reportRelation_quiet : ReportRelation Client.Quiet where
  refl := .refl
  trans := .trans
  report _ _ c := c.quiet_notify _ _
  ask _ c := c.quiet_request _ _
  forget c id := c.quiet_forget id

end Progress

/-- What a queued request is known by: its id, and the binding that it was asked under. -/
def Job.asked (job : Job) : RequestId × Nat := (job.id, job.binding)

namespace Session

/-- The same requests have been answered and wait, and there are as many bindings or more. -/
structure Quiet (s s' : Session) : Prop where
  client : s.client.Quiet s'.client
  queue : s'.queue.map Job.asked = s.queue.map Job.asked
  bindings : s.bindings.length ≤ s'.bindings.length
  current : (∀ i, s.current = some i → i < s.bindings.length) →
    ∀ i, s'.current = some i → i < s'.bindings.length

namespace Quiet

theorem refl (s : Session) : Quiet s s := ⟨.refl _, rfl, Nat.le_refl _, id⟩

theorem trans {s s₁ s₂ : Session} (h : Quiet s s₁) (h' : Quiet s₁ s₂) : Quiet s s₂ :=
  ⟨h.client.trans h'.client, h'.queue.trans h.queue, Nat.le_trans h.bindings h'.bindings,
    h'.current ∘ h.current⟩

theorem of_client (s : Session) {c : Client} (h : s.client.Quiet c) :
    Quiet s { s with client := c } :=
  ⟨h, rfl, Nat.le_refl _, id⟩

theorem foldl {α : Type} {f : Session → α → Session} (h : ∀ s a, Quiet s (f s a)) (as : List α)
    (s : Session) : Quiet s (as.foldl f s) :=
  List.foldlRecOn as f (refl s) fun s₁ hs a _ => hs.trans (h s₁ a)

end Quiet

theorem quiet_modifyBinding (s : Session) (i : Nat) (change : Binding → Binding) :
    Quiet s (s.modifyBinding i change) := by
  have hlength : (s.modifyBinding i change).bindings.length = s.bindings.length :=
    List.length_modify ..
  exact ⟨.refl _, rfl, Nat.le_of_eq hlength.symm, fun h j hj => hlength ▸ h j hj⟩

theorem quiet_enter (s : Session) (phase : Phase) : Quiet s (s.enter phase) :=
  ⟨.refl _, rfl, Nat.le_refl _, id⟩

theorem quiet_quietly {α : Type} (s : Session) (steps : WorkspaceM α) :
    Quiet s (s.quietly steps).2 :=
  ⟨.refl _, rfl, Nat.le_refl _, id⟩

theorem quiet_modifyProgress (s : Session) {change : Progress → Client → Progress × Client}
    (hchange : ∀ p c, Client.Quiet c (change p c).2) : Quiet s (s.modifyProgress change) := by
  rw [modifyProgress]
  split
  · exact (Quiet.of_client s (hchange _ _)).trans (quiet_modifyBinding ..)
  · exact .refl s

/-! ### Events of projects -/

theorem quiet_deliver (documents : Documents) (s : Session) (e : Listener × ProjectEvent) :
    Quiet s (deliver documents s e) := by
  unfold deliver
  split
  · exact .of_client s (Client.quiet_publishFindings ..)
  · exact .of_client s (Client.quiet_notify ..)
  · exact .of_client s (Client.quiet_notify ..)
  · exact quiet_modifyProgress s fun p => Progress.reportRelation_quiet.push p _
  · exact quiet_modifyProgress s fun p => Progress.reportRelation_quiet.push p _
  · exact .refl s

theorem quiet_within {α : Type} (s : Session) (documents : Documents) (steps : WorkspaceM α) :
    Quiet s (s.within documents steps).2 :=
  (quiet_quietly s (steps *> modify fun w => { w with events := [] })).trans
    (Quiet.foldl (quiet_deliver documents) _ _)

/-! ### Requests that are begun with -/

/-- Whether someone can still begin with the request. -/
def isIdle (job : Job) : Bool := !(job.begun || job.cancelled)

theorem beginFirst_cons (job : Job) (rest : List Job) :
    beginFirst (job :: rest)
      = if isIdle job then { job with begun := true } :: rest else job :: beginFirst rest := by
  rw [beginFirst, isIdle]
  cases job.begun || job.cancelled <;> rfl

/-- A request waits as before when someone begins with it, and nobody begins with one that has been
cancelled. -/
theorem of_mem_beginFirst {jobs : List Job} {job : Job} (h : job ∈ beginFirst jobs) :
    ∃ old ∈ jobs, job = old ∨ job = { old with begun := true } ∧ old.cancelled = false := by
  induction jobs with
  | nil => exact absurd h List.not_mem_nil
  | cons first rest ih =>
      rw [beginFirst_cons] at h
      split at h
      · next hidle =>
          rcases List.mem_cons.1 h with rfl | hrest
          · rw [isIdle, Bool.not_eq_true', Bool.or_eq_false_iff] at hidle
            exact ⟨first, List.mem_cons_self, .inr ⟨rfl, hidle.2⟩⟩
          · exact ⟨job, List.mem_cons_of_mem _ hrest, .inl rfl⟩
      · rcases List.mem_cons.1 h with rfl | hrest
        · exact ⟨job, List.mem_cons_self, .inl rfl⟩
        · obtain ⟨old, hold, hsame⟩ := ih hrest
          exact ⟨old, List.mem_cons_of_mem _ hold, hsame⟩

theorem map_beginFirst {α : Type} {f : Job → α} (hf : ∀ job, f { job with begun := true } = f job)
    (jobs : List Job) : (beginFirst jobs).map f = jobs.map f := by
  induction jobs with
  | nil => rfl
  | cons job rest ih =>
      rw [beginFirst_cons]
      split
      · rw [List.map_cons, List.map_cons, hf]
      · rw [List.map_cons, List.map_cons, ih]

theorem quiet_beginNext (s : Session) : Quiet s s.beginNext :=
  ⟨.refl _, map_beginFirst (fun _ => rfl) s.queue, Nat.le_refl _, id⟩

/-! ### Cancelling, binding and releasing -/

theorem quiet_cancelTicket (s : Session) (ticket : Nat) : Quiet s (s.cancelTicket ticket) := by
  refine ⟨.refl _, ?_, Nat.le_refl _, id⟩
  rw [cancelTicket, List.map_map]
  refine List.map_congr_left fun job _ => ?_
  rw [Function.comp_apply]
  split <;> rfl

theorem quiet_cancel (s : Session) (id : RequestId) : Quiet s (s.cancel id) := by
  rw [cancel]
  split
  · split
    · exact (quiet_modifyBinding ..).trans (quiet_cancelTicket ..)
    · exact .refl s
  · exact .refl s

theorem quiet_cancelAll (s : Session) : Quiet s s.cancelAll := by
  rw [cancelAll]
  split
  · next i b _ _ =>
      have hforget := quiet_modifyBinding s i fun b => { b with tickets := [] }
      exact hforget.trans
        (Quiet.foldl (fun s (t : RequestId × Nat) => quiet_cancelTicket s t.2) _ _)
  · exact .refl s

theorem quiet_bind (s : Session) (project : Nat) : Quiet s (s.bind project) := by
  have hlength : (s.bind project).bindings.length = s.bindings.length + 1 := List.length_append
  refine ⟨.refl _, rfl, by omega, fun _ i hi => ?_⟩
  have hi : s.bindings.length = i := Option.some.inj hi
  omega

theorem release_eq {s : Session} {i : Nat} {b : Binding} (hcurrent : s.current = some i)
    (hbinding : s.binding? = some b) (pace : Pace) :
    s.release pace = (s.leave i b pace).closeBound b := by
  simp only [release, hcurrent, hbinding]

theorem release_of_none {s : Session} (h : s.current = none) (pace : Pace) :
    s.release pace = s := by
  simp only [release, h]

theorem release_of_unbound {s : Session} (h : s.binding? = none) (pace : Pace) :
    s.release pace = s := by
  rw [release, h]
  cases s.current <;> rfl

theorem quiet_closeDocuments (s : Session) (i : Nat) (b : Binding) :
    Quiet s (s.closeDocuments i b) :=
  (quiet_quietly s b.documents.closeAll).trans (quiet_modifyBinding ..)

theorem quiet_closeBound (s : Session) (b : Binding) : Quiet s (s.closeBound b) := by
  have hclosed := quiet_quietly s (Workspace.closeProject b.project)
  exact ⟨hclosed.client, hclosed.queue, hclosed.bindings, fun _ _ hj => nomatch hj⟩

theorem quiet_release (s : Session) : Quiet s s.release := by
  cases hbinding : s.binding? with
  | none =>
      rw [release_of_unbound hbinding]
      exact .refl s
  | some b =>
      obtain ⟨i, hcurrent, -⟩ := Option.bind_eq_some_iff.1 hbinding
      rw [release_eq hcurrent hbinding]
      exact (((quiet_closeDocuments s i b).trans (quiet_quietly _ _)).trans
        (quiet_modifyProgress _ Progress.reportRelation_quiet.stop)).trans (quiet_closeBound _ b)

theorem quiet_closeLeftover (s : Session) : Quiet s s.closeLeftover := by
  rw [closeLeftover]
  split
  · exact .refl s
  · have hslot : Quiet s { s with slot := none } := ⟨.refl _, rfl, Nat.le_refl _, id⟩
    dsimp only
    split
    · exact hslot.trans (quiet_quietly _ _)
    · exact hslot

theorem quiet_shutdown (s : Session) : Quiet s s.shutdown :=
  ((quiet_cancelAll s).trans (quiet_enter ..)).trans (quiet_release _)

theorem quiet_finish (s : Session) : Quiet s s.finish := by
  refine ((quiet_cancelAll s).trans (quiet_release _)).trans ?_
  exact ⟨.refl _, rfl, Nat.le_refl _, id⟩

/-! ### Notifications and responses -/

theorem quiet_withDocuments (s : Session) (i : Nat) (seen : Documents)
    (steps : WorkspaceM (Except DocumentError Unit × Documents)) :
    Quiet s (s.withDocuments i seen steps) :=
  (quiet_within s seen steps).trans (quiet_modifyBinding ..)

theorem quiet_announceIndexing (s : Session) : Quiet s s.announceIndexing := by
  rw [announceIndexing]
  split
  · exact .of_client s (Client.quiet_notify ..)
  · exact .refl s

/-- A notification whose parameters are not valid is dropped. -/
theorem taken_or_dropped {α : Type} {r : Session → Session → Prop} {s : Session} {f : α → Session}
    (htaken : ∀ a, r s (f a)) (hdropped : r s s) (params : Option α) :
    r s ((params.map f).getD s) := by
  cases params with
  | none => exact hdropped
  | some a => exact htaken a

theorem quiet_notified (s : Session) (i : Nat) (docs : Documents) (n : Notification) :
    Quiet s (s.notified i docs n) := by
  rw [notified]
  split
  · refine taken_or_dropped (fun _ => ?_) (.refl s) _
    exact (quiet_withDocuments ..).trans (quiet_announceIndexing _)
  · exact taken_or_dropped (fun _ => quiet_withDocuments ..) (.refl s) _
  · exact taken_or_dropped (fun _ => quiet_withDocuments ..) (.refl s) _
  · exact taken_or_dropped (fun _ => quiet_withDocuments ..) (.refl s) _
  · exact taken_or_dropped (fun _ => quiet_within ..) (.refl s) _
  · exact .refl s

theorem quiet_handleNotification (s : Session) (n : Notification) :
    Quiet s (s.handleNotification n).2 := by
  rw [handleNotification]
  split
  · exact .refl s
  · split
    · exact taken_or_dropped (quiet_cancel s) (.refl s) _
    · split
      · exact .refl s
      · split
        · exact quiet_notified ..
        · exact .refl s

theorem quiet_handleResponse (s : Session) (r : Response) : Quiet s (s.handleResponse r) := by
  have hroute := Client.quiet_route s.client r
  rw [handleResponse]
  split
  · next client hrouted =>
      rw [hrouted] at hroute
      exact (Quiet.of_client s hroute).trans
        (quiet_modifyProgress _ fun p => Progress.reportRelation_quiet.answered p r.id)
  · exact .refl s

end Session

end LanguageServer
