import LanguageServer.Proofs.Session.Answers
import LanguageServer.Proofs.Session.Tended

/-!
# What moves requests

Documents, events and progress have nothing to do with the requests of a session. A step that is
about those only is `Session.Unmoved`: the same requests wait, as cancelled as before, under
bindings that have the same candidates for completion and the same tickets. All that is left for a
turn to do with requests is listed in `Session.Moves`.
-/

namespace LanguageServer

/-- What a binding keeps for requests: the candidates of the last completion, and the tickets of
those that can be cancelled. -/
def Binding.desk (b : Binding) : CompletionCache × List (RequestId × Nat) := (b.cache, b.tickets)

namespace Session

variable {s s₁ s' : Session} {i : Nat}

/-- The same phase and the same requests, with the same desk for each binding. -/
structure Unmoved (s s' : Session) : Prop where
  phase : s'.phase = s.phase
  lifecycle : s'.lifecycle = s.lifecycle
  current : s'.current = s.current
  queue : s'.queue = s.queue
  issued : s'.issued = s.issued
  desks : s'.bindings.map Binding.desk = s.bindings.map Binding.desk

namespace Unmoved

theorem refl (s : Session) : Unmoved s s := ⟨rfl, rfl, rfl, rfl, rfl, rfl⟩

theorem trans (h : Unmoved s s₁) (h' : Unmoved s₁ s') : Unmoved s s' :=
  ⟨h'.phase.trans h.phase, h'.lifecycle.trans h.lifecycle, h'.current.trans h.current,
    h'.queue.trans h.queue, h'.issued.trans h.issued, h'.desks.trans h.desks⟩

theorem of_client (s : Session) (c : Client) : Unmoved s { s with client := c } :=
  ⟨rfl, rfl, rfl, rfl, rfl, rfl⟩

theorem of_workspace (s : Session) (w : Workspace) : Unmoved s { s with workspace := w } :=
  ⟨rfl, rfl, rfl, rfl, rfl, rfl⟩

theorem foldl {α : Type} {f : Session → α → Session} (h : ∀ s a, Unmoved s (f s a)) (as : List α)
    (s : Session) : Unmoved s (as.foldl f s) :=
  List.foldlRecOn as f (refl s) fun s₁ hs a _ => hs.trans (h s₁ a)

theorem length (h : Unmoved s s') : s'.bindings.length = s.bindings.length := by
  have hlength := congrArg List.length h.desks
  rwa [List.length_map, List.length_map] at hlength

end Unmoved

/-! ### Parts of steps -/

theorem unmoved_modifyBinding (s : Session) (i : Nat) {change : Binding → Binding}
    (hchange : ∀ b, (change b).desk = b.desk) : Unmoved s (s.modifyBinding i change) :=
  ⟨rfl, rfl, rfl, rfl, rfl, map_modifyBinding fun b _ => hchange b⟩

theorem unmoved_respond (s : Session) (r : Response) : Unmoved s (s.respond r) := .of_client s _

theorem unmoved_quietly {α : Type} (s : Session) (steps : WorkspaceM α) :
    Unmoved s (s.quietly steps).2 :=
  .of_workspace s _

theorem unmoved_modifyProgress (s : Session) (change : Progress → Client → Progress × Client) :
    Unmoved s (s.modifyProgress change) := by
  rw [modifyProgress]
  split
  · next i b _ _ =>
      dsimp only
      generalize change b.progress s.client = outcome
      obtain ⟨progress, client⟩ := outcome
      exact (Unmoved.of_client s client).trans (unmoved_modifyBinding _ i fun _ => rfl)
  · exact .refl s

theorem unmoved_deliver (documents : Documents) (s : Session) (e : Listener × ProjectEvent) :
    Unmoved s (deliver documents s e) := by
  unfold deliver
  split
  · exact .of_client s _
  · exact .of_client s _
  · exact .of_client s _
  · exact unmoved_modifyProgress ..
  · exact unmoved_modifyProgress ..
  · exact .refl s

theorem unmoved_within {α : Type} (s : Session) (documents : Documents) (steps : WorkspaceM α) :
    Unmoved s (s.within documents steps).2 :=
  (Unmoved.of_workspace s _).trans (Unmoved.foldl (unmoved_deliver documents) _ _)

theorem unmoved_closeLeftover (s : Session) : Unmoved s s.closeLeftover := by
  rw [closeLeftover]
  split
  · exact .refl s
  · have hslot : Unmoved s { s with slot := none } := ⟨rfl, rfl, rfl, rfl, rfl, rfl⟩
    dsimp only
    split
    · exact hslot.trans (unmoved_quietly _ _)
    · exact hslot

/-! ### Notifications and responses -/

theorem unmoved_withDocuments (s : Session) (i : Nat) (seen : Documents)
    (steps : WorkspaceM (Except DocumentError Unit × Documents)) :
    Unmoved s (s.withDocuments i seen steps) :=
  (unmoved_within s seen steps).trans (unmoved_modifyBinding _ _ fun _ => rfl)

theorem unmoved_announceIndexing (s : Session) : Unmoved s s.announceIndexing := by
  rw [announceIndexing]
  split
  · exact .of_client s _
  · exact .refl s

theorem unmoved_notified (s : Session) (i : Nat) (docs : Documents) (n : Notification) :
    Unmoved s (s.notified i docs n) := by
  rw [notified]
  split
  · refine taken_or_dropped (fun _ => ?_) (.refl s) _
    exact (unmoved_withDocuments ..).trans (unmoved_announceIndexing _)
  · exact taken_or_dropped (fun _ => unmoved_withDocuments ..) (.refl s) _
  · exact taken_or_dropped (fun _ => unmoved_withDocuments ..) (.refl s) _
  · exact taken_or_dropped (fun _ => unmoved_withDocuments ..) (.refl s) _
  · exact taken_or_dropped (fun _ => unmoved_within ..) (.refl s) _
  · exact .refl s

/-- The one notification about requests is the one that cancels. -/
theorem handleNotification_cases (s : Session) (n : Notification) :
    Unmoved s (s.handleNotification n).2 ∨
      ∃ id, n.method = "$/cancelRequest".toList ∧ Params.cancelled? n.params = some id ∧
        (s.handleNotification n).2 = s.cancel id := by
  rw [handleNotification]
  split
  · exact .inl (.refl s)
  · split
    · next hmethod =>
        cases hid : Params.cancelled? n.params with
        | none => exact .inl (.refl s)
        | some id => exact .inr ⟨id, hmethod, rfl, rfl⟩
    · split
      · exact .inl (.refl s)
      · split
        · exact .inl (unmoved_notified ..)
        · exact .inl (.refl s)

theorem unmoved_handleResponse (s : Session) (r : Response) : Unmoved s (s.handleResponse r) := by
  rw [handleResponse]
  split
  · exact (Unmoved.of_client s _).trans (unmoved_modifyProgress ..)
  · exact .refl s

/-! ### What lies on a desk -/

/-- The desk of a binding; an empty one if there is no such binding. -/
def deskAt (s : Session) (i : Nat) : CompletionCache × List (RequestId × Nat) :=
  ((s.bindings[i]?).map Binding.desk).getD ({}, [])

/-- The candidates that a binding keeps. -/
def cacheAt (s : Session) (i : Nat) : CompletionCache := (s.deskAt i).1

/-- The tickets that a binding keeps. -/
def ticketsAt (s : Session) (i : Nat) : List (RequestId × Nat) := (s.deskAt i).2

theorem deskAt_of_binding {b : Binding} (hb : s.bindings[i]? = some b) : s.deskAt i = b.desk := by
  rw [deskAt, hb]
  rfl

theorem deskAt_of_desks (h : s'.bindings.map Binding.desk = s.bindings.map Binding.desk) (i : Nat) :
    s'.deskAt i = s.deskAt i := by
  rw [deskAt, ← List.getElem?_map, h, List.getElem?_map]
  rfl

theorem Unmoved.cacheAt (h : Unmoved s s') (i : Nat) : s'.cacheAt i = s.cacheAt i :=
  congrArg Prod.fst (deskAt_of_desks h.desks i)

theorem Unmoved.ticketsAt (h : Unmoved s s') (i : Nat) : s'.ticketsAt i = s.ticketsAt i :=
  congrArg Prod.snd (deskAt_of_desks h.desks i)

theorem deskAt_modifyBinding_of_ne {j : Nat} (h : i ≠ j) (s : Session)
    (change : Binding → Binding) : (s.modifyBinding i change).deskAt j = s.deskAt j := by
  have hsame : (s.modifyBinding i change).bindings[j]? = s.bindings[j]? :=
    List.getElem?_modify_ne change s.bindings h
  rw [deskAt, hsame]
  rfl

theorem deskAt_modifyBinding {b : Binding} (hb : s.bindings[i]? = some b)
    (change : Binding → Binding) : (s.modifyBinding i change).deskAt i = (change b).desk := by
  have hchanged : (s.modifyBinding i change).bindings[i]? = some (change b) := by
    rw [modifyBinding, List.getElem?_modify_eq, hb]
    rfl
  exact deskAt_of_binding hchanged

theorem deskAt_modifyBinding_of_none (hb : s.bindings[i]? = none) (change : Binding → Binding) :
    (s.modifyBinding i change).deskAt i = s.deskAt i := by
  have hnone : (s.modifyBinding i change).bindings[i]? = none := by
    rw [modifyBinding, List.getElem?_modify_eq, hb]
    rfl
  rw [deskAt, deskAt, hnone, hb]

/-- What a change leaves on the desk of the binding that is changed, it leaves on every desk. -/
theorem part_deskAt_modifyBinding {α : Type}
    (part : CompletionCache × List (RequestId × Nat) → α) {change : Binding → Binding}
    (hchange : ∀ b, part (change b).desk = part b.desk) (s : Session) (i j : Nat) :
    part ((s.modifyBinding i change).deskAt j) = part (s.deskAt j) := by
  by_cases hj : i = j
  · subst hj
    cases hb : s.bindings[i]? with
    | none => rw [deskAt_modifyBinding_of_none hb]
    | some b =>
        rw [deskAt_modifyBinding hb, deskAt_of_binding hb]
        exact hchange b
  · rw [deskAt_modifyBinding_of_ne hj]

theorem cacheAt_modifyBinding (s : Session) (i : Nat) (change : Binding → Binding)
    (hchange : ∀ b, (change b).cache = b.cache) (j : Nat) :
    (s.modifyBinding i change).cacheAt j = s.cacheAt j :=
  part_deskAt_modifyBinding Prod.fst hchange s i j

theorem ticketsAt_modifyBinding (s : Session) (i : Nat) (change : Binding → Binding)
    (hchange : ∀ b, (change b).tickets = b.tickets) (j : Nat) :
    (s.modifyBinding i change).ticketsAt j = s.ticketsAt j :=
  part_deskAt_modifyBinding Prod.snd hchange s i j

/-! ### Releasing and working -/

/-- Releasing moves no request either, but there is no binding in force any more. -/
theorem unmoved_release {s : Session} (hcurrent : ∀ i, s.current = some i → i < s.bindings.length) :
    Unmoved { s with current := none } s.release := by
  cases hi : s.current with
  | none =>
      rw [release_of_none hi, ← hi]
      exact .refl s
  | some i =>
      obtain ⟨b, hb⟩ : ∃ b, s.bindings[i]? = some b :=
        ⟨_, List.getElem?_eq_getElem (hcurrent i hi)⟩
      have hbinding : s.binding? = some b := by rw [binding?, hi, Option.bind_some, hb]
      have hclosed : Unmoved s (s.closeDocuments i b) :=
        (unmoved_quietly s b.documents.closeAll).trans (unmoved_modifyBinding _ i fun _ => rfl)
      have hunheard : Unmoved s ((s.closeDocuments i b).unsubscribe b) := hclosed.trans
        (unmoved_quietly _ (b.subscriptions.forM (Workspace.unsubscribe b.project)))
      have hkept := (hunheard.trans (unmoved_modifyProgress _ Progress.stop)).trans
        (unmoved_quietly _ (Workspace.closeProject b.project))
      rw [release_eq hi hbinding]
      exact ⟨hkept.phase, hkept.lifecycle, rfl, hkept.queue, hkept.issued, hkept.desks⟩

/-- The work on a request moves no other one. It may leave the binding with other candidates. -/
theorem outcome_cases (s : Session) (b : Binding) (job : Job) :
    ∃ s₁, Unmoved s s₁ ∧ ((s.outcome b job).2 = s₁ ∨
      ∃ cache, (s.outcome b job).2 = s₁.modifyBinding job.binding fun b => { b with cache }) := by
  rw [outcome]
  split
  · next uri position command _ =>
      have hwithin := unmoved_within s b.documents
        ((workOf b job uri position command).run true fun sources =>
          command.execute s.workspace.capabilities sources b.cache)
      simp only [perform]
      generalize s.within b.documents _ = outcome at hwithin ⊢
      rcases outcome with ⟨_ | _ | ⟨result, cache⟩, s₁⟩
      · exact ⟨s₁, hwithin, .inl rfl⟩
      · exact ⟨s₁, hwithin, .inl rfl⟩
      · exact ⟨s₁, hwithin, .inr ⟨cache, rfl⟩⟩
  · exact ⟨_, unmoved_within .., .inl rfl⟩
  · split <;> exact ⟨s, .refl s, .inl rfl⟩
  · exact ⟨s, .refl s, .inl rfl⟩

/-- The work on a request does not touch what is kept for the other ones. -/
theorem outcome_kept (s : Session) (b : Binding) (job : Job) :
    (s.outcome b job).2.queue = s.queue ∧ (s.outcome b job).2.current = s.current ∧
      ∀ i, (s.outcome b job).2.ticketsAt i = s.ticketsAt i := by
  obtain ⟨s₁, hunmoved, hs₁ | ⟨cache, hs₁⟩⟩ := outcome_cases s b job
  · rw [hs₁]
    exact ⟨hunmoved.queue, hunmoved.current, hunmoved.ticketsAt⟩
  · rw [hs₁]
    refine ⟨hunmoved.queue, hunmoved.current, fun i => ?_⟩
    rw [← hunmoved.ticketsAt]
    exact ticketsAt_modifyBinding s₁ _ (fun b => { b with cache }) (fun _ => rfl) i

theorem queue_runJob (s : Session) (job : Job) : (s.runJob job).queue = s.queue := by
  rw [runJob]
  split
  · rfl
  · next b _ =>
      have hkept := (outcome_kept s b job).1
      split
      · next heq => rwa [heq] at hkept
      · next heq => rwa [heq] at hkept

theorem queue_workNext {job : Job} {rest : List Job} (hqueue : s.queue = job :: rest) :
    s.workNext.queue = rest := by
  rw [workNext, hqueue]
  exact queue_runJob _ job

theorem Live.exists_binding (hs : s.Live) {job : Job} (hjob : job ∈ s.queue) :
    ∃ b, s.bindings[job.binding]? = some b :=
  ⟨_, List.getElem?_eq_getElem (hs.queue job hjob)⟩

/-- The work on a request ends with an answer to it, unless it breaks off. -/
theorem workNext_cases {job : Job} {rest : List Job} {b : Binding} (hqueue : s.queue = job :: rest)
    (hb : s.bindings[job.binding]? = some b) :
    (outcome { s with queue := rest } b job).1 = none ∧
        s.workNext = (outcome { s with queue := rest } b job).2 ∨
      ∃ result, (outcome { s with queue := rest } b job).1 = some result ∧
        s.workNext = ((outcome { s with queue := rest } b job).2.modifyBinding job.binding
          (·.forget job.id)).respond (.ofOutcome job.id result) := by
  rw [workNext, hqueue]
  dsimp only
  rw [runJob, hb]
  dsimp only
  generalize outcome _ b job = outcome
  rcases outcome with ⟨_ | result, s₁⟩
  · exact .inl ⟨rfl, rfl⟩
  · exact .inr ⟨result, rfl, rfl⟩

theorem workNext_of_outcome {job : Job} {rest : List Job} {b : Binding}
    (hqueue : s.queue = job :: rest) (hb : s.bindings[job.binding]? = some b)
    {result : Except CommandError Json}
    (houtcome : outcome { s with queue := rest } b job = (some result, s')) :
    s.workNext
      = (s'.modifyBinding job.binding (·.forget job.id)).respond (.ofOutcome job.id result) := by
  rcases workNext_cases hqueue hb with ⟨hnone, -⟩ | ⟨_, hsome, hnext⟩
  · rw [houtcome] at hnone
    cases hnone
  · rw [houtcome] at hsome hnext
    cases hsome
    exact hnext

/-! ### Cancelling -/

end Session

/-- A request that waits, cancelled if it is one of those that are spoken of. -/
def Job.cancelIf (p : Job → Bool) (job : Job) : Job :=
  if p job then { job with cancelled := true } else job

namespace Session

variable {s s' : Session}

/-- Some requests are cancelled, after which their tickets may be gone. Nothing else that is kept
for requests changes. -/
structure Cancels (p : Job → Bool) (s s' : Session) : Prop where
  queue : s'.queue = s.queue.map (Job.cancelIf p)
  caches : ∀ i, s'.cacheAt i = s.cacheAt i
  tickets : ∀ i, s'.ticketsAt i ⊆ s.ticketsAt i

theorem cancels_none (s : Session) : Cancels (fun _ => false) s s :=
  ⟨(List.map_id _).symm, fun _ => rfl, fun _ => List.Subset.refl _⟩

theorem Cancels.trans_unmoved {p : Job → Bool} {s₁ : Session} (h : Cancels p s s₁)
    (h' : Unmoved { s₁ with current := none } s') : Cancels p s s' :=
  ⟨h'.queue.trans h.queue, fun i => (h'.cacheAt i).trans (h.caches i),
    fun i => (h'.ticketsAt i) ▸ h.tickets i⟩

theorem foldl_cancelTicket (tickets : List (RequestId × Nat)) (s : Session) :
    tickets.foldl (fun s t => s.cancelTicket t.2) s =
      { s with
        queue := s.queue.map
          (Job.cancelIf fun job => (tickets.map (·.2)).contains job.ticket) } := by
  induction tickets generalizing s with
  | nil =>
      have hqueue : s.queue.map (Job.cancelIf fun _ => false) = s.queue := List.map_id _
      rw [List.map_nil]
      exact congrArg (fun queue => { s with queue }) hqueue.symm
  | cons t tickets ih =>
      -- The first ticket cancels its jobs before the other ones are looked at.
      rw [List.foldl_cons, ih, cancelTicket, List.map_map]
      congr 1
      refine List.map_congr_left fun job _ => ?_
      by_cases hjob : job.ticket = t.2
      · simp [Job.cancelIf, hjob]
      · rw [Function.comp_apply, if_neg hjob, Job.cancelIf, Job.cancelIf, List.map_cons,
          List.contains_cons, beq_false_of_ne hjob, Bool.false_or]

/-- Cancelling a request cancels what its ticket in the binding in force is for, if there is one. -/
theorem cancel_eq (hcurrent : ∀ i, s.current = some i → i < s.bindings.length) (id : RequestId) :
    s.cancel id =
      match s.current with
      | none => s
      | some i =>
        match (s.ticketsAt i).find? (·.1 = id) with
        | none => s
        | some (_, ticket) => (s.modifyBinding i (·.forget id)).cancelTicket ticket := by
  cases hi : s.current with
  | none => simp only [cancel, hi]
  | some i =>
      obtain ⟨b, hb⟩ : ∃ b, s.bindings[i]? = some b :=
        ⟨_, List.getElem?_eq_getElem (hcurrent i hi)⟩
      have htickets : s.ticketsAt i = b.tickets := congrArg Prod.snd (deskAt_of_binding hb)
      simp only [cancel, binding?, hi, Option.bind_some, hb, htickets]
      cases b.tickets.find? (·.1 = id) <;> rfl

theorem cancelAll_eq {b : Binding} (hcurrent : s.current = some i) (hb : s.binding? = some b) :
    s.cancelAll =
      let emptied := s.modifyBinding i fun b => { b with tickets := [] }
      { emptied with
        queue := emptied.queue.map
          (Job.cancelIf fun job => (b.tickets.map (·.2)).contains job.ticket) } := by
  have hall : s.cancelAll = b.tickets.foldl (fun s t => s.cancelTicket t.2)
      (s.modifyBinding i fun b => { b with tickets := [] }) := by
    simp only [cancelAll, hcurrent, hb]
  rw [hall, foldl_cancelTicket]

/-- Cancelling all requests cancels those that have a ticket in the binding in force. -/
theorem cancels_cancelAll (hcurrent : ∀ i, s.current = some i → i < s.bindings.length) :
    ∃ p, Cancels p s s.cancelAll := by
  cases hi : s.current with
  | none =>
      have hsame : s.cancelAll = s := by simp only [cancelAll, hi]
      rw [hsame]
      exact ⟨_, cancels_none s⟩
  | some i =>
      obtain ⟨b, hb⟩ : ∃ b, s.bindings[i]? = some b :=
        ⟨_, List.getElem?_eq_getElem (hcurrent i hi)⟩
      have hall := cancelAll_eq hi (by rw [binding?, hi, Option.bind_some, hb])
      have hdesks : ∀ j, s.cancelAll.deskAt j
          = (s.modifyBinding i fun b => { b with tickets := [] }).deskAt j := fun j => hall ▸ rfl
      refine ⟨_, congrArg Session.queue hall, fun j => ?_, fun j => ?_⟩
      · rw [cacheAt, cacheAt, hdesks]
        by_cases hj : i = j
        · subst hj
          rw [deskAt_modifyBinding hb, deskAt_of_binding hb]
          rfl
        · rw [deskAt_modifyBinding_of_ne hj]
      · rw [ticketsAt, ticketsAt, hdesks]
        by_cases hj : i = j
        · subst hj
          rw [deskAt_modifyBinding hb]
          exact List.nil_subset _
        · rw [deskAt_modifyBinding_of_ne hj]
          exact List.Subset.refl _

/-! ### Turns -/

theorem after_concat (s : Session) (turns : List Turn) (t : Turn) :
    s.after (turns ++ [t]) = (s.after turns).turn t := by
  rw [after, List.foldl_append]
  rfl

/-- What a turn does to the requests of a session. -/
inductive Moves (s : Session) (t : Turn) : Prop
  | unmoved (h : Unmoved s (s.turn t))
  | asks (i : Nat) (r : Request) (question : Question) (ht : t = .step (.message (.request r)))
      (hcurrent : s.current = some i) (hquestion : Question.ofRequest r = .ok question)
      (hopen : ∀ result, question ≠ .answered result) (hnext : s.turn t = s.enqueue i r.id question)
  | begins (ht : t = .begin)
  | cancels (id : RequestId) (hnext : s.turn t = s.cancel id)
  | leaves (p : Job → Bool) (h : Cancels p s (s.turn t))
      (hcurrent : ∀ i, (s.turn t).current = some i → s.bindings.length ≤ i)
  | works (job : Job) (rest : List Job) (ht : t = .step .work) (hqueue : s.queue = job :: rest)

theorem deskAt_concat {b : Binding} (h : s'.bindings = s.bindings ++ [b]) (hb : b.desk = ({}, []))
    (i : Nat) : s'.deskAt i = s.deskAt i := by
  rw [deskAt, deskAt, h]
  rcases Nat.lt_trichotomy i s.bindings.length with hi | hi | hi
  · rw [List.getElem?_append_left hi]
  · subst hi
    rw [List.getElem?_concat_length, List.getElem?_eq_none (Nat.le_refl _)]
    exact hb
  · rw [List.getElem?_eq_none (by rw [List.length_append]; exact hi),
      List.getElem?_eq_none (Nat.le_of_lt hi)]

theorem openRoot_moves (hs : s.Live) (root : Option Text) :
    Cancels (fun _ => false) s (s.openRoot root).2 ∧
      ∀ i, (s.openRoot root).2.current = some i → s.bindings.length ≤ i := by
  have hleft := (unmoved_release hs.current).trans (unmoved_closeLeftover s.release)
  have hnone : ∀ s', Unmoved { s with current := none } s' →
      Cancels (fun _ => false) s s' ∧ ∀ i, s'.current = some i → s.bindings.length ≤ i :=
    fun s' h => ⟨(cancels_none s).trans_unmoved h, fun i hi => by cases h.current.symm.trans hi⟩
  cases root with
  | none =>
      obtain ⟨hcancels, hcurrent⟩ := hnone _ hleft
      exact ⟨⟨hcancels.queue, hcancels.caches, hcancels.tickets⟩, hcurrent⟩
  | some uri =>
      have hresolved := hleft.trans
        (unmoved_quietly s.release.closeLeftover (Workspace.resolveProject (.ofUri uri)))
      simp only [openRoot]
      generalize s.release.closeLeftover.quietly (Workspace.resolveProject (.ofUri uri)) = outcome
        at hresolved ⊢
      rcases outcome with ⟨e | project, s₁⟩
      · exact hnone s₁ hresolved
      · -- The new binding has nothing on its desk, just as if it were not there.
        have hdesks : ∀ i, ((s₁.bind project).enter .serving).deskAt i = s.deskAt i := fun i =>
          (deskAt_concat rfl rfl i).trans (deskAt_of_desks hresolved.desks i)
        refine ⟨⟨hresolved.queue.trans (List.map_id _).symm,
          fun i => congrArg Prod.fst (hdesks i), fun i => ?_⟩, fun i hi => ?_⟩
        · have htickets : ((s₁.bind project).enter .serving).ticketsAt i = s.ticketsAt i :=
            congrArg Prod.snd (hdesks i)
          exact htickets ▸ List.Subset.refl _
        · have hi : s₁.bindings.length = i := Option.some.inj hi
          exact Nat.le_of_eq (hresolved.length.symm.trans hi)

/-- A request to open is refused, or it is answered by what has become of it. -/
theorem handleInitialize_cases (s : Session) (r : Request) :
    (∃ code message, (s.handleInitialize r).2 = s.refuse r.id code message) ∨
      s.phase ≠ .shuttingDown ∧ ∃ root s₁,
        (∃ result, s.openRoot root = (.ok result, s₁) ∧
          (s.handleInitialize r).2 = s₁.respond (.ok r.id result)) ∨
        ∃ e message, s.openRoot root = (.error e, s₁) ∧
          (s.handleInitialize r).2 = s₁.refuse r.id .requestFailed message := by
  by_cases hphase : s.phase = .shuttingDown
  · exact .inl ⟨.invalidRequest, isShuttingDown, by rw [handleInitialize, if_pos hphase]⟩
  · cases hroot : Params.root? r.params with
    | none =>
        exact .inl ⟨.invalidParams, "invalid initialize params".toList,
          by rw [handleInitialize, if_neg hphase, hroot]⟩
    | some root =>
        refine .inr ⟨hphase, root, ?_⟩
        rw [handleInitialize, if_neg hphase, hroot]
        dsimp only
        generalize s.openRoot root = outcome
        rcases outcome with ⟨e | result, s₁⟩
        · exact ⟨s₁, .inr ⟨e, _, rfl, rfl⟩⟩
        · exact ⟨s₁, .inl ⟨result, rfl, rfl⟩⟩

theorem initialize_moves (hs : s.Live) {r : Request} (hmethod : r.method = "initialize".toList) :
    s.Moves (.step (.message (.request r))) := by
  have hturn : s.turn (.step (.message (.request r))) = (s.handleInitialize r).2 :=
    congrArg Prod.snd (if_pos hmethod)
  have hopened : ∀ root s₁ response, (s.openRoot root).2 = s₁ →
      (s.handleInitialize r).2 = s₁.respond response → s.Moves (.step (.message (.request r))) := by
    intro root s₁ response hs₁ hresponse
    obtain ⟨hcancels, hcurrent⟩ := openRoot_moves hs root
    rw [hs₁] at hcancels hcurrent
    refine .leaves (fun _ => false) ?_ ?_ <;> rw [hturn, hresponse]
    · exact ⟨hcancels.queue, hcancels.caches, hcancels.tickets⟩
    · exact hcurrent
  rcases handleInitialize_cases s r with ⟨code, message, hrefused⟩ | ⟨-, root, s₁, hcases⟩
  · refine .unmoved ?_
    rw [hturn, hrefused]
    exact unmoved_respond ..
  · rcases hcases with ⟨result, hroot, hresponse⟩ | ⟨e, message, hroot, hresponse⟩
    · exact hopened root s₁ _ (by rw [hroot]) hresponse
    · exact hopened root s₁ _ (by rw [hroot]) hresponse

theorem shutdown_moves (hs : s.Live) {r : Request} (hmethod : r.method = "shutdown".toList) :
    s.Moves (.step (.message (.request r))) := by
  have hother : r.method ≠ "initialize".toList := by
    rw [hmethod]
    decide
  have hturn : s.turn (.step (.message (.request r))) = s.handleShutdown r.id :=
    congrArg Prod.snd ((if_neg hother).trans (if_pos hmethod))
  by_cases hphase : s.phase = .uninitialized
  · refine .unmoved ?_
    rw [hturn, handleShutdown, if_pos hphase]
    exact unmoved_respond ..
  · rw [handleShutdown, if_neg hphase] at hturn
    obtain ⟨p, hcancelled⟩ := cancels_cancelAll hs.current
    have hentered : Cancels p s (s.cancelAll.enter .shuttingDown) :=
      ⟨hcancelled.queue, hcancelled.caches, hcancelled.tickets⟩
    have hlive := ((quiet_cancelAll s).trans (quiet_enter _ .shuttingDown)).live hs
    have hreleased := unmoved_release hlive.current
    refine .leaves p ?_ ?_
    · rw [hturn]
      exact hentered.trans_unmoved (hreleased.trans (unmoved_respond ..))
    · rw [hturn]
      exact fun i hi => by cases hreleased.current.symm.trans hi

/-- What is done with a request that neither opens nor shuts down depends on the phase. -/
theorem handleRequest_of_other {r : Request} (hopens : r.method ≠ "initialize".toList)
    (hshuts : r.method ≠ "shutdown".toList) {pace : Pace} :
    s.handleRequest r pace =
      match s.phase, s.current with
      | .uninitialized, _ => (none, s.refuse r.id .serverNotInitialized notInitialized)
      | .shuttingDown, _ | .exited, _ => (none, s.refuse r.id .invalidRequest isShuttingDown)
      | .serving, none => (none, s.respond (.ok r.id .null))
      | .serving, some i => (none, s.ask i r) := by
  rw [handleRequest, if_neg hopens, if_neg hshuts]
  cases s.phase <;> cases s.current <;> rfl

theorem ask_moves {i : Nat} (hcurrent : s.current = some i) {r : Request}
    (hturn : s.turn (.step (.message (.request r))) = s.ask i r) :
    s.Moves (.step (.message (.request r))) := by
  rw [ask] at hturn
  split at hturn
  · exact .unmoved (hturn ▸ unmoved_respond ..)
  · exact .unmoved (hturn ▸ unmoved_respond ..)
  · next question hopen hquestion => exact .asks i r question rfl hcurrent hquestion hopen hturn

theorem moves (hs : s.Live) (t : Turn) : s.Moves t := by
  rcases t with (m | _) | _ | _ | w
  · cases m with
    | request r =>
        by_cases hopens : r.method = "initialize".toList
        · exact initialize_moves hs hopens
        · by_cases hshuts : r.method = "shutdown".toList
          · exact shutdown_moves hs hshuts
          · have hturn : s.turn (.step (.message (.request r))) = (s.handleRequest r).2 := rfl
            rw [handleRequest_of_other hopens hshuts] at hturn
            split at hturn
            · exact .unmoved (hturn ▸ unmoved_respond ..)
            · exact .unmoved (hturn ▸ unmoved_respond ..)
            · exact .unmoved (hturn ▸ unmoved_respond ..)
            · exact .unmoved (hturn ▸ unmoved_respond ..)
            · next i _ hcurrent => exact ask_moves hcurrent hturn
    | notification n =>
        rcases handleNotification_cases s n with hunmoved | ⟨id, -, -, hcancelled⟩
        · exact .unmoved hunmoved
        · exact .cancels id hcancelled
    | response r => exact .unmoved (unmoved_handleResponse s r)
  · cases hqueue : s.queue with
    | nil =>
        have hturn : s.turn (.step .work) = s := by
          change s.workNext = s
          rw [workNext, hqueue]
        exact .unmoved (by rw [hturn]; exact .refl s)
    | cons job rest => exact .works job rest rfl hqueue
  · exact .begins rfl
  · obtain ⟨p, hcancelled⟩ := cancels_cancelAll hs.current
    have hreleased := unmoved_release ((quiet_cancelAll s).live hs).current
    have hleft := hcancelled.trans_unmoved hreleased
    exact .leaves p ⟨hleft.queue, hleft.caches, hleft.tickets⟩
      fun i hi => by cases hreleased.current.symm.trans hi
  · exact .unmoved (.of_workspace s w)

end Session

end LanguageServer
