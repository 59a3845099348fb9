import LanguageServer.Proofs.Session.Moves
import Mathlib.Data.List.Induction
import Mathlib.Data.List.Nodup

/-!
# Cancelling requests that wait

A request that waits can be cancelled as long as its ticket is registered in the binding in force.
As long as no id is used twice, that is so from the moment it is asked until it is worked on or
another project is opened (`Session.Tracked`), and once cancelled it stays so. What is left is what
the work on a cancelled request comes to: work on a file and the resolution of a completion item are
given up before they start, but a search for symbols looks at the index first.
-/

namespace LanguageServer

/-- A request that waits, cancelled. -/
def Job.cancel (job : Job) : Job := { job with cancelled := true }

theorem Job.cancelIf_eq (p : Job → Bool) (job : Job) :
    job.cancelIf p = job ∨ job.cancelIf p = job.cancel := by
  rw [cancelIf]
  split
  · exact .inr rfl
  · exact .inl rfl

@[simp] theorem Job.cancelIf_id (p : Job → Bool) (job : Job) : (job.cancelIf p).id = job.id := by
  rw [cancelIf]
  split <;> rfl

@[simp] theorem Job.cancelIf_binding (p : Job → Bool) (job : Job) :
    (job.cancelIf p).binding = job.binding := by
  rw [cancelIf]
  split <;> rfl

namespace Session

variable {s s' : Session} {t : Turn} {asked : List RequestId}

/-! ### Registered tickets -/

/-- The ticket of a request among those without another one. -/
theorem find?_forgotten (tickets : List (RequestId × Nat)) (id other : RequestId) :
    (tickets.filter (·.1 ≠ id)).find? (·.1 = other) =
      if other = id then none else tickets.find? (·.1 = other) := by
  rw [List.find?_filter]
  split
  · next h =>
      subst h
      exact List.find?_eq_none.2 fun entry _ => by simp
  · next h =>
      refine congrArg (tickets.find? ·) (funext fun entry => ?_)
      by_cases hentry : entry.1 = other
      · simp [hentry, h]
      · simp [hentry]

theorem find?_registered (tickets : List (RequestId × Nat)) (id other : RequestId) (ticket : Nat) :
    (tickets.filter (·.1 ≠ id) ++ [(id, ticket)]).find? (·.1 = other) =
      if other = id then some (id, ticket) else tickets.find? (·.1 = other) := by
  rw [List.find?_append, find?_forgotten]
  by_cases h : other = id
  · simp [h]
  · rw [if_neg h, if_neg h, List.find?_singleton, if_neg (by simpa using Ne.symm h), Option.or_none]

theorem ticketsAt_forget (s : Session) (i j : Nat) (id : RequestId) :
    (s.modifyBinding i (·.forget id)).ticketsAt j =
      if i = j then (s.ticketsAt j).filter (·.1 ≠ id) else s.ticketsAt j := by
  split
  · next hj =>
      subst hj
      cases hb : s.bindings[i]? with
      | none =>
          have hnone : s.deskAt i = ({}, []) := by
            rw [deskAt, hb]
            rfl
          rw [ticketsAt, ticketsAt, deskAt_modifyBinding_of_none hb, hnone]
          rfl
      | some b =>
          rw [ticketsAt, ticketsAt, deskAt_modifyBinding hb, deskAt_of_binding hb]
          rfl
  · next hj => rw [ticketsAt, ticketsAt, deskAt_modifyBinding_of_ne hj]

theorem ticketsAt_enqueue {i : Nat} (hi : i < s.bindings.length) (j : Nat) (id : RequestId)
    (question : Question) :
    (s.enqueue i id question).ticketsAt j =
      if i = j then (s.ticketsAt j).filter (·.1 ≠ id) ++ [(id, s.issued)] else s.ticketsAt j := by
  have hdesk : (s.enqueue i id question).deskAt j
      = (s.modifyBinding i (·.register id s.issued)).deskAt j := rfl
  rw [ticketsAt, ticketsAt, hdesk]
  split
  · next hj =>
      subst hj
      have hb := List.getElem?_eq_getElem hi
      rw [deskAt_modifyBinding hb, deskAt_of_binding hb]
      rfl
  · next hj => rw [deskAt_modifyBinding_of_ne hj]

/-! ### Which requests can be cancelled -/

/-- The tickets of the requests that wait are where they belong. `asked` are the requests that have
arrived so far. -/
structure Tracked (s : Session) (asked : List RequestId) : Prop where
  distinct : (s.queue.map Job.id).Nodup
  waiting : ∀ job ∈ s.queue, job.id ∈ asked
  opened : ∀ job ∈ s.queue, ∀ result, job.question ≠ .answered result
  tickets : ∀ i, ∀ entry ∈ s.ticketsAt i, entry.1 ∈ asked
  owner : ∀ i, ∀ entry ∈ s.ticketsAt i, ∀ job ∈ s.queue, job.id = entry.1 → job.binding = i
  registered : ∀ job ∈ s.queue, job.cancelled = false → s.current = some job.binding →
    (s.ticketsAt job.binding).find? (·.1 = job.id) = some (job.id, job.ticket)

namespace Tracked

theorem mono {more : List RequestId} (h : Tracked s asked) (hsub : asked ⊆ more) :
    Tracked s more :=
  ⟨h.distinct, fun job hjob => hsub (h.waiting job hjob), h.opened,
    fun i entry hentry => hsub (h.tickets i entry hentry), h.owner, h.registered⟩

/-- Requests may be cancelled and tickets may go, as long as the tickets of the requests that are
not cancelled stay. -/
theorem cancels {p : Job → Bool} (h : Tracked s asked) (hcancels : Cancels p s s')
    (hstays : ∀ job ∈ s.queue, p job = false → job.cancelled = false →
      s'.current = some job.binding →
      (s'.ticketsAt job.binding).find? (·.1 = job.id) = some (job.id, job.ticket)) :
    Tracked s' asked := by
  have hids : s'.queue.map Job.id = s.queue.map Job.id := by
    rw [hcancels.queue, List.map_map]
    exact List.map_congr_left fun job _ => job.cancelIf_id p
  have hmem : ∀ job ∈ s'.queue, ∃ old ∈ s.queue, old.cancelIf p = job := fun job hjob => by
    rw [hcancels.queue] at hjob
    exact List.mem_map.1 hjob
  refine ⟨hids ▸ h.distinct, fun job hjob => ?_, fun job hjob => ?_,
    fun i entry hentry => h.tickets i entry (hcancels.tickets i hentry),
    fun i entry hentry job hjob hid => ?_, fun job hjob hactive hcurrent => ?_⟩
  · obtain ⟨old, hold, rfl⟩ := hmem job hjob
    rw [Job.cancelIf_id]
    exact h.waiting old hold
  · obtain ⟨old, hold, rfl⟩ := hmem job hjob
    rcases old.cancelIf_eq p with heq | heq
    · rw [heq]
      exact h.opened old hold
    · rw [heq]
      exact h.opened old hold
  · obtain ⟨old, hold, rfl⟩ := hmem job hjob
    rw [Job.cancelIf_id] at hid
    rw [Job.cancelIf_binding]
    exact h.owner i entry (hcancels.tickets i hentry) old hold hid
  · obtain ⟨old, hold, rfl⟩ := hmem job hjob
    cases hp : p old with
    | true =>
        rw [Job.cancelIf, if_pos hp] at hactive
        cases hactive
    | false =>
        have hsame : old.cancelIf p = old := by rw [Job.cancelIf, if_neg (by simp [hp])]
        rw [hsame] at hactive hcurrent ⊢
        exact hstays old hold hp hactive hcurrent

theorem same (h : Tracked s asked) (hqueue : s'.queue = s.queue) (hcurrent : s'.current = s.current)
    (htickets : ∀ i, s'.ticketsAt i = s.ticketsAt i) : Tracked s' asked := by
  refine ⟨hqueue ▸ h.distinct, hqueue ▸ h.waiting, hqueue ▸ h.opened, fun i => ?_, fun i => ?_,
    fun job => ?_⟩
  · rw [htickets]
    exact h.tickets i
  · rw [htickets, hqueue]
    exact h.owner i
  · rw [htickets, hqueue, hcurrent]
    exact h.registered job

theorem unmoved (h : Tracked s asked) (hunmoved : Unmoved s s') : Tracked s' asked :=
  h.same hunmoved.queue hunmoved.current hunmoved.ticketsAt

theorem enqueue (h : Tracked s asked) {i : Nat} (hi : i < s.bindings.length) {id : RequestId}
    (hid : id ∉ asked) {question : Question} (hopen : ∀ result, question ≠ .answered result) :
    Tracked (s.enqueue i id question) (asked ++ [id]) := by
  have htickets := fun j => ticketsAt_enqueue hi j id question
  have hentries : ∀ j, ∀ entry ∈ (s.enqueue i id question).ticketsAt j,
      entry ∈ s.ticketsAt j ∨ i = j ∧ entry = (id, s.issued) := by
    intro j entry hentry
    rw [htickets] at hentry
    split at hentry
    · next hj =>
        rcases List.mem_append.1 hentry with hold | hnew
        · exact .inl (List.mem_of_mem_filter hold)
        · exact .inr ⟨hj, List.mem_singleton.1 hnew⟩
    · exact .inl hentry
  have hjobs : ∀ job ∈ (s.enqueue i id question).queue,
      job ∈ s.queue ∨ job = ⟨s.issued, i, id, question, false, false⟩ := fun job hjob =>
    (List.mem_append.1 hjob).imp_right List.mem_singleton.1
  refine ⟨?_, fun job hjob => ?_, fun job hjob => ?_, fun j entry hentry => ?_,
    fun j entry hentry job hjob hsame => ?_, fun job hjob hactive hcurrent => ?_⟩
  · have hids : (s.enqueue i id question).queue.map Job.id = s.queue.map Job.id ++ [id] :=
      List.map_append
    rw [hids, List.nodup_append]
    refine ⟨h.distinct, List.nodup_singleton id, fun old holdid new hnewid => ?_⟩
    obtain ⟨job, hjob, rfl⟩ := List.mem_map.1 holdid
    rw [List.mem_singleton.1 hnewid]
    exact fun heq => hid (heq ▸ h.waiting job hjob)
  · rcases hjobs job hjob with hjob | rfl
    · exact List.mem_append_left [id] (h.waiting job hjob)
    · exact List.mem_append_right asked List.mem_cons_self
  · rcases hjobs job hjob with hjob | rfl
    · exact h.opened job hjob
    · exact hopen
  · rcases hentries j entry hentry with hentry | ⟨-, rfl⟩
    · exact List.mem_append_left [id] (h.tickets j entry hentry)
    · exact List.mem_append_right asked List.mem_cons_self
  · rcases hentries j entry hentry with hentry | ⟨rfl, rfl⟩
    · rcases hjobs job hjob with hjob | rfl
      · exact h.owner j entry hentry job hjob hsame
      · have hsame : id = entry.1 := hsame
        exact absurd (hsame ▸ h.tickets j entry hentry) hid
    · rcases hjobs job hjob with hjob | rfl
      · have hsame : job.id = id := hsame
        exact absurd (hsame ▸ h.waiting job hjob) hid
      · rfl
  · rcases hjobs job hjob with hjob | rfl
    · have hne : job.id ≠ id := fun heq => hid (heq ▸ h.waiting job hjob)
      rw [htickets]
      split
      · rw [find?_registered, if_neg hne]
        exact h.registered job hjob hactive hcurrent
      · exact h.registered job hjob hactive hcurrent
    · rw [htickets, if_pos rfl, find?_registered, if_pos rfl]

/-- A ticket can be forgotten if no request waits for it. -/
theorem forget (h : Tracked s asked) (i : Nat) {id : RequestId}
    (hid : ∀ job ∈ s.queue, job.cancelled = false → job.id ≠ id) :
    Tracked (s.modifyBinding i (·.forget id)) asked := by
  have hsub : ∀ j, (s.modifyBinding i (·.forget id)).ticketsAt j ⊆ s.ticketsAt j := by
    intro j
    rw [ticketsAt_forget]
    split
    · exact List.filter_sublist.subset
    · exact List.Subset.refl _
  refine ⟨h.distinct, h.waiting, h.opened,
    fun j entry hentry => h.tickets j entry (hsub j hentry),
    fun j entry hentry => h.owner j entry (hsub j hentry), fun job hjob hactive hcurrent => ?_⟩
  rw [ticketsAt_forget]
  split
  · rw [find?_forgotten, if_neg (hid job hjob hactive)]
    exact h.registered job hjob hactive hcurrent
  · exact h.registered job hjob hactive hcurrent

theorem cancelTicket (h : Tracked s asked) (ticket : Nat) :
    Tracked (s.cancelTicket ticket) asked := by
  have hcancels : Cancels (fun job => job.ticket = ticket) s (s.cancelTicket ticket) := by
    refine ⟨List.map_congr_left fun job _ => ?_, fun _ => rfl, fun _ => List.Subset.refl _⟩
    simp only [Job.cancelIf, decide_eq_true_eq]
  exact h.cancels hcancels fun job hjob _ hactive hcurrent =>
    h.registered job hjob hactive hcurrent

/-- The request that the ticket is for is the one with the id that was cancelled, so nothing that
waits needs the ticket any more. -/
theorem cancel (h : Tracked s asked) (hs : s.Live) (id : RequestId) :
    Tracked (s.cancel id) asked := by
  rw [cancel_eq hs.current]
  cases hi : s.current with
  | none => exact h
  | some i =>
      dsimp only
      cases hfind : (s.ticketsAt i).find? (·.1 = id) with
      | none => exact h
      | some entry =>
          have hid : entry.1 = id := by simpa using List.find?_some hfind
          refine (h.cancelTicket entry.2).forget i fun job hjob hactive heq => ?_
          obtain ⟨old, hold, rfl⟩ := List.mem_map.1 hjob
          by_cases hticket : old.ticket = entry.2
          · rw [if_pos hticket] at hactive
            cases hactive
          · rw [if_neg hticket] at hactive heq
            have howner := h.owner i entry (List.mem_of_find?_eq_some hfind) old hold
              (heq.trans hid.symm)
            have hregistered := h.registered old hold hactive (by rw [hi, howner])
            rw [howner, heq, hfind, Option.some.injEq] at hregistered
            exact hticket (congrArg Prod.snd hregistered).symm

/-- The work on the request that has waited longest forgets at most the ticket of that request. -/
theorem workNext (h : Tracked s asked) : Tracked s.workNext asked := by
  cases hqueue : s.queue with
  | nil =>
      rw [Session.workNext, hqueue]
      exact h
  | cons job rest =>
      have hdistinct := h.distinct
      rw [hqueue, List.map_cons, List.nodup_cons] at hdistinct
      have hsub : ∀ other ∈ rest, other ∈ s.queue := fun other hother =>
        hqueue ▸ List.mem_cons_of_mem job hother
      have hrest : Tracked { s with queue := rest } asked :=
        ⟨hdistinct.2, fun other hother => h.waiting other (hsub other hother),
          fun other hother => h.opened other (hsub other hother), h.tickets,
          fun i entry hentry other hother => h.owner i entry hentry other (hsub other hother),
          fun other hother => h.registered other (hsub other hother)⟩
      rw [Session.workNext, hqueue]
      dsimp only
      rw [runJob]
      split
      · exact hrest
      · next b _ =>
          obtain ⟨hqueue', hcurrent, htickets⟩ := outcome_kept { s with queue := rest } b job
          have htracked := hrest.same hqueue' hcurrent htickets
          generalize outcome { s with queue := rest } b job = outcome at hqueue' htracked ⊢
          rcases outcome with ⟨_ | result, s₁⟩
          · exact htracked
          · refine (htracked.forget job.binding fun other hother _ heq => ?_).unmoved
              (unmoved_respond ..)
            rw [hqueue'] at hother
            exact hdistinct.1 (heq ▸ List.mem_map_of_mem hother)

/-- Whoever begins with a request leaves its ticket. -/
theorem beginNext (h : Tracked s asked) : Tracked s.beginNext asked := by
  have hof : ∀ job ∈ s.beginNext.queue, ∃ old ∈ s.queue, old.id = job.id ∧
      old.question = job.question ∧ old.binding = job.binding ∧ old.ticket = job.ticket ∧
      old.cancelled = job.cancelled := by
    intro job hjob
    obtain ⟨old, hold, rfl | ⟨rfl, -⟩⟩ := of_mem_beginFirst hjob
    · exact ⟨job, hold, rfl, rfl, rfl, rfl, rfl⟩
    · exact ⟨old, hold, rfl, rfl, rfl, rfl, rfl⟩
  have hids : s.beginNext.queue.map Job.id = s.queue.map Job.id :=
    map_beginFirst (fun _ => rfl) s.queue
  refine ⟨hids ▸ h.distinct, fun job hjob => ?_, fun job hjob => ?_, h.tickets,
    fun i entry hentry job hjob hid => ?_, fun job hjob hactive hcurrent => ?_⟩
  · obtain ⟨old, hold, hid, -⟩ := hof job hjob
    exact hid ▸ h.waiting old hold
  · obtain ⟨old, hold, -, hquestion, -⟩ := hof job hjob
    exact hquestion ▸ h.opened old hold
  · obtain ⟨old, hold, hsame, -, hbinding, -⟩ := hof job hjob
    exact hbinding ▸ h.owner i entry hentry old hold (hsame.trans hid)
  · obtain ⟨old, hold, hid, -, hbinding, hticket, hcancelled⟩ := hof job hjob
    have hregistered := h.registered old hold (hcancelled.trans hactive)
      (hcurrent.trans (congrArg some hbinding.symm))
    rw [hbinding, hid, hticket] at hregistered
    exact hregistered

/-- Requests stay where they belong with every turn that brings no id for the second time. -/
theorem turn (h : Tracked s asked) (hs : s.Live) {t : Turn} (ht : ∀ id ∈ t.asked, id ∉ asked) :
    Tracked (s.turn t) (asked ++ t.asked) := by
  have hmore : asked ⊆ asked ++ t.asked := List.subset_append_left asked t.asked
  cases moves hs t with
  | unmoved hunmoved => exact (h.unmoved hunmoved).mono hmore
  | asks i r question hr hcurrent _ hopen hnext =>
      rw [hnext]
      subst hr
      exact h.enqueue (hs.current i hcurrent) (ht r.id List.mem_cons_self) hopen
  | begins ht =>
      subst ht
      exact h.beginNext.mono hmore
  | cancels id hnext =>
      rw [hnext]
      exact (h.cancel hs id).mono hmore
  | leaves p hcancels hcurrent =>
      refine (h.cancels hcancels fun job hjob _ _ hbound => ?_).mono hmore
      -- The binding that may be in force now is younger than everything that waits.
      have hold := hs.queue job hjob
      have hnew := hcurrent _ hbound
      omega
  | works job rest hwork _ =>
      subst hwork
      exact h.workNext.mono hmore

end Tracked

theorem tracked_session (service : Service) : Tracked service.session [] := by
  have hqueue : service.session.queue = [] := rfl
  have htickets : ∀ i, service.session.ticketsAt i = [] := fun _ => rfl
  constructor <;> simp [hqueue, htickets]

theorem tracked_after (service : Service) {turns : List Turn}
    (hdistinct : (turns.flatMap Turn.asked).Nodup) :
    Tracked (service.session.after turns) (turns.flatMap Turn.asked) := by
  induction turns using List.reverseRecOn with
  | nil => exact tracked_session service
  | append_singleton turns t ih =>
      rw [List.flatMap_append, List.flatMap_singleton] at hdistinct ⊢
      obtain ⟨hturns, -, hnew⟩ := List.nodup_append.1 hdistinct
      have hlive := (takes_after (live_session service) turns).1
      rw [after_concat]
      exact (ih hturns).turn hlive fun id hid hold => hnew id hold id hid rfl

/-! ### What becomes of a request that was cancelled -/

theorem queue_cancel (hs : s.Live) (id : RequestId) :
    ∃ p, (s.cancel id).queue = s.queue.map (Job.cancelIf p) := by
  have hsame : ∃ p, s.queue = s.queue.map (Job.cancelIf p) :=
    ⟨fun _ => false, (List.map_id _).symm⟩
  rw [cancel_eq hs.current]
  split
  · exact hsame
  · split
    · exact hsame
    · next ticket _ =>
        refine ⟨fun job => job.ticket = ticket, List.map_congr_left fun job _ => ?_⟩
        simp only [Job.cancelIf, decide_eq_true_eq]

theorem mem_cancelIf {p : Job → Bool} {job : Job} (h : job ∈ s.queue.map (Job.cancelIf p)) :
    ∃ old ∈ s.queue, job = old ∨ job = old.cancel := by
  obtain ⟨old, hold, rfl⟩ := List.mem_map.1 h
  exact ⟨old, hold, old.cancelIf_eq p⟩

/-- What waits after a turn has waited before, but it may have been cancelled, someone may have
begun with it unless it was cancelled, or it is new. -/
theorem mem_queue_turn (hs : s.Live) {job : Job} (h : job ∈ (s.turn t).queue) :
    (∃ old ∈ s.queue, (job = old ∨ job = old.cancel) ∨
      job = { old with begun := true } ∧ old.cancelled = false) ∨ job.id ∈ t.asked := by
  have hkept : (∃ old ∈ s.queue, job = old ∨ job = old.cancel) →
      (∃ old ∈ s.queue, (job = old ∨ job = old.cancel) ∨
        job = { old with begun := true } ∧ old.cancelled = false) ∨ job.id ∈ t.asked :=
    fun ⟨old, hold, hsame⟩ => .inl ⟨old, hold, .inl hsame⟩
  cases moves hs t with
  | unmoved hunmoved => exact hkept ⟨job, hunmoved.queue ▸ h, .inl rfl⟩
  | begins ht =>
      subst ht
      obtain ⟨old, hold, hsame | hbegun⟩ := of_mem_beginFirst h
      · exact hkept ⟨old, hold, .inl hsame⟩
      · exact .inl ⟨old, hold, .inr hbegun⟩
  | asks i r question hr _ _ _ hnext =>
      rw [hnext] at h
      subst hr
      rcases List.mem_append.1 h with hold | hnew
      · exact hkept ⟨job, hold, .inl rfl⟩
      · rw [List.mem_singleton.1 hnew]
        exact .inr List.mem_cons_self
  | cancels id hnext =>
      obtain ⟨p, hqueue⟩ := queue_cancel hs id
      rw [hnext, hqueue] at h
      exact hkept (mem_cancelIf h)
  | leaves p hcancels =>
      rw [hcancels.queue] at h
      exact hkept (mem_cancelIf h)
  | works first rest hwork hqueue =>
      subst hwork
      have hrest : job ∈ rest := queue_workNext hqueue ▸ h
      exact hkept ⟨job, hqueue ▸ List.mem_cons_of_mem first hrest, .inl rfl⟩

/-- The request with an id, if it waits at all, is the one given. -/
def Only (s : Session) (job : Job) : Prop := ∀ other ∈ s.queue, other.id = job.id → other = job

theorem Only.turn {job : Job} (h : s.Only job.cancel) (hs : s.Live) (hid : job.id ∉ t.asked) :
    (s.turn t).Only job.cancel := by
  intro other hother heq
  rcases mem_queue_turn hs hother with ⟨old, hold, (rfl | rfl) | ⟨rfl, hactive⟩⟩ | hnew
  · exact h other hold heq
  · exact (congrArg Job.cancel (h old hold heq)).trans rfl
  · cases (congrArg Job.cancelled (h old hold heq)).symm.trans hactive
  · exact absurd (heq ▸ hnew) hid

theorem Only.after {job : Job} (h : s.Only job.cancel) (hs : s.Live) {turns : List Turn}
    (hid : job.id ∉ turns.flatMap Turn.asked) : (s.after turns).Only job.cancel := by
  induction turns generalizing s with
  | nil => exact h
  | cons t turns ih =>
      rw [List.flatMap_cons, List.mem_append, not_or] at hid
      exact ih (h.turn hs hid.1) (takes_turn hs t).1 hid.2

theorem Tracked.only (h : Tracked s asked) {job : Job} (hjob : job ∈ s.queue) : s.Only job :=
  fun _ hother heq => List.inj_on_of_nodup_map h.distinct hother hjob heq

/-- A request in force is cancelled when it is to be. -/
theorem only_cancel (h : Tracked s asked) (hs : s.Live) {job : Job} (hjob : job ∈ s.queue)
    (hforce : job.cancelled = true ∨ s.current = some job.binding) :
    (s.cancel job.id).Only job.cancel := by
  intro other hother heq
  cases hcancelled : job.cancelled with
  | true =>
      have hsame : job.cancel = job := by
        rw [Job.cancel, ← hcancelled]
      obtain ⟨p, hqueue⟩ := queue_cancel hs job.id
      rw [hqueue] at hother
      obtain ⟨old, hold, rfl | rfl⟩ := mem_cancelIf hother
      · rw [h.only hjob other hold heq, hsame]
      · rw [h.only hjob old hold heq]
  | false =>
      have hcurrent := hforce.resolve_left (by rw [hcancelled]; exact Bool.false_ne_true)
      have hregistered := h.registered job hjob hcancelled hcurrent
      have hcancel : s.cancel job.id
          = (s.modifyBinding job.binding (·.forget job.id)).cancelTicket job.ticket := by
        rw [cancel_eq hs.current, hcurrent]
        dsimp only
        rw [hregistered]
      rw [hcancel] at hother
      obtain ⟨old, hold, rfl⟩ := List.mem_map.1 hother
      have hold' : old.id = job.id := by
        split at heq <;> exact heq
      rw [h.only hjob old hold hold', if_pos rfl]
      rfl

/-- A request that is not in force cannot be cancelled any more. -/
theorem cancel_of_not_in_force (h : Tracked s asked) (hs : s.Live) {job : Job}
    (hjob : job ∈ s.queue) (hforce : s.current ≠ some job.binding) : s.cancel job.id = s := by
  rw [cancel_eq hs.current]
  cases hi : s.current with
  | none => rfl
  | some i =>
      have hnone : (s.ticketsAt i).find? (·.1 = job.id) = none := by
        refine List.find?_eq_none.2 fun entry hentry hid => hforce ?_
        rw [hi, h.owner i entry hentry job hjob (by simpa [eq_comm] using hid)]
      dsimp only
      rw [hnone]

/-! ### The work on a cancelled request -/

/-- A request that has left the queue, and for which some steps have been taken. -/
def concluded (s : Session) (b : Binding) (job : Job) (steps : WorkspaceM Unit) : Session :=
  (s.within b.documents steps).2.modifyBinding job.binding (·.forget job.id)

/-- The response to a request that was cancelled. -/
def cancelledResponse (id : RequestId) : Response :=
  .failure id .requestCancelled "request cancelled".toList

theorem within_congr {α β : Type} {steps : WorkspaceM α} {steps' : WorkspaceM β}
    (h : (steps.run s.workspace).2 = (steps'.run s.workspace).2) (docs : Documents) :
    (s.within docs steps).2 = (s.within docs steps').2 :=
  congrArg (fun w : Workspace => w.events.foldl (deliver docs)
    { s with workspace := { w with events := [] } }) h

variable {b : Binding} {job : Job} {rest : List Job}

theorem workNext_about_of_cancelled (hqueue : s.queue = job :: rest)
    (hb : s.bindings[job.binding]? = some b) (hcancelled : job.cancelled = true)
    (hbegun : job.begun = false) {uri : Text} {position : Option Position} {command : Command}
    (hquestion : job.question = .about uri position command) :
    s.workNext = (concluded { s with queue := rest } b job (pure ())).respond
      (cancelledResponse job.id) := by
  have hbefore : (workOf b job uri position command).cancellation = .before := by
    simp [workOf, hcancelled, hbegun]
  have hrun : (workOf b job uri position command).run true
      (fun sources => command.execute s.workspace.capabilities sources b.cache)
        = pure (.error .cancelled) := by
    rw [Work.run, if_neg (by decide), if_pos hbefore]
  have houtcome : outcome { s with queue := rest } b job = (some (.error .cancelled),
      (Session.within { s with queue := rest } b.documents (pure () : WorkspaceM Unit)).2) := by
    simp only [outcome, hquestion, perform]
    rw [hrun]
    rfl
  exact workNext_of_outcome hqueue hb houtcome

theorem workNext_resolveItem_of_cancelled (hqueue : s.queue = job :: rest)
    (hb : s.bindings[job.binding]? = some b) (hcancelled : job.cancelled = true)
    (hbegun : job.begun = false) {item : CompletionItem}
    (hquestion : job.question = .resolveItem item) :
    s.workNext = ({ s with queue := rest }.modifyBinding job.binding (·.forget job.id)).respond
      (cancelledResponse job.id) := by
  have houtcome : outcome { s with queue := rest } b job
      = (some (.error .cancelled), { s with queue := rest }) := by
    simp only [outcome, hquestion, hcancelled, hbegun, Bool.not_false, Bool.and_self, if_true]
  exact workNext_of_outcome hqueue hb houtcome

/-- A search looks at the index before anything else. -/
theorem searchSymbols_of_indexing {w : Workspace}
    (h : (w.capabilities.isIndexing || !w.capabilities.runsUnits) = true) (project : Nat)
    (query : Text) (limit : Nat) (cancelled : Bool) :
    (searchSymbols project query limit cancelled).run w = (.ok none, w) := by
  simp only [searchSymbols, StateT.run_bind, StateT.run_get, pure_bind, h, if_true]
  rfl

/-- Once there is an index the workspace is asked, whether the search was cancelled or not. -/
theorem searchSymbols_of_indexed {w : Workspace}
    (h : (w.capabilities.isIndexing || !w.capabilities.runsUnits) = false) (project : Nat)
    (query : Text) (limit : Nat) :
    let pattern := if query.isEmpty then ['*'] else query
    ((searchSymbols project query limit true).run w).2
        = ((Workspace.note (.workspaceSymbols pattern limit)).run w).2 ∧
      ∀ p found, w.project? project = some p →
        w.capabilities.workspaceSymbols p.toSources pattern limit true = .ok found →
        ((searchSymbols project query limit true).run w).1 = .error (.error .cancelled) := by
  intro pattern
  obtain ⟨answer, hanswer, hrun⟩ : ∃ answer,
      (∀ p, w.project? project = some p →
        w.capabilities.workspaceSymbols p.toSources pattern limit true = answer) ∧
      (Workspace.workspaceSymbols project pattern limit true).run w
        = (answer, ((Workspace.note (.workspaceSymbols pattern limit)).run w).2) := by
    refine ⟨_, fun p hp => ?_, workspaceSymbols_run w project pattern limit true⟩
    rw [hp]
  simp only [searchSymbols, StateT.run_bind, StateT.run_get, pure_bind, h, Bool.false_eq_true,
    if_false]
  rw [hrun]
  constructor
  · cases answer <;> rfl
  · intro p found hp hfound
    rw [hanswer p hp] at hfound
    rw [hfound]
    rfl

theorem outcome_symbols_eq (s : Session) (b : Binding) {query : Text}
    (hquestion : job.question = .symbols query) (steps : WorkspaceM Unit)
    (hsteps : ((searchSymbols b.project query s.symbolLimit job.cancelled).run s.workspace).2
      = (steps.run s.workspace).2) :
    s.outcome b job =
      (unguarded symbolsToJson
        ((searchSymbols b.project query s.symbolLimit job.cancelled).run s.workspace).1,
        (s.within b.documents steps).2) := by
  rw [← within_congr hsteps]
  simp only [outcome, hquestion]
  rfl

theorem workspace_workNext (hqueue : s.queue = job :: rest)
    (hb : s.bindings[job.binding]? = some b) :
    s.workNext.workspace = (outcome { s with queue := rest } b job).2.workspace := by
  rcases workNext_cases hqueue hb with ⟨-, hnext⟩ | ⟨_, -, hnext⟩
  · rw [hnext]
  · rw [hnext]
    rfl

theorem workNext_symbols_of_indexing (hqueue : s.queue = job :: rest)
    (hb : s.bindings[job.binding]? = some b) {query : Text}
    (hquestion : job.question = .symbols query)
    (h : (s.workspace.capabilities.isIndexing || !s.workspace.capabilities.runsUnits) = true) :
    s.workNext
      = (concluded { s with queue := rest } b job (pure ())).respond (.ok job.id .null) := by
  have hsearch := searchSymbols_of_indexing h b.project query s.symbolLimit job.cancelled
  have houtcome : outcome { s with queue := rest } b job = (some (.ok .null),
      (Session.within { s with queue := rest } b.documents (pure () : WorkspaceM Unit)).2) :=
    (outcome_symbols_eq { s with queue := rest } b hquestion (pure ())
      (congrArg Prod.snd hsearch)).trans (congrArg (unguarded symbolsToJson ·.1, _) hsearch)
  exact workNext_of_outcome hqueue hb houtcome

theorem workNext_symbols_of_indexed (hqueue : s.queue = job :: rest)
    (hb : s.bindings[job.binding]? = some b) (hcancelled : job.cancelled = true) {query : Text}
    (hquestion : job.question = .symbols query)
    (h : (s.workspace.capabilities.isIndexing || !s.workspace.capabilities.runsUnits) = false) :
    let pattern := if query.isEmpty then ['*'] else query
    let call := Call.workspaceSymbols pattern s.symbolLimit
    s.workNext.workspace.calls = s.workspace.calls ++ [call] ∧
      ∀ p found, s.workspace.project? b.project = some p →
        s.workspace.capabilities.workspaceSymbols p.toSources pattern s.symbolLimit true
          = .ok found →
        s.workNext = (concluded { s with queue := rest } b job (Workspace.note call)).respond
          (cancelledResponse job.id) := by
  intro pattern call
  obtain ⟨hcall, hfound⟩ := searchSymbols_of_indexed h b.project query s.symbolLimit
  have hasked := outcome_symbols_eq { s with queue := rest } b hquestion (Workspace.note call)
    (hcancelled ▸ hcall)
  rw [hcancelled] at hasked
  constructor
  · rw [workspace_workNext hqueue hb, hasked, within_workspace]
    rfl
  · intro p found hp hanswer
    have houtcome : outcome { s with queue := rest } b job = (some (.error .cancelled),
        (Session.within { s with queue := rest } b.documents (Workspace.note call)).2) :=
      hasked.trans (congrArg (unguarded symbolsToJson ·, _) (hfound p found hp hanswer))
    exact workNext_of_outcome hqueue hb houtcome

/-- Whenever a request is cancelled that waits: if nobody has begun with it, and its binding is
still in force or the request has been cancelled before, then nobody begins with it any more, and
the work on it comes to nothing but the response that says so. A search for symbols is the
exception, which is answered with null as long as there is no index, and asks the workspace all the
same from then on. If another binding has taken the place of the one that the request was asked
under, cancelling it does nothing at all. -/
theorem cancelled_before_work (service : Service) (past future : List Turn) (n : Notification)
    (job : Job) (hdistinct : ((past ++ future).flatMap Turn.asked).Nodup)
    (hwaits : job ∈ (service.session.after past).queue)
    (hmethod : n.method = "$/cancelRequest".toList)
    (hid : Params.cancelled? n.params = some job.id) :
    let cancelling := Turn.step (.message (.notification n))
    let s₁ := service.session.after past
    let s := service.session.after (past ++ cancelling :: future)
    (s₁.current ≠ some job.binding → s₁.turn cancelling = s₁) ∧
    (job.begun = false → job.cancelled = true ∨ s₁.current = some job.binding →
      ∀ next rest, s.queue = next :: rest → next.id = job.id →
        next = job.cancel ∧ ∃ b, s.bindings[job.binding]? = some b ∧
          let begun : Session := { s with queue := rest }
          match job.question with
          | .about .. =>
            s.workNext = (begun.concluded b job (pure ())).respond (cancelledResponse job.id)
          | .resolveItem _ =>
            s.workNext = (begun.modifyBinding job.binding (·.forget job.id)).respond
              (cancelledResponse job.id)
          | .symbols query =>
            let capabilities := s.workspace.capabilities
            let pattern := if query.isEmpty then ['*'] else query
            let call := Call.workspaceSymbols pattern s.symbolLimit
            if capabilities.isIndexing || !capabilities.runsUnits then
              s.workNext = (begun.concluded b job (pure ())).respond (.ok job.id .null)
            else
              s.workNext.workspace.calls = s.workspace.calls ++ [call] ∧
                ∀ p found, s.workspace.project? b.project = some p →
                  capabilities.workspaceSymbols p.toSources pattern s.symbolLimit true = .ok found →
                  s.workNext = (begun.concluded b job (Workspace.note call)).respond
                    (cancelledResponse job.id)
          | .answered _ => False) := by
  intro cancelling s₁ s
  rw [List.flatMap_append] at hdistinct
  obtain ⟨hpast, -, hfuture⟩ := List.nodup_append.1 hdistinct
  have hlive : s₁.Live := (takes_after (live_session service) past).1
  have htracked : s₁.Tracked (past.flatMap Turn.asked) := tracked_after service hpast
  have hturn : s₁.turn cancelling = s₁.cancel job.id := by
    have hhandle : s₁.turn cancelling = (s₁.handleNotification n).2 := rfl
    rw [hhandle, handleNotification, if_neg (by rw [hmethod]; decide), if_pos hmethod, hid]
    rfl
  refine ⟨fun hforce => hturn.trans (cancel_of_not_in_force htracked hlive hwaits hforce),
    fun hbegun hforce next rest hqueue hnext => ?_⟩
  have hs : s = (s₁.turn cancelling).after future := List.foldl_append ..
  have hafter : s.Live := hs ▸ (takes_after (takes_turn hlive cancelling).1 future).1
  have honly : s.Only job.cancel := by
    rw [hs]
    refine Only.after (hturn ▸ only_cancel htracked hlive hwaits hforce)
      (takes_turn hlive cancelling).1 fun hlater => ?_
    exact hfuture job.id (htracked.waiting job hwaits) job.id hlater rfl
  obtain rfl : next = job.cancel := honly next (hqueue ▸ List.mem_cons_self) hnext
  obtain ⟨b, hb⟩ := hafter.exists_binding (hqueue ▸ List.mem_cons_self)
  refine ⟨rfl, b, hb, ?_⟩
  intro begun
  have hopen := htracked.opened job hwaits
  cases hquestion : job.question with
  | about uri position command =>
      exact (workNext_about_of_cancelled hqueue hb rfl hbegun hquestion :)
  | symbols query =>
      dsimp only
      split
      · next hindexing =>
          exact (workNext_symbols_of_indexing hqueue hb hquestion hindexing :)
      · next hindexed =>
          exact workNext_symbols_of_indexed hqueue hb rfl hquestion (Bool.eq_false_iff.2 hindexed)
  | resolveItem item =>
      exact (workNext_resolveItem_of_cancelled hqueue hb rfl hbegun hquestion :)
  | answered result => exact hopen result hquestion

/-- A client opens a project and searches it for a symbol. -/
def searchAsked : List Turn :=
  let folder : Json := .obj [("name", .ofString "p"), ("uri", .str Workspace.sampleRoot)]
  [.step (.message (.request ⟨.number 1, "initialize".toList,
      .obj [("capabilities", .obj []), ("workspaceFolders", .arr [folder])]⟩)),
    .step (.message (.request ⟨.number 2, "workspace/symbol".toList,
      .obj [("query", .ofString "one")]⟩))]

/-- The search of that client, as it waits. -/
def waitingSearch : Job := ⟨0, 0, .number 2, .symbols "one".toList, false, false⟩

/-- Whether that search is all that waits. -/
def searchWaits (s : Session) : Bool :=
  match s.queue with
  | [⟨0, 0, .number 2, .symbols query, false, false⟩] => query = "one".toList
  | _ => false

theorem queue_of_searchWaits (h : s.searchWaits = true) : s.queue = [waitingSearch] := by
  rw [searchWaits] at h
  split at h
  · next query hqueue =>
      rw [hqueue, of_decide_eq_true h]
      rfl
  · cases h

/-- The workspace is asked for the symbols although the search was cancelled while it waited. -/
theorem cancelled_before_work_search :
    let service : Service := { workspace := { disk := Workspace.sampleDisk } }
    let n : Notification := ⟨"$/cancelRequest".toList, .obj [("id", .int 2)]⟩
    let s := service.session.after (searchAsked ++ [.step (.message (.notification n))])
    (service.session.after searchAsked).current = some 0 ∧
      s.queue.map (fun job => (job.id, job.cancelled)) = [(.number 2, true)] ∧
      s.workNext.workspace.calls = s.workspace.calls ++ [.workspaceSymbols "one".toList 100] := by
  intro service n s
  have hqueue := queue_of_searchWaits (s := service.session.after searchAsked) (by decide +kernel)
  have hdistinct : ((searchAsked ++ []).flatMap Turn.asked).Nodup := by decide +kernel
  have hjob : waitingSearch ∈ (service.session.after searchAsked).queue := by
    rw [hqueue]
    exact List.mem_singleton_self _
  have hid : Params.cancelled? n.params = some waitingSearch.id := by decide +kernel
  have hforce : (service.session.after searchAsked).current = some 0 := by decide +kernel
  have hwaits : s.queue.map (fun job => (job.id, job.cancelled)) = [(.number 2, true)] := by
    decide +kernel
  have hindexed : ¬ (s.workspace.capabilities.isIndexing
      || !s.workspace.capabilities.runsUnits) = true := by decide +kernel
  have hlimit : s.symbolLimit = 100 := by decide +kernel
  have hwork := (cancelled_before_work service searchAsked [] n waitingSearch hdistinct hjob rfl
    hid).2 rfl (.inr hforce)
  have hs : s = service.session.after (searchAsked ++ [.step (.message (.notification n))]) := rfl
  rw [← hs] at hwork
  clear_value s
  cases hnext : s.queue with
  | nil =>
      rw [hnext] at hwaits
      cases hwaits
  | cons next rest =>
      rw [hnext, List.map_cons, List.cons.injEq, Prod.mk.injEq] at hwaits
      obtain ⟨-, b, -, hsearch⟩ := hwork next rest hnext hwaits.1.1
      dsimp only [waitingSearch] at hsearch
      rw [if_neg hindexed, hlimit] at hsearch
      exact ⟨hforce, by simpa using hwaits, hsearch.1⟩

end Session

end LanguageServer
