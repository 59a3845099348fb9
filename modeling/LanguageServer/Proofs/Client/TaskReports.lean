import LanguageServer.Proofs.Client.Requests
import LanguageServer.Proofs.Text.Ends
import LanguageServer.Server.Session.Messages

/-!
# Reports of tasks

What the client hears of tasks is settled by the events alone (`script`): a request for a token and
then the start for each task that starts, and the end for each task that ends. When and how the
client answers only decides how much of that has been sent (`outstanding`), as a start goes out once
its own request has been answered or given up (`sends`). At the end everything has been sent
(`reports_follow_events`).
-/

namespace LanguageServer

/-! ### Tokens -/

theorem hexadecimal_of_lt {n : Nat} (h : n < 16) : hexadecimal n = [n.digitChar] :=
  Nat.toDigits_of_lt_base h

theorem hexadecimal_of_le {n : Nat} (h : 16 ≤ n) :
    hexadecimal n = hexadecimal (n / 16) ++ [(n % 16).digitChar] :=
  Nat.toDigits_of_base_le (by decide) h

theorem at_not_mem_hexadecimal (n : Nat) : '@' ∉ hexadecimal n := by
  have hdigit : ∀ d < 16, '@' ∉ [d.digitChar] := by decide
  induction n using Nat.strongRecOn with
  | ind n ih =>
      rcases Nat.lt_or_ge n 16 with hlt | hle
      · rw [hexadecimal_of_lt hlt]
        exact hdigit n hlt
      · rw [hexadecimal_of_le hle, List.mem_append, not_or]
        exact ⟨ih _ (by omega), hdigit _ (by omega)⟩

theorem hexadecimal_injective {m n : Nat} (h : hexadecimal m = hexadecimal n) : m = n := by
  have hdigit : ∀ d < 16, ∀ e < 16, d.digitChar = e.digitChar → d = e := by decide
  have hlonger {k : Nat} (hk : 16 ≤ k) : 1 < (hexadecimal k).length := by
    have hpos : 0 < (hexadecimal (k / 16)).length := Nat.length_toDigits_pos
    rw [hexadecimal_of_le hk, List.length_append, List.length_singleton]
    omega
  induction m using Nat.strongRecOn generalizing n with
  | ind m ih =>
      have hlength := congrArg List.length h
      rcases Nat.lt_or_ge m 16 with hm | hm <;> rcases Nat.lt_or_ge n 16 with hn | hn
      · rw [hexadecimal_of_lt hm, hexadecimal_of_lt hn] at h
        exact hdigit m hm n hn (List.cons.inj h).1
      · rw [hexadecimal_of_lt hm] at hlength
        exact absurd (hlonger hn) (by simp [← hlength])
      · rw [hexadecimal_of_lt hn] at hlength
        exact absurd (hlonger hm) (by simp [hlength])
      · rw [hexadecimal_of_le hm, hexadecimal_of_le hn] at h
        obtain ⟨hfront, hlast⟩ := List.append_inj' h rfl
        have hquotient := ih (m / 16) (by omega) hfront
        have hrest := hdigit _ (by omega) _ (by omega) (List.cons.inj hlast).1
        omega

/-- Tasks have the same token only if they are of the same kind and have the same number. -/
theorem TaskInfo.token_eq_iff {t t' : TaskInfo} :
    t.token = t'.token ↔ t.kind = t'.kind ∧ t.id = t'.id := by
  constructor
  · intro h
    have hlast (t : TaskInfo) : Text.takeEndWhile (· != '@') t.token = hexadecimal t.id := by
      rw [token, List.append_cons]
      refine Text.takeEndWhile_append (fun c hc => ?_) fun c hc => ?_
      · rw [List.getLast?_concat, Option.some.injEq] at hc
        simp [← hc]
      · simpa using fun heq : c = '@' => at_not_mem_hexadecimal t.id (heq ▸ hc)
    have hid : t.id = t'.id := hexadecimal_injective (by rw [← hlast t, h, hlast t'])
    rw [token, token, hid] at h
    exact ⟨List.append_cancel_right h, hid⟩
  · rintro ⟨hkind, hid⟩
    rw [token, token, hkind, hid]

/-- A message that is a report of a task. -/
def Message.isReport : Message → Bool
  | .request r => r.method = "window/workDoneProgress/create".toList
  | .notification n => n.method = "$/progress".toList
  | .response _ => false

/-- The reports among the messages that a client has been sent. -/
def Client.reports (c : Client) : List Message := c.sent.filter (·.isReport)

def ProgressEvent.isStart : ProgressEvent → Bool
  | .start _ => true
  | .finish _ => false

namespace Progress

/-! ### What is to be reported -/

/-- The request for the token of a task, sent after `asked` other requests. -/
def createMessage (asked : Nat) (task : TaskInfo) : Message :=
  .request ⟨Client.idAfter asked, "window/workDoneProgress/create".toList,
    .obj [("token", .str task.token)]⟩

/-- The start of a task. -/
def beginMessage (task : TaskInfo) : Message :=
  .notification ⟨"$/progress".toList, .obj [("token", .str task.token), ("value", .obj [
    ("kind", .ofString "begin"), ("title", .str task.title), ("cancellable", .bool false),
    ("percentage", .nat 0)])]⟩

/-- The end of a task. -/
def endMessage (task : TaskInfo) : Message :=
  .notification ⟨"$/progress".toList,
    .obj [("token", .str task.token), ("value", .obj [("kind", .ofString "end")])]⟩

/-- All that is reported of some events, after `asked` requests. -/
def script (asked : Nat) : List ProgressEvent → List Message
  | [] => []
  | .start task :: events =>
    createMessage asked task :: beginMessage task :: script (asked + 1) events
  | .finish task :: events => endMessage task :: script asked events

/-- What can be reported of some events at once: all up to the first request for a token. -/
def atOnce (asked : Nat) : List ProgressEvent → List Message
  | [] => []
  | .start task :: _ => [createMessage asked task]
  | .finish task :: events => endMessage task :: atOnce asked events

/-- What is still to be reported. -/
def outstanding (p : Progress) (asked : Nat) : List Message :=
  match p.awaiting with
  | some (_, task) => beginMessage task :: script asked p.pending
  | none => script asked p.pending

/-! ### What happens meanwhile -/

/-- What can happen while tasks are reported: an event, a response of any kind, the time for an
answer is over, no more events are taken, and another part of the server sends a message. -/
inductive Step
  | push (e : ProgressEvent)
  | answer (r : Response)
  | expire
  | close
  | send (m : Message)

namespace Step

def event? : Step → Option ProgressEvent
  | push e => some e
  | _ => none

def isClose : Step → Bool
  | close => true
  | _ => false

/-- Whether the start that waits for a request with an id can be reported now. -/
def releases (id : RequestId) : Step → Bool
  | answer r => r.id = id
  | expire => true
  | _ => false

end Step

def step : Progress × Client → Step → Progress × Client
  | (p, c), .push e => p.push e c
  | (p, c), .answer r =>
    match c.route r with
    | (true, c) => p.answered r.id c
    | (false, c) => (p, c)
  | (p, c), .expire => p.timedOut c
  | (p, c), .close => ({ p with stopped := true }, c)
  | (p, c), .send m => (p, c.send m)

/-- The reports to a client after some steps. -/
def after (c : Client) (steps : List Step) : Progress × Client := steps.foldl step ({}, c)

/-- The events that are taken. -/
def taken : List Step → List ProgressEvent
  | [] => []
  | s :: steps => if s.isClose then [] else s.event?.toList ++ taken steps

/-- What is reported at a step. -/
def sends (p : Progress) (asked : Nat) (s : Step) : List Message :=
  match p.awaiting with
  | some (id, task) =>
    if s.releases id then beginMessage task :: atOnce asked p.pending else []
  | none => if p.stopped then [] else atOnce asked s.event?.toList

/-! ### One report -/

section Clients

variable {c : Client}

theorem reports_send (hconnected : c.connected = true) (m : Message) :
    (c.send m).reports = c.reports ++ [m].filter (·.isReport) := by
  rw [Client.send, if_pos hconnected]
  exact List.filter_append ..

theorem reports_reportStart (hconnected : c.connected = true) (task : TaskInfo) :
    (reportStart task c).reports = c.reports ++ [beginMessage task] :=
  reports_send hconnected (beginMessage task)

theorem reports_reportFinish (hconnected : c.connected = true) (task : TaskInfo) :
    (reportFinish task c).reports = c.reports ++ [endMessage task] :=
  reports_send hconnected (endMessage task)

theorem reports_ask (hconnected : c.connected = true) (task : TaskInfo) :
    (ask task c).2.reports = c.reports ++ [createMessage c.asked task] :=
  reports_send (c := { c with
    asked := c.asked + 1
    waiting := c.waiting.filter (· ≠ Client.idAfter c.asked) ++ [Client.idAfter c.asked] })
    hconnected (createMessage c.asked task)

theorem mem_waiting_ask (task : TaskInfo) : Client.idAfter c.asked ∈ (ask task c).2.waiting := by
  simp [ask, Client.request]

end Clients

/-- While the rest of `events` is pending, the reports follow the events: with what is outstanding,
they are just what is to be said of them behind what `c₀` had been sent before. Nothing is pending
unless a start waits, and a start waits for the request that was reported last. -/
structure Follows (c₀ : Client) (events : List ProgressEvent) (p : Progress) (c : Client) :
    Prop where
  connected : c.connected = true
  told : c.reports ++ p.outstanding c.asked = c₀.reports ++ script c₀.asked events
  asked : c.asked + p.pending.countP (·.isStart) = c₀.asked + events.countP (·.isStart)
  idle : p.awaiting = none → p.pending = []
  awaited : ∀ id task, p.awaiting = some (id, task) → id ∈ c.waiting ∧
    ∃ n, c.asked = n + 1 ∧ id = Client.idAfter n ∧
      c.reports.getLast? = some (createMessage n task)

section Steps

variable {c₀ c : Client} {events pending : List ProgressEvent} {p : Progress}

theorem run_nil (stopped : Bool) : run ⟨[], none, stopped⟩ c = (⟨[], none, stopped⟩, c) := rfl

theorem run_finish (stopped : Bool) (task : TaskInfo) :
    run ⟨.finish task :: pending, none, stopped⟩ c
      = run ⟨pending, none, stopped⟩ (reportFinish task c) := rfl

theorem run_start (stopped : Bool) (task : TaskInfo) :
    run ⟨.start task :: pending, none, stopped⟩ c
      = (⟨pending, some (Client.idAfter c.asked, task), stopped⟩, (ask task c).2) := rfl

theorem stopped_run (p : Progress) (c : Client) : (p.run c).1.stopped = p.stopped := by
  rw [run]
  split <;> rfl

/-- Where no start waits, what is pending is reported up to the next one. -/
theorem follows_run (stopped : Bool) (hconnected : c.connected = true)
    (htold : c.reports ++ script c.asked pending = c₀.reports ++ script c₀.asked events)
    (hasked : c.asked + pending.countP (·.isStart) = c₀.asked + events.countP (·.isStart)) :
    Follows c₀ events (run ⟨pending, none, stopped⟩ c).1 (run ⟨pending, none, stopped⟩ c).2 ∧
      (run ⟨pending, none, stopped⟩ c).2.reports = c.reports ++ atOnce c.asked pending := by
  -- An end is reported and the run goes on behind it; the first start ends the run.
  induction pending generalizing c with
  | nil =>
      rw [run_nil]
      exact ⟨⟨hconnected, htold, hasked, fun _ => rfl, nofun⟩, (List.append_nil _).symm⟩
  | cons e pending ih =>
      cases e with
      | finish task =>
          have hreports := reports_reportFinish hconnected task
          have hsame : (reportFinish task c).asked = c.asked := Client.asked_send ..
          obtain ⟨hfollows, hsent⟩ := ih (c := reportFinish task c)
            ((Client.connected_send ..).trans hconnected)
            (by rw [hreports, hsame, ← htold, List.append_assoc]; rfl)
            (by rw [hsame]; exact hasked)
          rw [run_finish]
          refine ⟨hfollows, ?_⟩
          rw [hsent, hreports, hsame, List.append_assoc]
          rfl
      | start task =>
          have hreports := reports_ask hconnected task
          have hnext : (ask task c).2.asked = c.asked + 1 := Client.asked_send ..
          rw [run_start]
          refine ⟨⟨(Client.connected_send ..).trans hconnected, ?_, ?_, nofun, ?_⟩, hreports⟩
          · rw [hreports, hnext, ← htold, List.append_assoc]
            rfl
          · rw [hnext, ← hasked, List.countP_cons_of_pos rfl]
            exact Nat.add_right_comm ..
          · rintro id _ ⟨⟩
            exact ⟨mem_waiting_ask task, c.asked, hnext, rfl, by rw [hreports]; simp⟩

theorem outstanding_of_waiting {id : RequestId} {task : TaskInfo}
    (h : p.awaiting = some (id, task)) (asked : Nat) :
    p.outstanding asked = beginMessage task :: script asked p.pending := by
  rw [outstanding, h]

theorem outstanding_of_idle (h : p.awaiting = none) (asked : Nat) :
    p.outstanding asked = script asked p.pending := by
  rw [outstanding, h]

theorem sends_of_waiting {id : RequestId} {task : TaskInfo} (h : p.awaiting = some (id, task))
    (asked : Nat) (s : Step) :
    p.sends asked s =
      if s.releases id then beginMessage task :: atOnce asked p.pending else [] := by
  rw [sends, h]

theorem sends_of_idle (h : p.awaiting = none) (asked : Nat) (s : Step) :
    p.sends asked s = if p.stopped then [] else atOnce asked s.event?.toList := by
  rw [sends, h]

theorem beginMessage_inj {t t' : TaskInfo} (h : beginMessage t = beginMessage t') : t = t' := by
  simp only [beginMessage, Message.notification.injEq, Notification.mk.injEq, Json.obj.injEq,
    List.cons.injEq, Prod.mk.injEq, Json.str.injEq, true_and, and_true] at h
  obtain ⟨htoken, htitle⟩ := h
  obtain ⟨hkind, hid⟩ := TaskInfo.token_eq_iff.1 htoken
  cases t
  cases t'
  subst hkind hid htitle
  rfl

theorem beginMessage_not_mem_atOnce (task : TaskInfo) (asked : Nat) (events : List ProgressEvent) :
    beginMessage task ∉ atOnce asked events := by
  induction events with
  | nil => nofun
  | cons e events ih =>
      cases e with
      | start t => simp [atOnce, beginMessage, createMessage]
      | finish t =>
          rw [atOnce, List.mem_cons, not_or]
          exact ⟨by simp [beginMessage, endMessage], ih⟩

/-- A start is reported only at a step that releases it while it waits. -/
theorem releases_of_mem_sends {task : TaskInfo} {asked : Nat} {s : Step}
    (h : beginMessage task ∈ p.sends asked s) :
    ∃ id, p.awaiting = some (id, task) ∧ s.releases id = true := by
  cases hawaiting : p.awaiting with
  | none =>
      rw [sends_of_idle hawaiting] at h
      split at h
      · cases h
      · exact absurd h (beginMessage_not_mem_atOnce _ _ _)
  | some waiting =>
      obtain ⟨id, t⟩ := waiting
      rw [sends_of_waiting hawaiting] at h
      split at h
      · next hreleases =>
          rcases List.mem_cons.1 h with hsame | hmem
          · exact ⟨id, by rw [beginMessage_inj hsame], hreleases⟩
          · exact absurd hmem (beginMessage_not_mem_atOnce _ _ _)
      · cases h

theorem answered_of_waiting {id : RequestId} {task : TaskInfo} (h : p.awaiting = some (id, task))
    (i : RequestId) : p.answered i c =
      if i = id then run { p with awaiting := none } (reportStart task c) else (p, c) := by
  rw [answered, h]

theorem answered_of_idle (h : p.awaiting = none) (i : RequestId) :
    p.answered i c = (p, c) := by
  rw [answered, h]

theorem step_answer (r : Response) : step (p, c) (.answer r) =
    if r.id ∈ c.waiting then p.answered r.id { c with
      waiting := c.waiting.filter (· ≠ r.id), answers := c.answers ++ [(r.id, r)] }
    else (p, c) := by
  by_cases hknown : r.id ∈ c.waiting
  · simp [step, Client.route, hknown]
  · simp [step, Client.route, hknown]

/-- A step that neither is an event nor releases the start that waits sends no reports. -/
theorem sends_eq_nil {s : Step} (hevent : s.event? = none)
    (hreleases : ∀ id task, p.awaiting = some (id, task) → s.releases id = false) (asked : Nat) :
    p.sends asked s = [] := by
  cases hawaiting : p.awaiting with
  | none => rw [sends_of_idle hawaiting, hevent, Option.toList_none, atOnce, ite_self]
  | some waiting => rw [sends_of_waiting hawaiting, hreleases _ _ hawaiting]; rfl

theorem script_append (asked : Nat) (events more : List ProgressEvent) :
    script asked (events ++ more)
      = script asked events ++ script (asked + events.countP (·.isStart)) more := by
  induction events generalizing asked with
  | nil => rfl
  | cons e events ih =>
      cases e with
      | start task =>
          rw [List.countP_cons_of_pos rfl, Nat.add_comm _ 1, ← Nat.add_assoc]
          exact congrArg (createMessage asked task :: beginMessage task :: ·) (ih (asked + 1))
      | finish task => exact congrArg (endMessage task :: ·) (ih asked)

namespace Follows

variable {id : RequestId} {task : TaskInfo}

/-- A change of the client that is no report keeps the reports in line if what waits keeps
waiting. -/
theorem of_client (h : Follows c₀ events p c) {c' : Client}
    (hconnected : c'.connected = c.connected) (hasked : c'.asked = c.asked)
    (hreports : c'.reports = c.reports)
    (hwaiting : ∀ id task, p.awaiting = some (id, task) → id ∈ c.waiting → id ∈ c'.waiting) :
    Follows c₀ events p c' where
  connected := hconnected.trans h.connected
  told := by rw [hreports, hasked]; exact h.told
  asked := by rw [hasked]; exact h.asked
  idle := h.idle
  awaited id task hawaiting := by
    rw [hreports, hasked]
    exact (h.awaited id task hawaiting).imp_left (hwaiting id task hawaiting)

/-- A start that need not wait any more is reported, and with it what is pending behind it. -/
theorem release (h : Follows c₀ events p c) (hawaiting : p.awaiting = some (id, task))
    (c' : Client) (hconnected : c'.connected = c.connected) (hasked : c'.asked = c.asked)
    (hreports : c'.reports = c.reports) :
    let q := run { p with awaiting := none } (reportStart task c')
    Follows c₀ events q.1 q.2 ∧
      q.2.reports = c.reports ++ beginMessage task :: atOnce c.asked p.pending := by
  have hbegin := reports_reportStart (hconnected.trans h.connected) task
  have hstill : (reportStart task c').connected = true :=
    (Client.connected_send ..).trans (hconnected.trans h.connected)
  have hsame : (reportStart task c').asked = c.asked := (Client.asked_send ..).trans hasked
  have htold : (reportStart task c').reports ++ script (reportStart task c').asked p.pending
      = c₀.reports ++ script c₀.asked events := by
    rw [hbegin, hreports, hsame, List.append_assoc, ← h.told, outstanding_of_waiting hawaiting]
    rfl
  obtain ⟨hfollows, hsent⟩ := follows_run p.stopped hstill htold (by rw [hsame]; exact h.asked)
  refine ⟨hfollows, hsent.trans ?_⟩
  rw [hbegin, hreports, hsame, List.append_assoc]
  rfl

theorem push (h : Follows c₀ events p c) (e : ProgressEvent) :
    Follows c₀ (events ++ if p.stopped then [] else [e]) (p.push e c).1 (p.push e c).2 ∧
      (p.push e c).2.reports = c.reports ++ p.sends c.asked (.push e) := by
  have hmore : script c₀.asked (events ++ [e])
      = script c₀.asked events ++ script (c.asked + p.pending.countP (·.isStart)) [e] := by
    rw [script_append, h.asked]
  have hasked : c.asked + (p.pending ++ [e]).countP (·.isStart)
      = c₀.asked + (events ++ [e]).countP (·.isStart) := by
    rw [List.countP_append, List.countP_append, ← Nat.add_assoc, ← Nat.add_assoc, h.asked]
  have htold := h.told
  rw [Progress.push]
  cases hawaiting : p.awaiting with
  | none =>
      have hpending := h.idle hawaiting
      rw [outstanding_of_idle hawaiting, hpending, script, List.append_nil] at htold
      rw [sends_of_idle hawaiting]
      split
      · rw [List.append_nil, List.append_nil]
        exact ⟨h, rfl⟩
      · rw [hpending] at hmore hasked ⊢
        exact follows_run p.stopped h.connected
          (by rw [hmore, ← List.append_assoc, ← htold]; rfl) hasked
  | some waiting =>
      obtain ⟨id, task⟩ := waiting
      rw [outstanding_of_waiting hawaiting] at htold
      rw [sends_of_waiting hawaiting]
      split
      · rw [List.append_nil]
        exact ⟨h, (List.append_nil _).symm⟩
      · rw [run]
        refine ⟨⟨h.connected, ?_, hasked, nofun, ?_⟩, (List.append_nil _).symm⟩
        · rw [outstanding_of_waiting rfl, hmore, ← List.append_assoc, ← htold, List.append_assoc]
          exact congrArg (c.reports ++ beginMessage task :: ·) (script_append ..)
        · intro id' task' hsame
          exact h.awaited id' task' (hawaiting.trans hsame)

theorem answer (h : Follows c₀ events p c) (r : Response) :
    Follows c₀ events (step (p, c) (.answer r)).1 (step (p, c) (.answer r)).2 ∧
      (step (p, c) (.answer r)).2.reports = c.reports ++ p.sends c.asked (.answer r) := by
  have hquiet (hother : ∀ id task, p.awaiting = some (id, task) → r.id ≠ id) :
      p.sends c.asked (.answer r) = [] :=
    sends_eq_nil rfl (fun id task hawaiting => by
      simpa [Step.releases] using hother id task hawaiting) c.asked
  rw [step_answer]
  split
  · cases hawaiting : p.awaiting with
    | none =>
        rw [answered_of_idle hawaiting, hquiet (by simp [hawaiting]), List.append_nil]
        exact ⟨h.of_client rfl rfl rfl (by simp [hawaiting]), rfl⟩
    | some waiting =>
        obtain ⟨id, task⟩ := waiting
        rw [answered_of_waiting hawaiting, sends_of_waiting hawaiting]
        by_cases hid : r.id = id
        · rw [if_pos hid, if_pos (by simpa [Step.releases] using hid)]
          exact h.release hawaiting _ rfl rfl rfl
        · rw [if_neg hid, if_neg (by simpa [Step.releases] using hid), List.append_nil]
          -- The answer is to another request, so only that one waits no more.
          refine ⟨h.of_client rfl rfl rfl fun id' task' hsame hwaits => ?_, rfl⟩
          obtain rfl : id = id' := congrArg Prod.fst (Option.some.inj (hawaiting.symm.trans hsame))
          exact List.mem_filter.2 ⟨hwaits, by simpa using Ne.symm hid⟩
  · next hunknown =>
      -- The request of the start that waits is known to the client, so this is not its answer.
      rw [hquiet, List.append_nil]
      · exact ⟨h, rfl⟩
      · rintro id task hawaiting rfl
        exact hunknown (h.awaited _ task hawaiting).1

theorem expire (h : Follows c₀ events p c) :
    Follows c₀ events (p.timedOut c).1 (p.timedOut c).2 ∧
      (p.timedOut c).2.reports = c.reports ++ p.sends c.asked .expire := by
  rw [timedOut]
  split
  · next id task hawaiting =>
      rw [sends_of_waiting hawaiting]
      exact h.release hawaiting (c.forget id) rfl rfl rfl
  · next hidle =>
      rw [sends_eq_nil rfl (by simp [hidle]), List.append_nil]
      exact ⟨h, rfl⟩

/-- What a step reports is in line with the events that are taken with it. -/
theorem step (h : Follows c₀ events p c) {s : Step}
    (hother : ∀ m, s = .send m → m.isReport = false) :
    Follows c₀ (events ++ if p.stopped then [] else s.event?.toList)
        (step (p, c) s).1 (step (p, c) s).2 ∧
      (step (p, c) s).2.reports = c.reports ++ p.sends c.asked s := by
  have hquiet (hevent : s.event? = none) :
      events ++ (if p.stopped then [] else s.event?.toList) = events := by
    rw [hevent, Option.toList_none, ite_self, List.append_nil]
  cases s with
  | push e => exact h.push e
  | answer r =>
      rw [hquiet rfl]
      exact h.answer r
  | expire =>
      rw [hquiet rfl]
      exact h.expire
  | close =>
      rw [hquiet rfl, sends_eq_nil rfl fun _ _ _ => rfl, List.append_nil]
      exact ⟨⟨h.connected, h.told, h.asked, h.idle, h.awaited⟩, rfl⟩
  | send m =>
      have hreports : (c.send m).reports = c.reports := by
        rw [reports_send h.connected, List.filter_singleton, hother m rfl]
        exact List.append_nil _
      rw [hquiet rfl, sends_eq_nil rfl fun _ _ _ => rfl, List.append_nil]
      exact ⟨h.of_client (Client.connected_send c m) (Client.asked_send c m) hreports
        fun _ _ _ hwaits => (Client.waiting_send c m).symm ▸ hwaits, hreports⟩

/-- Where no start waits, all is reported. -/
theorem reports_eq (h : Follows c₀ events p c) (hidle : p.awaiting = none) :
    c.reports = c₀.reports ++ script c₀.asked events := by
  rw [← h.told, outstanding_of_idle hidle, h.idle hidle, script, List.append_nil]

end Follows

theorem stopped_step (p : Progress) (c : Client) (s : Step) :
    (step (p, c) s).1.stopped = (p.stopped || s.isClose) := by
  cases s with
  | push e =>
      rw [step, Progress.push]
      split <;> simp [stopped_run, Step.isClose]
  | answer r =>
      rw [step_answer, show (Step.answer r).isClose = false from rfl, Bool.or_false]
      split
      · rw [answered]
        split
        · split <;> simp [stopped_run]
        · rfl
      · rfl
  | expire =>
      rw [step, timedOut]
      split <;> simp [stopped_run, Step.isClose]
  | close => simp [step, Step.isClose]
  | send m => simp [step, Step.isClose]

theorem after_concat (c : Client) (steps : List Step) (s : Step) :
    after c (steps ++ [s]) = step (after c steps) s := List.foldl_concat ..

theorem stopped_after (c : Client) (steps : List Step) :
    (after c steps).1.stopped = steps.any (·.isClose) := by
  induction steps using List.reverseRecOn with
  | nil => rfl
  | append_singleton steps s ih =>
      rw [after_concat, stopped_step, List.any_append, List.any_cons, List.any_nil,
        Bool.or_false, ← ih]

theorem taken_append (steps more : List Step) :
    taken (steps ++ more) = taken steps ++ if steps.any (·.isClose) then [] else taken more := by
  induction steps with
  | nil => rfl
  | cons s steps ih =>
      rw [List.cons_append, taken, taken, ih, List.any_cons]
      cases s.isClose with
      | true => rfl
      | false => exact (List.append_assoc ..).symm

/-- Whatever happens, the reports follow the events that have been taken. -/
theorem follows_after (hconnected : c.connected = true) (steps : List Step)
    (hother : ∀ m, Step.send m ∈ steps → m.isReport = false) :
    Follows c (taken steps) (after c steps).1 (after c steps).2 := by
  induction steps using List.reverseRecOn with
  | nil => exact ⟨hconnected, rfl, rfl, fun _ => rfl, nofun⟩
  | append_singleton steps s ih =>
      have hbefore := ih fun m hm => hother m (List.mem_append_left _ hm)
      have hafter := (hbefore.step (s := s) fun m hs =>
        hother m (hs ▸ List.mem_append_right _ List.mem_cons_self)).1
      have htaken : taken (steps ++ [s]) = taken steps ++
          if (after c steps).1.stopped then [] else s.event?.toList := by
        rw [taken_append, stopped_after, taken, taken, List.append_nil]
        cases s <;> simp [Step.isClose, Step.event?]
      rw [htaken, after_concat]
      exact hafter

/-- To give the client no more time is to let the time for each answer be over. -/
theorem exists_expire_run (pending : List ProgressEvent) (c : Client) :
    ∃ n, (List.replicate n Step.expire).foldl step (run ⟨pending, none, true⟩ c)
      = (⟨[], none, true⟩, pending.foldl reportNow c) := by
  induction pending generalizing c with
  | nil => exact ⟨0, rfl⟩
  | cons e pending ih =>
      cases e with
      | finish task => exact ih (reportFinish task c)
      | start task =>
          obtain ⟨n, hn⟩ := ih (reportNow c (.start task))
          exact ⟨n + 1, hn⟩

/-- To stop is to take no more events and then to let the time for each answer be over. -/
theorem Follows.exists_stop (h : Follows c₀ events p c) :
    ∃ n, (Step.close :: List.replicate n .expire).foldl Progress.step (p, c) = p.stop c := by
  obtain ⟨pending, awaiting, stopped⟩ := p
  cases awaiting with
  | none =>
      obtain rfl : pending = [] := h.idle rfl
      exact ⟨0, rfl⟩
  | some waiting =>
      obtain ⟨id, task⟩ := waiting
      obtain ⟨n, hn⟩ := exists_expire_run pending (reportStart task (c.forget id))
      exact ⟨n + 1, hn⟩

end Steps

/-- Whatever happens while tasks start and end, the reports that the client is sent are those of the
events that have been taken, in their order, each once and with nothing between them; those that are
missing are outstanding behind a start that waits, and none is missing after the stop. A start is
reported only while it waits, with the request for its token as the last report before it, and at a
step that is an answer with the id of that request, or the end of the time for it. Ids are counted
with 32 bits, so an answer to another request does not release it, unless a multiple of that many
requests lies between the two. Different tasks have different tokens. -/
theorem reports_follow_events (c : Client) (hconnected : c.connected = true) (steps : List Step)
    (hother : ∀ m, Step.send m ∈ steps → m.isReport = false) :
    (let told := c.reports ++ script c.asked (taken steps)
      let p := (after c steps).1
      let c' := (after c steps).2
      c'.reports ++ p.outstanding c'.asked = told ∧
      (p.awaiting = none → c'.reports = told) ∧
      (p.stop c').2.reports = told) ∧
    (∀ earlier s later, steps = earlier ++ s :: later →
      let p := (after c earlier).1
      let c' := (after c earlier).2
      (after c (earlier ++ [s])).2.reports = c'.reports ++ p.sends c'.asked s ∧
      ∀ task, beginMessage task ∈ p.sends c'.asked s →
        ∃ n, p.awaiting = some (Client.idAfter n, task) ∧ s.releases (Client.idAfter n) = true ∧
          c'.reports.getLast? = some (createMessage n task)) ∧
    (∀ m n (r : Response), r.id = Client.idAfter m →
      ((Step.answer r).releases (Client.idAfter n) = true ↔ m % 4294967296 = n % 4294967296)) ∧
    ∀ t t' : TaskInfo, t.token = t'.token ↔ t.kind = t'.kind ∧ t.id = t'.id := by
  have hfollows := follows_after hconnected steps hother
  refine ⟨⟨hfollows.told, hfollows.reports_eq, ?_⟩, ?_, fun m n r hr => ?_, fun _ _ =>
    TaskInfo.token_eq_iff⟩
  · -- The stop is a run of further steps, none of which is an event.
    obtain ⟨n, hmore⟩ := hfollows.exists_stop
    have hstop : after c (steps ++ .close :: List.replicate n .expire)
        = (after c steps).1.stop (after c steps).2 := List.foldl_append.trans hmore
    have hquiet : ∀ m, Step.send m ∈ steps ++ .close :: List.replicate n .expire →
        m.isReport = false := by
      intro m hm
      refine hother m ((List.mem_append.1 hm).resolve_right ?_)
      simp [List.mem_replicate]
    have htold := (follows_after hconnected _ hquiet).reports_eq (congrArg (·.1.awaiting) hstop)
    rw [hstop, taken_append, taken, Step.isClose, if_pos rfl, ite_self, List.append_nil] at htold
    exact htold
  · rintro earlier s later rfl
    have hbefore := follows_after hconnected earlier fun m hm =>
      hother m (List.mem_append_left _ hm)
    obtain ⟨-, hsent⟩ := hbefore.step (s := s) fun m hs =>
      hother m (hs ▸ List.mem_append_right _ List.mem_cons_self)
    refine ⟨by rw [after_concat]; exact hsent, fun task htask => ?_⟩
    obtain ⟨id, hawaiting, hreleases⟩ := releases_of_mem_sends htask
    obtain ⟨-, n, -, rfl, hlast⟩ := hbefore.awaited id task hawaiting
    exact ⟨n, hawaiting, hreleases, hlast⟩
  · rw [Step.releases, decide_eq_true_iff, hr, Client.idAfter_inj]

/-- The first start is given up before its answer comes, and the second one is refused. -/
theorem reports_follow_events_late :
    let first : TaskInfo := ⟨"indexing".toList, 26, "Indexing".toList⟩
    let second : TaskInfo := ⟨"indexing".toList, 27, "Indexing".toList⟩
    let late : Response := .ok (.number 1) .null
    let refusal : Response := .failure (.number 2) .requestFailed []
    let steps : List Step := [.push (.start first), .push (.start second), .push (.finish first),
      .expire, .answer late, .send (.response late), .answer refusal, .close]
    (after {} steps).2.reports
      = [createMessage 0 first, beginMessage first, createMessage 1 second, beginMessage second,
        endMessage first] := by
  intro first second late refusal steps
  obtain ⟨⟨-, htold, -⟩, -⟩ := reports_follow_events {} rfl steps
    (by simp [steps, Message.isReport])
  have hidle : (after {} steps).1.awaiting = none := by decide +kernel
  rw [htold hidle]
  rfl

end Progress

/-- A session takes a response as a step of the reports of the binding in force. -/
theorem Session.handleResponse_eq_step {s : Session} {i : Nat} {b : Binding}
    (hcurrent : s.current = some i) (hbinding : s.bindings[i]? = some b) (r : Response) :
    let q := Progress.step (b.progress, s.client) (.answer r)
    s.handleResponse r
      = { s with client := q.2 }.modifyBinding i fun b => { b with progress := q.1 } := by
  have hb (c : Client) : { s with client := c }.binding? = some b := by
    rw [binding?, hcurrent]
    exact hbinding
  have hsame : s.bindings.modify i (fun b' => { b' with progress := b.progress }) = s.bindings := by
    refine List.ext_getElem? fun j => ?_
    rw [List.getElem?_modify]
    by_cases hij : i = j
    · subst hij
      simp [hbinding]
    · simp [hij]
  rw [handleResponse, Progress.step, Client.route]
  split_ifs
  · change { s with client := _ }.modifyProgress (·.answered r.id) = _
    rw [modifyProgress, hb, hcurrent]
  · exact (congrArg (fun bindings => { s with bindings }) hsame).symm

end LanguageServer
