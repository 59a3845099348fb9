import LanguageServer.Proofs.Transport.Reading
import LanguageServer.Server.Outbox

/-!
# Writing until the connection is closed

A writer takes what is queued on a connection and writes it. Whenever it looks, it may see that a
message waits or that the connection is to be closed, and when both is the case, either may come
first. Having noticed the closing, it writes what still waits and ends. It also ends when all who
could queue a message have gone.

Before the closing a writer ends only if nothing waits and nobody can queue anything any more
(`Running`), and later it ends only when nothing waits, so whatever was queued before has then been
written, in order (`written_of_finished`). And it does end, as each of its steps brings it nearer to
the end (`remaining_step`) and there is always one that it can take (`exists_step_of_closing`).
-/

namespace LanguageServer

/-- A writer waits for messages, or writes what is left, or has ended. -/
inductive WriterPhase
  | serving
  | draining
  | finished
deriving DecidableEq, Repr

/-- How often the phase can still change. -/
def WriterPhase.rank : WriterPhase → Nat
  | serving => 2
  | draining => 1
  | finished => 0

/-- A writer with the messages on its connection. Nobody can queue a message after everybody has
hung up, and `closing` tells the writer to end. -/
structure Writer where
  outbox : Outbox := {}
  hungUp : Bool := false
  closing : Bool := false
  phase : WriterPhase := .serving

/-- What others do on the connection, and what the writer does: it writes a message, notices the
closing, or ends. -/
inductive WriterStep
  | queue (m : Message)
  | hangUp
  | close
  | write
  | notice
  | finish

/-- Whether it is the writer who takes the step. -/
def WriterStep.isOwn : WriterStep → Bool
  | write | notice | finish => true
  | queue _ | hangUp | close => false

namespace Writer

/-- Whether nothing is left to do. -/
def isDone (w : Writer) : Bool :=
  w.outbox.waiting.isEmpty &&
    match w.phase with
    | .serving => w.hungUp
    | .draining => true
    | .finished => false

/-- The writer after a step. One that it cannot take changes nothing. -/
def step (w : Writer) : WriterStep → Writer
  | .queue m => if w.hungUp then w else { w with outbox := w.outbox.push m }
  | .hangUp => { w with hungUp := true }
  | .close => { w with closing := true }
  | .write => if w.phase = .finished then w else { w with outbox := w.outbox.writeNext }
  | .notice => if w.phase = .serving && w.closing then { w with phase := .draining } else w
  | .finish => if w.isDone then { w with phase := .finished } else w

def after (w : Writer) (steps : List WriterStep) : Writer := steps.foldl step w

/-- The message that a step queues, if it does. -/
def accepted (w : Writer) : WriterStep → List Message
  | .queue m => if w.hungUp then [] else [m]
  | .hangUp | .close | .write | .notice | .finish => []

/-- The messages that are queued during a run. -/
def queued : Writer → List WriterStep → List Message
  | _, [] => []
  | w, s :: steps => w.accepted s ++ (w.step s).queued steps

variable {w : Writer}

theorem queued_append (w : Writer) (before later : List WriterStep) :
    w.queued (before ++ later) = w.queued before ++ (w.after before).queued later := by
  induction before generalizing w with
  | nil => rfl
  | cons s before ih =>
      rw [List.cons_append, queued, ih, queued, List.append_assoc]
      rfl

theorem after_append (w : Writer) (before later : List WriterStep) :
    w.after (before ++ later) = (w.after before).after later := List.foldl_append ..

/-! ### What is written and what still waits -/

theorem total_step (w : Writer) (s : WriterStep) :
    (w.step s).outbox.total = w.outbox.total ++ Framing.encodeAll (w.accepted s) := by
  have hnone : Framing.encodeAll [] = [] := rfl
  cases s with
  | queue m =>
      rw [step, accepted]
      split
      · rw [hnone, List.append_nil]
      · exact (Outbox.total_push ..).trans (by rw [Framing.encodeAll_singleton])
  | hangUp => exact (List.append_nil _).symm
  | close => exact (List.append_nil _).symm
  | write =>
      rw [step, accepted, hnone, List.append_nil]
      split
      · rfl
      · exact Outbox.total_writeNext ..
  | notice =>
      rw [step, accepted, hnone, List.append_nil]
      split <;> rfl
  | finish =>
      rw [step, accepted, hnone, List.append_nil]
      split <;> rfl

theorem total_after (w : Writer) (steps : List WriterStep) :
    (w.after steps).outbox.total = w.outbox.total ++ Framing.encodeAll (w.queued steps) := by
  induction steps generalizing w with
  | nil => exact (List.append_nil _).symm
  | cons s steps ih =>
      rw [queued, Framing.encodeAll_append, ← List.append_assoc, ← total_step]
      exact ih (w.step s)

/-- A writer that has ended writes nothing more. -/
theorem step_of_finished (h : w.phase = .finished) (s : WriterStep) :
    (w.step s).phase = .finished ∧ (w.step s).outbox.written = w.outbox.written := by
  cases s with
  | queue m =>
      rw [step]
      split
      · exact ⟨h, rfl⟩
      · exact ⟨h, rfl⟩
  | hangUp => exact ⟨h, rfl⟩
  | close => exact ⟨h, rfl⟩
  | write => simp [step, h]
  | notice => simp [step, h]
  | finish => simp [step, isDone, h]

theorem after_of_finished (h : w.phase = .finished) (steps : List WriterStep) :
    (w.after steps).phase = .finished ∧ (w.after steps).outbox.written = w.outbox.written := by
  induction steps generalizing w with
  | nil => exact ⟨h, rfl⟩
  | cons s steps ih =>
      obtain ⟨hphase, hwritten⟩ := step_of_finished h s
      exact (ih hphase).imp_right fun hlater => hlater.trans hwritten

/-- When nothing is left to do, everything has been written. -/
theorem written_of_isDone (h : w.isDone = true) : w.outbox.written = w.outbox.total := by
  rw [isDone, Bool.and_eq_true] at h
  rw [Outbox.total, List.isEmpty_iff.1 h.1]
  exact (List.append_nil _).symm

/-- Only its own last step ends a writer. -/
theorem eq_finish (h : w.phase ≠ .finished) {s : WriterStep} (hs : (w.step s).phase = .finished) :
    s = .finish ∧ w.isDone = true := by
  cases s with
  | queue m =>
      rw [step] at hs
      split at hs <;> exact absurd hs h
  | hangUp => exact absurd hs h
  | close => exact absurd hs h
  | write =>
      rw [step, if_neg h] at hs
      exact absurd hs h
  | notice =>
      rw [step] at hs
      split at hs
      · cases hs
      · exact absurd hs h
  | finish =>
      rw [step] at hs
      split at hs
      · next hdone => exact ⟨rfl, hdone⟩
      · exact absurd hs h

/-- When a writer has ended, all that had been queued when a run began has been written, and then
some of what was queued later, in order. -/
theorem written_of_finished (h : w.phase ≠ .finished) {steps : List WriterStep}
    (hend : (w.after steps).phase = .finished) :
    ∃ sent, sent <+: w.queued steps ∧
      (w.after steps).outbox.written = w.outbox.total ++ Framing.encodeAll sent := by
  induction steps generalizing w with
  | nil => exact absurd hend h
  | cons s steps ih =>
      -- Every step adds to the total what it queues, and at the last one nothing waits, so that the
      -- total has been written.
      by_cases hs : (w.step s).phase = .finished
      · obtain ⟨rfl, hdone⟩ := eq_finish h hs
        refine ⟨[], List.nil_prefix, (after_of_finished hs steps).2.trans ?_⟩
        rw [step, if_pos hdone]
        exact (written_of_isDone hdone).trans (List.append_nil _).symm
      · obtain ⟨sent, hsent, hwritten⟩ := ih hs hend
        refine ⟨w.accepted s ++ sent, (List.prefix_append_right_inj _).2 hsent, ?_⟩
        rw [Framing.encodeAll_append, ← List.append_assoc, ← total_step]
        exact hwritten

/-! ### Before the closing -/

/-- Nobody has closed the connection. If the writer has ended nevertheless, nothing can be queued
any more and all has been written. -/
structure Running (w : Writer) : Prop where
  closing : w.closing = false
  draining : w.phase ≠ .draining
  finished : w.phase = .finished → w.hungUp = true ∧ w.outbox.written = w.outbox.total

theorem Running.step (h : w.Running) {s : WriterStep} (hs : s ≠ .close) : (w.step s).Running := by
  cases s with
  | queue m =>
      rw [Writer.step]
      split
      · exact h
      · next hopen => exact ⟨h.closing, h.draining, fun hend => absurd (h.finished hend).1 hopen⟩
  | hangUp => exact ⟨h.closing, h.draining, fun hend => ⟨rfl, (h.finished hend).2⟩⟩
  | close => exact absurd rfl hs
  | write =>
      rw [Writer.step]
      split
      · exact h
      · next hgoes => exact ⟨h.closing, h.draining, fun hend => absurd hend hgoes⟩
  | notice =>
      rw [Writer.step, h.closing, Bool.and_false]
      exact h
  | finish =>
      rw [Writer.step]
      split
      · next hdone =>
          refine ⟨h.closing, nofun, fun _ => ⟨?_, written_of_isDone (w := w) hdone⟩⟩
          rw [isDone, Bool.and_eq_true] at hdone
          cases hphase : w.phase with
          | serving => simpa [hphase] using hdone.2
          | draining => exact absurd hphase h.draining
          | finished => simp [hphase] at hdone
      · exact h

theorem Running.after (h : w.Running) {steps : List WriterStep} (hsteps : .close ∉ steps) :
    (w.after steps).Running := by
  induction steps generalizing w with
  | nil => exact h
  | cons s steps ih =>
      obtain ⟨hs, hsteps⟩ := not_or.1 (mt List.mem_cons.2 hsteps)
      exact ih (h.step (Ne.symm hs)) hsteps

theorem running_start : Running {} := ⟨rfl, nofun, nofun⟩

/-- All that was queued before the closing is written before what is queued later. -/
theorem Running.exists_sent (h : w.Running) {later : List WriterStep}
    (hend : (w.after later).phase = .finished) :
    ∃ sent, sent <+: w.queued later ∧
      (w.after later).outbox.written = w.outbox.total ++ Framing.encodeAll sent := by
  by_cases hended : w.phase = .finished
  · refine ⟨[], List.nil_prefix, (after_of_finished hended later).2.trans ?_⟩
    exact (h.finished hended).2.trans (List.append_nil _).symm
  · exact written_of_finished hended hend

/-! ### After the closing -/

/-- How many steps the writer can still take if no more messages come. -/
def remaining (w : Writer) : Nat := w.outbox.waiting.length + w.phase.rank

/-- The writer comes nearer to its end with each of its own steps that it can take. -/
theorem remaining_step (w : Writer) {s : WriterStep} (hs : s.isOwn = true) :
    w.step s = w ∨ (w.step s).remaining < w.remaining := by
  cases s with
  | queue m => cases hs
  | hangUp => cases hs
  | close => cases hs
  | write =>
      rw [step]
      split
      · exact .inl rfl
      · rw [Outbox.writeNext]
        split
        · exact .inl rfl
        · next heq =>
            refine .inr (Nat.add_lt_add_right ?_ _)
            rw [heq]
            exact Nat.lt_succ_self _
  | notice =>
      rw [step]
      split
      · next hnotices =>
          rw [Bool.and_eq_true, decide_eq_true_iff] at hnotices
          refine .inr (Nat.add_lt_add_left ?_ _)
          rw [hnotices.1]
          exact Nat.lt_succ_self _
      · exact .inl rfl
  | finish =>
      rw [step]
      split
      · next hdone =>
          refine .inr (Nat.add_lt_add_left ?_ _)
          rw [isDone, Bool.and_eq_true] at hdone
          cases hphase : w.phase with
          | serving => exact Nat.zero_lt_two
          | draining => exact Nat.zero_lt_one
          | finished => simp [hphase] at hdone
      · exact .inl rfl

/-- After the closing there is always a step that the writer can take until it has ended. -/
theorem exists_step_of_closing (hclosing : w.closing = true) (h : w.phase ≠ .finished) :
    ∃ s, s.isOwn = true ∧ w.step s ≠ w := by
  have hchanges {v : Writer} (hv : v.phase ≠ w.phase) : v ≠ w := fun heq => hv (heq ▸ rfl)
  cases hphase : w.phase with
  | serving =>
      refine ⟨.notice, rfl, hchanges ?_⟩
      rw [step, hphase, hclosing]
      nofun
  | draining =>
      cases hwaiting : w.outbox.waiting with
      | nil =>
          refine ⟨.finish, rfl, hchanges ?_⟩
          rw [step, if_pos (by rw [isDone, hwaiting, hphase]; rfl), hphase]
          nofun
      | cons m rest =>
          refine ⟨.write, rfl, fun heq => ?_⟩
          have hrest := congrArg (·.outbox.waiting) heq
          simp only [step, if_neg h, Outbox.writeNext, hwaiting] at hrest
          exact List.cons_ne_self m rest hrest.symm
  | finished => exact absurd hphase h

theorem closing_step (h : w.closing = true) (s : WriterStep) : (w.step s).closing = true := by
  cases s with
  | hangUp => exact h
  | close => rfl
  | queue m => rw [step]; split <;> exact h
  | write => rw [step]; split <;> exact h
  | notice => rw [step]; split <;> exact h
  | finish => rw [step]; split <;> exact h

theorem closing_after {steps : List WriterStep} (h : w.closing = true ∨ .close ∈ steps) :
    (w.after steps).closing = true := by
  induction steps generalizing w with
  | nil => exact h.resolve_right List.not_mem_nil
  | cons s steps ih =>
      refine ih ?_
      rcases h with h | h
      · exact .inl (closing_step h s)
      · rcases List.mem_cons.1 h with rfl | h
        · exact .inl rfl
        · exact .inr h

/-! ### Both directions -/

/-- Whatever the order in which messages are queued, the closing comes and the writer looks at them:
when the writer has ended, it has written in order what was queued, each message once, and none is
missing that was queued before the closing. So if none has been queued after it, the bytes are those
that are written if the closing is noticed after any number of messages. After the closing the
writer comes nearer to its end with each step and can always take one until it has ended.

In the other direction, messages that are read back one by one are passed on from a stream in order,
all of them or up to the first `exit`, whatever stands behind it. -/
theorem written_and_read_in_order :
    (∀ before later : List WriterStep, .close ∉ before →
      (after {} (before ++ later)).phase = .finished →
      (∃ sent, (after {} (before ++ later)).outbox.written = Framing.encodeAll sent ∧
        queued {} before <+: sent ∧ sent <+: queued {} (before ++ later)) ∧
      ((after {} before).queued later = [] →
        (after {} (before ++ later)).outbox.written = Framing.encodeAll (queued {} before) ∧
        ∀ noticed, (after {} (before ++ later)).outbox.written
          = ((after {} before).outbox.close noticed).written)) ∧
    (∀ steps : List WriterStep, .close ∈ steps →
      (∀ s : WriterStep, s.isOwn = true → (after {} steps).step s = after {} steps ∨
        ((after {} steps).step s).remaining < (after {} steps).remaining) ∧
      ((after {} steps).phase ≠ .finished →
        ∃ s : WriterStep, s.isOwn = true ∧ (after {} steps).step s ≠ after {} steps)) ∧
    (∀ ms : List Message, (∀ m ∈ ms, Framing.read (Framing.encode m) = .ok (some (m, []))) →
      (∀ m ∈ ms, Framing.isExit m = false) →
        Framing.readAll (Framing.encodeAll ms) = (ms, none)) ∧
    ∀ (ms : List Message) (exit : Message),
      (∀ m ∈ ms ++ [exit], Framing.read (Framing.encode m) = .ok (some (m, []))) →
      (∀ m ∈ ms, Framing.isExit m = false) → Framing.isExit exit = true →
        ∀ behind, Framing.readAll (Framing.encodeAll (ms ++ [exit]) ++ behind)
          = (ms ++ [exit], none) := by
  refine ⟨fun before later hbefore hend => ?_, fun steps hsteps => ?_,
    fun ms => Framing.readAll_encodeAll, fun ms exit => Framing.readAll_through_exit⟩
  · rw [after_append] at hend ⊢
    obtain ⟨sent, hsent, hwritten⟩ := (running_start.after hbefore).exists_sent hend
    rw [total_after, show Outbox.total {} = [] from rfl, List.nil_append] at hwritten
    rw [queued_append]
    constructor
    · refine ⟨queued {} before ++ sent, ?_, List.prefix_append .., ?_⟩
      · rw [hwritten, Framing.encodeAll_append]
      · exact (List.prefix_append_right_inj _).2 hsent
    · intro hnone
      rw [hnone, List.prefix_nil] at hsent
      rw [hsent, show Framing.encodeAll [] = [] from rfl, List.append_nil] at hwritten
      refine ⟨hwritten, fun noticed => ?_⟩
      rw [hwritten, Outbox.close, Outbox.written_drain, Outbox.total_writeSome, total_after]
      rfl
  · have hclosing := closing_after (w := {}) (.inr hsteps)
    exact ⟨fun s => remaining_step _, exists_step_of_closing hclosing⟩

/-- The closing is noticed when two messages still wait, and what stands behind `exit` is not
read. -/
theorem written_and_read_in_order_exit :
    let ping : Message := .request ⟨.number 1, "ping".toList, .null⟩
    let exit : Message := .notification ⟨"exit".toList, .null⟩
    let before : List WriterStep := [.queue ping, .write, .queue exit, .queue ping]
    let later : List WriterStep := [.close, .notice, .write, .write, .finish]
    (after {} (before ++ later)).phase = .finished ∧
      (after {} (before ++ later)).outbox.written = Framing.encodeAll [ping, exit, ping] ∧
      Framing.readAll (Framing.encodeAll [ping, exit] ++ Framing.encode ping)
        = ([ping, exit], none) := by
  intro ping exit before later
  obtain ⟨hwriting, -, -, hreading⟩ := written_and_read_in_order
  have hend : (after {} (before ++ later)).phase = .finished := rfl
  have hback : ∀ m ∈ [ping] ++ [exit], Framing.read (Framing.encode m) = .ok (some (m, [])) := by
    intro m hm
    rcases List.mem_cons.1 hm with rfl | hm
    · exact Framing.read_encode (by decide) rfl
    · obtain rfl := List.mem_singleton.1 hm
      exact Framing.read_encode (by decide) rfl
  refine ⟨hend, ?_, ?_⟩
  · exact ((hwriting before later (by simp [before]) hend).2 rfl).1
  · exact hreading [ping] exit hback (by simp [Framing.isExit, ping]) rfl (Framing.encode ping)

end Writer

end LanguageServer
