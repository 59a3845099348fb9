import LanguageServer.Protocol.Framing

/-!
# Sending

Messages are queued on a connection and written one by one. When the connection is about to be
closed, whatever still waits is written at once. What matters is `Outbox.total`: the bytes that are
written in the end do not depend on when the closing was noticed.
-/

namespace LanguageServer

/-- The sending side of a connection: the messages that wait, and the bytes that have been written.
-/
structure Outbox where
  waiting : List Message := []
  written : Bytes := []

namespace Outbox

def push (o : Outbox) (m : Message) : Outbox := { o with waiting := o.waiting ++ [m] }

/-- Writes the message that has waited longest. -/
def writeNext (o : Outbox) : Outbox :=
  match o.waiting with
  | [] => o
  | m :: rest => ⟨rest, o.written ++ Framing.encode m⟩

/-- Writes messages one by one, at most the given number of them. -/
def writeSome : Nat → Outbox → Outbox
  | 0, o => o
  | n + 1, o => writeSome n o.writeNext

def drain (o : Outbox) : Outbox := ⟨[], o.written ++ Framing.encodeAll o.waiting⟩

/-- Closes the sending side, which is noticed after a number of messages has been written. -/
def close (noticed : Nat) (o : Outbox) : Outbox := (writeSome noticed o).drain

/-- The bytes written so far and those still to come. -/
def total (o : Outbox) : Bytes := o.written ++ Framing.encodeAll o.waiting

@[simp] theorem total_push (o : Outbox) (m : Message) :
    (o.push m).total = o.total ++ Framing.encode m := by
  simp [total, push, Framing.encodeAll]

@[simp] theorem total_writeNext (o : Outbox) : o.writeNext.total = o.total := by
  unfold writeNext
  split
  · rfl
  · rename_i h
    simp [total, Framing.encodeAll, h]

@[simp] theorem total_writeSome (n : Nat) (o : Outbox) : (writeSome n o).total = o.total := by
  induction n generalizing o with
  | zero => rfl
  | succ n ih => rw [writeSome, ih, total_writeNext]

theorem written_drain (o : Outbox) : o.drain.written = o.total := rfl

end Outbox

end LanguageServer
