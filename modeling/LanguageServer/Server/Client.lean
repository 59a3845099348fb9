import LanguageServer.Protocol.Message

/-!
# The client side of a connection

What is sent to the client, and the requests that still wait for its response. The ids of requests
are counted with 32 bits.
-/

namespace LanguageServer

/-- A connected client. `asked` counts the requests sent to it, `waiting` holds the ids without a
response, `answers` the responses received, and `sent` the messages sent. -/
structure Client where
  connected : Bool := true
  asked : Nat := 0
  waiting : List RequestId := []
  answers : List (RequestId × Response) := []
  sent : List Message := []

namespace Client

/-- The id of a request after `asked` earlier ones. -/
def idAfter (asked : Nat) : RequestId := .number (Int.bmod (asked + 1) 4294967296)

/-- Sends a message, which is lost if the client has gone. -/
def send (c : Client) (m : Message) : Client :=
  if c.connected then { c with sent := c.sent ++ [m] } else c

@[simp] theorem connected_send (c : Client) (m : Message) : (c.send m).connected = c.connected := by
  rw [send]
  split <;> rfl

@[simp] theorem asked_send (c : Client) (m : Message) : (c.send m).asked = c.asked := by
  rw [send]
  split <;> rfl

@[simp] theorem waiting_send (c : Client) (m : Message) : (c.send m).waiting = c.waiting := by
  rw [send]
  split <;> rfl

@[simp] theorem answers_send (c : Client) (m : Message) : (c.send m).answers = c.answers := by
  rw [send]
  split <;> rfl

def respond (c : Client) (r : Response) : Client := c.send (.response r)

def notify (c : Client) (method : String) (params : Json) : Client :=
  c.send (.notification ⟨method.toList, params⟩)

/-- Sends a request, and gives its id. -/
def request (c : Client) (method : String) (params : Json) : RequestId × Client :=
  let id := idAfter c.asked
  let waiting := { c with asked := c.asked + 1, waiting := c.waiting.filter (· ≠ id) ++ [id] }
  (id, waiting.send (.request ⟨id, method.toList, params⟩))

def forget (c : Client) (id : RequestId) : Client := { c with waiting := c.waiting.filter (· ≠ id) }

/-- Takes a response to the request that waits for it, and says whether there was one. -/
def route (c : Client) (r : Response) : Bool × Client :=
  if c.waiting.contains r.id then
    (true, { c with waiting := c.waiting.filter (· ≠ r.id), answers := c.answers ++ [(r.id, r)] })
  else (false, c)

end Client

end LanguageServer
