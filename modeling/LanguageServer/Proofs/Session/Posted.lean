import LanguageServer.Proofs.Session.Quiet

/-!
# What has been published of a file

A client keeps the findings of a file until it gets new ones for the same file, which is known by
the key that the address in the notification leads to (`Message.diagnosed?`). Everything else that
is sent leaves them alone (`Client.Unposted`).
-/

namespace LanguageServer

/-- The file whose findings a message brings. -/
def Message.diagnosed? : Message → Option FileKey
  | .notification n =>
    if n.method = "textDocument/publishDiagnostics".toList then
      ((n.params.get? "uri").bind Json.text?).map .ofUri
    else none
  | _ => none

namespace Client

variable {c c₁ c' : Client}

/-- The messages with the findings of a file. -/
def posted (c : Client) (key : FileKey) : List Message := c.sent.filter (·.diagnosed? = some key)

/-- No findings have been published. -/
structure Unposted (c c' : Client) : Prop where
  connected : c'.connected = c.connected
  posted : ∀ key, c'.posted key = c.posted key

theorem Unposted.refl (c : Client) : Unposted c c := ⟨rfl, fun _ => rfl⟩

theorem Unposted.trans (h : Unposted c c₁) (h' : Unposted c₁ c') : Unposted c c' :=
  ⟨h'.connected.trans h.connected, fun key => (h'.posted key).trans (h.posted key)⟩

theorem posted_send (hconnected : c.connected = true) (m : Message) (key : FileKey) :
    (c.send m).posted key = c.posted key ++ [m].filter (·.diagnosed? = some key) := by
  rw [send, if_pos hconnected]
  exact List.filter_append ..

theorem unposted_send (c : Client) {m : Message} (hm : m.diagnosed? = none) :
    Unposted c (c.send m) := by
  cases hconnected : c.connected with
  | false =>
      rw [send, if_neg (by simp [hconnected])]
      exact .refl c
  | true =>
      refine ⟨?_, fun key => ?_⟩
      · rw [send, if_pos hconnected]
      · rw [posted_send hconnected]
        simp [hm]

theorem unposted_respond (c : Client) (r : Response) : Unposted c (c.respond r) :=
  c.unposted_send rfl

theorem unposted_notify (c : Client) {method : String} (params : Json)
    (hmethod : method.toList ≠ "textDocument/publishDiagnostics".toList) :
    Unposted c (c.notify method params) :=
  c.unposted_send (if_neg hmethod)

theorem unposted_request (c : Client) (method : String) (params : Json) :
    Unposted c (c.request method params).2 := by
  have hwaiting : Unposted c { c with
      asked := c.asked + 1
      waiting := c.waiting.filter (· ≠ idAfter c.asked) ++ [idAfter c.asked] } :=
    ⟨rfl, fun _ => rfl⟩
  exact hwaiting.trans (unposted_send _ rfl)

theorem unposted_forget (c : Client) (id : RequestId) : Unposted c (c.forget id) :=
  ⟨rfl, fun _ => rfl⟩

theorem unposted_route (c : Client) (r : Response) : Unposted c (c.route r).2 := by
  rw [route]
  split
  · exact ⟨rfl, fun _ => rfl⟩
  · exact .refl c

end Client

theorem Progress.reportRelation_unposted : ReportRelation Client.Unposted where
  refl := .refl
  trans := .trans
  report _ _ c := c.unposted_notify _ (by decide)
  ask _ c := c.unposted_request _ _
  forget c id := c.unposted_forget id

end LanguageServer
