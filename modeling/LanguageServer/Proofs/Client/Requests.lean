import LanguageServer.Server.Client
import Mathlib.Data.List.Nodup
import Mathlib.Data.List.Range

/-!
# Requests to the client

What happens to a client is a list of operations, in any order. A request waits until the first
operation that settles it, which either forgets it or brings a response with its id. Requests that
are fewer than the ids of 32 bits have different ids, so a response reaches the one request that it
answers, and each request gets one response at most (`requests_settled_once`).
-/

namespace LanguageServer.Client

/-- What can happen to a client. Whatever is sent that is not a request is a `send`. -/
inductive Operation
  | request (method : String) (params : Json)
  | forget (id : RequestId)
  | route (r : Response)
  | send (m : Message)
  | disconnect

namespace Operation

/-- Whether a request with an id no longer waits after the operation. -/
def settles (id : RequestId) : Operation → Bool
  | forget i => i = id
  | route r => r.id = id
  | _ => false

def response? : Operation → Option Response
  | route r => some r
  | _ => none

def isRequest : Operation → Bool
  | request _ _ => true
  | _ => false

end Operation

def act (c : Client) : Operation → Client
  | .request method params => (c.request method params).2
  | .forget id => c.forget id
  | .route r => (c.route r).2
  | .send m => c.send m
  | .disconnect => { c with connected := false }

/-- A client after some operations. -/
def after (ops : List Operation) : Client := ops.foldl act {}

/-- The id that an operation gives to a request. -/
def newId? (c : Client) : Operation → Option RequestId
  | .request method params => some (c.request method params).1
  | _ => none

/-- The ids that requests are given one after the other. -/
def issued (c : Client) : List Operation → List RequestId
  | [] => []
  | op :: ops => (c.newId? op).toList ++ (c.act op).issued ops

/-- The responses that have reached the request with an id. -/
def delivered (c : Client) (id : RequestId) : List Response :=
  (c.answers.filter (·.1 = id)).map (·.2)

/-- A request has been given the id, and no operation since then has settled it. -/
def IsUnsettled (ops : List Operation) (id : RequestId) : Prop :=
  ∃ earlier op later, ops = earlier ++ op :: later ∧ (after earlier).newId? op = some id ∧
    ∀ o ∈ later, o.settles id = false

/-! ### One operation -/

section Step

variable {c : Client} {op : Operation} {id : RequestId}

theorem asked_act : (c.act op).asked = c.asked + if op.isRequest then 1 else 0 := by
  cases op with
  | request method params => simp [act, request, Operation.isRequest]
  | forget i => rfl
  | route r =>
      rw [act, route]
      split <;> rfl
  | send m => exact asked_send c m
  | disconnect => rfl

theorem newId?_eq : c.newId? op = if op.isRequest then some (idAfter c.asked) else none := by
  cases op <;> rfl

theorem settles_of_newId? (h : c.newId? op = some id) (i : RequestId) : op.settles i = false := by
  cases op with
  | request => rfl
  | _ => cases h

/-- After an operation a request waits if it has just been made, or if it waited before and the
operation does not settle it. -/
theorem mem_waiting_act :
    id ∈ (c.act op).waiting ↔
      c.newId? op = some id ∨ (id ∈ c.waiting ∧ op.settles id = false) := by
  cases op with
  | request method params =>
      by_cases hid : id = idAfter c.asked <;>
        simp [act, newId?, request, Operation.settles, hid, eq_comm (b := id)]
  | forget i => simp [act, newId?, forget, Operation.settles, eq_comm (a := i)]
  | route r =>
      have hsettles : (Operation.route r).settles id = false ↔ id ≠ r.id := by
        simp [Operation.settles, eq_comm (a := r.id)]
      rw [hsettles, act, route]
      split
      · simp [newId?]
      · next hunknown =>
          simp only [newId?, reduceCtorEq, false_or]
          refine ⟨fun hwaiting => ⟨hwaiting, ?_⟩, And.left⟩
          rintro rfl
          exact hunknown (List.contains_iff_mem.2 hwaiting)
  | send m => simp [act, newId?, Operation.settles]
  | disconnect => simp [act, newId?, Operation.settles]

/-- An operation brings a response to a request if it settles it while it waits. -/
theorem delivered_act :
    (c.act op).delivered id = c.delivered id ++
      if id ∈ c.waiting ∧ op.settles id = true then op.response?.toList else [] := by
  have hquiet (op : Operation) (hanswers : (c.act op).answers = c.answers)
      (hnone : op.response? = none) : (c.act op).delivered id = c.delivered id ++
        if id ∈ c.waiting ∧ op.settles id = true then op.response?.toList else [] := by
    rw [delivered, hanswers, hnone, Option.toList_none, ite_self, List.append_nil, delivered]
  cases op with
  | request method params => exact hquiet (.request method params) (answers_send ..) rfl
  | forget i => exact hquiet (.forget i) rfl rfl
  | route r =>
      rw [act, route]
      split
      · next hknown =>
          rw [delivered, List.filter_append, List.map_append]
          by_cases hid : r.id = id
          · subst hid
            simp [delivered, Operation.settles, Operation.response?, List.contains_iff_mem.1 hknown]
          · simp [delivered, Operation.settles, hid]
      · next hunknown =>
          have hnone : ¬ (id ∈ c.waiting ∧ (Operation.route r).settles id = true) := by
            rintro ⟨hwaiting, hid⟩
            have hid : r.id = id := by simpa [Operation.settles] using hid
            exact hunknown (List.contains_iff_mem.2 (hid ▸ hwaiting))
          rw [if_neg hnone, List.append_nil]
  | send m => exact hquiet (.send m) (answers_send c m) rfl
  | disconnect => exact hquiet .disconnect rfl rfl

end Step

/-! ### All operations -/

section Run

variable {ops earlier later : List Operation} {method : String} {params : Json} {id : RequestId}

theorem after_concat (ops : List Operation) (op : Operation) :
    after (ops ++ [op]) = (after ops).act op := List.foldl_concat ..

theorem asked_after (ops : List Operation) : (after ops).asked = ops.countP (·.isRequest) := by
  induction ops using List.reverseRecOn with
  | nil => rfl
  | append_singleton ops op ih =>
      rw [after_concat, asked_act, ih, List.countP_append, List.countP_singleton]

/-- Ids are counted with 32 bits. -/
theorem idAfter_inj {m n : Nat} : idAfter m = idAfter n ↔ m % 4294967296 = n % 4294967296 := by
  rw [idAfter, idAfter, RequestId.number.injEq]
  simp only [Int.bmod_def]
  omega

theorem issued_eq (c : Client) (ops : List Operation) :
    c.issued ops = (List.range' c.asked (ops.countP (·.isRequest))).map idAfter := by
  induction ops generalizing c with
  | nil => rfl
  | cons op ops ih =>
      rw [issued, ih, asked_act, newId?_eq, List.countP_cons]
      split
      · rw [List.range'_succ]
        rfl
      · rfl

/-- Who waits or has got a response has been given an id before. -/
theorem exists_idAfter (ops : List Operation) (id : RequestId)
    (h : id ∈ (after ops).waiting ∨ (after ops).delivered id ≠ []) :
    ∃ n < (after ops).asked, id = idAfter n := by
  induction ops using List.reverseRecOn with
  | nil =>
      rcases h with h | h
      · cases h
      · exact absurd rfl h
  | append_singleton ops op ih =>
      rw [after_concat, mem_waiting_act, delivered_act] at h
      rw [after_concat, asked_act]
      have hbefore : id ∈ (after ops).waiting ∨ (after ops).delivered id ≠ [] →
          ∃ n < (after ops).asked + (if op.isRequest then 1 else 0), id = idAfter n := by
        intro h
        obtain ⟨n, hn, hid⟩ := ih h
        exact ⟨n, Nat.lt_add_right _ hn, hid⟩
      rcases h with (hnew | ⟨hwaiting, -⟩) | hdelivered
      · rw [newId?_eq] at hnew
        split at hnew
        · next hrequest =>
            cases hnew
            exact ⟨(after ops).asked, by simp [hrequest], rfl⟩
        · cases hnew
      · exact hbefore (.inl hwaiting)
      · refine hbefore (Classical.or_iff_not_imp_left.2 fun hidle hnone => hdelivered ?_)
        rw [hnone, if_neg fun h => hidle h.1]
        rfl

/-- Exactly the requests wait that are not settled. -/
theorem mem_waiting_after : id ∈ (after ops).waiting ↔ IsUnsettled ops id := by
  induction ops using List.reverseRecOn with
  | nil =>
      refine iff_of_false nofun ?_
      rintro ⟨earlier, op, later, hops, -⟩
      simp at hops
  | append_singleton ops op ih =>
      rw [after_concat, mem_waiting_act, ih]
      constructor
      · rintro (hnew | ⟨⟨earlier, first, later, rfl, hnew, hopen⟩, hop⟩)
        · exact ⟨ops, op, [], rfl, hnew, nofun⟩
        · refine ⟨earlier, first, later ++ [op], by simp, hnew, ?_⟩
          exact List.forall_mem_append.2 ⟨hopen, by simpa using hop⟩
      · rintro ⟨earlier, first, later, hops, hnew, hopen⟩
        rcases List.eq_nil_or_concat later with rfl | ⟨later, last, rfl⟩
        · obtain ⟨rfl, hop⟩ := List.append_inj' hops rfl
          cases hop
          exact .inl hnew
        · rw [List.concat_eq_append, ← List.cons_append, ← List.append_assoc] at hops
          obtain ⟨rfl, hop⟩ := List.append_inj' hops rfl
          cases hop
          obtain ⟨hopen, hop⟩ := List.forall_mem_append.1 (List.concat_eq_append ▸ hopen)
          exact .inr ⟨⟨earlier, first, later, rfl, hnew, hopen⟩, hop op List.mem_cons_self⟩

/-- Fewer requests than there are ids have different ids. -/
theorem idAfter_ne {m n : Nat} (hlt : m < n) (hfew : n < 4294967296) : idAfter m ≠ idAfter n := by
  rw [Ne, idAfter_inj]
  omega

theorem asked_le_length (ops : List Operation) : (after ops).asked ≤ ops.length := by
  rw [asked_after]
  exact List.countP_le_length

/-- Until the ids are used up, a request has no other response than the one that settles it, and it
waits until it is settled. -/
theorem delivered_after {op : Operation} (hfew : (earlier ++ op :: later).length < 4294967296)
    (hnew : (after earlier).newId? op = some id) :
    (after (earlier ++ op :: later)).delivered id
        = ((later.find? (·.settles id)).bind (·.response?)).toList ∧
      (id ∈ (after (earlier ++ op :: later)).waiting ↔ later.find? (·.settles id) = none) := by
  have hid : op.isRequest = true ∧ id = idAfter (after earlier).asked := by
    rw [newId?_eq] at hnew
    split at hnew
    · next hrequest => exact ⟨hrequest, (Option.some.inj hnew).symm⟩
    · cases hnew
  induction later using List.reverseRecOn with
  | nil =>
      have hasked := asked_le_length earlier
      rw [List.length_append, List.length_singleton] at hfew
      have hfresh : (after earlier).delivered id = [] := by_contra fun hne => by
        obtain ⟨n, hn, hsame⟩ := exists_idAfter earlier id (.inr hne)
        exact idAfter_ne hn (by omega) (hsame.symm.trans hid.2)
      rw [after_concat, delivered_act, mem_waiting_act, settles_of_newId? hnew, hfresh]
      simp [hnew]
  | append_singleton later o ih =>
      have hsplit : earlier ++ op :: (later ++ [o]) = earlier ++ op :: later ++ [o] := by simp
      rw [hsplit] at hfew ⊢
      have hlength := asked_le_length (earlier ++ op :: later)
      rw [List.length_append, List.length_singleton] at hfew
      obtain ⟨hdelivered, hwaiting⟩ := ih (by omega)
      have hother : (after (earlier ++ op :: later)).newId? o ≠ some id := by
        have hbehind : (after earlier).asked < (after (earlier ++ op :: later)).asked := by
          rw [asked_after, asked_after, List.countP_append, List.countP_cons, if_pos hid.1]
          omega
        rw [newId?_eq, hid.2]
        split
        · exact fun hsame => idAfter_ne hbehind (by omega) (Option.some.inj hsame).symm
        · nofun
      simp only [after_concat, delivered_act, mem_waiting_act, hdelivered, hwaiting,
        List.find?_append]
      cases hfound : later.find? (·.settles id) with
      | some first => simp [hother]
      | none => cases ho : o.settles id <;> simp [hother, ho]

theorem nodup_issued (hfew : ops.length < 4294967296) : (issued {} ops).Nodup := by
  have hasked := (asked_after ops).symm.trans_le (asked_le_length ops)
  rw [issued_eq]
  refine List.Nodup.map_on (fun m hm n hn hsame => ?_) (List.nodup_range' ..)
  simp only [List.mem_range'_1] at hm hn
  rcases Nat.lt_trichotomy m n with hlt | heq | hlt
  · exact absurd hsame (idAfter_ne hlt (by omega))
  · exact heq
  · exact absurd hsame.symm (idAfter_ne hlt (by omega))

/-- A request that waits has got no response yet. -/
theorem delivered_of_waiting (hfew : ops.length < 4294967296) (h : id ∈ (after ops).waiting) :
    (after ops).delivered id = [] := by
  obtain ⟨earlier, op, later, rfl, hnew, hopen⟩ := mem_waiting_after.1 h
  have hnone : later.find? (·.settles id) = none :=
    List.find?_eq_none.2 fun o ho => by simp [hopen o ho]
  rw [(delivered_after hfew hnew).1, hnone]
  rfl

end Run

/-- Whatever happens to a client, as long as it is fewer operations than there are ids: the requests
have different ids; exactly those wait that have been given an id and since then have neither been
answered nor forgotten; and each has got the response of the first operation that has settled it,
if that was one, and no other. A further response finds its request exactly if that waits. Then it
is the only one that the request gets, and nothing changes for any other request; if no request
waits for it, nothing changes at all. -/
theorem requests_settled_once (ops : List Operation) (hfew : ops.length < 4294967296) :
    (issued {} ops).Nodup ∧
    (∀ id, id ∈ (after ops).waiting ↔ IsUnsettled ops id) ∧
    (∀ earlier op later id, ops = earlier ++ op :: later → (after earlier).newId? op = some id →
      (after ops).delivered id = ((later.find? (·.settles id)).bind (·.response?)).toList) ∧
    ∀ r found c, (after ops).route r = (found, c) →
      (found = true ↔ r.id ∈ (after ops).waiting) ∧
      (found = true → (after ops).delivered r.id = [] ∧ c.delivered r.id = [r] ∧
        r.id ∉ c.waiting ∧ c.sent = (after ops).sent ∧
        ∀ id ≠ r.id, c.delivered id = (after ops).delivered id ∧
          (id ∈ c.waiting ↔ id ∈ (after ops).waiting)) ∧
      (found = false → c = after ops) := by
  refine ⟨nodup_issued hfew, fun id => mem_waiting_after, ?_, fun r found c hroute => ?_⟩
  · rintro earlier op later id rfl hnew
    exact (delivered_after hfew hnew).1
  · have hdelivered (id : RequestId) := @delivered_act (after ops) (.route r) id
    have hwaiting (id : RequestId) := @mem_waiting_act (after ops) (.route r) id
    rw [act, hroute] at hdelivered hwaiting
    rw [route] at hroute
    split at hroute
    · next hknown =>
        have hknown := List.contains_iff_mem.1 hknown
        cases hroute
        refine ⟨iff_of_true rfl hknown, fun _ => ⟨?_, ?_, ?_, rfl, fun id hid => ?_⟩, nofun⟩
        · exact delivered_of_waiting hfew hknown
        · rw [hdelivered, delivered_of_waiting hfew hknown]
          simp [hknown, Operation.settles, Operation.response?]
        · simp
        · rw [hdelivered, hwaiting]
          simp [newId?, Operation.settles, Ne.symm hid]
    · next hunknown =>
        cases hroute
        refine ⟨iff_of_false nofun fun h => hunknown ?_, nofun, fun _ => rfl⟩
        exact List.contains_iff_mem.2 h

/-- The first request is forgotten before its answer comes, the second one is refused twice. -/
theorem requests_settled_once_late :
    let create : Operation := .request "window/workDoneProgress/create" .null
    let late : Response := .ok (.number 1) .null
    let refusal : Response := .failure (.number 2) .requestFailed []
    let ops := [create, create, .route refusal, .forget (.number 1), .route late, .route refusal]
    (after ops).delivered (.number 1) = [] ∧ (after ops).delivered (.number 2) = [refusal] := by
  intro create late refusal ops
  obtain ⟨-, -, hdelivered, -⟩ := requests_settled_once ops (by decide)
  have hids : idAfter 0 = .number 1 ∧ idAfter 1 = .number 2 := by decide
  constructor
  · exact hdelivered [] create ops.tail (.number 1) rfl (congrArg some hids.1)
  · exact hdelivered [create] create (ops.drop 2) (.number 2) rfl (congrArg some hids.2)

end LanguageServer.Client
