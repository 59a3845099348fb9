import LanguageServer.Proofs.Protocol.CompletionItems
import LanguageServer.Proofs.Session.Moves

/-!
# Items of completions

The version of a list is the number of lists that its binding has had so far
(`Session.version_eq_lists`), as nothing but the answer to a completion touches what a binding keeps
of it. An item is filled in from the list that is kept under the binding of the request to resolve
it, if that list has the version of the item. Within one binding only the list that the item is from
has it. Under another one, counting starts again.
-/

namespace LanguageServer

/-! ### What the answer to a completion is -/

section Commands

variable {cache : CompletionCache}

theorem snd_of_pure {result : Json} (answer : Json × CompletionCache)
    (h : (pure (result, cache) : Except Fault (Json × CompletionCache)) = .ok answer) :
    answer.2 = cache := by
  cases h
  rfl

theorem snd_of_bind {α : Type} {steps : Except Fault α}
    {write : α → Except Fault (Json × CompletionCache)}
    (h : ∀ a answer, write a = .ok answer → answer.2 = cache) (answer : Json × CompletionCache)
    (hanswer : steps >>= write = .ok answer) : answer.2 = cache := by
  cases steps with
  | error fault => cases hanswer
  | ok a => exact h a answer hanswer

variable {q : Capabilities} {sources : Sources} {c : Context}

/-- A command that is no completion leaves the list as it is. -/
theorem Command.snd_of_execute {command : Command}
    (hother : ∀ position, command ≠ .completion position) :
    ∀ answer, command.execute q sources cache c = .ok answer → answer.2 = cache := by
  cases command with
  | completion position => exact absurd rfl (hother position)
  | signatureHelp =>
      refine snd_of_bind fun found => ?_
      cases found with
      | none => exact snd_of_pure
      | some info => exact snd_of_bind fun _ => snd_of_pure
  | usages | documentSymbols | formatOnType =>
      exact snd_of_bind fun _ => snd_of_bind fun _ => snd_of_pure
  | format =>
      exact snd_of_bind fun _ => snd_of_bind fun _ => snd_of_bind fun _ => snd_of_pure
  | contents => exact snd_of_pure
  | _ => exact snd_of_bind fun _ => snd_of_pure

/-- A completion puts its list in place of the last one, and answers with the items of it. -/
theorem Command.eq_of_execute_completion {position : Position} {answer : Json × CompletionCache}
    (h : (completion position).execute q sources cache c = .ok answer) :
    ∃ candidates, answer.2 = cache.store c.key c.text position candidates ∧
      answer.1 = completionList answer.2.items := by
  simp only [execute] at h
  cases hfound : q.completions sources c with
  | error fault =>
      rw [hfound] at h
      cases h
  | ok candidates =>
      cases hcheck : c.check with
      | error fault =>
          simp only [hfound, hcheck] at h
          cases h
      | ok _ =>
          simp only [hfound, hcheck] at h
          cases h
          exact ⟨candidates, rfl, rfl⟩

end Commands

namespace Session

variable {s : Session} {t : Turn} {i : Nat}

/-- Work on a file has a result only if it has been done. -/
theorem exists_of_run {α : Type} {work : Work} {steps : Sources → Context → Except Fault α}
    {w : Workspace} {a : α} (h : ((work.run true steps).run w).1 = .ok (some a)) :
    ∃ sources context, steps sources context = .ok a := by
  by_cases hcancelled : work.cancellation = .before
  · have hrun : work.run true steps = pure (.error .cancelled) := by
      rw [Work.run, if_neg (by decide), if_pos hcancelled]
    rw [hrun] at h
    cases h
  · rw [work_run hcancelled] at h
    generalize (work.enter.run w).1 = entered at h
    rcases entered with _ | _ | ⟨sources, context⟩
    · cases h
    · cases h
    · refine ⟨sources, context, ?_⟩
      cases hsteps : steps sources context with
      | error fault =>
          simp only [hsteps] at h
          cases h
      | ok result =>
          simp only [hsteps] at h
          split at h <;> cases h
          rfl

/-- The items in the answer to a completion, if the answer is a list. -/
def itemsIn? (result : Json) : Option (List Json) := (result.get? "items").bind Json.items?

theorem itemsIn?_completionList (items : List CompletionItem) :
    itemsIn? (Command.completionList items) = some (items.map CompletionItem.toJson) :=
  rfl

theorem cacheAt_setCache {b : Binding} (hb : s.bindings[i]? = some b) (cache : CompletionCache)
    (j : Nat) :
    (s.modifyBinding i fun b => { b with cache }).cacheAt j
      = if i = j then cache else s.cacheAt j := by
  split
  · next hj =>
      subst hj
      exact congrArg Prod.fst (deskAt_modifyBinding hb _)
  · next hj => exact congrArg Prod.fst (deskAt_modifyBinding_of_ne hj s _)

/-- Whether a question asks for a completion. -/
def completes : Question → Bool
  | .about _ _ (.completion _) => true
  | _ => false

theorem exists_of_completes {question : Question} (h : completes question = true) :
    ∃ uri place position, question = .about uri place (.completion position) := by
  unfold completes at h
  split at h
  · exact ⟨_, _, _, rfl⟩
  · cases h

/-- What work on a request does to the lists: it leaves them all, or it is the answer to a
completion and puts a list in place of the last one. -/
inductive Fills (s : Session) (b : Binding) (job : Job) : Prop
  | leaves (hcaches : ∀ i, (s.outcome b job).2.cacheAt i = s.cacheAt i)
      (hanswer : completes job.question = true → ∀ result,
        (s.outcome b job).1 = some (.ok result) → itemsIn? result = none)
  | stores (key : FileKey) (text : Text) (position : Position) (candidates : List Candidate)
      (hcompletes : completes job.question = true)
      (hcaches : ∀ i, (s.outcome b job).2.cacheAt i =
        if job.binding = i then b.cache.store key text position candidates else s.cacheAt i)
      (hanswer : (s.outcome b job).1 = some (.ok
        (Command.completionList (b.cache.store key text position candidates).items)))

variable {b : Binding} {job : Job} {rest : List Job}

theorem Fills.of_other (hother : completes job.question = false)
    (hcaches : ∀ i, (s.outcome b job).2.cacheAt i = s.cacheAt i) : s.Fills b job :=
  .leaves hcaches fun h => by cases hother.symm.trans h

theorem fills_about (hb : s.bindings[job.binding]? = some b) {uri : Text}
    {place : Option Position} {command : Command}
    (hquestion : job.question = .about uri place command) : s.Fills b job := by
  have hsplit : s.outcome b job
      = (some (s.perform b job uri place command).1, (s.perform b job uri place command).2) := by
    simp only [outcome, hquestion]
  obtain ⟨steps, hsteps⟩ : ∃ steps, steps = (workOf b job uri place command).run true
      fun sources => command.execute s.workspace.capabilities sources b.cache := ⟨_, rfl⟩
  have hwithin := unmoved_within s b.documents steps
  have hexecuted : ∀ answer, (s.within b.documents steps).1 = .ok (some answer) →
      ∃ sources context,
        command.execute s.workspace.capabilities sources b.cache context = .ok answer := by
    rw [hsteps]
    exact fun answer h => exists_of_run h
  simp only [perform, ← hsteps] at hsplit
  generalize s.within b.documents steps = done at hwithin hexecuted hsplit
  rcases done with ⟨e | _ | ⟨result, cache⟩, s₁⟩
  · refine .leaves (fun i => ?_) fun _ result hanswer => ?_
    · rw [hsplit]
      exact hwithin.cacheAt i
    · rw [hsplit] at hanswer
      cases hanswer
  · refine .leaves (fun i => ?_) fun hcompletes result hanswer => ?_
    · rw [hsplit]
      exact hwithin.cacheAt i
    · -- There is no editor for the file, and the answer is null.
      obtain ⟨_, _, _, hcompletion⟩ := exists_of_completes hcompletes
      cases hquestion.symm.trans hcompletion
      rw [hsplit] at hanswer
      cases hanswer
      rfl
  · -- The list goes to the binding as it is after the work, which is not the one it began with.
    obtain ⟨b₁, hb₁⟩ : ∃ b₁, s₁.bindings[job.binding]? = some b₁ := by
      have hbound := (List.getElem?_eq_some_iff.1 hb).1
      exact ⟨_, List.getElem?_eq_getElem (hwithin.length ▸ hbound)⟩
    have hcaches : ∀ i, (s.outcome b job).2.cacheAt i
        = if job.binding = i then cache else s.cacheAt i := fun i => by
      rw [hsplit, ← hwithin.cacheAt]
      exact cacheAt_setCache hb₁ cache i
    obtain ⟨sources, context, hexecute⟩ := hexecuted _ rfl
    cases hcompletes : completes job.question with
    | true =>
        obtain ⟨_, _, position, hcompletion⟩ := exists_of_completes hcompletes
        cases hquestion.symm.trans hcompletion
        obtain ⟨candidates, hcache, hresult⟩ := Command.eq_of_execute_completion hexecute
        dsimp only at hcache hresult
        rw [hcache] at hcaches hresult
        exact .stores context.key context.text position candidates hcompletes hcaches
          (by rw [hsplit, hresult])
    | false =>
        have hcache : cache = b.cache := by
          refine Command.snd_of_execute (fun position h => ?_) _ hexecute
          rw [hquestion, h] at hcompletes
          cases hcompletes
        refine .of_other hcompletes fun i => ?_
        rw [hcaches, hcache]
        split
        · next hi => rw [← hi, cacheAt, deskAt_of_binding hb, Binding.desk]
        · rfl

theorem fills (hb : s.bindings[job.binding]? = some b) : s.Fills b job := by
  cases hquestion : job.question with
  | about uri place command => exact fills_about hb hquestion
  | symbols query =>
      refine .of_other (hquestion ▸ rfl) fun i => ?_
      simp only [outcome, hquestion]
      exact (unmoved_within ..).cacheAt i
  | resolveItem item =>
      refine .of_other (hquestion ▸ rfl) fun i => ?_
      simp only [outcome, hquestion]
      split <;> rfl
  | answered result =>
      refine .of_other (hquestion ▸ rfl) fun i => ?_
      simp only [outcome, hquestion]

/-! ### Which lists a client is told -/

/-- The list that the client is told with a turn, and the binding that it is kept under. -/
def listed? (s : Session) : Turn → Option (Nat × List Json)
  | .step .work =>
    match s.queue, s.workNext.client.sent.getLast? with
    | job :: _, some (.response (.ok _ result)) =>
      if completes job.question then (itemsIn? result).map (job.binding, ·) else none
    | _, _ => none
  | _ => none

/-- How many lists a binding gets with some turns. -/
def lists (s : Session) (i : Nat) : List Turn → Nat
  | [] => 0
  | t :: turns => (if (s.listed? t).map (·.1) = some i then 1 else 0) + (s.turn t).lists i turns

theorem cacheAt_cancel (hs : s.Live) (id : RequestId) (i : Nat) :
    (s.cancel id).cacheAt i = s.cacheAt i := by
  rw [cancel_eq hs.current]
  split
  · rfl
  · next current _ =>
      split
      · rfl
      · exact cacheAt_modifyBinding s current (·.forget id) (fun _ => rfl) i

theorem cacheAt_workNext (hqueue : s.queue = job :: rest)
    (hb : s.bindings[job.binding]? = some b) (i : Nat) :
    s.workNext.cacheAt i = (outcome { s with queue := rest } b job).2.cacheAt i := by
  rcases workNext_cases hqueue hb with ⟨-, hnext⟩ | ⟨_, -, hnext⟩
  · rw [hnext]
  · rw [hnext]
    exact cacheAt_modifyBinding _ job.binding (·.forget job.id) (fun _ => rfl) i

theorem listed?_of_ne (ht : t ≠ .step .work) : s.listed? t = none := by
  rcases t with (m | _) | _ | _ | w
  · rfl
  · exact absurd rfl ht
  · rfl
  · rfl
  · rfl

theorem listed?_work (hs : s.Live) (hqueue : s.queue = job :: rest)
    (hb : s.bindings[job.binding]? = some b) (hcompletes : completes job.question = true)
    {answer : Except CommandError Json}
    (hanswer : (outcome { s with queue := rest } b job).1 = some answer) :
    s.listed? (.step .work) =
      match answer with
      | .ok result => (itemsIn? result).map (job.binding, ·)
      | .error _ => none := by
  have hsent := sent_workNext hs hqueue hb hanswer
  rw [listed?, hqueue, hsent]
  cases answer with
  | error e => rfl
  | ok result => exact if_pos hcompletes

theorem listed?_of_other (hqueue : s.queue = job :: rest)
    (hother : completes job.question = false) : s.listed? (.step .work) = none := by
  rw [listed?, hqueue]
  split
  · next hjob _ =>
      cases hjob
      rw [hother, if_neg Bool.false_ne_true]
  · rfl

theorem cacheAt_work (hs : s.Live) (hqueue : s.queue = job :: rest) (i : Nat) :
    s.workNext.cacheAt i = s.cacheAt i ∧ (s.listed? (.step .work)).map (·.1) ≠ some i ∨
      ∃ key text position candidates,
        s.workNext.cacheAt i = (s.cacheAt i).store key text position candidates ∧
        s.listed? (.step .work)
          = some (i, (s.workNext.cacheAt i).items.map CompletionItem.toJson) := by
  obtain ⟨b, hb⟩ := hs.exists_binding (hqueue ▸ List.mem_cons_self)
  have hworked := cacheAt_workNext hqueue hb
  cases fills (s := { s with queue := rest }) hb with
  | leaves hcaches hanswer =>
      refine .inl ⟨(hworked i).trans (hcaches i), ?_⟩
      cases hcompletes : completes job.question with
      | false =>
          rw [listed?_of_other hqueue hcompletes]
          exact (Option.some_ne_none i).symm
      | true =>
          obtain ⟨_, _, _, hquestion⟩ := exists_of_completes hcompletes
          obtain ⟨answer, hanswered⟩ :
              ∃ answer, (outcome { s with queue := rest } b job).1 = some answer := by
            simp only [outcome, hquestion]
            exact ⟨_, rfl⟩
          rw [listed?_work hs hqueue hb hcompletes hanswered]
          cases answer with
          | error e => exact (Option.some_ne_none i).symm
          | ok result =>
              dsimp only
              rw [hanswer hcompletes result hanswered]
              exact (Option.some_ne_none i).symm
  | stores key text position candidates hcompletes hcaches hanswer =>
      have hlisted := listed?_work hs hqueue hb hcompletes hanswer
      dsimp only at hlisted
      rw [itemsIn?_completionList, Option.map_some] at hlisted
      have hcache := (hworked i).trans (hcaches i)
      by_cases hi : job.binding = i
      · subst hi
        rw [if_pos rfl] at hcache
        have hold : s.cacheAt job.binding = b.cache := congrArg Prod.fst (deskAt_of_binding hb)
        refine .inr ⟨key, text, position, candidates, hold ▸ hcache, ?_⟩
        rw [hlisted, hcache]
      · rw [if_neg hi] at hcache
        refine .inl ⟨hcache, ?_⟩
        rw [hlisted]
        exact fun h => hi (Option.some.inj h)

/-- With a turn a binding gets a list that the client is told, or it keeps the one it has. -/
theorem cacheAt_turn (hs : s.Live) (t : Turn) (i : Nat) :
    (s.turn t).cacheAt i = s.cacheAt i ∧ (s.listed? t).map (·.1) ≠ some i ∨
      ∃ key text position candidates,
        (s.turn t).cacheAt i = (s.cacheAt i).store key text position candidates ∧
        s.listed? t = some (i, ((s.turn t).cacheAt i).items.map CompletionItem.toJson) := by
  by_cases hwork : t = .step .work
  · subst hwork
    cases hqueue : s.queue with
    | nil =>
        have hidle : s.workNext = s := by rw [workNext, hqueue]
        refine .inl ⟨congrArg (cacheAt · i) hidle, ?_⟩
        rw [listed?, hqueue]
        exact (Option.some_ne_none i).symm
    | cons job rest => exact cacheAt_work hs hqueue i
  · -- Nothing but work answers a completion, and nothing else stores a list.
    rw [listed?_of_ne hwork]
    refine .inl ⟨?_, (Option.some_ne_none i).symm⟩
    cases moves hs t with
    | unmoved hunmoved => exact hunmoved.cacheAt i
    | asks j r question _ _ _ _ hnext =>
        rw [hnext]
        exact cacheAt_modifyBinding s j (·.register r.id s.issued) (fun _ => rfl) i
    | begins ht =>
        subst ht
        rfl
    | cancels id hnext =>
        rw [hnext]
        exact cacheAt_cancel hs id i
    | leaves p hcancels => exact hcancels.caches i
    | works job rest ht => exact absurd ht hwork

theorem version_after (hs : s.Live) (turns : List Turn) (i : Nat) :
    ((s.after turns).cacheAt i).version = (s.cacheAt i).version + s.lists i turns := by
  induction turns generalizing s with
  | nil => rfl
  | cons t turns ih =>
      have hlater : s.after (t :: turns) = (s.turn t).after turns := rfl
      rw [hlater, ih (takes_turn hs t).1, lists]
      rcases cacheAt_turn hs t i with ⟨hsame, hlisted⟩ | ⟨_, _, _, _, hstored, hlisted⟩
      · rw [hsame, if_neg hlisted, Nat.zero_add]
      · have hnext : ((s.turn t).cacheAt i).version = (s.cacheAt i).version + 1 := by
          rw [hstored]
          rfl
        rw [hnext, hlisted, Option.map_some, if_pos rfl, Nat.add_assoc]

/-- A binding starts without a list, so that its version is the number of lists it has had. -/
theorem version_eq_lists (service : Service) (turns : List Turn) (i : Nat) :
    ((service.session.after turns).cacheAt i).version = service.session.lists i turns :=
  (version_after (live_session service) turns i).trans (Nat.zero_add _)

theorem lists_singleton {items : List Json} (hlisted : s.listed? t = some (i, items)) :
    s.lists i [t] = 1 := by
  rw [lists, hlisted, Option.map_some, if_pos rfl, lists]

theorem lists_append (s : Session) (i : Nat) (turns more : List Turn) :
    s.lists i (turns ++ more) = s.lists i turns + (s.after turns).lists i more := by
  induction turns generalizing s with
  | nil => rw [List.nil_append, lists, Nat.zero_add]; rfl
  | cons t turns ih =>
      rw [List.cons_append, lists, lists, ih, Nat.add_assoc]
      rfl

theorem cacheAt_after_of_lists (hs : s.Live) {turns : List Turn} (h : s.lists i turns = 0) :
    (s.after turns).cacheAt i = s.cacheAt i := by
  induction turns generalizing s with
  | nil => rfl
  | cons t turns ih =>
      have hlater : s.after (t :: turns) = (s.turn t).after turns := rfl
      rw [lists, Nat.add_eq_zero_iff] at h
      rw [hlater, ih (takes_turn hs t).1 h.2]
      rcases cacheAt_turn hs t i with ⟨hsame, -⟩ | ⟨-, -, -, -, -, hlisted⟩
      · exact hsame
      · rw [hlisted, Option.map_some, if_pos rfl] at h
        exact absurd h.1 Nat.one_ne_zero

/-! ### Resolving items -/

end Session

namespace CompletionCache

variable {cache : CompletionCache} {item : CompletionItem} {version index : Nat}

theorem exists_of_getElem?_items (h : cache.items[index]? = some item) :
    ∃ snapshot c, cache.current = some snapshot ∧ snapshot.candidates[index]? = some c ∧
      item = .ofCandidate c cache.version index := by
  rw [items] at h
  split at h
  · cases h
  · next snapshot hcurrent =>
      rw [List.getElem?_map, List.getElem?_zipIdx, Nat.zero_add] at h
      cases hc : snapshot.candidates[index]? with
      | none =>
          rw [hc] at h
          cases h
      | some c =>
          rw [hc] at h
          have hversion : cache.version = snapshot.version := by
            rw [CompletionCache.version, hcurrent]
            rfl
          refine ⟨snapshot, c, hcurrent, hc, ?_⟩
          rw [hversion]
          exact (Option.some.inj h).symm

theorem exists_of_version (h : cache.version = version) (hpositive : 0 < version) :
    ∃ snapshot, cache.current = some snapshot ∧ snapshot.version = version := by
  rw [CompletionCache.version] at h
  cases hcurrent : cache.current with
  | none =>
      rw [hcurrent] at h
      exact absurd h (Nat.ne_of_lt hpositive)
  | some snapshot =>
      rw [hcurrent] at h
      exact ⟨snapshot, rfl, h⟩

theorem resolve_of_ne (horigin : item.origin? = some (version, index))
    (h : version ≠ cache.version) (q : Capabilities) (cancelled : Bool) :
    cache.resolve q cancelled item = .ok item := by
  rw [resolve, horigin]
  cases hcurrent : cache.current with
  | none => rfl
  | some snapshot =>
      rw [CompletionCache.version, hcurrent] at h
      exact if_pos h

theorem resolve_of_eq {snapshot : Snapshot} (hcurrent : cache.current = some snapshot)
    (horigin : item.origin? = some (snapshot.version, index)) {c : Candidate}
    (hc : snapshot.candidates[index]? = some c) {q : Capabilities} {r : Resolution}
    (hr : q.resolveCompletion snapshot.candidates index false = .ok (some r)) :
    cache.resolve q false item = .ok (item.apply c.replace r) := by
  simp only [resolve, horigin, hcurrent, ne_eq, not_true_eq_false, if_false, hc, hr]

end CompletionCache

namespace Session

variable {s : Session} {t : Turn} {i : Nat} {b : Binding} {job : Job} {rest : List Job}

theorem ofRequest_resolve {r : Request} (hmethod : r.method = "completionItem/resolve".toList) :
    Question.ofRequest r =
      match Params.completionItem? r.params with
      | some item => .ok (.resolveItem item)
      | none => .error (.invalidParams r.method) := by
  have hread : Question.ofParams? (String.ofList r.method)
      = some fun params => (Params.completionItem? params).map .resolveItem := by
    rw [hmethod, String.ofList_toList]
    unfold Question.ofParams?
    rfl
  rw [Question.ofRequest, if_neg (by rw [hmethod]; decide), hread]
  dsimp only
  cases Params.completionItem? r.params <;> rfl

/-- A request to resolve an item of a list, if it is not refused, is to resolve just that item. -/
theorem resolveItem_of_ofRequest {c : Candidate} {version index : Nat} {id : RequestId}
    {question : Question}
    (h : Question.ofRequest ⟨id, "completionItem/resolve".toList,
      (CompletionItem.ofCandidate c version index).toJson⟩ = .ok question) :
    question = .resolveItem (.ofCandidate c version index) := by
  rw [ofRequest_resolve rfl, Params.completionItem?_toJson] at h
  cases hfits : c.replace.fits with
  | true =>
      rw [hfits] at h
      cases h
      rfl
  | false =>
      rw [hfits] at h
      cases h

/-- What is listed is what the binding keeps from then on. -/
theorem exists_of_listed? (hs : s.Live) {items : List Json}
    (hlisted : s.listed? t = some (i, items)) {k : Nat} {item : Json}
    (hitem : items[k]? = some item) :
    ∃ snapshot c, ((s.turn t).cacheAt i).current = some snapshot ∧
      snapshot.candidates[k]? = some c ∧
      item = (CompletionItem.ofCandidate c ((s.turn t).cacheAt i).version k).toJson := by
  rcases cacheAt_turn hs t i with ⟨-, hnone⟩ | ⟨-, -, -, -, -, hitems⟩
  · rw [hlisted] at hnone
    exact absurd rfl hnone
  · cases hlisted.symm.trans hitems
    rw [List.getElem?_map, Option.map_eq_some_iff] at hitem
    obtain ⟨kept, hkept, rfl⟩ := hitem
    obtain ⟨snapshot, c, hcurrent, hc, rfl⟩ := CompletionCache.exists_of_getElem?_items hkept
    exact ⟨snapshot, c, hcurrent, hc, rfl⟩

theorem workNext_of_resolveItem (hqueue : s.queue = job :: rest)
    (hb : s.bindings[job.binding]? = some b) (hactive : job.cancelled = false)
    {item result : CompletionItem} (hquestion : job.question = .resolveItem item)
    (hresolve : b.cache.resolve s.workspace.capabilities false item = .ok result) :
    s.workNext = ({ s with queue := rest }.modifyBinding job.binding (·.forget job.id)).respond
      (.ok job.id result.toJson) := by
  have houtcome : outcome { s with queue := rest } b job
      = (some (.ok result.toJson), { s with queue := rest }) := by
    simp only [outcome, hquestion, hactive, hresolve]
    rfl
  exact workNext_of_outcome hqueue hb houtcome

theorem queue_of_asked (hserving : s.phase = .serving) (hcurrent : s.current = some i)
    {r : Request} (hopens : r.method ≠ "initialize".toList) (hshuts : r.method ≠ "shutdown".toList)
    {question : Question} (hquestion : Question.ofRequest r = .ok question)
    (hopen : ∀ result, question ≠ .answered result) :
    (s.turn (.step (.message (.request r)))).queue
      = s.queue ++ [⟨s.issued, i, r.id, question, false, false⟩] := by
  have hturn : s.turn (.step (.message (.request r))) = s.ask i r := by
    change (s.handleRequest r).2 = _
    rw [handleRequest_of_other hopens hshuts, hserving, hcurrent]
  rw [hturn, ask, hquestion]
  cases question with
  | answered result => exact absurd rfl (hopen result)
  | _ => rfl

/-- What becomes of an item that the client sends back to have it filled in. It comes back unchanged
unless the list under the binding of the request has the same version: as many completions have been
answered under that binding by then as under the binding of the item when it was listed. If the item
is from the same binding, this means that no other list has been made there in the meantime, and it
is filled in from its own candidate. If another project has been opened, the item may well be filled
in from the candidate at its place in a list that it is not from. -/
theorem items_resolved_by_version (service : Service) (past between : List Turn) (t : Turn)
    {k : Nat} {items : List Json} {item : Json}
    (hlisted : (service.session.after past).listed? t = some (i, items))
    (hitem : items[k]? = some item)
    (hqueue : (service.session.after (past ++ t :: between)).queue = job :: rest)
    (hactive : job.cancelled = false)
    (hquestion : Question.ofRequest ⟨job.id, "completionItem/resolve".toList, item⟩
      = .ok job.question) :
    let s := service.session.after (past ++ t :: between)
    let answered (result : Json) : Prop :=
      s.workNext = ({ s with queue := rest }.modifyBinding job.binding (·.forget job.id)).respond
        (.ok job.id result)
    let mine := service.session.lists i (past ++ [t])
    let theirs := service.session.lists job.binding (past ++ t :: between)
    (mine ≠ theirs → answered item) ∧
    (job.binding = i →
      (mine = theirs ↔ (service.session.after (past ++ [t])).lists i between = 0)) ∧
    (mine = theirs → ∃ c snapshot, item = (CompletionItem.ofCandidate c mine k).toJson ∧
      (s.cacheAt job.binding).current = some snapshot ∧
      (job.binding = i → snapshot.candidates[k]? = some c) ∧
      ∀ other r, snapshot.candidates[k]? = some other →
        s.workspace.capabilities.resolveCompletion snapshot.candidates k false = .ok (some r) →
        answered ((CompletionItem.ofCandidate c mine k).apply other.replace r).toJson) := by
  intro s answered mine theirs
  have hlive := fun turns => (takes_after (live_session service) turns).1
  have hthen : service.session.after (past ++ [t]) = (service.session.after past).turn t :=
    after_concat ..
  have hlater : s = (service.session.after (past ++ [t])).after between := by
    rw [hthen]
    exact List.foldl_append ..
  have htheirs : job.binding = i →
      theirs = mine + (service.session.after (past ++ [t])).lists i between := by
    rintro rfl
    have hsplit : past ++ t :: between = past ++ [t] ++ between := List.append_cons ..
    exact (congrArg (service.session.lists job.binding) hsplit).trans (lists_append ..)
  obtain ⟨own, c, hown, hc, hitem⟩ := exists_of_listed? (hlive past) hlisted hitem
  rw [← hthen, version_eq_lists] at hitem
  subst hitem
  have hresolve := resolveItem_of_ofRequest hquestion
  obtain ⟨b, hb⟩ := (hlive _).exists_binding (hqueue ▸ List.mem_cons_self)
  have hcache : s.cacheAt job.binding = b.cache := congrArg Prod.fst (deskAt_of_binding hb)
  have hbound : b.cache.version = theirs := hcache ▸ version_eq_lists service _ job.binding
  refine ⟨fun hne => ?_, fun hi => ?_, fun heq => ?_⟩
  · refine workNext_of_resolveItem hqueue hb hactive hresolve ?_
    have horigin := CompletionItem.origin?_ofCandidate c mine k
    exact CompletionCache.resolve_of_ne horigin (hbound ▸ hne) _ _
  · rw [htheirs hi]
    exact Nat.left_eq_add
  · have hmine : 0 < mine := by
      have hcount : mine = service.session.lists i past
          + (service.session.after past).lists i [t] := lists_append ..
      rw [lists_singleton hlisted] at hcount
      omega
    obtain ⟨snapshot, hsnapshot, hsame⟩ :=
      CompletionCache.exists_of_version (hbound.trans heq.symm) hmine
    refine ⟨c, snapshot, rfl, hcache ▸ hsnapshot, fun hi => ?_, fun other r hother hr => ?_⟩
    · -- Under its own binding the item can only meet the list that it is from.
      have hkept : (service.session.after (past ++ [t])).lists i between = 0 :=
        Nat.left_eq_add.1 (heq.trans (htheirs hi))
      have hunchanged := cacheAt_after_of_lists (hlive (past ++ [t])) hkept
      rw [← hlater, ← hi, hcache, hi, hthen] at hunchanged
      rw [hunchanged, hown, Option.some.injEq] at hsnapshot
      exact hsnapshot ▸ hc
    · refine workNext_of_resolveItem hqueue hb hactive hresolve ?_
      exact CompletionCache.resolve_of_eq hsnapshot
        (hsame ▸ CompletionItem.origin?_ofCandidate c mine k) hother hr

/-- A service with a file in which two functions are declared. -/
def offering : Service where
  workspace := { disk := ⟨[(["p".toList], .directory),
    (["p".toList, "a".toList], .file (.text "fn one()\nfn two()".toList) true)]⟩ }

/-- A client opens the project and completes the name in a line of the file. -/
def completesIn (line : Nat) : List Turn :=
  let folder : Json := .obj [("name", .ofString "p"), ("uri", .str Workspace.sampleRoot)]
  let place : Json := .obj [("textDocument", .obj [("uri", .str Workspace.sampleUri)]),
    ("position", .obj [("line", .nat line), ("character", .nat 4)])]
  [.step (.message (.request ⟨.number 1, "initialize".toList,
      .obj [("capabilities", .obj []), ("workspaceFolders", .arr [folder])]⟩)),
    .step (.message (.request ⟨.number 2, "textDocument/completion".toList, place⟩))]

/-- The list that the client gets for the first line, and the binding that it is kept under. -/
def offers? : Option (Nat × List Json) :=
  (offering.session.after (completesIn 0)).listed? (.step .work)

/-- The first item of that list. -/
def offered : Json := ((offers?.map (·.2)).bind List.head?).getD .null

/-- The one candidate in the other line. -/
def replacing : Candidate :=
  ⟨"two".toList, .function, some "fn two()".toList, "two".toList, ⟨⟨1, 3⟩, ⟨1, 4⟩⟩⟩

/-- The client opens the project again and completes the other name. -/
def completesAgain : List Turn := completesIn 1 ++ [.step .work]

/-- Asks for more about the item of the first list. -/
def resolveOffered : Request := ⟨.number 3, "completionItem/resolve".toList, offered⟩

/-- The item "one" is filled in as a call of "two". -/
theorem items_resolved_by_version_reopened :
    let s := offering.session.after (completesIn 0 ++ .step .work ::
      (completesAgain ++ [.step (.message (.request resolveOffered))]))
    ∃ c, c.label = "one".toList ∧ offered = (CompletionItem.ofCandidate c 1 0).toJson ∧
      s.workNext.client.sent.getLast? = some (.response (.ok (.number 3)
        ((CompletionItem.ofCandidate c 1 0).apply replacing.replace
          ⟨"two()".toList, []⟩).toJson)) := by
  intro s
  have hcount : offers?.map (fun l => (l.1, l.2.length)) = some (0, 1) := by decide +kernel
  obtain ⟨items, hlisted, hitem⟩ :
      ∃ items, offers? = some (0, items) ∧ items[0]? = some offered := by
    rw [Option.map_eq_some_iff] at hcount
    obtain ⟨⟨j, items⟩, hoffers, hcount⟩ := hcount
    obtain ⟨rfl, hlength⟩ := Prod.mk.inj hcount
    obtain ⟨item, rfl⟩ := List.length_eq_one_iff.1 hlength
    refine ⟨[item], hoffers, ?_⟩
    rw [offered, hoffers]
    rfl
  obtain ⟨item, hresolve⟩ : ∃ item, Params.completionItem? offered = some item :=
    Option.isSome_iff_exists.1 (by decide +kernel)
  have hquestion : Question.ofRequest resolveOffered = .ok (.resolveItem item) := by
    rw [ofRequest_resolve rfl, resolveOffered, hresolve]
  have hlast : s = (offering.session.after (completesIn 0 ++ .step .work :: completesAgain)).turn
      (.step (.message (.request resolveOffered))) := by
    rw [← after_concat, List.append_assoc, List.cons_append]
  obtain ⟨hphase, hcurrent, hidle⟩ :
      let before := offering.session.after (completesIn 0 ++ .step .work :: completesAgain)
      before.phase = .serving ∧ before.current = some 1 ∧ before.queue.length = 0 := by
    decide +kernel
  have hqueue := queue_of_asked hphase hcurrent (by decide) (by decide) hquestion
    fun _ hanswered => by cases hanswered
  rw [List.eq_nil_of_length_eq_zero hidle, List.nil_append, ← hlast] at hqueue
  have hmine : offering.session.lists 0 (completesIn 0 ++ [.step .work]) = 1 := by decide +kernel
  have htheirs : offering.session.lists 1 (completesIn 0 ++ .step .work ::
      (completesAgain ++ [.step (.message (.request resolveOffered))])) = 1 := by
    decide +kernel
  obtain ⟨hcandidates, hmeaning, hconnected⟩ :
      (s.cacheAt 1).current.map (·.candidates) = some [replacing] ∧
      (s.workspace.capabilities.resolveCompletion [replacing] 0 false).toOption
        = some (some ⟨"two()".toList, []⟩) ∧
      s.client.connected = true := by
    decide +kernel
  have hlabel : (offered.get? "label").bind Json.text? = some "one".toList := by decide +kernel
  obtain ⟨-, -, hresolved⟩ := items_resolved_by_version offering (completesIn 0) _ (.step .work)
    hlisted hitem hqueue rfl hquestion
  obtain ⟨c, snapshot, hc, hsnapshot, -, hanswered⟩ := hresolved (hmine.trans htheirs.symm)
  rw [hmine] at hc hanswered
  have hs : s = offering.session.after (completesIn 0 ++ .step .work ::
      (completesAgain ++ [.step (.message (.request resolveOffered))])) := rfl
  rw [← hs] at hsnapshot hanswered
  clear_value s
  have hreplacing : snapshot.candidates = [replacing] := by
    rw [hsnapshot] at hcandidates
    exact Option.some.inj hcandidates
  have hnext := hanswered replacing ⟨"two()".toList, []⟩ (by rw [hreplacing]; rfl) <| by
    rw [hreplacing]
    generalize s.workspace.capabilities.resolveCompletion [replacing] 0 false = meaning at hmeaning
    cases meaning with
    | error fault => cases hmeaning
    | ok r => exact congrArg Except.ok (Option.some.inj hmeaning)
  refine ⟨c, ?_, hc, ?_⟩
  · rw [hc] at hlabel
    cases hdetail : c.detail <;>
      simpa [CompletionItem.ofCandidate, CompletionItem.toJson, Json.ofFields, Json.get?,
        Json.text?, hdetail] using hlabel
  · rw [hnext]
    exact (congrArg List.getLast? (Client.sent_respond hconnected _)).trans List.getLast?_concat

end Session

end LanguageServer
