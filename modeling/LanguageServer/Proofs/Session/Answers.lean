import LanguageServer.Proofs.Session.Quiet
import LanguageServer.Proofs.Workspace.Editing
import LanguageServer.Server.Service
import Mathlib.Data.List.Nodup

/-!
# Which requests are answered

Every request that arrives is answered at once or waits, and every one that waits is answered when
it is worked on, unless the work breaks off without being guarded (`Session.breaksOff`): that
happens to a search for symbols and to the resolution of a completion item whose query breaks off.
So answers and waiting requests are counted together (`Session.takes_turn`), and what is missing
from the count are exactly the requests that broke off.
-/

namespace LanguageServer

/-- Whether a query broke off. -/
def breaksOff {α : Type} : Except Fault α → Bool
  | .error (.panic _) => true
  | _ => false

namespace Session

/-! ### Counting -/

/-- How many responses with an id have been sent. -/
def answered (s : Session) (id : RequestId) : Nat := s.client.responses.count id

/-- How many requests with an id wait. -/
def pending (s : Session) (id : RequestId) : Nat := (s.queue.map (·.id)).count id

/-- The client is there, and the bindings are that are spoken of. -/
structure Live (s : Session) : Prop where
  connected : s.client.connected = true
  queue : ∀ job ∈ s.queue, job.binding < s.bindings.length
  current : ∀ i, s.current = some i → i < s.bindings.length

/-- Requests have been taken in: each of them has been answered or waits. -/
structure Takes (s s' : Session) (ids : List RequestId) : Prop where
  live : s'.Live
  count : ∀ id, s'.answered id + s'.pending id = s.answered id + s.pending id + ids.count id

variable {s s' s₁ : Session}

theorem Quiet.answered (h : Quiet s s') (id : RequestId) : s'.answered id = s.answered id :=
  congrArg (List.count id) h.client.responses

theorem Quiet.pending (h : Quiet s s') (id : RequestId) : s'.pending id = s.pending id := by
  have hids := congrArg (List.map Prod.fst) h.queue
  simp only [List.map_map] at hids
  exact congrArg (List.count id) hids

theorem Quiet.live (h : Quiet s s') (hs : s.Live) : s'.Live := by
  refine ⟨h.client.connected.trans hs.connected, fun job hjob => ?_, h.current hs.current⟩
  have hasked : job.asked ∈ s.queue.map Job.asked := h.queue ▸ List.mem_map_of_mem hjob
  obtain ⟨job', hjob', heq⟩ := List.mem_map.1 hasked
  have hbinding : job'.binding = job.binding := congrArg Prod.snd heq
  exact hbinding ▸ Nat.lt_of_lt_of_le (hs.queue job' hjob') h.bindings

theorem Quiet.takes (h : Quiet s s') (hs : s.Live) : Takes s s' [] :=
  ⟨h.live hs, fun id => by rw [h.answered, h.pending, List.count_nil, Nat.add_zero]⟩

theorem answered_respond (hs : s.Live) (r : Response) (id : RequestId) :
    (s.respond r).answered id = s.answered id + [r.id].count id := by
  rw [answered, respond, Client.responses_respond hs.connected, List.count_append]
  rfl

theorem takes_respond (hs : s.Live) (h : Quiet s s₁) (r : Response) :
    Takes s (s₁.respond r) [r.id] := by
  have h₁ := h.live hs
  refine ⟨⟨?_, h₁.queue, h₁.current⟩, fun id => ?_⟩
  · rw [respond, Client.respond, Client.send]
    split <;> exact h₁.connected
  · have hpending : (s₁.respond r).pending id = s₁.pending id := rfl
    rw [answered_respond h₁, hpending, h.answered, h.pending]
    omega

/-! ### Requests -/

theorem takes_enqueue (hs : s.Live) {i : Nat} (hcurrent : s.current = some i) (id : RequestId)
    (question : Question) : Takes s (s.enqueue i id question) [id] := by
  have hquiet := quiet_modifyBinding s i (·.register id s.issued)
  have hlive := hquiet.live hs
  refine ⟨⟨hlive.connected, fun job hjob => ?_, hlive.current⟩, fun other => ?_⟩
  · rcases List.mem_append.1 hjob with hold | hnew
    · exact Nat.lt_of_lt_of_le (hs.queue job hold) hquiet.bindings
    · rw [List.mem_singleton.1 hnew]
      exact Nat.lt_of_lt_of_le (hs.current i hcurrent) hquiet.bindings
  · have hanswered : (s.enqueue i id question).answered other = s.answered other := rfl
    have hpending : (s.enqueue i id question).pending other
        = s.pending other + [id].count other := by
      rw [pending, enqueue, List.map_append, List.count_append]
      rfl
    omega

theorem takes_ask (hs : s.Live) {i : Nat} (hcurrent : s.current = some i) (r : Request) :
    Takes s (s.ask i r) [r.id] := by
  rw [ask]
  split
  · exact takes_respond hs (.refl s) _
  · exact takes_respond hs (.refl s) _
  · exact takes_enqueue hs hcurrent _ _

theorem quiet_openRoot (s : Session) (root : Option Text) : Quiet s (s.openRoot root).2 := by
  have hleft : Quiet s s.release.closeLeftover :=
    (quiet_release s).trans (quiet_closeLeftover _)
  cases root with
  | none => exact hleft.trans (quiet_enter ..)
  | some uri =>
      have hresolved := hleft.trans
        (quiet_quietly s.release.closeLeftover (Workspace.resolveProject (.ofUri uri)))
      simp only [openRoot]
      generalize s.release.closeLeftover.quietly (Workspace.resolveProject (.ofUri uri)) = outcome
        at hresolved ⊢
      rcases outcome with ⟨e | project, s₁⟩
      · exact hresolved
      · exact hresolved.trans ((quiet_bind s₁ project).trans (quiet_enter ..))

theorem takes_handleInitialize (hs : s.Live) (r : Request) :
    Takes s (s.handleInitialize r).2 [r.id] := by
  rw [handleInitialize]
  split
  · exact takes_respond hs (.refl s) _
  · split
    · exact takes_respond hs (.refl s) _
    · next root hroot =>
        have hopened := quiet_openRoot s root
        generalize s.openRoot root = outcome at hopened ⊢
        rcases outcome with ⟨e | result, s₁⟩
        · exact takes_respond hs hopened _
        · exact takes_respond hs hopened _

theorem takes_handleRequest (hs : s.Live) (r : Request) :
    Takes s (s.handleRequest r).2 [r.id] := by
  rw [handleRequest]
  split
  · exact takes_handleInitialize hs r
  · split
    · rw [handleShutdown]
      split
      · exact takes_respond hs (.refl s) _
      · exact takes_respond hs (quiet_shutdown s) _
    · split
      · exact takes_respond hs (.refl s) _
      · exact takes_respond hs (.refl s) _
      · exact takes_respond hs (.refl s) _
      · split
        · exact takes_respond hs (.refl s) _
        · next i hcurrent => exact takes_ask hs hcurrent r

theorem takes_handle (hs : s.Live) (m : Message) :
    Takes s (s.handle m).2 (match m with | .request r => [r.id] | _ => []) := by
  cases m with
  | request r => exact takes_handleRequest hs r
  | notification n => exact (quiet_handleNotification s n).takes hs
  | response r => exact (quiet_handleResponse s r).takes hs

/-! ### Work -/

/-- Whether the work on a request breaks off without anyone noticing: it is a search for symbols or
the resolution of a completion item, and the query that is needed for it breaks off. -/
def breaksOff (s : Session) (job : Job) : Bool :=
  match s.bindings[job.binding]?, job.question with
  | some b, .symbols query =>
    match s.workspace.project? b.project with
    | some p =>
      !s.workspace.capabilities.isIndexing && s.workspace.capabilities.runsUnits &&
        LanguageServer.breaksOff (s.workspace.capabilities.workspaceSymbols p.toSources
          (if query.isEmpty then ['*'] else query) s.symbolLimit job.cancelled)
    | none => false
  | some b, .resolveItem item =>
    (!job.cancelled || job.begun) &&
      LanguageServer.breaksOff (b.cache.resolve s.workspace.capabilities job.cancelled item)
  | _, _ => false

theorem quiet_perform (s : Session) (b : Binding) (job : Job) (uri : Text)
    (position : Option Position) (command : Command) :
    Quiet s (s.perform b job uri position command).2 := by
  have hwithin := quiet_within s b.documents
    ((workOf b job uri position command).run true fun sources =>
      command.execute s.workspace.capabilities sources b.cache)
  simp only [perform]
  generalize s.within b.documents _ = outcome at hwithin ⊢
  rcases outcome with ⟨e | _ | ⟨result, cache⟩, s₁⟩
  · exact hwithin
  · exact hwithin
  · exact hwithin.trans (quiet_modifyBinding ..)

theorem quiet_outcome (s : Session) (b : Binding) (job : Job) :
    Quiet s (s.outcome b job).2 := by
  rw [outcome]
  split
  · exact quiet_perform ..
  · exact quiet_within ..
  · split <;> exact .refl s
  · exact .refl s

theorem unguarded_eq_none_iff {α : Type} (write : α → Json) (found : Except Fault α) :
    unguarded write found = none ↔ LanguageServer.breaksOff found = true := by
  rcases found with (_ | _) | _ <;> simp [unguarded, LanguageServer.breaksOff]

theorem workspaceSymbols_run (w : Workspace) (project : Nat) (pattern : Text) (limit : Nat)
    (cancelled : Bool) :
    (Workspace.workspaceSymbols project pattern limit cancelled).run w =
      ((match w.project? project with
        | none => .ok []
        | some p => w.capabilities.workspaceSymbols p.toSources pattern limit cancelled),
        ((Workspace.note (.workspaceSymbols pattern limit)).run w).2) := by
  have hnote : ((Workspace.note (.workspaceSymbols pattern limit)).run w).2.project? project
      = w.project? project := rfl
  have hrun : (Workspace.note (.workspaceSymbols pattern limit)).run w
      = pure ((), ((Workspace.note (.workspaceSymbols pattern limit)).run w).2) := rfl
  simp only [Workspace.workspaceSymbols, StateT.run_bind, StateT.run_get]
  rw [hrun, pure_bind, pure_bind, hnote]
  rcases w.project? project with _ | p <;> rfl

theorem searchSymbols_breaksOff (w : Workspace) (project : Nat) (query : Text) (limit : Nat)
    (cancelled : Bool) :
    LanguageServer.breaksOff ((searchSymbols project query limit cancelled).run w).1 =
      match w.project? project with
      | some p =>
        !w.capabilities.isIndexing && w.capabilities.runsUnits &&
          LanguageServer.breaksOff (w.capabilities.workspaceSymbols p.toSources
            (if query.isEmpty then ['*'] else query) limit cancelled)
      | none => false := by
  simp only [searchSymbols, StateT.run_bind, StateT.run_get, pure_bind]
  cases hready : (w.capabilities.isIndexing || !w.capabilities.runsUnits) with
  | true =>
      rw [Bool.or_eq_true, Bool.not_eq_true'] at hready
      rcases hready with hready | hready
      · cases w.project? project <;> simp [hready] <;> rfl
      · cases w.project? project <;> simp [hready] <;> rfl
  | false =>
      rw [Bool.or_eq_false_iff, Bool.not_eq_false'] at hready
      simp only [Bool.false_eq_true, if_false, StateT.run_bind, workspaceSymbols_run, hready.1,
        hready.2, Bool.not_false, Bool.true_and]
      cases w.project? project with
      | none => cases cancelled <;> rfl
      | some p =>
          dsimp only
          cases w.capabilities.workspaceSymbols p.toSources
            (if query.isEmpty then ['*'] else query) limit cancelled with
          | error fault => cases fault <;> rfl
          | ok found => cases cancelled <;> rfl

theorem outcome_eq_none_iff {b : Binding} {job : Job}
    (hb : s.bindings[job.binding]? = some b) :
    (s.outcome b job).1 = none ↔ s.breaksOff job = true := by
  unfold outcome breaksOff
  rw [hb]
  cases job.question with
  | about uri position command => exact ⟨nofun, nofun⟩
  | symbols query =>
      dsimp only
      rw [unguarded_eq_none_iff]
      exact iff_of_eq (congrArg (· = true) (searchSymbols_breaksOff s.workspace b.project query
        s.symbolLimit job.cancelled))
  | resolveItem item =>
      cases hcancelled : job.cancelled <;> cases hbegun : job.begun <;>
        simp [unguarded_eq_none_iff]
  | answered result => exact ⟨nofun, nofun⟩

@[simp] theorem ofOutcome_id (id : RequestId) (result : Except CommandError Json) :
    (Response.ofOutcome id result).id = id := by
  cases result <;> rfl

/-- The requests that break off when the one that has waited longest is worked on. -/
def lostNext (s : Session) : List RequestId :=
  match s.queue with
  | [] => []
  | job :: _ => if s.breaksOff job then [job.id] else []

theorem takes_workNext (hs : s.Live) :
    s.workNext.Live ∧ ∀ id,
      s.workNext.answered id + s.workNext.pending id + s.lostNext.count id
        = s.answered id + s.pending id := by
  cases hqueue : s.queue with
  | nil =>
      have hidle : s.workNext = s := by rw [workNext, hqueue]
      rw [hidle, lostNext, hqueue]
      exact ⟨hs, fun id => rfl⟩
  | cons job rest =>
      have hjob := hs.queue job (hqueue ▸ List.mem_cons_self)
      -- The job has left the queue before it is worked on, so it is counted by itself.
      let taken : Session := { s with queue := rest }
      have htaken : taken.Live :=
        ⟨hs.connected, fun job hrest => hs.queue job (hqueue ▸ List.mem_cons_of_mem _ hrest),
          hs.current⟩
      have hpending : ∀ id, s.pending id = taken.pending id + [job.id].count id := by
        intro id
        rw [pending, hqueue, List.map_cons, List.count_cons]
        simp [taken, pending, List.count_singleton]
      have hb : taken.bindings[job.binding]? = some s.bindings[job.binding] :=
        List.getElem?_eq_getElem hjob
      have hoff := outcome_eq_none_iff hb
      have hquiet := quiet_outcome taken s.bindings[job.binding] job
      have hlost : s.lostNext = if taken.breaksOff job then [job.id] else [] := by
        rw [lostNext, hqueue]
        rfl
      have hnext : s.workNext = taken.runJob job := by rw [workNext, hqueue]
      rw [hnext, hlost, runJob, hb]
      dsimp only
      generalize taken.outcome s.bindings[job.binding] job = outcome at hoff hquiet ⊢
      rcases outcome with ⟨_ | result, s₁⟩
      · rw [if_pos (hoff.1 rfl)]
        refine ⟨hquiet.live htaken, fun id => ?_⟩
        rw [hquiet.answered, hquiet.pending, hpending id]
        exact Nat.add_assoc ..
      · have hanswered := takes_respond htaken (hquiet.trans (quiet_modifyBinding s₁ job.binding
          (·.forget job.id))) (.ofOutcome job.id result)
        rw [if_neg fun h => nomatch hoff.2 h]
        refine ⟨hanswered.live, fun id => ?_⟩
        have hcount := hanswered.count id
        rw [ofOutcome_id] at hcount
        rw [hcount, hpending id, List.count_nil]
        exact (Nat.add_zero _).trans (Nat.add_assoc ..)

/-- The work on a request about a file breaks off: the workspace does when it is asked whether the
file may be opened, or the query of the command does once the file is open. -/
inductive PanicsWith (s : Session) (job : Job) (reason : Text) : Prop
  | opening {b : Binding} {uri : Text} {position : Option Position} {command : Command}
      (hb : s.bindings[job.binding]? = some b) (hactive : job.cancelled = false)
      (hquestion : job.question = .about uri position command)
      (hopens : s.workspace.capabilities.opensEditor (.ofUri uri) = .error (.panic reason))
  | executing {b : Binding} {uri : Text} {position : Option Position} {command : Command}
      {sources : Sources} {context : Context}
      (hb : s.bindings[job.binding]? = some b) (hactive : job.cancelled = false)
      (hquestion : job.question = .about uri position command)
      (henter : ((workOf b job uri position command).enter.run s.workspace).1
        = .ok (some (sources, context)))
      (hexecute : command.execute s.workspace.capabilities sources b.cache context
        = .error (.panic reason))

theorem work_run {α : Type} {work : Work} (hactive : work.cancellation ≠ .before)
    (query : Sources → Context → Except Fault α) (w : Workspace) :
    ((work.run true query).run w).1 =
      match (work.enter.run w).1 with
      | .error fault => .error (.ofFault fault)
      | .ok none => .ok none
      | .ok (some (sources, context)) =>
        match query sources context with
        | .error fault => .error (.ofFault fault)
        | .ok result => if context.cancelled then .error .cancelled else .ok (some result) := by
  simp only [Work.run, Bool.not_true, Bool.false_eq_true, if_false, if_neg hactive,
    StateT.run_bind]
  have henter : work.enter.run w = pure ((work.enter.run w).1, (work.enter.run w).2) := rfl
  rw [henter, pure_bind]
  rcases (work.enter.run w).1 with _ | _ | ⟨sources, context⟩
  · rfl
  · rfl
  · dsimp only
    cases query sources context <;> rfl

theorem enter_of_opensEditor (work : Work) {w : Workspace} {fault : Fault}
    (hopens : w.capabilities.opensEditor work.key = .error fault) :
    (work.enter.run w).1 = .error fault := by
  have hrun : (Workspace.openEditor work.project work.key).run w = pure (.error fault, w) := by
    rw [Workspace.openEditor_run, hopens]
    rfl
  simp only [Work.enter, StateT.run_bind]
  rw [hrun, pure_bind]
  rfl

theorem outcome_of_panicsWith {job : Job} {reason : Text} (h : PanicsWith s job reason) :
    ∃ b, s.bindings[job.binding]? = some b ∧
      (s.outcome b job).1 = some (.error (.workspace (.panicked reason))) := by
  have hperform : ∀ {b : Binding} {uri : Text} {position : Option Position} {command : Command},
      job.question = .about uri position command →
      (((workOf b job uri position command).run true fun sources =>
        command.execute s.workspace.capabilities sources b.cache).run s.workspace).1
          = .error (.workspace (.panicked reason)) →
      (s.outcome b job).1 = some (.error (.workspace (.panicked reason))) := by
    intro b uri position command hquestion hrun
    have hwithin : (s.within b.documents
        ((workOf b job uri position command).run true fun sources =>
          command.execute s.workspace.capabilities sources b.cache)).1
            = .error (.workspace (.panicked reason)) := hrun
    simp only [outcome, hquestion, perform]
    generalize s.within b.documents _ = outcome at hwithin ⊢
    obtain ⟨result, s₁⟩ := outcome
    cases hwithin
    rfl
  cases h with
  | @opening b uri position command hb hactive hquestion hopens =>
      refine ⟨b, hb, hperform hquestion ?_⟩
      have henter := enter_of_opensEditor (workOf b job uri position command) hopens
      rw [work_run (by simp [workOf, hactive]), henter]
      rfl
  | executing hb hactive hquestion henter hexecute =>
      refine ⟨_, hb, hperform hquestion ?_⟩
      rw [work_run (by simp [workOf, hactive]), henter]
      dsimp only
      rw [hexecute]
      rfl

/-- The outcome of the work is the last thing that is sent. -/
theorem sent_workNext (hs : s.Live) {job : Job} {rest : List Job} (hqueue : s.queue = job :: rest)
    {b : Binding} (hb : s.bindings[job.binding]? = some b) {result : Except CommandError Json}
    (houtcome : (outcome { s with queue := rest } b job).1 = some result) :
    s.workNext.client.sent.getLast? = some (.response (.ofOutcome job.id result)) := by
  have hconnected := (quiet_outcome { s with queue := rest } b job).client.connected
  rw [workNext, hqueue]
  dsimp only
  rw [runJob, hb]
  dsimp only
  generalize outcome _ b job = outcome at houtcome hconnected ⊢
  obtain ⟨_, s₁⟩ := outcome
  cases houtcome
  dsimp only
  have hsent := Client.sent_respond (c := s₁.client) (hconnected.trans hs.connected)
    (.ofOutcome job.id result)
  exact (congrArg List.getLast? hsent).trans List.getLast?_concat

theorem workNext_of_panicsWith (hs : s.Live) {job : Job} {rest : List Job}
    (hqueue : s.queue = job :: rest) {reason : Text} (h : PanicsWith s job reason) :
    s.workNext.client.sent.getLast? = some (.response
      (.failure job.id .requestFailed ("backend panicked: ".toList ++ reason))) := by
  have htaken : PanicsWith { s with queue := rest } job reason := by
    cases h with
    | opening hb hactive hquestion hopens => exact .opening hb hactive hquestion hopens
    | executing hb hactive hquestion henter hexecute =>
        exact .executing hb hactive hquestion henter hexecute
  obtain ⟨b, hb, houtcome⟩ := outcome_of_panicsWith htaken
  exact sent_workNext hs hqueue hb houtcome

/-! ### Runs -/

/-- What happens to a session: it takes a step, someone begins with a request, it ends, or the
workspace is another one from then on, with other answers to the queries as well. -/
inductive Turn
  | step (next : Step)
  | begin
  | finish
  | elsewhere (w : Workspace)

/-- Goes on with a turn. -/
def turn (s : Session) : Turn → Session
  | .step next => (s.step next).2
  | .begin => s.beginNext
  | .finish => s.finish
  | .elsewhere w => { s with workspace := w }

/-- Goes on with some turns. -/
def after (s : Session) (turns : List Turn) : Session := turns.foldl turn s

/-- The requests that arrive with a turn. -/
def Turn.asked : Turn → List RequestId
  | .step (.message (.request r)) => [r.id]
  | _ => []

/-- The requests that break off with a turn. -/
def lostWith (s : Session) : Turn → List RequestId
  | .step .work => s.lostNext
  | _ => []

/-- The requests that break off with some turns. -/
def lost (s : Session) : List Turn → List RequestId
  | [] => []
  | t :: turns => s.lostWith t ++ (s.turn t).lost turns

/-- With every turn the requests that have been answered, that wait and that broke off grow by those
that have arrived. -/
theorem takes_turn (hs : s.Live) (t : Turn) :
    (s.turn t).Live ∧ ∀ id,
      (s.turn t).answered id + (s.turn t).pending id + (s.lostWith t).count id
        = s.answered id + s.pending id + t.asked.count id := by
  rcases t with (m | _) | _ | _ | w
  · have htakes := takes_handle hs m
    refine ⟨htakes.live, fun id => ?_⟩
    cases m <;> exact htakes.count id
  · exact takes_workNext hs
  · have htakes := (quiet_beginNext s).takes hs
    exact ⟨htakes.live, htakes.count⟩
  · have htakes := (quiet_finish s).takes hs
    exact ⟨htakes.live, htakes.count⟩
  · exact ⟨⟨hs.connected, hs.queue, hs.current⟩, fun id => rfl⟩

theorem takes_after (hs : s.Live) (turns : List Turn) :
    (s.after turns).Live ∧ ∀ id,
      (s.after turns).answered id + (s.after turns).pending id + (s.lost turns).count id
        = s.answered id + s.pending id + (turns.flatMap Turn.asked).count id := by
  induction turns generalizing s with
  | nil => exact ⟨hs, fun id => rfl⟩
  | cons t turns ih =>
      obtain ⟨hlive, hturn⟩ := takes_turn hs t
      obtain ⟨hafter, hrest⟩ := ih hlive
      refine ⟨hafter, fun id => ?_⟩
      have hfirst := hturn id
      have hlast := hrest id
      rw [lost, List.flatMap_cons, List.count_append, List.count_append]
      have hafter : s.after (t :: turns) = (s.turn t).after turns := rfl
      rw [hafter]
      omega

theorem live_session (service : Service) : service.session.Live :=
  ⟨rfl, nofun, nofun⟩

/-- Once nothing waits any more, each request has been answered exactly once, except for those that
broke off, which are never answered, and nothing else has been answered. A request about a file
whose work breaks off is answered with an error at once. -/
theorem answered_once_unless_lost (service : Service) (turns : List Turn)
    (hdistinct : (turns.flatMap Turn.asked).Nodup)
    (hidle : (service.session.after turns).queue = []) :
    (∀ id, (service.session.after turns).answered id =
      if id ∈ turns.flatMap Turn.asked ∧ id ∉ service.session.lost turns then 1 else 0) ∧
    ∀ before, before <+: turns →
      let s := service.session.after before
      ∀ (job : Job) (rest : List Job) (reason : Text), s.queue = job :: rest →
        PanicsWith s job reason →
        s.workNext.client.sent.getLast? = some (.response
          (.failure job.id .requestFailed ("backend panicked: ".toList ++ reason))) := by
  obtain ⟨-, hcount⟩ := takes_after (live_session service) turns
  constructor
  · intro id
    have hid := hcount id
    have hasked := List.nodup_iff_count_le_one.1 hdistinct id
    have hnone : (service.session.after turns).pending id = 0 := by
      rw [pending, hidle]
      rfl
    have hstart : service.session.answered id = 0 ∧ service.session.pending id = 0 := ⟨rfl, rfl⟩
    have hmem := List.count_pos_iff (a := id) (l := turns.flatMap Turn.asked)
    have hlost := List.count_pos_iff (a := id) (l := service.session.lost turns)
    split
    · next h =>
        have hpos := hmem.2 h.1
        have hzero : (service.session.lost turns).count id = 0 := List.count_eq_zero.2 h.2
        omega
    · next h =>
        by_cases hin : id ∈ turns.flatMap Turn.asked
        · have hpos := hlost.2 (not_not.1 fun hnot => h ⟨hin, hnot⟩)
          omega
        · have hzero : (turns.flatMap Turn.asked).count id = 0 := List.count_eq_zero.2 hin
          omega
  · intro before _ s job rest reason hqueue hpanics
    exact workNext_of_panicsWith (takes_after (live_session service) before).1 hqueue hpanics

/-- A client opens a project and asks what is known about a word and for symbols. From then on the
workspace breaks off when it is asked for symbols or whether a file may be opened. -/
def askedBeforeBreaking : List Turn :=
  let folder : Json := .obj [("name", .ofString "p"), ("uri", .str Workspace.sampleRoot)]
  let place : Json := .obj [("textDocument", .obj [("uri", .str Workspace.sampleUri)]),
    ("position", .obj [("line", .nat 0), ("character", .nat 1)])]
  [.step (.message (.request ⟨.number 1, "initialize".toList,
      .obj [("capabilities", .obj []), ("workspaceFolders", .arr [folder])]⟩)),
    .step (.message (.request ⟨.number 2, "textDocument/hover".toList, place⟩)),
    .step (.message (.request ⟨.number 3, "workspace/symbol".toList,
      .obj [("query", .ofString "one")]⟩)),
    .elsewhere { Workspace.sample with
      capabilities := { Capabilities.standard with
        opensEditor := fun _ => .error (.panic "boom".toList)
        workspaceSymbols := fun _ _ _ _ => .error (.panic "boom".toList) } },
    .step .work, .step .work]

/-- Whether the hover of that client is worked on next. -/
def hoverIsNext (s : Session) : Bool :=
  match s.queue with
  | ⟨_, 0, .number 2, .about .., false, _⟩ :: _ => true
  | _ => false

/-- The request about a file is answered with an error, the search for symbols not at all. -/
theorem symbols_lost_hover_answered :
    let session := ({ workspace := { disk := Workspace.sampleDisk } } : Service).session
    (askedBeforeBreaking.flatMap Turn.asked).Nodup ∧
      (session.after askedBeforeBreaking).queue = [] ∧
      (session.after askedBeforeBreaking).answered (.number 1) = 1 ∧
      (session.after askedBeforeBreaking).answered (.number 2) = 1 ∧
      (session.after askedBeforeBreaking).answered (.number 3) = 0 ∧
      (session.after (askedBeforeBreaking.take 4)).workNext.client.sent.getLast?
        = some (.response (.failure (.number 2) .requestFailed
          ("backend panicked: ".toList ++ "boom".toList))) := by
  intro session
  have hdistinct : (askedBeforeBreaking.flatMap Turn.asked).Nodup := by decide +kernel
  have hidle : (session.after askedBeforeBreaking).queue = [] :=
    List.eq_nil_of_length_eq_zero (by decide +kernel)
  obtain ⟨hanswers, hpanics⟩ := answered_once_unless_lost _ askedBeforeBreaking hdistinct hidle
  refine ⟨hdistinct, hidle, ?_, ?_, ?_, ?_⟩
  · rw [hanswers, if_pos (by decide +kernel)]
  · rw [hanswers, if_pos (by decide +kernel)]
  · rw [hanswers, if_neg (by decide +kernel)]
  · have hpanic := hpanics (askedBeforeBreaking.take 4) (List.take_prefix 4 askedBeforeBreaking)
    have hfirst : (session.after (askedBeforeBreaking.take 4)).hoverIsNext = true := by
      decide +kernel
    have hbinding : 0 < (session.after (askedBeforeBreaking.take 4)).bindings.length := by
      decide +kernel
    have hopens : ∀ key,
        (session.after (askedBeforeBreaking.take 4)).workspace.capabilities.opensEditor key
          = .error (.panic "boom".toList) := fun _ => rfl
    generalize session.after (askedBeforeBreaking.take 4) = s at *
    dsimp only at hpanic
    rw [hoverIsNext] at hfirst
    split at hfirst
    · next ticket uri position command begun rest hqueue =>
        exact hpanic _ rest _ hqueue (.opening (List.getElem?_eq_getElem hbinding) rfl rfl
          (hopens _))
    · cases hfirst

end Session

end LanguageServer
