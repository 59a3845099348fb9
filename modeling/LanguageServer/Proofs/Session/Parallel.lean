import LanguageServer.Proofs.Session.Cancellation
import LanguageServer.Proofs.Session.Completions
import LanguageServer.Proofs.Session.Counterparts

/-!
# Steps with some requests left out

What both of two sessions do, they come out of as counterparts (`Session.Counterparts`). What only
the first one does for a request that is left out goes unnoticed in the second one.
-/

namespace LanguageServer

namespace Workspace

/-! ### More steps in both workspaces -/

theorem events_subscribe (w : Workspace) (id : Nat) (listener : Listener) :
    ((subscribe id listener).run w).2.events = w.events := by
  simp only [subscribe, StateT.run_bind, StateT.run_get, pure_bind]
  cases w.project? id <;> rfl

theorem events_subscriptions (w : Workspace) (id : Nat) :
    ((Session.subscriptions id).run w).2.events = w.events := by
  have hmapM : ∀ (listeners : List Listener) w,
      ((listeners.mapM (subscribe id)).run w).2.events = w.events := by
    intro listeners
    induction listeners with
    | nil => exact fun w => rfl
    | cons listener listeners ih =>
        intro w
        rw [List.mapM_cons]
        exact (ih _).trans (events_subscribe w id listener)
  exact hmapM _ w

theorem events_resolveProject (w : Workspace) (root : FileKey) :
    ((resolveProject root).run w).2.events = w.events := by
  rw [resolveProject_run]
  split
  · split <;> rfl
  · rfl
  · rfl

theorem matched_forceClose (id : Nat) :
    Matched (fun _ _ => True) (Session.forceClose id) (Session.forceClose id) := by
  intro w w' h
  have hclosed : Alike (((w.openFiles id).forM (closeEditor id)).run w).2
      (((w'.openFiles id).forM (closeEditor id)).run w').2 := by
    refine h.closeEditors fun key hkey => ?_
    obtain ⟨e', he'⟩ := Option.isSome_iff_exists.1 hkey
    obtain ⟨e, he, -⟩ := h.editor?_some he'
    rw [mem_openFiles, mem_openFiles, he, he']
    rfl
  exact matched_closeProject id hclosed

theorem events_forceClose (w : Workspace) (id : Nat) :
    ((Session.forceClose id).run w).2.events = w.events :=
  (events_closeProject _ id).trans (events_forM (fun key w => events_closeEditor w id key) _ w)

end Workspace

namespace Session

open Workspace (Matched Alike)

variable {W : Workspace → Workspace → Prop} {out : RequestId → Bool} {number : Nat → Option Nat}
  {s s' : Session} {i : Nat}

/-! ### Requests that are begun with -/

/-- Unless the next one is left out, the same request comes next under the other tickets. -/
theorem beginFirst_renumber {jobs : List Job}
    (h : ∀ job, jobs.find? isIdle = some job → number job.ticket ≠ none) :
    beginFirst (jobs.filterMap (Job.renumber number))
      = (beginFirst jobs).filterMap (Job.renumber number) := by
  induction jobs with
  | nil => rfl
  | cons job rest ih =>
      rw [List.find?_cons] at h
      cases hjob : isIdle job with
      | true =>
          rw [hjob] at h
          obtain ⟨n, hn⟩ := Option.ne_none_iff_exists'.1 (h job rfl)
          have hcopy : isIdle { job with ticket := n } = true := hjob
          have hbegun : Job.renumber number { job with begun := true }
              = some { job with begun := true, ticket := n } := Job.renumber_of_some hn
          rw [List.filterMap_cons_some (Job.renumber_of_some hn), beginFirst_cons, if_pos hcopy,
            beginFirst_cons, if_pos hjob, List.filterMap_cons_some hbegun]
      | false =>
          rw [hjob] at h
          have hrest := ih h
          rw [beginFirst_cons job, if_neg (by rw [hjob]; exact Bool.false_ne_true)]
          cases hn : number job.ticket with
          | none =>
              have hnone := Job.renumber_of_none hn
              rw [List.filterMap_cons_none hnone, List.filterMap_cons_none hnone, hrest]
          | some n =>
              have hsome := Job.renumber_of_some hn
              have hcopy : ¬ isIdle { job with ticket := n } = true := by
                rw [show isIdle { job with ticket := n } = false from hjob]
                exact Bool.false_ne_true
              rw [List.filterMap_cons_some hsome, List.filterMap_cons_some hsome, beginFirst_cons,
                if_neg hcopy, hrest]

/-- Beginning with a request that is left out changes nothing under the other tickets. -/
theorem renumber_beginFirst {jobs : List Job} {job : Job} (h : jobs.find? isIdle = some job)
    (hnone : number job.ticket = none) :
    (beginFirst jobs).filterMap (Job.renumber number)
      = jobs.filterMap (Job.renumber number) := by
  induction jobs with
  | nil => cases h
  | cons first rest ih =>
      rw [List.find?_cons] at h
      rw [beginFirst_cons]
      cases hfirst : isIdle first with
      | true =>
          rw [hfirst] at h
          cases h
          have hbegun : Job.renumber number { job with begun := true } = none :=
            Job.renumber_of_none hnone
          rw [if_pos rfl, List.filterMap_cons_none hbegun,
            List.filterMap_cons_none (Job.renumber_of_none hnone)]
      | false =>
          rw [hfirst] at h
          rw [if_neg Bool.false_ne_true, List.filterMap_cons, List.filterMap_cons, ih h]

namespace Counterparts

/-! ### Requests that arrive -/

/-- Another request waits. -/
theorem wait (h : Counterparts W out number s s') (job : Job)
    (hissued : Issued out number s.issued job.id job.ticket) (hplaced : job.question.IsPlaced)
    (hquery : out job.id = true → job.question.IsQuery) :
    Counterparts W out number { s with queue := s.queue ++ [job] }
      { s' with queue := s'.queue ++ (job.renumber number).toList } := by
  refine { h with queue := ?_, jobs := ?_, placed := ?_, queries := ?_ }
  · rw [h.queue, List.filterMap_append]
    cases hjob : job.renumber number <;> simp [hjob]
  · exact List.forall_mem_append.2 ⟨h.jobs, List.forall_mem_singleton.2 hissued⟩
  · exact List.forall_mem_append.2 ⟨h.placed, List.forall_mem_singleton.2 hplaced⟩
  · exact List.forall_mem_append.2 ⟨h.queries, List.forall_mem_singleton.2 hquery⟩

/-- Both issue a ticket. -/
theorem issue (h : Counterparts W out number s s') :
    Counterparts W out number { s with issued := s.issued + 1 }
      { s' with issued := s'.issued + 1 } := by
  have hmono : ∀ {id ticket}, Issued out number s.issued id ticket →
      Issued out number (s.issued + 1) id ticket := fun hissued =>
    ⟨Nat.lt_succ_of_lt hissued.lt, hissued.number_eq_none⟩
  refine { h with fresh := fun n => ?_, tickets := ?_, jobs := ?_ }
  · rw [Nat.add_right_comm, Nat.add_right_comm s'.issued]
    exact h.fresh (n + 1)
  · exact fun i b hb t ht => hmono (h.tickets i b hb t ht)
  · exact fun job hjob => hmono (h.jobs job hjob)

theorem enqueue (h : Counterparts W out number s s') (i : Nat) {id : RequestId}
    (hid : out id = false) {question : Question} (hplaced : question.IsPlaced) :
    Counterparts W out number (s.enqueue i id question) (s'.enqueue i id question) := by
  have hnumber : number s.issued = some s'.issued := h.fresh 0
  have hissued : Issued out number (s.issued + 1) id s.issued :=
    ⟨Nat.lt_succ_self _, by rw [hnumber, hid]; simp⟩
  have hregistered : Counterparts W out number
      ({ s with issued := s.issued + 1 }.modifyBinding i (·.register id s.issued))
      ({ s' with issued := s'.issued + 1 }.modifyBinding i (·.register id s'.issued)) := by
    refine h.issue.modifyBinding i (fun b _ => b.renumber_register id hnumber) fun b hb t ht => ?_
    rcases List.mem_append.1 ht with ht | ht
    · exact h.issue.tickets i b hb t (List.mem_of_mem_filter ht)
    · rw [List.mem_singleton.1 ht]
      exact hissued
  have hwaits := hregistered.wait ⟨s.issued, i, id, question, false, false⟩ hissued hplaced
    fun hout => absurd (hid.symm.trans hout) Bool.false_ne_true
  rw [Job.renumber, hnumber] at hwaits
  exact hwaits

/-- The numbers of tickets once one without a number has been issued. -/
def skip (number : Nat → Option Nat) (issued ticket : Nat) : Option Nat :=
  if ticket < issued then number ticket
  else if ticket = issued then none
  else number (ticket - 1)

theorem issue_left (h : Counterparts W out number s s') :
    Counterparts W out (skip number s.issued) { s with issued := s.issued + 1 } s' := by
  have hold : ∀ {id ticket}, Issued out number s.issued id ticket →
      skip number s.issued ticket = number ticket := fun hissued => if_pos hissued.lt
  have hmono : ∀ {id ticket}, Issued out number s.issued id ticket →
      Issued out (skip number s.issued) (s.issued + 1) id ticket := fun hissued =>
    ⟨Nat.lt_succ_of_lt hissued.lt, by rw [hold hissued, hissued.number_eq_none]⟩
  refine { h with
    bindings := ?_, queue := ?_, fresh := fun n => ?_, injective := ?_, tickets := ?_, jobs := ?_ }
  · rw [h.bindings]
    refine List.map_congr_left fun b hb => ?_
    obtain ⟨i, hi⟩ := List.getElem?_of_mem hb
    rw [Binding.renumber, Binding.renumber]
    congr 1
    exact List.filterMap_congr fun t ht => by rw [hold (h.tickets i b hi t ht)]
  · rw [h.queue]
    exact List.filterMap_congr fun job hjob => by
      rw [Job.renumber, Job.renumber, hold (h.jobs job hjob)]
  · have hnext : skip number s.issued (s.issued + 1 + n) = number (s.issued + n) := by
      rw [skip, if_neg (by omega), if_neg (by omega)]
      congr 1
      omega
    exact hnext.trans (h.fresh n)
  · intro t u n ht hu
    simp only [skip] at ht hu
    split at ht <;> split at hu
    · exact h.injective t u n ht hu
    · split at hu
      · cases hu
      · have htu := h.injective t (u - 1) n ht hu
        omega
    · split at ht
      · cases ht
      · have htu := h.injective (t - 1) u n ht hu
        omega
    · split at ht
      · cases ht
      · split at hu
        · cases hu
        · have htu := h.injective (t - 1) (u - 1) n ht hu
          omega
  · exact fun i b hb t ht => hmono (h.tickets i b hb t ht)
  · exact fun job hjob => hmono (h.jobs job hjob)

/-- A request that is left out arrives. -/
theorem enqueue_left (h : Counterparts W out number s s') (i : Nat) {id : RequestId}
    (hid : out id = true) {question : Question} (hplaced : question.IsPlaced)
    (hquery : question.IsQuery) :
    Counterparts W out (skip number s.issued) (s.enqueue i id question) s' := by
  have hnumber : skip number s.issued s.issued = none := by
    rw [skip, if_neg (Nat.lt_irrefl _), if_pos rfl]
  have hissued : Issued out (skip number s.issued) (s.issued + 1) id s.issued :=
    ⟨Nat.lt_succ_self _, iff_of_true hnumber hid⟩
  have hissue := h.issue_left
  have hregistered : Counterparts W out (skip number s.issued)
      ({ s with issued := s.issued + 1 }.modifyBinding i (·.register id s.issued)) s' := by
    refine hissue.modifyBinding_left i (fun b hb => ?_) fun b hb t ht => ?_
    · exact b.renumber_register_of_none hnumber fun t ht htid =>
        (hissue.tickets i b hb t ht).number_eq_none.2 (htid ▸ hid)
    · rcases List.mem_append.1 ht with ht | ht
      · exact hissue.tickets i b hb t (List.mem_of_mem_filter ht)
      · rw [List.mem_singleton.1 ht]
        exact hissued
  have hwaits := hregistered.wait ⟨s.issued, i, id, question, false, false⟩ hissued hplaced
    fun _ => hquery
  rw [Job.renumber, hnumber, Option.map_none, Option.toList_none, List.append_nil] at hwaits
  exact hwaits

theorem ask (h : Counterparts W out number s s') (i : Nat) {r : Request}
    (hr : out r.id = false) : Counterparts W out number (s.ask i r) (s'.ask i r) := by
  rw [Session.ask, Session.ask]
  cases hquestion : Question.ofRequest r with
  | error refusal => exact h.refuse ..
  | ok question =>
      have hplaced := (Question.fits_ofRequest hquestion).placed
      cases question with
      | answered result => exact h.respond _
      | about uri position command => exact h.enqueue i hr hplaced
      | symbols query => exact h.enqueue i hr hplaced
      | resolveItem item => exact h.enqueue i hr hplaced

theorem ask_left (h : Counterparts W out number s s') (i : Nat) {r : Request}
    (hr : out r.id = true) (hquery : r.IsQuery) :
    ∃ number', Counterparts W out number' (s.ask i r) s' := by
  rw [Session.ask]
  cases hquestion : Question.ofRequest r with
  | error refusal => exact ⟨number, h.respond_left hr⟩
  | ok question =>
      have hfits := Question.fits_ofRequest hquestion
      cases question with
      | answered result => exact ⟨number, h.respond_left hr⟩
      | about uri position command =>
          exact ⟨_, h.enqueue_left i hr hfits.placed (hfits.query hquery)⟩
      | symbols query => exact ⟨_, h.enqueue_left i hr hfits.placed (hfits.query hquery)⟩
      | resolveItem item => exact ⟨_, h.enqueue_left i hr hfits.placed (hfits.query hquery)⟩

/-- A query arrives that is left out. -/
theorem handleRequest_left (h : Counterparts W out number s s') {r : Request}
    (hr : out r.id = true) (hquery : r.IsQuery) :
    ∃ number', Counterparts W out number' (s.handleRequest r).2 s' := by
  have hmethod : ∀ {method : String}, method ∉ queryMethods → r.method ≠ method.toList := by
    intro method hmethod heq
    refine hmethod ?_
    rw [Request.IsQuery, heq, String.ofList_toList] at hquery
    exact hquery
  rw [handleRequest_of_other (hmethod (by decide)) (hmethod (by decide))]
  split
  · exact ⟨number, h.respond_left hr⟩
  · exact ⟨number, h.respond_left hr⟩
  · exact ⟨number, h.respond_left hr⟩
  · exact ⟨number, h.respond_left hr⟩
  · exact h.ask_left _ hr hquery

/-! ### Notifications and responses -/

theorem withDocuments (h : Counterparts Alike out number s s') (i : Nat) (seen : Documents)
    {steps : WorkspaceM (Except DocumentError Unit × Documents)} (hsteps : Matched Eq steps steps) :
    Counterparts Alike out number (s.withDocuments i seen steps)
      (s'.withDocuments i seen steps) := by
  obtain ⟨hresult, hwithin⟩ := h.within seen hsteps
  rw [Session.withDocuments, Session.withDocuments]
  generalize s.within seen steps = outcome at hresult hwithin ⊢
  generalize s'.within seen steps = outcome' at hresult hwithin ⊢
  obtain ⟨result, s₁⟩ := outcome
  obtain ⟨result', s₁'⟩ := outcome'
  obtain rfl : result = result' := hresult
  exact hwithin.setDocuments i result.2

theorem announceIndexing (h : Counterparts Alike out number s s') :
    Counterparts Alike out number s.announceIndexing s'.announceIndexing := by
  rw [Session.announceIndexing, Session.announceIndexing, h.workspace.standard,
    h.workspace.standard']
  split
  · exact h.ofClient (h.client.notify ..)
  · exact h

theorem didRename (h : Counterparts Alike out number s s') (docs : Documents) (uris : List Text) :
    Counterparts Alike out number (s.didRename docs uris) (s'.didRename docs uris) := by
  refine (h.within docs (Matched.forM (fun uri => ?_) uris)).2
  exact fun w w' hw => ⟨trivial, (Workspace.matched_refresh docs.project (.ofUri uri) hw).2⟩

theorem notified (h : Counterparts Alike out number s s') (i : Nat) (docs : Documents)
    (n : Notification) :
    Counterparts Alike out number (s.notified i docs n) (s'.notified i docs n) := by
  unfold Session.notified
  split
  · cases Params.opened? n.params with
    | none => exact h
    | some d =>
        exact (h.withDocuments i docs (docs.matched_start d.uri d.text d.version)).announceIndexing
  · cases Params.changed? n.params with
    | none => exact h
    | some d => exact h.withDocuments i docs (docs.matched_update d.uri d.version d.changes)
  · cases Params.saved? n.params with
    | none => exact h
    | some uri => exact h.withDocuments i _ (docs.matched_sync uri)
  · cases Params.closed? n.params with
    | none => exact h
    | some uri => exact h.withDocuments i docs (docs.matched_stop uri)
  · cases Params.renamed? n.params with
    | none => exact h
    | some uris => exact h.didRename docs uris
  · exact h

theorem handleNotification (h : Counterparts Alike out number s s') (n : Notification) :
    (s.handleNotification n).1 = (s'.handleNotification n).1 ∧
      Counterparts Alike out number (s.handleNotification n).2 (s'.handleNotification n).2 := by
  rw [Session.handleNotification, Session.handleNotification]
  split
  · exact ⟨rfl, h⟩
  · split
    · cases Params.cancelled? n.params with
      | none => exact ⟨rfl, h⟩
      | some id => exact ⟨rfl, h.cancel id⟩
    · split
      · exact ⟨rfl, h⟩
      · rw [← h.phase, ← h.current, h.binding?]
        cases s.phase
        case serving =>
          cases s.current with
          | none => exact ⟨rfl, h⟩
          | some i =>
              cases s.binding? with
              | none => exact ⟨rfl, h⟩
              | some b => exact ⟨rfl, h.notified i b.documents n⟩
        all_goals exact ⟨rfl, h⟩

theorem handleResponse (h : Counterparts W out number s s') (r : Response) :
    Counterparts W out number (s.handleResponse r) (s'.handleResponse r) := by
  obtain ⟨hrouted, hclient⟩ := h.client.route r
  rw [Session.handleResponse, Session.handleResponse]
  generalize s.client.route r = outcome at hrouted hclient ⊢
  generalize s'.client.route r = outcome' at hrouted hclient ⊢
  obtain ⟨found, c⟩ := outcome
  obtain ⟨found', c'⟩ := outcome'
  obtain rfl : found = found' := hrouted
  cases found with
  | false => exact h
  | true => exact (h.ofClient hclient).modifyProgress fun p => p.alike_answered r.id

/-! ### Work that both do -/

theorem perform (h : Counterparts Alike out number s s') (b : Binding) (job : Job) (n : Nat)
    {uri : Text} {position : Option Position} {command : Command}
    (hplaced : (Question.about uri position command).IsPlaced) :
    (s.perform b job uri position command).1
        = (s'.perform (b.renumber number) { job with ticket := n } uri position command).1 ∧
      Counterparts Alike out number (s.perform b job uri position command).2
        (s'.perform (b.renumber number) { job with ticket := n } uri position command).2 := by
  have hcapabilities : s'.workspace.capabilities = s.workspace.capabilities :=
    h.workspace.standard'.trans h.workspace.standard.symm
  have hmatched := (workOf b job uri position command).matched_run true
    (fun sources => command.execute s.workspace.capabilities sources b.cache)
    fun hposition sources c caret => by
      obtain rfl : position = none := hposition
      rw [h.workspace.standard]
      exact hplaced _ sources b.cache c caret
  obtain ⟨hresult, hwithin⟩ := h.within b.documents hmatched
  have hsame : workOf (b.renumber number) { job with ticket := n } uri position command
      = workOf b job uri position command := rfl
  simp only [Session.perform, hcapabilities, hsame]
  rw [show (b.renumber number).documents = b.documents from rfl,
    show (b.renumber number).cache = b.cache from rfl]
  generalize s.within b.documents _ = outcome at hresult hwithin ⊢
  generalize s'.within b.documents _ = outcome' at hresult hwithin ⊢
  obtain ⟨result, s₁⟩ := outcome
  obtain ⟨result', s₁'⟩ := outcome'
  obtain rfl : result = result' := hresult
  rcases result with e | _ | ⟨answer, cache⟩
  · exact ⟨rfl, hwithin⟩
  · exact ⟨rfl, hwithin⟩
  · exact ⟨rfl, hwithin.setCache job.binding cache⟩

theorem outcome (h : Counterparts Alike out number s s') (b : Binding) {job : Job}
    (hplaced : job.question.IsPlaced) (n : Nat) :
    (s.outcome b job).1 = (s'.outcome (b.renumber number) { job with ticket := n }).1 ∧
      Counterparts Alike out number (s.outcome b job).2
        (s'.outcome (b.renumber number) { job with ticket := n }).2 := by
  rw [Session.outcome, Session.outcome]
  cases hquestion : job.question with
  | about uri position command =>
      obtain ⟨hresult, hperformed⟩ := h.perform b job n (hquestion ▸ hplaced)
      exact ⟨congrArg some hresult, hperformed⟩
  | symbols query =>
      obtain ⟨hfound, hsearched⟩ := h.within b.documents
        (matched_searchSymbols b.project query s.symbolLimit job.cancelled)
      rw [h.symbolLimit] at hfound hsearched ⊢
      exact ⟨congrArg (unguarded symbolsToJson) hfound, hsearched⟩
  | resolveItem item =>
      dsimp only
      rw [h.workspace.standard, h.workspace.standard']
      split
      · exact ⟨rfl, h⟩
      · exact ⟨rfl, h⟩
  | answered result => exact ⟨rfl, h⟩

theorem runJob (h : Counterparts Alike out number s s') {job : Job}
    (hplaced : job.question.IsPlaced) (n : Nat) :
    Counterparts Alike out number (s.runJob job) (s'.runJob { job with ticket := n }) := by
  rw [Session.runJob, Session.runJob, h.binding]
  cases s.bindings[job.binding]? with
  | none => exact h
  | some b =>
      obtain ⟨hresult, hworked⟩ := h.outcome b hplaced n
      rw [Option.map_some]
      dsimp only
      generalize s.outcome b job = outcome at hresult hworked ⊢
      generalize s'.outcome (b.renumber number) { job with ticket := n } = outcome'
        at hresult hworked ⊢
      obtain ⟨result, s₁⟩ := outcome
      obtain ⟨result', s₁'⟩ := outcome'
      obtain rfl : result = result' := hresult
      cases result with
      | none => exact hworked
      | some result => exact (hworked.forget job.binding job.id).respond _

/-- The request that has waited longest leaves the queue. -/
theorem pop (h : Counterparts W out number s s') {job : Job} {rest : List Job}
    (hqueue : s.queue = job :: rest) :
    Counterparts W out number { s with queue := rest }
      { s' with queue := rest.filterMap (Job.renumber number) } := by
  have hmem : ∀ {other}, other ∈ rest → other ∈ s.queue := fun hother =>
    hqueue ▸ List.mem_cons_of_mem _ hother
  exact { h with
    queue := rfl
    jobs := fun other hother => h.jobs other (hmem hother)
    placed := fun other hother => h.placed other (hmem hother)
    queries := fun other hother => h.queries other (hmem hother) }

theorem workNext (h : Counterparts Alike out number s s')
    (hnext : ∀ job, s.queue.head? = some job → out job.id = false) :
    Counterparts Alike out number s.workNext s'.workNext := by
  have hqueue' := h.queue
  rw [Session.workNext, Session.workNext]
  cases hqueue : s.queue with
  | nil =>
      rw [hqueue, List.filterMap_nil] at hqueue'
      rw [hqueue']
      exact h
  | cons job rest =>
      have hmem : job ∈ s.queue := hqueue ▸ List.mem_cons_self
      cases hn : number job.ticket with
      | none =>
          have hout := (h.jobs job hmem).number_eq_none.1 hn
          rw [hnext job (by rw [hqueue]; rfl)] at hout
          cases hout
      | some n =>
          rw [hqueue, List.filterMap_cons, Job.renumber, hn, Option.map_some] at hqueue'
          rw [hqueue']
          exact (h.pop hqueue).runJob (h.placed job hmem) n

/-- Both work on some of the requests that wait, none of which is left out. -/
theorem workSome (h : Counterparts Alike out number s s') {n : Nat}
    (hn : n = 0 ∨ ∀ id, out id = false) :
    Counterparts Alike out number (s.workSome n) (s'.workSome n) := by
  induction n generalizing s s' with
  | zero => exact h
  | succ n ih =>
      have hout := hn.resolve_left n.succ_ne_zero
      exact ih (h.workNext fun job _ => hout job.id) (.inr hout)

/-- Someone begins with a request in the first session, and does so in the second one unless the
request is left out. -/
theorem begun (h : Counterparts W out number s s') {jobs : List Job}
    (hqueue : jobs = (beginFirst s.queue).filterMap (Job.renumber number)) :
    Counterparts W out number s.beginNext { s' with queue := jobs } := by
  have hof : ∀ job ∈ beginFirst s.queue, ∃ old ∈ s.queue, old.id = job.id ∧
      old.ticket = job.ticket ∧ old.question = job.question := by
    intro job hjob
    obtain ⟨old, hold, rfl | ⟨rfl, -⟩⟩ := of_mem_beginFirst hjob
    · exact ⟨job, hold, rfl, rfl, rfl⟩
    · exact ⟨old, hold, rfl, rfl, rfl⟩
  refine { h with queue := hqueue, jobs := fun job hjob => ?_, placed := fun job hjob => ?_,
                  queries := fun job hjob hout => ?_ }
  · obtain ⟨old, hold, hid, hticket, -⟩ := hof job hjob
    exact hid ▸ hticket ▸ h.jobs old hold
  · obtain ⟨old, hold, -, -, hquestion⟩ := hof job hjob
    exact hquestion ▸ h.placed old hold
  · obtain ⟨old, hold, hid, -, hquestion⟩ := hof job hjob
    exact hquestion ▸ h.queries old hold (hid ▸ hout)

/-- Both begin with the same request. -/
theorem beginNext (h : Counterparts W out number s s')
    (hnext : ∀ job, s.queue.find? isIdle = some job → out job.id = false) :
    Counterparts W out number s.beginNext s'.beginNext := by
  refine h.begun ((congrArg beginFirst h.queue).trans
    (beginFirst_renumber fun job hjob hnone => ?_))
  have hout := (h.jobs job (List.mem_of_find?_eq_some hjob)).number_eq_none.1 hnone
  exact Bool.false_ne_true ((hnext job hjob).symm.trans hout)

/-- Someone begins with a request that is left out. -/
theorem beginNext_left (h : Counterparts W out number s s') {job : Job}
    (hjob : s.queue.find? isIdle = some job) (hout : out job.id = true) :
    Counterparts W out number s.beginNext s' := by
  have hnone := (h.jobs job (List.mem_of_find?_eq_some hjob)).number_eq_none.2 hout
  exact h.begun (h.queue.trans (renumber_beginFirst hjob hnone).symm)

/-! ### Binding and releasing -/

theorem bind (h : Counterparts Alike out number s s') (project : Nat) :
    Counterparts Alike out number (s.bind project) (s'.bind project) := by
  obtain ⟨hsubscriptions, hsubscribed⟩ := h.quietly
    (Matched.mapM (Workspace.matched_subscribe project) [.diagnostics, .indexStatus, .progress])
    fun w => Workspace.events_subscriptions w project
  have hlength : s.bindings.length = s'.bindings.length := by rw [h.bindings, List.length_map]
  rw [Session.bind, Session.bind]
  dsimp only
  rw [Session.subscriptions, ← hsubscriptions]
  refine { hsubscribed with
    slot := rfl, current := congrArg some hlength, bindings := ?_, tickets := fun j b hb => ?_ }
  · rw [hsubscribed.bindings, List.map_append]
    rfl
  · rw [List.getElem?_append] at hb
    split at hb
    · exact hsubscribed.tickets j b hb
    · rw [List.getElem?_singleton] at hb
      split at hb
      · cases hb
        exact fun t ht => absurd ht List.not_mem_nil
      · cases hb

theorem closeDocuments (h : Counterparts Alike out number s s') (i : Nat) (b : Binding) :
    Counterparts Alike out number (s.closeDocuments i b)
      (s'.closeDocuments i (b.renumber number)) := by
  obtain ⟨hdocuments, hclosed⟩ := h.quietly b.documents.matched_closeAll
    fun w => Workspace.events_closeAll b.documents w
  unfold Session.closeDocuments
  rw [show (b.renumber number).documents = b.documents from rfl]
  generalize s.quietly b.documents.closeAll = outcome at hdocuments hclosed ⊢
  generalize s'.quietly b.documents.closeAll = outcome' at hdocuments hclosed ⊢
  obtain ⟨documents, s₁⟩ := outcome
  obtain ⟨documents', s₁'⟩ := outcome'
  obtain rfl : documents = documents' := hdocuments
  exact hclosed.setDocuments i documents

theorem unsubscribe (h : Counterparts Alike out number s s') (b : Binding) :
    Counterparts Alike out number (s.unsubscribe b) (s'.unsubscribe (b.renumber number)) :=
  (h.quietly (Matched.forM (Workspace.matched_unsubscribe b.project) b.subscriptions) fun w =>
    Workspace.events_forM (fun n w => Workspace.events_unsubscribe w b.project n)
      b.subscriptions w).2

theorem closeBound (h : Counterparts Alike out number s s') (b : Binding) :
    Counterparts Alike out number (s.closeBound b) (s'.closeBound (b.renumber number)) := by
  obtain ⟨-, hclosed⟩ := h.quietly (Workspace.matched_closeProject b.project)
    fun w => Workspace.events_closeProject w b.project
  have hslot : s.slot = s'.slot := h.slot
  exact { hclosed with
    current := rfl
    slot := by
      change (if s.slot = some b.project then none else s.slot)
        = if s'.slot = some b.project then none else s'.slot
      rw [hslot] }

theorem leave (h : Counterparts Alike out number s s') (i : Nat) (b : Binding) {pace : Pace}
    (hpace : pace = {} ∨ ∀ id, out id = false) :
    Counterparts Alike out number (s.leave i b pace) (s'.leave i (b.renumber number) pace) := by
  have hclosed := (h.closeDocuments i b).workSome (hpace.imp_left (congrArg Pace.closed))
  have hunheard := (hclosed.unsubscribe b).workSome (hpace.imp_left (congrArg Pace.unheard))
  exact (hunheard.modifyProgress fun p => p.alike_stop).workSome
    (hpace.imp_left (congrArg Pace.ended))

theorem release (h : Counterparts Alike out number s s') {pace : Pace}
    (hpace : pace = {} ∨ ∀ id, out id = false) :
    Counterparts Alike out number (s.release pace) (s'.release pace) := by
  rcases h.force_cases with ⟨hb, hb'⟩ | ⟨i, b, hcurrent, -, hb, hcurrent', hb'⟩
  · rw [release_of_unbound hb, release_of_unbound hb']
    exact h
  · simp only [Session.release, hcurrent, hb, hcurrent', hb']
    exact (h.leave i b hpace).closeBound b

theorem closeLeftover (h : Counterparts Alike out number s s') :
    Counterparts Alike out number s.closeLeftover s'.closeLeftover := by
  rw [Session.closeLeftover, Session.closeLeftover, ← h.slot]
  cases s.slot with
  | none => exact h
  | some project =>
      have hemptied : Counterparts Alike out number { s with slot := none }
          { s' with slot := none } := { h with slot := rfl }
      have hopen : (s.workspace.project? project).map (·.isOpen)
          = (s'.workspace.project? project).map (·.isOpen) := by
        rcases h.workspace.project?_cases project with ⟨hp, hp'⟩ | ⟨p, p', hp, hp', hR⟩
        · rw [hp, hp']
        · rw [hp, hp', Option.map_some, Option.map_some, hR.isOpen]
      dsimp only
      rw [hopen]
      split
      · exact (hemptied.quietly (Workspace.matched_forceClose project)
          fun w => Workspace.events_forceClose w project).2
      · exact hemptied

/-! ### Opening and shutting down -/

theorem openRoot (h : Counterparts Alike out number s s') (root : Option Text) {pace : Pace}
    (hpace : pace = {} ∨ ∀ id, out id = false) :
    (s.openRoot root pace).1 = (s'.openRoot root pace).1 ∧
      Counterparts Alike out number (s.openRoot root pace).2 (s'.openRoot root pace).2 := by
  have hleft := (h.release hpace).closeLeftover
  unfold Session.openRoot
  generalize (s.release pace).closeLeftover = s at hleft ⊢
  generalize (s'.release pace).closeLeftover = s' at hleft ⊢
  cases root with
  | none => exact ⟨rfl, hleft.enter .serving⟩
  | some uri =>
      obtain ⟨hresult, hresolved⟩ := hleft.quietly
        (Workspace.matched_resolveProject (.ofUri uri)) fun w =>
          Workspace.events_resolveProject w (.ofUri uri)
      dsimp only
      generalize s.quietly (Workspace.resolveProject (.ofUri uri)) = outcome at hresult hresolved ⊢
      generalize s'.quietly (Workspace.resolveProject (.ofUri uri)) = outcome'
        at hresult hresolved ⊢
      obtain ⟨result, s₁⟩ := outcome
      obtain ⟨result', s₁'⟩ := outcome'
      obtain rfl : result = result' := hresult
      cases result with
      | error e => exact ⟨rfl, hresolved⟩
      | ok project => exact ⟨rfl, (hresolved.bind project).enter .serving⟩

theorem handleInitialize (h : Counterparts Alike out number s s') (r : Request) {pace : Pace}
    (hpace : pace = {} ∨ ∀ id, out id = false) :
    (s.handleInitialize r pace).1 = (s'.handleInitialize r pace).1 ∧
      Counterparts Alike out number (s.handleInitialize r pace).2
        (s'.handleInitialize r pace).2 := by
  rw [Session.handleInitialize, Session.handleInitialize, ← h.phase]
  split
  · exact ⟨rfl, h.refuse ..⟩
  · cases Params.root? r.params with
    | none => exact ⟨rfl, h.refuse ..⟩
    | some root =>
        obtain ⟨hresult, hopened⟩ := h.openRoot root hpace
        dsimp only
        generalize s.openRoot root pace = outcome at hresult hopened ⊢
        generalize s'.openRoot root pace = outcome' at hresult hopened ⊢
        obtain ⟨result, s₁⟩ := outcome
        obtain ⟨result', s₁'⟩ := outcome'
        obtain rfl : result = result' := hresult
        cases result with
        | error e => exact ⟨rfl, hopened.refuse ..⟩
        | ok result => exact ⟨rfl, hopened.respond _⟩

theorem handleShutdown (h : Counterparts Alike out number s s') (id : RequestId) {pace : Pace}
    (hpace : pace = {} ∨ ∀ id, out id = false) :
    Counterparts Alike out number (s.handleShutdown id pace) (s'.handleShutdown id pace) := by
  rw [Session.handleShutdown, Session.handleShutdown, ← h.phase]
  split
  · exact h.refuse ..
  · exact ((h.cancelAll.enter .shuttingDown).release hpace).respond _

theorem handleRequest (h : Counterparts Alike out number s s') {r : Request}
    (hr : out r.id = false) {pace : Pace} (hpace : pace = {} ∨ ∀ id, out id = false) :
    (s.handleRequest r pace).1 = (s'.handleRequest r pace).1 ∧
      Counterparts Alike out number (s.handleRequest r pace).2
        (s'.handleRequest r pace).2 := by
  by_cases hopens : r.method = "initialize".toList
  · rw [Session.handleRequest, Session.handleRequest, if_pos hopens, if_pos hopens]
    exact h.handleInitialize r hpace
  · by_cases hshuts : r.method = "shutdown".toList
    · rw [Session.handleRequest, Session.handleRequest, if_neg hopens, if_neg hopens,
        if_pos hshuts, if_pos hshuts]
      exact ⟨rfl, h.handleShutdown r.id hpace⟩
    · rw [handleRequest_of_other hopens hshuts, handleRequest_of_other hopens hshuts, ← h.phase,
        ← h.current]
      split
      · exact ⟨rfl, h.refuse ..⟩
      · exact ⟨rfl, h.refuse ..⟩
      · exact ⟨rfl, h.refuse ..⟩
      · exact ⟨rfl, h.respond _⟩
      · exact ⟨rfl, h.ask _ hr⟩

theorem finish (h : Counterparts Alike out number s s') {pace : Pace}
    (hpace : pace = {} ∨ ∀ id, out id = false) :
    Counterparts Alike out number (s.finish pace) (s'.finish pace) :=
  { h.cancelAll.release hpace with phase := rfl }

/-! ### Work that only the first one does -/

/-- Work that leaves nothing to be told but findings. -/
theorem within_left (h : Counterparts Workspace.Kin out number s s') (docs : Documents) {α : Type}
    {steps : WorkspaceM α} (hkin : Workspace.Kin (steps.run s.workspace).2 s'.workspace) :
    Counterparts Workspace.Kin out number (s.within docs steps).2 s' := by
  have htold : [] = s'.workspace.events.filter (!Workspace.isFinding ·) := by
    rw [← h.workspace.events, h.told]
    rfl
  have hcleared : Counterparts Workspace.Kin out number
      { s with workspace := { (steps.run s.workspace).2 with events := [] } } s' :=
    { h with workspace := { hkin with events := htold }, told := rfl }
  let nothing : List (Listener × ProjectEvent) := []
  have hfindings : (steps.run s.workspace).2.events.filter (!Workspace.isFinding ·)
      = nothing.filter (!Workspace.isFinding ·) := hkin.events.trans htold.symm
  exact hcleared.foldl_deliver docs hfindings

theorem perform_workspace (s : Session) (b : Binding) (job : Job) (uri : Text)
    (position : Option Position) (command : Command) :
    (s.perform b job uri position command).2.workspace =
      { (((workOf b job uri position command).run true fun sources =>
          command.execute s.workspace.capabilities sources b.cache).run s.workspace).2 with
        events := [] } := by
  rw [← within_workspace s b.documents]
  simp only [Session.perform]
  generalize s.within b.documents _ = outcome
  rcases outcome with ⟨e | _ | answer, s₁⟩ <;> rfl

/-- The answer to a query leaves the list of completions as it is. -/
theorem perform_left (h : Counterparts Workspace.Kin out number s s') {job : Job} {b : Binding}
    (hb : s.bindings[job.binding]? = some b) {uri : Text} {position : Option Position}
    {command : Command} (hquery : (Question.about uri position command).IsQuery)
    (hexpected : Workspace.Expected (s.perform b job uri position command).2.workspace
      s'.workspace) :
    Counterparts Workspace.Kin out number (s.perform b job uri position command).2 s' := by
  rw [perform_workspace] at hexpected
  obtain ⟨steps, hsteps⟩ : ∃ steps, steps = (workOf b job uri position command).run true
    fun sources => command.execute s.workspace.capabilities sources b.cache := ⟨_, rfl⟩
  have hwithin : Counterparts Workspace.Kin out number (s.within b.documents steps).2 s' := by
    rw [hsteps]
    exact h.within_left b.documents (Work.kin_run _ true _ h.workspace hexpected)
  have hexecuted : ∀ answer, (s.within b.documents steps).1 = .ok (some answer) →
      answer.2 = b.cache := fun answer hanswer => by
    rw [hsteps] at hanswer
    obtain ⟨sources, c, hexecute⟩ := exists_of_run hanswer
    exact Command.snd_of_execute hquery answer hexecute
  simp only [Session.perform, ← hsteps]
  generalize s.within b.documents steps = outcome at hexecuted hwithin ⊢
  rcases outcome with ⟨e | _ | ⟨answer, cache⟩, s₁⟩
  · exact hwithin
  · exact hwithin
  · refine hwithin.modifyBinding_left job.binding (fun b₁ hb₁ => ?_) (hwithin.tickets _)
    have hsame := hwithin.binding job.binding
    rw [h.binding, hb, hb₁, Option.map_some, Option.map_some, Option.some.injEq] at hsame
    have hkept : (b.renumber number).cache = (b₁.renumber number).cache :=
      congrArg Binding.cache hsame
    have hcache : cache = b₁.cache := (hexecuted _ rfl).trans hkept
    rw [hcache]

theorem outcome_left (h : Counterparts Workspace.Kin out number s s') {job : Job} {b : Binding}
    (hb : s.bindings[job.binding]? = some b) (hquery : job.question.IsQuery)
    (hexpected : Workspace.Expected (s.outcome b job).2.workspace s'.workspace) :
    Counterparts Workspace.Kin out number (s.outcome b job).2 s' := by
  rw [Session.outcome] at hexpected ⊢
  cases hquestion : job.question with
  | about uri position command =>
      rw [hquestion] at hexpected hquery
      exact h.perform_left hb hquery hexpected
  | answered result => exact h
  | symbols query =>
      rw [hquestion] at hquery
      exact hquery.elim
  | resolveItem item =>
      rw [hquestion] at hquery
      exact hquery.elim

/-- A request that is left out is worked on. -/
theorem workNext_left (h : Counterparts Workspace.Kin out number s s') {job : Job}
    {rest : List Job} (hqueue : s.queue = job :: rest) (hout : out job.id = true)
    (hexpected : Workspace.Expected s.workNext.workspace s'.workspace) :
    Counterparts Workspace.Kin out number s.workNext s' := by
  have hmem : job ∈ s.queue := hqueue ▸ List.mem_cons_self
  have hpopped : Counterparts Workspace.Kin out number { s with queue := rest } s' := by
    have hpop := h.pop hqueue
    have hqueue' : rest.filterMap (Job.renumber number) = s'.queue := by
      rw [h.queue, hqueue, List.filterMap_cons, Job.renumber,
        (h.jobs job hmem).number_eq_none.2 hout, Option.map_none]
    rw [hqueue'] at hpop
    exact hpop
  cases hb : s.bindings[job.binding]? with
  | none =>
      have hnext : s.workNext = { s with queue := rest } := by
        rw [Session.workNext, hqueue]
        dsimp only
        rw [Session.runJob, hb]
      rw [hnext]
      exact hpopped
  | some b =>
      have hworkspace := workspace_workNext hqueue hb
      rw [hworkspace] at hexpected
      have hworked := hpopped.outcome_left hb (h.queries job hmem hout) hexpected
      rcases workNext_cases hqueue hb with ⟨-, hnext⟩ | ⟨result, -, hnext⟩
      · rw [hnext]
        exact hworked
      · rw [hnext]
        refine (hworked.forget_left job.binding hout).respond_left ?_
        cases result <;> exact hout

end Counterparts

end Session

end LanguageServer
