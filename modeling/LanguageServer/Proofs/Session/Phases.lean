import LanguageServer.Proofs.Session.Answers
import LanguageServer.Proofs.Session.Moves
import Mathlib.Data.List.Induction

/-!
# The phases of a session

A session comes from one phase to the next one by a request that it accepts, or by its end
(`Session.Passage`). So as long as it has not ended, the phase says which requests have been
accepted so far (`phase_after`), and a session that does not serve has no binding in force
(`Session.Gated`), which closes the gate to everything behind it.
-/

namespace LanguageServer

/-- The place of a phase in the order in which they are meant to be reached. -/
def Phase.rank : Phase → Nat
  | .uninitialized => 0
  | .serving => 1
  | .shuttingDown => 2
  | .exited => 3

namespace Session

variable {s s₁ s' : Session} {t : Turn}

/-- A request with a method arrives with a turn and is answered with a result. -/
def Accepts (s : Session) (method : String) (t : Turn) : Prop :=
  ∃ (r : Request) (result : Json), t = .step (.message (.request r)) ∧ r.method = method.toList ∧
    (s.turn t).client.sent.getLast? = some (.response (.ok r.id result))

/-- A request with a method has been answered with a result along some turns. -/
def HasAccepted (s : Session) (method : String) (turns : List Turn) : Prop :=
  ∃ before t, before ++ [t] <+: turns ∧ (s.after before).Accepts method t

theorem hasAccepted_concat {method : String} {turns : List Turn} :
    s.HasAccepted method (turns ++ [t]) ↔
      s.HasAccepted method turns ∨ (s.after turns).Accepts method t := by
  constructor
  · rintro ⟨before, u, hbegins, haccepts⟩
    rcases List.prefix_concat_iff.1 hbegins with heq | hbegins
    · obtain ⟨rfl, hu⟩ := List.append_inj' heq rfl
      cases hu
      exact .inr haccepts
    · exact .inl ⟨before, u, hbegins, haccepts⟩
  · rintro (⟨before, u, hbegins, haccepts⟩ | haccepts)
    · exact ⟨before, u, hbegins.trans (List.prefix_append turns [t]), haccepts⟩
    · exact ⟨turns, t, List.prefix_rfl, haccepts⟩

/-! ### Answers to requests that are gated -/

theorem getLast?_respond (hs : s.client.connected = true) (r : Response) :
    (s.respond r).client.sent.getLast? = some (.response r) := by
  rw [respond, Client.sent_respond hs]
  exact List.getLast?_concat

theorem accepts_request {method : String} {r : Request} :
    s.Accepts method (.step (.message (.request r))) ↔ r.method = method.toList ∧
      ∃ result, (s.handleRequest r).2.client.sent.getLast?
        = some (.response (.ok r.id result)) := by
  constructor
  · rintro ⟨r', result, ht, hmethod, hsent⟩
    cases ht
    exact ⟨hmethod, result, hsent⟩
  · rintro ⟨hmethod, result, hsent⟩
    exact ⟨r, result, rfl, hmethod, hsent⟩

theorem not_accepts_of_refuse {r : Request} {code : ErrorCode} {message : Text}
    (hs : s₁.client.connected = true)
    (hrefused : (s.handleRequest r).2 = s₁.refuse r.id code message) (method : String) :
    ¬ s.Accepts method (.step (.message (.request r))) := by
  rw [accepts_request, hrefused]
  rintro ⟨-, result, hsent⟩
  rw [refuse, getLast?_respond hs] at hsent
  cases hsent

/-! ### From phase to phase -/

/-- The session stays in its phase. It may lose its binding, but takes no other one. -/
structure Stays (s s' : Session) : Prop where
  phase : s'.phase = s.phase
  lifecycle : s'.lifecycle = s.lifecycle
  current : ∀ i, s'.current = some i → s.current = some i

namespace Stays

theorem refl (s : Session) : Stays s s := ⟨rfl, rfl, fun _ => id⟩

theorem trans (h : Stays s s₁) (h' : Stays s₁ s') : Stays s s' :=
  ⟨h'.phase.trans h.phase, h'.lifecycle.trans h.lifecycle,
    fun i hi => h.current i (h'.current i hi)⟩

end Stays

theorem Unmoved.stays (h : Unmoved s s') : Stays s s' :=
  ⟨h.phase, h.lifecycle, fun _ hi => h.current ▸ hi⟩

theorem stays_cancel (s : Session) (id : RequestId) : Stays s (s.cancel id) := by
  rw [cancel]
  split
  · split
    · exact ⟨rfl, rfl, fun _ hi => hi⟩
    · exact .refl s
  · exact .refl s

theorem stays_ask (s : Session) (i : Nat) (r : Request) : Stays s (s.ask i r) := by
  rw [ask]
  split
  · exact (unmoved_respond ..).stays
  · exact (unmoved_respond ..).stays
  · exact ⟨rfl, rfl, fun _ => id⟩

theorem stays_handleNotification (s : Session) (n : Notification) :
    Stays s (s.handleNotification n).2 := by
  rcases handleNotification_cases s n with hunmoved | ⟨id, -, -, hcancelled⟩
  · exact hunmoved.stays
  · rw [hcancelled]
    exact stays_cancel s id

theorem stays_runJob (s : Session) (job : Job) : Stays s (s.runJob job) := by
  rw [runJob]
  split
  · exact .refl s
  · next b _ =>
      have houtcome : Stays s (s.outcome b job).2 := by
        obtain ⟨s₁, hunmoved, hs₁ | ⟨cache, hs₁⟩⟩ := outcome_cases s b job
        · rw [hs₁]
          exact hunmoved.stays
        · rw [hs₁]
          exact hunmoved.stays.trans ⟨rfl, rfl, fun _ => id⟩
      generalize s.outcome b job = outcome at houtcome ⊢
      rcases outcome with ⟨_ | result, s₁⟩
      · exact houtcome
      · exact houtcome.trans ⟨rfl, rfl, fun _ => id⟩

theorem stays_workNext (s : Session) : Stays s s.workNext := by
  rw [workNext]
  split
  · exact .refl s
  · next job rest _ =>
      have hrest : Stays s { s with queue := rest } := ⟨rfl, rfl, fun _ => id⟩
      exact hrest.trans (stays_runJob _ job)

theorem release_current (hs : s.Live) : s.release.current = none :=
  (unmoved_release hs.current).current

theorem stays_release (hs : s.Live) : Stays s s.release := by
  have hreleased := unmoved_release hs.current
  exact ⟨hreleased.phase, hreleased.lifecycle, fun i hi => by
    rw [release_current hs] at hi
    cases hi⟩

theorem openRoot_cases (hs : s.Live) (root : Option Text) :
    (∃ result, (s.openRoot root).1 = .ok result ∧ (s.openRoot root).2.phase = .serving) ∨
      ∃ e, (s.openRoot root).1 = .error e ∧ Stays s (s.openRoot root).2 := by
  have hleft := (stays_release hs).trans (unmoved_closeLeftover s.release).stays
  cases root with
  | none => exact .inl ⟨_, rfl, rfl⟩
  | some uri =>
      have hresolved := hleft.trans
        (unmoved_quietly s.release.closeLeftover (Workspace.resolveProject (.ofUri uri))).stays
      simp only [openRoot]
      generalize s.release.closeLeftover.quietly (Workspace.resolveProject (.ofUri uri)) = outcome
        at hresolved ⊢
      rcases outcome with ⟨e | project, s₁⟩
      · exact .inr ⟨e, rfl, hresolved⟩
      · exact .inl ⟨_, rfl, rfl⟩

/-- What a turn has to do with the phase. -/
inductive Passage (s : Session) (t : Turn) : Prop
  | stays (hstays : Stays s (s.turn t)) (hopens : ¬ s.Accepts "initialize" t)
      (hshuts : ¬ s.Accepts "shutdown" t)
  | opens (hphase : s.phase ≠ .shuttingDown) (haccepts : s.Accepts "initialize" t)
      (hshuts : ¬ s.Accepts "shutdown" t) (hnext : (s.turn t).phase = .serving)
  | shuts (hphase : s.phase ≠ .uninitialized) (haccepts : s.Accepts "shutdown" t)
      (hopens : ¬ s.Accepts "initialize" t) (hnext : (s.turn t).phase = .shuttingDown)
      (hlifecycle : (s.turn t).lifecycle = .shuttingDown) (hcurrent : (s.turn t).current = none)
  | ends (hfinish : t = .finish) (hnext : (s.turn t).phase = .exited)
      (hcurrent : (s.turn t).current = none)

/-- A turn without a request to open or to shut down. -/
theorem Passage.of_stays (hstays : Stays s (s.turn t))
    (hmethod : ∀ r, t = .step (.message (.request r)) →
      r.method ≠ "initialize".toList ∧ r.method ≠ "shutdown".toList) : s.Passage t :=
  .stays hstays (fun ⟨r, _, ht, hopens, _⟩ => (hmethod r ht).1 hopens)
    fun ⟨r, _, ht, hshuts, _⟩ => (hmethod r ht).2 hshuts

theorem Passage.of_refuse {r : Request} (hs : s.Live) (h : Stays s s₁) (hquiet : Quiet s s₁)
    (hrefused : ∃ code message, (s.handleRequest r).2 = s₁.refuse r.id code message) :
    s.Passage (.step (.message (.request r))) := by
  obtain ⟨code, message, hrefused⟩ := hrefused
  have hnot := not_accepts_of_refuse (hquiet.live hs).connected hrefused
  refine .stays ?_ (hnot _) (hnot _)
  have hturn : s.turn (.step (.message (.request r))) = (s.handleRequest r).2 := rfl
  rw [hturn, hrefused]
  exact h.trans (unmoved_respond ..).stays

theorem initialize_passage (hs : s.Live) {r : Request} (hmethod : r.method = "initialize".toList) :
    s.Passage (.step (.message (.request r))) := by
  have hhandle : s.handleRequest r = s.handleInitialize r := if_pos hmethod
  rcases handleInitialize_cases s r with ⟨code, message, hrefused⟩ | ⟨hphase, root, s₁, hcases⟩
  · exact .of_refuse hs (.refl s) (.refl s) ⟨code, message, hhandle ▸ hrefused⟩
  · have hopened := openRoot_cases hs root
    have hquiet := quiet_openRoot s root
    rcases hcases with ⟨result, hroot, hresponse⟩ | ⟨e, message, hroot, hresponse⟩
    · rw [hroot] at hopened hquiet
      have hserving : s₁.phase = .serving := by
        rcases hopened with ⟨_, -, hserving⟩ | ⟨_, hfailed, -⟩
        · exact hserving
        · cases hfailed
      have hturn : s.turn (.step (.message (.request r))) = s₁.respond (.ok r.id result) :=
        (congrArg Prod.snd hhandle).trans hresponse
      refine .opens hphase ⟨r, result, rfl, hmethod, ?_⟩ (fun hshuts => ?_) ?_
      · rw [hturn]
        exact getLast?_respond (hquiet.live hs).connected _
      · exact absurd (hmethod.symm.trans (accepts_request.1 hshuts).1) (by decide)
      · rw [hturn]
        exact hserving
    · rw [hroot] at hopened hquiet
      have hstays : Stays s s₁ := by
        rcases hopened with ⟨_, hopened, -⟩ | ⟨_, -, hstays⟩
        · cases hopened
        · exact hstays
      exact .of_refuse hs hstays hquiet ⟨.requestFailed, message, hhandle ▸ hresponse⟩

theorem shutdown_passage (hs : s.Live) {r : Request} (hmethod : r.method = "shutdown".toList) :
    s.Passage (.step (.message (.request r))) := by
  have hother : r.method ≠ "initialize".toList := by
    rw [hmethod]
    decide
  have hhandle : s.handleRequest r = (none, s.handleShutdown r.id) := by
    rw [handleRequest, if_neg hother, if_pos hmethod]
  by_cases hphase : s.phase = .uninitialized
  · refine .of_refuse hs (.refl s) (.refl s) ⟨.serverNotInitialized, notInitialized, ?_⟩
    rw [hhandle, handleShutdown, if_pos hphase]
  · have hturn : s.turn (.step (.message (.request r))) = s.shutdown.respond (.ok r.id .null) := by
      have hrun : s.turn (.step (.message (.request r))) = (s.handleRequest r).2 := rfl
      rw [hrun, hhandle, handleShutdown, if_neg hphase]
    have hlive := ((quiet_cancelAll s).trans (quiet_enter _ .shuttingDown)).live hs
    have hreleased := unmoved_release hlive.current
    have haccepts : s.Accepts "shutdown" (.step (.message (.request r))) := by
      refine ⟨r, .null, rfl, hmethod, ?_⟩
      rw [hturn]
      exact getLast?_respond ((quiet_shutdown s).live hs).connected _
    refine .shuts hphase haccepts (fun hopens => hother (accepts_request.1 hopens).1) ?_ ?_ ?_
    · rw [hturn]
      exact hreleased.phase
    · rw [hturn]
      exact hreleased.lifecycle
    · rw [hturn]
      exact hreleased.current

theorem passage (hs : s.Live) (t : Turn) : s.Passage t := by
  rcases t with (m | _) | _ | _ | w
  · cases m with
    | request r =>
        by_cases hopens : r.method = "initialize".toList
        · exact initialize_passage hs hopens
        · by_cases hshuts : r.method = "shutdown".toList
          · exact shutdown_passage hs hshuts
          · refine .of_stays ?_ fun _ ht => by
              cases ht
              exact ⟨hopens, hshuts⟩
            have hturn : s.turn (.step (.message (.request r))) = (s.handleRequest r).2 := rfl
            rw [hturn, handleRequest_of_other hopens hshuts]
            split
            · exact (unmoved_respond ..).stays
            · exact (unmoved_respond ..).stays
            · exact (unmoved_respond ..).stays
            · exact (unmoved_respond ..).stays
            · exact stays_ask ..
    | notification n => exact .of_stays (stays_handleNotification s n) nofun
    | response r => exact .of_stays (unmoved_handleResponse s r).stays nofun
  · exact .of_stays (stays_workNext s) nofun
  · exact .of_stays ⟨rfl, rfl, fun _ => id⟩ nofun
  · exact .ends rfl rfl (release_current ((quiet_cancelAll s).live hs))
  · exact .of_stays (Unmoved.of_workspace s w).stays nofun

/-! ### Runs -/

/-- A session has a binding in force only while it serves, and the server knows when it shuts down.
-/
structure Gated (s : Session) : Prop where
  current : ∀ i, s.current = some i → s.phase = .serving
  lifecycle : s.phase = .shuttingDown → s.lifecycle = .shuttingDown

theorem Gated.turn (h : s.Gated) (hs : s.Live) (t : Turn) : (s.turn t).Gated := by
  cases passage hs t with
  | stays hstays =>
      refine ⟨fun i hi => ?_, fun hphase => ?_⟩
      · rw [hstays.phase]
        exact h.current i (hstays.current i hi)
      · rw [hstays.lifecycle]
        exact h.lifecycle (hstays.phase.symm.trans hphase)
  | opens _ _ _ hnext =>
      exact ⟨fun _ _ => hnext, fun hphase => (nomatch hnext.symm.trans hphase)⟩
  | shuts _ _ _ _ hlifecycle hcurrent =>
      exact ⟨fun i hi => (nomatch hcurrent.symm.trans hi), fun _ => hlifecycle⟩
  | ends _ hnext hcurrent =>
      exact ⟨fun i hi => (nomatch hcurrent.symm.trans hi),
        fun hphase => (nomatch hnext.symm.trans hphase)⟩

theorem gated_after (service : Service) (turns : List Turn) :
    (service.session.after turns).Gated := by
  induction turns using List.reverseRecOn with
  | nil => exact ⟨nofun, nofun⟩
  | append_singleton turns t ih =>
      rw [after_concat]
      exact ih.turn (takes_after (live_session service) turns).1 t

/-- The phase of a session that has not ended says which requests have been accepted. -/
theorem phase_after (service : Service) {turns : List Turn} (hrunning : Turn.finish ∉ turns) :
    ((service.session.after turns).phase = .uninitialized ↔
        ¬ service.session.HasAccepted "initialize" turns) ∧
      ((service.session.after turns).phase = .shuttingDown ↔
        service.session.HasAccepted "shutdown" turns) ∧
      (service.session.after turns).phase ≠ .exited := by
  induction turns using List.reverseRecOn with
  | nil =>
      have hnone : ∀ method, ¬ service.session.HasAccepted method [] :=
        fun method ⟨before, t, hbegins, _⟩ =>
          List.cons_ne_nil t [] (List.append_eq_nil_iff.1 (List.prefix_nil.1 hbegins)).2
      exact ⟨iff_of_true rfl (hnone _), iff_of_false nofun (hnone _), nofun⟩
  | append_singleton turns t ih =>
      -- The turn comes last, so that its passage is from the phase that the hypothesis is about.
      obtain ⟨hopened, hshut, hrunning'⟩ :=
        ih fun h => hrunning (List.mem_append_left [t] h)
      rw [after_concat, hasAccepted_concat, hasAccepted_concat]
      cases passage (takes_after (live_session service) turns).1 t with
      | stays hstays hopens hshuts =>
          rw [hstays.phase]
          exact ⟨hopened.trans (by simp [hopens]), hshut.trans (by simp [hshuts]), hrunning'⟩
      | opens hphase haccepts hshuts hnext =>
          rw [hnext]
          exact ⟨iff_of_false nofun fun h => h (.inr haccepts),
            iff_of_false nofun (by simp [hshuts, ← hshut, hphase]), nofun⟩
      | shuts hphase haccepts hopens hnext =>
          rw [hnext]
          exact ⟨iff_of_false nofun (by simpa [hopens, hopened] using hphase),
            iff_of_true rfl (.inr haccepts), nofun⟩
      | ends hfinish =>
          exact absurd (hfinish ▸ List.mem_concat_self) hrunning

/-! ### What is behind the gate -/

theorem handleNotification_of_gated (h : s.Gated) (hphase : s.phase ≠ .serving)
    (n : Notification) : (s.handleNotification n).2 = s := by
  have hcurrent : s.current = none := Option.eq_none_iff_forall_not_mem.2 fun i hi =>
    hphase (h.current i hi)
  have hcancel : ∀ id, s.cancel id = s := fun id => by simp only [cancel, hcurrent]
  rw [handleNotification]
  split
  · rfl
  · split
    · cases Params.cancelled? n.params with
      | none => rfl
      | some id => exact hcancel id
    · split
      · rfl
      · split
        · next hserving _ _ => exact absurd hserving hphase
        · rfl

theorem handleResponse_of_gated (h : s.Gated) (hphase : s.phase ≠ .serving) (r : Response) :
    s.handleResponse r = { s with client := (s.handleResponse r).client } := by
  have hcurrent : s.current = none := Option.eq_none_iff_forall_not_mem.2 fun i hi =>
    hphase (h.current i hi)
  rw [handleResponse]
  split
  · simp only [modifyProgress, hcurrent]
  · rfl

theorem handleRequest_of_uninitialized (hphase : s.phase = .uninitialized) {r : Request}
    (hopens : r.method ≠ "initialize".toList) :
    s.handleRequest r = (none, s.refuse r.id .serverNotInitialized notInitialized) := by
  rw [handleRequest, if_neg hopens]
  split
  · rw [handleShutdown, if_pos hphase]
  · rw [hphase]

theorem shutdown_of_shuttingDown (h : s.Gated) (hphase : s.phase = .shuttingDown) :
    s.shutdown = s := by
  have hcurrent : s.current = none := Option.eq_none_iff_forall_not_mem.2 fun i hi =>
    absurd (hphase.symm.trans (h.current i hi)) (by decide)
  have hcancelled : s.cancelAll = s := by simp only [cancelAll, hcurrent]
  have hentered : s.enter .shuttingDown = s := by
    rw [enter, Lifecycle.after, ← h.lifecycle hphase, ← hphase]
  rw [shutdown, hcancelled, hentered, release_of_none hcurrent]

theorem handleRequest_of_shuttingDown (h : s.Gated) (hphase : s.phase = .shuttingDown)
    (r : Request) :
    s.handleRequest r = (none,
      if r.method = "shutdown".toList then s.respond (.ok r.id .null)
      else s.refuse r.id .invalidRequest isShuttingDown) := by
  by_cases hopens : r.method = "initialize".toList
  · have hother : r.method ≠ "shutdown".toList := by
      rw [hopens]
      decide
    rw [handleRequest, if_pos hopens, handleInitialize, if_pos hphase, if_neg hother]
  · by_cases hshuts : r.method = "shutdown".toList
    · have hphase' : s.phase ≠ .uninitialized := by
        rw [hphase]
        decide
      rw [handleRequest, if_neg hopens, if_pos hshuts, if_pos hshuts, handleShutdown,
        if_neg hphase', shutdown_of_shuttingDown h hphase]
    · rw [handleRequest_of_other hopens hshuts, hphase, if_neg hshuts]

/-- Only a session that has ended can go back to an earlier phase, by a request to open or to shut
down that still arrives. -/
theorem rank_turn_lt_iff (hs : s.Live) (t : Turn) :
    (s.turn t).phase.rank < s.phase.rank ↔
      s.phase = .exited ∧ (s.Accepts "initialize" t ∨ s.Accepts "shutdown" t) := by
  cases passage hs t with
  | stays hstays hopens hshuts =>
      rw [hstays.phase]
      exact iff_of_false (Nat.lt_irrefl _) fun h => h.2.elim hopens hshuts
  | opens hphase haccepts _ hnext =>
      -- What is left is a finite table: serving comes before the phase that was left only if that
      -- is the last one.
      rw [hnext, and_iff_left (.inl haccepts)]
      revert hphase
      cases s.phase <;> decide
  | shuts hphase haccepts _ hnext =>
      rw [hnext, and_iff_left (.inr haccepts)]
      revert hphase
      cases s.phase <;> decide
  | ends hfinish hnext =>
      rw [hnext]
      refine iff_of_false (by cases s.phase <;> decide) ?_
      rintro ⟨-, ⟨r, _, ht, -⟩ | ⟨r, _, ht, -⟩⟩
      · cases hfinish.symm.trans ht
      · cases hfinish.symm.trans ht

/-- What happens to a message before anything has been opened and after the session was shut down.
Until then every request other than `initialize` is refused and notifications are dropped. From then
on every request is refused, with `shutdown` as the exception: it is accepted again and changes
nothing. No message has any effect but that it is answered. The phase moves forward with every turn,
except that a session which has ended can be opened and shut down again. -/
theorem messages_gated_by_phase (service : Service) (turns : List Turn) :
    let s := service.session.after turns
    (Turn.finish ∉ turns →
      (¬ service.session.HasAccepted "initialize" turns →
        (∀ r : Request, r.method ≠ "initialize".toList →
          s.handle (.request r)
            = (none, s.refuse r.id .serverNotInitialized notInitialized)) ∧
        ∀ n, (s.handle (.notification n)).2 = s) ∧
      (service.session.HasAccepted "shutdown" turns →
        (∀ r : Request, s.handle (.request r) = (none,
          if r.method = "shutdown".toList then s.respond (.ok r.id .null)
          else s.refuse r.id .invalidRequest isShuttingDown)) ∧
        (∀ n, (s.handle (.notification n)).2 = s) ∧
        ∀ m, (s.handle m).2 = { s with client := (s.handle m).2.client })) ∧
    ∀ t, (s.turn t).phase.rank < s.phase.rank ↔
      s.phase = .exited ∧ (s.Accepts "initialize" t ∨ s.Accepts "shutdown" t) := by
  intro s
  have hlive : s.Live := (takes_after (live_session service) turns).1
  have hgated : s.Gated := gated_after service turns
  refine ⟨fun hrunning => ?_, rank_turn_lt_iff hlive⟩
  obtain ⟨hopened, hshut, -⟩ := phase_after service hrunning
  constructor
  · intro hnone
    have hphase : s.phase = .uninitialized := hopened.2 hnone
    exact ⟨fun r hopens => handleRequest_of_uninitialized hphase hopens,
      handleNotification_of_gated hgated (by rw [hphase]; decide)⟩
  · intro hsome
    have hphase : s.phase = .shuttingDown := hshut.2 hsome
    have hserving : s.phase ≠ .serving := by rw [hphase]; decide
    have hrequests := handleRequest_of_shuttingDown hgated hphase
    have hnotifications := handleNotification_of_gated hgated hserving
    refine ⟨hrequests, hnotifications, fun m => ?_⟩
    cases m with
    | request r =>
        rw [handle, hrequests]
        dsimp only
        split <;> rfl
    | notification n => rw [handle, hnotifications]
    | response r => exact handleResponse_of_gated hgated hserving r

/-- A client without a project shuts down. -/
def shutDownAtOnce : List Turn :=
  [.step (.message (.request ⟨.number 1, "initialize".toList, .obj [("capabilities", .obj [])]⟩)),
    .step (.message (.request ⟨.number 2, "shutdown".toList, .null⟩))]

/-- A second request to shut down is accepted, a request to open again is refused. -/
theorem messages_gated_by_phase_twice :
    let session := ({} : Service).session
    let s := session.after shutDownAtOnce
    session.HasAccepted "shutdown" shutDownAtOnce ∧
      s.handle (.request ⟨.number 3, "shutdown".toList, .null⟩)
        = (none, s.respond (.ok (.number 3) .null)) ∧
      s.handle (.request ⟨.number 4, "initialize".toList, .null⟩)
        = (none, s.refuse (.number 4) .invalidRequest isShuttingDown) := by
  intro session s
  have hrunning : Turn.finish ∉ shutDownAtOnce := by
    rw [shutDownAtOnce, List.mem_cons, List.mem_singleton]
    rintro (h | h) <;> cases h
  have haccepted : session.HasAccepted "shutdown" shutDownAtOnce :=
    ⟨shutDownAtOnce.take 1, _, List.prefix_rfl, ⟨.number 2, "shutdown".toList, .null⟩, .null, rfl,
      rfl, rfl⟩
  obtain ⟨hrequests, -⟩ := ((messages_gated_by_phase {} shutDownAtOnce).1 hrunning).2 haccepted
  exact ⟨haccepted, hrequests _, hrequests _⟩

end Session

end LanguageServer
