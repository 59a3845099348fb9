import LanguageServer.Proofs.Session.Steady
import LanguageServer.Proofs.Workspace.CallLog

/-!
# The project of a session

A session is `Free` of projects, with none open in its workspace, or `Bound` to the one that is
open. A bound session that is released is free, and a free one is bound only when it opens a
project. So a session stays `Sound` whatever arrives: it is free, or it is bound and serves.
-/

namespace LanguageServer

namespace Session

variable {s s' : Session}

/-- The session has no project, and none is open. -/
structure Free (s : Session) : Prop where
  current : s.current = none
  slot : s.slot = none
  workspace : s.workspace.Idle

/-- The session has the project that is open, and its documents can be changed. -/
structure Bound (s : Session) (i : Nat) (b : Binding) (root : FileKey) : Prop where
  current : s.current = some i
  binding : s.bindings[i]? = some b
  slot : s.slot = some b.project
  workspace : s.workspace.Serving b.project root
  project : b.documents.project = b.project
  accepting : b.documents.accepting = true

/-- A session with a project serves. -/
def Sound (s : Session) : Prop := s.Free ∨ s.phase = .serving ∧ ∃ i b root, s.Bound i b root

/-! ### What a sound session has -/

theorem Sound.oneProject (h : s.Sound) : s.workspace.OneProject := by
  rcases h with hfree | ⟨-, i, b, root, hbound⟩
  · exact hfree.workspace.oneProject
  · exact hbound.workspace.oneProject

theorem Sound.serving (h : s.Sound) {i : Nat} (hcurrent : s.current = some i) :
    s.phase = .serving ∧ ∃ b p, s.bindings[i]? = some b ∧ s.slot = some b.project ∧
      s.workspace.project? b.project = some p ∧ p.isOpen = true := by
  rcases h with hfree | ⟨hphase, j, b, root, hbound⟩
  · cases hfree.current.symm.trans hcurrent
  · cases hbound.current.symm.trans hcurrent
    obtain ⟨p, hp, -, hopen⟩ := hbound.workspace.project
    exact ⟨hphase, b, p, hbound.binding, hbound.slot, hp, hopen⟩

theorem Sound.bound (h : s.Sound) {i : Nat} {b : Binding} (hcurrent : s.current = some i)
    (hb : s.bindings[i]? = some b) : ∃ root, s.Bound i b root := by
  rcases h with hfree | ⟨-, j, b', root, hbound⟩
  · cases hfree.current.symm.trans hcurrent
  · cases hbound.current.symm.trans hcurrent
    cases hbound.binding.symm.trans hb
    exact ⟨root, hbound⟩

theorem Sound.idle (h : s.Sound) (hcurrent : s.current = none) : s.workspace.Idle := by
  rcases h with hfree | ⟨-, i, b, root, hbound⟩
  · exact hfree.workspace
  · cases hbound.current.symm.trans hcurrent

/-! ### Steady steps -/

theorem Free.steady (h : s.Free) (hsteady : Steady s s') : s'.Free :=
  ⟨hsteady.current.trans h.current, hsteady.slot.trans h.slot, h.workspace.steady hsteady.workspace⟩

theorem Bound.steady {i : Nat} {b : Binding} {root : FileKey} (h : s.Bound i b root)
    (hsteady : Steady s s') : ∃ b', s'.Bound i b' root := by
  have hlt : i < s'.bindings.length := by
    have hlength := congrArg List.length hsteady.bindings
    rw [List.length_map, List.length_map] at hlength
    rw [hlength]
    exact (List.getElem?_eq_some_iff.1 h.binding).1
  have hb' : s'.bindings[i]? = some s'.bindings[i] := List.getElem?_eq_getElem hlt
  have hstance := hsteady.stance h.binding hb'
  simp only [Binding.stance, Prod.mk.injEq] at hstance
  obtain ⟨hsame, hproject, haccepting⟩ := hstance
  refine ⟨_, hsteady.current.trans h.current, hb', ?_, ?_, ?_, haccepting.trans h.accepting⟩
  · rw [hsteady.slot, h.slot, hsame]
  · rw [hsame]
    exact h.workspace.steady hsteady.workspace
  · rw [hproject, hsame, h.project]

theorem Sound.steady (h : s.Sound) (hsteady : Steady s s') : s'.Sound := by
  rcases h with hfree | ⟨hphase, i, b, root, hbound⟩
  · exact .inl (hfree.steady hsteady)
  · obtain ⟨b', hbound'⟩ := hbound.steady hsteady
    exact .inr ⟨hsteady.phase.trans hphase, i, b', root, hbound'⟩

/-! ### Leaving a project -/

/-- The project of a binding is the one that was bound last. -/
theorem Bound.project_eq {i j : Nat} {b b' : Binding} {root root' : FileKey}
    (h : s.Bound i b root) (h' : s'.Bound j b' root') (hslot : s'.slot = s.slot) :
    b'.project = b.project :=
  Option.some.inj (h'.slot.symm.trans (hslot.trans h.slot))

theorem Bound.tended {i : Nat} {b : Binding} {root : FileKey} (h : s.Bound i b root)
    (htended : Tended s s') : ∃ b', s'.Bound i b' root ∧ b'.project = b.project := by
  obtain ⟨b', hbound⟩ := h.steady htended.steady
  exact ⟨b', hbound, h.project_eq hbound htended.slot⟩

theorem Bound.closeDocuments {i : Nat} {b : Binding} {root : FileKey} (h : s.Bound i b root) :
    (s.closeDocuments i b).Bound i { b with documents := (s.quietly b.documents.closeAll).1 } root ∧
      (s.closeDocuments i b).workspace.openFiles b.project = [] := by
  have hdocs := b.documents.closeAll_docs s.workspace
  have hclosed := Documents.closeAll_openFiles h.accepting s.workspace
  rw [h.project] at hclosed
  refine ⟨⟨h.current, ?_, h.slot, h.workspace.steady (b.documents.keeps_closeAll s.workspace),
    ?_, ?_⟩, hclosed⟩
  · let put (b' : Binding) : Binding :=
      { b' with documents := (s.quietly b.documents.closeAll).1 }
    exact (List.getElem?_modify_eq put i s.bindings).trans (congrArg (put <$> ·) h.binding)
  · exact (congrArg Documents.project hdocs).trans h.project
  · exact (congrArg Documents.accepting hdocs).trans h.accepting

theorem Bound.unsubscribe {i : Nat} {b b' : Binding} {root : FileKey} (h : s.Bound i b' root)
    (hsame : b'.project = b.project) :
    (s.unsubscribe b).Bound i b' root ∧
      (s.unsubscribe b).workspace.openFiles b.project = s.workspace.openFiles b.project := by
  obtain ⟨hserving, hfiles⟩ := Workspace.forM_unsubscribe_of_serving b.subscriptions
    (hsame ▸ h.workspace)
  exact ⟨⟨h.current, h.binding, h.slot, hsame ▸ hserving, h.project, h.accepting⟩, hfiles⟩

/-- The project stays bound until it is closed, whatever is worked on meanwhile. -/
theorem Bound.leave {i : Nat} {b : Binding} {root : FileKey} (h : s.Bound i b root) (pace : Pace) :
    ∃ b', (s.leave i b pace).Bound i b' root ∧ b'.project = b.project := by
  obtain ⟨b₁, h₁, hsame₁⟩ := h.closeDocuments.1.tended
    (stepRelation_tended.workSome _ pace.closed)
  obtain ⟨b₂, h₂, hsame₂⟩ := (h₁.unsubscribe hsame₁).1.tended
    (stepRelation_tended.workSome _ pace.unheard)
  obtain ⟨b₃, h₃, hsame₃⟩ := h₂.tended
    (tended_modifyProgress _ Progress.reportRelation_quiet.stop)
  obtain ⟨b₄, h₄, hsame₄⟩ := h₃.tended (stepRelation_tended.workSome _ pace.ended)
  exact ⟨b₄, h₄, hsame₄.trans (hsame₃.trans (hsame₂.trans hsame₁))⟩

theorem Bound.closeBound {i : Nat} {b b' : Binding} {root : FileKey} (h : s.Bound i b' root)
    (hsame : b'.project = b.project) : (s.closeBound b).Free :=
  ⟨rfl, if_pos (h.slot.trans (congrArg some hsame)),
    Workspace.closeProject_of_serving (hsame ▸ h.workspace)⟩

theorem Bound.binding? {i : Nat} {b : Binding} {root : FileKey} (h : s.Bound i b root) :
    s.binding? = some b := by
  rw [Session.binding?, h.current, Option.bind_some, h.binding]

theorem Bound.release {i : Nat} {b : Binding} {root : FileKey} (h : s.Bound i b root)
    (pace : Pace) : (s.release pace).Free := by
  obtain ⟨b', hleft, hsame⟩ := h.leave pace
  rw [release_eq h.current h.binding?]
  exact hleft.closeBound hsame

theorem Sound.release (h : s.Sound) (pace : Pace) : (s.release pace).Free := by
  rcases h with hfree | ⟨-, i, b, root, hbound⟩
  · rw [release_of_none hfree.current]
    exact hfree
  · exact hbound.release pace

theorem Free.closeLeftover (h : s.Free) : s.closeLeftover = s := by
  rw [Session.closeLeftover, h.slot]

/-! ### Opening a project -/

theorem bind_bound {id : Nat} {root : FileKey} (h : s.workspace.Serving id root) :
    ∃ b, (s.bind id).Bound s.bindings.length b root := by
  have hsubscribed : ((subscriptions id).run s.workspace).2.Serving id root :=
    Workspace.mapM_subscribe_of_serving h _
  rw [bind, quietly]
  generalize (subscriptions id).run s.workspace = outcome at hsubscribed ⊢
  exact ⟨_, rfl, List.getElem?_concat_length, rfl, hsubscribed, rfl, rfl⟩

theorem Sound.openRoot (h : s.Sound) (root : Option Text) (pace : Pace) :
    (s.openRoot root pace).2.Sound := by
  have hfree := h.release pace
  unfold Session.openRoot
  rw [hfree.closeLeftover]
  -- The project of before is gone by now, so the workspace is idle when the next one is looked for.
  generalize s.release pace = s at hfree
  cases root with
  | none => exact .inl ⟨hfree.current, hfree.slot, hfree.workspace⟩
  | some uri =>
      dsimp only [quietly]
      rcases Workspace.resolveProject_cases (hfree.workspace.tracked?_eq_none (.ofUri uri))
        with ⟨e, hrun⟩ | ⟨directory, hrun⟩
      · rw [hrun]
        exact .inl ⟨hfree.current, hfree.slot, hfree.workspace.missed _⟩
      · rw [hrun]
        obtain ⟨b, hbound⟩ := bind_bound (s := { s with workspace := _ })
          (hfree.workspace.opened (.ofUri uri) directory)
        exact .inr ⟨rfl, _, b, _, hbound.current, hbound.binding, hbound.slot, hbound.workspace,
          hbound.project, hbound.accepting⟩

/-! ### Messages -/

theorem Sound.handleInitialize (h : s.Sound) (r : Request) (pace : Pace) :
    (s.handleInitialize r pace).2.Sound := by
  rw [Session.handleInitialize]
  split
  · exact h.steady (.of_client s _)
  · split
    · exact h.steady (.of_client s _)
    · next root _ =>
        have hopened := h.openRoot root pace
        generalize s.openRoot root pace = outcome at hopened ⊢
        rcases outcome with ⟨_ | _, s'⟩
        · exact hopened.steady (.of_client s' _)
        · exact hopened.steady (.of_client s' _)

theorem Sound.shutdown (h : s.Sound) (pace : Pace) : (s.shutdown pace).Free := by
  rcases h.steady (stepRelation_tended.cancelAll s).steady with hfree | ⟨-, i, b, root, hbound⟩
  · have hentered : (s.cancelAll.enter .shuttingDown).Free :=
      ⟨hfree.current, hfree.slot, hfree.workspace⟩
    rw [Session.shutdown, release_of_none hentered.current]
    exact hentered
  · have hentered : (s.cancelAll.enter .shuttingDown).Bound i b root :=
      ⟨hbound.current, hbound.binding, hbound.slot, hbound.workspace, hbound.project,
        hbound.accepting⟩
    exact hentered.release pace

theorem Sound.handleRequest (h : s.Sound) (r : Request) (pace : Pace) :
    (s.handleRequest r pace).2.Sound := by
  rw [Session.handleRequest]
  split
  · exact h.handleInitialize r pace
  · split
    · rw [handleShutdown]
      split
      · exact h.steady (.of_client s _)
      · exact .inl ((h.shutdown pace).steady (.of_client _ _))
    · split
      · exact h.steady (.of_client s _)
      · exact h.steady (.of_client s _)
      · exact h.steady (.of_client s _)
      · split
        · exact h.steady (.of_client s _)
        · exact h.steady (stepRelation_tended.ask ..).steady

/-- No step makes the project of a session, its phase and its workspace disagree. -/
theorem Sound.step (h : s.Sound) (next : Step) (pace : Pace) : (s.step next pace).2.Sound := by
  cases next with
  | work => exact h.steady (stepRelation_tended.workNext s).steady
  | message m =>
      cases m with
      | request r => exact h.handleRequest r pace
      | notification n => exact h.steady (steady_handleNotification s n)
      | response r => exact h.steady (stepRelation_tended.handleResponse s r).steady

theorem Sound.finish (h : s.Sound) (pace : Pace) : (s.finish pace).Free := by
  have hfree := (h.steady (stepRelation_tended.cancelAll s).steady).release pace
  exact ⟨hfree.current, hfree.slot, hfree.workspace⟩

end Session

end LanguageServer
