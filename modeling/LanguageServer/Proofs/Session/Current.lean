import LanguageServer.Proofs.Session.Shown

/-!
# Findings are up to date

A session that is sound and informed keeps the findings of every open file up to date
(`Session.Current`), whatever message it takes. The one condition is that no other open file of the
project has an address that leads to the key of the file, so what a step gives is
`Session.Abreast`.
-/

namespace LanguageServer

namespace Workspace

variable {w : Workspace} {id : Nat}

theorem editor?_of_released (h : ∀ p, w.project? id = some p → p.Released) (key : FileKey) :
    w.editor? id key = none := by
  rw [editor?]
  cases hp : w.project? id with
  | none => rfl
  | some p => rw [Option.bind_some, (h p hp).editors, Keyed.get?_nil]

theorem listeners_of_released (h : ∀ p, w.project? id = some p → p.Released) :
    w.listeners id = [] := by
  rw [listeners]
  cases hp : w.project? id with
  | none => rfl
  | some p => rw [Option.map_some, (h p hp).listeners]; rfl

end Workspace

namespace Session

open Workspace (Keeps WorkRelation)

variable {s s' : Session} {id i : Nat} {b : Binding} {key : FileKey}

/-- A session has the project with a number, or no file of that project is open as long as it does
not get another one. -/
theorem Sound.bound_or_vacant (h : s.Sound) (id : Nat) :
    (∃ i b root, s.Bound i b root ∧ b.project = id) ∨
      ∀ {s'}, Steady s s' → ∀ key, s'.workspace.editor? id key = none := by
  rcases h with hfree | ⟨-, i, b, root, hbound⟩
  · exact .inr fun hsteady => Workspace.editor?_of_released
      ((hfree.workspace.steady hsteady.workspace).projects id)
  · by_cases hid : b.project = id
    · exact .inl ⟨i, b, root, hbound, hid⟩
    · exact .inr fun hsteady => Workspace.editor?_of_released fun p =>
        (hbound.workspace.steady hsteady.workspace).others id p (Ne.symm hid)

/-- All documents have addresses that lead to them, and the client is shown the text of a file if
it is open. -/
structure Current (s : Session) (id : Nat) (key : FileKey) : Prop where
  labelled : ∀ b ∈ s.bindings, b.documents.Labelled
  shown : s.Shown id key

theorem Current.attended (h : s.Current id key) (hinformed : s.Informed) {root : FileKey}
    (hbound : s.Bound i b root) (hid : b.project = id) : s.Attended id key where
  connected := hinformed.connected
  told := hinformed.events
  heard := by
    subst hid
    exact ⟨(hinformed.attached i b hbound.current hbound.binding).listeners, fun other hne =>
      Workspace.listeners_of_released fun p => hbound.workspace.others other p hne⟩
  labelled := h.labelled
  shown := h.shown

/-- The client is up to date, unless another open file has an address that leads to the key. -/
def Abreast (s : Session) (id : Nat) (key : FileKey) : Prop :=
  s.workspace.Unshared id key → s.Current id key

theorem Current.watched (h : s.Current id key) (hsound : s.Sound) (hinformed : s.Informed)
    (hwatched : Watched id key s s') : s'.Abreast id key := by
  intro hunshared
  refine ⟨labelled_of_held hwatched.tended.bindings h.labelled, ?_⟩
  rcases hsound.bound_or_vacant id with ⟨i, b, root, hbound, hid⟩ | hvacant
  · exact hwatched.shown hunshared (h.attended hinformed hbound hid)
  · intro e he
    cases (hvacant hwatched.tended.steady key).symm.trans he

theorem held_within {α : Type} (s : Session) (docs : Documents) (steps : WorkspaceM α) :
    (s.within docs steps).2.bindings.map Binding.held = s.bindings.map Binding.held :=
  (Tended.foldl (tended_deliver docs) _ _).bindings

theorem labelled_setDocuments (i : Nat) (h : ∀ b ∈ s.bindings, b.documents.Labelled)
    {docs : Documents} (hdocs : docs.Labelled) :
    ∀ b ∈ (s.modifyBinding i fun b => { b with documents := docs }).bindings,
      b.documents.Labelled := by
  intro b' hb'
  obtain ⟨j, hj⟩ := List.mem_iff_getElem?.1 hb'
  simp only [modifyBinding, List.getElem?_modify] at hj
  obtain ⟨b, hb, rfl⟩ := Option.map_eq_some_iff.1 hj
  split
  · exact hdocs
  · exact h b (List.mem_of_getElem? hb)

/-! ### Notifications -/

theorem Current.withDocuments (h : s.Current id key) (hsound : s.Sound) (hinformed : s.Informed)
    (hb : s.bindings[i]? = some b) (seen : Documents)
    {steps : WorkspaceM (Except DocumentError Unit × Documents)} (hkeeps : Keeps steps)
    (hsame : b.documents.SameProject (steps.run s.workspace).1.2)
    (hlabelled : (steps.run s.workspace).1.2.Labelled)
    (hfollows : ∀ s₀ : Session, s₀.client.connected = true → s.workspace.Heard id →
      (steps.run s.workspace).2.Unshared id key → Follows s₀ seen id key s.workspace →
      Follows s₀ seen id key (steps.run s.workspace).2) :
    (s.withDocuments i seen steps).Abreast id key := by
  intro hunshared
  refine ⟨labelled_setDocuments i (labelled_of_held (held_within s seen steps) h.labelled)
    hlabelled, ?_⟩
  rcases hsound.bound_or_vacant id with ⟨i', b', root, hbound, hid⟩ | hvacant
  · have hattended := h.attended hinformed hbound hid
    change (s.within seen steps).2.workspace.Unshared id key at hunshared
    rw [within_workspace] at hunshared
    have hshown : (s.within seen steps).2.Shown id key := hattended.within fun s₀ hconnected =>
      hfollows s₀ hconnected hattended.heard hunshared
    exact hshown
  · intro e he
    cases (hvacant (steady_withDocuments hb seen hkeeps hsame) key).symm.trans he

/-- Closing an editor leaves the texts of the other ones, and nobody is told. -/
theorem follows_stop {docs seen : Documents} {w : Workspace} (uri : Text) {s₀ : Session}
    (hconnected : s₀.client.connected = true) (hseen : seen.Labelled) (hkey : key.LeadsTo key)
    (hheard : w.Heard id) (hunshared : ((docs.stop uri).run w).2.Unshared id key)
    (h : Follows s₀ seen id key w) : Follows s₀ seen id key ((docs.stop uri).run w).2 := by
  rcases docs.stop_workspace uri w with hsame | hclosed
  · rw [hsame]
    exact h
  · have hcloses : w.Operates docs.project (fun _ => True)
        ((Workspace.closeEditor docs.project (.ofUri uri)).run w).2 :=
      w.operates_closeEditor docs.project trivial
    rw [hclosed] at hunshared ⊢
    exact h.operates hconnected hseen hkey hheard hunshared hcloses

theorem Current.client (h : s.Current id key) {c : Client} (hc : s.client.Unposted c) :
    { s with client := c }.Current id key := by
  refine ⟨h.labelled, fun e he => ?_⟩
  obtain ⟨uri, version, hlast⟩ := h.shown e he
  exact ⟨uri, version, by rw [hc.posted, hlast]⟩

theorem Abreast.announceIndexing (h : s.Abreast id key) : s.announceIndexing.Abreast id key := by
  rw [Session.announceIndexing]
  split
  · exact fun hunshared => (h hunshared).client (s.client.unposted_notify _ (by decide))
  · exact h

theorem Current.notified (h : s.Current id key) (hsound : s.Sound) (hinformed : s.Informed)
    (hkey : key.LeadsTo key) (hb : s.bindings[i]? = some b) (n : Notification) :
    (s.notified i b.documents n).Abreast id key := by
  have hdocs : b.documents.Addressed fun key uri => FileKey.ofUri uri = key :=
    h.labelled b (List.mem_of_getElem? hb)
  have hfollowed : ∀ {seen : Documents}, seen.Labelled → ∀ s₀ : Session,
      s₀.client.connected = true → WorkRelation (Followed s₀ seen id key) b.documents.project :=
    fun hseen s₀ hconnected => workRelation_followed hconnected hseen hkey _
  have hdropped : s.Abreast id key := fun _ => h
  rw [Session.notified]
  split
  · refine taken_or_dropped (r := fun _ s' => s'.Abreast id key) (fun d => ?_) hdropped _
    exact (h.withDocuments hsound hinformed hb _ (Documents.keeps_start _ _ _ _)
      (Documents.sameProject_start ..) (hdocs.start d.uri _ rfl d.text d.version)
      fun s₀ hs₀ => ((hfollowed hdocs s₀ hs₀).start ..).follows).announceIndexing
  · refine taken_or_dropped (r := fun _ s' => s'.Abreast id key) (fun d => ?_) hdropped _
    exact h.withDocuments hsound hinformed hb _ (Documents.keeps_update _ _ _ _)
      (Documents.sameProject_update ..) (hdocs.update d.uri _ d.version d.changes)
      fun s₀ hs₀ => ((hfollowed hdocs s₀ hs₀).update ..).follows
  · refine taken_or_dropped (r := fun _ s' => s'.Abreast id key) (fun uri => ?_) hdropped _
    exact h.withDocuments hsound hinformed hb _ (Documents.keeps_sync _ _)
      (Documents.sameProject_sync ..) (hdocs.sync uri _)
      fun s₀ hs₀ => ((hfollowed (hdocs.setVersion _ none) s₀ hs₀).sync ..).follows
  · refine taken_or_dropped (r := fun _ s' => s'.Abreast id key) (fun uri => ?_) hdropped _
    exact h.withDocuments hsound hinformed hb _ (Documents.keeps_stop _ _)
      (Documents.sameProject_stop ..) (hdocs.stop uri _)
      fun s₀ hs₀ => follows_stop uri hs₀ hdocs hkey
  · refine taken_or_dropped (r := fun _ s' => s'.Abreast id key) (fun uris => ?_) hdropped _
    exact h.watched hsound hinformed ((stepRelation_watched hkey).didRename hb uris)
  · exact hdropped

theorem Current.handleNotification (h : s.Current id key) (hsound : s.Sound)
    (hinformed : s.Informed) (hkey : key.LeadsTo key) (n : Notification) :
    (s.handleNotification n).2.Abreast id key := by
  have hdropped : s.Abreast id key := fun _ => h
  rw [Session.handleNotification]
  split
  · exact hdropped
  · split
    · refine taken_or_dropped (r := fun _ s' => s'.Abreast id key) (fun request => ?_) hdropped _
      exact h.watched hsound hinformed ((stepRelation_watched hkey).cancel s request)
    · split
      · exact hdropped
      · split
        · next i b _ hcurrent hbinding =>
            rw [binding?, hcurrent, Option.bind_some] at hbinding
            exact h.notified hsound hinformed hkey hbinding n
        · exact hdropped

/-! ### Requests -/

/-- No document stays when a project is left, and the work meanwhile adds none. -/
theorem labelled_release (h : ∀ b ∈ s.bindings, b.documents.Labelled) (pace : Pace) :
    ∀ b ∈ (s.release pace).bindings, b.documents.Labelled := by
  cases hbinding : s.binding? with
  | none =>
      rw [release_of_unbound hbinding]
      exact h
  | some b =>
      obtain ⟨i, hcurrent, -⟩ := Option.bind_eq_some_iff.1 hbinding
      have hclosed : ∀ b' ∈ (s.closeDocuments i b).bindings, b'.documents.Labelled := by
        have hemptied : (s.quietly b.documents.closeAll).1.managed = [] :=
          congrArg Documents.managed (b.documents.closeAll_docs s.workspace)
        exact labelled_setDocuments (s := (s.quietly b.documents.closeAll).2) i h
          (Documents.labelled_of_managed_eq_nil hemptied)
      have hunheard := labelled_of_held
        (stepRelation_tended.workSome (s.closeDocuments i b) pace.closed).bindings hclosed
      have hended : Tended (((s.closeDocuments i b).workSome pace.closed).unsubscribe b)
          (s.leave i b pace) :=
        ((stepRelation_tended.workSome _ pace.unheard).trans
          (tended_modifyProgress _ Progress.reportRelation_quiet.stop)).trans
            (stepRelation_tended.workSome _ pace.ended)
      rw [release_eq hcurrent hbinding]
      exact labelled_of_held hended.bindings hunheard

/-- No file of a project that has just been opened is open. -/
theorem Sound.editor?_openRoot (h : s.Sound) (root : Option Text) (pace : Pace) (id : Nat)
    (key : FileKey) : (s.openRoot root pace).2.workspace.editor? id key = none := by
  have hfree := h.release pace
  unfold Session.openRoot
  rw [hfree.closeLeftover]
  generalize s.release pace = s at hfree
  cases root with
  | none => exact Workspace.editor?_of_released (hfree.workspace.projects id) key
  | some uri =>
      dsimp only [quietly]
      rcases Workspace.resolveProject_cases (hfree.workspace.tracked?_eq_none (.ofUri uri))
        with ⟨e, hrun⟩ | ⟨directory, hrun⟩
      · rw [hrun]
        exact Workspace.editor?_of_released (hfree.workspace.projects id) key
      · rw [hrun]
        have hopened := hfree.workspace.opened (.ofUri uri) directory
        have hserving := Workspace.mapM_subscribe_of_serving hopened
          [.diagnostics, .indexStatus, .progress]
        obtain ⟨p', hp', -, -, heditors, -⟩ := Workspace.mapM_subscribe
          [.diagnostics, .indexStatus, .progress]
          (s.workspace.project?_withOpened (.ofUri uri) directory)
        change ((subscriptions s.workspace.projects.length).run
          (s.workspace.withOpened (.ofUri uri) directory)).2.editor? id key = none
        -- The new project has no editor yet, and all other ones have been released.
        by_cases hid : id = s.workspace.projects.length
        · rw [hid, subscriptions, hp',
            Workspace.editor?_setProject (s.workspace.project?_withOpened ..), heditors]
          rfl
        · exact Workspace.editor?_of_released (fun p => hserving.others id p hid) key

theorem labelled_bind (h : ∀ b ∈ s.bindings, b.documents.Labelled) (id : Nat) :
    ∀ b ∈ (s.bind id).bindings, b.documents.Labelled := by
  intro b hb
  rw [bind, quietly] at hb
  rcases List.mem_append.1 hb with hb | hb
  · exact h b hb
  · obtain rfl := List.mem_singleton.1 hb
    exact Documents.labelled_of_managed_eq_nil rfl

theorem labelled_openRoot (h : ∀ b ∈ s.bindings, b.documents.Labelled) (hsound : s.Sound)
    (root : Option Text) (pace : Pace) :
    ∀ b ∈ (s.openRoot root pace).2.bindings, b.documents.Labelled := by
  have hreleased := labelled_release h pace
  unfold Session.openRoot
  rw [(hsound.release pace).closeLeftover]
  generalize s.release pace = s at hreleased
  cases root with
  | none => exact hreleased
  | some uri =>
      dsimp only [quietly]
      generalize (Workspace.resolveProject (.ofUri uri)).run s.workspace = outcome
      rcases outcome with ⟨_ | id, w⟩
      · exact hreleased
      · exact labelled_bind (s := { s with workspace := w }) hreleased id

theorem Current.respond (h : s.Current id key) (r : Response) : (s.respond r).Current id key :=
  h.client (s.client.unposted_respond r)

theorem Current.openRoot (h : s.Current id key) (hsound : s.Sound) (root : Option Text)
    (pace : Pace) : (s.openRoot root pace).2.Current id key :=
  ⟨labelled_openRoot h.labelled hsound root pace, fun e he => by
    rw [hsound.editor?_openRoot] at he
    cases he⟩

theorem Current.handleInitialize (h : s.Current id key) (hsound : s.Sound) (r : Request)
    (pace : Pace) : (s.handleInitialize r pace).2.Current id key := by
  rw [Session.handleInitialize]
  split
  · exact h.respond _
  · split
    · exact h.respond _
    · next root _ =>
        have hopened := h.openRoot hsound root pace
        generalize s.openRoot root pace = outcome at hopened ⊢
        rcases outcome with ⟨_ | _, s'⟩
        · exact hopened.respond _
        · exact hopened.respond _

theorem Current.shutdown (h : s.Current id key) (hsound : s.Sound) (pace : Pace) :
    (s.shutdown pace).Current id key := by
  refine ⟨?_, fun e he => ?_⟩
  · exact labelled_release (s := s.cancelAll.enter .shuttingDown)
      (labelled_of_held (stepRelation_tended.cancelAll s).bindings h.labelled) pace
  · rw [Workspace.editor?_of_released ((hsound.shutdown pace).workspace.projects id)] at he
    cases he

theorem Current.handleRequest (h : s.Current id key) (hsound : s.Sound) (hinformed : s.Informed)
    (hkey : key.LeadsTo key) (r : Request) (pace : Pace) :
    (s.handleRequest r pace).2.Abreast id key := by
  rw [Session.handleRequest]
  split
  · exact fun _ => h.handleInitialize hsound r pace
  · split
    · rw [handleShutdown]
      split
      · exact fun _ => h.respond _
      · exact fun _ => (h.shutdown hsound pace).respond _
    · split
      · exact fun _ => h.respond _
      · exact fun _ => h.respond _
      · exact fun _ => h.respond _
      · split
        · exact fun _ => h.respond _
        · exact h.watched hsound hinformed ((stepRelation_watched hkey).ask ..)

/-- A step keeps the client up to date, as long as no other open file leads to the key. -/
theorem Current.step (h : s.Current id key) (hsound : s.Sound) (hinformed : s.Informed)
    (hkey : key.LeadsTo key) (next : Step) (pace : Pace) :
    (s.step next pace).2.Abreast id key := by
  have hwatched : StepRelation (Watched id key) := stepRelation_watched hkey
  cases next with
  | work => exact h.watched hsound hinformed (hwatched.workNext s)
  | message m =>
      cases m with
      | request r => exact h.handleRequest hsound hinformed hkey r pace
      | notification n => exact h.handleNotification hsound hinformed hkey n
      | response r => exact h.watched hsound hinformed (hwatched.handleResponse s r)

end Session

end LanguageServer
