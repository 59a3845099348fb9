import LanguageServer.Proofs.Workspace.Steady

/-!
# One project after the other

A log is read call by call, with the project in mind that is open (`Call.next`). It is `Orderly` if
projects are opened and closed in turn. A workspace with such a log has no open project (`Idle`) or
exactly one (`Serving`). Opening a project leads from the first kind to the second, and closing it
leads back; everything steady stays where it is.
-/

namespace LanguageServer

/-- The project that is open after a call. A project may only be looked for while none is open, and
only the one that is open may be closed. -/
def Call.next (active : Option (FileKey × Nat)) : Call → Option (Option (FileKey × Nat))
  | .resolve root found => if active = none then some (found.map (root, ·)) else none
  | .closeProject id root _ => if active = some (root, id) then some none else none
  | .closeEditor _ | .refresh _ | .workspaceSymbols .. => some active

/-- A log that leads from no open project to the given one, or to none again. -/
def Orderly (calls : List Call) (active : Option (FileKey × Nat)) : Prop :=
  calls.foldlM Call.next none = some active

namespace Orderly

variable {calls : List Call} {active : Option (FileKey × Nat)} {root : FileKey} {id : Nat}

theorem append (h : Orderly calls active) {more : List Call} {active' : Option (FileKey × Nat)}
    (hmore : more.foldlM Call.next active = some active') : Orderly (calls ++ more) active' := by
  rw [Orderly, List.foldlM_append, h]
  exact hmore

theorem exists_of_append {more : List Call} (h : Orderly (calls ++ more) active) :
    ∃ middle, Orderly calls middle ∧ more.foldlM Call.next middle = some active := by
  rw [Orderly, List.foldlM_append] at h
  exact Option.bind_eq_some_iff.1 h

theorem foldlM_quiet {more : List Call} (hmore : ∀ call ∈ more, call.IsQuiet)
    (active : Option (FileKey × Nat)) : more.foldlM Call.next active = some active := by
  induction more with
  | nil => rfl
  | cons call more ih =>
      have hcall : Call.next active call = some active := by
        have hquiet := hmore call List.mem_cons_self
        cases call with
        | resolve => cases hquiet
        | closeProject => cases hquiet
        | closeEditor => rfl
        | refresh => rfl
        | workspaceSymbols => rfl
      rw [List.foldlM_cons, hcall]
      exact ih fun c hc => hmore c (List.mem_cons_of_mem call hc)

/-- An open project stays open until it is closed. -/
theorem close_mem {more : List Call}
    (hmore : more.foldlM Call.next (some (root, id)) = some active) :
    active = some (root, id) ∨ ∃ openFiles, .closeProject id root openFiles ∈ more := by
  induction more with
  | nil => exact .inl (Option.some.inj hmore).symm
  | cons call more ih =>
      rw [List.foldlM_cons] at hmore
      cases call with
      -- No project is looked for while this one is open.
      | resolve => cases hmore
      | closeProject id' root' openFiles =>
          rw [Call.next] at hmore
          split at hmore
          · next h =>
              cases h
              exact .inr ⟨openFiles, List.mem_cons_self⟩
          · cases hmore
      | closeEditor => exact (ih hmore).imp_right (Exists.imp fun _ => List.mem_cons_of_mem _)
      | refresh => exact (ih hmore).imp_right (Exists.imp fun _ => List.mem_cons_of_mem _)
      | workspaceSymbols => exact (ih hmore).imp_right (Exists.imp fun _ => List.mem_cons_of_mem _)

/-- Every project that has been opened has been closed since, or it is the one that is open. -/
theorem closed_of_opened {before after : List Call}
    (h : Orderly (before ++ .resolve root (some id) :: after) active) :
    active = some (root, id) ∨ ∃ openFiles, .closeProject id root openFiles ∈ after := by
  obtain ⟨middle, -, hafter⟩ := h.exists_of_append
  rw [List.foldlM_cons, Call.next] at hafter
  split at hafter
  · exact close_mem hafter
  · cases hafter

/-- It has been closed before the next project is looked for. -/
theorem closed_before_next {before during after : List Call} {root' : FileKey}
    {found : Option Nat}
    (h : Orderly (before ++ .resolve root (some id) :: (during ++ .resolve root' found :: after))
      active) : ∃ openFiles, .closeProject id root openFiles ∈ during := by
  rw [← List.cons_append, ← List.append_assoc] at h
  obtain ⟨middle, hbefore, hafter⟩ := h.exists_of_append
  rw [List.foldlM_cons, Call.next] at hafter
  split at hafter
  · next hnone =>
      subst hnone
      exact (closed_of_opened hbefore).resolve_left nofun
  · cases hafter

end Orderly

/-! ### Workspaces with such a log -/

/-- Nothing is left of a project but its number. -/
structure Project.Released (p : Project) : Prop where
  isOpen : p.isOpen = false
  editors : p.editors = []
  listeners : p.listeners = []

theorem Project.Released.steady {p p' : Project} (h : p.Released) (hsteady : p.Steady p') :
    p'.Released :=
  ⟨hsteady.isOpen.trans h.isOpen, hsteady.editors h.isOpen h.editors,
    hsteady.listeners.trans h.listeners⟩

namespace Workspace

variable {w w' : Workspace} {id : Nat}

/-- No project is open. -/
structure Idle (w : Workspace) : Prop where
  table : w.table = []
  calls : Orderly w.calls none
  projects : ∀ other p, w.project? other = some p → p.Released

/-- One project is open. -/
structure Serving (w : Workspace) (id : Nat) (root : FileKey) : Prop where
  table : w.table = [(root, id)]
  calls : Orderly w.calls (some (root, id))
  project : ∃ p, w.project? id = some p ∧ p.root = root ∧ p.isOpen = true
  others : ∀ other p, other ≠ id → w.project? other = some p → p.Released

theorem Steady.orderly (h : Steady w w') {active : Option (FileKey × Nat)}
    (hcalls : Orderly w.calls active) : Orderly w'.calls active := by
  obtain ⟨more, hmore, hquiet⟩ := h.calls
  rw [hmore]
  exact hcalls.append (Orderly.foldlM_quiet hquiet active)

/-- Every project of a steady workspace was there before. -/
theorem Steady.exists_project (h : Steady w w') {other : Nat} {p' : Project}
    (hp' : w'.project? other = some p') : ∃ p, w.project? other = some p ∧ p.Steady p' := by
  obtain ⟨hlt, -⟩ := List.getElem?_eq_some_iff.1 hp'
  have hlt' : other < w.projects.length := h.length ▸ hlt
  have hp : w.project? other = some w.projects[other] := List.getElem?_eq_getElem hlt'
  obtain ⟨q, hq, hsteady⟩ := h.projects other _ hp
  exact ⟨_, hp, Option.some.inj (hq.symm.trans hp') ▸ hsteady⟩

theorem Idle.steady (h : Idle w) (hsteady : Steady w w') : Idle w' := by
  refine ⟨hsteady.table.trans h.table, hsteady.orderly h.calls, fun other p' hp' => ?_⟩
  obtain ⟨p, hp, hsame⟩ := hsteady.exists_project hp'
  exact (h.projects other p hp).steady hsame

theorem Serving.steady {root : FileKey} (h : Serving w id root) (hsteady : Steady w w') :
    Serving w' id root := by
  refine ⟨hsteady.table.trans h.table, hsteady.orderly h.calls, ?_, fun other p' hne hp' => ?_⟩
  · obtain ⟨p, hp, hroot, hopen⟩ := h.project
    obtain ⟨p', hp', hsame⟩ := hsteady.projects id p hp
    exact ⟨p', hp', hsame.root.trans hroot, hsame.isOpen.trans hopen⟩
  · obtain ⟨p, hp, hsame⟩ := hsteady.exists_project hp'
    exact (h.others other p hne hp).steady hsame

/-- Another project is put in place of the one that is open, with the same root. -/
theorem Serving.setProject {root : FileKey} (h : Serving w id root) {p : Project}
    (hroot : p.root = root) (hopen : p.isOpen = true) : Serving (w.setProject id p) id root := by
  obtain ⟨q, hq, -⟩ := h.project
  refine ⟨h.table, h.calls, ⟨p, project?_setProject hq p, hroot, hopen⟩, fun other p' hne hp' => ?_⟩
  exact h.others other p' hne ((project?_setProject_of_ne (Ne.symm hne) p).symm.trans hp')

/-! ### Opening and closing -/

theorem Idle.tracked?_eq_none (h : Idle w) (root : FileKey) : w.tracked? root = none := by
  rw [tracked?, h.table]
  rfl

/-- The workspace once a directory has been opened as a new project. -/
def withOpened (w : Workspace) (root : FileKey) (directory : Text) : Workspace := { w with
  calls := w.calls ++ [.resolve root (some w.projects.length)]
  nextTask := w.nextTask + 1
  projects := w.projects ++ [.ofDirectory w.disk w.libraries root directory]
  table := w.table ++ [(root, w.projects.length)] }

theorem project?_withOpened (w : Workspace) (root : FileKey) (directory : Text) :
    (w.withOpened root directory).project? w.projects.length
      = some (.ofDirectory w.disk w.libraries root directory) :=
  List.getElem?_concat_length

/-- Looking for a project that is not in the table opens a new one, or none. -/
theorem resolveProject_cases {root : FileKey} (htracked : w.tracked? root = none) :
    (∃ e, (resolveProject root).run w
      = (.error e, { w with calls := w.calls ++ [.resolve root none] })) ∨
    ∃ directory, (resolveProject root).run w
      = (.ok w.projects.length, w.withOpened root directory) := by
  simp only [resolveProject, StateT.run_bind, StateT.run_get, pure_bind]
  split
  · next path _ _ =>
      simp only [htracked]
      exact .inr ⟨path, rfl⟩
  · exact .inl ⟨_, rfl⟩
  · exact .inl ⟨_, rfl⟩

theorem Idle.missed (h : Idle w) (root : FileKey) :
    Idle { w with calls := w.calls ++ [.resolve root none] } :=
  ⟨h.table, h.calls.append rfl, h.projects⟩

theorem Idle.opened (h : Idle w) (root : FileKey) (directory : Text) :
    Serving (w.withOpened root directory) w.projects.length root := by
  refine ⟨by rw [withOpened, h.table]; rfl, h.calls.append rfl, ?_, fun other p hne hp => ?_⟩
  · exact ⟨_, project?_withOpened w root directory, rfl, rfl⟩
  · refine h.projects other p (Eq.trans ?_ hp)
    have hlt : other < w.projects.length := by
      have hlength := (List.getElem?_eq_some_iff.1 hp).1
      rw [withOpened, List.length_append, List.length_singleton] at hlength
      omega
    exact (List.getElem?_append_left hlt).symm

theorem closeProject_run_of_serving {root : FileKey} (h : Serving w id root) :
    ((closeProject id).run w).2 =
      { w with
        calls := w.calls ++ [.closeProject id root (w.openFiles id)]
        table := w.table.filter (·.1 ≠ root)
        projects := w.projects.modify id Project.close } := by
  obtain ⟨p, hp, rfl, hopen⟩ := h.project
  have htracked : w.tracked? p.root = some id := by
    rw [tracked?, h.table]
    simp
  simp only [closeProject, StateT.run_bind, StateT.run_get, pure_bind, hp, htracked]
  rfl

theorem closeProject_of_serving {root : FileKey} (h : Serving w id root) :
    Idle ((closeProject id).run w).2 := by
  rw [closeProject_run_of_serving h]
  refine ⟨by simp [h.table], h.calls.append (by simp [Call.next]), fun other q hq => ?_⟩
  rw [project?, List.getElem?_modify] at hq
  obtain ⟨q', hq', rfl⟩ := Option.map_eq_some_iff.1 hq
  split
  · exact ⟨rfl, rfl, rfl⟩
  · next hid => exact h.others other q' (Ne.symm hid) hq'

/-! ### Listening and leaving -/

/-- Whoever subscribes to a project listens to it, and nothing else changes. -/
theorem mapM_subscribe (more : List Listener) {p : Project} (hp : w.project? id = some p) :
    ∃ p', ((more.mapM (subscribe id)).run w).2 = w.setProject id p' ∧
      p'.toSources = p.toSources ∧ p'.isOpen = p.isOpen ∧ p'.editors = p.editors ∧
      p'.listeners.map (·.2) = p.listeners.map (·.2) ++ more := by
  induction more generalizing w p with
  | nil =>
      obtain ⟨hlt, hget⟩ := List.getElem?_eq_some_iff.1 hp
      refine ⟨p, ?_, rfl, rfl, rfl, (List.append_nil _).symm⟩
      rw [setProject, ← hget, List.set_getElem_self]
      rfl
  | cons listener more ih =>
      let q : Project := { p with
        listeners := p.listeners ++ [(p.nextSubscription, listener)]
        nextSubscription := p.nextSubscription + 1 }
      have hrun : ((subscribe id listener).run w).2 = w.setProject id q := by
        simp only [subscribe, StateT.run_bind, StateT.run_get, pure_bind, hp]
        rfl
      obtain ⟨p', hp', hsources, hopen, heditors, hlisteners⟩ := ih (project?_setProject hp q)
      refine ⟨p', ?_, hsources, hopen, heditors, ?_⟩
      · rw [List.mapM_cons]
        change ((more.mapM (subscribe id)).run ((subscribe id listener).run w).2).2 = _
        rw [hrun, hp', setProject, setProject, List.set_set]
        rfl
      · rw [hlisteners, List.map_append, List.append_assoc]
        rfl

theorem mapM_subscribe_of_serving {root : FileKey} (h : Serving w id root)
    (more : List Listener) : Serving ((more.mapM (subscribe id)).run w).2 id root := by
  obtain ⟨p, hp, hroot, hopen⟩ := h.project
  obtain ⟨p', hp', hsources, hopen', -⟩ := mapM_subscribe more hp
  rw [hp']
  exact h.setProject ((congrArg Sources.root hsources).trans hroot) (hopen'.trans hopen)

theorem unsubscribe_of_serving {root : FileKey} (h : Serving w id root) (subscription : Nat) :
    Serving ((unsubscribe id subscription).run w).2 id root ∧
      ((unsubscribe id subscription).run w).2.openFiles id = w.openFiles id := by
  obtain ⟨p, hp, hroot, hopen⟩ := h.project
  have hrun : ((unsubscribe id subscription).run w).2
      = w.setProject id { p with listeners := p.listeners.filter (·.1 ≠ subscription) } := by
    simp only [unsubscribe, StateT.run_modify, hp]
    rfl
  rw [hrun]
  refine ⟨h.setProject hroot hopen, ?_⟩
  rw [openFiles, openFiles, project?_setProject hp, hp]
  rfl

theorem forM_unsubscribe_of_serving {root : FileKey} (subscriptions : List Nat)
    (h : Serving w id root) :
    Serving ((subscriptions.forM (unsubscribe id)).run w).2 id root ∧
      ((subscriptions.forM (unsubscribe id)).run w).2.openFiles id = w.openFiles id := by
  induction subscriptions generalizing w with
  | nil => exact ⟨h, rfl⟩
  | cons subscription subscriptions ih =>
      obtain ⟨hfirst, hfiles⟩ := unsubscribe_of_serving h subscription
      obtain ⟨hrest, hrestFiles⟩ := ih hfirst
      exact ⟨hrest, hrestFiles.trans hfiles⟩

/-! ### At most one project -/

/-- At most one project is open, and one that was opened is closed before the next one is looked
for. -/
structure OneProject (w : Workspace) : Prop where
  closedFirst : ∀ before during after root id root' found,
    w.calls = before ++ .resolve root (some id) :: (during ++ .resolve root' found :: after) →
      ∃ openFiles, .closeProject id root openFiles ∈ during
  unique : ∀ id id' p p', w.project? id = some p → w.project? id' = some p' →
    p.isOpen = true → p'.isOpen = true → id = id'

/-- Every project that was opened is closed, and nobody listens to it any more. -/
structure AllClosed (w : Workspace) : Prop where
  closed : ∀ before after root id, w.calls = before ++ .resolve root (some id) :: after →
    ∃ openFiles, .closeProject id root openFiles ∈ after
  table : w.table = []
  projects : ∀ id p, w.project? id = some p → p.Released

theorem Idle.oneProject (h : Idle w) : OneProject w where
  closedFirst _ _ _ _ _ _ _ hcalls := (hcalls ▸ h.calls).closed_before_next
  unique id _ p _ hp _ hopen := by
    rw [(h.projects id p hp).isOpen] at hopen
    cases hopen

theorem Serving.oneProject {root : FileKey} (h : Serving w id root) : OneProject w where
  closedFirst _ _ _ _ _ _ _ hcalls := (hcalls ▸ h.calls).closed_before_next
  unique other other' p p' hp hp' hopen hopen' := by
    have hserved {k : Nat} {q : Project} (hq : w.project? k = some q) (hqopen : q.isOpen = true) :
        k = id := by
      by_cases hid : k = id
      · exact hid
      · rw [(h.others k q hid hq).isOpen] at hqopen
        cases hqopen
    rw [hserved hp hopen, hserved hp' hopen']

theorem Idle.allClosed (h : Idle w) : AllClosed w where
  closed _ _ _ _ hcalls := (hcalls ▸ h.calls).closed_of_opened.resolve_left nofun
  table := h.table
  projects := h.projects

end Workspace

end LanguageServer
