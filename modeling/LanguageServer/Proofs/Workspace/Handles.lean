import LanguageServer.Proofs.Workspace.CallLog
import Mathlib.Data.List.Nodup

/-!
# Projects by their roots and by their numbers

The table of a workspace has the open projects by their roots (`Tabled`), whatever has been done
with the workspace. So a root with an open project leads to that project again.

A project that is to be closed is given by its number, but it is looked for by its root. What is
closed is the open project with that root, and nothing else (`Tabled.closeProject_run`). The number
of a project that has been closed before closes the one that has been opened at its root since, and
only if there is none does nothing happen.
-/

namespace LanguageServer

/-- A path to a directory can be read off a root. -/
def FileTree.HasDirectory (disk : FileTree) (root : FileKey) (path : Text) : Prop :=
  root.localPath? = some path ∧ ∃ place, disk.follow path = .ok (place, .directory)

/-- What is left of a project once the open one with a root has been closed. -/
def Project.closedAt (root : FileKey) (p : Project) : Project :=
  if p.root = root ∧ p.isOpen = true then p.close else p

namespace Workspace

variable {w w' : Workspace} {root : FileKey} {id : Nat} {p : Project}

/-- The project with a number is open and has a root. -/
def OpenAt (w : Workspace) (root : FileKey) (id : Nat) : Prop :=
  ∃ p, w.project? id = some p ∧ p.root = root ∧ p.isOpen = true

/-! ### What is done with a workspace -/

/-- Everything that can be done with a workspace on one tree of files. -/
inductive Action
  | resolve (root : FileKey)
  | close (id : Nat)
  | reindex (id : Nat)
  | subscribe (id : Nat) (listener : Listener)
  | unsubscribe (id subscription : Nat)
  | refresh (id : Nat) (key : FileKey)
  | openEditor (id : Nat) (key : FileKey)
  | closeEditor (id : Nat) (key : FileKey)
  | edit (id : Nat) (key : FileKey) (change : Text → Text)
  | reload (id : Nat) (key : FileKey)
  | moveCaret (id : Nat) (key : FileKey) (offset : Nat)
  | search (id : Nat) (pattern : Text) (limit : Nat) (cancelled : Bool)

def act (w : Workspace) : Action → Workspace
  | .resolve root => ((resolveProject root).run w).2
  | .close id => ((closeProject id).run w).2
  | .reindex id => ((Workspace.reindex id).run w).2
  | .subscribe id listener => ((Workspace.subscribe id listener).run w).2
  | .unsubscribe id subscription => ((Workspace.unsubscribe id subscription).run w).2
  | .refresh id key => ((Workspace.refresh id key).run w).2
  | .openEditor id key => ((Workspace.openEditor id key).run w).2
  | .closeEditor id key => ((Workspace.closeEditor id key).run w).2
  | .edit id key change => ((Workspace.edit id key change).run w).2
  | .reload id key => ((Workspace.reload id key).run w).2
  | .moveCaret id key offset => ((Workspace.moveCaret id key offset).run w).2
  | .search id pattern limit cancelled =>
      ((workspaceSymbols id pattern limit cancelled).run w).2

/-! ### The table -/

/-- The table has the open projects, each by its root. Every root is one of a directory. -/
structure Tabled (w : Workspace) : Prop where
  mem_table : ∀ root id, (root, id) ∈ w.table ↔ w.OpenAt root id
  roots : (w.table.map (·.1)).Nodup
  directory : ∀ root id, w.OpenAt root id → ∃ path, w.disk.HasDirectory root path

theorem tabled_of_fresh (disk : FileTree) (libraries : List Text) (capabilities : Capabilities) :
    Tabled { disk, libraries, capabilities } where
  mem_table _ _ := ⟨nofun, fun ⟨_, hp, _⟩ => nomatch hp⟩
  roots := List.nodup_nil
  directory _ _ := fun ⟨_, hp, _⟩ => nomatch hp

namespace Tabled

theorem tracked?_eq_some_iff (h : Tabled w) :
    w.tracked? root = some id ↔ w.OpenAt root id := by
  rw [← h.mem_table, tracked?, Option.map_eq_some_iff]
  constructor
  · rintro ⟨⟨root', id'⟩, hfind, rfl⟩
    have hroot : root' = root := by simpa using List.find?_some hfind
    exact hroot ▸ List.mem_of_find?_eq_some hfind
  · intro hmem
    cases hfind : w.table.find? (·.1 = root) with
    | none => exact absurd (List.find?_eq_none.1 hfind _ hmem) (by simp)
    | some entry =>
        have hroot : entry.1 = root := by simpa using List.find?_some hfind
        have hsame := List.inj_on_of_nodup_map h.roots (List.mem_of_find?_eq_some hfind) hmem hroot
        exact ⟨entry, rfl, congrArg Prod.snd hsame⟩

theorem tracked?_eq_none_iff (h : Tabled w) :
    w.tracked? root = none ↔ ∀ id, ¬ w.OpenAt root id := by
  simp only [← h.tracked?_eq_some_iff, Option.eq_none_iff_forall_ne_some, ne_eq]

/-- Nothing but the root of a project and whether it is open matters. -/
theorem of_openAt (h : Tabled w) (htable : w'.table = w.table) (hdisk : w'.disk = w.disk)
    (hopen : ∀ root id, w'.OpenAt root id ↔ w.OpenAt root id) : Tabled w' where
  mem_table root id := by rw [htable, hopen, h.mem_table]
  roots := htable ▸ h.roots
  directory root id hroot := hdisk ▸ h.directory root id ((hopen root id).1 hroot)

theorem of_projects (h : Tabled w) (hprojects : w'.projects = w.projects)
    (htable : w'.table = w.table) (hdisk : w'.disk = w.disk) : Tabled w' := by
  refine h.of_openAt htable hdisk fun root id => ?_
  rw [OpenAt, OpenAt, project?, project?, hprojects]

end Tabled

/-! ### Opening -/

/-- What looking for a project can lead to. -/
theorem resolveProject_run_cases (w : Workspace) (root : FileKey) :
    (∃ e, (∀ path, ¬ w.disk.HasDirectory root path) ∧ (resolveProject root).run w
      = (.error e, { w with calls := w.calls ++ [.resolve root none] })) ∨
    (∃ id, w.tracked? root = some id ∧ (resolveProject root).run w
      = (.ok id, { w with calls := w.calls ++ [.resolve root (some id)] })) ∨
    ∃ path, w.disk.HasDirectory root path ∧ w.tracked? root = none ∧
      (resolveProject root).run w = (.ok w.projects.length, w.withOpened root path) := by
  simp only [resolveProject, StateT.run_bind, StateT.run_get, pure_bind, FileTree.HasDirectory]
  cases hpath : root.localPath? with
  | none => exact .inl ⟨_, nofun, rfl⟩
  | some path =>
      rcases hfollow : w.disk.follow path with e | ⟨place, _ | _⟩
      · refine .inl ⟨_, ?_, by simp only [Option.map_some, hfollow]; rfl⟩
        rintro _ ⟨hlocal, _, hplace⟩
        cases hlocal
        rw [hfollow] at hplace
        cases hplace
      · cases htracked : w.tracked? root with
        | some id =>
            refine .inr (.inl ⟨id, rfl, ?_⟩)
            simp only [Option.map_some, hfollow]
            rfl
        | none =>
            refine .inr (.inr ⟨path, ⟨rfl, place, hfollow⟩, rfl, ?_⟩)
            simp only [Option.map_some, hfollow]
            rfl
      · refine .inl ⟨_, ?_, by simp only [Option.map_some, hfollow]; rfl⟩
        rintro _ ⟨hlocal, _, hplace⟩
        cases hlocal
        rw [hfollow] at hplace
        cases hplace

namespace Tabled

/-- A root with an open project leads to that project, and nothing is opened. -/
theorem resolveProject_run (h : Tabled w) (hopen : w.OpenAt root id) :
    (resolveProject root).run w
      = (.ok id, { w with calls := w.calls ++ [.resolve root (some id)] }) := by
  have htracked := h.tracked?_eq_some_iff.2 hopen
  rcases w.resolveProject_run_cases root with ⟨_, hno, -⟩ | ⟨id', hid', hrun⟩ | ⟨_, -, hnone, -⟩
  · obtain ⟨path, hpath⟩ := h.directory root id hopen
    exact absurd hpath (hno path)
  · cases htracked.symm.trans hid'
    exact hrun
  · rw [hnone] at htracked
    cases htracked

theorem project?_withOpened_of_ne {path : Text} (hid : id ≠ w.projects.length) :
    (w.withOpened root path).project? id = w.project? id := by
  change (w.projects ++ [_])[id]? = w.projects[id]?
  rw [List.getElem?_append]
  split
  · rfl
  · rw [List.getElem?_eq_none (by rw [List.length_singleton]; omega),
      List.getElem?_eq_none (by omega)]

theorem openAt_withOpened (w : Workspace) (root : FileKey) (path : Text) (root' : FileKey)
    (id : Nat) : (w.withOpened root path).OpenAt root' id ↔
      w.OpenAt root' id ∨ root' = root ∧ id = w.projects.length := by
  by_cases hid : id = w.projects.length
  · subst hid
    have hnone : w.project? w.projects.length = none := List.getElem?_eq_none (Nat.le_refl _)
    simp only [OpenAt, project?_withOpened, hnone, Option.some.injEq, exists_eq_left', and_true,
      reduceCtorEq, false_and, exists_false, false_or]
    exact ⟨fun hnew => hnew.1.symm, fun hroot => ⟨hroot.symm, rfl⟩⟩
  · simp only [OpenAt, project?_withOpened_of_ne hid, hid, and_false, or_false]

theorem withOpened (h : Tabled w) {path : Text} (hpath : w.disk.HasDirectory root path)
    (hnew : ∀ id, ¬ w.OpenAt root id) : Tabled (w.withOpened root path) where
  mem_table root' id := by
    rw [openAt_withOpened, ← h.mem_table]
    change (root', id) ∈ w.table ++ [(root, w.projects.length)] ↔ _
    simp only [List.mem_append, List.mem_singleton, Prod.mk.injEq]
  roots := by
    change ((w.table ++ [(root, w.projects.length)]).map (·.1)).Nodup
    rw [List.map_append, List.map_singleton, List.nodup_append]
    refine ⟨h.roots, List.nodup_singleton root, fun other hother root' hroot' => ?_⟩
    obtain ⟨⟨_, id⟩, hmem, rfl⟩ := List.mem_map.1 hother
    cases List.mem_singleton.1 hroot'
    rintro rfl
    exact hnew id ((h.mem_table _ id).1 hmem)
  directory root' id hopen := by
    rcases (openAt_withOpened w root path root' id).1 hopen with hold | ⟨rfl, -⟩
    · exact h.directory root' id hold
    · exact ⟨path, hpath⟩

theorem resolve (h : Tabled w) (root : FileKey) : Tabled ((resolveProject root).run w).2 := by
  rcases w.resolveProject_run_cases root with
    ⟨_, -, hrun⟩ | ⟨id, -, hrun⟩ | ⟨path, hpath, hnone, hrun⟩
  · rw [hrun]
    exact h.of_openAt rfl rfl fun _ _ => Iff.rfl
  · rw [hrun]
    exact h.of_openAt rfl rfl fun _ _ => Iff.rfl
  · rw [hrun]
    exact h.withOpened hpath (h.tracked?_eq_none_iff.1 hnone)

end Tabled

/-! ### Closing -/

/-- The workspace once the project with a number has been asked to be closed. -/
def withClosed (w : Workspace) (id : Nat) (root : FileKey) : Workspace := { w with
  calls := w.calls ++ [.closeProject id root (w.openFiles id)]
  table := w.table.filter (·.1 ≠ root)
  projects := w.projects.map (·.closedAt root) }

theorem project?_withClosed (w : Workspace) (id : Nat) (root : FileKey) (other : Nat) :
    (w.withClosed id root).project? other = (w.project? other).map (·.closedAt root) :=
  List.getElem?_map

theorem Tabled.openAt_unique (h : Tabled w) {other : Nat} (hid : w.OpenAt root id)
    (hother : w.OpenAt root other) : id = other :=
  Option.some.inj ((h.tracked?_eq_some_iff.2 hid).symm.trans (h.tracked?_eq_some_iff.2 hother))

theorem closedAt_of_not_openAt {other : Nat} {q : Project} (hq : w.project? other = some q)
    (hnot : ¬ w.OpenAt root other) : q.closedAt root = q :=
  if_neg fun hopen => hnot ⟨q, hq, hopen⟩

/-- At most one project is open at a root, so it is the one in the table that is closed. -/
theorem Tabled.map_closedAt (h : Tabled w) (root : FileKey) :
    w.projects.map (·.closedAt root) =
      match w.tracked? root with
      | none => w.projects
      | some opened => w.projects.modify opened Project.close := by
  refine List.ext_getElem? fun other => ?_
  rw [List.getElem?_map]
  cases hq : w.projects[other]? with
  | none =>
      cases w.tracked? root with
      | none => exact hq.symm
      | some opened =>
          dsimp only
          rw [List.getElem?_modify, hq]
          rfl
  | some q =>
      rw [Option.map_some]
      cases htracked : w.tracked? root with
      | none => rw [closedAt_of_not_openAt hq (h.tracked?_eq_none_iff.1 htracked other), hq]
      | some opened =>
          have hopened := h.tracked?_eq_some_iff.1 htracked
          dsimp only
          rw [List.getElem?_modify, hq, Option.map_eq_map, Option.map_some]
          split
          · next hid =>
              obtain ⟨_, hq', hopen⟩ := hid ▸ hopened
              cases hq.symm.trans hq'
              rw [Project.closedAt, if_pos hopen]
          · next hid =>
              rw [closedAt_of_not_openAt hq fun hother => hid (h.openAt_unique hopened hother)]

/-- There is nothing to close at a root without an open project. -/
theorem Tabled.withClosed_eq (h : Tabled w) (hno : ∀ other, ¬ w.OpenAt root other) (id : Nat) :
    w.withClosed id root
      = { w with calls := w.calls ++ [.closeProject id root (w.openFiles id)] } := by
  have htable : w.table.filter (·.1 ≠ root) = w.table := by
    refine List.filter_eq_self.2 fun entry hentry => decide_eq_true fun hroot => ?_
    exact hno entry.2 ((h.mem_table _ _).1 (hroot ▸ hentry))
  rw [withClosed, h.map_closedAt, h.tracked?_eq_none_iff.2 hno, htable]

/-- The open project with the root of the given one is closed, if there is one. All others stay. -/
theorem Tabled.closeProject_run (h : Tabled w) (hp : w.project? id = some p) :
    ((closeProject id).run w).2 = w.withClosed id p.root := by
  simp only [closeProject, StateT.run_bind, StateT.run_get, pure_bind, hp]
  cases htracked : w.tracked? p.root with
  | none =>
      rw [h.withClosed_eq (h.tracked?_eq_none_iff.1 htracked)]
      rfl
  | some other =>
      rw [withClosed, h.map_closedAt, htracked]
      rfl

theorem openAt_withClosed (w : Workspace) (id : Nat) (root root' : FileKey) (other : Nat) :
    (w.withClosed id root).OpenAt root' other ↔ w.OpenAt root' other ∧ root' ≠ root := by
  constructor
  · rintro ⟨p', hp', hroot', hopen'⟩
    rw [project?_withClosed] at hp'
    obtain ⟨q, hq, rfl⟩ := Option.map_eq_some_iff.1 hp'
    by_cases hclosed : q.root = root ∧ q.isOpen = true
    · rw [Project.closedAt, if_pos hclosed] at hopen'
      cases hopen'
    · rw [Project.closedAt, if_neg hclosed] at hroot' hopen'
      exact ⟨⟨q, hq, hroot', hopen'⟩, fun hsame => hclosed ⟨hroot'.trans hsame, hopen'⟩⟩
  · rintro ⟨⟨q, hq, hroot', hopen'⟩, hne⟩
    have hstays : q.closedAt root = q := if_neg fun hclosed => hne (hroot'.symm.trans hclosed.1)
    refine ⟨q, ?_, hroot', hopen'⟩
    rw [project?_withClosed, hq, Option.map_some, hstays]

theorem Tabled.withClosed_eq_iff (h : Tabled w) (id : Nat) (root : FileKey) :
    w.withClosed id root = { w with calls := w.calls ++ [.closeProject id root (w.openFiles id)] } ↔
      ∀ other, ¬ w.OpenAt root other := by
  refine ⟨fun hsame other hopen => ?_, fun hno => h.withClosed_eq hno id⟩
  have hstays : (w.withClosed id root).OpenAt root other := hsame ▸ hopen
  exact ((openAt_withClosed w id root root other).1 hstays).2 rfl

theorem Tabled.withClosed (h : Tabled w) (id : Nat) (root : FileKey) :
    Tabled (w.withClosed id root) where
  mem_table root' other := by
    change (root', other) ∈ w.table.filter _ ↔ _
    rw [List.mem_filter, openAt_withClosed, h.mem_table, decide_eq_true_iff]
  roots := h.roots.sublist (List.filter_sublist.map _)
  directory root' other hopen :=
    h.directory root' other ((openAt_withClosed w id root root' other).1 hopen).1

theorem Tabled.close (h : Tabled w) (id : Nat) : Tabled ((closeProject id).run w).2 := by
  cases hp : w.project? id with
  | none =>
      have hrun : ((closeProject id).run w).2 = w := by
        simp only [closeProject, StateT.run_bind, StateT.run_get, pure_bind, hp]
        rfl
      rw [hrun]
      exact h
  | some p =>
      rw [h.closeProject_run hp]
      exact h.withClosed id p.root

/-! ### Everything else -/

namespace Tabled

/-- A project is put in place of another one that is as open as itself. -/
theorem setProject (h : Tabled w) (hp : w.project? id = some p) {q : Project}
    (hroot : q.root = p.root) (hopen : q.isOpen = p.isOpen) : Tabled (w.setProject id q) := by
  refine h.of_openAt rfl rfl fun root other => ?_
  by_cases hid : id = other
  · subst hid
    simp only [OpenAt, project?_setProject hp, hp, Option.some.injEq, exists_eq_left', hroot, hopen]
  · rw [OpenAt, OpenAt, project?_setProject_of_ne hid]

/-- Operations on files neither open nor close projects. -/
theorem operates (h : Tabled w) (hoperates : w.Operates id (fun _ => True) w') : Tabled w' := by
  rcases hoperates.projects with ⟨hprojects, -⟩ | ⟨p, q, events, hp, hoperation, hprojects, -⟩
  · exact h.of_projects hprojects hoperates.table hoperates.disk
  · have hsteady := hoperation.steady
    have hreplaced : Tabled (w.setProject id q) := h.setProject hp hsteady.root hsteady.isOpen
    exact hreplaced.of_projects hprojects hoperates.table hoperates.disk

theorem act (h : Tabled w) (action : Action) : Tabled (w.act action) := by
  cases action with
  | resolve root => exact h.resolve root
  | close id => exact h.close id
  | reindex id =>
      rw [Workspace.act, Workspace.reindex_run]
      cases hp : w.project? id with
      | none => exact h
      | some p => exact (h.setProject (q := p.rebuild _ _) hp rfl rfl).of_projects rfl rfl rfl
  | subscribe id listener =>
      simp only [Workspace.act, Workspace.subscribe, StateT.run_bind, StateT.run_get, pure_bind]
      cases hp : w.project? id with
      | none => exact h
      | some p => exact h.setProject hp rfl rfl
  | unsubscribe id subscription =>
      simp only [Workspace.act, Workspace.unsubscribe, StateT.run_modify]
      cases hp : w.project? id with
      | none => exact h
      | some p => exact h.setProject hp rfl rfl
  | refresh id key => exact h.operates (w.operates_refresh id key)
  | openEditor id key => exact h.operates (w.operates_openEditor id key)
  | closeEditor id key => exact h.operates (w.operates_closeEditor id trivial)
  | edit id key change => exact h.operates (w.operates_edit id key change)
  | reload id key => exact h.operates (w.operates_reload id key)
  | moveCaret id key offset => exact h.operates (w.operates_moveCaret id key offset)
  | search id pattern limit cancelled =>
      simp only [Workspace.act, workspaceSymbols, StateT.run_bind, note, StateT.run_modify,
        StateT.run_get, pure_bind]
      split <;> exact h.of_projects rfl rfl rfl

theorem foldl_act (h : Tabled w) (actions : List Action) :
    Tabled (actions.foldl Workspace.act w) := by
  induction actions generalizing w with
  | nil => exact h
  | cons action actions ih => exact ih (h.act action)

end Tabled

/-! ### Handles -/

/-- Whatever has been done with a workspace: its table has the open projects by their roots, at most
one for each, and such a root leads to its project, with no other effect than the call in the log.
Whoever asks for a project to be closed gets the open project with the same root closed, and nothing
else. So a project that is open is closed itself. The number of one that is not closes another one
if that has been opened at its root since, and only otherwise does nothing happen. -/
theorem projects_by_root (disk : FileTree) (libraries : List Text) (capabilities : Capabilities)
    (actions : List Action) :
    let w := actions.foldl act { disk, libraries, capabilities }
    (∀ root id, (root, id) ∈ w.table ↔ w.OpenAt root id) ∧
    (w.table.map (·.1)).Nodup ∧
    (∀ root id, w.OpenAt root id → (resolveProject root).run w
      = (.ok id, { w with calls := w.calls ++ [.resolve root (some id)] })) ∧
    ∀ id p, w.project? id = some p →
      ((closeProject id).run w).2 = { w with
        calls := w.calls ++ [.closeProject id p.root (w.openFiles id)]
        table := w.table.filter (·.1 ≠ p.root)
        projects := w.projects.map (·.closedAt p.root) } ∧
      (p.isOpen = true → w.projects.map (·.closedAt p.root) = w.projects.modify id Project.close) ∧
      (((closeProject id).run w).2
          = { w with calls := w.calls ++ [.closeProject id p.root (w.openFiles id)] } ↔
        ∀ other, ¬ w.OpenAt p.root other) := by
  intro w
  have h : Tabled w := (tabled_of_fresh disk libraries capabilities).foldl_act actions
  refine ⟨h.mem_table, h.roots, fun root id => h.resolveProject_run, fun id p hp => ?_⟩
  have hrun := h.closeProject_run hp
  refine ⟨hrun, fun hopen => ?_, ?_⟩
  · rw [h.map_closedAt, h.tracked?_eq_some_iff.2 ⟨p, hp, rfl, hopen⟩]
  · rw [hrun]
    exact h.withClosed_eq_iff id p.root

/-- A project is closed and opened again at its root, which leads to the new one from then on. -/
theorem projects_by_root_reopened :
    let root := FileKey.ofUri sampleRoot
    let w := [.resolve root, .close 0, .resolve root].foldl act { disk := sampleDisk }
    (w.OpenAt root 1 ∧ (resolveProject root).run w
      = (.ok 1, { w with calls := w.calls ++ [.resolve root (some 1)] })) ∧
    ∃ p, w.project? 0 = some p ∧
      ((closeProject 0).run w).2.projects = w.projects.map (·.closedAt p.root) := by
  intro root w
  have hopened : (w.project? 1).map (fun p => (p.root, p.isOpen)) = some (root, true) := by
    decide +kernel
  have hclosed : (w.project? 0).isSome := by decide +kernel
  obtain ⟨p₁, hp₁, hfields⟩ := Option.map_eq_some_iff.1 hopened
  obtain ⟨p₀, hp₀⟩ := Option.isSome_iff_exists.1 hclosed
  obtain ⟨hroot, hisOpen⟩ := Prod.mk.inj hfields
  have hopen : w.OpenAt root 1 := ⟨p₁, hp₁, hroot, hisOpen⟩
  obtain ⟨-, -, hresolve, hclose⟩ := projects_by_root sampleDisk [] .standard
    [.resolve root, .close 0, .resolve root]
  refine ⟨⟨hopen, hresolve root 1 hopen⟩, p₀, hp₀, ?_⟩
  rw [(hclose 0 p₀ hp₀).1]

/-- A project is opened, closed and opened again. The number of the first one then closes the second
one. -/
theorem reopened_project_closed :
    let w := [.resolve (.ofUri sampleRoot), .close 0, .resolve (.ofUri sampleRoot)].foldl act
      { disk := sampleDisk }
    (w.project? 0).map (·.isOpen) = some false ∧ (w.project? 1).map (·.isOpen) = some true ∧
      ((w.act (.close 0)).project? 1).map (·.isOpen) = some false := by
  decide +kernel

end Workspace

end LanguageServer
