import LanguageServer.Proofs.Session.Moves
import LanguageServer.Proofs.Session.Projects

/-!
# Files that are open when their project is closed

A session that leaves a project closes all its editors first. Requests may be worked on until the
project is closed, though, and the work on a file opens its editor again. It can be opened after
such work exactly if it could be before (`Workspace.Opens`). So what is open when the project is
closed are the files that were worked on meanwhile, of those that can be opened at all.
-/

namespace LanguageServer

namespace Project

theorem isSome_opened? (p : Project) (disk : FileTree) (key : FileKey) :
    (p.opened? disk key).isSome = (p.isOpen && ((p.editors.get? key).isSome ||
      (key.localPath?.bind fun path => (disk.readText path).toOption).isSome)) := by
  unfold opened?
  split
  · next hopen => rw [hopen, Bool.true_and, Option.isSome_or, Option.isSome_map]
  · next hclosed => rw [Bool.eq_false_iff.2 hclosed, Bool.false_and, Option.isSome_none]

/-- Opening an editor leaves every other one that is open, and adds one that can be opened. -/
theorem isSome_editor_openEditor (p : Project) (disk : FileTree) (key other : FileKey) :
    ((p.openEditor disk key).1.editors.get? other).isSome ↔
      (p.editors.get? other).isSome ∨ other = key ∧ (p.opened? disk key).isSome := by
  rw [isSome_opened?]
  unfold openEditor
  cases hopen : p.isOpen with
  | false => simp
  | true =>
      cases heditor : p.editors.get? key with
      | some editor =>
          simp only [Bool.not_true, Bool.false_eq_true, if_false, Option.isSome_some, if_true,
            Bool.true_or, Bool.and_self, and_true]
          exact ⟨.inl, fun h => h.elim id fun hkey => hkey ▸ heditor ▸ rfl⟩
      | none =>
          cases hpath : key.localPath? with
          | none => simp
          | some path =>
              cases hread : disk.readText path with
              | error e => simp [hread, Except.toOption]
              | ok found =>
                  simp only [Bool.not_true, Bool.false_eq_true, if_false, Option.isSome_none,
                    Option.map_some, hread, setEditor, Keyed.get?_insert, Option.bind_some,
                    Except.toOption, Option.isSome_some, Bool.or_true, Bool.and_self, and_true]
                  split
                  · next hkey => simp [hkey]
                  · next hkey => simp [Ne.symm hkey]

/-- Opening an editor changes nothing about what can be opened. -/
theorem isSome_opened?_openEditor (p : Project) (disk : FileTree) (key other : FileKey) :
    ((p.openEditor disk key).1.opened? disk other).isSome = (p.opened? disk other).isSome := by
  have heditor := p.isSome_editor_openEditor disk key other
  rw [isSome_opened?, (p.steady_openEditor disk key).isOpen, Bool.eq_iff_iff,
    isSome_opened? p disk other]
  rw [isSome_opened?] at heditor
  by_cases hkey : other = key
  · subst hkey
    simp only [Bool.and_eq_true, Bool.or_eq_true, heditor]
    tauto
  · simp only [Bool.and_eq_true, Bool.or_eq_true, heditor, hkey, false_and, or_false]

theorem isSome_editor_moveCaret (p : Project) (key : FileKey) (offset : Nat) (other : FileKey) :
    ((p.moveCaret key offset).editors.get? other).isSome ↔ (p.editors.get? other).isSome := by
  unfold moveCaret
  split
  · rfl
  · next editor heditor =>
      rw [Keyed.get?_insert]
      split
      · next hkey => simp [← hkey, heditor]
      · rfl

theorem isSome_opened?_moveCaret (p : Project) (disk : FileTree) (key : FileKey) (offset : Nat)
    (other : FileKey) :
    ((p.moveCaret key offset).opened? disk other).isSome = (p.opened? disk other).isSome := by
  rw [isSome_opened?, (p.steady_moveCaret key offset).isOpen,
    Bool.eq_iff_iff.2 (p.isSome_editor_moveCaret key offset other), ← isSome_opened?]

end Project

namespace Workspace

variable {w w₁ w' : Workspace} {id : Nat} {keys keys' : List FileKey}

/-- The editors of some files of a project have been opened. What can be opened is as before. -/
structure Opens (id : Nat) (keys : List FileKey) (w w' : Workspace) : Prop where
  opened : ∀ other key, (w'.opened? other key).isSome = (w.opened? other key).isSome
  files : ∀ key, key ∈ w'.openFiles id ↔ key ∈ w.openFiles id ∨ key ∈ keys

/-- Whether a file can be opened is a matter of the disk, the capabilities and its project. -/
theorem isSome_opened?_congr {other : Nat} {key : FileKey}
    (hcapabilities : w'.capabilities = w.capabilities)
    (hproject : ((w'.project? other).bind (·.opened? w'.disk key)).isSome =
      ((w.project? other).bind (·.opened? w.disk key)).isSome) :
    (w'.opened? other key).isSome = (w.opened? other key).isSome := by
  rw [opened?, opened?, hcapabilities]
  rcases w.capabilities.opensEditor key with _ | _ | _
  · rfl
  · rfl
  · exact hproject

namespace Opens

theorem refl (w : Workspace) : Opens id [] w w :=
  ⟨fun _ _ => rfl, fun _ => (or_iff_left List.not_mem_nil).symm⟩

theorem trans (h : Opens id keys w w₁) (h' : Opens id keys' w₁ w') :
    Opens id (keys ++ keys') w w' := by
  refine ⟨fun other key => (h'.opened other key).trans (h.opened other key), fun key => ?_⟩
  rw [h'.files, h.files, List.mem_append, or_assoc]

theorem of_projects (hdisk : w'.disk = w.disk) (hcapabilities : w'.capabilities = w.capabilities)
    (hprojects : w'.projects = w.projects) : Opens id [] w w' := by
  refine ⟨fun other key => ?_, fun key => ?_⟩
  · rw [opened?, opened?, project?, hdisk, hcapabilities, hprojects, ← project?]
  · rw [openFiles, project?, hprojects, ← project?, ← openFiles]
    exact (or_iff_left List.not_mem_nil).symm

/-- A project is put in place of one in which the same files can be opened. -/
theorem of_setProject {other : Nat} {p q : Project} (hp : w.project? other = some p)
    (hopened : ∀ key, (q.opened? w.disk key).isSome = (p.opened? w.disk key).isSome)
    (heditors : ∀ key, (q.editors.get? key).isSome ↔ (p.editors.get? key).isSome ∨ key ∈ keys) :
    Opens id (if other = id then keys else []) w (w.setProject other q) := by
  refine ⟨fun k key => isSome_opened?_congr rfl ?_, fun key => ?_⟩
  · by_cases hk : other = k
    · subst hk
      rw [project?_setProject hp, hp]
      exact hopened key
    · rw [project?_setProject_of_ne hk]
      rfl
  · rw [mem_openFiles, mem_openFiles]
    split
    · next hid =>
        subst hid
        rw [editor?_setProject hp, heditors, editor?, hp, Option.bind_some]
    · next hid =>
        rw [editor?_setProject_of_ne hid]
        exact (or_iff_left List.not_mem_nil).symm

end Opens

/-- The files that can be opened, of one that is asked for in a project. -/
def opens (w : Workspace) (id other : Nat) (key : FileKey) : List FileKey :=
  if other = id then if (w.opened? other key).isSome then [key] else [] else []

theorem opens_openEditor (w : Workspace) (id other : Nat) (key : FileKey) :
    Opens id (w.opens id other key) w ((openEditor other key).run w).2 := by
  have hnone (h : w.opened? other key = none) : Opens id (w.opens id other key) w w := by
    rw [opens, h, Option.isSome_none, if_neg Bool.false_ne_true, ite_self]
    exact .refl w
  rw [openEditor_run]
  rcases hopens : w.capabilities.opensEditor key with fault | _ | _
  · exact hnone (by rw [opened?, hopens])
  · exact hnone (by rw [opened?, hopens])
  · cases hp : w.project? other with
    | none => exact hnone (by rw [opened?, hopens, hp, Option.bind_none])
    | some p =>
        have hopened : w.opened? other key = p.opened? w.disk key := by
          rw [opened?, hopens, hp, Option.bind_some]
        have heditors : ∀ k, ((p.openEditor w.disk key).1.editors.get? k).isSome ↔
            (p.editors.get? k).isSome ∨
              k ∈ if (w.opened? other key).isSome then [key] else [] := by
          intro k
          rw [p.isSome_editor_openEditor, hopened]
          split <;> simp_all
        have hset : Opens id (w.opens id other key) w
            (w.setProject other (p.openEditor w.disk key).1) :=
          .of_setProject hp (p.isSome_opened?_openEditor w.disk key) heditors
        exact ⟨hset.opened, hset.files⟩

theorem opens_moveCaret (w : Workspace) (id other : Nat) (key : FileKey) (offset : Nat) :
    Opens id [] w ((moveCaret other key offset).run w).2 := by
  rw [moveCaret_run]
  split
  · exact .refl w
  · next p hp =>
      have hset : Opens id (if other = id then [] else []) w
          (w.setProject other (p.moveCaret key offset)) :=
        .of_setProject hp (fun other => p.isSome_opened?_moveCaret w.disk key offset other)
          fun other => ((p.isSome_editor_moveCaret key offset other).trans
            (or_iff_left List.not_mem_nil).symm)
      rwa [ite_self] at hset

theorem opens_unsubscribe (w : Workspace) (id other subscription : Nat) :
    Opens id [] w ((unsubscribe other subscription).run w).2 := by
  simp only [unsubscribe, StateT.run_modify]
  split
  · exact .refl w
  · next p hp =>
      let unheard : Project := { p with listeners := p.listeners.filter (·.1 ≠ subscription) }
      have hset : Opens id (if other = id then [] else []) w (w.setProject other unheard) :=
        .of_setProject hp (fun _ => rfl) fun _ => (or_iff_left List.not_mem_nil).symm
      rwa [ite_self] at hset

theorem opens_forM_unsubscribe (w : Workspace) (id other : Nat) (subscriptions : List Nat) :
    Opens id [] w ((subscriptions.forM (unsubscribe other)).run w).2 := by
  induction subscriptions generalizing w with
  | nil => exact .refl w
  | cons subscription subscriptions ih =>
      exact (w.opens_unsubscribe id other subscription).trans (ih _)

end Workspace

namespace Work

open Workspace (Opens)

theorem opens_enter (work : Work) (w : Workspace) (id : Nat) :
    Opens id (w.opens id work.project work.key) w (work.enter.run w).2 := by
  have hopened := w.opens_openEditor id work.project work.key
  rw [enter_run]
  generalize (Workspace.openEditor work.project work.key).run w = outcome at hopened ⊢
  rcases outcome with ⟨fault | _ | _, w₁⟩
  · exact hopened
  · exact hopened
  · dsimp only
    split
    · next e _ _ =>
        have hmoved := fun caret =>
          hopened.trans (w₁.opens_moveCaret id work.project work.key caret)
        rw [List.append_nil] at hmoved
        exact hmoved _
    · exact hopened

/-- Work opens an editor before all else, unless it has been cancelled by then. -/
theorem opens_run {α : Type} (work : Work) (query : Sources → Context → Except Fault α)
    (w : Workspace) (id : Nat) :
    Opens id (if work.cancellation = .before then [] else w.opens id work.project work.key) w
      ((work.run true query).run w).2 := by
  by_cases hbefore : work.cancellation = .before
  · rw [if_pos hbefore]
    simp only [run, hbefore, if_true]
    exact .refl w
  · have hentered := work.opens_enter w id
    have henter : work.enter.run w = pure ((work.enter.run w).1, (work.enter.run w).2) := rfl
    rw [if_neg hbefore]
    simp only [run, Bool.not_true, Bool.false_eq_true, if_false, if_neg hbefore, StateT.run_bind]
    rw [henter, pure_bind]
    rcases (work.enter.run w).1 with fault | _ | ⟨sources, context⟩
    · exact hentered
    · exact hentered
    · dsimp only
      cases query sources context <;> exact hentered

end Work

/-- A search for symbols opens nothing. -/
theorem opens_searchSymbols (w : Workspace) (id project : Nat) (query : Text) (limit : Nat)
    (cancelled : Bool) :
    w.Opens id [] ((searchSymbols project query limit cancelled).run w).2 := by
  simp only [searchSymbols, StateT.run_bind, StateT.run_get, pure_bind]
  generalize (if query.isEmpty then ['*'] else query) = pattern
  have hnoted : w.Opens id [] ((Workspace.note (.workspaceSymbols pattern limit)).run w).2 :=
    .of_projects rfl rfl rfl
  obtain ⟨found, hrun⟩ : ∃ found,
      (Workspace.workspaceSymbols project pattern limit cancelled).run w
        = pure (found, ((Workspace.note (.workspaceSymbols pattern limit)).run w).2) :=
    ⟨_, Session.workspaceSymbols_run ..⟩
  split
  · exact .refl w
  · rw [StateT.run_bind, hrun, pure_bind]
    cases found with
    | error fault => exact hnoted
    | ok found => cases cancelled <;> exact hnoted

namespace Session

variable {s s₁ s' : Session} {id : Nat} {keys keys' : List FileKey}

/-- The files that the work on a request opens in a project: the one that it is about, if it can be
opened, unless the request has been cancelled before anyone has begun with it. -/
def opens (s : Session) (id : Nat) (job : Job) : List FileKey :=
  match s.bindings[job.binding]?, job.question with
  | some b, .about uri _ _ =>
    if job.cancelled && !job.begun then [] else s.workspace.opens id b.project (.ofUri uri)
  | _, _ => []

theorem opens_within {α : Type} (documents : Documents) {steps : WorkspaceM α} {id : Nat}
    {keys : List FileKey} (h : s.workspace.Opens id keys (steps.run s.workspace).2) :
    s.workspace.Opens id keys (s.within documents steps).2.workspace := by
  rw [within_workspace]
  exact ⟨h.opened, h.files⟩

theorem opens_outcome {b : Binding} {job : Job} (hb : s.bindings[job.binding]? = some b)
    (id : Nat) : s.workspace.Opens id (s.opens id job) (s.outcome b job).2.workspace := by
  unfold outcome opens
  rw [hb]
  cases job.question with
  | about uri position command =>
      have hwithin := opens_within b.documents ((workOf b job uri position command).opens_run
        (fun sources => command.execute s.workspace.capabilities sources b.cache) s.workspace id)
      have hbefore : (workOf b job uri position command).cancellation = .before ↔
          (job.cancelled && !job.begun) = true := by
        cases hcancelled : job.cancelled <;> cases hbegun : job.begun <;>
          simp [workOf, hcancelled, hbegun]
      simp only [perform]
      rw [if_congr hbefore rfl rfl] at hwithin
      generalize s.within b.documents _ = outcome at hwithin ⊢
      rcases outcome with ⟨fault | _ | ⟨result, cache⟩, s₁⟩ <;> exact hwithin
  | symbols query => exact opens_within _ (opens_searchSymbols ..)
  | resolveItem item => dsimp only; split <;> exact .refl _
  | answered result => exact .refl _

/-- The editors of some files of a project have been opened, and what work opens is as before. -/
structure Opens (id : Nat) (keys : List FileKey) (s s' : Session) : Prop where
  workspace : s.workspace.Opens id keys s'.workspace
  projects : s'.bindings.map Binding.project = s.bindings.map Binding.project

namespace Opens

theorem refl (s : Session) : Opens id [] s s := ⟨.refl _, rfl⟩

theorem trans (h : Opens id keys s s₁) (h' : Opens id keys' s₁ s') :
    Opens id (keys ++ keys') s s' :=
  ⟨h.workspace.trans h'.workspace, h'.projects.trans h.projects⟩

theorem of_tended (h : s.workspace.Opens id keys s'.workspace) (htended : Tended s s') :
    Opens id keys s s' := by
  refine ⟨h, ?_⟩
  have hproject : Binding.project = Prod.fst ∘ Binding.held := rfl
  rw [hproject, ← List.map_map, ← List.map_map, htended.bindings]

theorem opens (h : Opens id keys s s') : s'.opens id = s.opens id := by
  funext job
  have hproject := congrArg (·[job.binding]?) h.projects
  simp only [List.getElem?_map] at hproject
  unfold Session.opens Workspace.opens
  cases hb : s.bindings[job.binding]? with
  | none =>
      rw [hb, Option.map_none, Option.map_eq_none_iff] at hproject
      rw [hproject]
  | some b =>
      rw [hb, Option.map_some, Option.map_eq_some_iff] at hproject
      obtain ⟨b', hb', hsame⟩ := hproject
      rw [hb']
      cases job.question <;> simp only [hsame, h.workspace.opened]

end Opens

/-! ### Work on requests that wait -/

theorem opens_runJob (s : Session) (id : Nat) (job : Job) :
    Opens id (s.opens id job) s (s.runJob job) := by
  refine .of_tended ?_ (stepRelation_tended.runJob s job)
  rw [runJob]
  split
  · next hnone =>
      rw [opens, hnone]
      exact .refl _
  · next b hb =>
      have houtcome := opens_outcome hb id
      split
      · next heq =>
          rw [heq] at houtcome
          exact houtcome
      · next heq =>
          rw [heq] at houtcome
          exact houtcome

/-- What is worked on is gone from the queue, and what it opens is known beforehand. -/
theorem opens_workSome (s : Session) (id n : Nat) :
    Opens id ((s.queue.take n).flatMap (s.opens id)) s (s.workSome n) ∧
      (s.workSome n).queue = s.queue.drop n := by
  induction n generalizing s with
  | zero => exact ⟨.refl s, rfl⟩
  | succ n ih =>
      obtain ⟨hsome, hqueue⟩ := ih s.workNext
      cases hwaiting : s.queue with
      | nil =>
          have hidle : s.workNext = s := by rw [workNext, hwaiting]
          rw [hidle, hwaiting] at hsome hqueue
          simp only [workSome, hidle]
          exact ⟨by simpa using hsome, by simpa using hqueue⟩
      | cons job rest =>
          let taken : Session := { s with queue := rest }
          have hnext : s.workNext = taken.runJob job := by rw [workNext, hwaiting]
          have htaken := opens_runJob taken id job
          have hworked : Opens id (s.opens id job) s (taken.runJob job) :=
            ⟨htaken.workspace, htaken.projects⟩
          rw [hnext, hworked.opens, queue_runJob] at hsome
          rw [hnext, queue_runJob] at hqueue
          rw [workSome, hnext, List.take_succ_cons, List.flatMap_cons, List.drop_succ_cons]
          exact ⟨hworked.trans hsome, hqueue⟩

/-! ### Leaving and closing -/

/-- Work goes on where it has stopped. -/
theorem Opens.workSome {queue : List Job} {done : Nat}
    (h : Opens id ((queue.take done).flatMap (s.opens id)) s s₁)
    (hqueue : s₁.queue = queue.drop done) (n : Nat) :
    Opens id ((queue.take (done + n)).flatMap (s.opens id)) s (s₁.workSome n) ∧
      (s₁.workSome n).queue = queue.drop (done + n) := by
  obtain ⟨hsome, hrest⟩ := s₁.opens_workSome id n
  rw [h.opens, hqueue] at hsome
  rw [hqueue, List.drop_drop] at hrest
  refine ⟨?_, hrest⟩
  rw [List.take_add, List.flatMap_append]
  exact h.trans hsome

/-- A step that opens nothing may come in between. -/
theorem Opens.trans_nil (h : Opens id keys s s₁) (h' : Opens id [] s₁ s') : Opens id keys s s' := by
  have hboth := h.trans h'
  rwa [List.append_nil] at hboth

/-- What is opened before the project of a binding is closed. -/
theorem opens_leave (s : Session) (i : Nat) (b : Binding) (pace : Pace) (id : Nat) :
    Opens id ((s.queue.take (pace.closed + pace.unheard + pace.ended)).flatMap
      ((s.closeDocuments i b).opens id)) (s.closeDocuments i b) (s.leave i b pace) := by
  have hunheard (s₁ : Session) : Opens id [] s₁ (s₁.unsubscribe b) :=
    ⟨Workspace.opens_forM_unsubscribe .., rfl⟩
  have hended (s₁ : Session) : Opens id [] s₁ (s₁.modifyProgress Progress.stop) := by
    refine .of_tended ?_ (tended_modifyProgress s₁ Progress.reportRelation_quiet.stop)
    rw [modifyProgress_workspace]
    exact .refl _
  obtain ⟨h₁, hqueue₁⟩ := (s.closeDocuments i b).opens_workSome id pace.closed
  obtain ⟨h₂, hqueue₂⟩ := (h₁.trans_nil (hunheard _)).workSome hqueue₁ pace.unheard
  have hqueue₃ := (unmoved_modifyProgress _ Progress.stop).queue.trans hqueue₂
  exact ((h₂.trans_nil (hended _)).workSome hqueue₃ pace.ended).1

/-- The project that a session is bound to is closed, with the files open that the requests opened
which were worked on after all its editors had been closed. -/
theorem Bound.calls_release {i : Nat} {b : Binding} {root : FileKey} (h : s.Bound i b root)
    (pace : Pace) :
    ∃ openFiles, (s.release pace).workspace.calls
        = (s.leave i b pace).workspace.calls ++ [.closeProject b.project root openFiles] ∧
      ∀ key, key ∈ openFiles ↔
        key ∈ (s.queue.take (pace.closed + pace.unheard + pace.ended)).flatMap
          ((s.closeDocuments i b).opens b.project) := by
  obtain ⟨b', hleft, hsame⟩ := h.leave pace
  have hserving := hleft.workspace
  rw [hsame] at hserving
  have hclosed : (s.release pace).workspace
      = ((Workspace.closeProject b.project).run (s.leave i b pace).workspace).2 := by
    rw [release_eq h.current h.binding?]
    rfl
  rw [hclosed, Workspace.closeProject_run_of_serving hserving]
  refine ⟨_, rfl, fun key => ?_⟩
  rw [(s.opens_leave i b pace b.project).workspace.files, h.closeDocuments.2]
  exact or_iff_right List.not_mem_nil

end Session

end LanguageServer
