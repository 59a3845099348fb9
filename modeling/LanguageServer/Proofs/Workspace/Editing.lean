import LanguageServer.Workspace.Workspace

/-!
# What becomes of an editor

Work on a file starts by opening its editor, so what it finds is `Workspace.opened?`: the editor
that is there, or a new one on the text on disk. The operations that follow are described by that
editor alone. Opening puts it in place (`openEditor_run`), editing and reloading change its text and
nothing else about it, and none of them can take it away.
-/

namespace LanguageServer

namespace Project

/-- The editor of a file once it has been opened. -/
def opened? (p : Project) (disk : FileTree) (key : FileKey) : Option Editor :=
  if p.isOpen then
    (p.editors.get? key).or
      ((key.localPath?.bind fun path => (disk.readText path).toOption).map fun (text, writable) =>
        .ofFile text writable)
  else none

/-- Opening gives the editor that there is to open, and says whether there is one. -/
theorem openEditor_opened (p : Project) (disk : FileTree) (key : FileKey) :
    (p.openEditor disk key).2.1 = (p.opened? disk key).isSome ∧
      ∀ editor, p.opened? disk key = some editor →
        (p.openEditor disk key).1.editors.get? key = some editor := by
  unfold openEditor opened?
  cases hopen : p.isOpen with
  | false => simp
  | true =>
      cases heditor : p.editors.get? key with
      | some editor => simp [heditor]
      | none =>
          cases hpath : key.localPath? with
          | none => simp
          | some path =>
              cases hread : disk.readText path with
              | error e => simp [hread, Except.toOption]
              | ok found => simp [hread, Except.toOption, setEditor]

/-- An editor that is open stays as it is when it is opened again. -/
theorem openEditor_get? {p : Project} {key : FileKey} {editor : Editor}
    (heditor : p.editors.get? key = some editor) (disk : FileTree) :
    (p.openEditor disk key).1.editors.get? key = some editor := by
  unfold openEditor
  simp only [heditor, Option.isSome_some]
  split <;> exact heditor

/-- Reading a file again changes the index only. -/
theorem rescan_eq (p : Project) (disk : FileTree) (key : FileKey) (path : Text) :
    (p.rescan disk key path).1 = { p with index := (p.rescan disk key path).1.index } := by
  unfold rescan
  split
  · rfl
  · split <;> rfl

theorem foldl_rescan_eq (files : List (Text × Text)) (p : Project) (disk : FileTree) :
    ∃ index, files.foldl (fun p (child, _) => (p.rescan disk (.ofLocalPath child) child).1) p
      = { p with index } := by
  induction files generalizing p with
  | nil => exact ⟨p.index, rfl⟩
  | cons file files ih =>
      rw [List.foldl_cons]
      obtain ⟨index, hindex⟩ := ih (p.rescan disk (.ofLocalPath file.1) file.1).1
      rw [hindex, rescan_eq]
      exact ⟨index, rfl⟩

theorem refresh_eq (p : Project) (disk : FileTree) (key : FileKey) :
    ∃ index, (p.refresh disk key).1 = { p with index } := by
  unfold refresh
  split
  · exact ⟨p.index, rfl⟩
  · split
    · exact foldl_rescan_eq _ p disk
    · rw [rescan_eq]
      exact ⟨_, rfl⟩

end Project

namespace Workspace

variable {w : Workspace} {id : Nat} {key : FileKey} {editor : Editor}

/-- The editor of a file once it has been opened. The workspace may refuse to open it. -/
def opened? (w : Workspace) (id : Nat) (key : FileKey) : Option Editor :=
  match w.capabilities.opensEditor key with
  | .ok true => (w.project? id).bind (·.opened? w.disk key)
  | _ => none

theorem project?_setProject {p : Project} (h : w.project? id = some p) (q : Project) :
    (w.setProject id q).project? id = some q := by
  obtain ⟨hlt, -⟩ := List.getElem?_eq_some_iff.1 h
  simp [project?, setProject, hlt]

theorem project?_setProject_of_ne {other : Nat} (h : id ≠ other) (q : Project) :
    (w.setProject id q).project? other = w.project? other :=
  List.getElem?_set_ne h

theorem editor?_setProject_of_ne {other : Nat} (h : id ≠ other) (q : Project) :
    (w.setProject id q).editor? other key = w.editor? other key := by
  rw [editor?, project?_setProject_of_ne h, editor?]

theorem editor?_setProject {p : Project} (h : w.project? id = some p) (q : Project) :
    (w.setProject id q).editor? id key = q.editors.get? key := by
  rw [editor?, project?_setProject h, Option.bind_some]

theorem exists_project_of_editor (h : w.editor? id key = some editor) :
    ∃ p, w.project? id = some p ∧ p.editors.get? key = some editor :=
  Option.bind_eq_some_iff.1 h

theorem mem_openFiles :
    key ∈ w.openFiles id ↔ (w.editor? id key).isSome := by
  rw [openFiles, editor?]
  cases w.project? id with
  | none => simp
  | some p =>
      rw [Option.map_some, Option.getD_some, Option.bind_some, Keyed.get?, Option.isSome_map,
        List.find?_isSome, List.mem_map]
      simp

/-! ### Opening -/

theorem openEditor_run (w : Workspace) (id : Nat) (key : FileKey) :
    (openEditor id key).run w =
      match w.capabilities.opensEditor key, w.project? id with
      | .error fault, _ => (.error fault, w)
      | .ok false, _ | _, none => (.ok false, w)
      | .ok true, some p =>
        (.ok (p.openEditor w.disk key).2.1,
          ((emit id (p.openEditor w.disk key).2.2).run
            (w.setProject id (p.openEditor w.disk key).1)).2) := by
  simp only [openEditor, StateT.run_bind, StateT.run_get, pure_bind]
  rcases w.capabilities.opensEditor key with _ | _ | _ <;> rcases w.project? id with _ | p <;> rfl

theorem openEditor_of_opened (h : w.opened? id key = some editor) :
    ∃ w', (openEditor id key).run w = (.ok true, w') ∧ w'.editor? id key = some editor := by
  unfold opened? at h
  split at h
  · next hopens =>
      obtain ⟨p, hp, heditor⟩ := Option.bind_eq_some_iff.1 h
      obtain ⟨hopened, hget⟩ := p.openEditor_opened w.disk key
      rw [openEditor_run, hopens, hp]
      simp only [hopened, heditor, Option.isSome_some]
      exact ⟨_, rfl, (editor?_setProject hp _).trans (hget editor heditor)⟩
  · cases h

theorem openEditor_of_not_opened (h : w.opened? id key = none) :
    ((openEditor id key).run w).1 ≠ .ok true := by
  rw [openEditor_run]
  unfold opened? at h
  split at h
  · next hopens =>
      rw [hopens]
      cases hp : w.project? id with
      | none => simp
      | some p =>
          rw [hp, Option.bind_some] at h
          simp [(p.openEditor_opened w.disk key).1, h]
  · next hopens =>
      cases hresult : w.capabilities.opensEditor key with
      | error fault => simp
      | ok answer =>
          cases answer with
          | false => simp
          | true => exact absurd hresult hopens

theorem openEditor_disk (w : Workspace) (id : Nat) (key : FileKey) :
    ((openEditor id key).run w).2.disk = w.disk := by
  rw [openEditor_run]
  split <;> rfl

/-- An editor that is open stays as it is, whether it can be opened again or not. -/
theorem editor?_openEditor (h : w.editor? id key = some editor) :
    ((openEditor id key).run w).2.editor? id key = some editor := by
  obtain ⟨p, hp, heditor⟩ := exists_project_of_editor h
  rw [openEditor_run, hp]
  split
  · exact h
  · exact h
  · next hnone _ _ => cases hnone
  · next hsome =>
      cases hsome
      exact (editor?_setProject hp _).trans (Project.openEditor_get? heditor w.disk)

theorem opened?_of_editor (h : w.editor? id key = some editor) {other : Editor}
    (hopened : w.opened? id key = some other) : other = editor := by
  obtain ⟨w', hrun, hother⟩ := openEditor_of_opened hopened
  have hstays := editor?_openEditor h
  rw [hrun, hother] at hstays
  exact Option.some.inj hstays

/-! ### Changing -/

theorem settle_run (w : Workspace) (id : Nat)
    (outcome : Except WorkspaceError (Project × List ProjectEvent)) :
    (settle id outcome).run w =
      match outcome with
      | .error e => (.error e, w)
      | .ok (p, events) => (.ok (), ((emit id events).run (w.setProject id p)).2) := by
  rcases outcome with _ | ⟨p, events⟩ <;> rfl

theorem edit_run (w : Workspace) (id : Nat) (key : FileKey) (change : Text → Text) :
    (edit id key change).run w =
      match w.project? id with
      | none => (.error (.failed []), w)
      | some p => (settle id (p.edit key change)).run w := by
  simp only [edit, StateT.run_bind, StateT.run_get, pure_bind]
  rcases w.project? id with _ | p <;> rfl

theorem reload_run (w : Workspace) (id : Nat) (key : FileKey) :
    (reload id key).run w =
      match w.project? id with
      | none => (.error (.failed []), w)
      | some p => (settle id (p.reload w.disk key)).run w := by
  simp only [reload, StateT.run_bind, StateT.run_get, pure_bind]
  rcases w.project? id with _ | p <;> rfl

theorem edit_of_editor (h : w.editor? id key = some editor) (hwritable : editor.writable = true)
    (change : Text → Text) :
    ∃ w', (edit id key change).run w = (.ok (), w') ∧
      w'.editor? id key = some (editor.setText (change editor.text)) := by
  obtain ⟨p, hp, heditor⟩ := exists_project_of_editor h
  rw [edit_run, hp]
  simp only [Project.edit, heditor, hwritable, Bool.not_true, Bool.false_eq_true, if_false,
    settle_run]
  exact ⟨_, rfl, (editor?_setProject hp _).trans (Keyed.get?_insert_self ..)⟩

theorem reload_of_editor (h : w.editor? id key = some editor) {path text : Text} {writable : Bool}
    (hpath : key.localPath? = some path) (hread : w.disk.readText path = .ok (text, writable)) :
    ∃ w', (reload id key).run w = (.ok (), w') ∧
      w'.editor? id key = some (editor.setText text) := by
  obtain ⟨p, hp, heditor⟩ := exists_project_of_editor h
  rw [reload_run, hp]
  simp only [Project.reload, heditor, hpath, Option.map_some, hread, settle_run]
  exact ⟨_, rfl, (editor?_setProject hp _).trans (Keyed.get?_insert_self ..)⟩

theorem moveCaret_run (w : Workspace) (id : Nat) (key : FileKey) (offset : Nat) :
    ((moveCaret id key offset).run w).2 =
      match w.project? id with
      | none => w
      | some p => w.setProject id (p.moveCaret key offset) :=
  rfl

theorem closeEditor_run (w : Workspace) (id : Nat) (key : FileKey) :
    ((closeEditor id key).run w).2 =
      match w.project? id with
      | none => ((note (.closeEditor key)).run w).2
      | some p => ((note (.closeEditor key)).run w).2.setProject id (p.closeEditor w.disk key) :=
  rfl

/-! ### Reading again -/

theorem refresh_run (w : Workspace) (id : Nat) (key : FileKey) :
    (refresh id key).run w =
      match w.project? id with
      | none => (false, ((note (.refresh key)).run w).2)
      | some p =>
        ((p.refresh w.disk key).2,
          ((note (.refresh key)).run w).2.setProject id (p.refresh w.disk key).1) := by
  have hnote : ((note (.refresh key)).run w).2.project? id = w.project? id := rfl
  have hrun : (note (.refresh key)).run w = pure ((), ((note (.refresh key)).run w).2) := rfl
  simp only [refresh, StateT.run_bind, StateT.run_get]
  rw [hrun, pure_bind, pure_bind, hnote]
  rcases w.project? id with _ | p <;> rfl

/-- Reading a file again changes no editor, and none that can be opened. -/
theorem opened?_refresh (w : Workspace) (id : Nat) (key other : FileKey) :
    ((refresh id other).run w).2.opened? id key = w.opened? id key := by
  rw [refresh_run]
  cases hp : w.project? id with
  | none => rfl
  | some p =>
      obtain ⟨index, hindex⟩ := p.refresh_eq w.disk other
      have hset := project?_setProject (w := ((note (.refresh other)).run w).2) hp { p with index }
      simp only [hindex, opened?, hset, hp, Option.bind_some]
      rfl

/-! ### Building the index anew -/

theorem finishIndexing_run {p : Project} (hp : w.project? id = some p) (task : TaskInfo)
    (index : Index) :
    ((finishIndexing id task index).run w).2 =
      ((emit id [.taskFinished task, .indexingFinished]).run
        (w.setProject id (p.install index))).2 := by
  simp only [finishIndexing, StateT.run_bind, StateT.run_modify, pure_bind, hp]

theorem project?_finishIndexing {p : Project} (hp : w.project? id = some p) (task : TaskInfo)
    (index : Index) :
    ((finishIndexing id task index).run w).2.project? id = some (p.install index) := by
  rw [finishIndexing_run hp]
  exact project?_setProject hp _

theorem reindex_run (w : Workspace) (id : Nat) :
    ((reindex id).run w).2 =
      match w.project? id with
      | none => w
      | some p =>
        let task : TaskInfo := ⟨"indexing".toList, w.nextTask, "Indexing ".toList ++ p.root.text⟩
        let started := ((emit id [.indexingStarted, .taskStarted task]).run
          { w with nextTask := w.nextTask + 1 }).2
        ((emit id [.taskFinished task, .indexingFinished]).run
          (started.setProject id (p.rebuild w.disk w.libraries))).2 := by
  simp only [reindex, StateT.run_bind, StateT.run_get, pure_bind]
  cases hp : w.project? id with
  | none => rfl
  | some p =>
      let task : TaskInfo := ⟨"indexing".toList, w.nextTask, "Indexing ".toList ++ p.root.text⟩
      let started := ((emit id [.indexingStarted, .taskStarted task]).run
        { w with nextTask := w.nextTask + 1 }).2
      have hstarted : started.project? id = some p := hp
      exact finishIndexing_run hstarted task _

/-! ### A workspace to try things in -/

/-- The address of the directory of a project. -/
def sampleRoot : Text := "file:///p".toList

/-- The address of a file in it. -/
def sampleUri : Text := "file:///p/a".toList

/-- The directory with that file only. -/
def sampleDisk : FileTree :=
  ⟨[(["p".toList], .directory), (["p".toList, "a".toList], .file (.text "one\r\ntwo".toList) true)]⟩

/-- The workspace after the project has been opened. -/
def sample : Workspace := ((resolveProject (.ofUri sampleRoot)).run { disk := sampleDisk }).2

end Workspace

end LanguageServer
