import LanguageServer.Proofs.Documents.Steady
import LanguageServer.Proofs.Workspace.CallLog

/-!
# Texts that are analysed

Whenever a text gets into an editor it is analysed, and those who listen to the project are told
what has been found in it (`Workspace.told`). So what they hear of an operation on a document says
which texts its editor has had meanwhile: opening can bring two, the one on disk and the one of the
client (`Workspace.analysed`), and changes bring one.
-/

namespace LanguageServer

namespace Project

/-- A file that is opened brings the text on disk, unless it was open. -/
theorem openEditor_events (p : Project) (disk : FileTree) (key : FileKey) :
    (p.openEditor disk key).2.2 =
      if (p.editors.get? key).isSome then []
      else ((p.opened? disk key).map (analysis key)).toList := by
  unfold openEditor opened?
  cases hopen : p.isOpen with
  | false => simp
  | true =>
      cases heditor : p.editors.get? key with
      | some editor => simp
      | none =>
          cases hpath : key.localPath? with
          | none => simp
          | some path => cases hread : disk.readText path <;> simp [hread, Except.toOption]

end Project

namespace Workspace

variable {w w' : Workspace} {id : Nat} {key : FileKey} {editor : Editor}

/-- Those who listen to a project. -/
def listeners (w : Workspace) (id : Nat) : List Listener :=
  (((w.project? id).map (·.listeners)).getD []).map (·.2)

/-- What listeners are told of texts of a file. -/
def told (listeners : List Listener) (key : FileKey) (texts : List Text) :
    List (Listener × ProjectEvent) :=
  texts.flatMap fun text => listeners.map (·, .analysisFinished key (findings text))

/-- The text that an editor gets when it is opened: the one on disk, unless it was open. -/
def textRead (w : Workspace) (id : Nat) (key : FileKey) : List Text :=
  if (w.editor? id key).isSome then [] else ((w.opened? id key).map (·.text)).toList

/-- The texts that the editor of a file gets on the way to a text: the one on disk if the file is
not open yet, and then the text itself if it is another one and can be put in its place. -/
def analysed (w : Workspace) (id : Nat) (key : FileKey) (text : Text) : List Text :=
  w.textRead id key ++
    match w.opened? id key with
    | some editor => if editor.writable && editor.text ≠ text then [text] else []
    | none => []

theorem told_append (listeners : List Listener) (key : FileKey) (texts more : List Text) :
    told listeners key (texts ++ more) = told listeners key texts ++ told listeners key more :=
  List.flatMap_append

theorem Steady.listeners_eq (h : Steady w w') (id : Nat) : w'.listeners id = w.listeners id := by
  rw [listeners, listeners]
  cases hp' : w'.project? id with
  | none =>
      have hlength : w'.projects.length ≤ id := List.getElem?_eq_none_iff.1 hp'
      have hp : w.project? id = none := List.getElem?_eq_none_iff.2 (h.length ▸ hlength)
      rw [hp]
  | some p' =>
      obtain ⟨p, hp, hsteady⟩ := h.exists_project hp'
      rw [hp, Option.map_some, Option.map_some, hsteady.listeners]

theorem events_emit (w : Workspace) (id : Nat) (key : FileKey) (editor : Editor) :
    ((emit id [Project.analysis key editor]).run w).2.events
      = w.events ++ told (w.listeners id) key [editor.text] :=
  rfl

theorem listeners_setProject {p q : Project} (hp : w.project? id = some p)
    (hq : q.listeners = p.listeners) : (w.setProject id q).listeners id = w.listeners id := by
  rw [listeners, listeners, project?_setProject hp, hp, Option.map_some, Option.map_some, hq]

theorem textRead_of_not_opened (h : w.opened? id key = none) : w.textRead id key = [] := by
  rw [textRead, h]
  split <;> rfl

theorem textRead_of_editor (h : w.editor? id key = some editor) : w.textRead id key = [] := by
  rw [textRead, h]
  rfl

theorem events_openEditor (w : Workspace) (id : Nat) (key : FileKey) :
    ((openEditor id key).run w).2.events
      = w.events ++ told (w.listeners id) key (w.textRead id key) := by
  have hnone : w.opened? id key = none →
      w.events = w.events ++ told (w.listeners id) key (w.textRead id key) := by
    intro hopened
    rw [textRead_of_not_opened hopened]
    exact (List.append_nil _).symm
  rw [openEditor_run]
  split
  · next hopens => exact hnone (by rw [opened?, hopens])
  · next hopens => exact hnone (by rw [opened?, hopens])
  · next hp _ _ => exact hnone (by rw [opened?, hp]; split <;> rfl)
  · next p hopens hp =>
      have hopened : w.opened? id key = p.opened? w.disk key := by
        rw [opened?, hopens, hp, Option.bind_some]
      have hlisteners := listeners_setProject hp (p.steady_openEditor w.disk key).listeners
      have hevents : ((emit id (p.openEditor w.disk key).2.2).run
          (w.setProject id (p.openEditor w.disk key).1)).2.events = w.events ++
            (p.openEditor w.disk key).2.2.flatMap fun e => (w.listeners id).map (·, e) := by
        rw [← hlisteners]
        rfl
      dsimp only
      rw [hevents, p.openEditor_events, textRead, hopened, editor?, hp, Option.bind_some]
      split
      · rfl
      · cases p.opened? w.disk key <;> rfl

theorem events_edit (heditor : w.editor? id key = some editor) (hwritable : editor.writable = true)
    (change : Text → Text) :
    ((edit id key change).run w).2.events
      = w.events ++ told (w.listeners id) key [change editor.text] := by
  obtain ⟨p, hp, hget⟩ := exists_project_of_editor heditor
  have hlisteners := listeners_setProject (w := w) hp
    (q := p.setEditor key (editor.setText (change editor.text))) rfl
  rw [edit_run, hp]
  simp only [Project.edit, hget, hwritable, Bool.not_true, Bool.false_eq_true, if_false, settle_run]
  rw [events_emit, hlisteners]
  rfl

/-- Reading a file again changes no editor, and nobody is told. -/
theorem refresh_same (w : Workspace) (id : Nat) (key other : FileKey) :
    ((refresh id other).run w).2.editor? id key = w.editor? id key ∧
      ((refresh id other).run w).2.events = w.events := by
  rw [refresh_run]
  cases hp : w.project? id with
  | none => exact ⟨rfl, rfl⟩
  | some p =>
      obtain ⟨index, hindex⟩ := p.refresh_eq w.disk other
      refine ⟨?_, rfl⟩
      dsimp only
      rw [hindex, editor?_setProject (w := ((note (.refresh other)).run w).2) hp, editor?, hp]
      rfl

end Workspace

namespace Documents

variable {docs : Documents} {w : Workspace} {key : FileKey} {editor : Editor}

theorem editorOf_workspace (docs : Documents) (key : FileKey) (missing : DocumentError)
    (w : Workspace) :
    ((docs.editorOf key missing).run.run w).2
      = ((Workspace.openEditor docs.project key).run w).2 := by
  rw [editorOf_run]
  rcases (Workspace.openEditor docs.project key).run w with ⟨_ | _ | _, w'⟩
  · rfl
  · rfl
  · dsimp only
    split <;> rfl

theorem listeners_editorOf (docs : Documents) (key : FileKey) (missing : DocumentError)
    (w : Workspace) :
    ((docs.editorOf key missing).run.run w).2.listeners docs.project
      = w.listeners docs.project := by
  rw [editorOf_workspace]
  exact ((Workspace.workRelation_steady _).openEditor _ w).listeners_eq _

/-- Filling an editor brings the texts that it gets on the way. -/
theorem events_fill (docs : Documents) (key : FileKey) (text : Text) (w : Workspace) :
    ((docs.fill key text).run.run w).2.events = w.events ++
      Workspace.told (w.listeners docs.project) key (w.analysed docs.project key text) := by
  obtain ⟨hsame, hevents⟩ := Workspace.refresh_same w docs.project key key
  have hopened? := Workspace.opened?_refresh w docs.project key key
  have hrefreshed := (Workspace.workRelation_steady docs.project).refresh key w
  have hlisteners := hrefreshed.listeners_eq docs.project
  have hanalysed : ∀ {w₁ : Workspace}, w₁.editor? docs.project key = w.editor? docs.project key →
      w₁.opened? docs.project key = w.opened? docs.project key →
      w₁.analysed docs.project key text = w.analysed docs.project key text := by
    intro w₁ heditor hopened
    simp only [Workspace.analysed, Workspace.textRead, heditor, hopened]
  rw [fill, run_bind, run_discard_lift]
  dsimp only
  rw [← hevents, ← hlisteners, ← hanalysed hsame hopened?]
  generalize ((Workspace.refresh docs.project key).run w).2 = w₁
  have hopening := Workspace.events_openEditor w₁ docs.project key
  rw [← docs.editorOf_workspace key (.fileNotFound key)] at hopening
  have hlisten := docs.listeners_editorOf key (.fileNotFound key) w₁
  rw [run_bind, Workspace.analysed]
  cases hopened : w₁.opened? docs.project key with
  | none =>
      obtain ⟨e, hrun⟩ := editorOf_of_not_opened hopened (.fileNotFound key)
      rw [← docs.editorOf_workspace key (.fileNotFound key)] at hrun
      rw [hrun]
      dsimp only
      rw [hopening, List.append_nil]
  | some editor =>
      obtain ⟨w₂, hrun, heditor⟩ := editorOf_of_opened hopened (.fileNotFound key)
      rw [hrun] at hopening hlisten ⊢
      dsimp only at hopening hlisten ⊢
      rw [Workspace.told_append, ← List.append_assoc, ← hlisten]
      split
      · next hother =>
          have hwritable : editor.writable = true := by
            simp only [Bool.and_eq_true] at hother
            exact hother.1
          rw [lift_run, Workspace.events_edit heditor hwritable, hopening, hlisten]
      · rw [hlisten]
        exact hopening.trans (List.append_nil _).symm

theorem events_start (haccepting : docs.accepting = true) (uri text : Text) (version : Int)
    (w : Workspace) :
    ((docs.start uri text version).run w).2.events = w.events ++
      Workspace.told (w.listeners docs.project) (.ofUri uri)
        (if isSupported (.ofUri uri) then
          w.analysed docs.project (.ofUri uri) text.normalizeNewlines else []) := by
  have hfill := docs.events_fill (.ofUri uri) text.normalizeNewlines w
  rw [start_run, guarded_run haccepting]
  split
  · generalize (docs.fill _ _).run.run w = outcome at hfill ⊢
    rcases outcome with ⟨_ | _, w'⟩ <;> exact hfill
  · exact (List.append_nil _).symm

/-- Changes of an open file bring the text that they lead to, or nothing if they fail. -/
theorem change_cases (heditor : w.editor? docs.project key = some editor)
    (changes : List ContentChange) :
    let text := changes.foldl ContentChange.applied editor.text
    let changed := (docs.change key changes).run.run w
    (changed.1 = .ok () ∧
      changed.2.events = w.events ++ Workspace.told (w.listeners docs.project) key [text] ∧
      changed.2.editor? docs.project key = some (editor.setText text)) ∨
    changed.1 ≠ .ok () ∧ changed.2.events = w.events := by
  intro text changed
  have hopening := Workspace.events_openEditor w docs.project key
  rw [Workspace.textRead_of_editor heditor] at hopening
  replace hopening := hopening.trans (List.append_nil _)
  cases hopened : w.opened? docs.project key with
  | none =>
      obtain ⟨e, hrun⟩ := change_of_not_opened hopened changes
      rw [show changed = _ from hrun]
      refine .inr ⟨fun hok => ?_, hopening⟩
      cases hok
  | some other =>
      obtain rfl := Workspace.opened?_of_editor heditor hopened
      obtain ⟨w₁, hrun, heditor₁⟩ := editorOf_of_opened hopened (.noEditor key)
      have hlisteners := docs.listeners_editorOf key (.noEditor key) w
      rw [← docs.editorOf_workspace key (.noEditor key), hrun] at hopening
      rw [hrun] at hlisteners
      dsimp only at hopening hlisteners
      cases hwritable : other.writable with
      | false =>
          have hchanged : changed = (.error (.readOnly key), w₁) := by
            simp only [changed, change]
            rw [run_bind, hrun]
            simp only [hwritable]
            rfl
          rw [hchanged]
          refine .inr ⟨fun hok => ?_, hopening⟩
          cases hok
      | true =>
          obtain ⟨w₂, hedit, heditor₂⟩ := Workspace.edit_of_editor heditor₁ hwritable fun _ => text
          have hevents := Workspace.events_edit heditor₁ hwritable fun _ => text
          rw [hedit, hopening, hlisteners] at hevents
          have hchanged : changed = (.ok (), w₂) := by
            simp only [changed, change]
            rw [run_bind, hrun]
            simp only [hwritable, Bool.not_true, Bool.false_eq_true, if_false,
              ContentChange.foldlM_apply]
            rw [lift_run, hedit]
            rfl
          rw [hchanged]
          exact .inl ⟨rfl, hevents, heditor₂⟩

/-- An update that is taken brings the text that its changes lead to, and one that is refused brings
nothing. -/
theorem update_cases_of_editor (haccepting : docs.accepting = true) {uri : Text}
    (heditor : w.editor? docs.project (.ofUri uri) = some editor) (version : Int)
    (changes : List ContentChange) :
    let text := changes.foldl ContentChange.applied editor.text
    let updated := (docs.update uri version changes).run w
    (updated.1.1 = .ok () ∧
      updated.2.events = w.events ++ Workspace.told (w.listeners docs.project) (.ofUri uri) [text] ∧
      updated.2.editor? docs.project (.ofUri uri) = some (editor.setText text)) ∨
    updated.1.1 ≠ .ok () ∧ updated.2.events = w.events := by
  intro text updated
  have hcases := change_cases heditor changes
  simp only [updated, update_run, guarded_run haccepting]
  split
  · exact .inr ⟨nofun, rfl⟩
  · next d _ =>
      cases checkVersion d.version version (min changes.length maxInt32) with
      | error e => exact .inr ⟨nofun, rfl⟩
      | ok =>
          dsimp only at hcases ⊢
          generalize (docs.change _ _).run.run w = outcome at hcases ⊢
          rcases outcome with ⟨_ | _, w'⟩
          · exact .inr ⟨nofun, (hcases.resolve_left fun h => nomatch h.1).2⟩
          · obtain ⟨-, hevents, heditor'⟩ := hcases.resolve_right fun h => h.1 rfl
            exact .inl ⟨rfl, hevents, heditor'⟩

end Documents

end LanguageServer
