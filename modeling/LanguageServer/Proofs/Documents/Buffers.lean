import LanguageServer.Proofs.Documents.Versions
import LanguageServer.Proofs.Query.Occurrences
import LanguageServer.Proofs.Workspace.Buffers
import Mathlib.Logic.Relation

/-!
# Documents, editors and the index

Three stores know an open file: the list of documents, the editors of the project and its index.
Whatever is done for the client, and whatever happens to the files, a document has an editor
(`DocumentState.InStep`), and a file that is up to date in the index stays so
(`DocumentState.InStep.act`). Only an index that is put in place of another can be behind.
-/

namespace LanguageServer

namespace Workspace

variable {w w' : Workspace} {id : Nat} {key : FileKey}

/-- If a file is open, a word stands in the range of its text. -/
def OccursIfOpen (w : Workspace) (id : Nat) (key : FileKey) (word : Text) (r : Range) : Prop :=
  ∀ editor, w.editor? id key = some editor → editor.text.Occurs word r

theorem Upkeep.isSome_editor? {gone : FileKey → Prop} (h : Upkeep id gone w w') (hkey : ¬ gone key)
    (hsome : (w.editor? id key).isSome) : (w'.editor? id key).isSome := by
  obtain ⟨editor, heditor⟩ := Option.isSome_iff_exists.1 hsome
  obtain ⟨p, hp, hget⟩ := exists_project_of_editor heditor
  obtain ⟨p', hp', hkept⟩ := h p hp
  rw [editor?, hp', Option.bind_some]
  exact hkept.editors key hkey (hget ▸ rfl)

end Workspace

namespace Documents

variable {docs : Documents} {w w' : Workspace} {key : FileKey}

theorem editor?_of_editorOf {missing : DocumentError} {editor : Editor}
    (h : (docs.editorOf key missing).run.run w = (.ok editor, w')) :
    w'.editor? docs.project key = some editor := by
  rw [editorOf_run] at h
  split at h
  · cases h
  · cases h
  · split at h
    · next heditor =>
        cases h
        exact heditor
    · cases h

/-- Opening a document leaves its file open. -/
theorem isSome_editor?_of_fill {text : Text} (h : (docs.fill key text).run.run w = (.ok (), w')) :
    (w'.editor? docs.project key).isSome := by
  rw [fill, run_bind, run_discard_lift] at h
  dsimp only at h
  rw [run_bind] at h
  generalize houtcome : (docs.editorOf key _).run.run _ = outcome at h
  rcases outcome with ⟨e | editor, w₁⟩
  · cases h
  · have hopened : (w₁.editor? docs.project key).isSome := by rw [editor?_of_editorOf houtcome]; rfl
    have hkept : Workspace.Upkeep docs.project (fun _ => False) w₁ w' := by
      dsimp only at h
      split at h
      · rw [lift_run] at h
        rw [← (Prod.mk.inj h).2]
        exact (Workspace.workRelation_upkeep _ _ _).edit key _ w₁
      · cases h
        exact .refl _
    exact hkept.isSome_editor? id hopened

theorem isSome_editor?_of_start {uri text : Text} {version : Int}
    (h : ((docs.start uri text version).run w).1.1 = .ok ()) :
    (((docs.start uri text version).run w).2.editor? docs.project (.ofUri uri)).isSome := by
  rw [start_run] at h ⊢
  split at h
  · next hsupported =>
      rw [if_pos hsupported]
      cases haccepting : docs.accepting with
      | false =>
          rw [guarded_run_of_not haccepting] at h
          cases h
      | true =>
          rw [guarded_run haccepting] at h ⊢
          generalize houtcome : (docs.fill _ _).run.run w = outcome at h ⊢
          rcases outcome with ⟨e | _, w'⟩
          · cases h
          · exact isSome_editor?_of_fill houtcome
  · cases h

theorem isSome_get?_setVersion (docs : Documents) (key : FileKey) (version : Option Int)
    (other : FileKey) :
    ((docs.setVersion key version).get? other).isSome = (docs.get? other).isSome := by
  rw [get?_setVersion]
  split
  · exact Option.isSome_map
  · rfl

end Documents

namespace Work

variable {work : Work} {w w' : Workspace}

/-- Work reads the project as it is afterwards, and the text of the editor of its file. -/
theorem enter_some {sources : Sources} {context : Context}
    (h : work.enter.run w = (.ok (some (sources, context)), w')) :
    ∃ p editor, w'.project? work.project = some p ∧ p.editors.get? work.key = some editor ∧
      p.toSources = sources ∧ context.text = editor.text := by
  simp only [enter, StateT.run_bind] at h
  have hopen : (Workspace.openEditor work.project work.key).run w
      = pure (((Workspace.openEditor work.project work.key).run w).1,
        ((Workspace.openEditor work.project work.key).run w).2) := rfl
  rw [hopen, pure_bind] at h
  generalize (Workspace.openEditor work.project work.key).run w = outcome at h
  rcases outcome with ⟨_ | _ | _, w₁⟩
  · cases h
  · cases h
  · simp only [StateT.run_bind, StateT.run_get, pure_bind] at h
    cases hp : w₁.project? work.project with
    | none =>
        rw [hp] at h
        cases h
    | some p =>
        cases heditor : w₁.editor? work.project work.key with
        | none =>
            rw [hp, heditor] at h
            cases h
        | some editor =>
            rw [hp, heditor] at h
            obtain ⟨p', hp', hget⟩ := Workspace.exists_project_of_editor heditor
            cases hp.symm.trans hp'
            have hmoved : ∀ offset, (p.moveCaret work.key offset).toSources = p.toSources ∧
                (p.moveCaret work.key offset).editors.get? work.key
                  = some (editor.moveCaret offset) := by
              intro offset
              rw [Project.moveCaret, hget]
              exact ⟨rfl, Keyed.get?_insert_self ..⟩
            have hw : ((Workspace.moveCaret work.project work.key _).run w₁).2 = w' :=
              congrArg Prod.snd h
            rw [Workspace.moveCaret_run, hp] at hw
            cases congrArg Prod.fst h
            subst hw
            exact ⟨_, _, Workspace.project?_setProject hp _, (hmoved _).2, (hmoved _).1, rfl⟩

theorem run_some {α : Type} {accepting : Bool} {query : Sources → Context → Except Fault α}
    {result : α} (h : (work.run accepting query).run w = (.ok (some result), w')) :
    ∃ p editor context, w'.project? work.project = some p ∧
      p.editors.get? work.key = some editor ∧ context.text = editor.text ∧
      query p.toSources context = .ok result := by
  cases accepting with
  | false => cases h
  | true =>
      by_cases hbefore : work.cancellation = .before
      · simp only [Work.run, hbefore] at h
        cases h
      · simp only [Work.run, Bool.not_true, Bool.false_eq_true, if_false, if_neg hbefore,
          StateT.run_bind] at h
        have henter : work.enter.run w = pure ((work.enter.run w).1, (work.enter.run w).2) := rfl
        rw [henter, pure_bind] at h
        generalize hentered : work.enter.run w = entered at h
        rcases entered with ⟨_ | _ | ⟨sources, context⟩, w₁⟩
        · cases h
        · cases h
        · obtain ⟨p, editor, hp, heditor, rfl, htext⟩ := enter_some hentered
          cases hquery : query p.toSources context with
          | error fault =>
              simp only [hquery] at h
              cases h
          | ok answer =>
              simp only [hquery] at h
              split at h
              · cases h
              · cases h
                exact ⟨p, editor, context, hp, heditor, htext, hquery⟩

end Work

namespace DocumentState

variable {s s' : DocumentState} {docs : Documents} {w : Workspace}

/-- What is done for a client with a project, and what happens to the files meanwhile. -/
inductive Act : DocumentState → DocumentState → Prop
  | start {s : DocumentState} (uri text : Text) (version : Int) :
      Act s ((DocumentEvent.start uri text version).apply s).2
  | update {s : DocumentState} (uri : Text) (version : Int) (changes : List ContentChange) :
      Act s ((DocumentEvent.update uri version changes).apply s).2
  | sync {s : DocumentState} (uri : Text) : Act s ((DocumentEvent.sync uri).apply s).2
  | stop {s : DocumentState} (uri : Text) : Act s ((DocumentEvent.stop uri).apply s).2
  | closeAll {s : DocumentState} : Act s (DocumentEvent.closeAll.apply s).2
  | work {s : DocumentState} {α : Type} {work : Work} (hproject : work.project = s.docs.project)
      (accepting : Bool) (query : Sources → Context → Except Fault α) :
      Act s ⟨s.docs, ((work.run accepting query).run s.workspace).2⟩
  | search {s : DocumentState} (query : Text) (limit : Nat) (cancelled : Bool) :
      Act s ⟨s.docs, ((searchSymbols s.docs.project query limit cancelled).run s.workspace).2⟩
  | files {s : DocumentState} (disk : FileTree) :
      Act s ⟨s.docs, { s.workspace with disk }⟩
  | refresh {s : DocumentState} (key : FileKey) :
      Act s ⟨s.docs, ((Workspace.refresh s.docs.project key).run s.workspace).2⟩
  | refuse {s : DocumentState} : Act s ⟨{ s.docs with accepting := false }, s.workspace⟩

/-- The index is built anew as well. Reading for it may have begun long before it is put in place:
it has what was on disk and in editors at any time. -/
inductive Step : DocumentState → DocumentState → Prop
  | act {s s' : DocumentState} (h : Act s s') : Step s s'
  | begin {s : DocumentState} (root : FileKey) :
      Step s ⟨s.docs, ((Workspace.beginIndexing s.docs.project root).run s.workspace).2⟩
  | install {s : DocumentState} {p : Project} (hp : s.workspace.project? s.docs.project = some p)
      (task : TaskInfo) (disk : FileTree) (libraries : List Text) (editors : Keyed Editor) :
      Step s ⟨s.docs, ((Workspace.finishIndexing s.docs.project task
        (.build disk p.directory libraries editors)).run s.workspace).2⟩

/-- The project is open and well formed, and the files of all documents are open. -/
structure InStep (s : DocumentState) (project : Nat) (p : Project) : Prop where
  same : s.docs.project = project
  found : s.workspace.project? project = some p
  isOpen : p.isOpen = true
  wellFormed : p.WellFormed
  managed : ∀ key d, s.docs.get? key = some d → (p.editors.get? key).isSome

/-- A project that is kept up stays in step with documents whose editors are not closed. -/
theorem InStep.upkeep {project : Nat} {p : Project} (h : s.InStep project p)
    {gone : FileKey → Prop} (hkept : Workspace.Upkeep project gone s.workspace w)
    (hproject : docs.project = s.docs.project)
    (hmanaged : ∀ key d, docs.get? key = some d →
      ¬ gone key ∧ (s.docs.get? key).isSome ∨ (w.editor? project key).isSome) :
    ∃ p', InStep ⟨docs, w⟩ project p' ∧ ∀ key, p.UpToDate key → p'.UpToDate key := by
  obtain ⟨p', hp', hup⟩ := hkept p h.found
  refine ⟨p', ⟨hproject.trans h.same, hp', hup.isOpen.trans h.isOpen, hup.wellFormed h.wellFormed,
    fun key d hd => ?_⟩, hup.upToDate h.wellFormed⟩
  rcases hmanaged key d hd with ⟨hkey, hsome⟩ | heditor
  · obtain ⟨d', hd'⟩ := Option.isSome_iff_exists.1 hsome
    exact hup.editors key hkey (h.managed key d' hd')
  · rwa [Workspace.editor?, hp', Option.bind_some] at heditor

/-- Documents that are the same but for their versions stay in step. -/
theorem InStep.upkeep_same {project : Nat} {p : Project} (h : s.InStep project p)
    (hkept : Workspace.Upkeep project (fun _ => False) s.workspace w)
    (hproject : docs.project = s.docs.project)
    (hmanaged : ∀ key, (docs.get? key).isSome = (s.docs.get? key).isSome) :
    ∃ p', InStep ⟨docs, w⟩ project p' ∧ ∀ key, p.UpToDate key → p'.UpToDate key := by
  refine h.upkeep hkept hproject fun key d hd => .inl ⟨id, ?_⟩
  rw [← hmanaged, hd]
  rfl

theorem InStep.act {project : Nat} {p : Project} (h : s.InStep project p) (hact : Act s s') :
    ∃ p', s'.InStep project p' ∧ ∀ key, p.UpToDate key → p'.UpToDate key := by
  obtain rfl := h.same
  have hkept := Workspace.workRelation_upkeep s.docs.project (fun _ => False) s.docs.project
  cases hact with
  | start uri text version =>
      have hstart := hkept.start uri text version s.workspace
      rcases Documents.start_cases s.docs uri text version s.workspace
        with ⟨hok, hdocs⟩ | ⟨-, hdocs⟩
      · rw [DocumentEvent.apply, DocumentEvent.outcome, hdocs]
        refine h.upkeep hstart rfl fun key d hd => ?_
        by_cases hkey : FileKey.ofUri uri = key
        · exact .inr (hkey ▸ Documents.isSome_editor?_of_start hok)
        · rw [Documents.get?_insert, if_neg hkey] at hd
          exact .inl ⟨id, hd ▸ rfl⟩
      · rw [DocumentEvent.apply, DocumentEvent.outcome, hdocs]
        exact h.upkeep_same hstart rfl fun _ => rfl
  | update uri version changes =>
      have hupdate := hkept.update uri version changes s.workspace
      rcases Documents.update_cases s.docs uri version changes s.workspace with
        ⟨-, hdocs⟩ | ⟨-, hdocs⟩
      · rw [DocumentEvent.apply, DocumentEvent.outcome, hdocs]
        exact h.upkeep_same hupdate rfl (s.docs.isSome_get?_setVersion _ _)
      · rw [DocumentEvent.apply, DocumentEvent.outcome, hdocs]
        exact h.upkeep_same hupdate rfl fun _ => rfl
  | sync uri =>
      have hsync := hkept.sync uri s.workspace
      rcases Documents.sync_docs s.docs uri s.workspace with hdocs | hdocs
      · rw [DocumentEvent.apply, DocumentEvent.outcome, hdocs]
        exact h.upkeep_same hsync rfl fun _ => rfl
      · rw [DocumentEvent.apply, DocumentEvent.outcome, hdocs]
        exact h.upkeep_same hsync rfl (s.docs.isSome_get?_setVersion _ _)
  | stop uri =>
      -- The document is taken from the list before its editor is closed.
      have hrelation := Workspace.workRelation_upkeep s.docs.project (· = FileKey.ofUri uri)
        s.docs.project
      have hstop := hrelation.stop (Workspace.upkeep_closeEditor rfl) s.workspace
      rw [DocumentEvent.apply, DocumentEvent.outcome]
      rw [Documents.stop_run] at hstop ⊢
      cases hget : s.docs.get? (.ofUri uri) with
      | none =>
          rw [hget] at hstop
          exact h.upkeep_same (.refl _) rfl fun _ => rfl
      | some d =>
          rw [hget] at hstop
          refine h.upkeep hstop rfl fun key d hd => ?_
          dsimp only at hd
          rw [Documents.get?_erase] at hd
          split at hd
          · cases hd
          · next hne => exact .inl ⟨fun heq => hne heq.symm, hd ▸ rfl⟩
  | closeAll =>
      have hrelation := Workspace.workRelation_upkeep s.docs.project (fun _ => True) s.docs.project
      have hclose := hrelation.closeAll (fun _ => Workspace.upkeep_closeEditor trivial) s.workspace
      rw [DocumentEvent.apply, Documents.closeAll_docs]
      refine h.upkeep hclose rfl fun key d hd => ?_
      cases hd
  | work hproject accepting query =>
      have hwork := (hproject ▸ hkept).runWork accepting query s.workspace
      exact h.upkeep_same (hproject ▸ hwork) rfl fun _ => rfl
  | search query limit cancelled =>
      exact h.upkeep_same (hkept.searchSymbols query limit cancelled _) rfl fun _ => rfl
  | files disk => exact ⟨p, ⟨rfl, h.found, h.isOpen, h.wellFormed, h.managed⟩, fun _ => id⟩
  | refresh key => exact h.upkeep_same (hkept.refresh key _) rfl fun _ => rfl
  | refuse => exact ⟨p, ⟨rfl, h.found, h.isOpen, h.wellFormed, h.managed⟩, fun _ => id⟩

/-- An index that is put in place opens and closes no file. -/
theorem InStep.install {project : Nat} {p : Project} (h : s.InStep project p) (task : TaskInfo)
    {index : Index} (hsorted : Keyed.Sorted index) (houtlined : index.Outlined) :
    InStep ⟨s.docs, ((Workspace.finishIndexing project task index).run s.workspace).2⟩ project
      (p.install index) :=
  ⟨h.same, Workspace.project?_finishIndexing h.found task index, h.isOpen,
    ⟨hsorted, houtlined, h.wellFormed.editors⟩, h.managed⟩

theorem InStep.begin {project : Nat} {p : Project} (h : s.InStep project p) (root : FileKey) :
    InStep ⟨s.docs, ((Workspace.beginIndexing project root).run s.workspace).2⟩ project p :=
  ⟨h.same, h.found, h.isOpen, h.wellFormed, h.managed⟩

theorem InStep.step {project : Nat} {p : Project} (h : s.InStep project p) (hstep : Step s s') :
    ∃ p', s'.InStep project p' := by
  obtain rfl := h.same
  cases hstep with
  | act hact =>
      obtain ⟨p', hp', -⟩ := h.act hact
      exact ⟨p', hp'⟩
  | begin root => exact ⟨p, h.begin root⟩
  | install hp task disk libraries editors =>
      exact ⟨_, h.install task (Index.sorted_build ..) (Index.outlined_build _ _ _ _)⟩

theorem InStep.work {project : Nat} {p : Project} (h : s.InStep project p) {α : Type} {work : Work}
    (hproject : work.project = project) {accepting : Bool}
    {query : Sources → Context → Except Fault α} {result : α} {w' : Workspace}
    (hrun : (work.run accepting query).run s.workspace = (.ok (some result), w')) :
    ∃ p' editor context, w'.project? project = some p' ∧ p'.WellFormed ∧
      (∀ key, p.UpToDate key → p'.UpToDate key) ∧ p'.editors.get? work.key = some editor ∧
      context.text = editor.text ∧ query p'.toSources context = .ok result := by
  obtain ⟨p₁, editor, context, hp₁, heditor, htext, hquery⟩ := Work.run_some hrun
  have hact := Act.work (hproject.trans h.same.symm) accepting query
  rw [hrun] at hact
  obtain ⟨p', hp', hkept⟩ := h.act hact
  have hsame : p' = p₁ := Option.some.inj (hp'.found.symm.trans (hproject ▸ hp₁))
  exact ⟨p', editor, context, hp'.found, hp'.wellFormed, hkept, hsame ▸ heditor, htext,
    hsame ▸ hquery⟩

/-- A project with an index that has been built stays in step, whatever is done for a client. -/
theorem exists_inStep {disk : FileTree} {libraries : List Text} {w : Workspace}
    {project : Nat} {p : Project} (hp : w.project? project = some p) (hopen : p.isOpen = true)
    (hsorted : p.editors.Sorted)
    (hbuilt : p.index = .build disk p.directory libraries p.editors)
    (hsteps : Relation.ReflTransGen Step (initial project w) s) : ∃ p', s.InStep project p' := by
  have hfirst : (initial project w).InStep project p :=
    ⟨rfl, hp, hopen, (Project.coherent_of_build hsorted hbuilt).toWellFormed, nofun⟩
  induction hsteps with
  | refl => exact ⟨p, hfirst⟩
  | tail _ hstep ih =>
      obtain ⟨p', hp'⟩ := ih
      exact hp'.step hstep

end DocumentState

end LanguageServer
