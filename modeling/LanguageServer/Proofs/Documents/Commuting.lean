import LanguageServer.Proofs.Documents.Steps
import LanguageServer.Proofs.Workspace.Apart

/-!
# Operations on different documents

Two operations on documents with different keys come to the same in either order: they end in the
same way, and they leave the same documents, editors and index (`DocumentEvent.commute`). It takes
no assumption about the state, but one about the files: a directory that is opened as a document is
read again with all files below it, each under its key, and that key has to lead back to the file.
A file with a backslash in its name has the key of another one, so that the order matters
(`DocumentEvent.order_matters`).
-/

namespace LanguageServer

open Workspace (Coincide InStep)

namespace Documents

variable {α β : Type} {id : Nat} {key : FileKey} {docs docs' : Documents} {w w' : Workspace}

/-! ### Steps about one file -/

theorem inStep_bind {steps : DocumentM α} {next : α → DocumentM β}
    (hsteps : InStep id key steps.run) (hnext : ∀ a, InStep id key (next a).run) :
    InStep id key (steps >>= next).run := by
  intro w w' h
  obtain ⟨hresult, hapart⟩ := hsteps h
  rw [run_bind, run_bind]
  generalize steps.run.run w = outcome at hresult hapart ⊢
  generalize steps.run.run w' = outcome' at hresult hapart ⊢
  obtain ⟨result, v⟩ := outcome
  obtain ⟨result', v'⟩ := outcome'
  obtain rfl : result' = result := hresult
  rcases result' with e | a
  · exact ⟨rfl, hapart⟩
  · obtain ⟨hresult, hrest⟩ := hnext a hapart.same
    exact ⟨hresult, hapart.trans hrest⟩

theorem inStep_discard {steps : DocumentM α} (h : InStep id key steps.run) :
    InStep id key (discard steps).run := by
  intro w w' hw
  obtain ⟨hresult, hapart⟩ := h hw
  rw [run_discard, run_discard, hresult]
  exact ⟨rfl, hapart⟩

theorem inStep_lift {steps : WorkspaceM (Except WorkspaceError Unit)} (h : InStep id key steps) :
    InStep id key (lift steps).run := by
  intro w w' hw
  obtain ⟨hresult, hapart⟩ := h hw
  rw [lift_run, lift_run, hresult]
  exact ⟨rfl, hapart⟩

theorem inStep_editorOf (docs : Documents) (key : FileKey) (missing : DocumentError) :
    InStep docs.project key (docs.editorOf key missing).run := by
  intro w w' h
  obtain ⟨hresult, hapart⟩ := Workspace.inStep_openEditor docs.project key h
  have heditor := hapart.same.editor?_eq
  rw [editorOf_run, editorOf_run]
  generalize (Workspace.openEditor docs.project key).run w = outcome at hresult hapart heditor ⊢
  generalize (Workspace.openEditor docs.project key).run w' = outcome' at hresult hapart heditor ⊢
  obtain ⟨result, v⟩ := outcome
  obtain ⟨result', v'⟩ := outcome'
  obtain rfl : result' = result := hresult
  rcases result' with fault | _ | _
  · exact ⟨rfl, hapart⟩
  · exact ⟨rfl, hapart⟩
  · dsimp only at heditor ⊢
    rw [heditor]
    cases v.editor? docs.project key <;> exact ⟨rfl, hapart⟩

theorem inStep_change (docs : Documents) (key : FileKey) (changes : List ContentChange) :
    InStep docs.project key (docs.change key changes).run := by
  refine inStep_bind (inStep_editorOf docs key _) fun editor => ?_
  cases editor.writable with
  | false => exact Workspace.inStep_pure _
  | true =>
      simp only [Bool.not_true, Bool.false_eq_true, if_false, ContentChange.foldlM_apply]
      exact inStep_lift (Workspace.inStep_edit ..)

theorem inStep_reload (docs : Documents) (key : FileKey) :
    InStep docs.project key (docs.reload key).run :=
  inStep_bind (inStep_discard (inStep_editorOf docs key _)) fun _ =>
    inStep_lift (Workspace.inStep_reload ..)

/-- Filling begins with reading again, which may be about all files below a directory. -/
theorem coincide_fill (docs : Documents) (text : Text)
    (h : Workspace.SameAt docs.project key w w') (hback : w.disk.ReadsBack key) :
    Coincide docs.project key w w' ((docs.fill key text).run.run w)
      ((docs.fill key text).run.run w') := by
  have hrefresh := h.refresh hback
  have hrest : InStep docs.project key (do
      let editor ← docs.editorOf key (.fileNotFound key)
      if editor.writable && editor.text ≠ text then
        lift (Workspace.edit docs.project key fun _ => text) : DocumentM Unit).run := by
    refine inStep_bind (inStep_editorOf docs key _) fun editor => ?_
    split
    · exact inStep_lift (Workspace.inStep_edit ..)
    · exact Workspace.inStep_pure _
  obtain ⟨hresult, hapart⟩ := hrest hrefresh.same
  rw [fill, run_bind, run_bind, run_discard_lift, run_discard_lift]
  exact ⟨hresult, hrefresh.trans hapart⟩

theorem coincide_guarded (docs : Documents) {steps : DocumentM α}
    (h : Workspace.SameAt id key w w')
    (hsteps : Coincide id key w w' (steps.run.run w) (steps.run.run w')) :
    Coincide id key w w' ((docs.guarded steps).run w) ((docs.guarded steps).run w') := by
  cases haccepting : docs.accepting with
  | false =>
      rw [guarded_run_of_not haccepting, guarded_run_of_not haccepting]
      exact ⟨rfl, .refl h⟩
  | true =>
      rw [guarded_run haccepting, guarded_run haccepting]
      exact hsteps

/-! ### The list of documents -/

/-- Two lists of documents that are the same as far as one file is concerned. -/
structure SameAt (key : FileKey) (docs docs' : Documents) : Prop where
  project : docs'.project = docs.project
  accepting : docs'.accepting = docs.accepting
  entry : docs'.get? key = docs.get? key

/-- What an operation on one file leaves alone in the list of documents. -/
structure Confined (key : FileKey) (docs d : Documents) : Prop where
  project : d.project = docs.project
  accepting : d.accepting = docs.accepting
  others : ∀ other ≠ key, d.get? other = docs.get? other

theorem Confined.refl (docs : Documents) : Confined key docs docs := ⟨rfl, rfl, fun _ _ => rfl⟩

/-- The same operation on one file with two lists. -/
structure Apart (key : FileKey) (docs docs' d d' : Documents) : Prop where
  left : Confined key docs d
  right : Confined key docs' d'
  entry : d'.get? key = d.get? key

theorem SameAt.apart (h : SameAt key docs docs') : Apart key docs docs' docs docs' :=
  ⟨.refl docs, .refl docs', h.entry⟩

theorem apart_insert (docs docs' : Documents) (d : ManagedDocument) :
    Apart d.key docs docs' (docs.insert d) (docs'.insert d) where
  left := ⟨rfl, rfl, fun _ hne => (get?_insert ..).trans (if_neg hne.symm)⟩
  right := ⟨rfl, rfl, fun _ hne => (get?_insert ..).trans (if_neg hne.symm)⟩
  entry := by rw [get?_insert, get?_insert, if_pos rfl, if_pos rfl]

theorem SameAt.setVersion (h : SameAt key docs docs') (version : Option Int) :
    Apart key docs docs' (docs.setVersion key version) (docs'.setVersion key version) where
  left := ⟨rfl, rfl, fun _ hne => (get?_setVersion ..).trans (if_neg hne.symm)⟩
  right := ⟨rfl, rfl, fun _ hne => (get?_setVersion ..).trans (if_neg hne.symm)⟩
  entry := by rw [get?_setVersion, get?_setVersion, h.entry]

theorem apart_erase (docs docs' : Documents) (key : FileKey) :
    Apart key docs docs' (docs.erase key) (docs'.erase key) where
  left := ⟨rfl, rfl, fun _ hne => (get?_erase ..).trans (if_neg hne.symm)⟩
  right := ⟨rfl, rfl, fun _ hne => (get?_erase ..).trans (if_neg hne.symm)⟩
  entry := by rw [get?_erase, get?_erase, if_pos rfl, if_pos rfl]

/-- Where editors are looked for is all that operations take from the list. -/
theorem guarded_congr (h : docs'.accepting = docs.accepting) (steps : DocumentM α) :
    docs'.guarded steps = docs.guarded steps := by
  rw [guarded, guarded, h]

theorem editorOf_congr (h : docs'.project = docs.project) (key : FileKey)
    (missing : DocumentError) : docs'.editorOf key missing = docs.editorOf key missing := by
  rw [editorOf, editorOf, h]

theorem fill_congr (h : docs'.project = docs.project) (key : FileKey) (text : Text) :
    docs'.fill key text = docs.fill key text := by
  rw [fill, fill, h, editorOf_congr h]

theorem change_congr (h : docs'.project = docs.project) (key : FileKey)
    (changes : List ContentChange) : docs'.change key changes = docs.change key changes := by
  rw [change, change, h, editorOf_congr h]

theorem reload_congr (h : docs'.project = docs.project) (key : FileKey) :
    docs'.reload key = docs.reload key := by
  rw [reload, reload, h, editorOf_congr h]

end Documents

/-! ### Operations on documents -/

namespace DocumentState

variable {key : FileKey} {s s' t t' : DocumentState}

/-- Two states that are the same as far as one file is concerned. -/
structure SameAt (key : FileKey) (s s' : DocumentState) : Prop where
  docs : s.docs.SameAt key s'.docs
  workspace : Workspace.SameAt s.docs.project key s.workspace s'.workspace

theorem SameAt.refl (s : DocumentState) : SameAt key s s where
  docs := ⟨rfl, rfl, rfl⟩
  workspace := .refl s.workspace

/-- The same operation on one file in two states, with the same outcome. -/
structure Apart (key : FileKey) (s s' : DocumentState)
    (outcome outcome' : Except DocumentError Unit × DocumentState) : Prop where
  result : outcome'.1 = outcome.1
  docs : Documents.Apart key s.docs s'.docs outcome.2.docs outcome'.2.docs
  workspace : Workspace.Apart s.docs.project key s.workspace s'.workspace
    outcome.2.workspace outcome'.2.workspace

/-- Nothing differs afterwards for any other file. -/
theorem Apart.sameAt_other {outcome outcome' : Except DocumentError Unit × DocumentState}
    (h : Apart key s s' outcome outcome') {other : FileKey} (hne : other ≠ key) :
    SameAt other s outcome.2 where
  docs := ⟨h.docs.left.project, h.docs.left.accepting, h.docs.left.others other hne⟩
  workspace := h.workspace.sameAt_other hne

/-- The same documents with the same versions, the same editors and the same index. -/
structure Same (s s' : DocumentState) : Prop where
  project : s'.docs.project = s.docs.project
  accepting : s'.docs.accepting = s.docs.accepting
  documents : ∀ key, s'.docs.get? key = s.docs.get? key
  editors : ∀ key, s'.workspace.editor? s.docs.project key
    = s.workspace.editor? s.docs.project key
  index : ∀ key, s'.workspace.indexed? s.docs.project key
    = s.workspace.indexed? s.docs.project key

end DocumentState

namespace DocumentEvent

variable {key : FileKey} {s s' : DocumentState}

/-- The key of the document that an operation is about. -/
def key? : DocumentEvent → Option FileKey
  | start uri _ _ | update uri _ _ | sync uri | stop uri => some (.ofUri uri)
  | closeAll | elsewhere _ => none

/-- The files below a directory are read by their own keys if it is one that an operation opens.
No other operation reads a directory. -/
def ReadsBack (disk : FileTree) : DocumentEvent → Prop
  | start uri _ _ => disk.ReadsBack (.ofUri uri)
  | _ => True

variable {uri : Text}

theorem apart_start (text : Text) (version : Int) (h : s.SameAt (.ofUri uri) s')
    (hback : s.workspace.disk.ReadsBack (.ofUri uri)) :
    s.Apart (.ofUri uri) s' ((start uri text version).apply s)
      ((start uri text version).apply s') := by
  obtain ⟨hresult, hapart⟩ := Documents.coincide_guarded s.docs h.workspace
    (Documents.coincide_fill s.docs text.normalizeNewlines h.workspace hback)
  simp only [apply, Documents.start_run, Documents.guarded_congr h.docs.accepting,
    Documents.fill_congr h.docs.project]
  cases Documents.isSupported (.ofUri uri) with
  | false => exact ⟨rfl, h.docs.apart, .refl h.workspace⟩
  | true =>
      generalize (s.docs.guarded _).run s.workspace = outcome at hresult hapart ⊢
      generalize (s.docs.guarded _).run s'.workspace = outcome' at hresult hapart ⊢
      obtain ⟨result, v⟩ := outcome
      obtain ⟨result', v'⟩ := outcome'
      obtain rfl : result' = result := hresult
      rcases result' with e | _
      · exact ⟨rfl, h.docs.apart, hapart⟩
      · exact ⟨rfl, Documents.apart_insert s.docs s'.docs ⟨.ofUri uri, uri, _, true⟩, hapart⟩

theorem apart_update (version : Int) (changes : List ContentChange)
    (h : s.SameAt (.ofUri uri) s') :
    s.Apart (.ofUri uri) s' ((update uri version changes).apply s)
      ((update uri version changes).apply s') := by
  obtain ⟨hresult, hapart⟩ := Documents.coincide_guarded s.docs h.workspace
    (Documents.inStep_change s.docs _ changes h.workspace)
  simp only [apply, Documents.update_run, Documents.guarded_congr h.docs.accepting,
    Documents.change_congr h.docs.project, h.docs.entry]
  cases s.docs.get? (.ofUri uri) with
  | none => exact ⟨rfl, h.docs.apart, .refl h.workspace⟩
  | some d =>
      cases hcheck : Documents.checkVersion d.version version
          (min changes.length Documents.maxInt32) with
      | error e =>
          simp only [hcheck]
          exact ⟨rfl, h.docs.apart, .refl h.workspace⟩
      | ok =>
          simp only [hcheck]
          generalize (s.docs.guarded _).run s.workspace = outcome at hresult hapart ⊢
          generalize (s.docs.guarded _).run s'.workspace = outcome' at hresult hapart ⊢
          obtain ⟨result, v⟩ := outcome
          obtain ⟨result', v'⟩ := outcome'
          obtain rfl : result' = result := hresult
          rcases result' with e | _
          · exact ⟨rfl, h.docs.apart, hapart⟩
          · exact ⟨rfl, h.docs.setVersion _, hapart⟩

theorem apart_sync (h : s.SameAt (.ofUri uri) s') :
    s.Apart (.ofUri uri) s' ((sync uri).apply s) ((sync uri).apply s') := by
  simp only [apply, Documents.sync_run, h.docs.entry]
  cases s.docs.get? (.ofUri uri) with
  | none => exact ⟨rfl, h.docs.apart, .refl h.workspace⟩
  | some d =>
      have hversion := h.docs.setVersion none
      obtain ⟨hresult, hapart⟩ := Documents.coincide_guarded (s.docs.setVersion (.ofUri uri) none)
        h.workspace (Documents.inStep_reload (s.docs.setVersion (.ofUri uri) none) _ h.workspace)
      have haccepting : (s'.docs.setVersion (.ofUri uri) none).accepting
          = (s.docs.setVersion (.ofUri uri) none).accepting := h.docs.accepting
      have hproject : (s'.docs.setVersion (.ofUri uri) none).project
          = (s.docs.setVersion (.ofUri uri) none).project := h.docs.project
      simp only [Documents.guarded_congr haccepting, Documents.reload_congr hproject]
      exact ⟨hresult, hversion, hapart⟩

theorem apart_stop (h : s.SameAt (.ofUri uri) s') :
    s.Apart (.ofUri uri) s' ((stop uri).apply s) ((stop uri).apply s') := by
  simp only [apply, Documents.stop_run, h.docs.entry]
  cases s.docs.get? (.ofUri uri) with
  | none => exact ⟨rfl, h.docs.apart, .refl h.workspace⟩
  | some d =>
      have hclose : InStep s.docs.project (.ofUri uri) (ExceptT.run
          (liftM (Workspace.closeEditor s.docs.project (.ofUri uri)) : DocumentM Unit)) :=
        fun _ _ hw =>
          have h := Workspace.inStep_closeEditor _ _ hw
          ⟨rfl, h.apart⟩
      obtain ⟨hresult, hapart⟩ := Documents.coincide_guarded (s.docs.erase (.ofUri uri))
        h.workspace (hclose h.workspace)
      have hproject : (s'.docs.erase (.ofUri uri)).project = s.docs.project := h.docs.project
      have haccepting : (s'.docs.erase (.ofUri uri)).accepting
          = (s.docs.erase (.ofUri uri)).accepting := h.docs.accepting
      simp only [Documents.guarded_congr haccepting, hproject]
      exact ⟨hresult, Documents.apart_erase s.docs s'.docs _, hapart⟩

/-- Whatever an operation on one file does, it does not depend on the other files. -/
theorem apart_apply {e : DocumentEvent} (hkey : e.key? = some key)
    (hback : e.ReadsBack s.workspace.disk) (h : s.SameAt key s') :
    s.Apart key s' (e.apply s) (e.apply s') := by
  cases e with
  | start uri text version =>
      cases hkey
      exact apart_start text version h hback
  | update uri version changes =>
      cases hkey
      exact apart_update version changes h
  | sync uri =>
      cases hkey
      exact apart_sync h
  | stop uri =>
      cases hkey
      exact apart_stop h
  | closeAll => cases hkey
  | elsewhere w => cases hkey

/-- Two operations on documents with different keys end in the same way in either order, and they
leave the same documents, editors and index, provided the files below a directory that they open
are read by their own keys. -/
theorem commute (s : DocumentState) {first second : DocumentEvent} {a b : FileKey}
    (ha : first.key? = some a) (hb : second.key? = some b) (hne : a ≠ b)
    (hback : first.ReadsBack s.workspace.disk) (hback' : second.ReadsBack s.workspace.disk) :
    (first.apply (second.apply s).2).1 = (first.apply s).1 ∧
      (second.apply (first.apply s).2).1 = (second.apply s).1 ∧
      (second.apply (first.apply s).2).2.Same (first.apply (second.apply s).2).2 := by
  have hfirst := apart_apply ha hback (.refl s)
  have hsecond := apart_apply hb hback' (.refl s)
  have hA := apart_apply ha hback (hsecond.sameAt_other hne)
  have hB := apart_apply hb hback' (hfirst.sameAt_other hne.symm)
  have hproject := hB.docs.right.project.trans hfirst.docs.left.project
  have hfiles := Workspace.files_commute hA.workspace hB.workspace hne
  refine ⟨hA.result, hB.result, ?_, ?_, fun key => ?_, fun key => ?_, fun key => ?_⟩
  · exact (hA.docs.right.project.trans hsecond.docs.left.project).trans hproject.symm
  · rw [hA.docs.right.accepting, hsecond.docs.left.accepting, hB.docs.right.accepting,
      hfirst.docs.left.accepting]
  · by_cases hkey : key = a
    · subst hkey
      exact hA.docs.entry.trans (hB.docs.right.others key hne).symm
    · refine (hA.docs.right.others key hkey).trans ?_
      by_cases hkey' : key = b
      · subst hkey'
        exact hB.docs.entry.symm
      · rw [hsecond.docs.left.others key hkey', hB.docs.right.others key hkey',
          hfirst.docs.left.others key hkey]
  · rw [hproject]
    exact (hfiles key).1.symm
  · rw [hproject]
    exact (hfiles key).2.symm

/-- A file is opened, and the directory that it is in. -/
theorem commute_directory :
    let s : DocumentState := ⟨{ project := 0 }, Workspace.sample⟩
    let file := start Workspace.sampleUri "one".toList 1
    let directory := start Workspace.sampleRoot [] 1
    (directory.apply (file.apply s).2).2.Same (file.apply (directory.apply s).2).2 := by
  intro s file directory
  have hfile : s.workspace.disk.ReadsBack (.ofUri Workspace.sampleUri) := by decide +kernel
  have hdirectory : s.workspace.disk.ReadsBack (.ofUri Workspace.sampleRoot) := by decide +kernel
  have hne : FileKey.ofUri Workspace.sampleUri ≠ .ofUri Workspace.sampleRoot := by decide +kernel
  have hfileKey : file.key? = some (.ofUri Workspace.sampleUri) := rfl
  have hdirectoryKey : directory.key? = some (.ofUri Workspace.sampleRoot) := rfl
  exact (commute s hfileKey hdirectoryKey hne hfile hdirectory).2.2

/-- The file `a\b` has the key of a file `b` in a directory `a`. Reading the directory puts it
there, and looking for the other file takes it away again. -/
theorem order_matters :
    let disk : FileTree := ⟨[(["p".toList], .directory),
      (["p".toList, "a\\b".toList], .file (.text "one".toList) true)]⟩
    let s : DocumentState := ⟨{ project := 0 },
      ((Workspace.resolveProject (.ofUri Workspace.sampleRoot)).run { disk }).2⟩
    let file := start "file:///p/a/b".toList [] 1
    let directory := start Workspace.sampleRoot [] 1
    file.key? ≠ directory.key? ∧
      ¬ (directory.apply (file.apply s).2).2.Same (file.apply (directory.apply s).2).2 := by
  intro disk s file directory
  refine ⟨by decide +kernel, fun h => ?_⟩
  have hindex := congrArg Option.isSome (h.index (.ofUri "file:///p/a/b".toList))
  revert hindex
  decide +kernel

end DocumentEvent

end LanguageServer
