import LanguageServer.Proofs.Documents.Buffers
import LanguageServer.Proofs.Workspace.Rebuild

/-!
# Building an index while files are edited

An index is built in steps: the files are read, then the text of one open file after the other is
taken, and some time later the index is put in place. Files are edited meanwhile. The index that is
put in place is behind for an open file exactly if its text is not the one that was taken, or none
was taken and another text was read (`Gathered.Misses`). Where this never happens, every open file
stands in the index with the text of its editor, and queries report places in that text.
-/

namespace LanguageServer

/-- What an index is built from: the files as they were read, and the editors with the texts that
were taken. -/
structure Gathered where
  files : FileTree
  libraries : List Text
  editors : Keyed Editor

namespace Gathered

variable {g : Gathered} {directory : Text} {key : FileKey} {editor : Editor}

def index (g : Gathered) (directory : Text) : Index :=
  .build g.files directory g.libraries g.editors

/-- What has been gathered of a file is not the text of its editor. -/
def Misses (g : Gathered) (directory : Text) (key : FileKey) (editor : Editor) : Prop :=
  match g.editors.get? key with
  | some taken => taken.text ≠ editor.text
  | none => g.files.listed? directory g.libraries key ≠ some (.ofText editor.text true)

theorem get?_index_eq_iff (hsorted : g.editors.Sorted) :
    Keyed.get? (g.index directory) key = some (.ofText editor.text true) ↔
      ¬ g.Misses directory key editor := by
  rw [index, Index.get?_build hsorted, Index.get?_build_listed, Misses]
  cases g.editors.get? key with
  | none => exact Decidable.not_not.symm
  | some taken =>
      refine Iff.trans ⟨fun heq => ?_, fun heq => ?_⟩ Decidable.not_not.symm
      · exact congrArg IndexedFile.text (Option.some.inj heq)
      · exact congrArg (fun text => some (IndexedFile.ofText text true)) heq

end Gathered

/-- How far the building of an index has come. -/
inductive Indexing
  | idle
  | reading (task : TaskInfo)
  | taking (task : TaskInfo) (gathered : Gathered)
  | taken (task : TaskInfo) (gathered : Gathered)

/-- What has been gathered for the index so far. -/
def Indexing.gathered? : Indexing → Option Gathered
  | idle | reading _ => none
  | taking _ g | taken _ g => some g

/-- Documents with their workspace, and an index of their project that may be under way. -/
structure IndexingState extends DocumentState where
  indexing : Indexing := .idle

namespace IndexingState

variable {s s' : IndexingState} {Q : FileKey → Prop} {project : Nat} {p : Project}

def initial (project : Nat) (w : Workspace) : IndexingState :=
  { DocumentState.initial project w with }

/-- The file is open, and the index that is about to be put in place has another text for it. -/
def Overtakes (s : IndexingState) (key : FileKey) : Prop :=
  ∃ task g p editor, s.indexing = .taken task g ∧
    s.workspace.project? s.docs.project = some p ∧ p.editors.get? key = some editor ∧
    g.Misses p.directory key editor

/-- What is done for a client, and the steps in which an index is built. What is read of the files
may be of several moments. No index that is put in place overtakes a file of `Q`. -/
inductive Step (Q : FileKey → Prop) : IndexingState → IndexingState → Prop
  | act {s : IndexingState} {after : DocumentState} (h : s.toDocumentState.Act after) :
      Step Q s { s with toDocumentState := after }
  | begin {s : IndexingState} {p : Project} (h : s.indexing = .idle)
      (hp : s.workspace.project? s.docs.project = some p) :
      Step Q s ⟨⟨s.docs,
        ((Workspace.beginIndexing s.docs.project p.root).run s.workspace).2⟩,
        .reading ((Workspace.beginIndexing s.docs.project p.root).run s.workspace).1⟩
  | read {s : IndexingState} {task : TaskInfo} (h : s.indexing = .reading task)
      (files : FileTree) :
      Step Q s { s with indexing := .taking task ⟨files, s.workspace.libraries, []⟩ }
  | take {s : IndexingState} {task : TaskInfo} {g : Gathered} {key : FileKey} {editor : Editor}
      (h : s.indexing = .taking task g)
      (heditor : s.workspace.editor? s.docs.project key = some editor) :
      Step Q s { s with indexing := .taking task { g with
        editors := g.editors.insert key editor } }
  | release {s : IndexingState} {task : TaskInfo} {g : Gathered} (h : s.indexing = .taking task g)
      (hall : ∀ key, (s.workspace.editor? s.docs.project key).isSome →
        (g.editors.get? key).isSome) :
      Step Q s { s with indexing := .taken task g }
  | install {s : IndexingState} {task : TaskInfo} {g : Gathered} {p : Project}
      (h : s.indexing = .taken task g) (hp : s.workspace.project? s.docs.project = some p)
      (hcurrent : ∀ key, Q key → ¬ s.Overtakes key) :
      Step Q s ⟨⟨s.docs, ((Workspace.finishIndexing s.docs.project task
        (g.index p.directory)).run s.workspace).2⟩, .idle⟩

/-- The documents are in step with the project, the files of `Q` are up to date in its index, and
the editors that were gathered are in order. -/
structure InStep (Q : FileKey → Prop) (s : IndexingState) (project : Nat) (p : Project) : Prop
    extends s.toDocumentState.InStep project p where
  upToDate : ∀ key, Q key → p.UpToDate key
  gathered : ∀ g, s.indexing.gathered? = some g → g.editors.Sorted

theorem InStep.step (h : s.InStep Q project p) (hstep : Step Q s s') :
    ∃ p', s'.InStep Q project p' := by
  obtain rfl := h.same
  cases hstep with
  | act hact =>
      obtain ⟨p', hp', hkept⟩ := h.toInStep.act hact
      exact ⟨p', hp', fun key hkey => hkept key (h.upToDate key hkey), h.gathered⟩
  | begin hidle hp => exact ⟨p, h.toInStep.begin _, h.upToDate, nofun⟩
  | read hreading files =>
      refine ⟨p, h.toInStep, h.upToDate, fun g hg => ?_⟩
      obtain rfl := Option.some.inj hg
      exact Keyed.sorted_nil
  | take htaking heditor =>
      refine ⟨p, h.toInStep, h.upToDate, fun g hg => ?_⟩
      obtain rfl := Option.some.inj hg
      exact Keyed.sorted_insert (h.gathered _ (by rw [htaking]; rfl)) ..
  | release htaking hall =>
      exact ⟨p, h.toInStep, h.upToDate, fun g hg => h.gathered g (by rw [htaking]; exact hg)⟩
  | @install task g p₁ htaken hp hcurrent =>
      obtain rfl : p₁ = p := Option.some.inj (hp.symm.trans h.found)
      refine ⟨_, h.toInStep.install task (Index.sorted_build ..) (Index.outlined_build _ _ _ _),
        fun key hkey editor heditor => ?_, nofun⟩
      have hsorted : g.editors.Sorted := h.gathered g (by rw [htaken]; rfl)
      exact (Gathered.get?_index_eq_iff hsorted).2 fun hmisses =>
        hcurrent key hkey ⟨task, g, _, editor, htaken, hp, heditor, hmisses⟩

/-- A project with an index that has been built stays in step, whatever is done for a client and
however indexes are built anew. -/
theorem exists_inStep {disk : FileTree} {libraries : List Text} {w : Workspace}
    (hp : w.project? project = some p) (hopen : p.isOpen = true) (hsorted : p.editors.Sorted)
    (hbuilt : p.index = .build disk p.directory libraries p.editors)
    (hsteps : Relation.ReflTransGen (Step Q) (initial project w) s) :
    ∃ p', s.InStep Q project p' := by
  have hcoherent := Project.coherent_of_build hsorted hbuilt
  have hfirst : (initial project w).InStep Q project p :=
    ⟨⟨rfl, hp, hopen, hcoherent.toWellFormed, nofun⟩, fun key _ => hcoherent.buffers key, nofun⟩
  induction hsteps with
  | refl => exact ⟨p, hfirst⟩
  | tail _ hstep ih =>
      obtain ⟨p', hp'⟩ := ih
      exact hp'.step hstep

/-- From a project with an index that has been built, whatever is done for a client and however
indexes are built meanwhile: the files of all documents are open. An index that has been gathered
has the text of the editor for an open file, once it is put in place, exactly if it does not miss
it. Each open file that no index has missed stands in the index once, with the text of its editor,
and what is found in it afterwards is found in that text. -/
theorem open_files_indexed {disk : FileTree} {libraries : List Text} {w : Workspace}
    (hp : w.project? project = some p) (hopen : p.isOpen = true) (hsorted : p.editors.Sorted)
    (hbuilt : p.index = .build disk p.directory libraries p.editors)
    (hsteps : Relation.ReflTransGen (Step Q) (initial project w) s) :
    ∃ p', s.workspace.project? project = some p' ∧ p'.isOpen = true ∧
      (∀ key d, s.docs.get? key = some d → (p'.editors.get? key).isSome) ∧
      (∀ key editor, Q key → p'.editors.get? key = some editor →
        p'.index.filter (·.1 = key) = [(key, ⟨editor.text, Outline.scan editor.text, true⟩)]) ∧
      (∀ task g, s.indexing = .taken task g →
        ∃ q, ((Workspace.finishIndexing project task (g.index p'.directory)).run
            s.workspace).2.project? project = some q ∧
          ∀ key editor, p'.editors.get? key = some editor → q.editors.get? key = some editor ∧
            (q.index.filter (·.1 = key)
                = [(key, ⟨editor.text, Outline.scan editor.text, true⟩)] ↔
              ¬ g.Misses p'.directory key editor)) ∧
      ∀ (accepting : Bool) (work : Work) (w' : Workspace), work.project = project →
        (∀ found, (work.run accepting Capabilities.standard.usages).run s.workspace
            = (.ok (some found), w') →
          ∃ word, ∀ l ∈ found, Q l.key → w'.OccursIfOpen project l.key word l.range) ∧
        (∀ newName changes, (work.run accepting fun sources c =>
            Capabilities.standard.rename sources c newName).run s.workspace
              = (.ok (some changes), w') →
          ∃ word, ∀ key edit, changes.Has key edit →
            edit.newText = newName ∧ (Q key → w'.OccursIfOpen project key word edit.range)) ∧
        ∀ found, (work.run accepting fun _ => Capabilities.standard.highlights).run s.workspace
            = (.ok (some found), w') →
          ∃ word editor, w'.editor? project work.key = some editor ∧
            ∀ h ∈ found, editor.text.Occurs word h.range := by
  obtain ⟨p', h⟩ := exists_inStep hp hopen hsorted hbuilt hsteps
  -- A file that is up to date has its text in the index, so an occurrence there is one in its text.
  have hshown : ∀ {w' : Workspace} {q : Project}, w'.project? project = some q → q.WellFormed →
      ∀ {key word r}, q.UpToDate key → (∃ file, (key, file) ∈ q.index ∧ file.text.Occurs word r) →
        w'.OccursIfOpen project key word r := by
    intro w' q hq hwellFormed key word r hkey ⟨file, hmem, hoccurs⟩ editor heditor
    rw [Workspace.editor?, hq, Option.bind_some] at heditor
    exact hwellFormed.text_of_mem hkey hmem heditor ▸ hoccurs
  refine ⟨p', h.found, h.isOpen, h.managed, fun key editor hkey heditor => ?_,
    fun task g htaken => ?_,
    fun accepting work w' hproject => ⟨fun found hrun => ?_, fun newName changes hrun => ?_,
      fun found hrun => ?_⟩⟩
  · exact (Index.filter_key_iff h.wellFormed.index).2 (h.upToDate key hkey editor heditor)
  · refine ⟨_, Workspace.project?_finishIndexing h.found task _, fun key editor heditor =>
      ⟨heditor, (Index.filter_key_iff (Index.sorted_build ..)).trans ?_⟩⟩
    exact Gathered.get?_index_eq_iff (h.gathered g (by rw [htaken]; rfl))
  · obtain ⟨q, editor, context, hq, hwellFormed, hkept, -, -, hquery⟩ :=
      h.toInStep.work hproject hrun
    obtain ⟨word, hfound⟩ := Query.usages_occur hquery
    exact ⟨word, fun l hl hkey =>
      hshown hq hwellFormed (hkept _ (h.upToDate _ hkey)) (hfound l hl)⟩
  · obtain ⟨q, editor, context, hq, hwellFormed, hkept, -, -, hquery⟩ :=
      h.toInStep.work hproject hrun
    obtain ⟨word, hfound⟩ := Query.rename_occur hquery
    exact ⟨word, fun key edit hedit => ⟨(hfound key edit hedit).1, fun hkey =>
      hshown hq hwellFormed (hkept _ (h.upToDate _ hkey)) (hfound key edit hedit).2⟩⟩
  · obtain ⟨q, editor, context, hq, -, -, heditor, htext, hquery⟩ := h.toInStep.work hproject hrun
    obtain ⟨word, hfound⟩ := Query.highlights_occur hquery
    refine ⟨word, editor, ?_, fun l hl => htext ▸ hfound l hl⟩
    rw [Workspace.editor?, hq, Option.bind_some, heditor]

/-! ### A document that is changed after an index has been gathered -/

def sampleProject : Project :=
  .ofDirectory Workspace.sampleDisk [] (.ofUri Workspace.sampleRoot) "/p".toList

def sampleWorkspace : Workspace :=
  { disk := Workspace.sampleDisk, projects := [sampleProject], table := [(sampleProject.root, 0)] }

def sampleKey : FileKey := .ofUri Workspace.sampleUri

def sampleRewritten : FileTree :=
  Workspace.sampleDisk.write ["p".toList, "a".toList] (.text "one one".toList) true

/-- A document has been opened, and its file has been written anew and read again. -/
def sampleOpened : DocumentState :=
  let s := ((DocumentEvent.start Workspace.sampleUri "one".toList 1).apply
    (.initial 0 sampleWorkspace)).2
  let w := { s.workspace with disk := sampleRewritten }
  ⟨s.docs, ((Workspace.refresh s.docs.project sampleKey).run w).2⟩

def sampleTask : TaskInfo :=
  ((Workspace.beginIndexing sampleOpened.docs.project sampleProject.root).run
    sampleOpened.workspace).1

/-- The building of an index has begun. -/
def sampleBegun : DocumentState :=
  ⟨sampleOpened.docs, ((Workspace.beginIndexing sampleOpened.docs.project sampleProject.root).run
    sampleOpened.workspace).2⟩

/-- The index has been gathered with the text that the document was opened with. -/
def sampleGathered : Gathered := ⟨sampleRewritten, [], [(sampleKey, ⟨"one".toList, 0, true⟩)]⟩

def sampleInstalled (s : DocumentState) : DocumentState :=
  ⟨s.docs, ((Workspace.finishIndexing s.docs.project sampleTask
    (sampleGathered.index sampleProject.directory)).run s.workspace).2⟩

def sampleChanged (s : DocumentState) : DocumentState :=
  ((DocumentEvent.update Workspace.sampleUri 2 [⟨none, "two one".toList⟩]).apply s).2

theorem sampleOpened_project? :
    (sampleOpened.workspace.project? 0).map (fun p => (p.root, p.directory, p.editors)) =
      some (sampleProject.root, sampleProject.directory, sampleGathered.editors) := by
  decide +kernel

theorem sampleGathered_reached :
    Relation.ReflTransGen (Step Q) (initial 0 sampleWorkspace)
      ⟨sampleBegun, .taken sampleTask sampleGathered⟩ := by
  obtain ⟨p, hp, hsame⟩ := Option.map_eq_some_iff.1 sampleOpened_project?
  simp only [Prod.mk.injEq] at hsame
  obtain ⟨hroot, -, heditors⟩ := hsame
  have hstarted : Step Q (initial 0 sampleWorkspace) _ :=
    .act (.start Workspace.sampleUri "one".toList 1)
  have hread := ((Relation.ReflTransGen.single hstarted).tail
    (.act (.files sampleRewritten))).tail (.act (.refresh sampleKey))
  have hopened : Relation.ReflTransGen (Step Q) (initial 0 sampleWorkspace) { sampleOpened with } :=
    hread
  have heditor : ∀ key, sampleOpened.workspace.editor? 0 key
      = Keyed.get? sampleGathered.editors key := by
    intro key
    rw [Workspace.editor?, hp, Option.bind_some, heditors]
  have hbegun := hopened.tail (.begin rfl hp)
  rw [hroot] at hbegun
  have htaking := hbegun.tail (.read rfl sampleRewritten)
  have htaken := htaking.tail (.take rfl (heditor sampleKey))
  exact htaken.tail (.release rfl fun key hkey => heditor key ▸ hkey)

theorem step_sampleInstalled {s : DocumentState}
    (hp : (s.workspace.project? s.docs.project).map (·.directory) = some sampleProject.directory)
    (hcurrent : ∀ key, Q key → ¬ Overtakes ⟨s, .taken sampleTask sampleGathered⟩ key) :
    Step Q ⟨s, .taken sampleTask sampleGathered⟩ ⟨sampleInstalled s, .idle⟩ := by
  obtain ⟨p, hp, hdirectory⟩ := Option.map_eq_some_iff.1 hp
  have hstep : Step Q ⟨s, .taken sampleTask sampleGathered⟩ _ := .install rfl hp hcurrent
  rw [hdirectory] at hstep
  exact hstep

theorem not_overtakes_sampleBegun (key : FileKey) :
    ¬ Overtakes ⟨sampleBegun, .taken sampleTask sampleGathered⟩ key := by
  rintro ⟨task, g, p, editor, htaken, hp, heditor, hmisses⟩
  obtain ⟨-, rfl⟩ := Indexing.taken.inj htaken
  have hsame := sampleOpened_project?
  rw [show sampleOpened.workspace.project? 0 = some p from hp, Option.map_some, Option.some.injEq,
    Prod.mk.injEq, Prod.mk.injEq] at hsame
  rw [hsame.2.2] at heditor
  rw [Gathered.Misses, heditor] at hmisses
  exact hmisses rfl

/-- The document is changed after the index has been put in place. Then the only usage of a word is
where it stands in the editor. -/
theorem open_files_indexed_changed :
    let text := "two one".toList
    ∃ s, Relation.ReflTransGen (Step fun _ => True) (initial 0 sampleWorkspace) s ∧
      (∃ p', s.workspace.project? 0 = some p' ∧
        p'.index.filter (·.1 = sampleKey) = [(sampleKey, ⟨text, Outline.scan text, true⟩)]) ∧
      ∃ w', ((⟨0, sampleKey, some ⟨0, 5⟩, true, .never⟩ : Work).run true
          Capabilities.standard.usages).run s.workspace
            = (.ok (some [⟨sampleKey, ⟨⟨0, 4⟩, ⟨0, 7⟩⟩⟩]), w') ∧
        ∃ word, w'.OccursIfOpen 0 sampleKey word ⟨⟨0, 4⟩, ⟨0, 7⟩⟩ := by
  intro text
  let s := sampleChanged (sampleInstalled sampleBegun)
  have hinstalled : Step (fun _ => True) ⟨sampleBegun, .taken sampleTask sampleGathered⟩
      ⟨sampleInstalled sampleBegun, .idle⟩ :=
    step_sampleInstalled (by decide +kernel) fun key _ => not_overtakes_sampleBegun key
  have hsteps : Relation.ReflTransGen (Step fun _ => True) (initial 0 sampleWorkspace)
      ⟨s, .idle⟩ :=
    (sampleGathered_reached.tail hinstalled).tail (.act (.update ..))
  have heditor : s.workspace.editor? 0 sampleKey = some ⟨text, 0, true⟩ := by decide +kernel
  let work : Work := ⟨0, sampleKey, some ⟨0, 5⟩, true, .never⟩
  have hfound : ((work.run true Capabilities.standard.usages).run s.workspace).1
      = .ok (some [⟨sampleKey, ⟨⟨0, 4⟩, ⟨0, 7⟩⟩⟩]) := by
    decide +kernel
  clear_value s
  obtain ⟨p', hp', -, -, hindex, -, hanswers⟩ :=
    open_files_indexed (p := sampleProject) rfl rfl Keyed.sorted_nil rfl hsteps
  dsimp only at hp' hanswers
  rw [Workspace.editor?, hp', Option.bind_some] at heditor
  generalize houtcome : (work.run true Capabilities.standard.usages).run s.workspace = outcome
    at hfound
  obtain ⟨answer, w'⟩ := outcome
  cases hfound
  obtain ⟨word, hoccurs⟩ := (hanswers true work w' rfl).1 _ houtcome
  exact ⟨_, hsteps, ⟨p', hp', hindex sampleKey _ trivial heditor⟩, w', houtcome, word,
    hoccurs _ (List.mem_singleton_self _) trivial⟩

/-- The document is changed after the index has been gathered and before it is put in place. Then
the index has the text of before, and the usage of a word is reported where it stood there. -/
theorem open_file_overtaken :
    let text := "two one".toList
    ∃ s, Relation.ReflTransGen (Step fun _ => False) (initial 0 sampleWorkspace) s ∧
      s.indexing = .idle ∧ s.workspace.editor? 0 sampleKey = some ⟨text, 0, true⟩ ∧
      ((s.workspace.project? 0).map fun p => p.index.filter (·.1 = sampleKey))
        = some [(sampleKey, .ofText "one".toList true)] ∧
      (((⟨0, sampleKey, some ⟨0, 5⟩, true, .never⟩ : Work).run true
        Capabilities.standard.usages).run s.workspace).1
          = .ok (some [⟨sampleKey, ⟨⟨0, 0⟩, ⟨0, 3⟩⟩⟩]) := by
  intro text
  have hchanged : Step (fun _ => False) ⟨sampleBegun, .taken sampleTask sampleGathered⟩
      ⟨sampleChanged sampleBegun, .taken sampleTask sampleGathered⟩ := .act (.update ..)
  have hinstalled : Step (fun _ => False)
      ⟨sampleChanged sampleBegun, .taken sampleTask sampleGathered⟩
      ⟨sampleInstalled (sampleChanged sampleBegun), .idle⟩ :=
    step_sampleInstalled (by decide +kernel) nofun
  exact ⟨_, (sampleGathered_reached.tail hchanged).tail hinstalled, rfl, by decide +kernel,
    by decide +kernel, by decide +kernel⟩

end IndexingState

end LanguageServer
