import LanguageServer.Proofs.Workspace.Alike
import LanguageServer.Proofs.Workspace.CallLog

/-!
# Two workspaces side by side

Workspaces with the same projects are compared project by project (`Workspace.Related`). If they are
alike, steps that are taken in both leave them alike and come to the same (`Workspace.Matched`).
Findings that are sent for what is opened in one of them only are not compared.
-/

namespace LanguageServer

namespace Workspace

/-- Whether an event tells of the findings in a file. -/
def isFinding : Listener × ProjectEvent → Bool
  | (_, .analysisFinished ..) => true
  | _ => false

/-- The standard queries, with the same line diff, are answered from the same files, for projects
that are related one by one. -/
structure Related (R : Project → Project → Prop) (w w' : Workspace) : Prop where
  disk : w.disk = w'.disk
  libraries : w.libraries = w'.libraries
  standard : w.capabilities = .standard w.capabilities.lineDiff
  standard' : w'.capabilities = .standard w.capabilities.lineDiff
  table : w.table = w'.table
  nextTask : w.nextTask = w'.nextTask
  events : w.events.filter (!isFinding ·) = w'.events.filter (!isFinding ·)
  length : w.projects.length = w'.projects.length
  projects : ∀ id p p', w.project? id = some p → w'.project? id = some p' → R p p'

/-- The first workspace has the editors of the second and maybe more. -/
abbrev Kin : Workspace → Workspace → Prop := Related Project.Kin

/-- Every editor that is open in the first workspace only is expected in the second. -/
def Expected (w w' : Workspace) : Prop :=
  ∀ id p p', w.project? id = some p → w'.project? id = some p' →
    ∀ key e, p.editors.get? key = some e → p'.editors.get? key = none →
      p'.Expects w.disk w.libraries key e

/-- The first workspace has nothing open besides that the second does not expect. -/
def Alike (w w' : Workspace) : Prop := Related (Project.Alike w.disk w.libraries) w w'

variable {R : Project → Project → Prop} {w w' : Workspace} {id : Nat} {p p' q q' : Project}

/-! ### Related workspaces -/

namespace Related

theorem cases (h : Related R w w') (id : Nat) :
    (w.project? id = none ∧ w'.project? id = none) ∨
      ∃ p p', w.project? id = some p ∧ w'.project? id = some p' ∧ R p p' := by
  cases hp : w.project? id with
  | none =>
      have hlength := List.getElem?_eq_none_iff.1 hp
      exact .inl ⟨rfl, List.getElem?_eq_none (h.length ▸ hlength)⟩
  | some p =>
      obtain ⟨hlt, -⟩ := List.getElem?_eq_some_iff.1 hp
      have hlt' : id < w'.projects.length := h.length ▸ hlt
      have hp' : w'.project? id = some w'.projects[id] := List.getElem?_eq_getElem hlt'
      exact .inr ⟨p, _, rfl, hp', h.projects id p _ hp hp'⟩

theorem imp {R' : Project → Project → Prop} (h : Related R w w') (hR : ∀ p p', R p p' → R' p p') :
    Related R' w w' :=
  { h with projects := fun id p p' hp hp' => hR p p' (h.projects id p p' hp hp') }

theorem setProject (h : Related R w w') (id : Nat) (hq : R q q') :
    Related R (w.setProject id q) (w'.setProject id q') := by
  refine { h with length := ?_, projects := fun other p p' hp hp' => ?_ }
  · exact (List.length_set ..).trans (h.length.trans (List.length_set ..).symm)
  · rw [project?, Workspace.setProject, List.getElem?_set] at hp hp'
    split at hp
    · split at hp
      · next hother hlt =>
          rw [if_pos hother, if_pos (h.length ▸ hlt)] at hp'
          cases hp
          cases hp'
          exact hq
      · cases hp
    · next hother =>
        rw [if_neg hother] at hp'
        exact h.projects other p p' hp hp'

theorem setProject_left (h : Related R w w') (hp' : w'.project? id = some p') (hq : R q p') :
    Related R (w.setProject id q) w' := by
  have hset := h.setProject id hq
  have hsame : w'.setProject id p' = w' := by
    obtain ⟨hlt, hp'⟩ := List.getElem?_eq_some_iff.1 hp'
    rw [Workspace.setProject, ← hp', List.set_getElem_self]
  rwa [hsame] at hset

theorem note (h : Related R w w') (call call' : Call) :
    Related R ((note call).run w).2 ((Workspace.note call').run w').2 :=
  { h with }

theorem clear (h : Related R w w') : Related R { w with events := [] } { w' with events := [] } :=
  { h with events := rfl }

/-- Other files. -/
theorem files (h : Related R w w') (disk : FileTree) :
    Related R { w with disk } { w' with disk } :=
  { h with disk := rfl }

theorem emit_run (w : Workspace) (id : Nat) (events : List ProjectEvent) :
    ((emit id events).run w).2 = { w with
      events := w.events ++ events.flatMap fun e =>
        ((((w.project? id).map (·.listeners)).getD []).map (·.2)).map (·, e) } :=
  rfl

theorem emit (h : Related R w w') (hlisteners : ∀ p p', R p p' → p.listeners = p'.listeners)
    (id : Nat) (events : List ProjectEvent) :
    Related R ((Workspace.emit id events).run w).2 ((Workspace.emit id events).run w').2 := by
  have hsame : (w.project? id).map (·.listeners) = (w'.project? id).map (·.listeners) := by
    rcases h.cases id with ⟨hp, hp'⟩ | ⟨p, p', hp, hp', hR⟩
    · rw [hp, hp']
    · rw [hp, hp', Option.map_some, Option.map_some, hlisteners p p' hR]
  refine { h with events := ?_ }
  rw [emit_run, emit_run, hsame]
  simp only [List.filter_append, h.events]

/-- Findings may be sent in one workspace and not in the other. -/
theorem emit_findings (h : Related R w w') (id : Nat) {events events' : List ProjectEvent}
    (hevents : ∀ e ∈ events, ∀ listener, isFinding (listener, e) = true)
    (hevents' : ∀ e ∈ events', ∀ listener, isFinding (listener, e) = true) :
    Related R ((Workspace.emit id events).run w).2 ((Workspace.emit id events').run w').2 := by
  have hnone : ∀ {events : List ProjectEvent} {listeners : List Listener},
      (∀ e ∈ events, ∀ listener, isFinding (listener, e) = true) →
      (events.flatMap fun e => listeners.map (·, e)).filter (!isFinding ·) = [] := by
    intro events listeners hfindings
    refine List.filter_eq_nil_iff.2 fun sent hsent => ?_
    obtain ⟨e, he, hsent⟩ := List.mem_flatMap.1 hsent
    obtain ⟨listener, -, rfl⟩ := List.mem_map.1 hsent
    simp [hfindings e he]
  refine { h with events := ?_ }
  rw [emit_run, emit_run]
  simp only [List.filter_append, h.events, hnone hevents, hnone hevents']

end Related

theorem alike_iff : Alike w w' ↔ Kin w w' ∧ Expected w w' := by
  constructor
  · intro h
    exact ⟨h.imp fun p p' hp => hp.toKin,
      fun id p p' hp hp' => (h.projects id p p' hp hp').expected⟩
  · rintro ⟨h, hexpected⟩
    exact { h with
      projects := fun id p p' hp hp' =>
        { toKin := h.projects id p p' hp hp', expected := hexpected id p p' hp hp' } }

/-- Nothing is open in a workspace that is not open there. -/
theorem Kin.alike_self (h : Kin w w) : Alike w w :=
  alike_iff.2 ⟨h, fun _ _ _ hp hp' _ _ he hnone => by
    cases hp.symm.trans hp'
    cases he.symm.trans hnone⟩

/-! ### Steps in both -/

/-- Steps in workspaces that are alike leave them alike, and come to results that are related. -/
def Matched {α β : Type} (S : α → β → Prop) (steps : WorkspaceM α) (steps' : WorkspaceM β) : Prop :=
  ∀ ⦃w w'⦄, Alike w w' → S (steps.run w).1 (steps'.run w').1 ∧
    Alike (steps.run w).2 (steps'.run w').2

namespace Matched

variable {α β γ δ : Type} {S : α → β → Prop} {T : γ → δ → Prop}

theorem pure {a : α} {b : β} (h : S a b) : Matched S (Pure.pure a) (Pure.pure b) :=
  fun _ _ hw => ⟨h, hw⟩

theorem bind {steps : WorkspaceM α} {steps' : WorkspaceM β} {next : α → WorkspaceM γ}
    {next' : β → WorkspaceM δ} (h : Matched S steps steps')
    (hnext : ∀ a b, S a b → Matched T (next a) (next' b)) :
    Matched T (steps >>= next) (steps' >>= next') :=
  fun _ _ hw => hnext _ _ (h hw).1 (h hw).2

theorem get : Matched Alike (MonadState.get : WorkspaceM Workspace) MonadState.get :=
  fun _ _ hw => ⟨hw, hw⟩

theorem forM {steps steps' : γ → WorkspaceM PUnit}
    (h : ∀ c, Matched (fun _ _ => True) (steps c) (steps' c)) (cs : List γ) :
    Matched (fun _ _ => True) (cs.forM steps) (cs.forM steps') := by
  induction cs with
  | nil => exact .pure trivial
  | cons c cs ih => exact (h c).bind fun _ _ _ => ih

theorem mapM {steps steps' : γ → WorkspaceM δ} (h : ∀ c, Matched Eq (steps c) (steps' c))
    (cs : List γ) : Matched Eq (cs.mapM steps) (cs.mapM steps') := by
  induction cs with
  | nil => exact .pure rfl
  | cons c cs ih =>
      rw [List.mapM_cons, List.mapM_cons]
      refine (h c).bind fun d _ hd => ?_
      subst hd
      refine ih.bind fun ds _ hds => ?_
      subst hds
      exact .pure rfl

end Matched

namespace Alike

theorem project?_cases (h : Alike w w') (id : Nat) :
    (w.project? id = none ∧ w'.project? id = none) ∨
      ∃ p p', w.project? id = some p ∧ w'.project? id = some p' ∧
        p.Alike w.disk w.libraries p' :=
  Related.cases h id

end Alike

/-! ### Editors -/

theorem findings_openEditor (p : Project) (disk : FileTree) (key : FileKey) :
    ∀ e ∈ (p.openEditor disk key).2.2, ∀ listener, isFinding (listener, e) = true := by
  intro e he listener
  rw [Project.openEditor] at he
  split at he
  · cases he
  · split at he
    · cases he
    · split at he
      · rw [List.mem_singleton.1 he]
        rfl
      · cases he

theorem matched_openEditor (id : Nat) (key : FileKey) :
    Matched Eq (openEditor id key) (openEditor id key) := by
  intro w w' h
  rw [openEditor_run, openEditor_run, h.standard, h.standard']
  rcases h.project?_cases id with ⟨hp, hp'⟩ | ⟨p, p', hp, hp', hR⟩
  · rw [hp, hp']
    exact ⟨rfl, h⟩
  · obtain ⟨hopened, hresult⟩ := hR.openEditor key
    rw [hp, hp', ← h.disk]
    refine ⟨congrArg Except.ok hresult, ?_⟩
    have hset : Alike (w.setProject id (p.openEditor w.disk key).1)
        (w'.setProject id (p'.openEditor w.disk key).1) :=
      Related.setProject h id hopened
    exact Related.emit_findings hset id (findings_openEditor p _ key)
      (findings_openEditor p' _ key)

/-- Once a file has been opened in both, the editors have the same content. -/
theorem Alike.editor?_some (h : Alike w w') {key : FileKey} {e' : Editor}
    (he' : w'.editor? id key = some e') :
    ∃ e, w.editor? id key = some e ∧ e.content = e'.content := by
  obtain ⟨p', hp', he'⟩ := exists_project_of_editor he'
  rcases h.project?_cases id with ⟨-, hnone⟩ | ⟨p, p'', hp, hp'', hR⟩
  · cases hp'.symm.trans hnone
  · cases hp'.symm.trans hp''
    obtain ⟨e, he, hcontent⟩ := hR.editors key e' he'
    exact ⟨e, by rw [editor?, hp]; exact he, hcontent⟩

theorem matched_refresh (id : Nat) (key : FileKey) :
    Matched (fun _ _ => True) (refresh id key) (refresh id key) := by
  intro w w' h
  refine ⟨trivial, ?_⟩
  rw [refresh_run, refresh_run]
  rcases h.project?_cases id with ⟨hp, hp'⟩ | ⟨p, p', hp, hp', hR⟩
  · rw [hp, hp']
    exact Related.note h _ _
  · rw [hp, hp']
    dsimp only
    rw [← h.disk]
    exact Related.setProject (Related.note h _ _) id (hR.refresh key)

theorem matched_moveCaret (id : Nat) (key : FileKey) (offset offset' : Nat) :
    Matched (fun _ _ => True) (moveCaret id key offset) (moveCaret id key offset') := by
  intro w w' h
  refine ⟨trivial, ?_⟩
  rw [moveCaret_run, moveCaret_run]
  rcases h.project?_cases id with ⟨hp, hp'⟩ | ⟨p, p', hp, hp', hR⟩
  · rw [hp, hp']
    exact h
  · rw [hp, hp']
    exact Related.setProject h id (hR.moveCaret key offset offset')

/-- The same content is put into the editors of a file. -/
theorem Alike.settle_setEditor (h : Alike w w') (hp : w.project? id = some p)
    (hp' : w'.project? id = some p') (key : FileKey) {e e' : Editor}
    (hcontent : e.content = e'.content) :
    Alike ((settle id (.ok (p.setEditor key e, [Project.analysis key e]))).run w).2
      ((settle id (.ok (p'.setEditor key e', [Project.analysis key e']))).run w').2 := by
  have hset : Alike (w.setProject id (p.setEditor key e))
      (w'.setProject id (p'.setEditor key e')) :=
    Related.setProject h id ((h.projects id p p' hp hp').setEditor key hcontent)
  refine Related.emit_findings hset id ?_ ?_
  · rintro _ hfinding listener
    rw [List.mem_singleton.1 hfinding]
    rfl
  · rintro _ hfinding listener
    rw [List.mem_singleton.1 hfinding]
    rfl

theorem Alike.edit (h : Alike w w') {key : FileKey} {e e' : Editor}
    (he : w.editor? id key = some e) (he' : w'.editor? id key = some e') (text : Text) :
    ((edit id key fun _ => text).run w).1 = ((Workspace.edit id key fun _ => text).run w').1 ∧
      Alike ((Workspace.edit id key fun _ => text).run w).2
        ((Workspace.edit id key fun _ => text).run w').2 := by
  obtain ⟨e₁, he₁, hcontent⟩ := h.editor?_some he'
  cases he.symm.trans he₁
  have hwritable : e.writable = e'.writable := congrArg Prod.snd hcontent
  obtain ⟨p, hp, he⟩ := exists_project_of_editor he
  obtain ⟨p', hp', he'⟩ := exists_project_of_editor he'
  rw [edit_run, edit_run, hp, hp']
  dsimp only
  rw [Project.edit, Project.edit, he, he']
  dsimp only
  rw [hwritable]
  cases e'.writable with
  | false => exact ⟨rfl, h⟩
  | true =>
      refine ⟨rfl, h.settle_setEditor hp hp' key ?_⟩
      exact Prod.ext rfl hwritable

theorem Alike.reload (h : Alike w w') {key : FileKey} {e e' : Editor}
    (he : w.editor? id key = some e) (he' : w'.editor? id key = some e') :
    ((reload id key).run w).1 = ((Workspace.reload id key).run w').1 ∧
      Alike ((Workspace.reload id key).run w).2 ((Workspace.reload id key).run w').2 := by
  obtain ⟨e₁, he₁, hcontent⟩ := h.editor?_some he'
  cases he.symm.trans he₁
  have hwritable : e.writable = e'.writable := congrArg Prod.snd hcontent
  obtain ⟨p, hp, he⟩ := exists_project_of_editor he
  obtain ⟨p', hp', he'⟩ := exists_project_of_editor he'
  rw [reload_run, reload_run, hp, hp']
  dsimp only
  rw [Project.reload, Project.reload, he, he', h.disk]
  rcases key.localPath?.map w'.disk.readText with _ | _ | ⟨text, writable⟩
  · exact ⟨rfl, h⟩
  · exact ⟨rfl, h⟩
  · exact ⟨rfl, h.settle_setEditor hp hp' key (Prod.ext rfl hwritable)⟩

/-! ### Opening in one workspace only -/

theorem Expected.indexed (h : Expected w w') {key : FileKey} {e : Editor}
    (he : w.editor? id key = some e) (hp' : w'.project? id = some p')
    (hnone : p'.editors.get? key = none) :
    Keyed.get? p'.index key = some (.ofText e.text true) := by
  obtain ⟨p, hp, he⟩ := exists_project_of_editor he
  exact (h id p p' hp hp' key e he hnone).indexed

/-- The index of the second workspace has the text of what is opened in the first one. -/
theorem Kin.openEditor (h : Kin w w') (id : Nat) (key : FileKey)
    (hindexed : ∀ e, ((openEditor id key).run w).2.editor? id key = some e →
      ∀ p', w'.project? id = some p' → p'.editors.get? key = none →
        Keyed.get? p'.index key = some (.ofText e.text true)) :
    Kin ((Workspace.openEditor id key).run w).2 w' := by
  rw [openEditor_run, h.standard] at hindexed ⊢
  rcases h.cases id with ⟨hp, -⟩ | ⟨p, p', hp, hp', hR⟩
  · rw [hp]
    exact h
  · rw [hp] at hindexed ⊢
    have hopened : Project.Kin (p.openEditor w.disk key).1 p' := by
      rcases p.openEditor_cases w.disk key with hsame | ⟨e, hnone, hset⟩
      · rw [hsame]
        exact hR
      · have he : (w.setProject id (p.openEditor w.disk key).1).editor? id key = some e := by
          rw [editor?, project?_setProject hp, Option.bind_some, hset, Project.setEditor,
            Keyed.get?_insert, if_pos rfl]
        rw [hset]
        exact hR.setEditor_left (hR.get?_none hnone)
          (hindexed e he p' hp' (hR.get?_none hnone))
    have hsilent : ((Workspace.emit id []).run w').2 = w' := by
      rw [Related.emit_run, List.flatMap_nil, List.append_nil]
    have hemitted := (Related.setProject_left h hp' hopened).emit_findings id
      (findings_openEditor p w.disk key) (List.forall_mem_nil _)
    rw [hsilent] at hemitted
    exact hemitted

theorem Kin.moveCaret (h : Kin w w') (id : Nat) (key : FileKey) (offset : Nat) :
    Kin ((Workspace.moveCaret id key offset).run w).2 w' := by
  rw [moveCaret_run]
  rcases h.cases id with ⟨hp, -⟩ | ⟨p, p', hp, hp', hR⟩
  · rw [hp]
    exact h
  · rw [hp]
    exact Related.setProject_left h hp' (hR.moveCaret_left key offset)

/-- The caret is all that changes in an editor. -/
theorem content_editor?_moveCaret (w : Workspace) (id : Nat) (key : FileKey) (offset : Nat) :
    (((moveCaret id key offset).run w).2.editor? id key).map Editor.content
      = (w.editor? id key).map Editor.content := by
  rw [moveCaret_run]
  cases hp : w.project? id with
  | none => rfl
  | some p =>
      obtain ⟨editors, hmoved, hsame⟩ := p.moveCaret_eq key offset
      dsimp only
      rw [editor?, editor?, project?_setProject hp, hp, hmoved]
      exact hsame key

/-- Closing some files. The calls are written down. -/
theorem forM_closeEditor_run (w : Workspace) (id : Nat) (keys : List FileKey) :
    ∃ calls, ((keys.forM (closeEditor id)).run w).2 =
      match w.project? id with
      | none => { w with calls }
      | some p => { w with calls }.setProject id (p.closeEditors w.disk keys) := by
  induction keys generalizing w with
  | nil =>
      refine ⟨w.calls, ?_⟩
      cases hp : w.project? id with
      | none => rfl
      | some p =>
          obtain ⟨hlt, hp⟩ := List.getElem?_eq_some_iff.1 hp
          have hsame : w.setProject id p = w := by
            rw [setProject, ← hp, List.set_getElem_self]
          exact hsame.symm
  | cons key keys ih =>
      obtain ⟨calls, hrest⟩ := ih ((closeEditor id key).run w).2
      refine ⟨calls, hrest.trans ?_⟩
      rw [closeEditor_run]
      cases hp : w.project? id with
      | none =>
          have hnone : ((note (.closeEditor key)).run w).2.project? id = none := hp
          dsimp only
          rw [hnone]
          rfl
      | some p =>
          have hset := project?_setProject (w := ((note (.closeEditor key)).run w).2) hp
            (p.closeEditor w.disk key)
          dsimp only
          rw [hset]
          dsimp only
          rw [setProject, setProject, setProject]
          simp only [List.set_set]
          rfl

/-- Files may be closed in the one workspace that are not open in the other. -/
theorem Alike.closeEditors (h : Alike w w') {keys keys' : List FileKey}
    (hkeys : ∀ key, (w'.editor? id key).isSome → (key ∈ keys ↔ key ∈ keys')) :
    Alike ((keys.forM (closeEditor id)).run w).2 ((keys'.forM (closeEditor id)).run w').2 := by
  obtain ⟨calls, hclosed⟩ := forM_closeEditor_run w id keys
  obtain ⟨calls', hclosed'⟩ := forM_closeEditor_run w' id keys'
  rw [hclosed, hclosed']
  rcases h.project?_cases id with ⟨hp, hp'⟩ | ⟨p, p', hp, hp', hR⟩
  · rw [hp, hp']
    exact { h with }
  · have hopen : ∀ key, (p'.editors.get? key).isSome → (key ∈ keys ↔ key ∈ keys') := fun key hkey =>
      hkeys key (by rwa [editor?, hp', Option.bind_some])
    have hdisk : p'.closeEditors w'.disk keys' = p'.closeEditors w.disk keys' := by rw [h.disk]
    rw [hp, hp']
    dsimp only
    rw [hdisk]
    have hcalls : Alike { w with calls } { w' with calls := calls' } := { h with }
    exact Related.setProject hcalls id (hR.closeEditors hopen)

theorem matched_closeEditor (id : Nat) (key : FileKey) :
    Matched (fun _ _ => True) (closeEditor id key) (closeEditor id key) := by
  intro w w' h
  have hclosed : Alike (([key].forM (closeEditor id)).run w).2
      (([key].forM (closeEditor id)).run w').2 := h.closeEditors fun _ _ => Iff.rfl
  exact ⟨trivial, hclosed⟩

/-! ### Projects -/

namespace Related

theorem append (h : Related R w w') (hq : R q q') :
    Related R { w with projects := w.projects ++ [q] }
      { w' with projects := w'.projects ++ [q'] } := by
  refine { h with length := ?_, projects := fun id p p' hp hp' => ?_ }
  · simp only [List.length_append, h.length, List.length_singleton]
  · rw [project?, List.getElem?_append] at hp hp'
    split at hp
    · next hlt =>
        rw [if_pos (h.length ▸ hlt)] at hp'
        exact h.projects id p p' hp hp'
    · next hlt =>
        rw [if_neg (h.length ▸ hlt), ← h.length] at hp'
        rw [List.getElem?_singleton] at hp hp'
        split at hp
        · next hfirst =>
            rw [if_pos hfirst] at hp'
            cases hp
            cases hp'
            exact hq
        · cases hp

theorem modify (h : Related R w w') {f : Project → Project} (hf : ∀ p p', R p p' → R (f p) (f p'))
    (id : Nat) :
    Related R { w with projects := w.projects.modify id f }
      { w' with projects := w'.projects.modify id f } := by
  refine { h with length := ?_, projects := fun other p p' hp hp' => ?_ }
  · simp only [List.length_modify, h.length]
  · rw [project?, List.getElem?_modify] at hp hp'
    obtain ⟨q, hq, rfl⟩ := Option.map_eq_some_iff.1 hp
    obtain ⟨q', hq', rfl⟩ := Option.map_eq_some_iff.1 hp'
    have hR := h.projects other q q' hq hq'
    split
    · exact hf q q' hR
    · exact hR

end Related

theorem coherent_ofDirectory (disk : FileTree) (libraries : List Text) (root : FileKey)
    (directory : Text) : (Project.ofDirectory disk libraries root directory).Coherent :=
  Project.coherent_of_build Keyed.sorted_nil rfl

theorem resolveProject_run (w : Workspace) (root : FileKey) :
    (resolveProject root).run w =
      match root.localPath?.map fun path => (path, w.disk.follow path) with
      | some (path, .ok (_, .directory)) =>
        match w.tracked? root with
        | some id => (.ok id, ((note (.resolve root (some id))).run w).2)
        | none => (.ok w.projects.length, w.withOpened root path)
      | some (_, .ok (_, .file ..)) =>
        (.error (.notADirectory root.text), ((note (.resolve root none)).run w).2)
      | _ => (.error (.projectNotFound root.text), ((note (.resolve root none)).run w).2) := by
  simp only [resolveProject, StateT.run_bind, StateT.run_get, pure_bind]
  generalize root.localPath?.map _ = found
  rcases found with _ | ⟨path, _ | ⟨place, _ | _⟩⟩
  · rfl
  · rfl
  · dsimp only
    cases w.tracked? root <;> rfl
  · rfl

theorem Alike.withOpened (h : Alike w w') (root : FileKey) (directory : Text) :
    Alike (w.withOpened root directory) (w'.withOpened root directory) := by
  have hnew : Project.ofDirectory w'.disk w'.libraries root directory
      = Project.ofDirectory w.disk w.libraries root directory := by rw [h.disk, h.libraries]
  have hopened := Related.append h
    (Project.Alike.refl (coherent_ofDirectory w.disk w.libraries root directory))
  rw [Workspace.withOpened, Workspace.withOpened, hnew, h.table, h.length, h.nextTask]
  exact { hopened with table := rfl, nextTask := rfl }

theorem matched_resolveProject (root : FileKey) :
    Matched Eq (resolveProject root) (resolveProject root) := by
  intro w w' h
  have htracked : w.tracked? root = w'.tracked? root := by rw [tracked?, tracked?, h.table]
  rw [resolveProject_run, resolveProject_run, htracked, h.disk]
  split
  · cases w'.tracked? root with
    | some id => exact ⟨rfl, Related.note h _ _⟩
    | none => exact ⟨congrArg Except.ok h.length, h.withOpened root _⟩
  · exact ⟨rfl, Related.note h _ _⟩
  · exact ⟨rfl, Related.note h _ _⟩

theorem closeProject_run (w : Workspace) (id : Nat) :
    ((closeProject id).run w).2 =
      match w.project? id with
      | none => w
      | some p =>
        let noted := ((note (.closeProject id p.root (w.openFiles id))).run w).2
        match w.tracked? p.root with
        | none => noted
        | some id => { noted with
            table := w.table.filter (·.1 ≠ p.root)
            projects := w.projects.modify id Project.close } := by
  simp only [closeProject, StateT.run_bind, StateT.run_get, pure_bind]
  cases w.project? id with
  | none => rfl
  | some p =>
      dsimp only
      cases w.tracked? p.root <;> rfl

theorem matched_closeProject (id : Nat) :
    Matched (fun _ _ => True) (closeProject id) (closeProject id) := by
  intro w w' h
  refine ⟨trivial, ?_⟩
  rw [closeProject_run, closeProject_run]
  rcases h.project?_cases id with ⟨hp, hp'⟩ | ⟨p, p', hp, hp', hR⟩
  · rw [hp, hp']
    exact h
  · have htracked : w.tracked? p.root = w'.tracked? p'.root := by
      rw [tracked?, tracked?, h.table, hR.root]
    rw [hp, hp']
    dsimp only
    rw [htracked]
    cases w'.tracked? p'.root with
    | none => exact Related.note h _ _
    | some tracked =>
        have hclosed := Related.modify h (fun p p' hR => Project.Alike.close hR) tracked
        dsimp only
        rw [h.table, hR.root]
        exact { hclosed with table := rfl }

theorem matched_subscribe (id : Nat) (listener : Listener) :
    Matched Eq (subscribe id listener) (subscribe id listener) := by
  intro w w' h
  simp only [subscribe, StateT.run_bind, StateT.run_get, pure_bind]
  rcases h.project?_cases id with ⟨hp, hp'⟩ | ⟨p, p', hp, hp', hR⟩
  · rw [hp, hp']
    exact ⟨rfl, h⟩
  · rw [hp, hp']
    dsimp only
    rw [hR.listeners, hR.nextSubscription]
    exact ⟨rfl, Related.setProject h id (hR.listen _ _)⟩

theorem matched_unsubscribe (id subscription : Nat) :
    Matched (fun _ _ => True) (unsubscribe id subscription) (unsubscribe id subscription) := by
  intro w w' h
  refine ⟨trivial, ?_⟩
  simp only [unsubscribe, StateT.run_modify]
  rcases h.project?_cases id with ⟨hp, hp'⟩ | ⟨p, p', hp, hp', hR⟩
  · rw [hp, hp']
    exact h
  · rw [hp, hp']
    dsimp only
    have hlisten := hR.listen (p.listeners.filter (·.1 ≠ subscription)) p.nextSubscription
    rw [← hR.listeners]
    have hsame : { p' with listeners := p.listeners.filter (·.1 ≠ subscription) }
        = { p' with
          listeners := p.listeners.filter (·.1 ≠ subscription)
          nextSubscription := p.nextSubscription } := by
      rw [hR.nextSubscription]
    rw [hsame]
    exact Related.setProject h id hlisten

theorem matched_reindex (id : Nat) :
    Matched (fun _ _ => True) (reindex id) (reindex id) := by
  intro w w' h
  refine ⟨trivial, ?_⟩
  rw [reindex_run, reindex_run]
  rcases h.project?_cases id with ⟨hp, hp'⟩ | ⟨p, p', hp, hp', hR⟩
  · rw [hp, hp']
    exact h
  · have hlisteners : ∀ p p' : Project, p.Alike w.disk w.libraries p' →
        p.listeners = p'.listeners := fun p p' hR => hR.listeners
    rw [hp, hp']
    dsimp only
    rw [← h.nextTask, ← hR.root]
    have hcounted : Alike { w with nextTask := w.nextTask + 1 }
        { w' with nextTask := w.nextTask + 1 } := { h with nextTask := rfl }
    have hstarted := Related.emit hcounted hlisteners id [.indexingStarted,
      .taskStarted ⟨"indexing".toList, w.nextTask, "Indexing ".toList ++ p.root.text⟩]
    have hrebuilt : p'.rebuild w'.disk w'.libraries = p'.rebuild w.disk w.libraries := by
      rw [h.disk, h.libraries]
    rw [hrebuilt]
    exact Related.emit (Related.setProject hstarted id hR.rebuild) hlisteners id _

theorem matched_workspaceSymbols (id : Nat) (pattern : Text) (limit : Nat) (cancelled : Bool) :
    Matched Eq (workspaceSymbols id pattern limit cancelled)
      (workspaceSymbols id pattern limit cancelled) := by
  have hnote : Matched (fun _ _ => True) (note (.workspaceSymbols pattern limit))
      (note (.workspaceSymbols pattern limit)) := fun _ _ h => ⟨trivial, Related.note h _ _⟩
  refine hnote.bind fun _ _ _ => Matched.get.bind fun w w' h => ?_
  rcases h.project?_cases id with ⟨hp, hp'⟩ | ⟨p, p', hp, hp', hR⟩
  · rw [hp, hp']
    exact .pure rfl
  · rw [hp, hp']
    exact .pure (by rw [h.standard, h.standard', hR.sources])

end Workspace

end LanguageServer
