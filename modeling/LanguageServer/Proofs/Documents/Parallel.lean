import LanguageServer.Proofs.Documents.Steady
import LanguageServer.Proofs.Workspace.Parallel

/-!
# The same work in two workspaces

In two workspaces that are alike, an operation on a document, work on a file and a search for
symbols come to the same and leave the workspaces alike. The caret may stand elsewhere, so work that
is not for a place must not depend on it.
-/

namespace LanguageServer

open Workspace (Alike Matched)

variable {α : Type} {w w' : Workspace} {docs : Documents} {key : FileKey}

/-- Opening the editor of a file ends with editors in both, or in neither. -/
theorem Workspace.openEditor_cases (h : Alike w w') (id : Nat) (key : FileKey) :
    ∃ result w₁ w₁', (openEditor id key).run w = (result, w₁) ∧
      (openEditor id key).run w' = (result, w₁') ∧ Alike w₁ w₁' ∧
      (result = .ok true → ∃ e e', w₁.editor? id key = some e ∧ w₁'.editor? id key = some e' ∧
        e.content = e'.content) := by
  obtain ⟨hresult, halike⟩ := matched_openEditor id key h
  generalize hrun : (openEditor id key).run w = outcome at hresult halike
  generalize hrun' : (openEditor id key).run w' = outcome' at hresult halike
  obtain ⟨result, w₁⟩ := outcome
  obtain ⟨result', w₁'⟩ := outcome'
  obtain rfl : result = result' := hresult
  refine ⟨result, w₁, w₁', rfl, rfl, halike, fun htrue => ?_⟩
  cases hopened : w'.opened? id key with
  | none =>
      have hfailed := openEditor_of_not_opened hopened
      rw [hrun'] at hfailed
      exact absurd htrue hfailed
  | some e' =>
      obtain ⟨w₂', hopen, he'⟩ := openEditor_of_opened hopened
      obtain ⟨-, rfl⟩ := Prod.mk.inj (hrun'.symm.trans hopen)
      obtain ⟨e, he, hcontent⟩ := halike.editor?_some he'
      exact ⟨e, e', he, he', hcontent⟩

namespace Documents

/-! ### Operations on documents -/

/-- Steps that can fail do so in both workspaces, for the same reason, or in neither. -/
def Agree (steps : DocumentM α) : Prop := Matched Eq steps.run steps.run

/-- The editor of a file has the same content in both, or there is none in either. -/
theorem editorOf_cases (h : Alike w w') (docs : Documents) (key : FileKey)
    (missing : DocumentError) :
    ∃ w₁ w₁', Alike w₁ w₁' ∧
      ((∃ e, (docs.editorOf key missing).run.run w = (.error e, w₁) ∧
          (docs.editorOf key missing).run.run w' = (.error e, w₁')) ∨
        ∃ e e', (docs.editorOf key missing).run.run w = (.ok e, w₁) ∧
          (docs.editorOf key missing).run.run w' = (.ok e', w₁') ∧
          w₁.editor? docs.project key = some e ∧ w₁'.editor? docs.project key = some e' ∧
          e.content = e'.content) := by
  obtain ⟨result, w₁, w₁', hrun, hrun', halike, heditors⟩ :=
    Workspace.openEditor_cases h docs.project key
  refine ⟨w₁, w₁', halike, ?_⟩
  rw [editorOf_run, editorOf_run, hrun, hrun']
  rcases result with fault | _ | _
  · exact .inl ⟨_, rfl, rfl⟩
  · exact .inl ⟨_, rfl, rfl⟩
  · obtain ⟨e, e', he, he', hcontent⟩ := heditors rfl
    simp only [he, he']
    exact .inr ⟨e, e', rfl, rfl, rfl, rfl, hcontent⟩

theorem agree_fill (docs : Documents) (key : FileKey) (text : Text) :
    Agree (docs.fill key text) := by
  intro w w' h
  have hrefreshed := (Workspace.matched_refresh docs.project key h).2
  obtain ⟨w₁, w₁', halike, hcases⟩ := editorOf_cases hrefreshed docs key (.fileNotFound key)
  rw [fill, run_bind, run_bind, run_discard_lift, run_discard_lift]
  dsimp only
  rw [run_bind, run_bind]
  rcases hcases with ⟨e, hrun, hrun'⟩ | ⟨e, e', hrun, hrun', he, he', hcontent⟩
  · rw [hrun, hrun']
    exact ⟨rfl, halike⟩
  · have htext : e.text = e'.text := congrArg Prod.fst hcontent
    have hwritable : e.writable = e'.writable := congrArg Prod.snd hcontent
    rw [hrun, hrun']
    dsimp only
    rw [htext, hwritable]
    split
    · obtain ⟨hedited, hresult⟩ := halike.edit he he' text
      rw [lift_run, lift_run, hedited]
      exact ⟨rfl, hresult⟩
    · exact ⟨rfl, halike⟩

theorem agree_change (docs : Documents) (key : FileKey) (changes : List ContentChange) :
    Agree (docs.change key changes) := by
  intro w w' h
  obtain ⟨w₁, w₁', halike, hcases⟩ := editorOf_cases h docs key (.noEditor key)
  rw [change, run_bind, run_bind]
  rcases hcases with ⟨e, hrun, hrun'⟩ | ⟨e, e', hrun, hrun', he, he', hcontent⟩
  · rw [hrun, hrun']
    exact ⟨rfl, halike⟩
  · have htext : e.text = e'.text := congrArg Prod.fst hcontent
    have hwritable : e.writable = e'.writable := congrArg Prod.snd hcontent
    rw [hrun, hrun']
    dsimp only
    rw [htext, hwritable]
    cases e'.writable with
    | false => exact ⟨rfl, halike⟩
    | true =>
        simp only [Bool.not_true, Bool.false_eq_true, if_false, ContentChange.foldlM_apply]
        obtain ⟨hedited, hresult⟩ :=
          halike.edit he he' (changes.foldl ContentChange.applied e'.text)
        rw [lift_run, lift_run, hedited]
        exact ⟨rfl, hresult⟩

theorem agree_reload (docs : Documents) (key : FileKey) : Agree (docs.reload key) := by
  intro w w' h
  obtain ⟨w₁, w₁', halike, hcases⟩ := editorOf_cases h docs key (.noEditor key)
  rw [reload, run_bind, run_bind, run_discard, run_discard]
  rcases hcases with ⟨e, hrun, hrun'⟩ | ⟨e, e', hrun, hrun', he, he', -⟩
  · rw [hrun, hrun']
    exact ⟨rfl, halike⟩
  · obtain ⟨hreloaded, hresult⟩ := halike.reload he he'
    rw [hrun, hrun']
    simp only [Except.map]
    rw [lift_run, lift_run, hreloaded]
    exact ⟨rfl, hresult⟩

theorem matched_guarded (docs : Documents) {steps : DocumentM α} (hsteps : Agree steps) :
    Matched Eq (docs.guarded steps) (docs.guarded steps) := by
  intro w w' h
  cases haccepting : docs.accepting with
  | false =>
      rw [guarded_run_of_not haccepting, guarded_run_of_not haccepting]
      exact ⟨rfl, h⟩
  | true =>
      rw [guarded_run haccepting, guarded_run haccepting]
      exact hsteps h

theorem matched_start (docs : Documents) (uri text : Text) (version : Int) :
    Matched Eq (docs.start uri text version) (docs.start uri text version) := by
  intro w w' h
  obtain ⟨hresult, halike⟩ :=
    matched_guarded docs (agree_fill docs (.ofUri uri) text.normalizeNewlines) h
  rw [start_run, start_run]
  split
  · generalize (docs.guarded _).run w = outcome at hresult halike ⊢
    generalize (docs.guarded _).run w' = outcome' at hresult halike ⊢
    obtain ⟨result, w₁⟩ := outcome
    obtain ⟨result', w₁'⟩ := outcome'
    obtain rfl : result = result' := hresult
    cases result <;> exact ⟨rfl, halike⟩
  · exact ⟨rfl, h⟩

theorem matched_update (docs : Documents) (uri : Text) (version : Int)
    (changes : List ContentChange) :
    Matched Eq (docs.update uri version changes) (docs.update uri version changes) := by
  intro w w' h
  obtain ⟨hresult, halike⟩ := matched_guarded docs (agree_change docs (.ofUri uri) changes) h
  rw [update_run, update_run]
  split
  · exact ⟨rfl, h⟩
  · next d _ =>
      cases checkVersion d.version version (min changes.length maxInt32) with
      | error e => exact ⟨rfl, h⟩
      | ok =>
          dsimp only
          generalize (docs.guarded _).run w = outcome at hresult halike ⊢
          generalize (docs.guarded _).run w' = outcome' at hresult halike ⊢
          obtain ⟨result, w₁⟩ := outcome
          obtain ⟨result', w₁'⟩ := outcome'
          obtain rfl : result = result' := hresult
          cases result <;> exact ⟨rfl, halike⟩

theorem matched_sync (docs : Documents) (uri : Text) :
    Matched Eq (docs.sync uri) (docs.sync uri) := by
  intro w w' h
  rw [sync_run, sync_run]
  split
  · exact ⟨rfl, h⟩
  · obtain ⟨hresult, halike⟩ := matched_guarded (docs.setVersion (.ofUri uri) none)
      (agree_reload (docs.setVersion (.ofUri uri) none) (.ofUri uri)) h
    exact ⟨Prod.ext hresult rfl, halike⟩

theorem matched_stop (docs : Documents) (uri : Text) :
    Matched Eq (docs.stop uri) (docs.stop uri) := by
  intro w w' h
  rw [stop_run, stop_run]
  split
  · exact ⟨rfl, h⟩
  · have hclose : Agree (liftM
        (Workspace.closeEditor (docs.erase (.ofUri uri)).project (.ofUri uri)) : DocumentM Unit) :=
      fun _ _ h => ⟨rfl, (Workspace.matched_closeEditor _ _ h).2⟩
    obtain ⟨hresult, halike⟩ := matched_guarded (docs.erase (.ofUri uri)) hclose h
    exact ⟨Prod.ext hresult rfl, halike⟩

/-- All editors are closed, those that are open in the one workspace only as well. -/
theorem matched_closeAll (docs : Documents) : Matched Eq docs.closeAll docs.closeAll := by
  intro w w' h
  unfold closeAll
  split
  · refine ⟨rfl, h.closeEditors fun key hkey => ?_⟩
    obtain ⟨e', he'⟩ := Option.isSome_iff_exists.1 hkey
    obtain ⟨e, he, -⟩ := h.editor?_some he'
    simp only [mem_foldl_insertKey, Workspace.mem_openFiles, he, he', Option.isSome_some]
  · exact ⟨rfl, h⟩

end Documents

/-! ### Work on files -/

namespace Work

/-- What work finds in two workspaces: the same, except that the caret may stand elsewhere if the
work is not for a place. -/
inductive Entered (position : Option Position) :
    Except Fault (Option (Sources × Context)) → Except Fault (Option (Sources × Context)) → Prop
  | same (result : Except Fault (Option (Sources × Context))) : Entered position result result
  | unplaced (hposition : position = none) (sources : Sources) (c : Context) (caret : Nat) :
    Entered position (.ok (some (sources, c))) (.ok (some (sources, { c with caret })))

theorem matched_enter (work : Work) : Matched (Entered work.position) work.enter work.enter := by
  intro w w' h
  obtain ⟨result, w₁, w₁', hrun, hrun', halike, heditors⟩ :=
    Workspace.openEditor_cases h work.project work.key
  rw [enter_run, enter_run, hrun, hrun']
  rcases result with fault | _ | _
  · exact ⟨.same _, halike⟩
  · exact ⟨.same _, halike⟩
  · obtain ⟨e, e', he, he', hcontent⟩ := heditors rfl
    obtain ⟨p, hp, -⟩ := Workspace.exists_project_of_editor he
    obtain ⟨p', hp', -⟩ := Workspace.exists_project_of_editor he'
    have hR := halike.projects work.project p p' hp hp'
    have htext : e.text = e'.text := congrArg Prod.fst hcontent
    have hmoved := fun caret caret' =>
      (Workspace.matched_moveCaret work.project work.key caret caret' halike).2
    dsimp only
    rw [hp, hp', he, he']
    dsimp only
    rw [hR.sources, htext]
    refine ⟨?_, hmoved _ _⟩
    cases hposition : work.position with
    | some position => exact .same _
    | none => exact .unplaced rfl ..

theorem matched_run (work : Work) (accepting : Bool) (query : Sources → Context → Except Fault α)
    (hquery : work.position = none →
      ∀ sources c caret, query sources { c with caret } = query sources c) :
    Matched Eq (work.run accepting query) (work.run accepting query) := by
  unfold run
  split
  · exact .pure rfl
  · split
    · exact .pure rfl
    · refine work.matched_enter.bind fun result result' hentered => ?_
      cases hentered with
      | same =>
          rcases result with fault | _ | ⟨sources, c⟩
          · exact .pure rfl
          · exact .pure rfl
          · dsimp only
            cases query sources c <;> exact .pure rfl
      | unplaced hposition sources c caret =>
          dsimp only
          rw [hquery hposition sources c caret]
          cases query sources c <;> exact .pure rfl

/-- The workspace is as it was, or as it is once the work has been entered. -/
theorem run_cases (work : Work) (accepting : Bool) (query : Sources → Context → Except Fault α)
    (w : Workspace) : ((work.run accepting query).run w).2 = w ∨
      ((work.run accepting query).run w).2 = (work.enter.run w).2 := by
  unfold run
  split
  · exact .inl rfl
  · split
    · exact .inl rfl
    · -- What is done with the result does not touch the workspace.
      have hsilent : ∀ {β : Type} {next : Except Fault (Option (Sources × Context)) → WorkspaceM β},
          (∀ result w, ((next result).run w).2 = w) →
          ((work.enter >>= next).run w).2 = (work.enter.run w).2 := fun h => h _ _
      refine .inr (hsilent fun result w => ?_)
      rcases result with fault | _ | ⟨sources, c⟩
      · rfl
      · rfl
      · dsimp only
        cases query sources c <;> rfl

theorem kin_enter (work : Work) (h : Workspace.Kin w w')
    (hexpected : Workspace.Expected (work.enter.run w).2 w') :
    Workspace.Kin (work.enter.run w).2 w' := by
  have hopened := h.openEditor work.project work.key
  rw [enter_run] at hexpected ⊢
  generalize (Workspace.openEditor work.project work.key).run w = outcome at hopened hexpected ⊢
  obtain ⟨fault | _ | _, w₁⟩ := outcome
  · exact hopened fun e he p' hp' hnone => hexpected.indexed he hp' hnone
  · exact hopened fun e he p' hp' hnone => hexpected.indexed he hp' hnone
  · dsimp only at hexpected ⊢
    split at hexpected
    · refine (hopened fun e he p' hp' hnone => ?_).moveCaret ..
      -- Editors are expected once the caret has been moved, which leaves the text as it is.
      have hmoved := Workspace.content_editor?_moveCaret w₁ work.project work.key
      rw [he] at hmoved
      obtain ⟨e₁, he₁, hcontent⟩ := Option.map_eq_some_iff.1 (hmoved _)
      have htext : e₁.text = e.text := congrArg Prod.fst hcontent
      exact htext ▸ hexpected.indexed he₁ hp' hnone
    · exact hopened fun e he p' hp' hnone => hexpected.indexed he hp' hnone

/-- Work in the first workspace is not seen in the second one, if the editor that it leaves behind
is expected there. -/
theorem kin_run (work : Work) (accepting : Bool) (query : Sources → Context → Except Fault α)
    (h : Workspace.Kin w w')
    (hexpected : Workspace.Expected ((work.run accepting query).run w).2 w') :
    Workspace.Kin ((work.run accepting query).run w).2 w' := by
  rcases work.run_cases accepting query w with hrun | hrun
  · rw [hrun]
    exact h
  · rw [hrun] at hexpected ⊢
    exact work.kin_enter h hexpected

end Work

theorem matched_searchSymbols (project : Nat) (query : Text) (limit : Nat) (cancelled : Bool) :
    Matched Eq (searchSymbols project query limit cancelled)
      (searchSymbols project query limit cancelled) := by
  refine Matched.get.bind fun w w' h => ?_
  dsimp only
  rw [h.standard, h.standard']
  refine (Workspace.matched_workspaceSymbols ..).bind fun found _ hfound => ?_
  subst hfound
  rcases found with fault | found
  · exact .pure rfl
  · dsimp only
    split <;> exact .pure rfl

end LanguageServer
