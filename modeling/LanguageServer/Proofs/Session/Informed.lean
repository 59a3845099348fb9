import LanguageServer.Proofs.Documents.Analyses
import LanguageServer.Proofs.Documents.Buffers
import LanguageServer.Proofs.Protocol.Parameters
import LanguageServer.Proofs.Session.Projects

/-!
# What a session knows of its documents

A session passes on what happens in its workspace before it goes on, so between two steps nothing is
left to be told. The project in force has the listeners of the client, and every document of it has
an address and an editor (`Binding.Attached`). Most steps leave the documents alone (`Tended`), and
those that do not are operations on documents, which keep documents and editors in step.
-/

namespace LanguageServer

namespace Documents

/-- The addresses of all documents are URI references. -/
def Named (docs : Documents) : Prop :=
  ∀ key d, docs.get? key = some d → Reference.isReference d.uri = true

/-- Something holds of the key and the address of every document. -/
def Addressed (holds : FileKey → Text → Prop) (docs : Documents) : Prop :=
  ∀ key d, docs.get? key = some d → holds key d.uri

namespace Addressed

variable {docs : Documents} {holds : FileKey → Text → Prop}

variable (h : docs.Addressed holds)

include h

theorem insert {d : ManagedDocument} (hd : holds d.key d.uri) :
    (docs.insert d).Addressed holds := by
  intro key d' hd'
  rw [get?_insert] at hd'
  split at hd'
  · next hkey =>
      cases hd'
      exact hkey ▸ hd
  · exact h key d' hd'

theorem setVersion (key : FileKey) (version : Option Int) :
    (docs.setVersion key version).Addressed holds := by
  intro other d' hd'
  rw [get?_setVersion] at hd'
  split at hd'
  · obtain ⟨d, hd, rfl⟩ := Option.map_eq_some_iff.1 hd'
    exact h other d hd
  · exact h other d' hd'

theorem erase (key : FileKey) : (docs.erase key).Addressed holds := by
  intro other d hd
  rw [get?_erase] at hd
  split at hd
  · cases hd
  · exact h other d hd

variable (uri : Text) (w : Workspace)

theorem start (huri : holds (.ofUri uri) uri) (text : Text) (version : Int) :
    ((docs.start uri text version).run w).1.2.Addressed holds := by
  rcases start_cases docs uri text version w with ⟨-, hdocs⟩ | ⟨-, hdocs⟩ <;> rw [hdocs]
  · exact h.insert huri
  · exact h

theorem update (version : Int) (changes : List ContentChange) :
    ((docs.update uri version changes).run w).1.2.Addressed holds := by
  rcases update_cases docs uri version changes w with ⟨-, hdocs⟩ | ⟨-, hdocs⟩ <;> rw [hdocs]
  · exact h.setVersion _ _
  · exact h

theorem sync : ((docs.sync uri).run w).1.2.Addressed holds := by
  rcases sync_docs docs uri w with hdocs | hdocs <;> rw [hdocs]
  · exact h
  · exact h.setVersion _ _

theorem stop : ((docs.stop uri).run w).1.2.Addressed holds := by
  rcases stop_docs docs uri w with hdocs | hdocs <;> rw [hdocs]
  · exact h
  · exact h.erase _

end Addressed

end Documents

namespace Workspace

variable {w : Workspace} {id : Nat} {p : Project}

/-! ### Steps of which nobody is told -/

theorem events_closeEditor (w : Workspace) (id : Nat) (key : FileKey) :
    ((closeEditor id key).run w).2.events = w.events := by
  rw [closeEditor_run]
  split <;> rfl

theorem events_unsubscribe (w : Workspace) (id subscription : Nat) :
    ((unsubscribe id subscription).run w).2.events = w.events := by
  simp only [unsubscribe, StateT.run_modify]
  cases w.project? id <;> rfl

theorem events_closeProject (w : Workspace) (id : Nat) :
    ((closeProject id).run w).2.events = w.events := by
  simp only [closeProject, StateT.run_bind, StateT.run_get, pure_bind]
  split
  · rfl
  · split <;> rfl

theorem events_forM {α : Type} {steps : α → WorkspaceM PUnit}
    (h : ∀ a w, ((steps a).run w).2.events = w.events) (as : List α) (w : Workspace) :
    ((as.forM steps).run w).2.events = w.events := by
  induction as generalizing w with
  | nil => rfl
  | cons a as ih => exact (ih ((steps a).run w).2).trans (h a w)

theorem events_closeAll (docs : Documents) (w : Workspace) :
    (docs.closeAll.run w).2.events = w.events := by
  unfold Documents.closeAll
  split
  · exact events_forM (fun key w => events_closeEditor w _ key) _ w
  · rfl

end Workspace

/-- The listeners of the client listen to the project of a binding, and all its documents have
addresses and editors. -/
structure Binding.Attached (b : Binding) (w : Workspace) : Prop where
  listeners : w.listeners b.project = [.diagnostics, .indexStatus, .progress]
  named : b.documents.Named
  inStep : ∃ p, DocumentState.InStep ⟨b.documents, w⟩ b.project p

namespace Session

open Workspace (Keeps)

variable {s s' : Session}

/-! ### Sessions that know of everything -/

/-- The client is connected and has been told everything. -/
structure Told (s : Session) : Prop where
  connected : s.client.connected = true
  events : s.workspace.events = []

namespace Told

theorem tended (h : s.Told) (htended : Tended s s') : s'.Told :=
  ⟨htended.connected.trans h.connected, htended.events h.events⟩

/-- Nobody is told that a project is left, and of the work meanwhile everyone who listens. -/
theorem leave (h : s.Told) (i : Nat) (b : Binding) (pace : Pace) : (s.leave i b pace).Told := by
  have hclosed : (s.closeDocuments i b).Told :=
    ⟨h.connected, (Workspace.events_closeAll b.documents s.workspace).trans h.events⟩
  have hunheard {s : Session} (h : s.Told) : (s.unsubscribe b).Told :=
    ⟨h.connected, (Workspace.events_forM (fun n w => Workspace.events_unsubscribe w b.project n)
      b.subscriptions _).trans h.events⟩
  have hleft := hunheard (hclosed.tended (stepRelation_tended.workSome _ pace.closed))
  have hended := (hleft.tended (stepRelation_tended.workSome _ pace.unheard)).tended
    (tended_modifyProgress _ Progress.reportRelation_quiet.stop)
  exact hended.tended (stepRelation_tended.workSome _ pace.ended)

end Told

/-- The client has been told everything, and the binding in force is attached. -/
structure Informed (s : Session) : Prop extends Told s where
  attached : ∀ i b, s.current = some i → s.bindings[i]? = some b → b.Attached s.workspace

namespace Informed

theorem tended (h : s.Informed) (htended : Tended s s') : s'.Informed := by
  refine ⟨h.toTold.tended htended, fun i b' hcurrent hb' => ?_⟩
  have hsame := congrArg (·[i]?) htended.bindings
  simp only [List.getElem?_map, hb', Option.map_some] at hsame
  obtain ⟨b, hb, hheld⟩ := Option.map_eq_some_iff.1 hsame.symm
  obtain ⟨hproject, hdocuments⟩ := Prod.mk.inj hheld
  obtain ⟨hlisteners, hnamed, p, hp⟩ := h.attached i b (htended.current.symm.trans hcurrent) hb
  refine ⟨?_, hdocuments ▸ hnamed, ?_⟩
  · rw [htended.workspace.steady.listeners_eq, ← hproject, hlisteners]
  · rw [← hproject, ← hdocuments]
    obtain ⟨p', hp', -⟩ := hp.upkeep_same (htended.workspace.upkeep _) rfl fun _ => rfl
    exact ⟨p', hp'⟩

theorem unbound (h : s.Told) (hcurrent : s.current = none) : s.Informed :=
  ⟨h, fun _ _ hi => nomatch hcurrent.symm.trans hi⟩

/-- An operation on the documents of the binding in force, which keeps them in step with the editors
of the project. -/
theorem withDocuments (h : s.Informed) {i : Nat} {b : Binding} (hcurrent : s.current = some i)
    (hb : s.bindings[i]? = some b) (seen : Documents)
    {steps : WorkspaceM (Except DocumentError Unit × Documents)} (hkeeps : Keeps steps)
    (hnamed : (steps.run s.workspace).1.2.Named)
    (hact : DocumentState.Act ⟨b.documents, s.workspace⟩
      ⟨(steps.run s.workspace).1.2, (steps.run s.workspace).2⟩) :
    (s.withDocuments i seen steps).Informed := by
  obtain ⟨hlisteners, -, p, hp⟩ := h.attached i b hcurrent hb
  obtain ⟨p', hp', -⟩ := hp.act hact
  have hsteady := steady_within (s := s) seen hkeeps
  have htended : Tended { s with workspace := { (steps.run s.workspace).2 with events := [] } }
      (s.within seen steps).2 := Tended.foldl (tended_deliver seen) _ _
  have hworkspace := within_workspace s seen steps
  have hresult : (s.within seen steps).1 = (steps.run s.workspace).1 := rfl
  rw [Session.withDocuments]
  generalize s.within seen steps = outcome at hsteady htended hworkspace hresult ⊢
  obtain ⟨⟨result, docs⟩, s'⟩ := outcome
  change (s'.modifyBinding i fun b => { b with documents := docs }).Informed
  refine ⟨⟨htended.connected.trans h.connected, ?_⟩, fun j b' hj hb' => ?_⟩
  · rw [show (s'.modifyBinding i _).workspace = _ from hworkspace]
  · cases hj.symm.trans (hsteady.current.trans hcurrent)
    simp only [modifyBinding, List.getElem?_modify, if_true] at hb'
    obtain ⟨b₁, hb₁, rfl⟩ := Option.map_eq_some_iff.1 hb'
    have hstance := hsteady.stance hb hb₁
    simp only [Binding.stance, Prod.mk.injEq] at hstance
    obtain ⟨hproject, -⟩ := hstance
    have hdocs : docs = (steps.run s.workspace).1.2 := congrArg Prod.snd hresult
    refine ⟨?_, hdocs ▸ hnamed, p', ?_⟩
    · rw [show (s'.modifyBinding i _).workspace = s'.workspace from rfl,
        hsteady.workspace.listeners_eq]
      exact hproject ▸ hlisteners
    · rw [show (s'.modifyBinding i _).workspace = _ from hworkspace]
      rw [hproject, hdocs]
      exact ⟨hp'.same, hp'.found, hp'.isOpen, hp'.wellFormed, hp'.managed⟩

theorem notified (h : s.Informed) {i : Nat} {b : Binding} (hcurrent : s.current = some i)
    (hb : s.bindings[i]? = some b) (n : Notification) :
    (s.notified i b.documents n).Informed := by
  have hnamed : b.documents.Addressed fun _ uri => Reference.isReference uri = true :=
    (h.attached i b hcurrent hb).named
  rw [Session.notified]
  split
  · cases hd : Params.opened? n.params with
    | none => exact h
    | some d =>
        have hstart := h.withDocuments hcurrent hb b.documents
          (Documents.keeps_start _ d.uri d.text d.version)
          (hnamed.start d.uri _ (Params.isReference_of_opened hd) d.text d.version) (.start ..)
        exact hstart.tended (stepRelation_tended.announceIndexing _)
  · refine taken_or_dropped (r := fun _ => Informed) (fun d => ?_) h _
    exact h.withDocuments hcurrent hb b.documents (Documents.keeps_update _ _ _ _)
      (hnamed.update d.uri _ d.version d.changes) (.update ..)
  · refine taken_or_dropped (r := fun _ => Informed) (fun uri => ?_) h _
    exact h.withDocuments hcurrent hb _ (Documents.keeps_sync _ _) (hnamed.sync uri _) (.sync ..)
  · refine taken_or_dropped (r := fun _ => Informed) (fun uri => ?_) h _
    exact h.withDocuments hcurrent hb b.documents (Documents.keeps_stop _ _) (hnamed.stop uri _)
      (.stop ..)
  · refine taken_or_dropped (r := fun _ => Informed) (fun uris => ?_) h _
    exact h.tended (stepRelation_tended.didRename hb uris)
  · exact h

theorem handleNotification (h : s.Informed) (n : Notification) :
    (s.handleNotification n).2.Informed := by
  rw [Session.handleNotification]
  split
  · exact h
  · split
    · refine taken_or_dropped (r := fun _ => Informed) (fun id => ?_) h _
      exact h.tended (stepRelation_tended.cancel ..)
    · split
      · exact h
      · split
        · next i b _ hcurrent hbinding =>
            rw [binding?, hcurrent, Option.bind_some] at hbinding
            exact h.notified hcurrent hbinding n
        · exact h

/-! ### Binding and releasing -/

theorem bind (h : s.Told) {id : Nat} {p : Project} (hp : s.workspace.project? id = some p)
    (hopen : p.isOpen = true) (hwellFormed : p.WellFormed) (hlisteners : p.listeners = []) :
    (s.bind id).Informed := by
  obtain ⟨p', hrun, hsources, hopen', heditors', hlisteners'⟩ :=
    Workspace.mapM_subscribe [.diagnostics, .indexStatus, .progress] hp
  have hworkspace : (s.bind id).workspace = s.workspace.setProject id p' := hrun
  have hp' := Workspace.project?_setProject hp p'
  refine ⟨⟨h.connected, ?_⟩, fun i b hi hb => ?_⟩
  · rw [hworkspace]
    exact h.events
  · obtain rfl : s.bindings.length = i := Option.some.inj hi
    obtain rfl := Option.some.inj (List.getElem?_concat_length.symm.trans hb)
    rw [hworkspace]
    refine ⟨?_, nofun, p', rfl, hp', hopen'.trans hopen, ?_, nofun⟩
    · simp only [Workspace.listeners, hp', Option.map_some, Option.getD_some, hlisteners',
        hlisteners]
      rfl
    · have hindex : p'.index = p.index := congrArg Sources.index hsources
      exact ⟨hindex ▸ hwellFormed.index, hindex ▸ hwellFormed.outlined,
        heditors' ▸ hwellFormed.editors⟩

theorem release (h : s.Informed) (pace : Pace) : (s.release pace).Informed := by
  cases hbinding : s.binding? with
  | none =>
      rw [release_of_unbound hbinding]
      exact h
  | some b =>
      obtain ⟨i, hcurrent, -⟩ := Option.bind_eq_some_iff.1 hbinding
      have hleft := h.toTold.leave i b pace
      rw [release_eq hcurrent hbinding]
      exact .unbound ⟨hleft.connected,
        (Workspace.events_closeProject (s.leave i b pace).workspace b.project).trans hleft.events⟩
        rfl

theorem openRoot (h : s.Informed) (hsound : s.Sound) (root : Option Text) (pace : Pace) :
    (s.openRoot root pace).2.Informed := by
  have hfree := hsound.release pace
  have hreleased := h.release pace
  unfold Session.openRoot
  rw [hfree.closeLeftover]
  generalize s.release pace = s at hfree hreleased
  cases root with
  | none => exact ⟨⟨hreleased.connected, hreleased.events⟩, hreleased.attached⟩
  | some uri =>
      dsimp only [quietly]
      rcases Workspace.resolveProject_cases (hfree.workspace.tracked?_eq_none (.ofUri uri))
        with ⟨e, hrun⟩ | ⟨directory, hrun⟩
      · rw [hrun]
        exact .unbound ⟨hreleased.connected, hreleased.events⟩ hfree.current
      · rw [hrun]
        have hbound := bind
          (s := { s with workspace := s.workspace.withOpened (.ofUri uri) directory })
          ⟨hreleased.connected, hreleased.events⟩
          (s.workspace.project?_withOpened (.ofUri uri) directory) rfl
          (Project.coherent_of_build Keyed.sorted_nil rfl).toWellFormed rfl
        exact ⟨⟨hbound.connected, hbound.events⟩, hbound.attached⟩

theorem respond (h : s.Informed) (r : Response) : (s.respond r).Informed :=
  h.tended (stepRelation_tended.respond s r)

theorem handleInitialize (h : s.Informed) (hsound : s.Sound) (r : Request) (pace : Pace) :
    (s.handleInitialize r pace).2.Informed := by
  rw [Session.handleInitialize]
  split
  · exact h.respond _
  · split
    · exact h.respond _
    · next root _ =>
        have hopened := h.openRoot hsound root pace
        generalize s.openRoot root pace = outcome at hopened ⊢
        rcases outcome with ⟨_ | _, s'⟩
        · exact hopened.respond _
        · exact hopened.respond _

theorem shutdown (h : s.Informed) (pace : Pace) : (s.shutdown pace).Informed := by
  have hcancelled := h.tended (stepRelation_tended.cancelAll s)
  have hentered : (s.cancelAll.enter .shuttingDown).Informed :=
    ⟨⟨hcancelled.connected, hcancelled.events⟩, hcancelled.attached⟩
  exact hentered.release pace

theorem finish (h : s.Informed) (pace : Pace) : (s.finish pace).Informed := by
  have hreleased := (h.tended (stepRelation_tended.cancelAll s)).release pace
  exact ⟨⟨hreleased.connected, hreleased.events⟩, hreleased.attached⟩

/-! ### Messages -/

theorem handleRequest (h : s.Informed) (hsound : s.Sound) (r : Request) (pace : Pace) :
    (s.handleRequest r pace).2.Informed := by
  rw [Session.handleRequest]
  split
  · exact h.handleInitialize hsound r pace
  · split
    · rw [handleShutdown]
      split
      · exact h.respond _
      · exact (h.shutdown pace).respond _
    · split
      · exact h.respond _
      · exact h.respond _
      · exact h.respond _
      · split
        · exact h.respond _
        · exact h.tended (stepRelation_tended.ask ..)

theorem step (h : s.Informed) (hsound : s.Sound) (next : Step) (pace : Pace) :
    (s.step next pace).2.Informed := by
  cases next with
  | work => exact h.tended (stepRelation_tended.workNext s)
  | message m =>
      cases m with
      | request r => exact h.handleRequest hsound r pace
      | notification n => exact h.handleNotification n
      | response r => exact h.tended (stepRelation_tended.handleResponse s r)

end Informed

end Session

end LanguageServer
