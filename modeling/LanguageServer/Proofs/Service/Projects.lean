import LanguageServer.Proofs.Session.Release
import LanguageServer.Server.Service

/-!
# The projects of a service

Between two clients a service is `Resting`: no project is open, and none is remembered as left open.
Each session starts from there, stays sound and comes back to it, however it ends. So the clients of
a service never have more than one project between them.
-/

namespace LanguageServer

namespace Service

variable {s : Service}

/-- No project is open, and none has been left open. -/
structure Resting (s : Service) : Prop where
  workspace : s.workspace.Idle
  slot : s.slot = none

theorem Resting.session (h : s.Resting) : s.session.Sound :=
  .inl ⟨rfl, h.slot, h.workspace⟩

theorem tended_files (session : Session) (disk : FileTree) :
    session.Tended { session with workspace := { session.workspace with disk } } :=
  ⟨rfl, rfl, rfl, rfl, rfl, id, .of_projects rfl rfl rfl⟩

/-- A session stays sound while the files change and the service is told to stop, however fast its
requests are worked on. -/
theorem sound_visit {session : Session} (h : session.Sound) (events : List Visit) :
    (s.visit session events).2.2.Sound := by
  induction events generalizing s session with
  | nil => exact h
  | cons e events ih =>
      cases e with
      | step next =>
          have hnext := h.step next s.pace
          rw [visit]
          generalize session.step next s.pace = outcome at hnext ⊢
          rcases outcome with ⟨_ | ending, session'⟩
          · exact ih hnext
          · exact hnext
      | begin => exact ih (h.steady (Session.stepRelation_tended.beginNext session).steady)
      | files disk => exact ih (h.steady (tended_files session disk).steady)
      | pace pace => exact ih h
      | keepListening keep => exact ih h
      | stop => exact h

theorem Resting.leave {session : Session} (h : session.Free) (s : Service) :
    (s.leave session).Resting := by
  dsimp only [Service.leave]
  split
  · exact ⟨h.workspace, h.slot⟩
  · exact ⟨h.workspace, h.slot⟩

theorem Resting.serve (h : s.Resting) (events : List Visit) : (s.serve events).2.Resting :=
  .leave ((sound_visit h.session events).finish _) _

/-- What a service keeps while it waits and serves one client, it keeps for all of them. -/
theorem run_of_serve {P : Service → Prop} (hawait : ∀ s, P s → P s.await)
    (hserve : ∀ s events, P s → P (s.serve events).2) (h : P s) (clients : List (List Visit)) :
    P (s.run clients).2 := by
  have hserveAll : ∀ s, P s → P (s.serveAll clients).2 := by
    induction clients with
    | nil => exact fun s h => h
    | cons client clients ih =>
        intro s h
        rw [Service.serveAll]
        split
        · exact h
        · exact ih _ (hserve s client h)
  exact hserveAll s.await (hawait s h)

theorem Resting.run (h : s.Resting) (clients : List (List Visit)) :
    (s.run clients).2.Resting :=
  run_of_serve (fun _ hs => ⟨hs.workspace, hs.slot⟩) (fun _ events hs => hs.serve events) h clients

/-- A session as it is when its project is released: as it stands if another one is asked for, with
all requests cancelled if it ends, and shutting down besides if it is told to. -/
def leaving (session : Session) : List Session :=
  [session, session.cancelAll, session.cancelAll.enter .shuttingDown]

theorem exists_bound_of_leaving {session closing : Session} (h : session.Sound)
    (hclosing : closing ∈ leaving session) {i : Nat} {b : Binding}
    (hcurrent : closing.current = some i) (hb : closing.bindings[i]? = some b) :
    ∃ root, closing.Bound i b root := by
  have hcancelled := h.steady (Session.stepRelation_tended.cancelAll session).steady
  simp only [leaving, List.mem_cons, List.not_mem_nil, or_false] at hclosing
  rcases hclosing with rfl | rfl | rfl
  · exact h.bound hcurrent hb
  · exact hcancelled.bound hcurrent hb
  · obtain ⟨root, hbound⟩ := hcancelled.bound hcurrent hb
    exact ⟨root, hbound.current, hbound.binding, hbound.slot, hbound.workspace, hbound.project,
      hbound.accepting⟩

/-- Whatever clients were served before, whatever has happened to the one that is served now, and
however fast its requests are worked on: at most one project is open, and it is the one of the
session, which serves. When the session ends, every project that was opened is closed. A project is
released with its editors closed, but for those that are opened before it is closed, by requests
that are worked on meanwhile. -/
theorem one_project_at_a_time (disk : FileTree) (libraries : List Text)
    (capabilities : Capabilities) (keepListening : Bool) (symbolLimit : Nat)
    (clients : List (List Visit)) (events : List Visit) :
    let workspace : Workspace := { disk, libraries, capabilities }
    let service := (({ keepListening, symbolLimit, workspace } : Service).run clients).2
    let session := (service.visit service.session events).2.2
    let after := (service.serve events).2
    session.workspace.OneProject ∧
      (∀ i, session.current = some i → session.phase = .serving ∧
        ∃ b p, session.bindings[i]? = some b ∧ session.slot = some b.project ∧
          session.workspace.project? b.project = some p ∧ p.isOpen = true) ∧
      (session.current = none → session.workspace.AllClosed) ∧
      (∀ closing ∈ leaving session, ∀ i b pace,
        closing.current = some i → closing.bindings[i]? = some b →
        ∃ calls root openFiles, (closing.release pace).workspace.calls
            = calls ++ [.closeProject b.project root openFiles] ∧
          ∀ key, key ∈ openFiles ↔
            key ∈ (closing.queue.take (pace.closed + pace.unheard + pace.ended)).flatMap
              ((closing.closeDocuments i b).opens b.project)) ∧
      after.workspace.OneProject ∧ after.workspace.AllClosed ∧ after.slot = none := by
  intro workspace service session after
  have hidle : workspace.Idle := ⟨rfl, rfl, nofun⟩
  have hresting : service.Resting := Resting.run ⟨hidle, rfl⟩ clients
  have hsound : session.Sound := sound_visit hresting.session events
  have hafter : after.Resting := hresting.serve events
  refine ⟨hsound.oneProject, fun i hcurrent => hsound.serving hcurrent, fun hcurrent => ?_,
    fun closing hclosing i b pace hcurrent hb => ?_, ?_, ?_, hafter.slot⟩
  · exact (hsound.idle hcurrent).allClosed
  · obtain ⟨root, hbound⟩ := exists_bound_of_leaving hsound hclosing hcurrent hb
    obtain ⟨openFiles, hcalls, hopened⟩ := hbound.calls_release pace
    exact ⟨_, root, openFiles, hcalls, hopened⟩
  · exact hafter.workspace.oneProject
  · exact hafter.workspace.allClosed

/-- A client opens a project, asks what is known about a word and opens the project again. The word
is looked up after the editors have been closed and before the project is. -/
def overtakenRelease : List Visit :=
  let folder : Json := .obj [("name", .ofString "p"), ("uri", .str Workspace.sampleRoot)]
  let opening (id : Int) : Visit := .step (.message (.request ⟨.number id, "initialize".toList,
    .obj [("capabilities", .obj []), ("workspaceFolders", .arr [folder])]⟩))
  let place : Json := .obj [("textDocument", .obj [("uri", .str Workspace.sampleUri)]),
    ("position", .obj [("line", .nat 0), ("character", .nat 1)])]
  [opening 1,
    .step (.message (.request ⟨.number 2, "textDocument/hover".toList, place⟩)),
    .pace { closed := 1 },
    opening 3]

/-- The file stays open, although the project is closed and opened again. -/
theorem file_left_open :
    let service : Service := { workspace := { disk := Workspace.sampleDisk } }
    (service.serve overtakenRelease).2.workspace.calls =
      [.resolve (.ofUri Workspace.sampleRoot) (some 0),
        .closeProject 0 (.ofUri Workspace.sampleRoot) [.ofUri Workspace.sampleUri],
        .resolve (.ofUri Workspace.sampleRoot) (some 1),
        .closeProject 1 (.ofUri Workspace.sampleRoot) []] := by
  decide +kernel

end Service

end LanguageServer
