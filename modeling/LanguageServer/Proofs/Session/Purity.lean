import LanguageServer.Proofs.Service.Projects
import LanguageServer.Proofs.Session.Parallel

/-!
# Queries leave nothing behind

A request that only asks opens the editor of its file, which then keeps the text of that moment. As
long as such an editor is expected where the request was not made, that is as long as nobody would
find another text in its place, the other requests get the same answers with it and without it.
-/

namespace LanguageServer

namespace Session

open Workspace (Alike Kin Expected)

variable {out : RequestId → Bool} {number : Nat → Option Nat} {s s' : Session}

/-! ### Runs -/

/-- What happens to a session: it takes a step, someone begins with a request, the time for an
answer of the client is over, the files change, or the index of a project is built anew. -/
inductive Event
  | step (next : Step)
  | begin
  | timeout
  | files (disk : FileTree)
  | reindex (project : Nat)

/-- Goes on with an event. -/
def happen (s : Session) : Event → Session
  | .step next => (s.step next).2
  | .begin => s.beginNext
  | .timeout => s.modifyProgress Progress.timedOut
  | .files disk => { s with workspace := { s.workspace with disk } }
  | .reindex project => (s.within { project } (Workspace.reindex project)).2

/-- Goes on with some events. -/
def through (s : Session) (events : List Event) : Session := events.foldl happen s

/-- Whether a request that is left out arrives with an event, is begun with or is worked on. -/
def concerns (out : RequestId → Bool) (s : Session) : Event → Bool
  | .step (.message (.request r)) => out r.id
  | .step .work => s.queue.head?.any (out ·.id)
  | .begin => (s.queue.find? isIdle).any (out ·.id)
  | _ => false

/-- Whether an editor may come to differ from what would be found without it: the files change, or a
request that is left out is worked on. -/
def unsettles (out : RequestId → Bool) (s : Session) : Event → Bool
  | .files _ => true
  | .step .work => s.queue.head?.any (out ·.id)
  | _ => false

/-- The events but for those of the requests that are left out. -/
def without (out : RequestId → Bool) (s : Session) : List Event → List Event
  | [] => []
  | e :: events =>
    if s.concerns out e then without out (s.happen e) events
    else e :: without out (s.happen e) events

theorem concerns_none (s : Session) (e : Event) : s.concerns (fun _ => false) e = false := by
  rcases e with ((r | r | n) | _) | _ | _ | disk | project
  · rfl
  · rfl
  · rfl
  · cases hqueue : s.queue <;> simp [concerns, hqueue]
  · cases hnext : s.queue.find? isIdle <;> simp [concerns, hnext]
  · rfl
  · rfl
  · rfl

namespace Counterparts

/-! ### Events that both have -/

theorem step (h : Counterparts Alike out number s s') {next : Step}
    (hnext : s.concerns out (.step next) = false) {pace : Pace}
    (hpace : pace = {} ∨ ∀ id, out id = false) :
    (s.step next pace).1 = (s'.step next pace).1 ∧
      Counterparts Alike out number (s.step next pace).2 (s'.step next pace).2 := by
  rcases next with (r | r | n) | _
  · exact h.handleRequest hnext hpace
  · exact ⟨rfl, h.handleResponse r⟩
  · exact h.handleNotification n
  · refine ⟨rfl, h.workNext fun job hjob => ?_⟩
    rw [concerns, hjob] at hnext
    exact hnext

theorem happen (h : Counterparts Alike out number s s') {e : Event}
    (he : s.concerns out e = false)
    (hexpected : s.unsettles out e = true →
      Expected (s.happen e).workspace (s'.happen e).workspace) :
    Counterparts Alike out number (s.happen e) (s'.happen e) := by
  cases e with
  | step next => exact (h.step he (.inl rfl)).2
  | begin =>
      refine h.beginNext fun job hjob => ?_
      rw [concerns, hjob] at he
      exact he
  | timeout => exact h.modifyProgress fun p => p.alike_timedOut
  | reindex project => exact (h.within { project } (Workspace.matched_reindex project)).2
  | files disk =>
      have hkin := (Workspace.alike_iff.1 h.workspace).1
      exact { h with workspace := Workspace.alike_iff.2 ⟨hkin.files disk, hexpected rfl⟩ }

/-! ### Events that only the first one has -/

theorem happen_left (h : Counterparts Alike out number s s') {e : Event}
    (he : s.concerns out e = true)
    (hquery : ∀ r, e = .step (.message (.request r)) → out r.id = true → r.IsQuery)
    (hexpected : s.unsettles out e = true → Expected (s.happen e).workspace s'.workspace) :
    ∃ number', Counterparts Alike out number' (s.happen e) s' := by
  rcases e with ((r | r | n) | _) | _ | _ | disk | project
  · exact h.handleRequest_left he (hquery r rfl he)
  · cases he
  · cases he
  · cases hqueue : s.queue with
    | nil =>
        rw [concerns, hqueue] at he
        cases he
    | cons job rest =>
        have hout : out job.id = true := by
          rw [concerns, hqueue] at he
          exact he
        have hworked := (h.imp (Workspace.alike_iff.1 h.workspace).1).workNext_left hqueue hout
          (hexpected he)
        exact ⟨number, hworked.imp (Workspace.alike_iff.2 ⟨hworked.workspace, hexpected he⟩)⟩
  · cases hnext : s.queue.find? isIdle with
    | none =>
        rw [concerns, hnext] at he
        cases he
    | some job =>
        rw [concerns, hnext] at he
        exact ⟨number, h.beginNext_left hnext he⟩
  · cases he
  · cases he
  · cases he

/-- A run, and the same one without some queries. -/
theorem through (h : Counterparts Alike out number s s') {events : List Event}
    (hquery : ∀ r, .step (.message (.request r)) ∈ events → out r.id = true → r.IsQuery)
    (hexpected : ∀ before e, before ++ [e] <+: events → (s.through before).unsettles out e = true →
      Expected (s.through (before ++ [e])).workspace
        (s'.through (s.without out (before ++ [e]))).workspace) :
    ∃ number', Counterparts Alike out number' (s.through events)
      (s'.through (s.without out events)) := by
  induction events generalizing s s' number with
  | nil => exact ⟨number, h⟩
  | cons e events ih =>
      have hlater : ∀ r, .step (.message (.request r)) ∈ events → out r.id = true → r.IsQuery :=
        fun r hr => hquery r (List.mem_cons_of_mem _ hr)
      have hfirst := hexpected [] e ⟨events, rfl⟩
      have hrest := fun before e' hbefore =>
        hexpected (e :: before) e' (List.cons_prefix_cons.2 ⟨rfl, hbefore⟩)
      cases he : s.concerns out e with
      | true =>
          have hwithout : ∀ events, s.without out (e :: events)
              = (s.happen e).without out events := fun events => by rw [without, if_pos he]
          rw [List.nil_append, hwithout] at hfirst
          obtain ⟨number', hnext⟩ := h.happen_left he
            (fun r hr => hquery r (hr ▸ List.mem_cons_self)) hfirst
          rw [hwithout]
          refine ih hnext hlater fun before e' hbefore hunsettled => ?_
          have hexpects := hrest before e' hbefore hunsettled
          rw [List.cons_append, hwithout] at hexpects
          exact hexpects
      | false =>
          have hwithout : ∀ events, s.without out (e :: events)
              = e :: (s.happen e).without out events := fun events => by
            rw [without, if_neg (by rw [he]; exact Bool.false_ne_true)]
          rw [List.nil_append, hwithout] at hfirst
          rw [hwithout]
          refine ih (h.happen he hfirst) hlater fun before e' hbefore hunsettled => ?_
          have hexpects := hrest before e' hbefore hunsettled
          rw [List.cons_append, hwithout] at hexpects
          exact hexpects

end Counterparts

end Session

namespace Service

open Workspace (Alike)

/-- Everything that has happened has been told, and the projects are as they should be. -/
structure Sane (s : Service) : Prop where
  told : s.workspace.events = []
  alike : Alike s.workspace s.workspace

variable {s : Service} {number : Nat → Option Nat} {out : RequestId → Bool}

theorem Sane.session (h : s.Sane) :
    Session.Counterparts Alike out some s.session s.session where
  phase := rfl
  symbolLimit := rfl
  slot := rfl
  current := rfl
  client := .refl _
  workspace := h.alike
  told := h.told
  bindings := rfl
  queue := rfl
  fresh _ := rfl
  injective _ _ _ ht hu := Option.some.inj (ht.trans hu.symm)
  tickets := nofun
  jobs := nofun
  placed := nofun
  queries := nofun

theorem counterparts_visit {session : Session}
    (h : Session.Counterparts Alike (fun _ => false) number session session)
    (events : List Visit) :
    Session.Counterparts Alike (fun _ => false) number (s.visit session events).2.2
      (s.visit session events).2.2 := by
  induction events generalizing s session with
  | nil => exact h
  | cons e events ih =>
      cases e with
      | step next =>
          have hnobody : s.pace = {} ∨ ∀ _ : RequestId, false = false := .inr fun _ => rfl
          have hnext := (h.step (Session.concerns_none session (.step next)) hnobody).2
          rw [visit]
          generalize session.step next s.pace = outcome at hnext ⊢
          rcases outcome with ⟨_ | ending, session'⟩
          · exact ih hnext
          · exact hnext
      | files disk =>
          have hkin := (Workspace.alike_iff.1 h.workspace).1.files disk
          exact ih { h with workspace := Workspace.Kin.alike_self hkin }
      | begin => exact ih (h.beginNext fun _ _ => rfl)
      | keepListening keep => exact ih h
      | pace pace => exact ih h
      | stop => exact h

theorem Sane.leave {session : Session} (htold : session.workspace.events = [])
    (halike : Alike session.workspace session.workspace) (s : Service) :
    (s.leave session).Sane := by
  dsimp only [Service.leave]
  split
  · exact ⟨htold, halike⟩
  · exact ⟨htold, halike⟩

theorem Sane.serve (h : s.Sane) (events : List Visit) : (s.serve events).2.Sane :=
  have hfinished := (counterparts_visit (s := s) h.session events).finish (.inr fun _ => rfl)
  .leave hfinished.told hfinished.workspace _

theorem Sane.run (h : s.Sane) (clients : List (List Visit)) : (s.run clients).2.Sane :=
  run_of_serve (fun _ hs => ⟨hs.told, hs.alike⟩) (fun _ events hs => hs.serve events) h clients

/-- Queries are left out of a run, with all work on them. If every editor that is open in the full
run only is expected in the other one, each time that such a query has been worked on or the files
have changed, then the other requests get the same responses. -/
theorem responses_unchanged_without_queries (disk : FileTree) (libraries : List Text)
    (lineDiff : LineDiffer) (keepListening : Bool) (symbolLimit : Nat) (clients : List (List Visit))
    (out : RequestId → Bool) (events : List Session.Event) :
    let workspace : Workspace := { disk, libraries, capabilities := .standard lineDiff }
    let service := (({ keepListening, symbolLimit, workspace } : Service).run clients).2
    let session := service.session
    (∀ r, .step (.message (.request r)) ∈ events → out r.id = true → r.IsQuery) →
    (∀ before e, before ++ [e] <+: events → (session.through before).unsettles out e = true →
      Workspace.Expected (session.through (before ++ [e])).workspace
        (session.through (session.without out (before ++ [e]))).workspace) →
    (session.through events).client.responsesBut out
      = (session.through (session.without out events)).client.responsesBut out := by
  intro workspace service session hquery hexpected
  have hnew : Alike workspace workspace :=
    { disk := rfl, libraries := rfl, standard := rfl, standard' := rfl, table := rfl
      nextTask := rfl, events := rfl, length := rfl, projects := nofun }
  have hsane : service.Sane := Sane.run ⟨rfl, hnew⟩ clients
  have hcounterparts : Session.Counterparts Alike out some session session := hsane.session
  obtain ⟨_, hrun⟩ := hcounterparts.through hquery hexpected
  exact hrun.client.responses

end Service

/-! ### A query about a file that is not open -/

namespace FileTree

variable {t : FileTree} {path name : Text} {place : Place}

theorem steps_name (hname : name ≠ []) (hslash : '/' ∉ name) :
    steps (path ++ '/' :: name) = (path.splitOn '/').filter (· ≠ []) ++ [name] := by
  have hlast : (path ++ '/' :: name).getLast? ≠ some '/' := by
    intro hlast
    rw [List.append_cons, List.getLast?_append_of_ne_nil _ hname] at hlast
    exact hslash (List.mem_of_getLast? hlast)
  have hsplit : name.splitOn '/' = [name] := List.splitOn_eq_singleton hslash
  rw [steps, if_neg hlast, List.splitOn_append_cons_self, hsplit, List.filter_append]
  simp [hname]

theorem foldlM_step_dot {start : Place × Entry} {names : List Text}
    (h : (names ++ [['.']]).foldlM t.step start = .ok (place, .directory)) :
    names.foldlM t.step start = .ok (place, .directory) := by
  rw [List.foldlM_append] at h
  rcases hnames : names.foldlM t.step start with e | ⟨q, _ | _⟩
  · rw [hnames] at h
    cases h
  · rw [hnames] at h
    exact h
  · rw [hnames] at h
    cases h

/-- A name leads on from a directory, whatever path has led there. -/
theorem follow_name (h : t.follow path = .ok (place, .directory)) (hname : name ≠ [])
    (hslash : '/' ∉ name) : t.follow (path ++ '/' :: name) = t.step (place, .directory) name := by
  unfold follow at h
  split at h
  · next rest =>
      have hdirectory : ((('/' :: rest).splitOn '/').filter (· ≠ [])).foldlM t.step
          ([], .directory) = .ok (place, .directory) := by
        rw [steps] at h
        split at h
        · exact foldlM_step_dot h
        · exact h
      have hfollow : t.follow ('/' :: rest ++ '/' :: name)
          = (steps ('/' :: rest ++ '/' :: name)).foldlM t.step ([], .directory) := rfl
      rw [hfollow, steps_name hname hslash, List.foldlM_append, hdirectory]
      exact bind_pure (t.step (place, .directory) name)
  · cases h

end FileTree

namespace Workspace

/-- The text of the one file. -/
def sampleText : Text := "one\r\ntwo".toList

/-- Whatever path leads to a directory, the one file is found below it. -/
theorem source?_of_mem_sources {path child text : Text}
    (hdirectory : sampleDisk.isDirectory path = true)
    (h : (child, text) ∈ sampleDisk.sources path) :
    sampleDisk.source? child = some sampleText := by
  rw [FileTree.isDirectory] at hdirectory
  rw [FileTree.sources] at h
  cases hfollow : sampleDisk.follow path with
  | error e =>
      rw [hfollow] at h
      cases h
  | ok found =>
      rw [hfollow] at h hdirectory
      obtain ⟨place, _ | ⟨content, writable⟩⟩ := found
      · obtain ⟨⟨names, content⟩, hbelow, hchild⟩ := List.mem_filterMap.1 h
        obtain ⟨⟨entry, e⟩, hentry, hnames⟩ := List.mem_filterMap.1 (List.mem_of_mem_filter hbelow)
        obtain ⟨text', htext, hpath⟩ := Option.map_eq_some_iff.1 hchild
        obtain ⟨rfl, rfl⟩ := Prod.mk.inj hpath
        simp only [sampleDisk, List.mem_cons, List.not_mem_nil, or_false, Prod.mk.injEq] at hentry
        obtain ⟨rfl, rfl⟩ | ⟨rfl, rfl⟩ := hentry
        · cases hnames
        · dsimp only at hnames
          split at hnames
          · next hunder =>
              cases hnames
              rw [Bool.and_eq_true, List.isPrefixOf_iff_prefix] at hunder
              obtain ⟨hplace, hbelow⟩ := hunder
              have hfile : ∀ {path}, sampleDisk.follow path = .ok (["p".toList], .directory) →
                  sampleDisk.source? (path ++ '/' :: "a".toList) = some sampleText := fun h => by
                rw [FileTree.source?, FileTree.follow_name h (by decide) (by decide)]
                decide
              simp only [List.prefix_cons_iff, List.prefix_nil] at hplace
              obtain rfl | ⟨_, rfl, rfl | ⟨_, rfl, rfl⟩⟩ := hplace
              · have hname : "p".toList ≠ [] ∧ '/' ∉ "p".toList := by decide
                have hinner := FileTree.follow_name hfollow hname.1 hname.2
                have hfound := hfile (hinner.trans (by decide))
                rw [List.append_assoc] at hfound
                exact hfound
              · exact hfile hfollow
              · exact absurd hbelow (by decide)
          · cases hnames
      · cases hdirectory

theorem reread?_sample {root k : FileKey} {file : Option IndexedFile}
    (h : sampleDisk.reread? root [k] (.ofUri sampleUri) = some file) :
    file = some (.ofText sampleText ((FileKey.ofUri sampleUri).isUnder root)) := by
  rw [FileTree.reread?, List.flatMap_singleton] at h
  obtain ⟨path, hpath, rfl⟩ := Option.map_eq_some_iff.1 h
  have hmem : (.ofUri sampleUri, path) ∈ sampleDisk.rereads k :=
    List.mem_reverse.1 (Keyed.mem_of_get? hpath)
  have hsource : sampleDisk.source? path = some sampleText := by
    rw [FileTree.rereads] at hmem
    split at hmem
    · cases hmem
    · next kpath hlocal =>
        split at hmem
        · next hdirectory =>
            obtain ⟨⟨child, text⟩, hchild, heq⟩ := List.mem_map.1 hmem
            obtain ⟨-, rfl⟩ := Prod.mk.inj heq
            exact source?_of_mem_sources hdirectory hchild
        · obtain ⟨rfl, rfl⟩ := Prod.mk.inj (List.mem_singleton.1 hmem)
          have hplace : FileKey.localPath? (.ofUri sampleUri) = some "/p/a".toList := by decide
          cases hplace.symm.trans hlocal
          decide
  rw [hsource]
  rfl

/-- Wherever the index has its text, an editor of the one file is expected. -/
theorem expects_sample {p : Project} {e : Editor} (hroot : p.root = .ofUri sampleRoot)
    (hdirectory : p.directory = "/p".toList)
    (hindex : Keyed.get? p.index (.ofUri sampleUri) = some (.ofText sampleText true))
    (he : e.content = (sampleText, true)) : p.Expects sampleDisk [] (.ofUri sampleUri) e where
  indexed := hindex.trans (by rw [← show e.text = sampleText from congrArg Prod.fst he])
  read := he ▸ by decide
  rebuilt := by
    rw [hdirectory, show e.text = sampleText from congrArg Prod.fst he]
    decide
  reread k file h := by
    rw [hroot] at h
    rw [reread?_sample h, show e.text = sampleText from congrArg Prod.fst he]
    decide

/-- The editor of the one file is expected where only the index has its text. -/
theorem expected_sample {w w' : Workspace} {e : Editor} (he : e.content = (sampleText, true))
    (hdisk : w.disk = sampleDisk) (hlibraries : w.libraries = [])
    (heditors : w.projects.map (·.editors) = [[(.ofUri sampleUri, e)]])
    (hindexed : (w'.projects.map fun p =>
        (p.root, p.directory, Keyed.get? p.index (.ofUri sampleUri)))
      = [(.ofUri sampleRoot, "/p".toList, some (.ofText sampleText true))]) : Expected w w' := by
  intro id p p' hp hp' key e' he' _
  have hfirst := congrArg (·[id]?) heditors
  have hsecond := congrArg (·[id]?) hindexed
  rw [project?] at hp hp'
  simp only [List.getElem?_map, hp, hp', Option.map_some] at hfirst hsecond
  rcases id with _ | id
  · obtain ⟨hroot, hdirectory, hindex⟩ : p'.root = .ofUri sampleRoot ∧ p'.directory = "/p".toList ∧
        Keyed.get? p'.index (.ofUri sampleUri) = some (.ofText sampleText true) := by
      simpa using hsecond
    have hopen : p.editors = [(.ofUri sampleUri, e)] := by simpa using hfirst
    rw [hopen, Keyed.get?_cons] at he'
    split at he'
    · next hkey =>
        cases he'
        rw [hdisk, hlibraries, ← hkey]
        exact expects_sample hroot hdirectory hindex he
    · cases he'
  · simp at hfirst

end Workspace

namespace Service

open Session (Event unsettles)

/-- A client opens a project, hovers over a word in a file of it, and asks what the file holds once
some more has happened. -/
def hovers (more : List Event) : List Event :=
  let document : String × Json := ("textDocument", .obj [("uri", .str Workspace.sampleUri)])
  let place : Json := .obj [document, ("position", .obj [("line", .nat 0), ("character", .nat 1)])]
  [.step (.message (.request ⟨.number 1, "initialize".toList,
      .obj [("capabilities", .obj []), ("rootUri", .str Workspace.sampleRoot)]⟩)),
    .step (.message (.request ⟨.number 2, "textDocument/hover".toList, place⟩)), .step .work]
    ++ more ++
  [.step (.message (.request ⟨.number 3, "experimental/classFileContents".toList,
      .obj [("uri", .str Workspace.sampleUri)]⟩)), .step .work]

/-- The session of that client. -/
def hovering : Session :=
  (({ workspace := { disk := Workspace.sampleDisk } } : Service).run []).2.session

/-- The session once some events have happened to it, but for those of the hover. -/
def unhovered (events : List Event) : Session :=
  hovering.through (hovering.without (· == .number 2) events)

theorem isQuery_of_hovers {more : List Event} {r : Request}
    (hmore : .step (.message (.request r)) ∉ more)
    (hr : .step (.message (.request r)) ∈ hovers more) (hout : (r.id == .number 2) = true) :
    r.IsQuery := by
  simp only [hovers, List.mem_append, List.mem_cons, List.not_mem_nil, or_false, hmore,
    Event.step.injEq, Session.Step.message.injEq, Message.request.injEq, reduceCtorEq] at hr
  obtain (rfl | rfl) | rfl := hr
  · cases hout
  · exact (by decide : "textDocument/hover" ∈ queryMethods)
  · cases hout

/-- The file is opened for the hover only, and nobody else notices. -/
theorem responses_unchanged_without_hover :
    (hovering.through ((hovers []).take 3)).workspace.openFiles 0 = [.ofUri Workspace.sampleUri] ∧
      (unhovered ((hovers []).take 3)).workspace.openFiles 0 = [] ∧
      (hovering.through (hovers [])).client.responsesBut (· == .number 2)
        = (unhovered (hovers [])).client.responsesBut (· == .number 2) := by
  refine ⟨by decide +kernel, by decide +kernel, ?_⟩
  refine responses_unchanged_without_queries Workspace.sampleDisk [] .ofEnds true 100 []
    (· == .number 2) (hovers []) (fun r => isQuery_of_hovers List.not_mem_nil)
    fun before e hinit hunsettles => ?_
  -- The one event after which something has to be shown is the third one.
  obtain ⟨rest, hrest⟩ := hinit
  have hfirst : before = (hovers []).take before.length := by simp [← hrest]
  have hlast : (hovers [])[before.length]? = some e := by simp [← hrest]
  have hworked : before ++ [e] = (hovers []).take (before.length + 1) := by
    rw [← hrest, ← List.length_concat (a := e), List.concat_eq_append, List.take_left]
  have hthird : before.length = 2 := by
    have hany : ((hovers [])[before.length]?).any (unsettles (· == .number 2)
        (hovering.through ((hovers []).take before.length))) = true := by
      rw [hlast, ← hfirst]
      exact hunsettles
    have hlength : before.length < 5 := (List.getElem?_eq_some_iff.1 hlast).1
    generalize before.length = i at hany hlength
    have hnone : ∀ i < 5, ((hovers [])[i]?).any (unsettles (· == .number 2)
        (hovering.through ((hovers []).take i))) = true → i = 2 := by decide +kernel
    exact hnone i hlength hany
  rw [hworked, hthird]
  exact Workspace.expected_sample (e := ⟨Workspace.sampleText, 1, true⟩) rfl (by decide +kernel)
    (by decide +kernel) (by decide +kernel) (by decide +kernel)

/-- The file with another text in it. -/
def rewritten : FileTree :=
  ⟨[(["p".toList], .directory), (["p".toList, "a".toList], .file (.text "two".toList) true)]⟩

/-- The file is written once it has been opened for the hover. Who asks for it then gets the old
text, and the new one if nobody has hovered. -/
theorem response_changed_without_hover :
    (∀ r, .step (.message (.request r)) ∈ hovers [.files rewritten] → (r.id == .number 2) = true →
      r.IsQuery) ∧
    (hovering.through (hovers [.files rewritten])).client.responsesBut (· == .number 2)
      ≠ (unhovered (hovers [.files rewritten])).client.responsesBut (· == .number 2) := by
  refine ⟨fun r => isQuery_of_hovers (by simp), fun heq => ?_⟩
  have htexts := congrArg (List.map fun r : Response => r.result.bind Json.text?) heq
  have hold : ((hovering.through (hovers [.files rewritten])).client.responsesBut
      (· == .number 2)).map (fun r => r.result.bind Json.text?)
        = [none, some Workspace.sampleText] := by decide +kernel
  have hnew : ((unhovered (hovers [.files rewritten])).client.responsesBut (· == .number 2)).map
      (fun r => r.result.bind Json.text?) = [none, some "two".toList] := by decide +kernel
  rw [hold, hnew] at htexts
  exact absurd htexts (by decide)

end Service

end LanguageServer
