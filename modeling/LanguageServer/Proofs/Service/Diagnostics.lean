import LanguageServer.Proofs.Service.Projects
import LanguageServer.Proofs.Session.Informed

/-!
# What diagnostics are labelled with

Findings are published under the address and with the version that a document has when its text is
put into the editor. The list of documents is brought up to date only afterwards, so the label is
the one of before (`Documents.label?`), while the findings are those of the new text.
-/

namespace LanguageServer

/-- The notification with what is found in a text, under an address and with a version. -/
def Message.publication (uri : Text) (version : Option Int) (text : Text) : Message :=
  .notification ⟨"textDocument/publishDiagnostics".toList, .ofFields [("uri", some (.str uri)),
    ("diagnostics", some (.arr ((findings text).filterMap Finding.toJson?))),
    ("version", version.map .int)]⟩

namespace Documents

variable {docs : Documents} {key : FileKey}

/-- The address and the version that the findings in a file are published with. -/
def label? (docs : Documents) (key : FileKey) : Option (Text × Option Int) :=
  (docs.uriFor? key).map (·, docs.version? key)

/-- What is published of texts of a file. -/
def publications (docs : Documents) (key : FileKey) (texts : List Text) : List Message :=
  texts.filterMap fun text =>
    (docs.label? key).map fun (uri, version) => .publication uri version text

theorem label?_of_get?_eq_none (h : docs.get? key = none) :
    docs.label? key = key.uri?.map (·, none) := by
  rw [label?, uriFor?, version?, h]
  rfl

theorem Named.label? (hnamed : docs.Named) {d : ManagedDocument} (h : docs.get? key = some d) :
    docs.label? key = some (d.uri, d.version) := by
  have huri := hnamed key d h
  rw [Documents.label?, uriFor?, version?, h, Option.map_some, Option.filter_some, if_pos huri]
  rfl

end Documents

theorem Client.sent_foldl_publishFindings (docs : Documents) (key : FileKey) (texts : List Text)
    {c : Client} (hconnected : c.connected = true) :
    (texts.foldl (fun c text => c.publishFindings docs key (findings text)) c).sent
      = c.sent ++ docs.publications key texts := by
  induction texts generalizing c with
  | nil => exact (List.append_nil _).symm
  | cons text texts ih =>
      have hstill : (c.publishFindings docs key (findings text)).connected = true :=
        (c.quiet_publishFindings docs key (findings text)).connected.trans hconnected
      have hsent : (c.publishFindings docs key (findings text)).sent
          = c.sent ++ docs.publications key [text] := by
        rw [publishFindings, Documents.publications, Documents.label?]
        cases docs.uriFor? key with
        | none => exact (List.append_nil _).symm
        | some uri =>
            simp only [notify, send, hconnected, if_true]
            rfl
      rw [List.foldl_cons, ih hstill, hsent, List.append_assoc, Documents.publications,
        Documents.publications, ← List.filterMap_append]
      rfl

namespace Session

variable {s : Session} {i : Nat} {b : Binding} {n : Notification}

/-- Only one of the listeners publishes what has been found in a text. -/
theorem foldl_deliver_told (docs : Documents) (key : FileKey) (texts : List Text) (s : Session) :
    (Workspace.told [.diagnostics, .indexStatus, .progress] key texts).foldl (deliver docs) s =
      { s with
        client :=
          texts.foldl (fun c text => c.publishFindings docs key (findings text)) s.client } := by
  induction texts generalizing s with
  | nil => rfl
  | cons text texts ih =>
      rw [Workspace.told, List.flatMap_cons, List.foldl_append]
      exact ih { s with client := s.client.publishFindings docs key (findings text) }

/-- What an operation on documents brings to the client, and what it leaves. -/
theorem withDocuments_of_events (h : s.Informed) (hcurrent : s.current = some i)
    (hb : s.bindings[i]? = some b) (seen : Documents)
    {steps : WorkspaceM (Except DocumentError Unit × Documents)} {key : FileKey} {texts : List Text}
    (hevents : (steps.run s.workspace).2.events
      = s.workspace.events ++
        Workspace.told (s.workspace.listeners b.documents.project) key texts) :
    (s.withDocuments i seen steps).client.sent = s.client.sent ++ seen.publications key texts ∧
      (s.withDocuments i seen steps).workspace.projects = (steps.run s.workspace).2.projects ∧
      ((s.withDocuments i seen steps).bindings[i]?).map (·.documents)
        = some (steps.run s.workspace).1.2 := by
  have hattached := h.attached i b hcurrent hb
  obtain ⟨p, hp⟩ := hattached.inStep
  have hproject : b.documents.project = b.project := hp.same
  rw [h.events, hproject, hattached.listeners, List.nil_append] at hevents
  rw [withDocuments, within]
  generalize steps.run s.workspace = outcome at hevents ⊢
  obtain ⟨⟨result, docs⟩, w⟩ := outcome
  dsimp only at hevents ⊢
  rw [hevents, foldl_deliver_told]
  refine ⟨?_, rfl, ?_⟩
  · exact Client.sent_foldl_publishFindings seen key texts h.connected
  · simp only [modifyBinding, List.getElem?_modify, if_true, hb]
    rfl

/-- An operation of which nobody is told brings nothing to the client. -/
theorem sent_withDocuments_of_silent (h : s.Informed) (hcurrent : s.current = some i)
    (hb : s.bindings[i]? = some b) (seen : Documents)
    {steps : WorkspaceM (Except DocumentError Unit × Documents)}
    (hevents : (steps.run s.workspace).2.events = s.workspace.events) :
    (s.withDocuments i seen steps).client.sent = s.client.sent := by
  have htold : Workspace.told (s.workspace.listeners b.documents.project) ⟨[]⟩ [] = [] := rfl
  rw [← List.append_nil s.workspace.events, ← htold] at hevents
  exact (withDocuments_of_events h hcurrent hb seen hevents).1.trans (List.append_nil _)

theorem step_notified (hphase : s.phase = .serving) (hcurrent : s.current = some i)
    (hb : s.bindings[i]? = some b) (hmethod : n.method = "textDocument/didOpen".toList ∨
      n.method = "textDocument/didChange".toList) :
    (s.step (.message (.notification n))).2 = s.notified i b.documents n := by
  have hbinding : s.binding? = some b := by rw [binding?, hcurrent, Option.bind_some, hb]
  change (s.handleNotification n).2 = _
  rcases hmethod with hmethod | hmethod
  · simp only [handleNotification, hmethod, hphase, hcurrent, hbinding]
    rfl
  · simp only [handleNotification, hmethod, hphase, hcurrent, hbinding]
    rfl

/-- Opening a document publishes what has been found in the texts that its editor gets, for the
documents as they were before. -/
theorem sent_didOpen (h : s.Informed) {root : FileKey} (hbound : s.Bound i b root)
    (d : Params.OpenedDocument) :
    let key := FileKey.ofUri d.uri
    let texts := if Documents.isSupported key then
      s.workspace.analysed b.documents.project key d.text.normalizeNewlines else []
    let opened := s.didOpen i b.documents d
    (∃ notices, opened.client.sent
        = s.client.sent ++ b.documents.publications key texts ++ notices ∧
      ∀ m ∈ notices, m = .notification ⟨"experimental/indexStarted".toList, .null⟩) ∧
    (opened.bindings[i]?).map (·.documents)
      = some ((b.documents.start d.uri d.text d.version).run s.workspace).1.2 := by
  intro key texts opened
  have hevents := Documents.events_start hbound.accepting d.uri d.text d.version s.workspace
  obtain ⟨hsent, -, hdocs⟩ :=
    withDocuments_of_events h hbound.current hbound.binding b.documents hevents
  have hconnected : (s.withDocuments i b.documents
      (b.documents.start d.uri d.text d.version)).client.connected = true :=
    (quiet_withDocuments ..).client.connected.trans h.connected
  simp only [opened, didOpen, announceIndexing]
  generalize s.withDocuments i b.documents _ = s' at hsent hdocs hconnected
  split
  · refine ⟨⟨[.notification ⟨"experimental/indexStarted".toList, .null⟩], ?_, fun m hm => ?_⟩,
      hdocs⟩
    · rw [← hsent]
      simp only [Client.indexStarted, Client.notify, Client.send, hconnected, if_true]
    · exact List.mem_singleton.1 hm
  · refine ⟨⟨[], hsent.trans (List.append_nil _).symm, fun m hm => ?_⟩, hdocs⟩
    cases hm

/-- Changes that are taken are published with the version of before, and others not at all. -/
theorem sent_didChange (h : s.Informed) {root : FileKey} (hbound : s.Bound i b root)
    (d : Params.ChangedDocument) :
    let key := FileKey.ofUri d.uri
    let docs := b.documents
    let outcome := (docs.update d.uri d.version d.changes).run s.workspace
    let changed := s.didChange i docs d
    (outcome.1.1 ≠ .ok () → changed.client.sent = s.client.sent) ∧
    (outcome.1.1 = .ok () → ∃ m editor, docs.get? key = some m ∧
      s.workspace.editor? docs.project key = some editor ∧
      let text := d.changes.foldl ContentChange.applied editor.text
      changed.client.sent = s.client.sent ++ [.publication m.uri m.version text] ∧
      changed.workspace.editor? docs.project key = some (editor.setText text) ∧
      (changed.bindings[i]?).bind (·.documents.get? key)
        = some { m with version := some d.version } ∧
      ∀ v, m.version = some v → (v = d.version ↔ d.changes = [])) := by
  intro key docs outcome changed
  have hattached := h.attached i b hbound.current hbound.binding
  cases hget : docs.get? key with
  | none =>
      have hrun : outcome = ((.error (.notManaged key), docs), s.workspace) := by
        simp only [outcome, Documents.update_run, key] at hget ⊢
        rw [hget]
      have hevents : outcome.2.events = s.workspace.events := by rw [hrun]
      refine ⟨fun _ => ?_, fun hok => ?_⟩
      · exact sent_withDocuments_of_silent h hbound.current hbound.binding docs hevents
      · rw [hrun] at hok
        cases hok
  | some m =>
      obtain ⟨p, hp⟩ := hattached.inStep
      obtain ⟨editor, heditor⟩ := Option.isSome_iff_exists.1 (hp.managed key m hget)
      replace heditor : s.workspace.editor? docs.project key = some editor := by
        rw [hbound.project, Workspace.editor?, hp.found, Option.bind_some, heditor]
      rcases Documents.update_cases_of_editor hbound.accepting heditor d.version d.changes with
        ⟨hok, hevents, heditor'⟩ | ⟨hfailed, hevents⟩
      · obtain ⟨hsent, hprojects, hdocs⟩ :=
          withDocuments_of_events h hbound.current hbound.binding docs hevents
        have htaken := (docs.update_cases d.uri d.version d.changes s.workspace).resolve_right
          fun hfailed => hfailed.1 hok
        refine ⟨fun hfailed => absurd hok hfailed, fun _ => ⟨m, editor, rfl, heditor, ?_, ?_, ?_,
          fun v hv => ?_⟩⟩
        · refine hsent.trans ?_
          rw [Documents.publications, List.filterMap_cons, hattached.named.label? hget]
          rfl
        · rw [Workspace.editor?, Workspace.project?] at heditor' ⊢
          exact hprojects ▸ heditor'
        · obtain ⟨b', hb', hdocuments⟩ := Option.map_eq_some_iff.1 hdocs
          rw [show changed.bindings[i]? = _ from hb', Option.bind_some, hdocuments, htaken.2,
            Documents.get?_setVersion, if_pos rfl, hget]
          rfl
        · obtain ⟨-, m', -, hget', hcheck, -⟩ := Documents.opened_of_update hok
          obtain rfl : m' = m := Option.some.inj (hget'.symm.trans hget)
          rw [hv, Documents.checkVersion] at hcheck
          split at hcheck
          · next hsub =>
              obtain ⟨-, hv⟩ := Documents.checkedSub_eq_some_iff.1 hsub
              rw [← List.length_eq_zero_iff]
              simp only [Documents.maxInt32] at hv
              omega
          · cases hcheck
      · exact ⟨fun _ =>
          sent_withDocuments_of_silent h hbound.current hbound.binding docs hevents,
          fun hok => absurd hok hfailed⟩

end Session

namespace Service

variable {s : Service}

/-- At rest, and everything that has happened has been told. -/
structure Settled (s : Service) : Prop extends s.Resting where
  events : s.workspace.events = []

theorem informed_visit {session : Session} (h : session.Informed) (hsound : session.Sound)
    (events : List Visit) : (s.visit session events).2.2.Informed := by
  induction events generalizing s session with
  | nil => exact h
  | cons e events ih =>
      cases e with
      | step next =>
          have hnext := h.step hsound next s.pace
          have hsound' := hsound.step next s.pace
          rw [visit]
          generalize session.step next s.pace = outcome at hnext hsound' ⊢
          rcases outcome with ⟨_ | ending, session'⟩
          · exact ih hnext hsound'
          · exact hnext
      | begin =>
          have htended := Session.stepRelation_tended.beginNext session
          exact ih (h.tended htended) (hsound.steady htended.steady)
      | files disk =>
          have htended := tended_files session disk
          exact ih (h.tended htended) (hsound.steady htended.steady)
      | pace pace => exact ih h hsound
      | keepListening keep => exact ih h hsound
      | stop => exact h

theorem Settled.session (h : s.Settled) : s.session.Informed := .unbound ⟨rfl, h.events⟩ rfl

theorem Settled.serve (h : s.Settled) (events : List Visit) : (s.serve events).2.Settled := by
  have hvisited := informed_visit (s := s) h.session h.toResting.session events
  have hfinished := hvisited.finish (s.visit s.session events).2.1.pace
  refine ⟨h.toResting.serve events, ?_⟩
  rw [Service.serve]
  dsimp only [Service.leave]
  split
  · exact hfinished.events
  · exact hfinished.events

theorem Settled.run (h : s.Settled) (clients : List (List Visit)) : (s.run clients).2.Settled :=
  run_of_serve (fun _ hs => ⟨⟨hs.workspace, hs.slot⟩, hs.events⟩)
    (fun _ events hs => hs.serve events) h clients

/-- The session of the client that is served after others, once some events have happened. -/
def sessionAfter (s : Service) (clients : List (List Visit)) (events : List Visit) : Session :=
  ((s.run clients).2.visit (s.run clients).2.session events).2.2

/-- Whatever has happened to a service and to the client that it serves now: opening a document
publishes what is found in the texts that its editor gets, under the address and with the version of
the document if it was open already, and else under the address of the file. Changes that are taken
are published under the address of the document with the version of before, which is the one of the
new text only if there are no changes. -/
theorem diagnostics_labelled_as_before (disk : FileTree) (libraries : List Text)
    (capabilities : Capabilities) (keepListening : Bool) (symbolLimit : Nat)
    (clients : List (List Visit)) (events : List Visit) :
    let workspace : Workspace := { disk, libraries, capabilities }
    let service : Service := { keepListening, symbolLimit, workspace }
    let session := service.sessionAfter clients events
    ∀ i b n, session.current = some i → session.bindings[i]? = some b →
      let docs := b.documents
      let after := (session.step (.message (.notification n))).2
      (∀ d, n.method = "textDocument/didOpen".toList → Params.opened? n.params = some d →
        let key := FileKey.ofUri d.uri
        let texts := if Documents.isSupported key then
          session.workspace.analysed docs.project key d.text.normalizeNewlines else []
        (∃ notices, after.client.sent
            = session.client.sent ++ docs.publications key texts ++ notices ∧
          ∀ m ∈ notices, m = .notification ⟨"experimental/indexStarted".toList, .null⟩) ∧
        (docs.get? key = none → docs.label? key = key.uri?.map (·, none)) ∧
        (∀ m, docs.get? key = some m → docs.label? key = some (m.uri, m.version)) ∧
        (((docs.start d.uri d.text d.version).run session.workspace).1.1 = .ok () →
          (after.bindings[i]?).bind (·.documents.get? key)
            = some ⟨key, d.uri, if d.version = 0 then none else some d.version, true⟩)) ∧
      ∀ d, n.method = "textDocument/didChange".toList → Params.changed? n.params = some d →
        let key := FileKey.ofUri d.uri
        let outcome := (docs.update d.uri d.version d.changes).run session.workspace
        (outcome.1.1 ≠ .ok () → after.client.sent = session.client.sent) ∧
        (outcome.1.1 = .ok () → ∃ m editor, docs.get? key = some m ∧
          session.workspace.editor? docs.project key = some editor ∧
          let text := d.changes.foldl ContentChange.applied editor.text
          after.client.sent = session.client.sent ++ [.publication m.uri m.version text] ∧
          after.workspace.editor? docs.project key = some (editor.setText text) ∧
          (after.bindings[i]?).bind (·.documents.get? key)
            = some { m with version := some d.version } ∧
          ∀ v, m.version = some v → (v = d.version ↔ d.changes = [])) := by
  intro workspace service session i b n hcurrent hb docs after
  have hidle : workspace.Idle := ⟨rfl, rfl, nofun⟩
  have hsettled : (service.run clients).2.Settled := .run ⟨⟨hidle, rfl⟩, rfl⟩ clients
  have hsound : session.Sound := sound_visit hsettled.toResting.session events
  have hinformed : session.Informed :=
    informed_visit hsettled.session hsettled.toResting.session events
  obtain ⟨root, hbound⟩ := hsound.bound hcurrent hb
  have hphase := (hsound.serving hcurrent).1
  have hnamed := (hinformed.attached i b hcurrent hb).named
  clear_value session
  refine ⟨fun d hmethod hd => ?_, fun d hmethod hd => ?_⟩
  · have hafter : after = session.didOpen i docs d := by
      simp only [after, Session.step_notified hphase hcurrent hb (.inl hmethod), Session.notified,
        hmethod, hd]
      rfl
    obtain ⟨hsent, hdocs⟩ := Session.sent_didOpen hinformed hbound d
    rw [hafter]
    refine ⟨hsent, Documents.label?_of_get?_eq_none, fun m => hnamed.label?, fun hok => ?_⟩
    have hstarted := (docs.start_cases d.uri d.text d.version session.workspace).resolve_right
      fun hfailed => hfailed.1 hok
    obtain ⟨b', hb', hdocuments⟩ := Option.map_eq_some_iff.1 hdocs
    rw [hb', Option.bind_some, hdocuments, hstarted.2, Documents.get?_insert, if_pos rfl]
  · have hafter : after = session.didChange i docs d := by
      simp only [after, Session.step_notified hphase hcurrent hb (.inr hmethod), Session.notified,
        hmethod, hd]
      rfl
    rw [hafter]
    exact Session.sent_didChange hinformed hbound d

/-- A document is opened under an address with an escaped letter, and then changed. -/
theorem diagnostics_labelled_as_before_escaped :
    let service : Service := { workspace := { disk := Workspace.sampleDisk } }
    let uri := "file:///p/%61".toList
    let starting : Request := ⟨.number 1, "initialize".toList,
      .obj [("capabilities", .obj []), ("rootUri", .str Workspace.sampleRoot)]⟩
    let opening : Notification := ⟨"textDocument/didOpen".toList, .obj [("textDocument",
      .obj [("uri", .str uri), ("languageId", .str []), ("version", .int 1),
        ("text", .str "x".toList)])]⟩
    let change : Notification := ⟨"textDocument/didChange".toList, .obj
      [("textDocument", .obj [("uri", .str uri), ("version", .int 2)]),
        ("contentChanges", .arr [.obj [("text", .str "y".toList)]])]⟩
    let bound := service.sessionAfter [] [.step (.message (.request starting))]
    let opened := service.sessionAfter []
      [.step (.message (.request starting)), .step (.message (.notification opening))]
    (∃ notices, (bound.step (.message (.notification opening))).2.client.sent
      = bound.client.sent ++ [.publication Workspace.sampleUri none "one\r\ntwo".toList,
          .publication Workspace.sampleUri none "x".toList] ++ notices) ∧
    (opened.step (.message (.notification change))).2.client.sent
      = opened.client.sent ++ [.publication uri (some 1) "y".toList] := by
  intro service uri starting opening change bound opened
  have hopening : Params.opened? opening.params = some ⟨uri, "x".toList, 1⟩ := rfl
  have hchange : Params.changed? change.params = some ⟨uri, 2, [⟨none, "y".toList⟩]⟩ := rfl
  constructor
  · have hcurrent : bound.current = some 0 := by decide +kernel
    have hfacts : (bound.bindings[0]?).map (fun b => (b.documents.get? (.ofUri uri),
        if Documents.isSupported (.ofUri uri) then bound.workspace.analysed b.documents.project
          (.ofUri uri) (Text.normalizeNewlines "x".toList) else []))
          = some (none, ["one\r\ntwo".toList, "x".toList]) := by
      decide +kernel
    have huri : FileKey.uri? (.ofUri uri) = some Workspace.sampleUri := by decide +kernel
    obtain ⟨b, hb, hfacts⟩ := Option.map_eq_some_iff.1 hfacts
    obtain ⟨hnone, htexts⟩ := Prod.mk.inj hfacts
    have hlabel : b.documents.label? (.ofUri uri) = some (Workspace.sampleUri, none) := by
      rw [Documents.label?_of_get?_eq_none hnone, huri, Option.map_some]
    have hpublished : b.documents.publications (.ofUri uri) ["one\r\ntwo".toList, "x".toList]
        = [.publication Workspace.sampleUri none "one\r\ntwo".toList,
          .publication Workspace.sampleUri none "x".toList] := by
      simp only [Documents.publications, hlabel, Option.map_some, List.filterMap_cons,
        List.filterMap_nil]
    obtain ⟨hopened, -⟩ := diagnostics_labelled_as_before Workspace.sampleDisk [] .standard true
      100 [] [.step (.message (.request starting))] 0 b opening hcurrent hb
    obtain ⟨⟨notices, hsent, -⟩, -⟩ := hopened _ rfl hopening
    refine ⟨notices, ?_⟩
    have hbound : bound = sessionAfter { workspace := { disk := Workspace.sampleDisk } } []
      [.step (.message (.request starting))] := rfl
    rw [← hpublished, ← htexts, hbound]
    exact hsent
  · have hcurrent : opened.current = some 0 := by decide +kernel
    have hfacts : (opened.bindings[0]?).map (fun b => (b.documents.get? (.ofUri uri),
        ((b.documents.update uri 2 [⟨none, "y".toList⟩]).run opened.workspace).1.1))
          = some (some ⟨.ofUri uri, uri, some 1, true⟩, .ok ()) := by
      decide +kernel
    obtain ⟨b, hb, hfacts⟩ := Option.map_eq_some_iff.1 hfacts
    obtain ⟨hmanaged, hok⟩ := Prod.mk.inj hfacts
    obtain ⟨-, hchanged⟩ := diagnostics_labelled_as_before Workspace.sampleDisk [] .standard true
      100 [] [.step (.message (.request starting)), .step (.message (.notification opening))] 0 b
      change hcurrent hb
    obtain ⟨m, editor, hget, -, hsent, -⟩ := (hchanged _ rfl hchange).2 hok
    obtain rfl := Option.some.inj (hget.symm.trans hmanaged)
    have hbound : opened = sessionAfter { workspace := { disk := Workspace.sampleDisk } } []
      [.step (.message (.request starting)), .step (.message (.notification opening))] := rfl
    rw [hbound]
    exact hsent

end Service

end LanguageServer
