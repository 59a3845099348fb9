import LanguageServer.Proofs.Session.Current
import LanguageServer.Proofs.Session.Purity
import LanguageServer.Protocol.Message

/-!
# The last findings published of a file

Whatever happens to a session, the findings that it has published last of an open file are those in
the text of the editor. Files whose addresses lead to the same key get in each other's way: then the
last findings may be those of the other file.
-/

namespace LanguageServer

namespace Workspace

/-- The index of a project is built anew, and nothing else happens to it. -/
theorem worked_reindex (id : Nat) : Along Worked (reindex id) := by
  intro w
  rw [reindex_run]
  split
  · exact .refl w
  · next p hp =>
      have hsteady : p.Steady (p.rebuild w.disk w.libraries) := ⟨rfl, rfl, rfl, fun _ h => h⟩
      have hupkeep : p.Upkeep (fun _ => False) (p.rebuild w.disk w.libraries) :=
        p.upkeep_rebuild ..
      have hrebuilt : Worked w (w.setProject id (p.rebuild w.disk w.libraries)) :=
        ⟨.setProject hp hsteady, fun other => .of_setProject hp hupkeep⟩
      exact hrebuilt.trans (.of_projects rfl rfl rfl)

/-- No editor gets another text, and no text is analysed. -/
theorem reindex_unannounced (w : Workspace) (id : Nat) :
    (∀ other key, ((reindex id).run w).2.editor? other key = w.editor? other key) ∧
      ∃ more, ((reindex id).run w).2.events = w.events ++ more ∧
        ∀ e ∈ more, ∀ key found, e.2 ≠ .analysisFinished key found := by
  rw [reindex_run]
  split
  · exact ⟨fun _ _ => rfl, [], (List.append_nil _).symm, nofun⟩
  · next p hp =>
      refine ⟨fun other key => ?_, _, List.append_assoc .., fun e he => ?_⟩
      · change (w.setProject id (p.rebuild w.disk w.libraries)).editor? other key = _
        by_cases hother : id = other
        · rw [← hother, editor?_setProject hp, editor?, hp]
          rfl
        · rw [editor?_setProject_of_ne hother]
      · intro key found heq
        simp only [List.mem_append, List.mem_flatMap, List.mem_map, List.mem_cons,
          List.not_mem_nil, or_false] at he
        obtain ⟨_, rfl | rfl, _, _, rfl⟩ | ⟨_, rfl | rfl, _, _, rfl⟩ := he <;> cases heq

end Workspace

namespace Session

open Workspace (worked_reindex)

variable {s s' : Session} {id : Nat} {key : FileKey}

theorem unposted_deliver (docs : Documents) (s : Session) {e : Listener × ProjectEvent}
    (he : ∀ key found, e.2 ≠ .analysisFinished key found) :
    s.client.Unposted (deliver docs s e).client := by
  have hprogress : ∀ e, s.client.Unposted (s.modifyProgress fun p => p.push e).client := by
    intro e
    rw [modifyProgress]
    split
    · exact Progress.reportRelation_unposted.push _ e s.client
    · exact .refl _
  unfold deliver
  split
  · exact absurd rfl (he _ _)
  · exact s.client.unposted_notify _ (by decide)
  · exact s.client.unposted_notify _ (by decide)
  · exact hprogress _
  · exact hprogress _
  · exact .refl _

theorem watched_reindex (s : Session) (project id : Nat) (key : FileKey) :
    Watched id key s (s.within { project } (Workspace.reindex project)).2 := by
  refine ⟨tended_within s _ (worked_reindex project), fun _ h => h.within fun s₀ _ hfollows => ?_⟩
  obtain ⟨heditors, more, hmore, hunannounced⟩ :=
    s.workspace.reindex_unannounced project
  intro e he
  rw [heditors] at he
  have hunposted : ((s.workspace.events.foldl (deliver { project }) s₀)).client.Unposted
      ((s.workspace.events ++ more).foldl (deliver { project }) s₀).client := by
    rw [List.foldl_append]
    exact List.foldlRecOn (motive := fun s₁ : Session =>
        (s.workspace.events.foldl (deliver { project }) s₀).client.Unposted s₁.client)
      more _ (.refl _) fun s₁ hs₁ e he => hs₁.trans (unposted_deliver _ s₁ (hunannounced e he))
  obtain ⟨uri, version, hlast⟩ := hfollows e he
  exact ⟨uri, version, by rw [hmore, hunposted.posted, hlast]⟩

/-! ### Runs -/

/-- All that happens but for steps leaves the documents alone. -/
theorem tended_happen (s : Session) (e : Event) :
    (∃ next, e = .step next) ∨ Tended s (s.happen e) := by
  cases e with
  | step next => exact .inl ⟨next, rfl⟩
  | begin => exact .inr (stepRelation_tended.beginNext s)
  | timeout =>
      exact .inr (stepRelation_tended.modifyProgress s Progress.reportRelation_unposted.timedOut)
  | files disk => exact .inr (Service.tended_files s disk)
  | reindex project => exact .inr (tended_within s _ (worked_reindex project))

theorem Sound.happen (h : s.Sound) (e : Event) : (s.happen e).Sound := by
  rcases s.tended_happen e with ⟨next, rfl⟩ | htended
  · exact h.step next {}
  · exact h.steady htended.steady

theorem Informed.happen (h : s.Informed) (hsound : s.Sound) (e : Event) :
    (s.happen e).Informed := by
  rcases s.tended_happen e with ⟨next, rfl⟩ | htended
  · exact h.step hsound next {}
  · exact h.tended htended

theorem Current.happen (h : s.Current id key) (hsound : s.Sound) (hinformed : s.Informed)
    (hkey : key.LeadsTo key) (e : Event) : (s.happen e).Abreast id key := by
  cases e with
  | step next => exact h.step hsound hinformed hkey next {}
  | begin => exact h.watched hsound hinformed ((stepRelation_watched hkey).beginNext s)
  | timeout =>
      exact h.watched hsound hinformed ((stepRelation_watched hkey).modifyProgress s
        Progress.reportRelation_unposted.timedOut)
  | files disk => exact fun _ => ⟨h.labelled, h.shown⟩
  | reindex project => exact h.watched hsound hinformed (s.watched_reindex project id key)

/-- A run keeps the client up to date, as long as no other open file leads to the key. -/
theorem Current.through (h : s.Current id key) (hsound : s.Sound) (hinformed : s.Informed)
    (hkey : key.LeadsTo key) {events : List Event}
    (hunshared : ∀ before, before <+: events →
      (s.through before).workspace.Unshared id key) : (s.through events).Current id key := by
  induction events generalizing s with
  | nil => exact h
  | cons e events ih =>
      have hfirst := h.happen hsound hinformed hkey e
        (hunshared [e] (List.cons_prefix_cons.2 ⟨rfl, List.nil_prefix⟩))
      exact ih hfirst (hsound.happen e) (hinformed.happen hsound e)
        fun before hbefore => hunshared (e :: before) (List.cons_prefix_cons.2 ⟨rfl, hbefore⟩)

end Session

namespace Service

open Session (Event)

variable {s : Service}

theorem Settled.current (h : s.Settled) (id : Nat) (key : FileKey) : s.session.Current id key :=
  ⟨nofun, fun e he => by
    cases (Workspace.editor?_of_released (h.workspace.projects id) key).symm.trans he⟩

/-- Whatever clients were served before, and whatever has happened to the one that is served now:
the last findings published under the key of an open file, whose own address leads there, are those
in the text that its editor has now. The one condition is that, at no time while it was open,
another open file of the project had an address that leads there too. -/
theorem last_findings_current (disk : FileTree) (libraries : List Text)
    (capabilities : Capabilities) (keepListening : Bool) (symbolLimit : Nat)
    (clients : List (List Visit)) (events : List Event) (id : Nat) (key : FileKey)
    (e : Editor) :
    let workspace : Workspace := { disk, libraries, capabilities }
    let service := (({ keepListening, symbolLimit, workspace } : Service).run clients).2
    (service.session.through events).workspace.editor? id key = some e →
    key.LeadsTo key →
    (∀ before, before <+: events →
      (service.session.through before).workspace.Unshared id key) →
    (service.session.through events).client.Shows key e.text := by
  intro workspace service heditor hkey hunshared
  have hidle : workspace.Idle := ⟨rfl, rfl, nofun⟩
  have hsettled : service.Settled := Settled.run ⟨⟨hidle, rfl⟩, rfl⟩ clients
  have hcurrent := (hsettled.current id key).through hsettled.toResting.session hsettled.session
    hkey hunshared
  exact hcurrent.shown e heditor

end Service

/-! ### Two files in a directory -/

/-- The findings that a message describes. -/
def Message.described (m : Message) : Option (List Json) :=
  (m.params.get? "diagnostics").bind Json.items?

theorem Message.described_publication (uri : Text) (version : Option Int) (text : Text) :
    (publication uri version text).described
      = some ((findings text).filterMap Finding.toJson?) := by
  cases version <;> rfl

namespace Service

open Session (Event)

/-- Notes are taken in the file. -/
def notesTaken : Event := .step (.message (.notification ⟨"textDocument/didOpen".toList,
  .obj [("textDocument", .obj [("uri", .str Workspace.sampleUri), ("languageId", .str []),
    ("version", .int 1), ("text", .str "// TODO".toList)])]⟩))

/-- The client has hovered over the file before it opens it with another text, and it is shown the
findings in that text. -/
theorem last_findings_current_notes :
    let key := FileKey.ofUri Workspace.sampleUri
    let session := fun events => hovering.through events
    (session (hovers [notesTaken])).workspace.editor? 0 key = some ⟨"// TODO".toList, 1, true⟩ ∧
      key.LeadsTo key ∧
      (∀ before, before <+: hovers [notesTaken] → (session before).workspace.Unshared 0 key) ∧
      (session (hovers [notesTaken])).client.Shows key "// TODO".toList := by
  intro key session
  have heditor : (session (hovers [notesTaken])).workspace.editor? 0 key
      = some ⟨"// TODO".toList, 1, true⟩ := by decide +kernel
  have hkey : key.LeadsTo key := by decide +kernel
  have hunshared : ∀ before, before <+: hovers [notesTaken] →
      (session before).workspace.Unshared 0 key := by
    intro before hbefore _ other hsome _
    -- There are six events, so the run has seven beginnings.
    have hopen : ∀ n < 7, ∀ other ∈ (session ((hovers [notesTaken]).take n)).workspace.openFiles 0,
        other = key := by decide +kernel
    have hlength : before.length < 7 := Nat.lt_succ_of_le hbefore.length_le
    rw [List.prefix_iff_eq_take.1 hbefore] at hsome
    exact hopen before.length hlength other (Workspace.mem_openFiles.2 hsome)
  exact ⟨heditor, hkey, hunshared, last_findings_current Workspace.sampleDisk [] .standard true 100
    [] (hovers [notesTaken]) 0 key _ heditor hkey hunshared⟩

/-- The directory with one more file, whose name differs only in a blank at the end. -/
def twinDisk : FileTree :=
  ⟨[(["p".toList], .directory), (["p".toList, "a".toList], .file (.text "one".toList) true),
    (["p".toList, "a ".toList], .file (.text "// TODO".toList) true)]⟩

/-- The client hovers over the other file, too. -/
def twinHovered : List Event :=
  [.step (.message (.request ⟨.number 4, "textDocument/hover".toList,
      .obj [("textDocument", .obj [("uri", .str "file:///p/a%20".toList)]),
        ("position", .obj [("line", .nat 0), ("character", .nat 1)])]⟩)), .step .work]

/-- The blank is not escaped in the address of the other file, so what is found there is published
for the first one. -/
theorem last_findings_of_twin :
    let key := FileKey.ofUri Workspace.sampleUri
    let service : Service := { workspace := { disk := twinDisk } }
    let session := (service.run []).2.session.through (hovers twinHovered)
    session.workspace.editor? 0 key = some ⟨"one".toList, 1, true⟩ ∧ key.LeadsTo key ∧
      (session.client.posted key).length = 2 ∧ ¬ session.client.Shows key "one".toList := by
  intro key service session
  refine ⟨by decide +kernel, by decide +kernel, by decide +kernel, fun ⟨uri, version, hlast⟩ => ?_⟩
  have hfound := congrArg (Option.map (·.described.map List.length)) hlast
  have hposted : (session.client.posted key).getLast?.map (·.described.map List.length)
      = some (some 1) := by decide +kernel
  rw [hposted, Option.map_some, Message.described_publication] at hfound
  exact absurd hfound (by decide)

end Service

end LanguageServer
