import LanguageServer.Proofs.Service.Diagnostics
import LanguageServer.Proofs.Workspace.Announced

/-!
# What the client is shown of a file

The client keeps the findings that were published last of a file (`Client.Shows`). A text that gets
into an editor is published at once, under an address that leads to the key of the file if its own
one does. Findings of another file take their place only if the address of that file leads to the
same key (`FileKey.LeadsTo`). So work on files keeps the client up to date, unless there is another
open file like that (`Session.Watched`).
-/

namespace LanguageServer

/-- The address of a file leads to a key, which need not be its own. -/
def FileKey.LeadsTo (k key : FileKey) : Prop := k.uri?.map .ofUri = some key

instance (k key : FileKey) : Decidable (k.LeadsTo key) := inferInstanceAs (Decidable (_ = _))

namespace Documents

/-- Every document has an address that leads to its key. -/
def Labelled (docs : Documents) : Prop := docs.Addressed fun key uri => FileKey.ofUri uri = key

variable {docs : Documents} {key other : FileKey}

theorem labelled_of_managed_eq_nil (h : docs.managed = []) : docs.Labelled := by
  intro key d hd
  rw [get?, h] at hd
  cases hd

/-- A file is known to the client by an address that leads to its key, or by that of the key. -/
theorem Labelled.of_label? (h : docs.Labelled) {uri : Text} {version : Option Int}
    (hlabel : docs.label? key = some (uri, version)) :
    FileKey.ofUri uri = key ∨ key.uri? = some uri := by
  obtain ⟨uri, huri, heq⟩ := Option.map_eq_some_iff.1 hlabel
  obtain ⟨rfl, -⟩ := Prod.mk.inj heq
  rw [uriFor?, Option.or_eq_some_iff] at huri
  rcases huri with huri | ⟨-, huri⟩
  · obtain ⟨huri, -⟩ := Option.filter_eq_some_iff.1 huri
    obtain ⟨d, hd, rfl⟩ := Option.map_eq_some_iff.1 huri
    exact .inl (h key d hd)
  · exact .inr huri

theorem Labelled.exists_label (h : docs.Labelled) (hkey : key.LeadsTo key) :
    ∃ uri version, docs.label? key = some (uri, version) ∧ FileKey.ofUri uri = key := by
  obtain ⟨own, hown, hleads⟩ := Option.map_eq_some_iff.1 hkey
  have hsome : (docs.uriFor? key).isSome := by simp [uriFor?, hown]
  obtain ⟨uri, huri⟩ := Option.isSome_iff_exists.1 hsome
  have hlabel : docs.label? key = some (uri, docs.version? key) := by
    rw [label?, huri, Option.map_some]
  refine ⟨uri, _, hlabel, ?_⟩
  rcases h.of_label? hlabel with hleads' | huri'
  · exact hleads'
  · exact Option.some.inj (hown.symm.trans huri') ▸ hleads

end Documents

theorem Message.diagnosed?_publication (uri : Text) (version : Option Int) (text : Text) :
    (publication uri version text).diagnosed? = some (.ofUri uri) := by
  cases version <;> rfl

namespace Client

variable {c : Client} {docs : Documents} {key other : FileKey} {text : Text}

/-- The findings published last of a file are those in a text. -/
def Shows (c : Client) (key : FileKey) (text : Text) : Prop :=
  ∃ uri version, (c.posted key).getLast? = some (.publication uri version text)

theorem posted_publishFindings (hconnected : c.connected = true) (docs : Documents)
    (other key : FileKey) (text : Text) :
    (c.publishFindings docs other (findings text)).posted key
      = c.posted key ++ (docs.publications other [text]).filter (·.diagnosed? = some key) := by
  have hsent := sent_foldl_publishFindings docs other [text] hconnected
  rw [posted, posted, ← List.filter_append, ← hsent]
  rfl

/-- The findings in the text of a file are shown once they have been published. -/
theorem shows_publishFindings (hconnected : c.connected = true) (hdocs : docs.Labelled)
    (hkey : key.LeadsTo key) (text : Text) :
    (c.publishFindings docs key (findings text)).Shows key text := by
  obtain ⟨uri, version, hlabel, hleads⟩ := hdocs.exists_label hkey
  refine ⟨uri, version, ?_⟩
  rw [posted_publishFindings hconnected, Documents.publications]
  simp [hlabel, Message.diagnosed?_publication, hleads]

/-- Those of another file take their place only if its address leads there. -/
theorem Shows.publishFindings (h : c.Shows key text) (hconnected : c.connected = true)
    (hdocs : docs.Labelled) (hne : other ≠ key) (hother : ¬ other.LeadsTo key) (text' : Text) :
    (c.publishFindings docs other (findings text')).Shows key text := by
  rw [Shows, posted_publishFindings hconnected]
  have hnone : (docs.publications other [text']).filter (·.diagnosed? = some key) = [] := by
    refine List.filter_eq_nil_iff.2 fun m hm => ?_
    obtain ⟨_, -, hlabelled⟩ := List.mem_filterMap.1 hm
    obtain ⟨⟨uri, version⟩, hlabel, rfl⟩ := Option.map_eq_some_iff.1 hlabelled
    rw [Message.diagnosed?_publication, decide_eq_true_iff, Option.some.injEq]
    intro hleads
    rcases hdocs.of_label? hlabel with hown | huri'
    · exact hne (hown.symm.trans hleads)
    · exact hother (Option.map_eq_some_iff.2 ⟨_, huri', hleads⟩)
  rw [hnone, List.append_nil]
  exact h

end Client

namespace Workspace

variable {w w' : Workspace} {id : Nat} {key : FileKey}

/-- The client listens to one project and to no other. -/
structure Heard (w : Workspace) (id : Nat) : Prop where
  listeners : w.listeners id = [.diagnostics, .indexStatus, .progress]
  others : ∀ other, other ≠ id → w.listeners other = []

theorem Heard.steady (h : w.Heard id) (hsteady : w.Steady w') : w'.Heard id :=
  ⟨(hsteady.listeners_eq id).trans h.listeners,
    fun other hne => (hsteady.listeners_eq other).trans (h.others other hne)⟩

/-- While a file is open, no other open file of the project has an address that leads to its key. -/
def Unshared (w : Workspace) (id : Nat) (key : FileKey) : Prop :=
  (w.editor? id key).isSome → ∀ other, (w.editor? id other).isSome → other.LeadsTo key →
    other = key

/-- Work closes no editor, so what is unshared afterwards was so before. -/
theorem Unshared.of_worked (h : w'.Unshared id key) (hworked : w.Worked w') :
    w.Unshared id key := by
  have hstays : ∀ other, (w.editor? id other).isSome → (w'.editor? id other).isSome := by
    intro other hsome
    obtain ⟨e, he⟩ := Option.isSome_iff_exists.1 hsome
    obtain ⟨p, hp, heditor⟩ := exists_project_of_editor he
    obtain ⟨p', hp', hupkeep⟩ := hworked.upkeep id p hp
    rw [editor?, hp', Option.bind_some]
    exact hupkeep.editors other not_false (by rw [heditor]; rfl)
  exact fun hopen other hother => h (hstays key hopen) other (hstays other hother)

end Workspace

namespace Session

open Workspace (Worked Along WorkRelation)

variable {s s' : Session} {docs : Documents} {w w' : Workspace} {id : Nat} {key : FileKey}

/-- Once everything has been passed on that has happened in a workspace, the client is shown the
text of a file. -/
def Follows (s : Session) (docs : Documents) (id : Nat) (key : FileKey) (w : Workspace) : Prop :=
  ∀ e, w.editor? id key = some e → (w.events.foldl (deliver docs) s).client.Shows key e.text

theorem foldl_deliver_connected (docs : Documents) (events : List (Listener × ProjectEvent))
    (s : Session) : (events.foldl (deliver docs) s).client.connected = s.client.connected :=
  (Quiet.foldl (quiet_deliver docs) events s).client.connected

/-- A text that is told of is shown afterwards, or that of a file which it has nothing to do
with. -/
theorem shows_told (hconnected : s.client.connected = true) (hdocs : docs.Labelled)
    (hkey : key.LeadsTo key) {other : FileKey} {text text' : Text}
    (hown : other = key → text = text')
    (hother : other ≠ key → ¬ other.LeadsTo key ∧ s.client.Shows key text) :
    ((Workspace.told [.diagnostics, .indexStatus, .progress] other [text']).foldl
      (deliver docs) s).client.Shows key text := by
  rw [foldl_deliver_told]
  by_cases hsame : other = key
  · rw [hsame, hown hsame]
    exact Client.shows_publishFindings hconnected hdocs hkey text'
  · obtain ⟨hleads, hshows⟩ := hother hsame
    exact hshows.publishFindings hconnected hdocs hsame hleads text'

/-- A project has been replaced, and what it tells of its texts has been passed on. -/
theorem Follows.replaced (h : Follows s docs id key w) (hconnected : s.client.connected = true)
    (hdocs : docs.Labelled) (hkey : key.LeadsTo key) (hheard : w.Heard id)
    (hunshared : w'.Unshared id key) {k : Nat} {p q : Project} {events : List ProjectEvent}
    (hp : w.project? k = some p) (hannounces : p.Announces q events)
    (hlisteners : q.listeners = p.listeners)
    (hprojects : w'.projects = (w.setProject k q).projects)
    (hevents : w'.events = w.events ++ events.flatMap fun e => (q.listeners.map (·.2)).map (·, e)) :
    Follows s docs id key w' := by
  have heditor : ∀ other, w'.editor? id other = (w.setProject k q).editor? id other := by
    intro other
    rw [Workspace.editor?, Workspace.editor?, Workspace.project?, hprojects, Workspace.project?]
  have hlistening : q.listeners.map (·.2) = w.listeners k := by
    rw [hlisteners, Workspace.listeners, hp]
    rfl
  intro e he
  have hopen : (w'.editor? id key).isSome := by rw [he]; rfl
  rw [heditor] at he
  rw [hevents, hlistening, List.foldl_append]
  -- Either the client listens to the project that has changed, or nothing is told of the change.
  by_cases hk : k = id
  · subst hk
    have hbefore : ∀ before, p.editors.get? key = some before →
        (w.events.foldl (deliver docs) s).client.Shows key before.text :=
      fun before hget => h before (by rw [Workspace.editor?, hp, Option.bind_some, hget])
    rw [Workspace.editor?_setProject hp] at he
    rw [hheard.listeners]
    cases hannounces with
    | kept hkept =>
        obtain ⟨before, hget, htext⟩ := hkept key e he
        rw [htext]
        exact hbefore before hget
    | put other editor hput =>
        rw [hput, Keyed.get?_insert] at he
        refine shows_told ((foldl_deliver_connected docs w.events s).trans hconnected) hdocs hkey
          (fun hsame => ?_) fun hne => ?_
        · rw [if_pos hsame] at he
          exact congrArg Editor.text (Option.some.inj he).symm
        · rw [if_neg hne] at he
          have hopenOther : (w'.editor? k other).isSome := by
            rw [heditor, Workspace.editor?_setProject hp, hput, Keyed.get?_insert_self]
            rfl
          exact ⟨fun hleads => hne (hunshared hopen other hopenOther hleads), hbefore e he⟩
  · have hsilent : (events.flatMap fun e => (w.listeners k).map (·, e)) = [] := by
      rw [hheard.others k hk]
      simp
    rw [hsilent]
    exact h e (by rw [← he, Workspace.editor?_setProject_of_ne hk])

/-- Operations on files are followed as long as no other open file leads to the key. -/
theorem Follows.operates (h : Follows s docs id key w) (hconnected : s.client.connected = true)
    (hdocs : docs.Labelled) (hkey : key.LeadsTo key) (hheard : w.Heard id)
    (hunshared : w'.Unshared id key) {k : Nat} {closes : FileKey → Prop}
    (hoperates : w.Operates k closes w') : Follows s docs id key w' := by
  rcases hoperates.projects with
    ⟨hprojects, hevents⟩ | ⟨p, q, events, hp, hoperation, hprojects, hevents⟩
  · intro e he
    rw [Workspace.editor?, Workspace.project?, hprojects] at he
    rw [hevents]
    exact h e he
  · exact h.replaced hconnected hdocs hkey hheard hunshared hp hoperation.announces
      hoperation.steady.listeners hprojects hevents

/-- Work, which is followed as long as no other open file leads to the key. -/
structure Followed (s : Session) (docs : Documents) (id : Nat) (key : FileKey)
    (w w' : Workspace) : Prop where
  worked : w.Worked w'
  follows : w.Heard id → w'.Unshared id key → Follows s docs id key w → Follows s docs id key w'

theorem workRelation_followed (hconnected : s.client.connected = true) (hdocs : docs.Labelled)
    (hkey : key.LeadsTo key) (k : Nat) : WorkRelation (Followed s docs id key) k := by
  refine .of_operates (fun w => ⟨.refl w, fun _ _ h => h⟩) (fun h h' => ?_) fun hoperates => ?_
  · refine ⟨h.worked.trans h'.worked, fun hheard hunshared hfollows => ?_⟩
    have hfirst := h.follows hheard (hunshared.of_worked h'.worked) hfollows
    exact h'.follows (hheard.steady h.worked.steady) hunshared hfirst
  · exact ⟨hoperates.worked, fun hheard hunshared h =>
      h.operates hconnected hdocs hkey hheard hunshared hoperates⟩

/-! ### Sessions -/

/-- The client is shown the text of a file, if it is open. -/
def Shown (s : Session) (id : Nat) (key : FileKey) : Prop :=
  ∀ e, s.workspace.editor? id key = some e → s.client.Shows key e.text

/-- The client listens to a project, has been told everything, and is shown the text of a file. -/
structure Attended (s : Session) (id : Nat) (key : FileKey) : Prop where
  connected : s.client.connected = true
  told : s.workspace.events = []
  heard : s.workspace.Heard id
  labelled : ∀ b ∈ s.bindings, b.documents.Labelled
  shown : s.Shown id key

/-- What is followed in the workspace is shown once it has been passed on. -/
theorem Attended.within (h : s.Attended id key) {α : Type} {steps : WorkspaceM α}
    (hfollows : ∀ s₀ : Session, s₀.client.connected = true →
      Follows s₀ docs id key s.workspace → Follows s₀ docs id key (steps.run s.workspace).2) :
    (s.within docs steps).2.Shown id key := by
  intro e he
  rw [within_workspace] at he
  refine hfollows { s with workspace := { (steps.run s.workspace).2 with events := [] } }
    h.connected (fun e' he' => ?_) e he
  rw [h.told]
  exact h.shown e' he'

theorem labelled_of_held (hheld : s'.bindings.map Binding.held = s.bindings.map Binding.held)
    (h : ∀ b ∈ s.bindings, b.documents.Labelled) : ∀ b ∈ s'.bindings, b.documents.Labelled := by
  intro b' hb'
  have hmem : b'.held ∈ s.bindings.map Binding.held := hheld ▸ List.mem_map_of_mem hb'
  obtain ⟨b, hb, heq⟩ := List.mem_map.1 hmem
  have hdocs : b.documents = b'.documents := congrArg Prod.snd heq
  rw [← hdocs]
  exact h b hb

theorem Attended.tended (h : s.Attended id key) (htended : Tended s s')
    (hshown : s'.Shown id key) : s'.Attended id key where
  connected := htended.connected.trans h.connected
  told := htended.events h.told
  heard := h.heard.steady htended.workspace.steady
  labelled := labelled_of_held htended.bindings h.labelled
  shown := hshown

/-- A step that leaves documents alone and keeps the client up to date, as long as no other open
file leads to the key. -/
structure Watched (id : Nat) (key : FileKey) (s s' : Session) : Prop where
  tended : Tended s s'
  shown : s'.workspace.Unshared id key → s.Attended id key → s'.Shown id key

theorem stepRelation_watched (hkey : key.LeadsTo key) : StepRelation (Watched id key) where
  refl s := ⟨.refl s, fun _ h => h.shown⟩
  -- The second step has closed no editor, so the key was unshared after the first one as well.
  trans h h' := ⟨h.tended.trans h'.tended, fun hunshared hattended => by
    have hearlier := hunshared.of_worked h'.tended.workspace
    exact h'.shown hunshared (hattended.tended h.tended (h.shown hearlier hattended))⟩
  client s c hc := by
    refine ⟨stepRelation_tended.client s hc, fun _ h e he => ?_⟩
    obtain ⟨uri, version, hlast⟩ := h.shown e he
    exact ⟨uri, version, by rw [hc.posted, hlast]⟩
  requests s queue issued := ⟨stepRelation_tended.requests s queue issued, fun _ h => h.shown⟩
  binding s i change hchange :=
    ⟨stepRelation_tended.binding s i change hchange, fun _ h => h.shown⟩
  within {s i b} hb {α steps} hworks := by
    refine ⟨stepRelation_tended.within hb hworks, fun hunshared h => ?_⟩
    have hdocs := h.labelled b (List.mem_of_getElem? hb)
    obtain ⟨k, hworks⟩ := hworks
    refine h.within fun s₀ hconnected => ?_
    rw [within_workspace] at hunshared
    exact (hworks (workRelation_followed hconnected hdocs hkey k) s.workspace).follows h.heard
      hunshared

end Session

end LanguageServer
