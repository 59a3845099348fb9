import LanguageServer.Proofs.Documents.Steps
import LanguageServer.Server.Publish

/-!
# Versions of documents

A document moves along a run of operations, between which anything may happen to the workspace. The
stored version of a document is the only thing that decides whether changes are taken, and versions
that fit into 32 bits stay so (`DocumentState.Sound`), which makes the check one about integers:
nothing wraps around. The main statement, `versions_count_changes`, says when changes are taken and
what becomes of version and text, and that the version keeps count of the changes taken since the
document was opened.
-/

namespace LanguageServer

namespace DocumentEvent

/-- The versions that a client sends fit into 32 bits. -/
def VersionFits : DocumentEvent → Prop
  | start _ _ version | update _ version _ => fitsInt32 version
  | _ => True

/-- Neither opens, saves nor closes a document, nor brings more changes than can be counted. -/
def Keeps (key : FileKey) : DocumentEvent → Prop
  | start uri _ _ | sync uri | stop uri => FileKey.ofUri uri ≠ key
  | update _ _ changes => changes.length ≤ Documents.maxInt32
  | closeAll => False
  | elsewhere _ => True

/-- The number of changes that a document takes with an event. -/
def taken (key : FileKey) (s : DocumentState) : DocumentEvent → Nat
  | update uri version changes =>
    if FileKey.ofUri uri = key ∧ ((update uri version changes).apply s).1 = .ok () then
      changes.length
    else 0
  | start .. | sync _ | stop _ | closeAll | elsewhere _ => 0

end DocumentEvent

namespace Documents

variable {docs : Documents} {w : Workspace} {key : FileKey}

/-! ### Stored versions -/

theorem version?_setVersion (docs : Documents) (key : FileKey) (version : Option Int)
    (other : FileKey) :
    (docs.setVersion key version).version? other =
      if key = other then (docs.get? other).bind fun _ => version else docs.version? other := by
  rw [version?, get?_setVersion]
  split
  · cases docs.get? other <;> rfl
  · rfl

theorem version?_insert (docs : Documents) (d : ManagedDocument) (key : FileKey) :
    (docs.insert d).version? key = if d.key = key then d.version else docs.version? key := by
  rw [version?, get?_insert]
  split <;> rfl

theorem version?_erase (docs : Documents) (key other : FileKey) :
    (docs.erase key).version? other = if key = other then none else docs.version? other := by
  rw [version?, get?_erase]
  split <;> rfl

theorem checkedSub_eq_some_iff {a b c : Int} :
    checkedSub a b = some c ↔ fitsInt32 c = true ∧ c = a - b := by
  unfold checkedSub
  split
  · next h =>
      rw [Option.some.injEq, eq_comm]
      exact ⟨fun hc => ⟨hc ▸ h, hc⟩, fun hc => hc.2⟩
  · next h =>
      constructor
      · intro hc
        cases hc
      · rintro ⟨hfits, rfl⟩
        exact absurd hfits h

/-- The check is one about integers: the stored version fits into 32 bits, so a difference that does
not is no version that could be stored. -/
theorem checkVersion_eq_ok_iff {ours : Option Int} (hours : ∀ v, ours = some v → fitsInt32 v)
    {version : Int} {changes : Nat} (hchanges : changes ≤ maxInt32) :
    checkVersion ours version (min changes maxInt32) = .ok () ↔
      ours = none ∨ ours = some (version - changes) := by
  rw [Nat.min_eq_left hchanges]
  cases ours with
  | none => simp [checkVersion]
  | some v =>
      simp only [checkVersion, checkedSub_eq_some_iff, hours v rfl, true_and, reduceCtorEq,
        false_or, Option.some.injEq, ite_eq_left_iff, imp_false, not_not]

theorem checkVersion_of_ne {v version : Int} {changes : Nat} (hchanges : changes ≤ maxInt32)
    (hne : v ≠ version - changes) :
    checkVersion (some v) version (min changes maxInt32)
      = .error (.versionMismatch v version changes) := by
  rw [Nat.min_eq_left hchanges, checkVersion]
  exact if_neg fun h => hne (checkedSub_eq_some_iff.1 h).2

/-- Editors can be changed, and the stored versions fit into 32 bits. -/
structure Sound (docs : Documents) : Prop where
  accepting : docs.accepting = true
  fits : ∀ key version, docs.version? key = some version → fitsInt32 version = true

namespace Sound

theorem setVersion (h : docs.Sound) (key : FileKey) {version : Option Int}
    (hversion : ∀ v, version = some v → fitsInt32 v = true) :
    (docs.setVersion key version).Sound := by
  refine ⟨h.accepting, fun other v hv => ?_⟩
  rw [version?_setVersion] at hv
  split at hv
  · obtain ⟨d, -, hd⟩ := Option.bind_eq_some_iff.1 hv
    exact hversion v hd
  · exact h.fits other v hv

theorem insert (h : docs.Sound) {d : ManagedDocument}
    (hversion : ∀ v, d.version = some v → fitsInt32 v = true) : (docs.insert d).Sound := by
  refine ⟨h.accepting, fun key v hv => ?_⟩
  rw [version?_insert] at hv
  split at hv
  · exact hversion v hv
  · exact h.fits key v hv

theorem erase (h : docs.Sound) (key : FileKey) : (docs.erase key).Sound := by
  refine ⟨h.accepting, fun other v hv => ?_⟩
  rw [version?_erase] at hv
  split at hv
  · cases hv
  · exact h.fits other v hv

end Sound

end Documents

namespace DocumentState

variable {s : DocumentState} {key : FileKey}

/-- The state of a project that has just been bound. -/
def initial (project : Nat) (w : Workspace) : DocumentState := ⟨{ project }, w⟩

/-- The state after some events. -/
def after (s : DocumentState) (events : List DocumentEvent) : DocumentState :=
  events.foldl (fun s e => (e.apply s).2) s

/-- The number of changes that a document takes with some events. -/
def taken (key : FileKey) (s : DocumentState) : List DocumentEvent → Nat
  | [] => 0
  | e :: events => e.taken key s + taken key (e.apply s).2 events

theorem sound_initial (project : Nat) (w : Workspace) : (initial project w).docs.Sound :=
  ⟨rfl, nofun⟩

theorem sound_apply (hs : s.docs.Sound) {e : DocumentEvent} (he : e.VersionFits) :
    (e.apply s).2.docs.Sound := by
  cases e with
  | start uri text version =>
      rcases Documents.start_cases s.docs uri text version s.workspace with ⟨-, hdocs⟩ | ⟨-, hdocs⟩
      · rw [DocumentEvent.apply, DocumentEvent.outcome, hdocs]
        refine hs.insert fun v hv => ?_
        split at hv
        · cases hv
        · exact Option.some.inj hv ▸ he
      · rw [DocumentEvent.apply, DocumentEvent.outcome, hdocs]
        exact hs
  | update uri version changes =>
      rcases Documents.update_cases s.docs uri version changes s.workspace with
        ⟨-, hdocs⟩ | ⟨-, hdocs⟩
      · rw [DocumentEvent.apply, DocumentEvent.outcome, hdocs]
        exact hs.setVersion _ fun v hv => Option.some.inj hv ▸ he
      · rw [DocumentEvent.apply, DocumentEvent.outcome, hdocs]
        exact hs
  | sync uri =>
      rcases Documents.sync_docs s.docs uri s.workspace with hdocs | hdocs
      · rw [DocumentEvent.apply, DocumentEvent.outcome, hdocs]
        exact hs
      · rw [DocumentEvent.apply, DocumentEvent.outcome, hdocs]
        exact hs.setVersion _ fun v hv => nomatch hv
  | stop uri =>
      rcases Documents.stop_docs s.docs uri s.workspace with hdocs | hdocs
      · rw [DocumentEvent.apply, DocumentEvent.outcome, hdocs]
        exact hs
      · rw [DocumentEvent.apply, DocumentEvent.outcome, hdocs]
        exact hs.erase _
  | closeAll =>
      rw [DocumentEvent.apply, Documents.closeAll_docs]
      exact ⟨hs.accepting, nofun⟩
  | elsewhere w => exact hs

theorem sound_after (hs : s.docs.Sound) {events : List DocumentEvent}
    (hevents : ∀ e ∈ events, e.VersionFits) : (s.after events).docs.Sound := by
  induction events generalizing s with
  | nil => exact hs
  | cons e events ih =>
      exact ih (sound_apply hs (hevents e List.mem_cons_self))
        fun e he => hevents e (List.mem_cons_of_mem _ he)

/-- With one event the version of a document grows by the number of changes that it takes. -/
theorem version?_apply (hs : s.docs.Sound) {e : DocumentEvent} (he : e.Keeps key) {version : Int}
    (hversion : s.docs.version? key = some version) :
    (e.apply s).2.docs.version? key = some (version + e.taken key s) := by
  cases e with
  | start uri text next =>
      have hkey : FileKey.ofUri uri ≠ key := he
      rw [DocumentEvent.taken, Int.natCast_zero, Int.add_zero, ← hversion]
      rcases Documents.start_cases s.docs uri text next s.workspace with ⟨-, hdocs⟩ | ⟨-, hdocs⟩
      · rw [DocumentEvent.apply, DocumentEvent.outcome, hdocs, Documents.version?_insert,
          if_neg hkey]
      · rw [DocumentEvent.apply, DocumentEvent.outcome, hdocs]
  | update uri next changes =>
      rw [DocumentEvent.taken]
      rcases Documents.update_cases s.docs uri next changes s.workspace with
        ⟨hok, hdocs⟩ | ⟨hfailed, hdocs⟩
      · rw [DocumentEvent.apply, DocumentEvent.outcome, hdocs, Documents.version?_setVersion]
        by_cases hkey : FileKey.ofUri uri = key
        · subst hkey
          obtain ⟨-, d, -, hget, hcheck, -⟩ := Documents.opened_of_update hok
          have hours : d.version = some version := by
            rw [Documents.version?, hget] at hversion
            exact hversion
          have hfits : ∀ v, d.version = some v → fitsInt32 v = true := by
            intro v hv
            exact hs.fits (.ofUri uri) v (by rw [Documents.version?, hget]; exact hv)
          -- Both versions fit into 32 bits, so the check was one of integers.
          rw [Documents.checkVersion_eq_ok_iff hfits he, hours] at hcheck
          have hnext : version = next - changes.length := by simpa using hcheck
          rw [if_pos rfl, if_pos ⟨rfl, hok⟩, hget, hnext, Int.sub_add_cancel]
          rfl
        · rw [if_neg hkey, if_neg fun h => hkey h.1, Int.natCast_zero, Int.add_zero]
          exact hversion
      · rw [if_neg fun h => hfailed h.2, DocumentEvent.apply, DocumentEvent.outcome, hdocs,
          Int.natCast_zero, Int.add_zero]
        exact hversion
  | sync uri =>
      have hkey : FileKey.ofUri uri ≠ key := he
      rw [DocumentEvent.taken, Int.natCast_zero, Int.add_zero, ← hversion]
      rcases Documents.sync_docs s.docs uri s.workspace with hdocs | hdocs
      · rw [DocumentEvent.apply, DocumentEvent.outcome, hdocs]
      · rw [DocumentEvent.apply, DocumentEvent.outcome, hdocs, Documents.version?_setVersion,
          if_neg hkey]
  | stop uri =>
      have hkey : FileKey.ofUri uri ≠ key := he
      rw [DocumentEvent.taken, Int.natCast_zero, Int.add_zero, ← hversion]
      rcases Documents.stop_docs s.docs uri s.workspace with hdocs | hdocs
      · rw [DocumentEvent.apply, DocumentEvent.outcome, hdocs]
      · rw [DocumentEvent.apply, DocumentEvent.outcome, hdocs, Documents.version?_erase,
          if_neg hkey]
  | closeAll => exact he.elim
  | elsewhere w =>
      rw [DocumentEvent.taken, Int.natCast_zero, Int.add_zero]
      exact hversion

theorem version?_after (hs : s.docs.Sound) {events : List DocumentEvent}
    (hevents : ∀ e ∈ events, e.VersionFits ∧ e.Keeps key) {version : Int}
    (hversion : s.docs.version? key = some version) :
    (s.after events).docs.version? key = some (version + taken key s events) := by
  induction events generalizing s version with
  | nil =>
      rw [taken, Int.natCast_zero, Int.add_zero]
      exact hversion
  | cons e events ih =>
      obtain ⟨hfits, hkeeps⟩ := hevents e List.mem_cons_self
      have hstep := ih (sound_apply hs hfits) (fun e he => hevents e (List.mem_cons_of_mem _ he))
        (version?_apply hs hkeeps hversion)
      rw [taken, Int.natCast_add, ← Int.add_assoc]
      exact hstep

/-- In every state that can be reached, changes are taken exactly if their version is the stored one
plus their number, or if no version is stored. They are put in place one after the other, whatever
their ranges are, and their version is stored; otherwise nothing changes. So from the opening of a
document on, the stored version counts the changes taken. -/
theorem versions_count_changes (project : Nat) (w : Workspace) (past : List DocumentEvent)
    (hpast : ∀ e ∈ past, e.VersionFits) :
    let s := (initial project w).after past
    (∀ (uri : Text) (version : Int) (changes : List ContentChange) (d : ManagedDocument)
        (editor : Editor), changes.length ≤ Documents.maxInt32 →
      s.docs.get? (.ofUri uri) = some d →
      s.workspace.opened? s.docs.project (.ofUri uri) = some editor → editor.writable = true →
      let next := (DocumentEvent.update uri version changes).apply s
      let text := changes.foldl ContentChange.applied editor.text
      (next.1 = .ok () ↔ d.version = none ∨ d.version = some (version - changes.length)) ∧
      changes.foldlM ContentChange.apply editor.text = .ok text ∧
      (next.1 = .ok () → next.2.docs.version? (.ofUri uri) = some version ∧
        next.2.workspace.editor? s.docs.project (.ofUri uri) = some (editor.setText text)) ∧
      (∀ ours, d.version = some ours → ours ≠ version - changes.length →
        next = (.error (.versionMismatch ours version changes.length), s))) ∧
    ∀ (uri text : Text) (version : Int) (events : List DocumentEvent),
      version ≠ 0 → fitsInt32 version = true →
      ((DocumentEvent.start uri text version).apply s).1 = .ok () →
      (∀ e ∈ events, e.VersionFits ∧ e.Keeps (.ofUri uri)) →
      let opened := ((DocumentEvent.start uri text version).apply s).2
      (opened.after events).docs.version? (.ofUri uri)
        = some (version + taken (.ofUri uri) opened events) := by
  intro s
  have hs : s.docs.Sound := sound_after (sound_initial project w) hpast
  clear_value s
  constructor
  · intro uri version changes d editor hlength hget hopened hwritable next text
    have hfits : ∀ v, d.version = some v → fitsInt32 v = true := by
      intro v hv
      exact hs.fits (.ofUri uri) v (by rw [Documents.version?, hget]; exact hv)
    have hcheck := @Documents.checkVersion_eq_ok_iff d.version hfits version changes.length hlength
    have hok : d.version = none ∨ d.version = some (version - changes.length) →
        next.1 = .ok () ∧ next.2.docs.version? (.ofUri uri) = some version ∧
          next.2.workspace.editor? s.docs.project (.ofUri uri) = some (editor.setText text) := by
      intro hours
      obtain ⟨w', hrun, heditor⟩ := Documents.update_of_opened hs.accepting hget hopened hwritable
        (hcheck.2 hours)
      have hnext : next
          = (.ok (), ⟨s.docs.setVersion (.ofUri uri) (some version), w'⟩) := by
        simp only [next, DocumentEvent.apply, DocumentEvent.outcome, hrun]
      rw [hnext, Documents.version?_setVersion, if_pos rfl, hget]
      exact ⟨rfl, rfl, heditor⟩
    have hmismatch : ∀ ours, d.version = some ours → ours ≠ version - changes.length →
        next = (.error (.versionMismatch ours version changes.length), s) := by
      intro ours hours hne
      have hrefused := Documents.checkVersion_of_ne hlength hne
      simp only [next, DocumentEvent.apply, DocumentEvent.outcome, Documents.update_run, hget,
        hours, hrefused]
    have hiff : next.1 = .ok () ↔
        d.version = none ∨ d.version = some (version - changes.length) := by
      refine ⟨fun h => ?_, fun h => (hok h).1⟩
      obtain ⟨-, d', -, hget', hcheck', -⟩ := Documents.opened_of_update h
      rw [hget, Option.some.injEq] at hget'
      rw [← hcheck, hget']
      exact hcheck'
    exact ⟨hiff, ContentChange.foldlM_apply changes editor.text, fun h => (hok (hiff.1 h)).2,
      hmismatch⟩
  · intro uri text version events hne hfits hstart hevents opened
    have hopened : opened.docs.Sound :=
      sound_apply (e := .start uri text version) hs hfits
    refine version?_after hopened hevents ?_
    rcases Documents.start_cases s.docs uri text version s.workspace with ⟨-, hdocs⟩ | ⟨hfailed, -⟩
    · simp only [opened, DocumentEvent.apply, DocumentEvent.outcome, hdocs,
        Documents.version?_insert, if_true, if_neg hne]
    · exact absurd hstart hfailed

/-- Two changes, one of them backwards from behind the end into the middle of a surrogate pair, are
taken with the version after the next one, and counted. -/
theorem versions_count_changes_backwards :
    let uri := Workspace.sampleUri
    let opening := DocumentEvent.start uri "a😀\r\nb".toList 5
    let changes : List ContentChange := [⟨some ⟨⟨9, 9⟩, ⟨0, 2⟩⟩, "x".toList⟩, ⟨none, "y".toList⟩]
    let s := (initial 0 Workspace.sample).after [opening]
    ((DocumentEvent.update uri 7 changes).apply s).1 = .ok () ∧
      (opening.apply s).1 = .ok () ∧
      (((opening.apply s).2.after [.update uri 7 changes, .update uri 7 changes]).docs.version?
        (.ofUri uri)) = some (5 + 2) := by
  intro uri opening changes s
  have hpast : ∀ e ∈ [opening], e.VersionFits := by
    simp [opening, DocumentEvent.VersionFits, fitsInt32]
  have hget : s.docs.get? (.ofUri uri) = some ⟨.ofUri uri, uri, some 5, true⟩ := by decide +kernel
  have hopened : s.workspace.opened? s.docs.project (.ofUri uri)
      = some ⟨"a😀\nb".toList, 0, true⟩ := by decide +kernel
  have hstart : (opening.apply s).1 = .ok () := by decide +kernel
  obtain ⟨hupdate, hcount⟩ := versions_count_changes 0 Workspace.sample [opening] hpast
  have hevents : ∀ e ∈ [DocumentEvent.update uri 7 changes, .update uri 7 changes],
      e.VersionFits ∧ e.Keeps (.ofUri uri) := by
    simp [DocumentEvent.VersionFits, DocumentEvent.Keeps, fitsInt32, changes, Documents.maxInt32]
  refine ⟨?_, hstart, ?_⟩
  · exact (hupdate uri 7 changes _ _ (by decide) hget hopened rfl).1.2 (.inr (by decide))
  · rw [hcount uri _ 5 _ (by decide) (by decide) hstart hevents]
    decide +kernel

end DocumentState

end LanguageServer
