import LanguageServer.Proofs.Documents.Steps
import LanguageServer.Proofs.Text.LineBreaks
import Mathlib.Logic.Relation

/-!
# The client and the server have the same text

A client keeps a document with line breaks of either kind and sends changes of it, the server keeps
a text of its own in an editor. The two texts are not equal: the server's has the breaks of whatever
it was made from last, the opened text, a change or the file on disk. What carries every step is
that they are equal without their carriage returns and that no return stands alone in either
(`SharedDocument.Agrees`).
-/

namespace LanguageServer

open Text

/-! ### What the client does -/

/-- A change that a client makes in its own text, as it tells the server. It writes a new text, or
puts one in place of what stands between two places, neither of which lies inside a line break. -/
inductive ClientEdit : Text → ContentChange → Text → Prop
  | full {t new : Text} (hnew : ReturnsPaired new) : ClientEdit t ⟨none, new⟩ new
  | ranged {before old after new : Text} (hstart : before.getLast? ≠ some '\r')
      (hstop : (before ++ old).getLast? ≠ some '\r') (hnew : ReturnsPaired new) :
      ClientEdit (before ++ old ++ after) ⟨some ⟨.after before, .after (before ++ old)⟩, new⟩
        (before ++ new ++ after)

/-- Changes that a client makes one after the other. -/
inductive ClientEdits : Text → List ContentChange → Text → Prop
  | nil {t : Text} : ClientEdits t [] t
  | cons {t t₁ t' : Text} {change : ContentChange} {changes : List ContentChange}
      (hedit : ClientEdit t change t₁) (hedits : ClientEdits t₁ changes t') :
      ClientEdits t (change :: changes) t'

/-- Both texts have no lone return, and they are equal without returns. -/
structure SameLines (mine theirs : Text) : Prop where
  server : ReturnsPaired mine
  client : ReturnsPaired theirs
  eq : withoutReturns mine = withoutReturns theirs

namespace SameLines

variable {mine theirs theirs' : Text}

theorem of_normalizeNewlines {t : Text} (ht : ReturnsPaired t) :
    SameLines t.normalizeNewlines t := by
  rw [normalizeNewlines_eq_withoutReturns ht]
  have hnone := return_not_mem_withoutReturns t
  exact ⟨returnsPaired_of_not_mem hnone, ht, withoutReturns_of_not_mem hnone⟩

theorem normalizeNewlines_eq (h : SameLines mine theirs) :
    mine.normalizeNewlines = theirs.normalizeNewlines := by
  rw [normalizeNewlines_eq_withoutReturns h.server, normalizeNewlines_eq_withoutReturns h.client,
    h.eq]

theorem applied (h : SameLines mine theirs) {change : ContentChange}
    (hedit : ClientEdit theirs change theirs') :
    SameLines (ContentChange.applied mine change) theirs' := by
  cases hedit with
  | full hnew => exact of_normalizeNewlines hnew
  | @ranged before old after new hstart hstop hnew =>
      obtain ⟨hpaired, heq⟩ :=
        withoutReturns_replaceRange h.server h.client hstart hstop hnew h.eq
      refine ⟨hpaired, ?_, heq⟩
      have hbefore : ReturnsPaired before := by
        have htheirs := h.client
        rw [List.append_assoc] at htheirs
        exact htheirs.left hstart
      exact (hbefore.append hnew).append h.client.right

theorem foldl_applied (h : SameLines mine theirs) {changes : List ContentChange}
    (hedits : ClientEdits theirs changes theirs') :
    SameLines (changes.foldl ContentChange.applied mine) theirs' := by
  induction hedits generalizing mine with
  | nil => exact h
  | cons hedit _ ih => exact ih (h.applied hedit)

end SameLines

/-! ### What the two have of a document -/

/-- A document as the server and the client have it. -/
structure SharedDocument where
  server : DocumentState
  text : Text

namespace SharedDocument

variable {key : FileKey} {s s' : SharedDocument}

/-- Steps with a document that is open. The client changes its text and the server takes the
changes; the client saves its text, so that the file holds it when the server reads the file; or
something happens elsewhere that leaves the editor of the document as it is. -/
inductive Step (key : FileKey) : SharedDocument → SharedDocument → Prop
  | update {s : DocumentState} {t t' uri : Text} {version : Int} {changes : List ContentChange}
      (hkey : FileKey.ofUri uri = key) (hedits : ClientEdits t changes t')
      (hok : ((DocumentEvent.update uri version changes).apply s).1 = .ok ()) :
      Step key ⟨s, t⟩ ⟨((DocumentEvent.update uri version changes).apply s).2, t'⟩
  | sync {s : DocumentState} {t uri path : Text} {writable : Bool}
      (hkey : FileKey.ofUri uri = key) (hpath : key.localPath? = some path)
      (hdisk : s.workspace.disk.readText path = .ok (t, writable)) :
      Step key ⟨s, t⟩ ⟨((DocumentEvent.sync uri).apply s).2, t⟩
  | elsewhere {s s' : DocumentState} {t : Text} (hproject : s'.docs.project = s.docs.project)
      (heditor : s'.workspace.editor? s.docs.project key
        = s.workspace.editor? s.docs.project key) :
      Step key ⟨s, t⟩ ⟨s', t⟩

/-- The document is open in an editor that can be written, and its text has the lines of the
client's. -/
def Agrees (key : FileKey) (s : SharedDocument) : Prop :=
  ∃ editor, s.server.workspace.editor? s.server.docs.project key = some editor ∧
    editor.writable = true ∧ SameLines editor.text s.text

theorem agrees_start {s : DocumentState} {uri text : Text} {version : Int} {editor : Editor}
    (htext : ReturnsPaired text)
    (hopened : s.workspace.opened? s.docs.project (.ofUri uri) = some editor)
    (hwritable : editor.writable = true)
    (hstart : ((DocumentEvent.start uri text version).apply s).1 = .ok ()) :
    Agrees (.ofUri uri) ⟨((DocumentEvent.start uri text version).apply s).2, text⟩ := by
  obtain ⟨w', hfill, filled, hfilled, hlines, hkept⟩ :=
    Documents.fill_of_opened hopened hwritable text.normalizeNewlines
  simp only [DocumentEvent.apply, DocumentEvent.outcome, Documents.start_run] at hstart ⊢
  split at hstart
  · next hsupported =>
      cases haccepting : s.docs.accepting with
      | false =>
          rw [Documents.guarded_run_of_not haccepting] at hstart
          cases hstart
      | true =>
          rw [if_pos hsupported, Documents.guarded_run haccepting, hfill]
          exact ⟨filled, hfilled, hkept, hlines ▸ .of_normalizeNewlines htext⟩
  · cases hstart

theorem Agrees.step (h : Agrees key s) (hstep : Step key s s') : Agrees key s' := by
  obtain ⟨editor, heditor, hwritable, hlines⟩ := h
  cases hstep with
  | @update s t t' uri version changes hkey hedits hok =>
      subst hkey
      obtain ⟨haccepting, d, opened, hget, hcheck, hopened⟩ := Documents.opened_of_update hok
      cases Workspace.opened?_of_editor heditor hopened
      obtain ⟨w', hrun, hchanged⟩ :=
        Documents.update_of_opened haccepting hget hopened hwritable hcheck
      simp only [DocumentEvent.apply, DocumentEvent.outcome, hrun]
      exact ⟨_, hchanged, hwritable, hlines.foldl_applied hedits⟩
  | @sync s t uri path writable hkey hpath hdisk =>
      subst hkey
      obtain ⟨hproject, hsame | hread⟩ := Documents.sync_of_editor heditor hpath hdisk
      · refine ⟨editor, ?_, hwritable, hlines⟩
        rw [DocumentEvent.apply, DocumentEvent.outcome, hproject]
        exact hsame
      · refine ⟨editor.setText t, ?_, hwritable, hlines.client, hlines.client, rfl⟩
        rw [DocumentEvent.apply, DocumentEvent.outcome, hproject]
        exact hread
  | elsewhere hproject hsame =>
      exact ⟨editor, by rw [hproject]; exact hsame.trans heditor, hwritable, hlines⟩

/-- However a document is changed and saved after it has been opened, the text of its editor and the
text of the client are the same once their line breaks are normalized. -/
theorem texts_agree {s : DocumentState} {uri text : Text} {version : Int} {editor : Editor}
    (htext : ReturnsPaired text)
    (hopened : s.workspace.opened? s.docs.project (.ofUri uri) = some editor)
    (hwritable : editor.writable = true)
    (hstart : ((DocumentEvent.start uri text version).apply s).1 = .ok ())
    {later : SharedDocument}
    (hsteps : Relation.ReflTransGen (Step (.ofUri uri))
      ⟨((DocumentEvent.start uri text version).apply s).2, text⟩ later) :
    ∃ editor, later.server.workspace.editor? later.server.docs.project (.ofUri uri) = some editor ∧
      editor.text.normalizeNewlines = later.text.normalizeNewlines := by
  have hagrees : Agrees (.ofUri uri) later := by
    induction hsteps with
    | refl => exact agrees_start htext hopened hwritable hstart
    | tail _ hstep ih => exact ih.step hstep
  obtain ⟨editor, heditor, -, hlines⟩ := hagrees
  exact ⟨editor, heditor, hlines.normalizeNewlines_eq⟩

/-- A document with a surrogate pair and line breaks of both kinds is changed at two places, saved
as the client has it, and changed again. -/
theorem texts_agree_saved :
    ∃ later : SharedDocument, later.text = "x\r\n😀z\nend\r\n".toList ∧
      ∃ editor, later.server.workspace.editor? later.server.docs.project
          (.ofUri Workspace.sampleUri) = some editor ∧
        editor.text.normalizeNewlines = later.text.normalizeNewlines := by
  let uri := Workspace.sampleUri
  let text := "a\r\n😀b\nlast".toList
  let s₀ : DocumentState := ⟨{ project := 0 }, Workspace.sample⟩
  let s₁ := ((DocumentEvent.start uri text 1).apply s₀).2
  let changes : List ContentChange :=
    [⟨some ⟨.after "a\r\n😀".toList, .after "a\r\n😀b".toList⟩, "z".toList⟩,
      ⟨some ⟨.after [], .after "a".toList⟩, "x".toList⟩]
  let s₂ := ((DocumentEvent.update uri 3 changes).apply s₁).2
  let saved := "x\r\n😀z\nlast".toList
  let s₃ : DocumentState := ⟨s₂.docs, { s₂.workspace with
    disk := s₂.workspace.disk.write ["p".toList, "a".toList] (.text saved) true }⟩
  let s₄ := ((DocumentEvent.sync uri).apply s₃).2
  let more : List ContentChange :=
    [⟨some ⟨.after "x\r\n😀z\n".toList, .after saved⟩, "end\r\n".toList⟩]
  let s₅ := ((DocumentEvent.update uri 9 more).apply s₄).2
  have hedits : ClientEdits text changes saved := by
    have hfirst := @ClientEdit.ranged "a\r\n😀".toList "b".toList "\nlast".toList "z".toList
      (by decide +kernel) (by decide +kernel) (by decide +kernel)
    have hsecond := @ClientEdit.ranged [] "a".toList "\r\n😀z\nlast".toList "x".toList
      (by decide +kernel) (by decide +kernel) (by decide +kernel)
    exact .cons hfirst (.cons hsecond .nil)
  have hmore : ClientEdits saved more "x\r\n😀z\nend\r\n".toList := by
    have hlast := @ClientEdit.ranged "x\r\n😀z\n".toList "last".toList [] "end\r\n".toList
      (by decide +kernel) (by decide +kernel) (by decide +kernel)
    exact .cons hlast .nil
  have hsteps : Relation.ReflTransGen (Step (.ofUri uri)) ⟨s₁, text⟩
      ⟨s₅, "x\r\n😀z\nend\r\n".toList⟩ := by
    have hchanged : Step (.ofUri uri) ⟨s₁, text⟩ ⟨s₂, saved⟩ :=
      .update rfl hedits (by decide +kernel)
    have hwritten : Step (.ofUri uri) ⟨s₂, saved⟩ ⟨s₃, saved⟩ :=
      .elsewhere (by decide +kernel) (by decide +kernel)
    have hread : Step (.ofUri uri) ⟨s₃, saved⟩ ⟨s₄, saved⟩ :=
      @Step.sync _ s₃ saved uri "/p/a".toList true rfl (by decide +kernel) (by decide +kernel)
    have hagain : Step (.ofUri uri) ⟨s₄, saved⟩ ⟨s₅, "x\r\n😀z\nend\r\n".toList⟩ :=
      .update rfl hmore (by decide +kernel)
    exact .tail (.tail (.tail (.single hchanged) hwritten) hread) hagain
  have hopened : s₀.workspace.opened? s₀.docs.project (.ofUri uri)
      = some ⟨"one\r\ntwo".toList, 0, true⟩ := by decide +kernel
  exact ⟨_, rfl, texts_agree (by decide +kernel) hopened rfl (by decide +kernel) hsteps⟩

end SharedDocument

end LanguageServer
