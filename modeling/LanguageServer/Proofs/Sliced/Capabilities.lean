import LanguageServer.Proofs.Sliced.Findings
import LanguageServer.Proofs.Sliced.Layout
import LanguageServer.Proofs.Sliced.Lookup
import LanguageServer.Proofs.Sliced.Runnable
import LanguageServer.Query.Capabilities

/-!
# No query breaks off

The queries by byte offsets check every slice, every index and every difference that they take. They
were shown equal to the standard queries, which do not break off: a query on characters gives a
result or notices that it has been cancelled (`Returns`). The caret that a client's position names
lies between two characters, so this holds for every position, also if the text does not have it.
-/

namespace LanguageServer

/-- The indexes that files can be put into and taken out of. -/
inductive Index.Built : Index → Prop
  | empty : Built []
  | update {ix : Index} (key : FileKey) (text : Text) (inProject : Bool) :
      Built ix → Built (ix.update key text inProject)
  | erase {ix : Index} (key : FileKey) : Built ix → Built (Keyed.erase ix key)

theorem Index.Built.sorted {ix : Index} (h : ix.Built) : Keyed.Sorted ix := by
  induction h with
  | empty => exact Keyed.sorted_nil
  | update key text inProject _ ih => exact Index.sorted_update ih key text inProject
  | erase key _ ih => exact Keyed.sorted_erase ih key

theorem Index.Built.outlined {ix : Index} (h : ix.Built) : ix.Outlined := by
  induction h with
  | empty => exact fun _ _ hmem => absurd hmem List.not_mem_nil
  | update key text inProject _ ih => exact ih.update key text inProject
  | erase key _ ih => exact ih.erase key

/-- The index of a project is put together file by file. -/
theorem Index.built_build (disk : FileTree) (directory : Text) (libraries : List Text)
    (editors : Keyed Editor) : (Index.build disk directory libraries editors).Built :=
  Index.build_of_update .empty (fun _ key text inProject => .update key text inProject)
    disk directory libraries editors

/-! ### Queries that return -/

/-- A query that returns: with a result, or with the error that it has been cancelled. -/
def Returns {α : Type} (cancelled : Bool) (x : Except Fault α) : Prop :=
  (∃ a, x = .ok a) ∨ cancelled = true ∧ x = .error (.error .cancelled)

namespace Returns

variable {α β : Type} {cancelled : Bool}

theorem ok (a : α) : Returns cancelled (.ok a : Except Fault α) := .inl ⟨a, rfl⟩

theorem check (c : Context) : Returns c.cancelled c.check := by
  rw [Context.check]
  split
  · next hcancelled => exact .inr ⟨hcancelled, rfl⟩
  · exact .ok ()

theorem bind {x : Except Fault α} {f : α → Except Fault β} (hx : Returns cancelled x)
    (hf : ∀ a, Returns cancelled (f a)) : Returns cancelled (x >>= f) := by
  rcases hx with ⟨a, rfl⟩ | ⟨hcancelled, rfl⟩
  · exact hf a
  · exact .inr ⟨hcancelled, rfl⟩

theorem mapM {f : α → Except Fault β} (hf : ∀ a, Returns cancelled (f a)) (as : List α) :
    Returns cancelled (as.mapM f) := by
  induction as with
  | nil => exact .ok []
  | cons a as ih =>
      rw [List.mapM_cons]
      exact (hf a).bind fun b => ih.bind fun bs => .ok (b :: bs)

theorem foldlM {f : α → β → Except Fault α} (hf : ∀ a b, Returns cancelled (f a b)) (bs : List β)
    (a : α) : Returns cancelled (bs.foldlM f a) := by
  induction bs generalizing a with
  | nil => exact .ok a
  | cons b bs ih =>
      rw [List.foldlM_cons]
      exact (hf a b).bind ih

/-- Work on every element, after asking whether to go on. -/
theorem forEach (c : Context) (f : α → β) (as : List α) :
    Returns c.cancelled (as.mapM fun a => do
      c.check
      return f a) :=
  mapM (fun a => (check c).bind fun _ => .ok (f a)) as

end Returns

namespace Query

variable (ix : Index) (c : Context)

theorem returns_definitions (kind : DefinitionKind) :
    Returns c.cancelled (definitions ix c kind) := by
  rw [definitions]
  cases c.word? with
  | none => exact .ok []
  | some found =>
      cases kind with
      | declaration => exact .ok _
      | typeDeclaration => exact (Returns.forEach c _ _).bind fun _ => .ok _
      | implementation => exact (Returns.forEach c _ _).bind fun _ => .ok _

theorem returns_usages : Returns c.cancelled (usages ix c) := by
  rw [usages]
  cases c.word? with
  | none => exact .ok []
  | some found => exact (Returns.forEach c _ _).bind fun _ => .ok _

theorem returns_highlights : Returns c.cancelled (highlights c) := by
  rw [highlights]
  cases c.word? with
  | none => exact .ok []
  | some found => exact .ok _

theorem returns_rename (newName : Text) : Returns c.cancelled (rename ix c newName) := by
  rw [rename]
  cases c.word? with
  | none => exact .ok _
  | some found =>
      dsimp only
      split
      · exact .ok _
      · exact Returns.foldlM (fun _ _ => (Returns.check c).bind fun _ => .ok _) _ _

variable {c}

theorem returns_before (hcaret : c.text.isBoundary c.caret = true) :
    Returns c.cancelled c.before := by
  obtain ⟨before, -, -, -, hbefore⟩ := Sliced.exists_caret hcaret
  exact hbefore ▸ .ok before

theorem returns_signatureHelp (hcaret : c.text.isBoundary c.caret = true) :
    Returns c.cancelled (signatureHelp ix c) :=
  (returns_before hcaret).bind fun _ => .ok _

theorem returns_completions (hcaret : c.text.isBoundary c.caret = true) :
    Returns c.cancelled (completions ix c) :=
  (returns_before hcaret).bind fun _ => (Returns.forEach c _ _).bind fun _ => .ok _

end Query

/-! ### Queries by byte offsets -/

namespace Sliced

/-- A query by byte offsets that returns what the standard one does. -/
structure Answers {α : Type} (c : Context) (sliced standard : Except Fault α) : Prop where
  same : sliced = standard
  returns : Returns c.cancelled sliced

theorem Answers.of_eq {α : Type} {c : Context} {sliced standard : Except Fault α}
    (h : sliced = standard) (hstandard : Returns c.cancelled standard) :
    Answers c sliced standard :=
  ⟨h, h ▸ hstandard⟩

/-- No query breaks off, and each answers as the standard one. Besides a cancelled query, only a fix
that nobody offers is refused. -/
structure Safe (s : Sources) (c : Context) : Prop where
  definitions : ∀ kind, Answers c (definitions s.index c kind)
    (Capabilities.standard.definitions s c kind)
  usages : Answers c (usages s.index c) (Capabilities.standard.usages s c)
  highlights : Answers c (highlights c) (Capabilities.standard.highlights c)
  documentSymbols : Answers c (documentSymbols c) (Capabilities.standard.documentSymbols c)
  hover : Answers c (hover s.index c) (Capabilities.standard.hover s c)
  signatureHelp : Answers c (signatureHelp s.index c) (Capabilities.standard.signatureHelp s c)
  completions : Answers c (completions s.index c) (Capabilities.standard.completions s c)
  codeActions : ∀ range, Answers c (codeActions c range)
    (Capabilities.standard.codeActions c range)
  applyCodeAction : ∀ title range,
    applyCodeAction c title range = Capabilities.standard.applyCodeAction c title range ∧
      ((∃ changes, applyCodeAction c title range = .ok changes) ∨
        BlankFix.ofTitle? title = none ∧ applyCodeAction c title range
          = .error (.error (.failed ("unknown quick fix: ".toList ++ title))))
  rename : ∀ newName, Answers c (rename s.index c newName)
    (Capabilities.standard.rename s c newName)
  reformat : ∀ range options, Answers c (reformat c range options)
    (Capabilities.standard.reformat c range options)
  formatOnType : ∀ typed options, Answers c (formatOnType c typed options)
    (Capabilities.standard.formatOnType c typed options)
  runnables : Answers c (runnables s.directory c) (Capabilities.standard.runnables s c)
  scan : scan c.text = .ok (Outline.scan c.text)
  findings : findings c.text = .ok (LanguageServer.findings c.text)

theorem applyCodeAction_returns (c : Context) (title : Text) (range : Range) :
    (∃ changes, applyCodeAction c title range = .ok changes) ∨
      BlankFix.ofTitle? title = none ∧ applyCodeAction c title range
        = .error (.error (.failed ("unknown quick fix: ".toList ++ title))) := by
  rw [applyCodeAction_eq, Query.applyCodeAction]
  cases BlankFix.ofTitle? title with
  | none => exact .inr ⟨rfl, rfl⟩
  | some fix => exact .inl ⟨_, rfl⟩

theorem safe_of_isBoundary {s : Sources} (hbuilt : s.index.Built) {c : Context}
    (hcaret : c.text.isBoundary c.caret = true) : Safe s c where
  definitions kind := .of_eq (definitions_eq s.index c kind)
    (Query.returns_definitions s.index c kind)
  usages := .of_eq (usages_eq s.index c) (Query.returns_usages s.index c)
  highlights := .of_eq (highlights_eq c) (Query.returns_highlights c)
  documentSymbols := .of_eq (documentSymbols_eq c) (.ok _)
  hover := .of_eq (hover_eq hbuilt.sorted hbuilt.outlined c) (.ok _)
  signatureHelp := .of_eq (signatureHelp_eq hbuilt.outlined hcaret)
    (Query.returns_signatureHelp s.index hcaret)
  completions := .of_eq (completions_eq s.index hcaret) (Query.returns_completions s.index hcaret)
  codeActions range := .of_eq (codeActions_eq c range) (.ok _)
  applyCodeAction title range :=
    ⟨applyCodeAction_eq c title range, applyCodeAction_returns c title range⟩
  rename newName := .of_eq (rename_eq s.index c newName) (Query.returns_rename s.index c newName)
  reformat range options := .of_eq (reformat_eq c range options) (.ok _)
  formatOnType typed options := .of_eq (formatOnType_eq c typed options) (.ok _)
  runnables := .of_eq (runnables_eq s.directory c) (.ok _)
  scan := scan_eq c.text
  findings := findings_eq c.text

/-- A client may ask at any position of any text: its offset is found without breaking off, and no
query breaks off there. -/
theorem safe_at_position {s : Sources} (hbuilt : s.index.Built) (key : FileKey) (t : Text)
    (p : Position) (cancelled : Bool) :
    ∃ caret, (LineIndex.ofText t).offsetOf t p = .ok caret ∧ caret = t.offsetOf p ∧
      Safe s ⟨key, t, caret, cancelled⟩ :=
  ⟨t.offsetOf p, LineIndex.offsetOf_eq t p, rfl,
    safe_of_isBoundary hbuilt (t.isBoundary_offsetOf p)⟩

/-- A position between the two code units of one character means the offset of that character. -/
theorem safe_inside_pair :
    let t : Text := "fn é(x: 𝒳) {}\n".toList
    let key : FileKey := .ofUri "file:///a.rs".toList
    let s : Sources := ⟨.ofUri "file:///".toList, "/".toList, Index.update [] key t true⟩
    s.index.Built ∧ (LineIndex.ofText t).offsetOf t ⟨0, 9⟩ = .ok 9 ∧
      ∃ caret, (LineIndex.ofText t).offsetOf t ⟨0, 9⟩ = .ok caret ∧ caret = t.offsetOf ⟨0, 9⟩ ∧
        Safe s ⟨key, t, caret, false⟩ := by
  intro t key s
  have hbuilt : s.index.Built := .update key t true .empty
  exact ⟨hbuilt, by decide, safe_at_position hbuilt key t ⟨0, 9⟩ false⟩

end Sliced

end LanguageServer
