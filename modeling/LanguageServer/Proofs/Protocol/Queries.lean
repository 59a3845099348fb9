import LanguageServer.Server.Question

/-!
# Requests that only ask

A query asks about a file and is no completion, so its answer leaves nothing behind but perhaps the
editor of the file and its caret (`Question.IsQuery`). What is asked about a whole file does not
depend on where the caret stands (`Question.IsPlaced`).
-/

namespace LanguageServer

/-- The answer of the standard queries does not depend on the caret. -/
def Command.IgnoresCaret (command : Command) : Prop :=
  ∀ lineDiff sources cache (c : Context) caret,
    command.execute (.standard lineDiff) sources cache { c with caret }
      = command.execute (.standard lineDiff) sources cache c

theorem Command.ignoresCaret_format (options : LayoutOptions) :
    (format none options).IgnoresCaret := fun _ _ _ _ _ => rfl

theorem Command.ignoresCaret_documentSymbols : documentSymbols.IgnoresCaret := fun _ _ _ _ _ => rfl

theorem Command.ignoresCaret_contents : contents.IgnoresCaret := fun _ _ _ _ _ => rfl

theorem Command.ignoresCaret_runnables : runnables.IgnoresCaret := fun _ _ _ _ _ => rfl

/-- The methods of the requests that ask about a file, but for completions. -/
def queryMethods : List String :=
  ["textDocument/hover", "textDocument/definition", "textDocument/typeDefinition",
    "textDocument/implementation", "textDocument/references", "textDocument/documentHighlight",
    "textDocument/documentSymbol", "textDocument/signatureHelp", "textDocument/codeAction",
    "codeAction/resolve", "textDocument/rename", "textDocument/formatting",
    "textDocument/rangeFormatting", "textDocument/onTypeFormatting",
    "experimental/classFileContents", "experimental/runnables"]

/-- A request that only asks about a file. -/
def Request.IsQuery (r : Request) : Prop := String.ofList r.method ∈ queryMethods

namespace Question

/-- It is about a file and no completion, or it is answered already. -/
def IsQuery : Question → Prop
  | about _ _ command => ∀ position, command ≠ .completion position
  | answered _ => True
  | symbols _ | resolveItem _ => False

/-- If it is about a whole file, the caret does not matter. -/
def IsPlaced : Question → Prop
  | about _ none command => command.IgnoresCaret
  | _ => True

variable {method : String} {q : Question}

/-- What a request with a method asks is as it should be. -/
structure Fits (method : String) (q : Question) : Prop where
  placed : q.IsPlaced
  query : method ∈ queryMethods → q.IsQuery

theorem fits_atPlace? {more : List Shape.Field} {command : Command} {params : Json}
    (h : atPlace? more command params = some q)
    (hother : ∀ position, command ≠ .completion position) : Fits method q := by
  obtain ⟨⟨uri, position, j⟩, -, rfl⟩ := Option.map_eq_some_iff.1 h
  exact ⟨trivial, fun _ => hother⟩

theorem fits_aboutFile? {command : Command} {params : Json}
    (h : aboutFile? command params = some q) (hother : ∀ position, command ≠ .completion position)
    (hcaret : command.IgnoresCaret) : Fits method q := by
  obtain ⟨uri, -, rfl⟩ := Option.map_eq_some_iff.1 h
  exact ⟨hcaret, fun _ => hother⟩

theorem fits_resolveCodeAction? {params : Json} (h : resolveCodeAction? params = some q) :
    Fits method q := by
  obtain ⟨action, -, h⟩ := Option.bind_eq_some_iff.1 h
  obtain ⟨title, -, h⟩ := Option.bind_eq_some_iff.1 h
  split at h
  · cases h
    exact ⟨trivial, fun _ => trivial⟩
  · cases h
    exact ⟨trivial, fun _ => nofun⟩

theorem fits_formatOnType {name : Text} {params : Json}
    (h : formatOnType name params = .ok q) : Fits method q := by
  rw [formatOnType] at h
  split at h
  · cases h
  · split at h
    · cases h
      exact ⟨trivial, fun _ => nofun⟩
    · cases h

theorem fits_ofParams? {read : Json → Option Question} (hread : ofParams? method = some read)
    {params : Json} (h : read params = some q) : Fits method q := by
  unfold ofParams? at hread
  split at hread
  all_goals cases hread
  case h_6 =>
    obtain ⟨⟨uri, j⟩, -, rfl⟩ := Option.map_eq_some_iff.1 h
    dsimp only
    split
    · exact ⟨trivial, fun _ => trivial⟩
    · exact ⟨Command.ignoresCaret_documentSymbols, fun _ => nofun⟩
  case h_7 =>
    obtain ⟨query, -, rfl⟩ := Option.map_eq_some_iff.1 h
    exact ⟨trivial, fun hmem => absurd hmem (by decide)⟩
  case h_10 =>
    obtain ⟨⟨uri, position, j⟩, -, rfl⟩ := Option.map_eq_some_iff.1 h
    exact ⟨trivial, fun hmem => absurd hmem (by decide)⟩
  case h_11 =>
    obtain ⟨item, -, rfl⟩ := Option.map_eq_some_iff.1 h
    exact ⟨trivial, fun hmem => absurd hmem (by decide)⟩
  case h_12 =>
    obtain ⟨⟨uri, j⟩, -, h⟩ := Option.bind_eq_some_iff.1 h
    obtain ⟨range, -, h⟩ := Option.bind_eq_some_iff.1 h
    cases h
    exact ⟨trivial, fun _ => nofun⟩
  case h_13 => exact fits_resolveCodeAction? h
  case h_14 =>
    obtain ⟨⟨uri, position, j⟩, -, h⟩ := Option.bind_eq_some_iff.1 h
    obtain ⟨newName, -, h⟩ := Option.bind_eq_some_iff.1 h
    cases h
    exact ⟨trivial, fun _ => nofun⟩
  case h_15 =>
    obtain ⟨⟨uri, j⟩, -, h⟩ := Option.bind_eq_some_iff.1 h
    obtain ⟨options, -, h⟩ := Option.bind_eq_some_iff.1 h
    cases h
    exact ⟨Command.ignoresCaret_format options, fun _ => nofun⟩
  case h_16 =>
    obtain ⟨⟨uri, j⟩, -, h⟩ := Option.bind_eq_some_iff.1 h
    obtain ⟨range, -, h⟩ := Option.bind_eq_some_iff.1 h
    obtain ⟨options, -, h⟩ := Option.bind_eq_some_iff.1 h
    cases h
    exact ⟨trivial, fun _ => nofun⟩
  case h_17 => exact fits_aboutFile? h nofun Command.ignoresCaret_contents
  case h_18 => exact fits_aboutFile? h nofun Command.ignoresCaret_runnables
  all_goals exact fits_atPlace? h nofun

/-- What a request asks is placed, and only asks if the request does. -/
theorem fits_ofRequest {r : Request} (h : ofRequest r = .ok q) :
    Fits (String.ofList r.method) q := by
  rw [ofRequest] at h
  split at h
  · exact fits_formatOnType h
  · split at h
    · cases h
    · next read hread =>
        split at h
        · next question hquestion =>
            cases h
            exact fits_ofParams? hread hquestion
        · cases h

end Question

end LanguageServer
