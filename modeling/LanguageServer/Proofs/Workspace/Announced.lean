import LanguageServer.Proofs.Documents.Analyses

/-!
# Texts that are told of

An operation of a project that gives an editor another text tells of its analysis, and one that
tells of nothing leaves all texts as they are (`Project.Announces`). So what the listeners of a
project are told follows the texts of its editors.
-/

namespace LanguageServer

namespace Project

variable {p p' : Project} {key : FileKey} {events : List ProjectEvent}

/-- The events tell of the one editor that has another text, if there is one. -/
inductive Announces (p p' : Project) : List ProjectEvent → Prop
  | kept (h : ∀ key e', p'.editors.get? key = some e' →
      ∃ e, p.editors.get? key = some e ∧ e'.text = e.text) : Announces p p' []
  | put (key : FileKey) (e : Editor) (h : p'.editors = p.editors.insert key e) :
      Announces p p' [analysis key e]

namespace Announces

theorem refl (p : Project) : Announces p p [] := .kept fun _ e he => ⟨e, he, rfl⟩

theorem of_editors (h : p'.editors = p.editors) : Announces p p' [] :=
  .kept fun _ e he => ⟨e, h ▸ he, rfl⟩

end Announces

theorem announces_refresh (p : Project) (disk : FileTree) (key : FileKey) :
    Announces p (p.refresh disk key).1 [] := by
  obtain ⟨index, hindex⟩ := p.refresh_eq disk key
  rw [hindex]
  exact .of_editors rfl

theorem announces_openEditor (p : Project) (disk : FileTree) (key : FileKey) :
    Announces p (p.openEditor disk key).1 (p.openEditor disk key).2.2 := by
  rw [openEditor]
  split
  · exact .refl p
  · split
    · exact .refl p
    · split
      · exact .put key _ rfl
      · exact .refl p

theorem announces_edit {change : Text → Text} (h : p.edit key change = .ok (p', events)) :
    Announces p p' events := by
  rw [edit] at h
  split at h
  · cases h
  · split at h
    · cases h
    · cases h
      exact .put key _ rfl

theorem announces_reload {disk : FileTree} (h : p.reload disk key = .ok (p', events)) :
    Announces p p' events := by
  rw [reload] at h
  split at h
  · cases h
    exact .put key _ rfl
  · cases h
  · cases h

/-- The caret of an editor is moved, but its text stays. -/
theorem announces_moveCaret (p : Project) (key : FileKey) (offset : Nat) :
    Announces p (p.moveCaret key offset) [] := by
  rw [moveCaret]
  split
  · exact .refl p
  · next editor heditor =>
      refine .kept fun other e' he' => ?_
      rw [Keyed.get?_insert] at he'
      split at he'
      · next hkey =>
          cases he'
          exact ⟨editor, hkey ▸ heditor, rfl⟩
      · exact ⟨e', he', rfl⟩

theorem announces_closeEditor (p : Project) (disk : FileTree) (key : FileKey) :
    Announces p (p.closeEditor disk key) [] := by
  obtain ⟨index, hclose⟩ := p.closeEditor_eq disk key
  rw [hclose]
  refine .kept fun other e' he' => ?_
  rw [Keyed.get?_erase] at he'
  split at he'
  · cases he'
  · exact ⟨e', he', rfl⟩

theorem Operation.announces {q : Project} {disk : FileTree} {closes : FileKey → Prop}
    (h : p.Operation disk closes q events) : Announces p q events := by
  cases h with
  | refresh key => exact p.announces_refresh disk key
  | openEditor key => exact p.announces_openEditor disk key
  | edit h => exact announces_edit h
  | reload h => exact announces_reload h
  | moveCaret key offset => exact p.announces_moveCaret key offset
  | closeEditor _ => exact p.announces_closeEditor disk _

end Project

end LanguageServer
