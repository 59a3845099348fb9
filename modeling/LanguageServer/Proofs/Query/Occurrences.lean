import LanguageServer.Proofs.Query.Results
import LanguageServer.Proofs.Text.Identifiers
import LanguageServer.Query.Capabilities

/-!
# What queries report occurs in a text

A word occurs where it stands by itself, with no identifier character before or behind it. The
usages of a word, its highlights and the edits that rename it have the ranges of occurrences: the
highlights in the text of the query, the other ones in the texts of the index.
-/

namespace LanguageServer

namespace Text

/-- A word stands in a range of a text by itself. -/
def Occurs (t word : Text) (r : Range) : Prop :=
  ∃ before after, t = before ++ word ++ after ∧
    (∀ c, before.getLast? = some c → isWordChar c = false) ∧
    (∀ c, after.head? = some c → isWordChar c = false) ∧
    r = ⟨.after before, .after (before ++ word)⟩

theorem occurs_of_mem_words {t word : Text} {i : Nat} (h : (i, word) ∈ words t) :
    t.Occurs word (t.rangeAt i (i + word.length)) := by
  obtain ⟨-, before, after, rfl, rfl, halone⟩ := mem_words_iff.1 h
  exact ⟨before, after, rfl, halone.left, halone.right, rangeAt_append before word after⟩

theorem occurs_of_mem_occurrences {t word : Text} {i : Nat} (h : i ∈ t.occurrences word) :
    t.Occurs word (t.rangeAt i (i + word.length)) :=
  occurs_of_mem_words (mem_occurrences_iff.1 h)

end Text

/-- An edit of a file. -/
def FileChanges.Has (changes : FileChanges) (key : FileKey) (edit : TextEdit) : Prop :=
  ∃ edits, (key, edits) ∈ changes.files ∧ edit ∈ edits

namespace FileChanges

variable {changes : FileChanges} {key k : FileKey} {edit e : TextEdit}

theorem has_add (h : (changes.add key edit).Has k e) : k = key ∧ e = edit ∨ changes.Has k e := by
  obtain ⟨files⟩ := changes
  obtain ⟨edits, hmem, he⟩ := h
  simp only [add] at hmem
  induction files with
  | nil =>
      obtain ⟨rfl, rfl⟩ := Prod.mk.inj (List.mem_singleton.1 hmem)
      exact .inl ⟨rfl, List.mem_singleton.1 he⟩
  | cons file rest ih =>
      obtain ⟨k', edits'⟩ := file
      have hhead : ∀ {a}, a ∈ edits' → Has ⟨(k', edits') :: rest⟩ k' a := fun ha =>
        ⟨edits', List.mem_cons_self, ha⟩
      have htail : ∀ {a}, Has ⟨rest⟩ k a → Has ⟨(k', edits') :: rest⟩ k a := by
        rintro a ⟨edits, hrest, ha⟩
        exact ⟨edits, List.mem_cons_of_mem _ hrest, ha⟩
      rw [insert] at hmem
      split at hmem
      · next hkey =>
          subst hkey
          rcases List.mem_cons.1 hmem with heq | hmem
          · obtain ⟨rfl, rfl⟩ := Prod.mk.inj heq
            rcases List.mem_append.1 he with he | he
            · exact .inr (hhead he)
            · exact .inl ⟨rfl, List.mem_singleton.1 he⟩
          · exact .inr (htail ⟨edits, hmem, he⟩)
      · split at hmem
        · rcases List.mem_cons.1 hmem with heq | hmem
          · obtain ⟨rfl, rfl⟩ := Prod.mk.inj heq
            exact .inl ⟨rfl, List.mem_singleton.1 he⟩
          · exact .inr ⟨edits, hmem, he⟩
        · rcases List.mem_cons.1 hmem with heq | hmem
          · obtain ⟨rfl, rfl⟩ := Prod.mk.inj heq
            exact .inr (hhead he)
          · exact (ih hmem).imp_right htail

theorem has_foldl_add {edits : List TextEdit} (h : (edits.foldl (·.add key ·) changes).Has k e) :
    k = key ∧ e ∈ edits ∨ changes.Has k e := by
  induction edits generalizing changes with
  | nil => exact .inr h
  | cons edit edits ih =>
      rcases ih h with ⟨hk, he⟩ | h
      · exact .inl ⟨hk, List.mem_cons_of_mem _ he⟩
      · rcases has_add h with ⟨hk, rfl⟩ | h
        · exact .inl ⟨hk, List.mem_cons_self⟩
        · exact .inr h

end FileChanges

namespace Query

variable {ix : Index} {c : Context}

theorem mem_files {entry : FileKey × IndexedFile} : entry ∈ ix.files ↔ entry ∈ ix := by
  rw [Index.files, List.mem_append, List.mem_filter, List.mem_filter]
  cases entry.2.inProject <;> simp

theorem usages_occur {found : List Location} (h : usages ix c = .ok found) :
    ∃ word, ∀ l ∈ found, ∃ file, (l.key, file) ∈ ix ∧ file.text.Occurs word l.range := by
  cases hword : c.word? with
  | none =>
      rw [usages, hword] at h
      cases h
      exact ⟨[], List.forall_mem_nil _⟩
  | some under =>
      obtain rfl := (usages_yields hword).2 found h
      refine ⟨under.1, fun l hl => ?_⟩
      obtain ⟨⟨key, file⟩, hentry, hl⟩ := List.mem_flatMap.1 hl
      obtain ⟨i, hi, rfl⟩ := List.mem_map.1 hl
      exact ⟨file, mem_files.1 hentry, Text.occurs_of_mem_occurrences hi⟩

/-- The edits that are added for some files. -/
theorem exists_of_has_foldl {word newName : Text} {files : Index} {start : FileChanges}
    {key : FileKey} {edit : TextEdit}
    (h : (files.foldl (fun changes (key, file) =>
      (file.text.renameEdits word newName).foldl (·.add key ·) changes) start).Has key edit) :
    start.Has key edit ∨
      ∃ file, (key, file) ∈ files ∧ edit ∈ file.text.renameEdits word newName := by
  induction files generalizing start with
  | nil => exact .inl h
  | cons entry files ih =>
      rcases ih h with hstart | ⟨file, hfile, hedit⟩
      · rcases FileChanges.has_foldl_add hstart with ⟨rfl, hedit⟩ | hstart
        · exact .inr ⟨entry.2, List.mem_cons_self, hedit⟩
        · exact .inl hstart
      · exact .inr ⟨file, List.mem_cons_of_mem _ hfile, hedit⟩

theorem rename_occur {newName : Text} {changes : FileChanges}
    (h : rename ix c newName = .ok changes) :
    ∃ word, ∀ key edit, changes.Has key edit →
      edit.newText = newName ∧ ∃ file, (key, file) ∈ ix ∧ file.text.Occurs word edit.range := by
  have hnone : ∀ {key edit}, ¬ FileChanges.Has {} key edit := by
    rintro key edit ⟨edits, hmem, -⟩
    cases hmem
  cases hword : c.word? with
  | none =>
      rw [rename, hword] at h
      cases h
      exact ⟨[], fun _ _ hedit => absurd hedit hnone⟩
  | some under =>
      refine ⟨under.1, fun key edit hedit => ?_⟩
      by_cases hdeclared : ix.declarationsNamed under.1 c.key = []
      · rw [rename, hword] at h
        dsimp only at h
        rw [hdeclared] at h
        cases h
        exact absurd hedit hnone
      · obtain rfl := (rename_yields hword hdeclared newName).2 changes h
        rcases exists_of_has_foldl hedit with hstart | ⟨file, hfile, hedit⟩
        · exact absurd hstart hnone
        · obtain ⟨i, hi, rfl⟩ := List.mem_map.1 hedit
          exact ⟨rfl, file, mem_files.1 hfile, Text.occurs_of_mem_occurrences hi⟩

theorem highlights_occur {found : List Highlight} (h : highlights c = .ok found) :
    ∃ word, ∀ l ∈ found, c.text.Occurs word l.range := by
  rw [highlights] at h
  split at h
  · cases h
    exact ⟨[], List.forall_mem_nil _⟩
  · next word range hword =>
      cases h
      refine ⟨word, fun l hl => ?_⟩
      obtain ⟨i, hi, rfl⟩ := List.mem_map.1 hl
      exact Text.occurs_of_mem_occurrences hi

end Query

end LanguageServer
