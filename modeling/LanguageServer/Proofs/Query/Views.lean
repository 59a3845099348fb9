import LanguageServer.Proofs.Outline.Origins
import LanguageServer.Proofs.Query.Renaming

/-!
# The views of a word

A word is found under the caret, among the occurrences in its text, and as the name of a
declaration. All three see it in the same place: what is under the caret and does not start with a
digit is an occurrence (`exists_of_word?`), an occurrence is under each caret on it
(`word?_of_mem_words`), and the name of a declaration is an occurrence
(`Outline.exists_word_of_searchable`). So the queries that start from one view and answer in terms
of another one agree (`views_agree`).
-/

namespace LanguageServer

/-- Something that can be found by this name is declared in a file of the index. -/
def Index.Declares (ix : Index) (word : Text) : Prop :=
  ∃ entry ∈ ix, ∃ d ∈ entry.2.outline.searchable, d.name = word

namespace Query

variable {ix : Index} {c : Context} {word : Text} {i : Nat}

/-! ### The word under the caret -/

/-- What is under the caret is a word of the text, unless it starts with a digit. -/
theorem exists_of_word? {range : Range} (h : c.word? = some (word, range))
    (hdigit : ∀ d, word.head? = some d → d.isDigit = false) :
    ∃ i, (i, word) ∈ c.text.words ∧ range = c.text.rangeAt i (i + word.length) := by
  obtain ⟨⟨i, w⟩, hat, heq⟩ := Option.map_eq_some_iff.1 h
  cases heq
  obtain ⟨before, after, ht, hi, halone, -⟩ := Text.wordAt?_eq_some_iff.1 hat
  refine ⟨i, Text.mem_words_iff.2 ⟨?_, before, after, ht, hi, halone⟩, rfl⟩
  obtain ⟨first, rest, rfl⟩ := List.exists_cons_of_ne_nil halone.ne_nil
  rw [Text.isWordRun, halone.chars first List.mem_cons_self, hdigit first rfl]
  rfl

/-- A word of the text is under every caret on it, both ends included. -/
theorem word?_of_mem_words (h : (i, word) ∈ c.text.words)
    (hstart : (c.text.byteSpan (c.text.rangeAt i (i + word.length))).1 ≤ c.caret)
    (hstop : c.caret ≤ (c.text.byteSpan (c.text.rangeAt i (i + word.length))).2) :
    c.word? = some (word, c.text.rangeAt i (i + word.length)) := by
  obtain ⟨-, before, after, ht, rfl, halone⟩ := Text.mem_words_iff.1 h
  obtain ⟨hfirst, hlast⟩ := Text.cleanCut_of_chars halone.ne_nil halone.chars before after
  have hspan := Text.byteSpan_between hfirst hlast
  rw [← Text.rangeAt_append, ← ht] at hspan
  rw [hspan] at hstart hstop
  have hplace : c.text.beforeByte c.caret <+: c.text := Text.splitWithin_isPrefix _ _ _
  have hbefore : before <+: c.text := ⟨word ++ after, by rw [ht, List.append_assoc]⟩
  have hwhole : before ++ word <+: c.text := ⟨after, ht.symm⟩
  have hat : c.text.wordAt? c.caret = some (before.length, word) := by
    refine Text.wordAt?_eq_some_iff.2 ⟨before, after, ht, rfl, halone, ?_, ?_⟩
    · exact (Text.isPrefix_splitWithin_iff _ hbefore _).2 hstart
    · refine (Text.byteSize_le_iff_isPrefix hplace hwhole).1 ?_
      rw [Text.byteSize_append]
      exact (Text.width_splitWithin_le _ _ _).trans hstop
  rw [Context.word?, hat]
  rfl

/-! ### What the queries say of a word -/

theorem range_mem_highlighted {t : Text} (h : (i, word) ∈ t.words) :
    t.rangeAt i (i + word.length) ∈ (highlighted t word).map (·.range) := by
  rw [highlighted, List.map_map]
  exact List.mem_map_of_mem (f := fun i => t.rangeAt i (i + word.length))
    (Text.mem_occurrences_iff.2 h)

/-- The name of a declaration is written where it is selected. -/
theorem mem_highlighted_of_declared {t : Text} {d : Declaration}
    (hd : d ∈ (Outline.scan t).searchable) (h : (i, d.name) ∈ t.words)
    (hselection : d.selection = t.rangeAt i (i + d.name.length)) :
    ⟨d.selection, true⟩ ∈ highlighted t d.name := by
  refine List.mem_map.2 ⟨i, Text.mem_occurrences_iff.2 h, ?_⟩
  have hnamed : d ∈ (Outline.scan t).named d.name := List.mem_filter.2 ⟨hd, decide_eq_true rfl⟩
  have hdeclared :
      (((Outline.scan t).named d.name).map (·.selection)).contains d.selection = true :=
    List.contains_iff_mem.2 (List.mem_map_of_mem hnamed)
  dsimp only
  rw [← hselection, hdeclared, Bool.true_or]

variable {key : FileKey} {file : IndexedFile}

theorem mem_locations (hfile : (key, file) ∈ ix) (h : (i, word) ∈ file.text.words) :
    ⟨key, file.text.rangeAt i (i + word.length)⟩ ∈ locations ix word :=
  List.mem_flatMap.2 ⟨(key, file), mem_files.2 hfile,
    List.mem_map_of_mem (Text.mem_occurrences_iff.2 h)⟩

theorem mem_editsOf_renamed (hfile : (key, file) ∈ ix) (h : (i, word) ∈ file.text.words)
    (newName : Text) :
    ⟨file.text.rangeAt i (i + word.length), newName⟩ ∈ (renamed ix word newName).editsOf key := by
  rw [renamed, FileChanges.editsOf_foldl_foldl (fun file => file.text.renameEdits word newName) _
    .nil]
  refine List.mem_append_right _ (List.mem_flatMap.2 ⟨(key, file), ?_, ?_⟩)
  · exact List.mem_filter.2 ⟨mem_files.2 hfile, decide_eq_true rfl⟩
  · exact List.mem_map_of_mem (Text.mem_occurrences_iff.2 h)

theorem declarationsNamed_ne_nil (h : ix.Declares word) (prefer : FileKey) :
    ix.declarationsNamed word prefer ≠ [] := by
  obtain ⟨⟨key, file⟩, hfile, d, hd, hname⟩ := h
  have hmem : (key, d) ∈ ix.declarationsNamed word prefer :=
    mem_declarationsNamed_iff.2 ⟨file, hfile, List.mem_filter.2 ⟨hd, decide_eq_true hname⟩⟩
  exact List.ne_nil_of_mem hmem

end Query

open Capabilities (standard)

/-- In a file whose text the index has, what is under the caret and does not start with a digit is
highlighted, found as a usage and, if it is declared, renamed in the place where it stands. The
selection of every declaration that can be found by its name is an occurrence of the name: with the
caret anywhere on it the name is what is under the caret, it is highlighted as written, and it is
renamed. -/
theorem Project.views_agree {p : Project} {c : Context} {inProject : Bool}
    (hfile : p.index.get? c.key = some (.ofText c.text inProject)) (newName : Text) :
    (∀ word range, c.word? = some (word, range) →
        (∀ d, word.head? = some d → d.isDigit = false) →
      (∃ found, c.Yields (standard.highlights c) found ∧ range ∈ found.map (·.range)) ∧
      (∃ found, c.Yields (standard.usages p.toSources c) found ∧ ⟨c.key, range⟩ ∈ found) ∧
      (p.index.Declares word →
        ∃ changes, c.Yields (standard.rename p.toSources c newName) changes ∧
          ⟨range, newName⟩ ∈ changes.editsOf c.key)) ∧
    ∀ d ∈ (Outline.scan c.text).searchable,
      c.text.Occurs d.name d.selection ∧
      ((c.text.byteSpan d.selection).1 ≤ c.caret → c.caret ≤ (c.text.byteSpan d.selection).2 →
        c.word? = some (d.name, d.selection) ∧
        (∃ found, c.Yields (standard.highlights c) found ∧ ⟨d.selection, true⟩ ∈ found) ∧
        ∃ changes, c.Yields (standard.rename p.toSources c newName) changes ∧
          ⟨d.selection, newName⟩ ∈ changes.editsOf c.key) := by
  have hentry := Keyed.mem_of_get? hfile
  constructor
  · intro word range hword hdigit
    obtain ⟨i, hoccurs, rfl⟩ := Query.exists_of_word? hword hdigit
    refine ⟨⟨_, Query.highlights_yields hword, Query.range_mem_highlighted hoccurs⟩,
      ⟨_, Query.usages_yields hword, Query.mem_locations hentry hoccurs⟩, fun hdeclares => ?_⟩
    have hdeclared := Query.declarationsNamed_ne_nil hdeclares c.key
    exact ⟨_, Query.rename_yields hword hdeclared newName,
      Query.mem_editsOf_renamed hentry hoccurs newName⟩
  · intro d hd
    obtain ⟨i, hoccurs, hselection⟩ := Outline.exists_word_of_searchable hd
    rw [hselection]
    refine ⟨Text.occurs_of_mem_words hoccurs, fun hstart hstop => ?_⟩
    have hword := Query.word?_of_mem_words hoccurs hstart hstop
    refine ⟨hword, ⟨_, Query.highlights_yields hword, ?_⟩, ?_⟩
    · rw [← hselection]
      exact Query.mem_highlighted_of_declared hd hoccurs hselection
    · have hdeclared := Query.declarationsNamed_ne_nil ⟨_, hentry, d, hd, rfl⟩ c.key
      exact ⟨_, Query.rename_yields hword hdeclared newName,
        Query.mem_editsOf_renamed hentry hoccurs newName⟩

/-- A function is declared behind a wide character and named again in a comment; the caret stands
behind its name. -/
theorem Project.views_agree_at_declaration :
    let key : FileKey := .ofUri Workspace.sampleUri
    let text : Text := "😀\r\nfn ab1() // ab1\r\nab1()".toList
    let c : Context := ⟨key, text, 12, false⟩
    let disk := Workspace.sampleDisk.write ["p".toList, "a".toList] (.text text) true
    let p : Project := .ofDirectory disk [] (.ofUri Workspace.sampleRoot) "/p".toList
    let range : Range := .onLine 1 3 6
    p.index.get? key = some (.ofText text true) ∧
      (∃ spots, standard.usages p.toSources c = .ok spots ∧ ⟨key, range⟩ ∈ spots) ∧
      (∃ found, standard.highlights c = .ok found ∧ ⟨range, true⟩ ∈ found) ∧
      ∃ changes, standard.rename p.toSources c "x".toList = .ok changes ∧
        ⟨range, "x".toList⟩ ∈ changes.editsOf key := by
  intro key text c disk p range
  have hfile : p.index.get? key = some (.ofText text true) := by decide +kernel
  have hdeclared : ∃ d ∈ (Outline.scan text).searchable, d.name = "ab1".toList ∧
      d.selection = range ∧ text.byteSpan d.selection = (9, 12) := by decide +kernel
  obtain ⟨d, hd, hname, hselection, hspan⟩ := hdeclared
  obtain ⟨hcaret, hnames⟩ := Project.views_agree (c := c) hfile "x".toList
  obtain ⟨-, hon⟩ := hnames d hd
  obtain ⟨hword, ⟨found, hfound, hwritten⟩, changes, hchanges, hedit⟩ :=
    hon (hspan ▸ by decide) (hspan ▸ by decide)
  have hdigit : ∀ e, d.name.head? = some e → e.isDigit = false := by
    rw [hname]
    rintro e ⟨⟩
    decide
  obtain ⟨-, ⟨spots, hspots, hused⟩, -⟩ := hcaret d.name d.selection hword hdigit
  rw [hselection] at hwritten hedit hused
  exact ⟨hfile, ⟨spots, hspots.1 rfl, hused⟩, ⟨found, hfound.1 rfl, hwritten⟩, changes,
    hchanges.1 rfl, hedit⟩

end LanguageServer
