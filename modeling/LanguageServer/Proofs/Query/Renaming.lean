import LanguageServer.Proofs.Documents.Buffers
import LanguageServer.Proofs.Outline.Origins
import LanguageServer.Proofs.Text.Patches
import LanguageServer.Proofs.Text.Tokens

/-!
# Renaming a word

The edits that rename a word are those of the tokens of the text, where the tokens that are the word
are replaced and all other ones are kept (`renameEdits_eq`). An identifier never touches a line
break, so all its ends are clean cuts, and making the edits substitutes the tokens
(`substitutes_renameEdits`). In an index no file stands twice, so each file gets its own edits and
no others (`editsOf_rename`).
-/

namespace LanguageServer

namespace Text

/-! ### One text -/

/-- What becomes of a token when a word is renamed. -/
def renamedPiece (word new token : Text) : Piece :=
  if token = word then .replace token new else .keep token

theorem flatMap_old_renamedPiece (word new : Text) (tokens : List Text) :
    (tokens.map (renamedPiece word new)).flatMap Piece.old = tokens.flatten := by
  have hold : ∀ token, (renamedPiece word new token).old = token := by
    intro token
    rw [renamedPiece]
    split <;> rfl
  simp only [List.flatMap_map, hold]
  exact List.flatMap_id

theorem flatMap_new_renamedPiece (word new : Text) (tokens : List Text) :
    (tokens.map (renamedPiece word new)).flatMap Piece.new
      = (tokens.map (substituted word new)).flatten := by
  have hnew : ∀ token, (renamedPiece word new token).new = substituted word new token := by
    intro token
    rw [renamedPiece, substituted]
    split <;> rfl
  simp only [List.flatMap_map, hnew]
  rfl

theorem map_occurrencesFrom (word new : Text) (tokens : List Text) (before : Text) :
    (occurrencesFrom word before.length tokens).map
        (fun i => (⟨(before ++ tokens.flatten).rangeAt i (i + word.length), new⟩ : TextEdit))
      = editsFrom before (tokens.map (renamedPiece word new)) := by
  induction tokens generalizing before with
  | nil => rfl
  | cons token rest ih =>
      have hrest := ih (before ++ token)
      rw [List.length_append, List.append_assoc] at hrest
      rw [occurrencesFrom, List.map_cons, List.flatten_cons, renamedPiece]
      split
      · next heq =>
          subst heq
          have hrange := rangeAt_append before token rest.flatten
          rw [List.append_assoc] at hrange
          rw [List.map_cons, hrange, hrest, editsFrom]
      · rw [hrest, editsFrom]

theorem renameEdits_eq {word : Text} (hword : isWordRun word = true) (t new : Text) :
    renameEdits t word new = editsFrom [] ((runs t).map (renamedPiece word new)) := by
  have hedits := map_occurrencesFrom word new (runs t) []
  rw [List.nil_append, (isTokenized_runs t).whole] at hedits
  rw [renameEdits, occurrences_eq hword]
  exact hedits

/-- An identifier does not touch a line break from inside. -/
theorem cleanFrom_renamedPiece {word : Text} (hword : IsIdentifier word) (new : Text)
    (tokens : List Text) (before : Text) :
    CleanFrom before (tokens.map (renamedPiece word new)) := by
  induction tokens generalizing before with
  | nil => trivial
  | cons token rest ih =>
      rw [List.map_cons, renamedPiece]
      split
      · next heq =>
          subst heq
          obtain ⟨hstart, hstop⟩ := cleanCut_of_chars hword.ne_nil hword.chars before
            ((rest.map (renamedPiece token new)).flatMap Piece.old)
          exact ⟨hstart, hstop, ih _⟩
      · exact ih _

/-- Making some edits puts `new` in place of the tokens that are `word`, and changes nothing else.
If `new` is another identifier, then it stands afterwards where either of them has stood. -/
structure Substitutes (t word new : Text) (edits : List TextEdit) : Prop where
  ordered : Ordered edits
  applied : ∃ tokens, IsTokenized t tokens ∧
    applyEdits t edits = (tokens.map (substituted word new)).flatten
  gone : IsIdentifier new → new ≠ word → (applyEdits t edits).occurrences word = []
  together : IsIdentifier new → new ≠ word →
    ((applyEdits t edits).occurrences new).length
      = (t.occurrences word).length + (t.occurrences new).length

theorem substitutes_renameEdits {word : Text} (hword : IsIdentifier word) (t new : Text) :
    Substitutes t word new (renameEdits t word new) := by
  have htokens := isTokenized_runs t
  have happlied : applyEdits t (renameEdits t word new)
      = ((runs t).map (substituted word new)).flatten := by
    have hmade := applyEdits_editsFrom (cleanFrom_renamedPiece hword new (runs t) [])
    rwa [flatMap_old_renamedPiece, flatMap_new_renamedPiece, htokens.whole,
      ← renameEdits_eq hword.isWordRun] at hmade
  refine ⟨?_, ⟨runs t, htokens, happlied⟩, fun hnew hne => ?_, fun hnew hne => ?_⟩
  · rw [renameEdits_eq hword.isWordRun]
    exact ordered_editsFrom [] _
  · have hafter := htokens.map_substituted hword hnew
    rw [← List.length_eq_zero_iff, happlied, length_occurrences hword.isWordRun hafter,
      count_substituted_self hne]
  · have hafter := htokens.map_substituted hword hnew
    rw [happlied, length_occurrences hnew.isWordRun hafter, count_substituted_new hne,
      length_occurrences hword.isWordRun htokens, length_occurrences hnew.isWordRun htokens]

end Text

/-! ### The edits of several files -/

namespace FileChanges

variable {changes : FileChanges}

def editsOf (changes : FileChanges) (key : FileKey) : List TextEdit :=
  (Keyed.get? changes.files key).getD []

theorem insert_eq {files : Keyed (List TextEdit)} (h : files.Sorted) (key : FileKey)
    (edit : TextEdit) :
    insert key edit files = Keyed.insert key ((files.get? key).getD [] ++ [edit]) files := by
  induction files with
  | nil => rfl
  | cons entry rest ih =>
      obtain ⟨k, edits⟩ := entry
      obtain ⟨hhead, hrest⟩ := List.pairwise_cons.1 h
      rw [insert, Keyed.insert, Keyed.get?_cons]
      split
      · next hkey => rw [if_pos hkey.symm, hkey, Option.getD_some]
      · next hkey =>
          rw [if_neg (Ne.symm hkey)]
          split
          · next hlt =>
              have hsorted : Keyed.Sorted ((key, [edit]) :: rest) :=
                List.pairwise_cons.2 ⟨fun e he => FileKey.lt_trans hlt (hhead e he), hrest⟩
              rw [hsorted.get?_tail]
              rfl
          · rw [ih hrest]

theorem sorted_add (h : Keyed.Sorted changes.files) (key : FileKey) (edit : TextEdit) :
    Keyed.Sorted (changes.add key edit).files := by
  rw [add, insert_eq h]
  exact Keyed.sorted_insert h key _

theorem editsOf_add (h : Keyed.Sorted changes.files) (key : FileKey) (edit : TextEdit)
    (other : FileKey) :
    (changes.add key edit).editsOf other
      = changes.editsOf other ++ if key = other then [edit] else [] := by
  rw [editsOf, editsOf, add, insert_eq h, Keyed.get?_insert]
  split
  · next hkey => rw [hkey, Option.getD_some]
  · rw [List.append_nil]

theorem editsOf_foldl_add (key : FileKey) (edits : List TextEdit)
    (h : Keyed.Sorted changes.files) (other : FileKey) :
    Keyed.Sorted (edits.foldl (·.add key ·) changes).files ∧
      (edits.foldl (·.add key ·) changes).editsOf other
        = changes.editsOf other ++ if key = other then edits else [] := by
  induction edits generalizing changes with
  | nil => exact ⟨h, by simp⟩
  | cons edit edits ih =>
      obtain ⟨hsorted, hedits⟩ := ih (sorted_add h key edit)
      refine ⟨hsorted, ?_⟩
      rw [List.foldl_cons, hedits, editsOf_add h]
      split <;> simp

theorem editsOf_foldl_foldl (f : IndexedFile → List TextEdit) (files : Index)
    (h : Keyed.Sorted changes.files) (key : FileKey) :
    (files.foldl (fun changes entry => (f entry.2).foldl (·.add entry.1 ·) changes)
        changes).editsOf key
      = changes.editsOf key ++ (files.filter (·.1 = key)).flatMap (f ·.2) := by
  induction files generalizing changes with
  | nil => simp
  | cons entry rest ih =>
      obtain ⟨hsorted, hedits⟩ := editsOf_foldl_add entry.1 (f entry.2) h key
      rw [List.foldl_cons, ih hsorted, hedits, List.filter_cons]
      by_cases hkey : entry.1 = key <;> simp [hkey]

end FileChanges

namespace Query

variable {ix : Index} {c : Context} {word : Text} {range : Range}

theorem isWordChar_of_word? (h : c.word? = some (word, range)) :
    ∀ ch ∈ word, isWordChar ch = true := by
  obtain ⟨⟨i, w⟩, hat, heq⟩ := Option.map_eq_some_iff.1 h
  cases heq
  obtain ⟨_, _, -, -, halone, -⟩ := Text.wordAt?_eq_some_iff.1 hat
  exact halone.chars

theorem mem_declarationsNamed_iff {prefer key : FileKey} {d : Declaration} :
    (key, d) ∈ ix.declarationsNamed word prefer ↔
      ∃ file, (key, file) ∈ ix ∧ d ∈ file.outline.named word := by
  have hfound : (key, d) ∈ ix.declarationsNamed word prefer ↔
      (key, d) ∈ ix.files.flatMap fun entry =>
        (entry.2.outline.named word).map (entry.1, ·) := by
    rw [Index.declarationsNamed, List.mem_append, List.mem_filter, List.mem_filter]
    by_cases hkey : key = prefer <;> simp [hkey]
  rw [hfound, List.mem_flatMap]
  constructor
  · rintro ⟨⟨k, file⟩, hfile, hmem⟩
    obtain ⟨e, he, heq⟩ := List.mem_map.1 hmem
    cases heq
    exact ⟨file, mem_files.1 hfile, he⟩
  · rintro ⟨file, hfile, hd⟩
    exact ⟨(key, file), mem_files.2 hfile, List.mem_map_of_mem hd⟩

/-- A word with a declaration is an identifier. -/
theorem isIdentifier_of_declared (houtlined : ix.Outlined) (hword : c.word? = some (word, range))
    (hdeclared : ix.declarationsNamed word c.key ≠ []) : Text.IsIdentifier word := by
  refine ⟨?_, isWordChar_of_word? hword⟩
  obtain ⟨⟨key, d⟩, hentry⟩ := List.exists_mem_of_ne_nil _ hdeclared
  obtain ⟨file, hfile, hd⟩ := mem_declarationsNamed_iff.1 hentry
  rw [houtlined key file hfile] at hd
  exact Outline.isWordRun_of_mem_named hd

theorem filter_files (hsorted : Keyed.Sorted ix) {key : FileKey} {file : IndexedFile}
    (hfile : (key, file) ∈ ix) : ix.files.filter (·.1 = key) = [(key, file)] := by
  have honce := hsorted.filter_key (hsorted.get?_of_mem hfile)
  simp only [Index.files, List.filter_append, List.filter_filter, Bool.and_comm]
  rw [← List.filter_filter, ← List.filter_filter, honce]
  cases hproject : file.inProject <;> simp [hproject]

/-- Each file gets the edits that rename the word in its text. -/
theorem editsOf_rename (hsorted : Keyed.Sorted ix) (hcheck : c.cancelled = false)
    (hword : c.word? = some (word, range)) (hdeclared : ix.declarationsNamed word c.key ≠ [])
    (newName : Text) :
    ∃ changes, rename ix c newName = .ok changes ∧
      ∀ key file, (key, file) ∈ ix → changes.editsOf key = file.text.renameEdits word newName := by
  refine ⟨_, (rename_yields hword hdeclared newName).1 hcheck, fun key file hfile => ?_⟩
  rw [renamed, FileChanges.editsOf_foldl_foldl (fun file => file.text.renameEdits word newName) _
    .nil, filter_files hsorted hfile, List.flatMap_singleton]
  rfl

end Query

namespace DocumentState

/-- From a project with an index that has been built, whatever is done for a client: renaming a word
that is declared somewhere gives an answer, and its edits substitute the word in every file of the
index, in the order in which it occurs there. -/
theorem rename_substitutes {disk : FileTree} {libraries : List Text} {w : Workspace}
    {project : Nat} {p : Project} {s : DocumentState} (hp : w.project? project = some p)
    (hopen : p.isOpen = true) (hsorted : p.editors.Sorted)
    (hbuilt : p.index = .build disk p.directory libraries p.editors)
    (hsteps : Relation.ReflTransGen Step (initial project w) s) :
    ∃ p', s.workspace.project? project = some p' ∧
      ∀ (c : Context) (word newName : Text) (range : Range), c.cancelled = false →
        c.word? = some (word, range) → p'.index.declarationsNamed word c.key ≠ [] →
        ∃ changes, Capabilities.standard.rename p'.toSources c newName = .ok changes ∧
          ∀ key file, (key, file) ∈ p'.index →
            file.text.Substitutes word newName (changes.editsOf key) := by
  obtain ⟨p', h⟩ := exists_inStep hp hopen hsorted hbuilt hsteps
  refine ⟨p', h.same ▸ h.found, fun c word newName range hcheck hword hdeclared => ?_⟩
  have hidentifier := Query.isIdentifier_of_declared h.wellFormed.outlined hword hdeclared
  obtain ⟨changes, hchanges, hedits⟩ :=
    Query.editsOf_rename h.wellFormed.index hcheck hword hdeclared newName
  refine ⟨changes, hchanges, fun key file hfile => ?_⟩
  rw [hedits key file hfile]
  exact Text.substitutes_renameEdits hidentifier file.text newName

/-- A function is renamed in a file with three kinds of line breaks. -/
theorem rename_substitutes_mixed_breaks :
    let key : FileKey := .ofUri Workspace.sampleUri
    let text : Text := "fn ab\r\n\rab 😀ab\nab1".toList
    let disk := Workspace.sampleDisk.write ["p".toList, "a".toList] (.text text) true
    let p : Project := .ofDirectory disk [] (.ofUri Workspace.sampleRoot) "/p".toList
    ∃ changes,
      Capabilities.standard.rename p.toSources ⟨key, text, 4, false⟩ "x".toList = .ok changes ∧
      text.Substitutes "ab".toList "x".toList (changes.editsOf key) ∧
      ((text.applyEdits (changes.editsOf key)).occurrences "x".toList).length = 3 := by
  intro key text disk p
  let w : Workspace := { disk, projects := [p], table := [(p.root, 0)] }
  have hdeclared : p.index.declarationsNamed "ab".toList key ≠ [] := by decide +kernel
  have hword : (⟨key, text, 4, false⟩ : Context).word? = some ("ab".toList, ⟨⟨0, 3⟩, ⟨0, 5⟩⟩) := by
    decide +kernel
  have hfile : (key, IndexedFile.ofText text true) ∈ p.index := by decide +kernel
  have hname : Text.IsIdentifier "x".toList :=
    ⟨by decide +kernel, List.all_eq_true.1 (by decide +kernel)⟩
  have hcount :
      (text.occurrences "ab".toList).length + (text.occurrences "x".toList).length = 3 := by
    decide +kernel
  have hp : w.project? 0 = some p := rfl
  obtain ⟨p', hp', hrename⟩ := rename_substitutes hp rfl Keyed.sorted_nil rfl .refl
  obtain rfl : p = p' := Option.some.inj hp'
  obtain ⟨changes, hchanges, hedits⟩ :=
    hrename _ "ab".toList "x".toList _ rfl hword hdeclared
  have hsubstitutes := hedits key _ hfile
  exact ⟨changes, hchanges, hsubstitutes,
    (hsubstitutes.together hname (by decide)).trans hcount⟩

end DocumentState

end LanguageServer
