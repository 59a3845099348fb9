import LanguageServer.Proofs.Sliced.Scan
import LanguageServer.Query.Navigation
import LanguageServer.Query.Symbols

/-!
# Finding words by byte offsets

The queries about the word under the caret, with every slice and every offset that they compute. The
ends of the word are the offsets of characters, whatever the caret is, and so are those of its
occurrences, so these queries answer the same and none breaks off.
-/

namespace LanguageServer

namespace Text

/-- The word around an offset stands where it is said to. -/
theorem isPrefix_of_wordAt? {t word : Text} {offset i : Nat}
    (h : t.wordAt? offset = some (i, word)) : word <+: t.drop i := by
  obtain ⟨before, after, rfl, rfl, -⟩ := wordAt?_eq_some_iff.1 h
  rw [List.append_assoc, List.drop_left]
  exact List.prefix_append word after

end Text

namespace Sliced

open Text (byteSize)

/-- The identifier under the caret and its range. -/
def word? (t : Text) (caret : Nat) : Except Fault (Option (Text × Range)) := do
  match ← wordAt? t caret with
  | none => .ok none
  | some (start, stop) =>
    let range ← (LineIndex.ofText t).range t start stop
    let word ← slice t start stop
    .ok (some (word, range))

/-- The type that a declaration names for what it declares. -/
def typeName? (d : Declaration) : Except Fault (Option Text) := do
  let found ← words d.detail
  match found.find? (·.2 = d.name) with
  | none => .ok none
  | some (start, name) =>
    let tail ← sliceFrom d.detail (start + byteSize name)
    match typeMarkers.findSome? fun m => (find? m tail).map (· + byteSize m) with
    | none => .ok none
    | some cut =>
      let rest ← sliceFrom tail cut
      let names ← words rest
      .ok ((names.map (·.2)).find? Line.isCapitalized)

def typeNames (word : Text) (found : List (FileKey × Declaration)) : Except Fault (List Text) :=
  if found.any (·.2.kind.isType) then .ok [word]
  else do
    let names ← found.mapM (typeName? ·.2)
    .ok (names.filterMap id).eraseDups

def definitions (ix : Index) (c : Context) (kind : DefinitionKind) :
    Except Fault (List DefinitionTarget) := do
  match ← word? c.text c.caret with
  | none => .ok []
  | some (word, origin) =>
    let target (key : FileKey) (range selection : Range) : DefinitionTarget :=
      ⟨some origin, key, range, selection⟩
    match kind with
    | .declaration =>
      .ok ((ix.declarationsNamed word c.key).map fun (key, d) => target key d.range d.selection)
    | .typeDeclaration =>
      let names ← typeNames word (ix.declarationsNamed word c.key)
      let found ← names.mapM fun name => do
        c.check
        return (ix.declarationsNamed name c.key).filter (·.2.kind.isType)
      return found.flatten.map fun (key, d) => target key d.range d.selection
    | .implementation =>
      let found ← ix.files.mapM fun (key, file) => do
        c.check
        let those := file.outline.implementations.toList.filter (·.target = word)
        return those.map fun i => target key i.range i.selection
      return found.flatten

/-- The ranges of some spans of a text. -/
def ranges (t : Text) (spans : List (Nat × Nat)) : Except Fault (List Range) :=
  spans.mapM fun (i, j) => (LineIndex.ofText t).range t i j

def usages (ix : Index) (c : Context) : Except Fault (List Location) := do
  match ← word? c.text c.caret with
  | none => .ok []
  | some (word, _) =>
    let found ← ix.files.mapM fun (key, file) => do
      c.check
      let spans ← occurrences file.text word
      let ranges ← ranges file.text spans
      return ranges.map fun range => (⟨key, range⟩ : Location)
    return found.flatten

def highlights (c : Context) : Except Fault (List Highlight) := do
  match ← word? c.text c.caret with
  | none => .ok []
  | some (word, _) =>
    let outline ← scan c.text
    let declared := (outline.named word).map (·.selection)
    let spans ← occurrences c.text word
    spans.mapM fun (i, j) => do
      let range ← (LineIndex.ofText c.text).range c.text i j
      let rest ← sliceFrom c.text j
      .ok ⟨range, declared.contains range || Query.isAssigned rest⟩

def documentSymbols (c : Context) : Except Fault (List SymbolNode) := do
  let outline ← scan c.text
  .ok outline.tree

def rename (ix : Index) (c : Context) (newName : Text) : Except Fault FileChanges := do
  match ← word? c.text c.caret with
  | none => .ok {}
  | some (word, _) =>
    if (ix.declarationsNamed word c.key).isEmpty then .ok {}
    else ix.files.foldlM (fun changes (key, file) => do
      c.check
      let spans ← occurrences file.text word
      let ranges ← ranges file.text spans
      return (ranges.map fun range => ⟨range, newName⟩).foldl (·.add key ·) changes) {}

/-! ### The word under the caret -/

theorem word?_eq (c : Context) : word? c.text c.caret = .ok c.word? := by
  rw [word?, wordAt?_eq, ok_bind, Context.word?]
  cases hword : c.text.wordAt? c.caret with
  | none => rfl
  | some found =>
      obtain ⟨i, word⟩ := found
      dsimp only [Option.map_some]
      rw [LineIndex.range_bytesTo, ok_bind, slice_of_isPrefix (Text.isPrefix_of_wordAt? hword)]
      rfl

/-! ### Types of declarations -/

theorem find?_add (pattern t : Text) :
    (find? pattern t).map (· + byteSize pattern)
      = ((Text.indexOf? pattern t).map (· + pattern.length)).map t.bytesTo := by
  rw [find?_eq, Option.map_map, Option.map_map]
  cases hfound : Text.indexOf? pattern t with
  | none => rfl
  | some i =>
      exact congrArg some (Text.bytesTo_add_of_isPrefix (Text.isPrefix_of_indexOf? hfound)).symm

theorem typeName?_eq (d : Declaration) : typeName? d = .ok d.typeName? := by
  have hname := find?_atBytes d.detail (fun w => decide (w = d.name)) (Text.words d.detail)
  rw [typeName?, words_eq, ok_bind, Declaration.typeName?, hname]
  cases hfound : (Text.words d.detail).find? (·.2 = d.name) with
  | none => rfl
  | some entry =>
      obtain ⟨start, name⟩ := entry
      have hword := Text.isWordAt_of_mem_words (List.mem_of_find?_eq_some hfound)
      simp only [Option.map_some, atBytes, Option.bind_eq_bind, Option.bind_some]
      rw [← Text.bytesTo_add_of_isPrefix hword.isPrefix, sliceFrom_bytesTo, ok_bind]
      generalize d.detail.drop (start + name.length) = tail
      have hcut : typeMarkers.findSome? (fun m => (find? m tail).map (· + byteSize m))
          = (typeMarkers.findSome? fun m => (Text.indexOf? m tail).map (· + m.length)).map
              (Text.bytesTo tail) := by
        simp only [find?_add, List.map_findSome?]
        rfl
      rw [hcut]
      cases hmarker : typeMarkers.findSome? fun m => (Text.indexOf? m tail).map (· + m.length) with
      | none => rfl
      | some cut =>
          simp only [Option.map_some, sliceFrom_bytesTo, ok_bind, words_eq, List.map_map]
          rfl

theorem typeNames_eq (word : Text) (found : List (FileKey × Declaration)) :
    typeNames word found = .ok (LanguageServer.typeNames word found) := by
  rw [typeNames, LanguageServer.typeNames]
  split
  · rfl
  · rw [mapM_eq_ok fun entry _ => typeName?_eq entry.2, ok_bind, List.filterMap_map]
    rfl

theorem definitions_eq (ix : Index) (c : Context) (kind : DefinitionKind) :
    definitions ix c kind = Query.definitions ix c kind := by
  rw [definitions, word?_eq, ok_bind, Query.definitions]
  cases c.word? with
  | none => rfl
  | some found =>
      cases kind with
      | typeDeclaration => simp only [typeNames_eq, ok_bind]
      | declaration => rfl
      | implementation => rfl

/-! ### Occurrences -/

theorem ranges_map (t : Text) (places : List Nat) (n : Nat) :
    ranges t (places.map fun i => (t.bytesTo i, t.bytesTo (i + n)))
      = .ok (places.map fun i => t.rangeAt i (i + n)) := by
  rw [ranges, List.mapM_map]
  exact mapM_eq_ok fun i _ => LineIndex.range_bytesTo t i (i + n)

theorem usages_eq (ix : Index) (c : Context) : usages ix c = Query.usages ix c := by
  rw [usages, word?_eq, ok_bind, Query.usages]
  cases c.word? with
  | none => rfl
  | some found => simp only [occurrences_eq, ok_bind, ranges_map, List.map_map, Function.comp_def]

theorem highlights_eq (c : Context) : highlights c = Query.highlights c := by
  rw [highlights, word?_eq, ok_bind, Query.highlights]
  cases c.word? with
  | none => rfl
  | some found =>
      simp only [scan_eq, occurrences_eq, ok_bind, List.mapM_map]
      refine mapM_eq_ok fun i _ => ?_
      simp only [Function.comp_apply, LineIndex.range_bytesTo, sliceFrom_bytesTo, ok_bind]

theorem documentSymbols_eq (c : Context) : documentSymbols c = Query.documentSymbols c := by
  rw [documentSymbols, scan_eq]
  rfl

theorem rename_eq (ix : Index) (c : Context) (newName : Text) :
    rename ix c newName = Query.rename ix c newName := by
  rw [rename, word?_eq, ok_bind, Query.rename]
  cases c.word? with
  | none => rfl
  | some found =>
      simp only [occurrences_eq, ok_bind, ranges_map, List.map_map, Function.comp_def,
        Text.renameEdits]

end Sliced

end LanguageServer
