import LanguageServer.Proofs.Query.Renaming
import LanguageServer.Proofs.Sliced.Navigation
import LanguageServer.Query.Completion
import LanguageServer.Query.Hover
import LanguageServer.Query.Signature

/-!
# Looking up names by byte offsets

What is shown for a name comes from the index: the declaration around it, the parameters of what is
called, the names that go on with what has been typed. A declaration of a built index has the index
of one that is there for its parent, and a caret between two characters cuts the text, so these
queries answer the same and none breaks off.
-/

namespace LanguageServer

namespace Index

variable {ix : Index}

/-- The parent of a declaration is one of the same file. -/
theorem parent_lt (houtlined : ix.Outlined) {key : FileKey} {file : IndexedFile} {name : Text}
    {d : Declaration} {p : Nat} (hfile : (key, file) ∈ ix) (hd : d ∈ file.outline.named name)
    (hp : d.parent = some p) : p < file.outline.declarations.size := by
  rw [houtlined key file hfile] at hd ⊢
  obtain ⟨i, hi, heq⟩ := List.mem_iff_getElem.1 (List.mem_of_mem_filter (List.mem_of_mem_filter hd))
  have hd : (Outline.scan file.text).declarations[i]? = some d := by
    rw [← Array.getElem?_toList, List.getElem?_eq_getElem hi, heq]
  have hnests := (Outline.nested_readLines Outline.nested_origin file.text.lines).nests.endBlocks
  exact (hnests.behind hd hp).trans (by simpa using hi)

/-- No declaration has an empty name. -/
theorem declarationsNamed_nil (houtlined : ix.Outlined) (prefer : FileKey) :
    ix.declarationsNamed [] prefer = [] := by
  refine List.eq_nil_iff_forall_not_mem.2 fun (key, d) hmem => ?_
  obtain ⟨file, hfile, hd⟩ := Query.mem_declarationsNamed_iff.1 hmem
  rw [houtlined key file hfile] at hd
  exact absurd (Outline.isWordRun_of_mem_named hd) (by decide)

end Index

namespace Sliced

open Text (byteSize)

/-- What is known about the word under the caret. -/
def hover (ix : Index) (c : Context) : Except Fault (Option HoverInfo) := do
  match ← word? c.text c.caret with
  | none => .ok none
  | some (word, range) =>
    match (ix.declarationsNamed word c.key).head? with
    | none => .ok none
    | some (key, d) =>
      let language := ((languageOf? key).getD "").toList
      let code := "```".toList ++ language ++ ['\n'] ++ d.heading (· == '{') ++ "\n```".toList
      match ix.get? key with
      | none => .ok (some ⟨code, range⟩)
      | some file =>
        let container ← container? file.outline d
        let place := match container with
          | some name => "\n\n*in* `".toList ++ name ++ ['`']
          | none => []
        let doc := match docComment? file.text d.range.start.line with
          | some doc => "\n\n---\n\n".toList ++ doc
          | none => []
        .ok (some ⟨code ++ place ++ doc, range⟩)

/-- Searches for the bracket that opens the call, going back through the characters. Gives its
offset and the number of commas behind it. -/
def openCall? (depth commas : Nat) : List (Nat × Char) → Option (Nat × Nat)
  | [] => none
  | (i, c) :: rest =>
    if c = ')' || c = ']' then openCall? (depth + 1) commas rest
    else if (c = '(' || c = '[') && 0 < depth then openCall? (depth - 1) commas rest
    else if c = '(' then some (i, commas)
    else if c = '[' then none
    else if c = ',' && depth = 0 then openCall? depth (commas + 1) rest
    else if c = ';' || c = '{' || c = '}' then none
    else openCall? depth commas rest

def enclosingCall? (before : Text) : Option (Nat × Nat) :=
  openCall? 0 0 (charIndices 0 before).reverse

def parameterList (label : Text) : Except Fault (List Text) :=
  match findChar? (· == '(') label with
  | none => .ok []
  | some i => do
    let rest ← sliceFrom label (i + 1)
    .ok (((splitParameters 0 [] [] rest).map Text.trim).filter (· ≠ []))

/-- The parameter behind some commas, if there are parameters. -/
def activeParameter (commas : Nat) (parameters : List Text) : Except Fault (Option Nat) :=
  if parameters.isEmpty then .ok none
  else do
    let last ← sub parameters.length 1
    .ok (some (min commas last))

def signatureHelp (ix : Index) (c : Context) : Except Fault (Option SignatureInfo) := do
  let before ← sliceTo c.text (min c.caret (byteSize c.text))
  match enclosingCall? before with
  | none => .ok none
  | some (bracket, commas) =>
    let callee ← sliceTo c.text bracket
    match endStart? isWordChar callee.trimEnd with
    | none => .ok none
    | some start =>
      let name ← sliceFrom callee.trimEnd start
      match (ix.declarationsNamed name c.key).find? (·.2.kind.isCallable) with
      | none => .ok none
      | some (key, d) =>
        let label := d.heading fun c => c == '{' || c == ':'
        let parameters ← parameterList label
        let documentation := (ix.get? key).bind fun file => docComment? file.text d.range.start.line
        let active ← activeParameter commas parameters
        .ok (some ⟨label, documentation, parameters, active⟩)

def completions (ix : Index) (c : Context) : Except Fault (List Candidate) := do
  let caret := min c.caret (byteSize c.text)
  let before ← sliceTo c.text caret
  let start := (endStart? isWordChar before).getD caret
  let stem ← slice c.text start caret
  let replace ← (LineIndex.ofText c.text).range c.text start caret
  let fits (name : Text) : Bool := stem.toLower.isPrefixOf name.toLower
  let declared ← ix.files.mapM fun (_, file) => do
    c.check
    return file.outline.searchable.filter fun d => fits d.name
  let found ← words c.text
  let words := found.filter fun (i, word) => i != start && word != stem && fits word
  let all :=
    declared.flatten.map (.ofDeclaration replace) ++ words.map fun (_, w) => .ofWord replace w
  return ((all.eraseDupsBy fun a b => a.label == b.label).mergeSort Candidate.le).take maxCandidates

/-! ### Documentation -/

theorem hover_eq {ix : Index} (hsorted : Keyed.Sorted ix) (houtlined : ix.Outlined) (c : Context) :
    hover ix c = Query.hover ix c := by
  rw [hover, word?_eq, ok_bind, Query.hover]
  cases c.word? with
  | none => rfl
  | some found =>
      obtain ⟨word, range⟩ := found
      dsimp only
      cases hdeclared : (ix.declarationsNamed word c.key).head? with
      | none => simp [hdeclared]
      | some entry =>
          obtain ⟨key, d⟩ := entry
          obtain ⟨file, hfile, hd⟩ := Query.mem_declarationsNamed_iff.1
            (List.mem_of_head? hdeclared)
          have hget : ix.get? key = some file := hsorted.get?_of_mem hfile
          have hcontainer := container?_eq fun p hp => Index.parent_lt houtlined hfile hd hp
          simp only [hdeclared, hget, hcontainer, ok_bind, Option.bind_eq_bind, Option.bind_some]
          rfl

/-! ### Calls -/

theorem parameterList_eq (label : Text) :
    parameterList label = .ok (LanguageServer.parameterList label) := by
  rw [parameterList, LanguageServer.parameterList]
  rcases findSign_cases '(' label with ⟨hnone, -, hnothing⟩ | ⟨s, u, rfl, -, hrest, hfound⟩
  · rw [hnone, hnothing]
  · rw [hfound, hrest]
    dsimp only
    rw [sliceFrom_sign s u rfl]
    rfl

theorem activeParameter_eq (commas : Nat) (parameters : List Text) :
    activeParameter commas parameters
      = .ok (if parameters.isEmpty then none else some (min commas (parameters.length - 1))) := by
  rw [activeParameter]
  split
  · rfl
  · next hne =>
      have hlength : 0 < parameters.length := by
        simpa [List.length_pos_iff] using hne
      rw [sub_eq hlength]
      rfl

theorem openCall?_eq (depth commas : Nat) (t : Text) :
    openCall? depth commas (charIndices 0 t).reverse
      = (LanguageServer.openCall? depth commas t.reverse).map fun (callee, commas) =>
          (byteSize callee.reverse, commas) := by
  induction t using List.reverseRecOn generalizing depth commas with
  | nil => rfl
  | append_singleton t c ih =>
      rw [charIndices_append, List.reverse_append, List.reverse_append, Nat.zero_add]
      simp only [charIndices, List.reverse_singleton, List.singleton_append, openCall?,
        LanguageServer.openCall?, ih]
      split_ifs <;> simp

theorem openCall?_isSuffix {depth commas n : Nat} {t callee : Text}
    (h : LanguageServer.openCall? depth commas t = some (callee, n)) : callee <:+ t := by
  induction t generalizing depth commas with
  | nil => cases h
  | cons c t ih =>
      unfold LanguageServer.openCall? at h
      split_ifs at h
      all_goals first
        | exact (ih h).trans (List.suffix_cons c t)
        | (cases h; exact List.suffix_cons c _)

theorem enclosingCall?_eq (before : Text) :
    enclosingCall? before
      = (LanguageServer.enclosingCall? before).map fun (callee, commas) =>
          (byteSize callee, commas) := by
  rw [enclosingCall?, openCall?_eq, LanguageServer.enclosingCall?, Option.map_map]
  rfl

theorem isPrefix_of_enclosingCall? {before callee : Text} {n : Nat}
    (h : LanguageServer.enclosingCall? before = some (callee, n)) : callee <+: before := by
  obtain ⟨⟨back, k⟩, hopen, heq⟩ := Option.map_eq_some_iff.1 h
  cases heq
  rw [← List.reverse_reverse before]
  exact List.reverse_prefix.2 (openCall?_isSuffix hopen)

/-- A caret between two characters cuts the text. -/
theorem exists_caret {c : Context} (hcaret : c.text.isBoundary c.caret = true) :
    ∃ before after, c.text = before ++ after ∧ min c.caret (byteSize c.text) = byteSize before ∧
      c.before = .ok before := by
  have hsize : byteSize (c.text.beforeByte c.caret) = c.caret := eq_of_beq hcaret
  have hwhole : c.text.beforeByte c.caret ++ c.text.afterByte c.caret = c.text :=
    Text.splitWithin_append ..
  have hmin : min c.caret (byteSize c.text) = c.caret := by
    rw [← hwhole, Text.byteSize_append, hsize, Nat.min_eq_left (Nat.le_add_right _ _)]
  refine ⟨_, _, hwhole.symm, hmin.trans hsize.symm, ?_⟩
  unfold Context.before
  dsimp only
  rw [hmin, if_pos hcaret]

theorem signatureHelp_eq {ix : Index} (houtlined : ix.Outlined) {c : Context}
    (hcaret : c.text.isBoundary c.caret = true) :
    signatureHelp ix c = Query.signatureHelp ix c := by
  obtain ⟨before, after, htext, hmin, hbefore⟩ := exists_caret hcaret
  have hprefix : before <+: c.text := htext ▸ List.prefix_append before after
  rw [signatureHelp, hmin, sliceTo_of_isPrefix hprefix, ok_bind, Query.signatureHelp, hbefore,
    ok_bind, enclosingCall?_eq]
  cases hcall : LanguageServer.enclosingCall? before with
  | none => rfl
  | some call =>
      obtain ⟨callee, commas⟩ := call
      have hcallee := (isPrefix_of_enclosingCall? hcall).trans hprefix
      have hwhole := Text.dropEndWhile_append_takeEndWhile isWordChar callee.trimEnd
      dsimp only [Option.map_some]
      rw [sliceTo_of_isPrefix hcallee, ok_bind, endStart?_eq]
      have hslice := sliceFrom_append (callee.trimEnd.dropEndWhile isWordChar)
        (callee.trimEnd.takeEndWhile isWordChar)
      rw [hwhole] at hslice
      cases hname : callee.trimEnd.takeEndWhile isWordChar with
      | nil => simp [hname, Index.declarationsNamed_nil houtlined]
      | cons first rest =>
          rw [if_neg (List.cons_ne_nil first rest)]
          dsimp only
          rw [hslice, hname, ok_bind]
          simp only [hname, Option.bind_eq_bind, Option.bind_some]
          cases (ix.declarationsNamed (first :: rest) c.key).find? (·.2.kind.isCallable) with
          | none => rfl
          | some found =>
              simp only [parameterList_eq, activeParameter_eq, ok_bind]
              rfl

theorem bytesTo_inj {t : Text} {i j : Nat} (hi : i ≤ t.length) (hj : j ≤ t.length) :
    t.bytesTo i = t.bytesTo j ↔ i = j := by
  refine ⟨fun heq => ?_, congrArg _⟩
  have htake := Text.beforeByte_bytesTo t i
  rw [heq, Text.beforeByte_bytesTo] at htake
  have hlength := congrArg List.length htake
  rw [List.length_take, List.length_take] at hlength
  omega

/-- The candidates among the words of a text leave out the one that starts at the caret's word. -/
theorem filter_atBytes (t : Text) {i : Nat} (hi : i ≤ t.length) (p : Text → Bool) :
    ((Text.words t).map (atBytes t)).filter (fun (j, word) => j != t.bytesTo i && p word)
      = ((Text.words t).filter fun (j, word) => j != i && p word).map (atBytes t) := by
  rw [List.filter_map]
  refine congrArg (List.map (atBytes t)) (List.filter_congr fun (j, word) hmem => ?_)
  have hj : j ≤ t.length :=
    Nat.le_of_add_right_le (Text.isWordAt_of_mem_words hmem).le_length
  have hsame : (t.bytesTo j != t.bytesTo i) = (j != i) :=
    Bool.eq_iff_iff.2 (by simpa using not_congr (bytesTo_inj hj hi))
  exact congrArg (· && p word) hsame

theorem completions_eq (ix : Index) {c : Context} (hcaret : c.text.isBoundary c.caret = true) :
    completions ix c = Query.completions ix c := by
  obtain ⟨before, after, htext, hmin, hbefore⟩ := exists_caret hcaret
  have hprefix : before <+: c.text := htext ▸ List.prefix_append before after
  unfold completions Query.completions
  dsimp only
  rw [hmin, sliceTo_of_isPrefix hprefix, ok_bind, endStart?_getD, hbefore, ok_bind]
  have hwhole := Text.dropEndWhile_append_takeEndWhile isWordChar before
  generalize before.dropEndWhile isWordChar = front at hwhole
  generalize before.takeEndWhile isWordChar = stem at hwhole
  have hfront : front <+: c.text := (hwhole ▸ List.prefix_append front stem).trans hprefix
  have hstart : byteSize front = c.text.bytesTo front.length :=
    (Text.bytesTo_of_isPrefix hfront).symm
  have hstop : byteSize before = c.text.bytesTo before.length :=
    (Text.bytesTo_of_isPrefix hprefix).symm
  have hplace : before.length - stem.length = front.length := by
    rw [← hwhole, List.length_append, Nat.add_sub_cancel]
  have hstem : slice c.text (byteSize front) (byteSize before) = .ok stem := by
    rw [htext, ← hwhole, List.append_assoc, Text.byteSize_append]
    exact slice_append front stem after
  have hwords := filter_atBytes c.text hfront.length_le fun word =>
    word != stem && stem.toLower.isPrefixOf word.toLower
  rw [hstem, ok_bind, hstart, hstop, LineIndex.range_bytesTo, ok_bind, words_eq, hplace]
  simp only [ok_bind, Bool.and_assoc, hwords, List.map_map]
  rfl

end Sliced

end LanguageServer
