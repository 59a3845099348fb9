import LanguageServer.Proofs.Sliced.Words
import LanguageServer.Query.Findings

/-!
# Findings by byte offsets

The findings of a line start and end at offsets in it: those of a mark, of a word, of the blanks at
its end and of the brackets before a comment. All of them are offsets of characters, so looking
through a text never breaks off and gives its findings (`findings_eq`).
-/

namespace LanguageServer.Sliced

open Text (byteSize bytesTo)

/-! ### Looking through a text -/

/-- The finding for a mark of open work. -/
def openWork (n : Nat) (line : Text) : Except Fault (List Finding) :=
  match (find? "TODO".toList line).or (find? "FIXME".toList line) with
  | none => .ok []
  | some i => do
    let before ← sliceTo line i
    let rest ← sliceFrom line i
    .ok [⟨.onLine n before.units line.units, .info, some rest.trim⟩]

def overlong (n : Nat) (line : Text) : List Finding :=
  if line.length ≤ maxLineLength then [] else
    [⟨.onLine n 0 line.units, .warning,
      some ("Line exceeds ".toList ++ (toString maxLineLength).toList ++ " characters".toList)⟩]

def trailing (n : Nat) (line : Text) : Except Fault (List Finding) :=
  if byteSize line.trimEnd = byteSize line then .ok []
  else do
    let kept ← sliceTo line (byteSize line.trimEnd)
    .ok [⟨.onLine n kept.units line.units, .weak, some "Trailing whitespace".toList⟩]

def highlighted (n : Nat) (line : Text) : Except Fault (List Finding) := do
  let found ← occurrences line "unsafe".toList
  found.mapM fun (i, j) => do
    let before ← sliceTo line i
    let through ← sliceTo line j
    .ok ⟨.onLine n before.units through.units, .weak, none⟩

/-- The findings of line `n` that are not about brackets. -/
def lineFindings (n : Nat) (line : Text) : Except Fault (List Finding) := do
  let work ← openWork n line
  let trailing ← trailing n line
  let highlighted ← highlighted n line
  .ok (work ++ overlong n line ++ trailing ++ highlighted)

/-- The brackets among the last characters of the code of line `n`. -/
def bracketsFrom (n : Nat) (code : Text) (quoted escaped : Bool) :
    List (Nat × Char) → Except Fault (List Bracket)
  | [] => .ok []
  | (i, c) :: rest =>
    if quoted then
      if escaped then bracketsFrom n code true false rest
      else bracketsFrom n code (c != '"') (c == '\\') rest
    else do
      let before ← sliceTo code i
      if c = '"' then bracketsFrom n code true false rest
      else if ['(', ')', '[', ']', '{', '}'].contains c then
        let later ← bracketsFrom n code false false rest
        .ok ((c, ⟨n, before.units⟩) :: later)
      else bracketsFrom n code false false rest

def lineBrackets (n : Nat) (line : Text) : Except Fault (List Bracket) :=
  bracketsFrom n (beforeComment line) false false (charIndices 0 (beforeComment line))

/-- The findings of the lines from number `n` on; `opened` are the brackets that are open there. -/
def findingsFrom (opened : List Bracket) (n : Nat) : List Text → Except Fault (List Finding)
  | [] => .ok (opened.reverse.map (bracketFinding "Unclosed"))
  | raw :: rest => do
    let line := Text.dropReturns raw
    let found ← lineFindings n line
    let brackets ← lineBrackets n line
    let (opened, bad) := matchBrackets opened brackets
    let later ← findingsFrom opened (n + 1) rest
    .ok (found ++ bad.map (bracketFinding "Unmatched") ++ later)

def findings (t : Text) : Except Fault (List Finding) := findingsFrom [] 0 t.lines

/-! ### Marks, blanks and words -/

theorem openWork_eq (n : Nat) (line : Text) :
    openWork n line = .ok ((openWork? line).toList.map fun i =>
      ⟨.onLine n (Text.units (line.take i)) line.units, .info,
        some (Text.trim (line.drop i))⟩) := by
  rw [openWork, openWork?, find?_eq, find?_eq, ← Option.map_or]
  cases (Text.indexOf? "TODO".toList line).or (Text.indexOf? "FIXME".toList line) with
  | none => rfl
  | some i =>
      dsimp only [Option.map_some]
      rw [sliceTo_bytesTo, ok_bind, sliceFrom_bytesTo]
      rfl

theorem trailing_eq (n : Nat) (line : Text) :
    trailing n line = .ok (if line.trimEnd = line then [] else
      [⟨.onLine n line.trimEnd.units line.units, .weak, some "Trailing whitespace".toList⟩]) := by
  rw [trailing]
  by_cases hkept : line.trimEnd = line
  · rw [if_pos (congrArg byteSize hkept), if_pos hkept]
  · rw [if_neg (mt (byteSize_trimEnd_iff line).1 hkept),
      if_neg hkept, sliceTo_trimEnd]
    rfl

theorem highlighted_eq (n : Nat) (line : Text) :
    highlighted n line = .ok ((line.occurrences "unsafe".toList).map fun i =>
      ⟨.onLine n (Text.units (line.take i)) (Text.units (line.take (i + 6))), .weak, none⟩) := by
  rw [highlighted, occurrences_eq, ok_bind, List.mapM_map]
  refine mapM_eq_ok fun i _ => ?_
  simp only [Function.comp_apply, sliceTo_bytesTo, ok_bind]
  rfl

theorem lineFindings_eq (n : Nat) (line : Text) :
    lineFindings n line = .ok (LanguageServer.lineFindings n line) := by
  rw [lineFindings, openWork_eq, trailing_eq, highlighted_eq]
  rfl

/-! ### Brackets -/

theorem bracketsFrom_charIndices (n : Nat) (s t : Text) (quoted escaped : Bool) :
    bracketsFrom n (s ++ t) quoted escaped (charIndices (byteSize s) t)
      = .ok ((LanguageServer.bracketsFrom s.units quoted escaped t).map fun (c, column) =>
          (c, ⟨n, column⟩)) := by
  induction t generalizing s quoted escaped with
  | nil => rfl
  | cons c t ih =>
      have hrest := ih (s ++ [c])
      simp only [Text.byteSize_append, Text.byteSize_cons, Text.byteSize_nil, Nat.add_zero,
        Text.units_append, Text.units_cons, Text.units_nil, List.append_assoc,
        List.singleton_append] at hrest
      rw [charIndices, bracketsFrom, LanguageServer.bracketsFrom]
      split
      · split
        · exact hrest true false
        · exact hrest (c != '"') (c == '\\')
      · rw [sliceTo_of_isPrefix (List.prefix_append s _), ok_bind]
        split
        · exact hrest true false
        · split
          · rw [hrest]
            rfl
          · exact hrest false false

theorem lineBrackets_eq (n : Nat) (line : Text) :
    lineBrackets n line = .ok (LanguageServer.lineBrackets n line) :=
  bracketsFrom_charIndices n [] (beforeComment line) false false

/-! ### All lines -/

theorem findingsFrom_eq (opened : List Bracket) (n : Nat) (lines : List Text) :
    findingsFrom opened n lines = .ok (LanguageServer.findingsFrom opened n lines) := by
  induction lines generalizing opened n with
  | nil => rfl
  | cons raw rest ih =>
      rw [findingsFrom, LanguageServer.findingsFrom, lineFindings_eq, ok_bind, lineBrackets_eq,
        ok_bind]
      dsimp only
      rw [ih]
      rfl

theorem findings_eq (t : Text) : findings t = .ok (LanguageServer.findings t) :=
  findingsFrom_eq [] 0 t.lines

end LanguageServer.Sliced
