import LanguageServer.Proofs.Sliced.Lines
import LanguageServer.Query.Layout
import LanguageServer.Query.QuickFix

/-!
# Layout by byte offsets

Formatting and the fixes of blanks cut the lines of a text where blanks start or end: the blanks
that a line starts with take as many bytes as the line has more than what follows them. Where a
closing brace is typed, the search for its opening brace goes back through the text before the line
and keeps the end of the line that it is on. Each query is equal to the one on characters.
-/

namespace LanguageServer.Sliced

open Text (byteSize bytesTo)

/-! ### Queries -/

/-- The edit of line `n`, if a fix has something to do there. -/
def edit? (fix : BlankFix) (n : Nat) (line : Text) : Except Fault (Option TextEdit) :=
  match fix with
  | .removeTrailing =>
    if byteSize line.trimEnd = byteSize line then .ok none
    else do
      let kept ← sliceTo line (byteSize line.trimEnd)
      .ok (some ⟨.onLine n kept.units line.units, []⟩)
  | .convertTabs => do
    let tabs ← sub (byteSize line) (byteSize (line.dropWhile (· == '\t')))
    .ok (if tabs = 0 then none else some ⟨.onLine n 0 tabs, List.replicate (tabs * 4) ' '⟩)

def codeActions (c : Context) (range : Range) : Except Fault (List QuickFix) :=
  let lines := (c.text.selectedLines range).map (·.2)
  let trailing := lines.any fun line => byteSize line.trimEnd != byteSize line
  let tabs := lines.any fun line => line.head? == some '\t'
  .ok ((if trailing then [⟨BlankFix.removeTrailing.title, range⟩] else [])
    ++ (if tabs then [⟨BlankFix.convertTabs.title, range⟩] else []))

def applyCodeAction (c : Context) (title : Text) (range : Range) : Except Fault FileChanges :=
  match BlankFix.ofTitle? title with
  | none => .error (.error (.failed ("unknown quick fix: ".toList ++ title)))
  | some fix => do
    let edits ← (c.text.selectedLines range).mapM fun (n, line) => edit? fix n line
    .ok ((edits.filterMap id).foldl (·.add c.key ·) {})

def indentation (options : LayoutOptions) (width : Nat) : Except Fault Text :=
  if options.insertSpaces || options.tabSize = 0 then .ok (List.replicate width ' ')
  else do
    let (tabs, spaces) ← divide width options.tabSize
    .ok (List.replicate tabs '\t' ++ List.replicate spaces ' ')

def reindent (options : LayoutOptions) (line : Text) : Except Fault Text := do
  let body := line.dropWhile isIndent
  let size ← sub (byteSize line) (byteSize body)
  let blanks ← sliceTo line size
  let indent ← indentation options (options.widthOf blanks)
  .ok (indent ++ body)

def reformat (c : Context) (range : Option Range) (options : LayoutOptions) : Except Fault Text :=
  match range with
  | none => do
    let lines ← c.text.lines.mapM fun line => reindent options line.trimEnd
    .ok (Text.unlines (endWithNewline lines))
  | some r => do
    let lines ← c.text.lines.zipIdx.mapM fun (line, n) =>
      if r.start.line ≤ n && n ≤ r.stop.line then reindent options line.trimEnd else .ok line
    .ok (Text.unlines lines)

/-- Byte offset of the last character that satisfies `p`. -/
def findLastChar? (p : Char → Bool) (t : Text) : Option Nat :=
  ((charIndices 0 t).reverse.find? (p ·.2)).map (·.1)

/-- The indentation of the line around a brace; `stop` is where the line ends. -/
def braceIndent (t : Text) (brace stop : Nat) : Except Fault Text := do
  let before ← sliceTo t brace
  let start := ((findLastChar? (· == '\n') before).map (· + 1)).getD 0
  let line ← slice t start (max stop start)
  let size ← indentSize line
  sliceTo line size

/-- Searches for the opening brace, going back through the characters of a text. `depth` counts the
closed braces whose openings are still to come, and `stop` is where the line of the search ends. -/
def openBraceIndent? (t : Text) (depth stop : Nat) : List (Nat × Char) → Except Fault (Option Text)
  | [] => .ok none
  | (i, c) :: rest =>
    if c = '}' then openBraceIndent? t (depth + 1) stop rest
    else if c = '{' then
      if depth = 0 then do
        let indent ← braceIndent t i stop
        .ok (some indent)
      else openBraceIndent? t (depth - 1) stop rest
    else openBraceIndent? t depth (if c = '\n' then i else stop) rest

/-- The line that starts at an offset after a character has been typed, if it changes. -/
def retyped? (t : Text) (start : Nat) (line : Text) (typed : Char) (options : LayoutOptions) :
    Except Fault (Option Text) :=
  if typed = '}' && line.trimStart.head? = some '}' then do
    let above ← sliceTo t start
    match ← openBraceIndent? above 0 (byteSize above) (charIndices 0 above).reverse with
    | none => .ok none
    | some indent =>
      let new ← reindent options (indent ++ line.trimStart)
      .ok (some new)
  else if typed = ';' then .ok (some (tightenSemicolons line))
  else .ok none

def formatOnType (c : Context) (typed : Char) (options : LayoutOptions) : Except Fault Text := do
  let lines := LineIndex.ofText c.text
  let position ← lines.positionOf c.text (min c.caret (byteSize c.text))
  match ← lines.lineSpan? c.text position.line with
  | none => .ok c.text
  | some (start, stop) =>
    let line ← slice c.text start stop
    match ← retyped? c.text start line typed options with
    | none => .ok c.text
    | some new =>
      let before ← sliceTo c.text start
      let after ← sliceFrom c.text stop
      .ok (before ++ new ++ after)

/-! ### Blanks -/

/-- What a text has more bytes than the part behind its first characters. -/
theorem sub_dropWhile (p : Char → Bool) (t : Text) :
    sub (byteSize t) (byteSize (t.dropWhile p)) = .ok (byteSize (t.takeWhile p)) := by
  rw [← Text.byteSize_takeWhile_add p t, sub_eq (Nat.le_add_left _ _), Nat.add_sub_cancel]

theorem byteSize_takeWhile_tab (line : Text) :
    byteSize (line.takeWhile (· == '\t')) = (line.takeWhile (· == '\t')).length := by
  have hall : ∀ c ∈ line.takeWhile (· == '\t'), c = '\t' := fun c hc =>
    eq_of_beq (List.all_eq_true.1 List.all_takeWhile c hc)
  generalize line.takeWhile (· == '\t') = tabs at hall
  induction tabs with
  | nil => rfl
  | cons c tabs ih =>
      obtain ⟨rfl, htabs⟩ := List.forall_mem_cons.1 hall
      rw [Text.byteSize_cons, ih htabs, List.length_cons, Nat.add_comm]
      rfl

theorem edit?_eq (fix : BlankFix) (n : Nat) (line : Text) :
    edit? fix n line = .ok (fix.edit? n line) := by
  cases fix with
  | removeTrailing =>
      rw [edit?, BlankFix.edit?]
      by_cases hkept : line.trimEnd = line
      · rw [if_pos (congrArg byteSize hkept), if_pos hkept]
      · rw [if_neg (mt (byteSize_trimEnd_iff line).1 hkept),
          if_neg hkept, sliceTo_trimEnd]
        rfl
  | convertTabs =>
      rw [edit?, BlankFix.edit?, sub_dropWhile, byteSize_takeWhile_tab]
      rfl

theorem codeActions_eq (c : Context) (range : Range) :
    codeActions c range = Query.codeActions c range := by
  have htrailing (line : Text) : (byteSize line.trimEnd != byteSize line)
      = BlankFix.removeTrailing.appliesTo line := by
    rw [BlankFix.appliesTo, Bool.eq_iff_iff, bne_iff_ne, bne_iff_ne, ne_eq, ne_eq,
      byteSize_trimEnd_iff]
  have htabs (line : Text) : (line.head? == some '\t') = BlankFix.convertTabs.appliesTo line := rfl
  simp only [codeActions, Query.codeActions, htrailing, htabs, List.filter_cons, List.filter_nil]
  split_ifs <;> rfl

theorem applyCodeAction_eq (c : Context) (title : Text) (range : Range) :
    applyCodeAction c title range = Query.applyCodeAction c title range := by
  rw [applyCodeAction, Query.applyCodeAction]
  cases BlankFix.ofTitle? title with
  | none => rfl
  | some fix =>
      dsimp only
      rw [mapM_eq_ok fun line _ => edit?_eq fix line.1 line.2, ok_bind, List.filterMap_map]
      rfl

/-! ### Indentation -/

theorem indentation_eq (options : LayoutOptions) (width : Nat) :
    indentation options width = .ok (options.indentation width) := by
  rw [indentation, LayoutOptions.indentation]
  by_cases hspaces : (options.insertSpaces || decide (options.tabSize = 0)) = true
  · rw [if_pos hspaces, if_pos hspaces]
  · have htab : options.tabSize ≠ 0 := fun hzero => hspaces (by simp [hzero])
    rw [if_neg hspaces, if_neg hspaces, divide_eq htab]
    rfl

theorem reindent_eq (options : LayoutOptions) (line : Text) :
    reindent options line = .ok (options.reindent line) := by
  rw [reindent, sub_dropWhile, ok_bind, sliceTo_of_isPrefix (List.takeWhile_prefix _), ok_bind,
    indentation_eq]
  rfl

theorem reformat_eq (c : Context) (range : Option Range) (options : LayoutOptions) :
    reformat c range options = Query.reformat c range options := by
  cases range with
  | none =>
      rw [reformat, mapM_eq_ok fun line _ => reindent_eq options line.trimEnd]
      rfl
  | some r =>
      rw [reformat, mapM_eq_ok (g := fun (line, n) =>
        if r.start.line ≤ n && n ≤ r.stop.line then options.reindent line.trimEnd else line)]
      · rfl
      · intro (line, n) _
        dsimp only
        split
        · exact reindent_eq options line.trimEnd
        · rfl

/-! ### Typing -/

/-- The last line of a text starts behind its last line feed. -/
theorem lineStart_eq (t : Text) :
    ((findLastChar? (· == '\n') t).map (· + 1)).getD 0
      = byteSize (t.dropEndWhile (· != '\n')) := by
  induction t using List.reverseRecOn with
  | nil => rfl
  | append_singleton t c ih =>
      rw [findLastChar?, charIndices_append, List.reverse_append, Nat.zero_add, Text.dropEndWhile,
        List.reverse_append]
      by_cases hc : c = '\n'
      · subst hc
        simp [charIndices, show '\n'.utf8Size = 1 from rfl]
      · have hskip : (c != '\n') = true := by simpa using hc
        have hother : (c == '\n') = false := by simpa using hc
        simp only [charIndices, List.reverse_singleton, List.singleton_append, List.find?_cons,
          hother]
        rw [List.dropWhile_cons, if_pos hskip]
        exact ih

theorem indentation_append {last : Text} {c : Char} (hc : isSpace c = false) (tail : Text) :
    Text.indentation (last ++ c :: tail) = last.indentation :=
  (Text.span_append last (Text.forall_head? rfl hc)).1

theorem braceIndent_eq {t s tail rest : Text} {stop : Nat} (ht : t = s ++ ('{' :: tail ++ rest))
    (hstop : stop = byteSize s + byteSize ('{' :: tail)) :
    braceIndent t (byteSize s) stop = .ok (Text.indentation (s.takeEndWhile (· != '\n'))) := by
  subst ht
  have hwhole := Text.dropEndWhile_append_takeEndWhile (· != '\n') s
  rw [braceIndent, sliceTo_of_isPrefix (List.prefix_append s _), ok_bind, lineStart_eq]
  dsimp only
  generalize s.dropEndWhile (· != '\n') = start at hwhole
  generalize s.takeEndWhile (· != '\n') = last at hwhole
  subst hwhole
  have hslice := slice_append start (last ++ '{' :: tail) rest
  have hend : max stop (byteSize start) = byteSize start + byteSize (last ++ '{' :: tail) := by
    rw [hstop, Text.byteSize_append, Text.byteSize_append]
    omega
  have hindent : Text.indentation (last ++ '{' :: tail) <+: last ++ '{' :: tail :=
    List.takeWhile_prefix _
  rw [List.append_assoc] at hslice
  rw [hend, List.append_assoc, hslice, ok_bind, indentSize_eq, ok_bind, sliceTo_bytesTo,
    ← List.prefix_iff_eq_take.1 hindent, indentation_append (by decide)]

/-- Behind the characters that have been searched is the rest of their line. -/
theorem openBraceIndent?_eq {t s : Text} {stop : Nat} (depth : Nat) (tail rest : Text)
    (ht : t = s ++ (tail ++ rest)) (hstop : stop = byteSize s + byteSize tail) :
    openBraceIndent? t depth stop (charIndices 0 s).reverse
      = .ok (LanguageServer.openBraceIndent? depth s.reverse) := by
  induction s using List.reverseRecOn generalizing depth tail rest stop with
  | nil => rfl
  | append_singleton s c ih =>
      have ht' : t = s ++ (c :: tail ++ rest) := by simpa using ht
      have hstop' : stop = byteSize s + byteSize (c :: tail) := by
        rw [hstop, Text.byteSize_append, Text.byteSize_cons, Text.byteSize_cons, Text.byteSize_nil]
        omega
      rw [charIndices_append, List.reverse_append, List.reverse_append, Nat.zero_add]
      simp only [charIndices, List.reverse_singleton, List.singleton_append, openBraceIndent?,
        LanguageServer.openBraceIndent?]
      by_cases hclose : c = '}'
      · rw [if_pos hclose, if_pos hclose, ih (depth + 1) _ rest ht' hstop']
      rw [if_neg hclose, if_neg hclose]
      by_cases hopen : c = '{'
      · subst hopen
        rw [if_pos rfl, if_pos rfl, braceIndent_eq ht' hstop', ih (depth - 1) _ rest ht' hstop']
        split <;> rfl
      · rw [if_neg hopen, if_neg hopen]
        split
        · exact ih depth [] _ ht' rfl
        · exact ih depth _ rest ht' hstop'

theorem retyped?_eq (above after line : Text) (typed : Char) (options : LayoutOptions) :
    retyped? (above ++ after) (byteSize above) line typed options
      = .ok (Query.retyped? above line typed options) := by
  rw [retyped?, Query.retyped?]
  split
  · have hindent : openBraceIndent? above 0 (byteSize above) (charIndices 0 above).reverse
        = .ok (LanguageServer.openBraceIndent? 0 above.reverse) :=
      openBraceIndent?_eq 0 [] [] (List.append_nil above).symm rfl
    rw [sliceTo_of_isPrefix (List.prefix_append above after), ok_bind, hindent, ok_bind]
    cases LanguageServer.openBraceIndent? 0 above.reverse with
    | none => rfl
    | some indent =>
        dsimp only
        rw [reindent_eq]
        rfl
  · split <;> rfl

theorem positionOf_line_lt (t : Text) (offset : Nat) :
    (t.positionOf offset).line < (Text.lines t).length := by
  have hcount : (t.beforeByte offset).count '\n' ≤ t.count '\n' :=
    (Text.splitWithin_isPrefix _ _ t).sublist.count_le _
  rw [Text.length_lines]
  exact Nat.lt_succ_of_le hcount

theorem formatOnType_eq (c : Context) (typed : Char) (options : LayoutOptions) :
    formatOnType c typed options = Query.formatOnType c typed options := by
  have hcaret : c.text.positionOf (min c.caret (byteSize c.text)) = c.text.positionOf c.caret := by
    rw [Text.positionOf, beforeByte_min, Text.positionOf]
  rw [formatOnType, LineIndex.positionOf_eq, ok_bind, LineIndex.lineSpan?_eq, ok_bind, hcaret,
    Query.formatOnType]
  obtain ⟨above, line, below, hlines, hline⟩ :=
    Text.exists_line (p := c.text.positionOf c.caret) (positionOf_line_lt c.text c.caret)
  rw [hline]
  obtain ⟨rest, hrest, -⟩ := Text.exists_rest hlines
  obtain ⟨back, hback⟩ := Text.lineContent_isPrefix line
  have habove : (Text.lines c.text).take above.length = above := by rw [hlines, List.take_left]
  have hget : (Text.lines c.text)[above.length]? = some line := by simp [hlines]
  simp only [LineIndex.lineSpan?_of_lines hlines, habove, hget, Option.getD_some]
  generalize above.flatMap (· ++ ['\n']) = before at hrest
  generalize Text.lineContent line = content at hback
  have htext : c.text = before ++ (content ++ (back ++ rest)) := by
    rw [hrest, ← hback, List.append_assoc]
  rw [htext, slice_append, ok_bind, retyped?_eq, ok_bind]
  cases Query.retyped? before content typed options with
  | none => rfl
  | some new =>
      dsimp only
      rw [sliceTo_of_isPrefix (List.prefix_append before _), ok_bind, ← Text.byteSize_append,
        ← List.append_assoc, sliceFrom_append, ok_bind, ← List.length_append, List.drop_left]

end LanguageServer.Sliced
