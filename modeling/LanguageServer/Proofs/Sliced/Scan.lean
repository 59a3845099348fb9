import LanguageServer.Proofs.Outline.Forest
import LanguageServer.Proofs.Sliced.Lines

/-!
# The outline of a text by byte offsets

An open block names its declaration by an index, and every line looks up the declaration around it
by such an index. Open blocks only ever have the indexes of declarations that are there
(`Outline.State.Covers`), so no lookup fails. The slices of the lines do not either, and so reading
a text gives its outline (`scan_eq`).
-/

namespace LanguageServer

namespace Outline

variable {o : Outline} {b : Block} {blocks rest : List Block} {s : State}

/-! ### Open blocks have declarations that are there -/

/-- The declarations of the open blocks are among those found so far. -/
def Covers (o : Outline) (blocks : List Block) : Prop :=
  ∀ i ∈ opened blocks, i < o.declarations.size

theorem Covers.head (h : Covers o (b :: rest)) {i : Nat} (hi : b.declaration = some i) :
    i < o.declarations.size :=
  h i (List.mem_filterMap.2 ⟨b, List.mem_cons_self, hi⟩)

theorem Covers.tail (h : Covers o (b :: rest)) : Covers o rest :=
  fun i hi => h i (((List.sublist_cons_self b rest).filterMap _).mem hi)

theorem size_endBlock (o : Outline) (b : Block) (stop : Position) :
    (endBlock o b stop).declarations.size = o.declarations.size := by
  unfold endBlock
  split
  · rfl
  · split
    · rfl
    · exact Array.size_modify

theorem Covers.endBlock (h : Covers o blocks) (b : Block) (stop : Position) :
    Covers (endBlock o b stop) blocks := by
  intro i hi
  rw [size_endBlock]
  exact h i hi

theorem Covers.closeBlocks (h : Covers o blocks) (indent : Nat) (closing : Option Position)
    (lastEnd : Position) :
    Covers (closeBlocks indent closing lastEnd o blocks).1
      (closeBlocks indent closing lastEnd o blocks).2 := by
  induction blocks generalizing o with
  | nil => exact h
  | cons b rest ih =>
      unfold Outline.closeBlocks
      split
      · exact h
      · split
        · split
          · exact h.tail.endBlock b _
          · exact ih (h.tail.endBlock b lastEnd)
        · exact ih (h.tail.endBlock b lastEnd)

theorem Covers.declare (h : Covers s.outline s.blocks) (n : Nat) (line : Text)
    (found : Line.Found) :
    Covers (s.declare n line found).outline (s.declare n line found).blocks := by
  rcases declare_cases s n line found with hsame | ⟨d, implementations, blocks, hdeclare, -, -, -,
    hblocks, -⟩
  · rw [hsame]
    exact h
  · rw [hdeclare]
    intro i hi
    rw [Array.size_push, Nat.lt_succ_iff]
    rcases hblocks with rfl | ⟨indent, isCode, rfl⟩
    · exact Nat.le_of_lt (h i hi)
    · rcases List.mem_cons.1 hi with rfl | hi
      · exact Nat.le_refl _
      · exact Nat.le_of_lt (h i hi)

theorem Covers.readLine (h : Covers s.outline s.blocks) (n : Nat) (raw : Text) :
    Covers (s.readLine n raw).outline (s.readLine n raw).blocks := by
  unfold State.readLine
  dsimp only
  split
  · exact h
  · generalize Text.dropReturns raw = line
    have hclosed := h.closeBlocks (indentWidth line)
    split
    · exact hclosed _ _
    · split
      · next found _ => exact Covers.declare (s := ⟨_, _, _⟩) (hclosed _ _) n line found
      · split
        · exact hclosed _ _
        · exact hclosed _ _

end Outline

namespace Sliced

open Text (byteSize)

/-- What has been read so far. `last` is the number of the last line that is not blank. -/
structure State where
  outline : Outline
  blocks : List Outline.Block
  last : Nat

/-- Ends the declaration of a block at the end of a later line. -/
def endBlock (lines : List Text) (o : Outline) (b : Outline.Block) (last : Nat) :
    Except Fault Outline :=
  match b.declaration with
  | none => .ok o
  | some i =>
    if last ≤ b.startLine then .ok o
    else do
      let line := (lines[last]?.map Text.dropReturns).getD []
      let units ← column line (byteSize line)
      let _ ← entry o.declarations.toList i
      .ok { o with
        declarations := o.declarations.modify i fun d =>
          { d with range := { d.range with stop := ⟨last, units⟩ } } }

/-- Closes the blocks that line `n` ends, which is indented by `indent`. -/
def closeBlocks (lines : List Text) (indent n : Nat) (closes : Bool) (last : Nat) (o : Outline) :
    List Outline.Block → Except Fault (Outline × List Outline.Block)
  | [] => .ok (o, [])
  | b :: rest =>
    if b.indent < indent then .ok (o, b :: rest)
    else if closes && b.indent = indent then do
      let o ← endBlock lines o b n
      .ok (o, rest)
    else do
      let o ← endBlock lines o b last
      closeBlocks lines indent n closes last o rest

/-- The kind of the declaration with an index. -/
def kindOf? (o : Outline) : Option Nat → Except Fault (Option SymbolKind)
  | none => .ok none
  | some i => do
    let d ← entry o.declarations.toList i
    .ok (some d.kind)

/-- The supertypes of a declaration whose name ends at an offset. -/
def supersOf (kind : SymbolKind) (line : Text) (stop : Nat) : Except Fault (List (Nat × Text)) :=
  if kind.isType then supertypes line stop else .ok []

/-- The implementation statements of line `n`, about the declaration with an index. -/
def implementations (n : Nat) (line : Text) (o : Outline) (index : Nat)
    (supers : List (Nat × Text)) : Except Fault (List Implementation) :=
  supers.mapM fun (i, target) => do
    let d ← entry o.declarations.toList index
    let selection ← rangeOn n line i (i + byteSize target)
    .ok ⟨target, d.range, selection⟩

namespace State

def isInCode (s : State) : Bool := (s.blocks.head?.map (·.isCode)).getD false

/-- Adds what line `n` declares inside a declaration of the given kind. -/
def declare (s : State) (n : Nat) (line : Text) (parentKind : Option SymbolKind) :
    Line.Found → Except Fault State
  | .named keyword name start =>
    if s.isInCode && Line.keywordKind? keyword != some .function then .ok s else do
      let kind := Outline.kindWithin parentKind ((Line.keywordKind? keyword).getD .text)
      let index := s.outline.declarations.size
      let indent ← indentSize line
      let range ← rangeOn n line indent (byteSize line)
      let selection ← rangeOn n line start (start + byteSize name)
      let declarations := s.outline.declarations.push
        { name, kind, detail := line.trimStart, range, selection,
          parent := s.blocks.findSome? (·.declaration), searchable := true }
      let supers ← supersOf kind line (start + byteSize name)
      let found ← implementations n line { s.outline with declarations } index supers
      .ok { s with
        outline := ⟨declarations, s.outline.implementations ++ found⟩
        blocks :=
          if Outline.opensBlock kind then
            ⟨Outline.indentWidth line, some index, n, kind.isCallable⟩ :: s.blocks
          else s.blocks }
  | .implementation label target start interface =>
    if s.isInCode then .ok s else do
      let indent ← indentSize line
      let range ← rangeOn n line indent (byteSize line)
      let selection ← rangeOn n line start (start + byteSize target)
      .ok { s with
        outline :=
          { declarations := s.outline.declarations.push
              { name := label, kind := .nameSpace, detail := line.trimStart, range, selection,
                parent := s.blocks.findSome? (·.declaration), searchable := false }
            implementations := match interface with
              | some target => s.outline.implementations.push { target, range, selection }
              | none => s.outline.implementations }
        blocks :=
          ⟨Outline.indentWidth line, some s.outline.declarations.size, n, false⟩ :: s.blocks }

/-- Reads line `n` of a text that has the given lines. -/
def readLine (lines : List Text) (s : State) (n : Nat) (raw : Text) : Except Fault State :=
  let line := raw.dropReturns
  let trimmed := line.trimStart
  match trimmed with
  | [] => .ok s
  | c :: _ => do
    let indent := Outline.indentWidth line
    let closes := c = '}' || c = ')' || c = ']'
    let (outline, blocks) ← closeBlocks lines indent n closes s.last s.outline s.blocks
    let s : State := ⟨outline, blocks, n⟩
    if closes then .ok s else do
      let parentKind ← kindOf? s.outline (s.blocks.findSome? (·.declaration))
      match ← declaration? line with
      | some found => s.declare n line parentKind found
      | none =>
        if s.isInCode then .ok s else do
          let opens ← opensBlock trimmed
          .ok (if opens then { s with blocks := ⟨indent, none, n, true⟩ :: s.blocks } else s)

def readLines (lines : List Text) (s : State) (n : Nat) : List Text → Except Fault State
  | [] => .ok s
  | line :: rest => do
    let s ← s.readLine lines n line
    readLines lines s (n + 1) rest

end State

def scan (t : Text) : Except Fault Outline := do
  let s ← State.readLines t.lines ⟨⟨#[], #[]⟩, [], 0⟩ 0 t.lines
  s.blocks.foldlM (fun o b => endBlock t.lines o b s.last) s.outline

/-- The name of the declaration around a declaration. -/
def container? (o : Outline) (d : Declaration) : Except Fault (Option Text) :=
  match d.parent with
  | none => .ok none
  | some i => do
    let parent ← entry o.declarations.toList i
    .ok (some ((Text.dropHead? parent.name "impl ".toList).getD parent.name))

/-! ### Blocks -/

/-- Where a line ends, without the carriage returns at its end. -/
def endOf (lines : List Text) (n : Nat) : Position :=
  ⟨n, Text.units ((lines[n]?.map Text.dropReturns).getD [])⟩

theorem column_byteSize (line : Text) : column line (byteSize line) = .ok line.units := by
  rw [← Text.bytesTo_length, column_bytesTo, List.take_length]

theorem entry_toList {α : Type} {xs : Array α} {i : Nat} (h : i < xs.size) :
    entry xs.toList i = .ok xs[i] :=
  entry_eq (by rw [Array.getElem?_toList, Array.getElem?_eq_getElem h])

theorem endBlock_eq (lines : List Text) {o : Outline} {b : Outline.Block}
    (h : ∀ i, b.declaration = some i → i < o.declarations.size) (n : Nat) :
    endBlock lines o b n = .ok (Outline.endBlock o b (endOf lines n)) := by
  unfold endBlock Outline.endBlock
  cases hi : b.declaration with
  | none => rfl
  | some i =>
      dsimp only
      by_cases hline : n ≤ b.startLine
      · rw [if_pos hline]
        exact congrArg Except.ok (if_pos hline).symm
      · rw [if_neg hline, column_byteSize, ok_bind, entry_toList (h i hi), ok_bind]
        exact congrArg Except.ok (if_neg hline).symm

theorem closeBlocks_eq (lines : List Text) (indent n : Nat) (closes : Bool) (last : Nat)
    {o : Outline} {blocks : List Outline.Block} (h : Outline.Covers o blocks) :
    closeBlocks lines indent n closes last o blocks
      = .ok (Outline.closeBlocks indent (if closes then some (endOf lines n) else none)
          (endOf lines last) o blocks) := by
  induction blocks generalizing o with
  | nil => rfl
  | cons b rest ih =>
      have hend := fun last => endBlock_eq lines (fun i hi => h.head hi) last
      have hrest := ih (h.tail.endBlock b (endOf lines last))
      rw [closeBlocks]
      unfold Outline.closeBlocks
      by_cases hlow : b.indent < indent
      · simp only [if_pos hlow]
      · simp only [if_neg hlow]
        cases closes with
        | false => simp [hend, hrest]
        | true => by_cases hindent : b.indent = indent <;> simp [hindent, hend, hrest]

/-! ### Lines -/

namespace State

variable {lines : List Text} {s : State} {n : Nat} {line raw : Text}

/-- The state with the end of the last line in place of its number. -/
def placed (lines : List Text) (s : State) : Outline.State :=
  ⟨s.outline, s.blocks, endOf lines s.last⟩

/-- The kind of the declaration around what comes next. -/
def outerKind (s : State) : Option SymbolKind :=
  ((s.blocks.findSome? (·.declaration)).bind (s.outline.declarations[·]?)).map (·.kind)

theorem kindOf?_eq (h : Outline.Covers s.outline s.blocks) :
    kindOf? s.outline (s.blocks.findSome? (·.declaration)) = .ok s.outerKind := by
  rw [outerKind]
  cases hparent : s.blocks.findSome? (·.declaration) with
  | none => rfl
  | some i =>
      have hi : i < s.outline.declarations.size := by
        obtain ⟨b, hb, hdeclaration⟩ := List.exists_of_findSome?_eq_some hparent
        exact h i (List.mem_filterMap.2 ⟨b, hb, hdeclaration⟩)
      rw [kindOf?, entry_toList hi, Option.bind_some, Array.getElem?_eq_getElem hi]
      rfl

theorem rangeOn_line (n : Nat) (line : Text) :
    rangeOn n line (line.bytesTo line.indentation.length) (byteSize line)
      = .ok (Outline.rangeOn n line line.indentation.length line.length) := by
  rw [← Text.bytesTo_length, rangeOn_bytesTo]

theorem rangeOn_word {start : Nat} {word : Text} (h : Text.IsWordAt line start word) (n : Nat) :
    rangeOn n line (line.bytesTo start) (line.bytesTo start + byteSize word)
      = .ok (Outline.rangeOn n line start (start + word.length)) := by
  rw [← Text.bytesTo_add_of_isPrefix h.isPrefix, rangeOn_bytesTo]

theorem implementations_eq (n : Nat) {supers : List (Nat × Text)}
    (h : ∀ entry ∈ supers, Text.IsWordAt line entry.1 entry.2) (declarations : Array Declaration)
    (d : Declaration) (others : Array Implementation) :
    implementations n line ⟨declarations.push d, others⟩ declarations.size
        (supers.map (atBytes line))
      = .ok (supers.map fun (i, target) =>
          ⟨target, d.range, Outline.rangeOn n line i (i + target.length)⟩) := by
  have hlast : entry (declarations.push d).toList declarations.size = .ok d := by
    rw [entry_toList (by simp), Array.getElem_push_eq]
  rw [implementations, List.mapM_map]
  refine mapM_eq_ok fun entry hentry => ?_
  have hselection := rangeOn_word (h entry hentry) n
  simp only [Function.comp_apply, atBytes, hlast, ok_bind, hselection]

theorem supersOf_eq {start : Nat} {name : Text} (h : Text.IsWordAt (Line.code line) start name)
    (kind : SymbolKind) :
    supersOf kind line (line.bytesTo start + byteSize name)
      = .ok ((if kind.isType then Line.supertypes line (start + name.length) else []).map
          (atBytes line)) := by
  unfold supersOf
  split
  · have hprefix := (h.of_isPrefix (Line.code_isPrefix line)).isPrefix
    rw [← Text.bytesTo_add_of_isPrefix hprefix, supertypes_eq h.le_length]
  · rfl

theorem isWordAt_of_mem_supersOf (line : Text) (k : Nat) (kind : SymbolKind) :
    ∀ entry ∈ (if kind.isType then Line.supertypes line k else []),
      Text.IsWordAt line entry.1 entry.2 := by
  split
  · exact fun _ => Line.isWordAt_of_mem_supertypes
  · exact nofun

theorem exists_declare (lines : List Text) (s : State) (n : Nat) {found : Line.Found}
    (hfound : Line.declaration? line = some found) :
    ∃ s' : State, s.declare n line s.outerKind (found.atBytes line) = .ok s' ∧
      s'.placed lines = (s.placed lines).declare n line found := by
  cases found with
  | named keyword name start =>
      have hcode : Text.IsWordAt (Line.code line) start name := Line.standsOn_code hfound
      have hword : Text.IsWordAt line start name := Line.standsOn_of_declaration? hfound
      rw [Line.Found.atBytes, declare, Outline.State.declare]
      by_cases hskip : (s.isInCode && Line.keywordKind? keyword != some .function) = true
      · exact ⟨s, if_pos hskip, (if_pos hskip).symm⟩
      · rw [if_neg hskip]
        dsimp only
        rw [indentSize_eq, ok_bind, rangeOn_line, ok_bind, rangeOn_word hword, ok_bind,
          supersOf_eq hcode, ok_bind, implementations_eq n (isWordAt_of_mem_supersOf _ _ _),
          ok_bind]
        exact ⟨_, rfl, (if_neg hskip).symm⟩
  | implementation label target start interface =>
      have hword : Text.IsWordAt line start target := Line.standsOn_of_declaration? hfound
      rw [Line.Found.atBytes, declare, Outline.State.declare]
      by_cases hskip : s.isInCode = true
      · exact ⟨s, if_pos hskip, (if_pos hskip).symm⟩
      · rw [if_neg hskip, indentSize_eq, ok_bind, rangeOn_line, ok_bind, rangeOn_word hword,
          ok_bind]
        exact ⟨_, rfl, (if_neg hskip).symm⟩

theorem endOf_eq (h : lines[n]? = some raw) : endOf lines n = ⟨n, raw.dropReturns.units⟩ := by
  rw [endOf, h]
  rfl

theorem exists_readLine (hraw : lines[n]? = some raw) (h : Outline.Covers s.outline s.blocks) :
    ∃ s' : State, s.readLine lines n raw = .ok s' ∧
      s'.placed lines = (s.placed lines).readLine n raw := by
  have hend := endOf_eq hraw
  unfold readLine Outline.State.readLine
  dsimp only
  rw [← hend]
  generalize raw.dropReturns = line at *
  cases htrimmed : line.trimStart with
  | nil => exact ⟨s, rfl, rfl⟩
  | cons c rest =>
      have hclosed := h.closeBlocks (Outline.indentWidth line)
      dsimp only
      rw [closeBlocks_eq lines _ n _ s.last h, ok_bind]
      simp only [placed]
      cases hcloses : (decide (c = '}') || decide (c = ')') || decide (c = ']')) with
      | true => exact ⟨_, rfl, rfl⟩
      | false =>
          have hcovers := hclosed none (endOf lines s.last)
          simp only [Bool.false_eq_true, if_false]
          generalize Outline.closeBlocks (Outline.indentWidth line) none (endOf lines s.last)
            s.outline s.blocks = closed at *
          obtain ⟨outline, blocks⟩ := closed
          have hkind := kindOf?_eq (s := ⟨outline, blocks, n⟩) hcovers
          simp only at hkind ⊢
          rw [hkind, ok_bind, declaration?_eq, ok_bind]
          cases hfound : Line.declaration? line with
          | some found => exact exists_declare lines ⟨outline, blocks, n⟩ n hfound
          | none =>
              simp only [Option.map_none, opensBlock_eq, ok_bind, isInCode]
              cases (blocks.head?.map (·.isCode)).getD false with
              | true => exact ⟨_, rfl, rfl⟩
              | false => cases Line.opensBlock (c :: rest) <;> exact ⟨_, rfl, rfl⟩

theorem exists_readLines (before rest : List Text) (hlines : lines = before ++ rest)
    (h : Outline.Covers s.outline s.blocks) :
    ∃ s' : State, s.readLines lines before.length rest = .ok s' ∧
      s'.placed lines = (s.placed lines).readLines before.length rest ∧
      Outline.Covers s'.outline s'.blocks := by
  induction rest generalizing before s with
  | nil => exact ⟨s, rfl, rfl, h⟩
  | cons raw rest ih =>
      have hraw : lines[before.length]? = some raw := by
        rw [hlines, List.getElem?_append_right (Nat.le_refl _), Nat.sub_self]
        rfl
      obtain ⟨s', hread, hplaced⟩ := exists_readLine hraw h
      have hcovers : Outline.Covers (s'.placed lines).outline (s'.placed lines).blocks := by
        rw [hplaced]
        exact Outline.Covers.readLine (s := s.placed lines) h _ _
      obtain ⟨s'', hrest, hplaced', hcovers'⟩ :=
        @ih s' (before ++ [raw]) (by simp [hlines]) hcovers
      rw [List.length_append, List.length_singleton] at hrest hplaced'
      refine ⟨s'', ?_, ?_, hcovers'⟩
      · rw [readLines, hread, ok_bind, hrest]
      · rw [hplaced', hplaced]
        rfl

end State

/-! ### Texts -/

/-- The outline when all open blocks end. -/
def ended (s : Outline.State) : Outline :=
  s.blocks.foldl (fun o b => Outline.endBlock o b s.lastEnd) s.outline

/-- Before the first line that is not blank, it does not matter where the last one ended. -/
theorem ended_readLines (o : Outline) (p q : Position) (n : Nat) (lines : List Text) :
    ended (Outline.State.readLines ⟨o, [], p⟩ n lines)
      = ended (Outline.State.readLines ⟨o, [], q⟩ n lines) := by
  induction lines generalizing n with
  | nil => rfl
  | cons raw rest ih =>
      have hread : ∀ p, Outline.State.readLine ⟨o, [], p⟩ n raw
          = if raw.dropReturns.trimStart = [] then ⟨o, [], p⟩
            else Outline.State.readLine ⟨o, [], .origin⟩ n raw := by
        intro p
        unfold Outline.State.readLine
        dsimp only
        cases raw.dropReturns.trimStart with
        | nil => rfl
        | cons c rest => rfl
      rw [Outline.State.readLines, Outline.State.readLines, hread p, hread q]
      split
      · exact ih (n + 1)
      · rfl

theorem foldlM_endBlock (lines : List Text) (last : Nat) {o : Outline} {blocks : List Outline.Block}
    (h : Outline.Covers o blocks) :
    blocks.foldlM (fun o b => endBlock lines o b last) o
      = .ok (blocks.foldl (fun o b => Outline.endBlock o b (endOf lines last)) o) := by
  induction blocks generalizing o with
  | nil => rfl
  | cons b rest ih =>
      rw [List.foldlM_cons, endBlock_eq lines fun i hi => h.head hi, ok_bind]
      exact ih (h.tail.endBlock b _)

/-- Reading a text never breaks off, and gives its outline. -/
theorem scan_eq (t : Text) : scan t = .ok (Outline.scan t) := by
  obtain ⟨s, hread, hplaced, hcovers⟩ := @State.exists_readLines t.lines ⟨⟨#[], #[]⟩, [], 0⟩ []
    t.lines rfl (by simp [Outline.Covers, Outline.opened])
  rw [List.length_nil] at hread hplaced
  rw [scan, hread, ok_bind, foldlM_endBlock t.lines s.last hcovers]
  change Except.ok (ended (s.placed t.lines)) = .ok (ended _)
  rw [hplaced]
  exact congrArg Except.ok (ended_readLines ⟨#[], #[]⟩ _ .origin 0 t.lines)

theorem container?_eq {o : Outline} {d : Declaration}
    (h : ∀ p, d.parent = some p → p < o.declarations.size) :
    container? o d = .ok (o.container? d) := by
  cases hparent : d.parent with
  | none => simp [container?, Outline.container?, hparent]
  | some p =>
      have hp := h p hparent
      simp [container?, Outline.container?, hparent, hp, entry_toList hp]

end Sliced

end LanguageServer
