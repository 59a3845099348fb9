import LanguageServer.Proofs.Outline.Nesting
import LanguageServer.Proofs.Outline.Origins

/-!
# The outline is a forest

Reading a line takes blocks off that it closes, and then adds what it declares; both keep the
declarations nested (`Nested.readLine`), so they are when a text has been read. `isForest_scan` says
what that means for the outline of any text and for its tree.
-/

namespace LanguageServer

namespace Text

theorem units_take_le (t : Text) {i j : Nat} (h : i ≤ j) : units (t.take i) ≤ units (t.take j) :=
  width_le_of_isPrefix unitsOf (List.take_prefix_take_left h)

end Text

namespace Outline

variable {o : Outline} {blocks : List Block} {s : State} {n : Nat} {line : Text}

/-! ### Declarations of a line -/

/-- A word of a line lies in the range from its indentation to its end. -/
theorem encloses_rangeOn {start : Nat} {word : Text} (h : Text.IsWordAt line start word) (n : Nat) :
    (rangeOn n line line.indentation.length line.length).Encloses
      (rangeOn n line start (start + word.length)) := by
  have hlow := Text.units_take_le line h.indentation_le
  have hword := Text.units_take_le line (Nat.le_add_right start word.length)
  have hhigh := Text.units_take_le line h.le_length
  constructor
  · refine Range.contains_iff.2 ⟨Position.le_iff.2 (.inr ⟨rfl, hlow⟩), Position.le_iff.2 ?_⟩
    exact .inr ⟨rfl, hword.trans hhigh⟩
  · refine Range.contains_iff.2 ⟨Position.le_iff.2 ?_, Position.le_iff.2 (.inr ⟨rfl, hhigh⟩)⟩
    exact .inr ⟨rfl, hlow.trans hword⟩

/-! ### Reading lines -/

theorem Nests.closeBlocks {lastEnd : Position} (h : Nests o blocks lastEnd) (indent : Nat)
    (closing : Option Position) (hclosing : ∀ stop ∈ closing, lastEnd.le stop = true) :
    Nests (closeBlocks indent closing lastEnd o blocks).1
      (closeBlocks indent closing lastEnd o blocks).2 (closing.getD lastEnd) := by
  have hlater : lastEnd.le (closing.getD lastEnd) = true := by
    cases closing with
    | none => exact Position.le_refl lastEnd
    | some stop => exact hclosing stop rfl
  induction blocks generalizing o with
  | nil => exact h.mono hlater
  | cons b rest ih =>
      unfold Outline.closeBlocks
      split
      · exact h.mono hlater
      · split
        · split
          · exact (h.mono hlater).pop
          · exact ih h.pop
        · exact ih h.pop

/-- The state before line `n` is read. -/
structure Nested (s : State) (n : Nat) : Prop where
  nests : Nests s.outline s.blocks s.lastEnd
  before : s.lastEnd.line < n ∨ s = ⟨⟨#[], #[]⟩, [], .origin⟩

theorem nested_origin : Nested ⟨⟨#[], #[]⟩, [], .origin⟩ 0 := by
  refine ⟨?_, .inr rfl⟩
  constructor <;> simp [opened, IsPreorder, parents, IsPreorderFrom]

theorem nests_declare {closed : Position} (h : Nests s.outline s.blocks closed)
    (hclosed : closed.le s.lastEnd = true) (hend : s.lastEnd = ⟨n, Text.units line⟩)
    (hbefore : ∀ {i : Nat} {e : Declaration}, s.outline.declarations[i]? = some e →
      e.range.stop.line < n)
    {found : Line.Found} (hfound : found.StandsOn line) :
    Nests (s.declare n line found).outline (s.declare n line found).blocks s.lastEnd ∧
      (s.declare n line found).lastEnd = s.lastEnd := by
  rcases declare_cases s n line found with hsame | ⟨d, implementations, blocks, hdeclare, hparent,
    hrange, hselection, hblocks, -⟩
  · rw [hsame]
    exact ⟨h.mono hclosed, rfl⟩
  · rw [hdeclare]
    refine ⟨h.push ?_ ?_ hclosed ?_ ?_ ?_ implementations, rfl⟩
    · rw [hparent, opened, List.head?_filterMap]
    · rw [hrange, hselection]
      exact encloses_rangeOn hfound n
    · rw [hrange, hend, rangeOn, List.take_length]
      exact Position.le_refl _
    · rw [hrange]
      exact hbefore
    · rcases hblocks with rfl | ⟨indent, isCode, rfl⟩
      · exact ⟨.inl rfl, fun b hb => .inl hb⟩
      · refine ⟨.inr rfl, fun b hb => ?_⟩
        rcases List.mem_cons.1 hb with rfl | hb
        · exact .inr ⟨rfl, by rw [hrange]; rfl⟩
        · exact .inl hb

/-- What a line without a closing bracket leaves of the declarations ends before the line. -/
theorem Nested.stop_line_lt (h : Nested s n) (indent : Nat) (i : Nat) (d : Declaration)
    (hd : (closeBlocks indent none s.lastEnd s.outline s.blocks).1.declarations[i]? = some d) :
    d.range.stop.line < n := by
  have hclosed := h.nests.closeBlocks indent none nofun
  rcases h.before with hline | rfl
  · exact Nat.lt_of_le_of_lt (Position.line_le_of_le (hclosed.bounded hd)) hline
  · simp [closeBlocks] at hd

theorem Nested.readLine (h : Nested s n) (raw : Text) : Nested (s.readLine n raw) (n + 1) := by
  unfold State.readLine
  dsimp only
  split
  · exact ⟨h.nests, h.before.imp_left Nat.lt_succ_of_lt⟩
  · next c rest htrimmed =>
      generalize Text.dropReturns raw = line at *
      have hlater : s.lastEnd.le ⟨n, Text.units line⟩ = true := by
        rcases h.before with hline | rfl
        · exact Position.le_iff.2 (.inl hline)
        · exact Position.le_iff.2 (by simp [Position.origin]; omega)
      cases hcloses : (decide (c = '}') || decide (c = ')') || decide (c = ']')) with
      | true =>
          have hclosed := h.nests.closeBlocks (indentWidth line)
            (some ⟨n, Text.units line⟩) (by rintro _ ⟨⟩; exact hlater)
          exact ⟨hclosed, .inl (Nat.lt_succ_self n)⟩
      | false =>
          have hclosed := h.nests.closeBlocks (indentWidth line) none nofun
          have hbefore := h.stop_line_lt (indentWidth line)
          simp only [Bool.false_eq_true, if_false, Option.getD_none] at hclosed ⊢
          generalize closeBlocks (indentWidth line) none s.lastEnd s.outline s.blocks = closed at *
          obtain ⟨outline, blocks⟩ := closed
          split
          · next found hfound =>
              obtain ⟨hnests, hend⟩ := nests_declare (s := ⟨outline, blocks, ⟨n, Text.units line⟩⟩)
                hclosed hlater rfl (hbefore _ _) (Line.standsOn_of_declaration? hfound)
              exact ⟨hend ▸ hnests, .inl (hend ▸ Nat.lt_succ_self n)⟩
          · split
            · refine ⟨(hclosed.mono hlater).of_opened_eq (List.filterMap_cons_none rfl) ?_,
                .inl (Nat.lt_succ_self n)⟩
              exact List.forall_mem_cons.2 ⟨.inl rfl, fun b hb => .inr hb⟩
            · exact ⟨hclosed.mono hlater, .inl (Nat.lt_succ_self n)⟩

theorem nested_readLines (h : Nested s n) (lines : List Text) :
    Nested (s.readLines n lines) (n + lines.length) := by
  induction lines generalizing s n with
  | nil => exact h
  | cons line rest ih =>
      have hrest := ih (h.readLine line)
      rwa [Nat.add_assoc, Nat.add_comm 1] at hrest

/-! ### The forest -/

/-- The declarations of an outline are a forest: every one comes behind the one around it and has
its name in its range, they start on one line after another, a range encloses those below it, and
declarations next to each other end and start on different lines. The tree has every declaration
below the one around it, and is the list of declarations when read in preorder. -/
structure IsForest (o : Outline) : Prop where
  behind : ∀ {i p : Nat} {d : Declaration}, o.declarations[i]? = some d → d.parent = some p → p < i
  selection : ∀ {i : Nat} {d : Declaration}, o.declarations[i]? = some d →
    d.range.Encloses d.selection
  ascending : ∀ {i j : Nat} {d e : Declaration}, i < j → o.declarations[i]? = some d →
    o.declarations[j]? = some e → d.range.start.line < e.range.start.line
  within : ∀ {i p : Nat} {d e : Declaration}, o.declarations[i]? = some d → d.parent = some p →
    o.declarations[p]? = some e → e.range.Encloses d.range
  apart : ∀ {i j : Nat} {d e : Declaration}, i < j → o.declarations[i]? = some d →
    o.declarations[j]? = some e → d.parent = e.parent → d.range.stop.line < e.range.start.line
  children : ∀ parent, o.childrenOf parent =
    ((indexedFrom 0 o.declarations.toList).filter (·.2.parent = parent)).map fun (i, d) =>
      d.node (o.childrenOf (some i))
  preorder : SymbolNode.preorderAll o.tree = o.declarations.toList.map (·.node [])

theorem Nests.isForest {stop : Position} (h : Nests o [] stop) : o.IsForest where
  behind := h.behind
  selection := h.selection
  ascending := h.ascending
  within := by
    intro i p d e hd hp he
    have hstop := h.within hd hp he List.not_mem_nil
    have hline := h.ascending (h.behind hd hp) he hd
    have hstart : e.range.start.le d.range.start = true := Position.le_iff.2 (.inl hline)
    have hrange := (h.selection hd).start_le_stop
    constructor
    · exact Range.contains_iff.2 ⟨hstart, Position.le_trans hrange hstop⟩
    · exact Range.contains_iff.2 ⟨Position.le_trans hstart hrange, hstop⟩
  apart := fun hij hd he hsame => (h.apart hij hd he hsame).2
  children := childrenOf_eq_map fun i d hd p hp => h.behind hd hp
  preorder := preorderAll_tree h.preorder

theorem Nests.endBlocks {stop : Position} (h : Nests o blocks stop) :
    Nests (blocks.foldl (fun o b => endBlock o b stop) o) [] stop := by
  induction blocks generalizing o with
  | nil => exact h
  | cons b rest ih => exact ih h.pop

/-- The outline of every text is a forest. -/
theorem isForest_scan (t : Text) : (scan t).IsForest :=
  (nested_readLines nested_origin t.lines).nests.endBlocks.isForest

end Outline

end LanguageServer
