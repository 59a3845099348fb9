import LanguageServer.Proofs.Query.Reformatting
import LanguageServer.Proofs.Query.Renaming

/-!
# Making a quick fix

A fix cuts a line in three and writes something else in the middle (`Mend`), unless the middle is
empty. The carriage returns at the end of the line are always in the last part, and the cuts never
come right behind one, so positions lead back to them. With all lines in a row the edits of a fix
are those of the pieces of the text (`editsFrom_pieces`); making them mends the lines of the range
(`lines_applyEdits`), and a mended line has nothing that the fix applies to (`appliesTo_mended`).
-/

namespace LanguageServer

open Text (Piece editsFrom CleanFrom)

/-- Whether line `n` is one of those that a range touches. -/
def Range.HasLine (range : Range) (n : Nat) : Prop :=
  range.start.line ≤ n ∧ n ≤ range.stop.line

instance (range : Range) (n : Nat) : Decidable (range.HasLine n) :=
  inferInstanceAs (Decidable (_ ∧ _))

namespace BlankFix

/-- What may become of a line: blanks that only carriage returns follow go away, or some tabs that
it starts with become four spaces each. -/
inductive Mends : BlankFix → Text → Text → Prop
  | trailing (kept : Text) {blanks returns : Text} (hblanks : ∀ c ∈ blanks, isSpace c = true)
      (hreturns : ∀ c ∈ returns, c = '\r') :
      Mends .removeTrailing (kept ++ blanks ++ returns) (kept ++ returns)
  | tabs (n : Nat) (rest : Text) :
      Mends .convertTabs (List.replicate n '\t' ++ rest) (List.replicate (n * 4) ' ' ++ rest)

/-! ### One line -/

/-- A line cut in three, and what is to stand in the middle. -/
structure Mend where
  front : Text
  old : Text
  new : Text
  back : Text

/-- Where a fix cuts a line. -/
def mend (fix : BlankFix) (line : Text) : Mend :=
  let content := line.dropReturns
  let returns := line.takeEndWhile (· == '\r')
  match fix with
  | removeTrailing => ⟨content.trimEnd, content.takeEndWhile isSpace, [], returns⟩
  | convertTabs =>
    let tabs := content.takeWhile (· == '\t')
    ⟨[], tabs, List.replicate (tabs.length * 4) ' ', content.dropWhile (· == '\t') ++ returns⟩

def mended (fix : BlankFix) (line : Text) : Text :=
  (fix.mend line).front ++ (fix.mend line).new ++ (fix.mend line).back

section Line

variable (fix : BlankFix) (line : Text)

theorem dropReturns_append_returns :
    line.dropReturns ++ line.takeEndWhile (· == '\r') = line :=
  Text.dropEndWhile_append_takeEndWhile _ _

theorem trimEnd_append_blanks (t : Text) : t.trimEnd ++ t.takeEndWhile isSpace = t :=
  Text.dropEndWhile_append_takeEndWhile _ _

theorem trimEnd_eq_self_iff (t : Text) : t.trimEnd = t ↔ t.takeEndWhile isSpace = [] := by
  have hwhole := trimEnd_append_blanks t
  constructor
  · intro h
    rw [h] at hwhole
    exact List.append_right_eq_self.1 hwhole
  · intro h
    rwa [h, List.append_nil] at hwhole

theorem takeWhile_tab (t : Text) :
    t.takeWhile (· == '\t') = List.replicate (t.takeWhile (· == '\t')).length '\t' :=
  List.eq_replicate_of_mem fun _ hc => eq_of_beq (List.mem_takeWhile_imp (p := (· == '\t')) hc)

theorem mend_whole :
    (fix.mend line).front ++ (fix.mend line).old ++ (fix.mend line).back = line := by
  cases fix with
  | removeTrailing => simp only [mend, trimEnd_append_blanks, dropReturns_append_returns]
  | convertTabs =>
      simp only [mend, List.nil_append, ← List.append_assoc, List.takeWhile_append_dropWhile,
        dropReturns_append_returns]

theorem new_eq_nil (h : (fix.mend line).old = []) : (fix.mend line).new = [] := by
  cases fix with
  | removeTrailing => rfl
  | convertTabs =>
      simp only [mend] at h ⊢
      rw [h]
      rfl

theorem edit?_eq_mend (n : Nat) :
    fix.edit? n line.dropReturns
      = if (fix.mend line).old = [] then none
        else some ⟨.onLine n (fix.mend line).front.units
          ((fix.mend line).front ++ (fix.mend line).old).units, (fix.mend line).new⟩ := by
  cases fix with
  | removeTrailing =>
      simp only [edit?, mend, trimEnd_eq_self_iff, trimEnd_append_blanks]
  | convertTabs =>
      have hunits (t : Text) : (t.takeWhile (· == '\t')).length
          = Text.units (t.takeWhile (· == '\t')) := by
        conv_rhs => rw [takeWhile_tab, Text.units, Text.width_replicate]
        exact (Nat.mul_one _).symm
      simp only [edit?, mend, List.length_eq_zero_iff, List.nil_append, ← hunits, Text.units_nil]

theorem appliesTo_iff : fix.appliesTo line.dropReturns = true ↔ (fix.mend line).old ≠ [] := by
  cases fix with
  | removeTrailing => rw [appliesTo, bne_iff_ne, ne_eq, trimEnd_eq_self_iff]; rfl
  | convertTabs =>
      simp only [appliesTo, mend, beq_iff_eq]
      cases line.dropReturns with
      | nil => simp
      | cons c t =>
          rw [List.takeWhile_cons]
          by_cases hc : c = '\t' <;> simp [hc]

/-- Where a line is cut, no carriage return stands. -/
theorem getLast?_front_ne : (fix.mend line).front.getLast? ≠ some '\r' := by
  cases fix with
  | removeTrailing =>
      intro h
      exact absurd (Text.getLast?_dropEndWhile (p := isSpace) h) (by decide)
  | convertTabs => exact nofun

theorem getLast?_old_ne : ((fix.mend line).front ++ (fix.mend line).old).getLast? ≠ some '\r' := by
  cases fix with
  | removeTrailing =>
      intro h
      simp only [mend, trimEnd_append_blanks] at h
      exact absurd (Text.getLast?_dropEndWhile h) (by decide)
  | convertTabs =>
      intro h
      simp only [mend, List.nil_append] at h
      exact absurd (List.mem_takeWhile_imp (List.mem_of_getLast? h)) (by decide)

theorem eq_of_mem_returns {c : Char} (h : c ∈ line.takeEndWhile (· == '\r')) : c = '\r' :=
  eq_of_beq (Text.of_mem_takeEndWhile (p := (· == '\r')) h)

theorem mends_mended : fix.Mends line (fix.mended line) := by
  have hreturns : ∀ c ∈ line.takeEndWhile (· == '\r'), c = '\r' := fun _ => eq_of_mem_returns line
  cases fix with
  | removeTrailing =>
      have hblanks : ∀ c ∈ line.dropReturns.takeEndWhile isSpace, isSpace c = true :=
        fun _ => Text.of_mem_takeEndWhile
      have hmends := Mends.trailing line.dropReturns.trimEnd hblanks hreturns
      rw [trimEnd_append_blanks, dropReturns_append_returns] at hmends
      rwa [mended, mend, List.append_nil]
  | convertTabs =>
      have hmends := Mends.tabs (line.dropReturns.takeWhile (· == '\t')).length
        (line.dropReturns.dropWhile (· == '\t') ++ line.takeEndWhile (· == '\r'))
      rwa [← takeWhile_tab, ← List.append_assoc, List.takeWhile_append_dropWhile,
        dropReturns_append_returns] at hmends

theorem appliesTo_mended : fix.appliesTo (fix.mended line).dropReturns = false := by
  cases fix with
  | removeTrailing =>
      have hlast : ∀ c, line.dropReturns.trimEnd.getLast? = some c → isSpace c = false :=
        fun _ => Text.getLast?_dropEndWhile
      have hdrop : (removeTrailing.mended line).dropReturns = line.dropReturns.trimEnd := by
        rw [mended, mend, List.append_nil]
        refine Text.dropEndWhile_append_of_forall (fun c hc => ?_) fun c hc => ?_
        · have hspace := hlast c hc
          simpa using fun h : c = '\r' => absurd (h ▸ hspace) (by decide)
        · simpa using eq_of_mem_returns line hc
      have htrim : line.dropReturns.trimEnd.trimEnd = line.dropReturns.trimEnd :=
        List.rdropWhile_idempotent _ _
      rw [hdrop, appliesTo, htrim, bne_self_eq_false]
  | convertTabs =>
      have hhead : (convertTabs.mended line).head? ≠ some '\t' := by
        simp only [mended, mend, List.nil_append, List.head?_append, ne_eq, Option.or_eq_some_iff]
        rintro (hspaces | ⟨-, hrest | ⟨-, hreturns⟩⟩)
        · exact absurd (List.eq_of_mem_replicate (List.mem_of_head? hspaces)) (by decide)
        · exact absurd (Text.head?_dropWhile hrest) (by decide)
        · exact absurd (eq_of_mem_returns line (List.mem_of_head? hreturns)) (by decide)
      obtain ⟨rest, hrest⟩ : (convertTabs.mended line).dropReturns <+: convertTabs.mended line :=
        List.rdropWhile_prefix _ _
      rw [appliesTo, beq_eq_false_iff_ne]
      intro htab
      rw [← hrest, List.head?_append, htab] at hhead
      exact hhead rfl

end Line

theorem Mends.newline_not_mem {fix : BlankFix} {line new : Text} (h : fix.Mends line new)
    (hline : '\n' ∉ line) : '\n' ∉ new := by
  cases h with
  | trailing kept hblanks hreturns =>
      simp only [List.mem_append, not_or] at hline ⊢
      exact ⟨hline.1.1, hline.2⟩
  | tabs n rest =>
      simp only [List.mem_append, not_or, List.mem_replicate] at hline ⊢
      exact ⟨by simp, hline.2⟩

/-! ### All lines -/

section Lines

variable (fix : BlankFix) (range : Range)

/-- The edit of line `n` if the range has that line. -/
def editAt? (n : Nat) (line : Text) : Option TextEdit :=
  if range.HasLine n then fix.edit? n line.dropReturns else none

/-- What line `n` becomes. -/
def mendedAt (n : Nat) (line : Text) : Text :=
  if range.HasLine n then fix.mended line else line

/-- The pieces of line `n`, one of which is replaced if there is an edit. -/
def linePieces (n : Nat) (line : Text) : List Piece :=
  if range.HasLine n ∧ (fix.mend line).old ≠ [] then
    [.keep (fix.mend line).front, .replace (fix.mend line).old (fix.mend line).new,
      .keep (fix.mend line).back]
  else [.keep line]

/-- The pieces of some lines with the line breaks between them; the first one is line `n`. -/
def pieces (n : Nat) : List Text → List Piece
  | [] => []
  | [line] => fix.linePieces range n line
  | line :: next :: rest =>
    fix.linePieces range n line ++ .keep ['\n'] :: pieces (n + 1) (next :: rest)

theorem flatMap_old_linePieces (n : Nat) (line : Text) :
    (fix.linePieces range n line).flatMap Piece.old = line := by
  rw [linePieces]
  split
  · simpa [Piece.old] using fix.mend_whole line
  · exact List.append_nil line

theorem flatMap_new_linePieces (n : Nat) (line : Text) :
    (fix.linePieces range n line).flatMap Piece.new = fix.mendedAt range n line := by
  rw [linePieces, mendedAt]
  split
  · next h => simp [Piece.new, if_pos h.1, mended]
  · next h =>
      split
      · next hrange =>
          have hold : (fix.mend line).old = [] := by_contra fun hne => h ⟨hrange, hne⟩
          have hwhole := fix.mend_whole line
          rw [hold] at hwhole
          rw [mended, fix.new_eq_nil line hold, hwhole]
          exact List.append_nil line
      · exact List.append_nil line

theorem flatMap_old_pieces (n : Nat) (ls : List Text) :
    (fix.pieces range n ls).flatMap Piece.old = Text.unlines ls := by
  fun_induction pieces fix range n ls with
  | case1 => rfl
  | case2 n line => rw [flatMap_old_linePieces, Text.unlines_singleton]
  | case3 n line next rest ih =>
      rw [List.flatMap_append, List.flatMap_cons, flatMap_old_linePieces, ih,
        Text.unlines_cons_cons]
      rfl

/-- The lines from number `n` on, mended where the range has them. -/
def mendedLines (n : Nat) (ls : List Text) : List Text :=
  (ls.zipIdx n).map fun entry => fix.mendedAt range entry.2 entry.1

theorem flatMap_new_pieces (n : Nat) (ls : List Text) :
    (fix.pieces range n ls).flatMap Piece.new = Text.unlines (fix.mendedLines range n ls) := by
  fun_induction pieces fix range n ls with
  | case1 => rfl
  | case2 n line => exact (fix.flatMap_new_linePieces range n line).trans (List.append_nil _).symm
  | case3 n line next rest ih =>
      rw [List.flatMap_append, List.flatMap_cons, flatMap_new_linePieces, ih]
      exact (Text.unlines_cons_cons _ _ _).symm

variable {before line : Text} {n : Nat}

/-- At the start of a line no carriage return stands in front. -/
theorem getLast?_ne_of_after (hbefore : Position.after before = ⟨n, 0⟩) :
    before.getLast? ≠ some '\r' := by
  intro h
  obtain ⟨init, rfl⟩ := List.getLast?_eq_some_iff.1 h
  rw [Position.after_append_of_not_mem init (by decide : '\n' ∉ ['\r'])] at hbefore
  have hunits := congrArg Position.character hbefore
  rw [show Text.units ['\r'] = 1 from rfl] at hunits
  cases hunits

theorem editsFrom_linePieces (hbefore : Position.after before = ⟨n, 0⟩) (hline : '\n' ∉ line)
    (more : List Piece) :
    editsFrom before (fix.linePieces range n line ++ more)
      = (fix.editAt? range n line).toList ++ editsFrom (before ++ line) more := by
  rw [linePieces, editAt?, edit?_eq_mend]
  by_cases hrange : range.HasLine n
  · by_cases hold : (fix.mend line).old = []
    · simp [hrange, hold, editsFrom]
    · have hcut (t : Text) (ht : '\n' ∉ t) : Position.after (before ++ t) = ⟨n, t.units⟩ := by
        rw [Position.after_append_of_not_mem before ht, hbefore, Nat.zero_add]
      rw [if_pos ⟨hrange, hold⟩, if_pos hrange, if_neg hold]
      have hwhole := fix.mend_whole line
      generalize fix.mend line = m at hwhole
      subst hwhole
      simp only [List.mem_append, not_or] at hline
      have hfront := hcut m.front hline.1.1
      have hback := hcut (m.front ++ m.old) (by simpa using hline.1)
      simp only [List.cons_append, List.nil_append, editsFrom, Option.toList_some, hfront, hback,
        List.append_assoc, Range.onLine]
  · simp [hrange, editsFrom]

theorem cleanFrom_linePieces (hbefore : Position.after before = ⟨n, 0⟩) {more : List Piece}
    (hmore : CleanFrom (before ++ line) more) :
    CleanFrom before (fix.linePieces range n line ++ more) := by
  have hclean {t : Text} (ht : t.getLast? ≠ some '\r') (after : Text) :
      Text.CleanCut (before ++ t) after := by
    refine Text.cleanCut_of_getLast?_ne (fun h => ?_) after
    rw [List.getLast?_append, Option.or_eq_some_iff] at h
    exact h.elim ht fun h => getLast?_ne_of_after hbefore h.2
  rw [linePieces]
  split
  · have hback := hclean (fix.getLast?_old_ne line)
    rw [← fix.mend_whole line] at hmore
    simp only [← List.append_assoc] at hback hmore
    exact ⟨hclean (fix.getLast?_front_ne line) _, hback _, hmore⟩
  · exact hmore

/-- Behind a line and its line break the next line starts. -/
theorem after_line (hbefore : Position.after before = ⟨n, 0⟩) (hline : '\n' ∉ line) :
    Position.after (before ++ line ++ ['\n']) = ⟨n + 1, 0⟩ := by
  have hcount := congrArg Position.line hbefore
  change before.count '\n' = n at hcount
  rw [Text.after_append_cons _ List.not_mem_nil, List.count_append, hcount,
    List.count_eq_zero_of_not_mem hline]
  rfl

theorem editsFrom_pieces {ls : List Text} (hbefore : Position.after before = ⟨n, 0⟩)
    (hls : ∀ l ∈ ls, '\n' ∉ l) :
    editsFrom before (fix.pieces range n ls)
      = (ls.zipIdx n).filterMap fun entry => fix.editAt? range entry.2 entry.1 := by
  fun_induction pieces fix range n ls generalizing before with
  | case1 => rfl
  | case2 n line =>
      have hedits := fix.editsFrom_linePieces range hbefore (hls line List.mem_cons_self) []
      rw [List.append_nil] at hedits
      rw [hedits, List.zipIdx_singleton, List.filterMap_cons]
      cases fix.editAt? range n line <;> rfl
  | case3 n line next rest ih =>
      obtain ⟨hline, hrest⟩ := List.forall_mem_cons.1 hls
      rw [editsFrom_linePieces fix range hbefore hline, editsFrom, List.zipIdx_cons,
        List.filterMap_cons, ih (after_line hbefore hline) hrest]
      cases fix.editAt? range n line <;> rfl

theorem cleanFrom_pieces {ls : List Text} (hbefore : Position.after before = ⟨n, 0⟩)
    (hls : ∀ l ∈ ls, '\n' ∉ l) : CleanFrom before (fix.pieces range n ls) := by
  fun_induction pieces fix range n ls generalizing before with
  | case1 => trivial
  | case2 n line =>
      have hclean : CleanFrom (before ++ line) [] := trivial
      rw [← List.append_nil (fix.linePieces range n line)]
      exact fix.cleanFrom_linePieces range hbefore hclean
  | case3 n line next rest ih =>
      obtain ⟨hline, hrest⟩ := List.forall_mem_cons.1 hls
      exact fix.cleanFrom_linePieces range hbefore (ih (after_line hbefore hline) hrest)

end Lines

/-! ### A text -/

section Texts

variable (fix : BlankFix) (t : Text) (range : Range)

theorem edits_eq :
    fix.edits t range
      = t.lines.zipIdx.filterMap fun entry => fix.editAt? range entry.2 entry.1 := by
  rw [edits, Text.selectedLines, List.filterMap_map, List.filterMap_filter]
  refine congrArg (List.filterMap · _) (funext fun entry => ?_)
  simp only [editAt?, Range.HasLine, Bool.and_eq_true, decide_eq_true_eq, Function.comp_apply]
  rfl

theorem mem_selectedLines_iff {n : Nat} {content : Text} :
    (n, content) ∈ t.selectedLines range ↔
      ∃ line, t.lines[n]? = some line ∧ range.HasLine n ∧ line.dropReturns = content := by
  simp only [Text.selectedLines, List.mem_map, List.mem_filter, Prod.exists,
    List.mem_zipIdx_iff_getElem?, Bool.and_eq_true, decide_eq_true_eq, Prod.mk.injEq]
  constructor
  · rintro ⟨line, n, ⟨hline, hrange⟩, rfl, hcontent⟩
    exact ⟨line, hline, hrange, hcontent⟩
  · rintro ⟨line, hline, hrange, hcontent⟩
    exact ⟨line, n, ⟨hline, hrange⟩, rfl, hcontent⟩

theorem mem_edits_iff {e : TextEdit} :
    e ∈ fix.edits t range ↔ ∃ n line, t.lines[n]? = some line ∧ range.HasLine n ∧
      fix.edit? n line.dropReturns = some e := by
  simp only [edits, List.mem_filterMap, Prod.exists, mem_selectedLines_iff]
  constructor
  · rintro ⟨n, -, ⟨line, hline, hrange, rfl⟩, hedit⟩
    exact ⟨n, line, hline, hrange, hedit⟩
  · rintro ⟨n, line, hline, hrange, hedit⟩
    exact ⟨n, _, ⟨line, hline, hrange, rfl⟩, hedit⟩

/-- There is an edit exactly if the fix applies to a line of the range. -/
theorem edits_ne_nil_iff :
    fix.edits t range ≠ [] ↔ ∃ n line, t.lines[n]? = some line ∧ range.HasLine n ∧
      fix.appliesTo line.dropReturns = true := by
  simp only [appliesTo_iff]
  constructor
  · intro hne
    obtain ⟨e, he⟩ := List.exists_mem_of_ne_nil _ hne
    obtain ⟨n, line, hline, hrange, hedit⟩ := (mem_edits_iff fix t range).1 he
    rw [edit?_eq_mend, Option.ite_none_left_eq_some] at hedit
    exact ⟨n, line, hline, hrange, hedit.1⟩
  · rintro ⟨n, line, hline, hrange, hold⟩
    have hedit := fix.edit?_eq_mend line n
    rw [if_neg hold] at hedit
    exact List.ne_nil_of_mem ((mem_edits_iff fix t range).2 ⟨n, line, hline, hrange, hedit⟩)

theorem onLine_of_edit? {n : Nat} {line : Text} {e : TextEdit}
    (h : fix.edit? n line.dropReturns = some e) :
    e.range.start.line = n ∧ e.range.stop.line = n := by
  rw [edit?_eq_mend, Option.ite_none_left_eq_some] at h
  obtain ⟨-, rfl⟩ := (Option.some.injEq _ _ ▸ h)
  exact ⟨rfl, rfl⟩

/-- The edits are in the order of their lines. -/
theorem pairwise_edits :
    (fix.edits t range).Pairwise fun a b => a.range.start.line < b.range.start.line := by
  rw [edits_eq, List.pairwise_filterMap]
  refine (Text.pairwise_zipIdx t.lines 0).imp fun {a b} hlt e he e' he' => ?_
  simp only [editAt?, Option.ite_none_right_eq_some] at he he'
  rw [(fix.onLine_of_edit? he.2).1, (fix.onLine_of_edit? he'.2).1]
  exact hlt

theorem getElem?_mendedLines (n : Nat) (ls : List Text) :
    (fix.mendedLines range 0 ls)[n]? = (ls[n]?).map (fix.mendedAt range n) := by
  rw [mendedLines, List.getElem?_map, List.getElem?_zipIdx, Option.map_map, Nat.zero_add]
  rfl

/-- Making the edits mends the lines of the range. -/
theorem lines_applyEdits :
    (t.applyEdits (fix.edits t range)).lines = fix.mendedLines range 0 t.lines := by
  have hnone : ∀ l ∈ t.lines, '\n' ∉ l := fun l hl => Text.not_mem_of_mem_lines hl
  have hstart : Position.after [] = ⟨0, 0⟩ := rfl
  have hmade := Text.applyEdits_editsFrom (fix.cleanFrom_pieces range hstart hnone)
  rw [flatMap_old_pieces, flatMap_new_pieces, editsFrom_pieces fix range hstart hnone,
    ← edits_eq, Text.unlines_lines] at hmade
  rw [hmade]
  refine Text.lines_unlines ?_ fun l hl => ?_
  · rw [← List.length_pos_iff, mendedLines, List.length_map, List.length_zipIdx,
      List.length_pos_iff]
    exact Text.lines_ne_nil t
  · obtain ⟨⟨line, n⟩, hentry, rfl⟩ := List.mem_map.1 hl
    have hline := hnone line (List.fst_mem_of_mem_zipIdx hentry)
    dsimp only [mendedAt]
    split
    · exact (fix.mends_mended line).newline_not_mem hline
    · exact hline

theorem title_injective {a b : BlankFix} (h : a.title = b.title) : a = b := by
  cases a with
  | removeTrailing =>
      cases b with
      | removeTrailing => rfl
      | convertTabs => exact absurd h (by decide)
  | convertTabs =>
      cases b with
      | removeTrailing => exact absurd h (by decide)
      | convertTabs => rfl

theorem ofTitle?_title : ofTitle? fix.title = some fix := by
  cases fix <;> decide

end Texts

end BlankFix

namespace Query

open Capabilities (standard)

/-- The fixes that are offered are those that have something to do. -/
theorem exists_codeActions (c : Context) (range : Range) :
    ∃ offered, standard.codeActions c range = .ok offered ∧
      ∀ fix : BlankFix, (∃ a ∈ offered, a.title = fix.title) ↔ fix.edits c.text range ≠ [] := by
  refine ⟨_, rfl, fun fix => ?_⟩
  rw [BlankFix.edits_ne_nil_iff]
  constructor
  · rintro ⟨a, ha, htitle⟩
    obtain ⟨fix', hfix', rfl⟩ := List.mem_map.1 ha
    obtain rfl := BlankFix.title_injective htitle
    obtain ⟨-, hany⟩ := List.mem_filter.1 hfix'
    obtain ⟨content, hcontent, happlies⟩ := List.any_eq_true.1 hany
    obtain ⟨⟨n, _⟩, hentry, rfl⟩ := List.mem_map.1 hcontent
    obtain ⟨line, hline, hrange, rfl⟩ := (BlankFix.mem_selectedLines_iff _ _).1 hentry
    exact ⟨n, line, hline, hrange, happlies⟩
  · rintro ⟨n, line, hline, hrange, happlies⟩
    have hentry := (BlankFix.mem_selectedLines_iff c.text range).2 ⟨line, hline, hrange, rfl⟩
    refine ⟨⟨fix.title, range⟩, List.mem_map_of_mem (List.mem_filter.2 ⟨?_, ?_⟩), rfl⟩
    · cases fix <;> decide
    · exact List.any_eq_true.2 ⟨_, List.mem_map_of_mem hentry, happlies⟩

theorem exists_applyCodeAction (c : Context) (range : Range) (fix : BlankFix) :
    ∃ changes, standard.applyCodeAction c fix.title range = .ok changes ∧
      ∀ key, changes.editsOf key = if c.key = key then fix.edits c.text range else [] := by
  have hempty : Keyed.Sorted ({} : FileChanges).files := .nil
  refine ⟨(fix.edits c.text range).foldl (·.add c.key ·) {}, ?_, fun key => ?_⟩
  · change applyCodeAction c fix.title range = _
    rw [applyCodeAction, BlankFix.ofTitle?_title]
  · exact (FileChanges.editsOf_foldl_add c.key _ hempty key).2

/-- A fix is offered exactly if it makes an edit, which is if it applies to a line of the range. Its
edits are on such lines, from the top down; what they change there is what the fix is for, and all
other lines stay as they are. Afterwards the fix is not offered any more. -/
theorem fixes_settle (c : Context) (range : Range) (fix : BlankFix) :
    ∃ offered changes edits t left,
      standard.codeActions c range = .ok offered ∧
      standard.applyCodeAction c fix.title range = .ok changes ∧
      (∀ key, changes.editsOf key = if c.key = key then edits else []) ∧
      ((∃ a ∈ offered, a.title = fix.title) ↔ edits ≠ []) ∧
      (edits ≠ [] ↔ ∃ n line, c.text.lines[n]? = some line ∧ range.HasLine n ∧
        fix.appliesTo line.dropReturns = true) ∧
      (∀ e ∈ edits, e.range.stop.line = e.range.start.line ∧ range.HasLine e.range.start.line) ∧
      edits.Pairwise (fun a b => a.range.start.line < b.range.start.line) ∧
      t = c.text.applyEdits edits ∧
      t.lines.length = c.text.lines.length ∧
      (∀ n, ¬ range.HasLine n → t.lines[n]? = c.text.lines[n]?) ∧
      (∀ n line, range.HasLine n → c.text.lines[n]? = some line →
        ∃ new, t.lines[n]? = some new ∧ fix.Mends line new) ∧
      standard.codeActions { c with text := t } range = .ok left ∧
      ∀ a ∈ left, a.title ≠ fix.title := by
  obtain ⟨offered, hoffered, hlisted⟩ := exists_codeActions c range
  obtain ⟨changes, hchanges, hedits⟩ := exists_applyCodeAction c range fix
  obtain ⟨t, ht⟩ : ∃ t, t = c.text.applyEdits (fix.edits c.text range) := ⟨_, rfl⟩
  obtain ⟨left, hleft, hlisted'⟩ := exists_codeActions { c with text := t } range
  have hlines : t.lines = fix.mendedLines range 0 c.text.lines := by
    rw [ht, BlankFix.lines_applyEdits]
  have hline (n : Nat) : t.lines[n]? = (c.text.lines[n]?).map (fix.mendedAt range n) := by
    rw [hlines, BlankFix.getElem?_mendedLines]
  refine ⟨offered, changes, _, t, left, hoffered, hchanges, hedits, hlisted fix,
    fix.edits_ne_nil_iff c.text range, fun e he => ?_, fix.pairwise_edits c.text range, ht, ?_,
    fun n hn => ?_, fun n line hn hsome => ?_, hleft, fun a ha htitle => ?_⟩
  · obtain ⟨n, line, -, hrange, hedit⟩ := (fix.mem_edits_iff c.text range).1 he
    obtain ⟨hstart, hstop⟩ := fix.onLine_of_edit? hedit
    rw [hstart, hstop]
    exact ⟨rfl, hrange⟩
  · rw [hlines, BlankFix.mendedLines, List.length_map, List.length_zipIdx]
  · have hsame : fix.mendedAt range n = id := funext fun line => if_neg hn
    rw [hline, hsame, Option.map_id]
    rfl
  · refine ⟨fix.mended line, ?_, fix.mends_mended line⟩
    rw [hline, hsome, Option.map_some, BlankFix.mendedAt, if_pos hn]
  · -- A line that the fix still applies to has been mended.
    obtain ⟨n, new, hnew, hn, happlies⟩ :=
      (fix.edits_ne_nil_iff t range).1 ((hlisted' fix).1 ⟨a, ha, htitle⟩)
    rw [hline] at hnew
    obtain ⟨line, -, rfl⟩ := Option.map_eq_some_iff.1 hnew
    rw [BlankFix.mendedAt, if_pos hn, fix.appliesTo_mended] at happlies
    cases happlies

end Query

end LanguageServer
