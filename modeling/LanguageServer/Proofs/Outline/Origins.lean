import LanguageServer.Outline.Scan
import LanguageServer.Proofs.Outline.Lines
import LanguageServer.Proofs.Text.Identifiers

/-!
# Where declarations come from

Every declaration of an outline was made by one line of the text, and only the end of its range is
changed afterwards (`sourced_scan`). What can be found by its name was named by a word of that line,
so its selection is where this word stands in the text (`exists_word_of_searchable`), and its name
is an identifier that does not start with a digit (`named_scan`).
-/

namespace LanguageServer.Outline

variable {lines : List Text} {o : Outline} {s : State} {n : Nat} {raw : Text}

/-! ### Declarations of a line -/

/-- What is found on a line adds nothing, or one declaration on that line with its block. Only what
was named there can be found by its name, and its keyword says of which kind it is. -/
theorem declare_cases (s : State) (n : Nat) (line : Text) (found : Line.Found) :
    s.declare n line found = s ∨
      ∃ (d : Declaration) (implementations : Array Implementation) (blocks : List Block),
        s.declare n line found
          = ⟨⟨s.outline.declarations.push d, implementations⟩, blocks, s.lastEnd⟩ ∧
        d.parent = s.blocks.findSome? (·.declaration) ∧
        d.range = rangeOn n line line.indentation.length line.length ∧
        d.selection = rangeOn n line found.start (found.start + found.word.length) ∧
        (blocks = s.blocks ∨ ∃ indent isCode,
          blocks = ⟨indent, some s.outline.declarations.size, n, isCode⟩ :: s.blocks) ∧
        (d.searchable = true → ∃ keyword start parent, found = .named keyword d.name start ∧
          d.kind = kindWithin parent ((Line.keywordKind? keyword).getD .text)) := by
  unfold State.declare
  dsimp only
  split
  · split
    · exact .inl rfl
    · refine .inr ⟨_, _, _, rfl, rfl, rfl, rfl, ?_, fun _ => ⟨_, _, _, rfl, rfl⟩⟩
      split
      · exact .inr ⟨_, _, rfl⟩
      · exact .inl rfl
  · split
    · exact .inl rfl
    · exact .inr ⟨_, _, _, rfl, rfl, rfl, rfl, .inr ⟨_, _, rfl⟩, nofun⟩

/-- What line `n` declares, wherever its range ends. -/
def DeclaredOn (n : Nat) (raw : Text) (d : Declaration) : Prop :=
  ∃ found, Line.declaration? (Text.dropReturns raw) = some found ∧
    d.selection
      = rangeOn n (Text.dropReturns raw) found.start (found.start + found.word.length) ∧
    (d.searchable = true → ∃ keyword start parent, found = .named keyword d.name start ∧
      d.kind = kindWithin parent ((Line.keywordKind? keyword).getD .text))

/-! ### Reading lines -/

/-- Every declaration is made by one of these lines. -/
def Sourced (lines : List Text) (o : Outline) : Prop :=
  ∀ d ∈ o.declarations, ∃ n raw, lines[n]? = some raw ∧ DeclaredOn n raw d

/-- Ending a block changes no more than where a range ends. -/
theorem Sourced.endBlock (h : Sourced lines o) (b : Block) (stop : Position) :
    Sourced lines (endBlock o b stop) := by
  rw [Outline.endBlock]
  split
  · exact h
  · next i _ =>
      split
      · exact h
      · intro d hd
        obtain ⟨j, hj, rfl⟩ := Array.mem_iff_getElem.1 hd
        rw [Array.size_modify] at hj
        have hold := h o.declarations[j] (Array.getElem_mem hj)
        simp only [Array.getElem_modify]
        split
        · exact hold
        · exact hold

theorem Sourced.closeBlocks (h : Sourced lines o) (indent : Nat) (closing : Option Position)
    (lastEnd : Position) (blocks : List Block) :
    Sourced lines (closeBlocks indent closing lastEnd o blocks).1 := by
  induction blocks generalizing o with
  | nil => exact h
  | cons b rest ih =>
      unfold Outline.closeBlocks
      split
      · exact h
      · split
        · split
          · exact h.endBlock b _
          · exact ih (h.endBlock b lastEnd)
        · exact ih (h.endBlock b lastEnd)

theorem sourced_declare (h : Sourced lines s.outline) (hraw : lines[n]? = some raw)
    {found : Line.Found} (hfound : Line.declaration? (Text.dropReturns raw) = some found) :
    Sourced lines (s.declare n (Text.dropReturns raw) found).outline := by
  rcases declare_cases s n (Text.dropReturns raw) found with hsame | ⟨d, implementations, blocks,
    hdeclare, -, -, hselection, -, hnamed⟩
  · rw [hsame]
    exact h
  · rw [hdeclare]
    intro e he
    rcases Array.mem_push.1 he with he | rfl
    · exact h e he
    · exact ⟨n, raw, hraw, found, hfound, hselection, hnamed⟩

theorem sourced_readLine (h : Sourced lines s.outline) (hraw : lines[n]? = some raw) :
    Sourced lines (s.readLine n raw).outline := by
  unfold State.readLine
  dsimp only
  split
  · exact h
  · have hclosed := fun closing => h.closeBlocks (indentWidth (Text.dropReturns raw)) closing
      s.lastEnd s.blocks
    split
    · exact hclosed _
    · split
      · next found hfound => exact sourced_declare (hclosed _) hraw hfound
      · split <;> exact hclosed _

theorem sourced_readLines {above rest : List Text} (h : Sourced (above ++ rest) s.outline) :
    Sourced (above ++ rest) (s.readLines above.length rest).outline := by
  induction rest generalizing s above with
  | nil => exact h
  | cons line rest ih =>
      have hline : (above ++ line :: rest)[above.length]? = some line := by simp
      have hrest := sourced_readLine h hline
      rw [List.append_cons] at hrest ⊢
      have hread := ih hrest
      rwa [List.length_append] at hread

/-- Every declaration of a text is made by one of its lines. -/
theorem sourced_scan (t : Text) : Sourced t.lines (scan t) := by
  have hread : Sourced ([] ++ t.lines)
      (State.readLines ⟨⟨#[], #[]⟩, [], .origin⟩ ([] : List Text).length t.lines).outline :=
    sourced_readLines (by simp [Sourced])
  exact List.foldlRecOn (motive := Sourced t.lines) _ _ hread fun _ ho b _ => ho.endBlock b _

/-! ### The names of declarations -/

/-- Behind the content of a line comes its line break, or nothing. -/
theorem exists_behind_line {t : Text} {above below : List Text}
    (hlines : t.lines = above ++ raw :: below) :
    ∃ behind, t = above.flatMap (· ++ ['\n']) ++ Text.dropReturns raw ++ behind ∧
      ∀ c, behind.head? = some c → c = '\r' ∨ c = '\n' := by
  obtain ⟨rest, ht, hrest⟩ := Text.exists_rest hlines
  refine ⟨raw.takeEndWhile (· == '\r') ++ rest, ?_, fun c hc => ?_⟩
  · have hraw := Text.dropEndWhile_append_takeEndWhile (· == '\r') raw
    rw [ht, Text.dropReturns, List.append_assoc, ← List.append_assoc (Text.dropEndWhile _ _), hraw]
  · cases hreturns : raw.takeEndWhile (· == '\r') with
    | nil =>
        rw [hreturns, List.nil_append] at hc
        rcases hrest with ⟨rfl, -⟩ | ⟨more, rfl⟩
        · cases hc
        · exact .inr (Option.some.inj hc).symm
    | cons first returns =>
        rw [hreturns] at hc
        have hfirst : first ∈ raw.takeEndWhile (· == '\r') := hreturns ▸ List.mem_cons_self
        rw [← Option.some.inj hc]
        exact .inl (beq_iff_eq.1 (Text.of_mem_takeEndWhile (p := (· == '\r')) hfirst))

/-- A word of a line is one of the text, at the same place of that line. -/
theorem exists_word_of_line {t : Text} {above below : List Text} {name : Text} {start : Nat}
    (hlines : t.lines = above ++ raw :: below)
    (hword : (start, name) ∈ Text.words (Text.dropReturns raw)) :
    ∃ i, (i, name) ∈ t.words ∧
      rangeOn above.length (Text.dropReturns raw) start (start + name.length)
        = t.rangeAt i (i + name.length) := by
  obtain ⟨behind, ht, hbehind⟩ := exists_behind_line hlines
  have hnone : ∀ l ∈ t.lines, '\n' ∉ l := fun l hl => Text.not_mem_of_mem_lines hl
  have habove : ∀ l ∈ above, '\n' ∉ l := fun l hl =>
    hnone l (hlines ▸ List.mem_append_left _ hl)
  have hline : '\n' ∉ Text.dropReturns raw := fun hmem =>
    hnone raw (hlines ▸ List.mem_append_cons_self) ((List.rdropWhile_prefix _ _).subset hmem)
  generalize Text.dropReturns raw = line at hword ht hline
  have hlength := (Text.isWordAt_of_mem_words hword).le_length
  refine ⟨(above.flatMap (· ++ ['\n'])).length + start, ?_, ?_⟩
  · rw [ht]
    refine Text.mem_words_append hword (fun c hc => ?_) (fun c hc => ?_)
    · rcases List.eq_nil_or_concat above with rfl | ⟨init, last, rfl⟩
      · cases hc
      · rw [List.concat_eq_append, List.flatMap_append, List.flatMap_singleton,
          ← List.append_assoc, List.getLast?_concat] at hc
        cases hc
        decide
    · rcases hbehind c hc with rfl | rfl <;> decide
  · have hplace : ∀ k ≤ line.length, Text.positionAt t ((above.flatMap (· ++ ['\n'])).length + k)
        = ⟨above.length, Text.units (line.take k)⟩ := by
      intro k hk
      rw [Text.positionAt, ht, List.append_assoc, List.take_length_add_append,
        List.take_append_of_le_length hk]
      exact Text.after_lines habove fun hmem => hline (List.mem_of_mem_take hmem)
    rw [Text.rangeAt, hplace start (Nat.le_of_add_right_le hlength), Nat.add_assoc,
      hplace _ hlength]
    rfl

/-- The selection of what can be found by its name is where a word of the text stands that is this
name. -/
theorem exists_word_of_searchable {t : Text} {d : Declaration} (hd : d ∈ (scan t).searchable) :
    ∃ i, (i, d.name) ∈ t.words ∧ d.selection = t.rangeAt i (i + d.name.length) := by
  obtain ⟨hd, hsearchable⟩ := List.mem_filter.1 hd
  obtain ⟨n, raw, hraw, found, hfound, hselection, hnamed⟩ :=
    sourced_scan t d (Array.mem_toList_iff.1 hd)
  obtain ⟨keyword, start, -, rfl, -⟩ := hnamed hsearchable
  obtain ⟨above, line, below, hlines, hline⟩ :=
    Text.exists_line (p := ⟨n, 0⟩) (List.getElem?_eq_some_iff.1 hraw).1
  obtain rfl : n = above.length := congrArg Position.line hline
  obtain rfl : line = raw := by simpa [hlines] using hraw
  obtain ⟨i, hword, hrange⟩ := exists_word_of_line hlines (Line.mem_words_of_declaration? hfound)
  exact ⟨i, hword, hselection.trans hrange⟩

/-- What can be found by its name is no mere word. -/
theorem kind_ne_text_of_searchable {t : Text} {d : Declaration} (hd : d ∈ (scan t).searchable) :
    d.kind ≠ .text := by
  obtain ⟨hd, hsearchable⟩ := List.mem_filter.1 hd
  obtain ⟨n, raw, -, found, hfound, -, hnamed⟩ := sourced_scan t d (Array.mem_toList_iff.1 hd)
  obtain ⟨keyword, start, parent, rfl, hwithin⟩ := hnamed hsearchable
  obtain ⟨kind, hkind, htext⟩ := Line.exists_kind_of_declaration? hfound
  rw [hwithin, hkind, Option.getD_some]
  unfold kindWithin
  split
  · exact htext
  · split
    · exact nofun
    · split
      · exact nofun
      · exact htext

/-! ### Names -/

/-- Every declaration that can be found by its name has a word for it. -/
def Named (o : Outline) : Prop :=
  ∀ d ∈ o.declarations, d.searchable = true → Text.isWordRun d.name = true

theorem named_scan (t : Text) : (scan t).Named := by
  intro d hd hsearchable
  obtain ⟨n, raw, -, found, hfound, -, hnamed⟩ := sourced_scan t d hd
  obtain ⟨keyword, start, -, rfl, -⟩ := hnamed hsearchable
  exact (Line.standsOn_of_declaration? hfound).isWordRun

theorem isWordRun_of_mem_named {t name : Text} {d : Declaration} (hd : d ∈ (scan t).named name) :
    Text.isWordRun name = true := by
  obtain ⟨hmem, hname⟩ := List.mem_filter.1 hd
  obtain ⟨hmem, hsearchable⟩ := List.mem_filter.1 hmem
  rw [← of_decide_eq_true hname]
  exact named_scan t d (Array.mem_toList_iff.1 hmem) hsearchable

end LanguageServer.Outline
