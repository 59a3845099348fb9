import LanguageServer.Proofs.Text.Ends
import LanguageServer.Proofs.Text.Places
import LanguageServer.Query.Capabilities

/-!
# Reformatting

A line is a margin of spaces and tabs, a body, and blanks at the end. Tidying it writes the margin
anew and drops the blanks; the body and the width of the margin stay the same (`tidy_eq`), so a line
that has been tidied is left alone (`tidy_tidy`). Reformatting tidies lines and, in a whole text,
drops those at the end that have become empty. It keeps what is no blank, and doing it once more
changes nothing (`reformat_settles`).
-/

namespace LanguageServer

namespace Text

/-- Line `n`; behind the last line all lines are empty. -/
def nthLine (t : Text) (n : Nat) : Text := ((lines t)[n]?).getD []

/-- The spaces and tabs that a line starts with. -/
def margin (line : Text) : Text := line.takeWhile isIndent

/-- What a line has between its margin and the blanks at its end. -/
def body (line : Text) : Text := line.trimEnd.dropWhile isIndent

theorem width_replicate (w : Char → Nat) (n : Nat) (c : Char) :
    width w (List.replicate n c) = n * w c := by
  induction n with
  | zero => rw [Nat.zero_mul]; rfl
  | succ n ih => rw [List.replicate_succ, width_cons, ih, Nat.succ_mul, Nat.add_comm]

theorem isSpace_of_isIndent {c : Char} (h : isIndent c = true) : isSpace c = true := by
  rw [isIndent, Bool.or_eq_true, beq_iff_eq, beq_iff_eq] at h
  rcases h with rfl | rfl <;> decide

end Text

/-! ### Margins and bodies -/

/-- Spaces and tabs in front of a body, which neither starts with one nor ends with a blank. Without
a body there is nothing in front. -/
structure IsLaid (front body : Text) : Prop where
  indents : ∀ c ∈ front, isIndent c = true
  head : ∀ c, body.head? = some c → isIndent c = false
  last : ∀ c, body.getLast? = some c → isSpace c = false
  front_eq_nil : body = [] → front = []

namespace IsLaid

variable {front body : Text}

theorem trimEnd_eq (h : IsLaid front body) : (front ++ body).trimEnd = front ++ body := by
  refine List.rdropWhile_eq_self_iff.2 fun hne hspace => ?_
  have hbody : body ≠ [] := fun hnil => hne (by rw [hnil, h.front_eq_nil hnil]; rfl)
  rw [List.getLast_append_of_ne_nil _ hbody,
    h.last _ (List.getLast?_eq_some_getLast hbody)] at hspace
  cases hspace

theorem margin_eq (h : IsLaid front body) : (front ++ body).margin = front :=
  Text.takeWhile_append h.indents h.head

theorem body_eq (h : IsLaid front body) : (front ++ body).body = body := by
  rw [Text.body, h.trimEnd_eq, ← Text.drop_length_takeWhile,
    Text.takeWhile_append h.indents h.head, List.drop_left]

end IsLaid

/-- Without the blanks at its end, every line is a margin in front of its body. -/
theorem isLaid_trimEnd (line : Text) :
    IsLaid line.trimEnd.margin line.body ∧ line.trimEnd = line.trimEnd.margin ++ line.body := by
  have hlast : ∀ c, line.trimEnd.getLast? = some c → isSpace c = false := fun c =>
    Text.getLast?_dropEndWhile
  have hindents : ∀ c ∈ line.trimEnd.margin, isIndent c = true := fun c hc =>
    List.mem_takeWhile_imp hc
  have hhead : ∀ c, line.body.head? = some c → isIndent c = false := fun c hc =>
    Text.head?_dropWhile hc
  have hwhole : line.trimEnd = line.trimEnd.margin ++ line.body :=
    List.takeWhile_append_dropWhile.symm
  refine ⟨⟨hindents, hhead, fun c hc => hlast c ?_, fun hnil => ?_⟩, hwhole⟩
  · rw [hwhole, List.getLast?_append, hc, Option.some_or]
  · rw [hnil, List.append_nil] at hwhole
    by_contra hne
    -- Without a body, the margin would be what the line ends with.
    have hend := Text.isSpace_of_isIndent (hindents _ (List.getLast_mem hne))
    rw [hlast _ ((congrArg List.getLast? hwhole).trans (List.getLast?_eq_some_getLast hne))] at hend
    cases hend

/-- The blanks at the end of a line do not matter for its margin, unless it has nothing else. -/
theorem margin_trimEnd {line : Text} (h : line.trimEnd ≠ []) :
    line.trimEnd.margin = line.margin := by
  obtain ⟨hlaid, hwhole⟩ := isLaid_trimEnd line
  have hbody : line.body ≠ [] := fun hnil => h (by rw [hwhole, hlaid.front_eq_nil hnil, hnil]; rfl)
  have hline := Text.dropEndWhile_append_takeEndWhile isSpace line
  change line.trimEnd ++ _ = line at hline
  rw [hwhole, List.append_assoc] at hline
  conv_rhs => rw [← hline]
  refine (Text.takeWhile_append hlaid.indents fun c hc => ?_).symm
  rw [List.head?_append_of_ne_nil _ hbody] at hc
  exact hlaid.head c hc

theorem trimEnd_ne_nil {line : Text} (h : ∃ c ∈ line, isSpace c = false) : line.trimEnd ≠ [] := by
  obtain ⟨c, hc, hspace⟩ := h
  intro hnil
  rw [List.rdropWhile_eq_nil_iff.1 hnil c hc] at hspace
  cases hspace

namespace LayoutOptions

variable (options : LayoutOptions)

/-- A line with its margin written anew and without blanks at its end. -/
def tidy (line : Text) : Text := options.reindent line.trimEnd

/-- A margin that is written for a width has that width. -/
theorem widthOf_indentation (width : Nat) :
    options.widthOf (options.indentation width) = width := by
  rw [indentation, widthOf]
  split
  · rw [Text.width_replicate, if_neg (by decide), Nat.mul_one]
  · rw [Text.width_append, Text.width_replicate, Text.width_replicate, if_pos rfl,
      if_neg (by decide), Nat.mul_one, Nat.mul_comm, Nat.div_add_mod]

theorem isIndent_of_mem_indentation {width : Nat} {c : Char}
    (h : c ∈ options.indentation width) : isIndent c = true := by
  rw [indentation] at h
  split at h
  · rw [List.eq_of_mem_replicate h]
    rfl
  · rcases List.mem_append.1 h with h | h <;> rw [List.eq_of_mem_replicate h] <;> rfl

/-- Tidying writes another margin of the same width in front of the body. -/
theorem tidy_eq (line : Text) :
    ∃ front, IsLaid front line.body ∧ options.tidy line = front ++ line.body ∧
      front = options.indentation (options.widthOf line.trimEnd.margin) := by
  obtain ⟨hlaid, -⟩ := isLaid_trimEnd line
  refine ⟨_, ⟨fun c => options.isIndent_of_mem_indentation, hlaid.head, hlaid.last, fun hnil => ?_⟩,
    rfl, rfl⟩
  change options.indentation (options.widthOf line.trimEnd.margin) = []
  rw [hlaid.front_eq_nil hnil, widthOf, Text.width_nil, indentation]
  simp

variable {options} {line : Text}

theorem body_tidy (line : Text) : (options.tidy line).body = line.body := by
  obtain ⟨front, hlaid, htidy, -⟩ := options.tidy_eq line
  rw [htidy, hlaid.body_eq]

theorem widthOf_margin_tidy (h : ∃ c ∈ line, isSpace c = false) :
    options.widthOf (options.tidy line).margin = options.widthOf line.margin := by
  obtain ⟨front, hlaid, htidy, hfront⟩ := options.tidy_eq line
  rw [htidy, hlaid.margin_eq, hfront, widthOf_indentation, margin_trimEnd (trimEnd_ne_nil h)]

theorem trimEnd_tidy (line : Text) : (options.tidy line).trimEnd = options.tidy line := by
  obtain ⟨front, hlaid, htidy, -⟩ := options.tidy_eq line
  rw [htidy, hlaid.trimEnd_eq]

/-- What has been tidied is left alone. -/
theorem tidy_tidy (line : Text) : options.tidy (options.tidy line) = options.tidy line := by
  obtain ⟨front, hlaid, htidy, hfront⟩ := options.tidy_eq line
  obtain ⟨again, -, htidy', hagain⟩ := options.tidy_eq (options.tidy line)
  rw [htidy', hagain, trimEnd_tidy, body_tidy, htidy, hlaid.margin_eq, hfront, widthOf_indentation]

theorem tidy_nil : options.tidy [] = [] := by
  obtain ⟨front, hlaid, htidy, -⟩ := options.tidy_eq []
  rw [htidy, hlaid.front_eq_nil rfl]
  rfl

theorem newline_not_mem_tidy (h : '\n' ∉ line) : '\n' ∉ options.tidy line := by
  obtain ⟨front, hlaid, htidy, -⟩ := options.tidy_eq line
  rw [htidy, List.mem_append, not_or]
  constructor
  · exact fun hmem => absurd (hlaid.indents _ hmem) (by decide)
  · intro hmem
    exact h ((List.rdropWhile_prefix _ _).subset ((List.dropWhile_suffix _).subset hmem))

end LayoutOptions

/-! ### The lines of a text -/

/-- Whether line `n` is in the range of lines to lay out. -/
def InLines (range : Option Range) (n : Nat) : Prop :=
  ∀ r, range = some r → r.start.line ≤ n ∧ n ≤ r.stop.line

/-- The empty lines at the end are replaced by one. -/
theorem endWithNewline_eq (ls : List Text) :
    endWithNewline ls = ls.rdropWhile (·.isEmpty) ++ [[]] := by
  rw [endWithNewline, List.rdropWhile]
  split
  · next hnil => rw [hnil]; rfl
  · rfl

theorem endWithNewline_endWithNewline (ls : List Text) :
    endWithNewline (endWithNewline ls) = endWithNewline ls := by
  rw [endWithNewline_eq, endWithNewline_eq, List.rdropWhile_concat_pos _ _ _ rfl,
    List.rdropWhile_idempotent]

theorem getElem?_append_empty (ls : List Text) (n : Nat) :
    ((ls ++ [[]])[n]?).getD [] = (ls[n]?).getD [] := by
  rw [List.getElem?_append]
  split
  · rfl
  · next hn =>
      rw [List.getElem?_eq_none (Nat.le_of_not_lt hn)]
      cases n - ls.length <;> rfl

/-- Only empty lines come and go. -/
theorem getElem?_endWithNewline (ls : List Text) (n : Nat) :
    ((endWithNewline ls)[n]?).getD [] = (ls[n]?).getD [] := by
  rw [endWithNewline_eq, getElem?_append_empty]
  induction ls using List.reverseRecOn with
  | nil => rfl
  | append_singleton ls line ih =>
      cases line with
      | nil => rw [List.rdropWhile_concat_pos _ _ _ rfl, ih, getElem?_append_empty]
      | cons c line => rw [List.rdropWhile_concat_neg _ _ _ (by simp)]

theorem mem_endWithNewline {ls : List Text} {line : Text} (h : line ∈ endWithNewline ls) :
    line ∈ ls ∨ line = [] := by
  rw [endWithNewline_eq, List.mem_append, List.mem_singleton] at h
  exact h.imp_left ((List.rdropWhile_prefix _ _).subset ·)

/-- What is made of lines that end with an empty one is nothing or ends with one line feed. -/
theorem unlines_endWithNewline {ls : List Text} (h : ∀ l ∈ ls, '\n' ∉ l) :
    Text.unlines (endWithNewline ls) = [] ∨
      ∃ front, Text.unlines (endWithNewline ls) = front ++ ['\n'] ∧ front.getLast? ≠ some '\n' := by
  have hkept : ∀ l ∈ ls.rdropWhile (·.isEmpty), '\n' ∉ l := fun l hl =>
    h l ((List.rdropWhile_prefix _ _).subset hl)
  have hlast := List.rdropWhile_last_not (fun l : Text => l.isEmpty) ls
  rw [endWithNewline_eq]
  generalize ls.rdropWhile (·.isEmpty) = kept at hkept hlast
  rcases List.eq_nil_or_concat kept with rfl | ⟨init, last, rfl⟩
  · exact .inl rfl
  · rw [List.concat_eq_append] at hkept hlast ⊢
    have hne : last ≠ [] := by simpa using hlast
    have hfilled : init ++ [last] ++ [[]] ≠ [] := by simp
    have hwhole := Text.flatMap_terminated hfilled
    rw [List.flatMap_append, List.flatMap_singleton, List.nil_append,
      List.append_cancel_right_eq, List.flatMap_append, List.flatMap_singleton,
      ← List.append_assoc] at hwhole
    refine .inr ⟨_, hwhole.symm, fun hend => ?_⟩
    rw [List.getLast?_append_of_ne_nil _ hne] at hend
    exact hkept last (List.mem_append_right _ List.mem_cons_self) (List.mem_of_getLast? hend)

namespace LayoutOptions

variable {options : LayoutOptions} {range : Option Range} {ls : List Text} {n : Nat}

/-- The lines that reformatting leads to. -/
def laidOut (options : LayoutOptions) (range : Option Range) (ls : List Text) : List Text :=
  match range with
  | none => endWithNewline (ls.map options.tidy)
  | some r => ls.zipIdx.map fun (line, n) =>
    if r.start.line ≤ n && n ≤ r.stop.line then options.tidy line else line

theorem getElem?_laidOut_some (r : Range) (n : Nat) :
    (options.laidOut (some r) ls)[n]? = (ls[n]?).map fun line =>
      if r.start.line ≤ n ∧ n ≤ r.stop.line then options.tidy line else line := by
  rw [laidOut, List.getElem?_map, List.getElem?_zipIdx, Option.map_map, Nat.zero_add]
  refine congrArg (Option.map · ls[n]?) (funext fun line => ?_)
  simp only [Function.comp_apply, Bool.and_eq_true, decide_eq_true_eq]

/-- Lines in the range are tidied, also those behind the end. -/
theorem getElem?_laidOut_of_inLines (h : InLines range n) :
    ((options.laidOut range ls)[n]?).getD [] = options.tidy ((ls[n]?).getD []) := by
  cases range with
  | none =>
      rw [laidOut, getElem?_endWithNewline, List.getElem?_map]
      cases ls[n]? with
      | none => exact tidy_nil.symm
      | some line => rfl
  | some r =>
      rw [getElem?_laidOut_some]
      simp only [if_pos (h r rfl)]
      cases ls[n]? with
      | none => exact tidy_nil.symm
      | some line => rfl

theorem getElem?_laidOut_of_not_inLines (h : ¬ InLines range n) :
    (options.laidOut range ls)[n]? = ls[n]? := by
  cases range with
  | none => exact absurd nofun h
  | some r =>
      have hr : ¬ (r.start.line ≤ n ∧ n ≤ r.stop.line) := fun hin => h fun r' hr' => by
        cases hr'
        exact hin
      rw [getElem?_laidOut_some]
      simp only [if_neg hr]
      exact Option.map_id'

theorem mem_laidOut {line : Text} (h : line ∈ options.laidOut range ls) :
    line = [] ∨ line ∈ ls ∨ ∃ old ∈ ls, line = options.tidy old := by
  cases range with
  | none =>
      rcases mem_endWithNewline h with h | h
      · obtain ⟨old, hold, rfl⟩ := List.mem_map.1 h
        exact .inr (.inr ⟨old, hold, rfl⟩)
      · exact .inl h
  | some r =>
      obtain ⟨⟨old, n⟩, hold, rfl⟩ := List.mem_map.1 h
      have hmem : old ∈ ls := List.fst_mem_of_mem_zipIdx hold
      dsimp only
      split
      · exact .inr (.inr ⟨old, hmem, rfl⟩)
      · exact .inr (.inl hmem)

theorem newline_not_mem_of_mem_laidOut (hls : ∀ l ∈ ls, '\n' ∉ l) :
    ∀ line ∈ options.laidOut range ls, '\n' ∉ line := by
  intro line hline
  rcases mem_laidOut hline with rfl | hmem | ⟨old, hold, rfl⟩
  · exact List.not_mem_nil
  · exact hls line hmem
  · exact newline_not_mem_tidy (hls old hold)

theorem length_laidOut_some (r : Range) : (options.laidOut (some r) ls).length = ls.length := by
  rw [laidOut, List.length_map, List.length_zipIdx]

theorem laidOut_ne_nil (hls : ls ≠ []) : options.laidOut range ls ≠ [] := by
  cases range with
  | none =>
      rw [laidOut, endWithNewline_eq]
      exact List.append_ne_nil_of_right_ne_nil _ (List.cons_ne_nil _ _)
  | some r => rwa [← List.length_pos_iff, length_laidOut_some, List.length_pos_iff]

/-- Laying out lines a second time changes nothing. -/
theorem laidOut_laidOut :
    options.laidOut range (options.laidOut range ls) = options.laidOut range ls := by
  cases range with
  | none =>
      have htidy : (options.laidOut none ls).map options.tidy = options.laidOut none ls := by
        refine (List.map_congr_left fun line hline => ?_).trans (List.map_id _)
        rcases mem_endWithNewline hline with hline | rfl
        · obtain ⟨old, -, rfl⟩ := List.mem_map.1 hline
          exact tidy_tidy old
        · exact tidy_nil
      rw [laidOut, htidy]
      exact endWithNewline_endWithNewline _
  | some r =>
      refine List.ext_getElem? fun n => ?_
      rw [getElem?_laidOut_some, getElem?_laidOut_some, Option.map_map]
      refine congrArg (Option.map · ls[n]?) (funext fun line => ?_)
      rw [Function.comp_apply]
      split
      · exact tidy_tidy line
      · rfl

end LayoutOptions

/-! ### Whole texts -/

open Capabilities (standard)

namespace Query

/-- Reformatting gives a text, and reformatting that text in the same way gives the same. Lines
outside of the range are kept, and so are the bodies of all lines and the widths of their margins,
unless a line is blank. A whole text becomes empty or ends with one line feed, and no line of it
ends with a blank. -/
theorem reformat_settles (c : Context) (range : Option Range) (options : LayoutOptions) :
    ∃ t, standard.reformat c range options = .ok t ∧
      standard.reformat { c with text := t } range options = .ok t ∧
      (∀ r, range = some r → t.lines.length = c.text.lines.length) ∧
      (∀ n, ¬ InLines range n → t.lines[n]? = c.text.lines[n]?) ∧
      (∀ n, InLines range n →
        (t.nthLine n).body = (c.text.nthLine n).body ∧
        ((∃ d ∈ c.text.nthLine n, isSpace d = false) →
          options.widthOf (t.nthLine n).margin = options.widthOf (c.text.nthLine n).margin)) ∧
      (range = none →
        (t = [] ∨ ∃ front, t = front ++ ['\n'] ∧ front.getLast? ≠ some '\n') ∧
        ∀ line ∈ t.lines, ∀ d, line.getLast? = some d → isSpace d = false) := by
  have hreformat : ∀ c : Context, standard.reformat c range options
      = .ok (Text.unlines (options.laidOut range c.text.lines)) := by
    intro c
    cases range <;> rfl
  have hnone : ∀ l ∈ c.text.lines, '\n' ∉ l := fun l hl => Text.not_mem_of_mem_lines hl
  have hlines : (Text.unlines (options.laidOut range c.text.lines)).lines
      = options.laidOut range c.text.lines :=
    Text.lines_unlines (LayoutOptions.laidOut_ne_nil (Text.lines_ne_nil _))
      (LayoutOptions.newline_not_mem_of_mem_laidOut hnone)
  refine ⟨_, hreformat c, ?_, ?_, ?_, ?_, ?_⟩
  · rw [hreformat, hlines, LayoutOptions.laidOut_laidOut]
  · rintro r rfl
    rw [hlines, LayoutOptions.length_laidOut_some]
  · intro n hn
    rw [hlines, LayoutOptions.getElem?_laidOut_of_not_inLines hn]
  · intro n hn
    have hline : (Text.unlines (options.laidOut range c.text.lines)).nthLine n
        = options.tidy (c.text.nthLine n) := by
      rw [Text.nthLine, hlines, LayoutOptions.getElem?_laidOut_of_inLines hn, Text.nthLine]
    rw [hline]
    exact ⟨LayoutOptions.body_tidy _, LayoutOptions.widthOf_margin_tidy⟩
  · rintro rfl
    constructor
    · refine unlines_endWithNewline fun l hl => ?_
      obtain ⟨old, hold, rfl⟩ := List.mem_map.1 hl
      exact LayoutOptions.newline_not_mem_tidy (hnone old hold)
    · intro line hline d hd
      rw [hlines] at hline
      rcases mem_endWithNewline hline with hline | rfl
      · obtain ⟨old, -, rfl⟩ := List.mem_map.1 hline
        rw [← LayoutOptions.trimEnd_tidy] at hd
        exact Text.getLast?_dropEndWhile hd
      · cases hd

end Query

end LanguageServer
