import LanguageServer.Proofs.Query.Reformatting
import LanguageServer.Proofs.Sliced.Layout

/-!
# Typing at a line

What is typed changes the line of the caret only. A closing brace that a line starts with puts the
line under the innermost brace that is still open before it (`IsInnermost`); the search for that
brace goes backwards and counts (`openBraceIndent?_cases`). A semicolon makes its line tight
(`IsTight`), which a second one finds it to be (`tightenSemicolons_eq_self`). In both cases the line
only gets other blanks (`IsRetyped`), so the same line is found again afterwards, and nothing more
is changed in it (`formatOnType_settles`).
-/

namespace LanguageServer

/-! ### Open braces -/

/-- A brace that is opened right before this text is still open behind it. -/
def KeepsOpen (t : Text) : Prop := ∀ s, s <+: t → s.count '}' ≤ s.count '{'

/-- All braces that are opened in this text are closed in it. -/
def ClosesOwn (t : Text) : Prop := ∀ s, s <:+ t → s.count '{' ≤ s.count '}'

/-- The brace with `before` and `behind` around it is open at the end of a text. -/
structure IsOpenBrace (t before behind : Text) : Prop where
  text_eq : t = before ++ '{' :: behind
  keepsOpen : KeepsOpen behind

/-- It is the last brace that is open at the end of a text. -/
structure IsInnermost (t before behind : Text) : Prop extends IsOpenBrace t before behind where
  last : ∀ before' behind', IsOpenBrace t before' behind' → before'.length ≤ before.length

/-- The line of a brace. -/
def braceLine (before behind : Text) : Text :=
  before.takeEndWhile (· != '\n') ++ '{' :: behind.takeWhile (· != '\n')

section Braces

variable {t before behind : Text}

theorem closesOwn_nil : ClosesOwn [] := fun s hs => by
  rw [List.suffix_nil.1 hs]
  exact Nat.le_refl _

theorem closesOwn_cons {c : Char} :
    ClosesOwn (c :: t) ↔ (c :: t).count '{' ≤ (c :: t).count '}' ∧ ClosesOwn t := by
  constructor
  · exact fun h => ⟨h _ List.suffix_rfl, fun s hs => h s (hs.trans (List.suffix_cons c t))⟩
  · rintro ⟨hwhole, ht⟩ s hs
    rcases List.suffix_cons_iff.1 hs with rfl | hs
    · exact hwhole
    · exact ht s hs

theorem not_keepsOpen_of_closesOwn (h : ClosesOwn ('{' :: t)) : ¬ KeepsOpen t := by
  intro hopen
  have hcloses := h _ List.suffix_rfl
  have hkeeps := hopen t List.prefix_rfl
  rw [List.count_cons_self, List.count_cons_of_ne (by decide)] at hcloses
  omega

theorem keepsOpen_of_closesOwn (h : ClosesOwn t) (hcount : t.count '{' = t.count '}') :
    KeepsOpen t := by
  rintro s ⟨rest, rfl⟩
  have hrest := h rest (List.suffix_append s rest)
  rw [List.count_append, List.count_append] at hcount
  omega

theorem not_isOpenBrace_of_closesOwn (h : ClosesOwn t) : ¬ IsOpenBrace t before behind := by
  rintro ⟨rfl, hopen⟩
  exact not_keepsOpen_of_closesOwn (fun s hs => h s (hs.trans (List.suffix_append before _))) hopen

theorem isInnermost_of_closesOwn (h : IsOpenBrace t before behind) (hown : ClosesOwn behind) :
    IsInnermost t before behind := by
  refine ⟨h, fun before' behind' h' => Nat.le_of_not_lt fun hlength => ?_⟩
  have hsplit := h.text_eq.symm.trans h'.text_eq
  rcases List.append_eq_append_iff.1 hsplit with ⟨more, rfl, hmore⟩ | ⟨more, rfl, -⟩
  · cases more with
    | nil => simp at hlength
    | cons c more =>
        obtain ⟨-, hbehind⟩ := List.cons.inj hmore
        exact not_isOpenBrace_of_closesOwn hown ⟨hbehind, h'.keepsOpen⟩
  · rw [List.length_append] at hlength
    omega

theorem IsInnermost.unique {before' behind' : Text} (h : IsInnermost t before behind)
    (h' : IsInnermost t before' behind') : before = before' ∧ behind = behind' := by
  have hlength := Nat.le_antisymm (h'.last _ _ h.toIsOpenBrace) (h.last _ _ h'.toIsOpenBrace)
  obtain ⟨hbefore, hcons⟩ := List.append_inj (h.text_eq.symm.trans h'.text_eq) hlength
  exact ⟨hbefore, (List.cons.inj hcons).2⟩

/-- The search through `s` from its end, with `tail` behind it: in `tail` nothing is open, and
`depth` braces that it closes are opened before it. -/
theorem openBraceIndent?_cases (s : Text) (depth : Nat) {tail : Text} (hown : ClosesOwn tail)
    (hdepth : tail.count '}' = depth + tail.count '{') :
    (ClosesOwn (s ++ tail) ∧ openBraceIndent? depth s.reverse = none) ∨
      ∃ before behind, IsInnermost (s ++ tail) before behind ∧
        openBraceIndent? depth s.reverse
          = some (Text.indentation (before.takeEndWhile (· != '\n'))) := by
  induction s using List.reverseRecOn generalizing tail depth with
  | nil => exact .inl ⟨hown, rfl⟩
  | append_singleton s c ih =>
      have hown' : (c :: tail).count '{' ≤ (c :: tail).count '}' → ClosesOwn (c :: tail) :=
        fun hcount => closesOwn_cons.2 ⟨hcount, hown⟩
      rw [← List.append_cons, List.reverse_append, List.reverse_singleton, List.singleton_append,
        openBraceIndent?]
      simp only [List.count_cons] at ih hown'
      by_cases hclose : c = '}'
      · subst hclose
        rw [if_pos rfl]
        exact ih _ (hown' (by simp; omega)) (by simp; omega)
      rw [if_neg hclose]
      by_cases hopen : c = '{'
      · subst hopen
        rw [if_pos rfl]
        by_cases hzero : depth = 0
        · rw [if_pos hzero]
          have hkeeps := keepsOpen_of_closesOwn hown (by omega)
          exact .inr ⟨s, tail, isInnermost_of_closesOwn ⟨rfl, hkeeps⟩ hown, rfl⟩
        · rw [if_neg hzero]
          exact ih _ (hown' (by simp; omega)) (by simp; omega)
      · rw [if_neg hopen]
        exact ih _ (hown' (by simp [hclose, hopen]; omega)) (by simp [hclose, hopen]; omega)

/-- The indentation of the line of a brace stands before the brace. -/
theorem indentation_braceLine (before behind : Text) :
    (braceLine before behind).indentation
      = Text.indentation (before.takeEndWhile (· != '\n')) :=
  Sliced.indentation_append (by decide) _

/-- A line that is indented by spaces and tabs has nothing else in its margin. -/
theorem margin_eq_indentation {line : Text} (h : ∀ c ∈ line.indentation, isIndent c = true) :
    line.margin = line.indentation := by
  conv_lhs => rw [← Text.indentation_append_trimStart line]
  refine Text.takeWhile_append h fun c hc => ?_
  have hspace := Text.head?_dropWhile hc
  cases hindent : isIndent c with
  | false => rfl
  | true => rw [Text.isSpace_of_isIndent hindent] at hspace; cases hspace

end Braces

theorem filter_blanks {blanks : Text} (h : ∀ c ∈ blanks, isSpace c = true) :
    blanks.filter (!isSpace ·) = [] :=
  List.filter_eq_nil_iff.2 fun c hc => by simp [h c hc]

/-! ### Semicolons -/

/-- No semicolon stands behind a space or a tab. -/
def IsTight (t : Text) : Prop := t.IsChain fun b c => c = ';' → isIndent b = false

section Semicolons

variable {done rest : Text}

theorem isTight_tightenFrom (h : IsTight done.reverse) : IsTight (tightenFrom done rest) := by
  induction rest generalizing done with
  | nil => exact h
  | cons c rest ih =>
      rw [tightenFrom]
      refine ih ?_
      rw [IsTight, List.isChain_reverse] at h ⊢
      refine List.isChain_cons.2 ⟨fun b hb hc => ?_, ?_⟩
      · rw [if_pos hc] at hb
        exact Text.head?_dropWhile hb
      · split
        · exact h.suffix (List.dropWhile_suffix _)
        · exact h

theorem tightenFrom_eq_of_isTight (h : IsTight (done.reverse ++ rest)) :
    tightenFrom done rest = done.reverse ++ rest := by
  induction rest generalizing done with
  | nil => exact (List.append_nil _).symm
  | cons c rest ih =>
      have hdone : (if c = ';' then done.dropWhile isIndent else done) = done := by
        split
        · next hc =>
            refine List.dropWhile_eq_self_iff.2 fun hlength hindent => ?_
            obtain ⟨-, -, hborder⟩ := List.isChain_append.1 h
            have hlast : done[0] ∈ done.reverse.getLast? := by
              rw [List.getLast?_reverse, List.head?_eq_getElem?, List.getElem?_eq_getElem hlength]
              rfl
            rw [hborder _ hlast c rfl hc] at hindent
            cases hindent
        · rfl
      rw [tightenFrom, hdone, ih (by simpa using h)]
      simp

theorem tightenFrom_sublist (done rest : Text) :
    (tightenFrom done rest).Sublist (done.reverse ++ rest) := by
  induction rest generalizing done with
  | nil => simp [tightenFrom]
  | cons c rest ih =>
      rw [tightenFrom]
      refine (ih _).trans ?_
      rw [List.reverse_cons, ← List.append_cons]
      refine List.Sublist.append_right ?_ _
      split
      · exact (List.dropWhile_sublist _).reverse
      · exact List.Sublist.refl _

theorem filter_tightenFrom (done rest : Text) :
    (tightenFrom done rest).filter (!isSpace ·) = (done.reverse ++ rest).filter (!isSpace ·) := by
  induction rest generalizing done with
  | nil => rw [tightenFrom, List.append_nil]
  | cons c rest ih =>
      have hdone : (if c = ';' then done.dropWhile isIndent else done).filter (!isSpace ·)
          = done.filter (!isSpace ·) := by
        split
        · conv_rhs => rw [← List.takeWhile_append_dropWhile (p := isIndent) (l := done)]
          have hnone : (done.takeWhile isIndent).filter (!isSpace ·) = [] :=
            filter_blanks fun b hb => Text.isSpace_of_isIndent (List.mem_takeWhile_imp hb)
          rw [List.filter_append, hnone, List.nil_append]
        · rfl
      rw [tightenFrom, ih, List.reverse_cons, ← List.append_cons, List.filter_append,
        List.filter_append, List.filter_reverse, List.filter_reverse, hdone]

theorem getLast?_tightenFrom (done rest : Text) :
    (tightenFrom done rest).getLast? = (done.reverse ++ rest).getLast? := by
  induction rest generalizing done with
  | nil => rw [tightenFrom, List.append_nil]
  | cons c rest ih =>
      rw [tightenFrom, ih, List.reverse_cons, ← List.append_cons,
        List.getLast?_append_of_ne_nil _ (List.cons_ne_nil c rest),
        List.getLast?_append_of_ne_nil _ (List.cons_ne_nil c rest)]

end Semicolons

theorem isTight_tightenSemicolons (line : Text) : IsTight (tightenSemicolons line) :=
  isTight_tightenFrom .nil

theorem tightenSemicolons_eq_self {line : Text} (h : IsTight line) :
    tightenSemicolons line = line :=
  tightenFrom_eq_of_isTight h

/-! ### The line of the caret -/

/-- A line that has been given other blanks, none of them at its end. -/
structure IsRetyped (line new : Text) : Prop where
  filter_eq : new.filter (!isSpace ·) = line.filter (!isSpace ·)
  getLast?_eq : new.getLast? = line.getLast?
  newline_not_mem : '\n' ∉ line → '\n' ∉ new

theorem isRetyped_tightenSemicolons (line : Text) : IsRetyped line (tightenSemicolons line) where
  filter_eq := filter_tightenFrom [] line
  getLast?_eq := getLast?_tightenFrom [] line
  newline_not_mem := fun h hmem => h ((tightenFrom_sublist [] line).subset hmem)

/-- Other blanks in front of what a line has behind its own. -/
theorem isRetyped_front {line front : Text} (hbody : line.trimStart ≠ [])
    (hfront : ∀ c ∈ front, isSpace c = true ∧ c ≠ '\n') :
    IsRetyped line (front ++ line.trimStart) := by
  have hline := Text.indentation_append_trimStart line
  have hindent : line.indentation.filter (!isSpace ·) = [] :=
    filter_blanks fun c hc => List.mem_takeWhile_imp hc
  generalize line.indentation = indent at hline hindent
  generalize line.trimStart = body at hline hbody
  subst hline
  refine ⟨?_, ?_, fun hnew hmem => ?_⟩
  · rw [List.filter_append, List.filter_append, hindent,
      filter_blanks fun c hc => (hfront c hc).1]
  · rw [List.getLast?_append_of_ne_nil _ hbody, List.getLast?_append_of_ne_nil _ hbody]
  · rcases List.mem_append.1 hmem with hmem | hmem
    · exact (hfront _ hmem).2 rfl
    · exact hnew (List.mem_append_right _ hmem)

namespace LayoutOptions

variable (options : LayoutOptions) {indent body : Text}

/-- The indentation of another line, with its spaces and tabs written anew. -/
def realigned (indent : Text) : Text :=
  options.indentation (options.widthOf indent.margin) ++ indent.dropWhile isIndent

theorem reindent_append (hbody : body.head? = some '}') :
    options.reindent (indent ++ body) = options.realigned indent ++ body := by
  have hhead : ∀ c, body.head? = some c → isIndent c = false := Text.forall_head? hbody rfl
  obtain ⟨hmargin, hrest⟩ := Text.span_append indent hhead
  rw [reindent, hmargin, hrest, realigned, Text.margin, List.append_assoc]

theorem isSpace_of_mem_realigned (hindent : ∀ c ∈ indent, isSpace c = true ∧ c ≠ '\n') :
    ∀ c ∈ options.realigned indent, isSpace c = true ∧ c ≠ '\n' := by
  intro c hc
  rcases List.mem_append.1 hc with hc | hc
  · have hblank := options.isIndent_of_mem_indentation hc
    refine ⟨Text.isSpace_of_isIndent hblank, ?_⟩
    rintro rfl
    cases hblank
  · exact hindent c ((List.dropWhile_suffix _).subset hc)

end LayoutOptions

/-- The blanks before a brace are not line breaks. -/
theorem isSpace_of_mem_indentation {before behind : Text} {c : Char}
    (h : c ∈ (braceLine before behind).indentation) : isSpace c = true ∧ c ≠ '\n' := by
  rw [indentation_braceLine] at h
  have hmem := Text.of_mem_takeEndWhile ((List.takeWhile_prefix _).subset h)
  exact ⟨List.mem_takeWhile_imp h, by simpa using hmem⟩

theorem trimStart_append {front body : Text} (hfront : ∀ c ∈ front, isSpace c = true)
    (hbody : body.head? = some '}') : (front ++ body).trimStart = body := by
  have hhead : ∀ c, body.head? = some c → isSpace c = false := Text.forall_head? hbody (by decide)
  rw [Text.trimStart, (Text.span_append front hhead).2, List.dropWhile_eq_nil_iff.2 hfront,
    List.nil_append]

open Capabilities (standard)

namespace Query

variable {line : Text} {options : LayoutOptions}

/-- The line around the caret after a character has been typed. -/
def retyped (above line : Text) (typed : Char) (options : LayoutOptions) : Text :=
  (retyped? above line typed options).getD line

theorem retyped?_brace_eq (above : Text) (hline : line.trimStart.head? = some '}') :
    retyped? above line '}' options = (openBraceIndent? 0 above.reverse).map fun indent =>
      options.realigned indent ++ line.trimStart := by
  simp only [retyped?, hline, decide_true, Bool.and_self, if_true, options.reindent_append hline]

/-- Without an open brace nothing changes; otherwise the line gets the blanks of the brace's. -/
theorem retyped_brace (options : LayoutOptions) (above : Text)
    (hline : line.trimStart.head? = some '}') :
    (∀ before behind, ¬ IsOpenBrace above before behind) ∧
        retyped above line '}' options = line ∨
      ∃ before behind, IsInnermost above before behind ∧ retyped above line '}' options
        = options.realigned (braceLine before behind).indentation ++ line.trimStart := by
  have hsearch := openBraceIndent?_cases above 0 closesOwn_nil rfl
  rw [List.append_nil] at hsearch
  rw [retyped, retyped?_brace_eq above hline]
  rcases hsearch with ⟨hown, hnone⟩ | ⟨before, behind, hinnermost, hsome⟩
  · rw [hnone]
    exact .inl ⟨fun before behind => not_isOpenBrace_of_closesOwn hown, rfl⟩
  · rw [hsome, ← indentation_braceLine before behind]
    exact .inr ⟨before, behind, hinnermost, rfl⟩

/-- The line gets other blanks, and once it has them, nothing more is changed. -/
theorem retyped_settles (above line : Text) (typed : Char) (options : LayoutOptions) :
    IsRetyped line (retyped above line typed options) ∧
      retyped above (retyped above line typed options) typed options
        = retyped above line typed options := by
  have hkept (h : retyped above line typed options = line) :
      IsRetyped line (retyped above line typed options) ∧
        retyped above (retyped above line typed options) typed options
          = retyped above line typed options := by
    rw [h, h]
    exact ⟨⟨rfl, rfl, id⟩, rfl⟩
  by_cases hbrace : typed = '}' ∧ line.trimStart.head? = some '}'
  · obtain ⟨rfl, hline⟩ := hbrace
    rcases retyped_brace options above hline with ⟨-, hsame⟩ |
        ⟨before, behind, hinnermost, hnew⟩
    · exact hkept hsame
    · have hblank := options.isSpace_of_mem_realigned
        fun d (hd : d ∈ (braceLine before behind).indentation) => isSpace_of_mem_indentation hd
      have hbody : line.trimStart ≠ [] := fun hnil => by simp [hnil] at hline
      have htrim := trimStart_append (fun d hd => (hblank d hd).1) hline
      rw [hnew]
      refine ⟨isRetyped_front hbody hblank, ?_⟩
      -- The line starts with the brace as before, and the same brace is open before it.
      rcases retyped_brace options above (htrim.symm ▸ hline) with ⟨-, hsame⟩ |
          ⟨before', behind', hinnermost', hagain⟩
      · exact hsame
      · obtain ⟨rfl, rfl⟩ := hinnermost'.unique hinnermost
        rw [hagain, htrim]
  · by_cases hsemicolon : typed = ';'
    · subst hsemicolon
      exact ⟨isRetyped_tightenSemicolons line,
        tightenSemicolons_eq_self (isTight_tightenSemicolons line)⟩
    · refine hkept ?_
      rw [retyped, retyped?, if_neg (by simpa using hbrace), if_neg hsemicolon]
      rfl

/-- Under a brace whose line is indented by spaces and tabs, a line gets a margin of the same width
and no other blanks. -/
theorem margin_retyped {above before behind : Text}
    (hline : line.trimStart.head? = some '}') (hinnermost : IsInnermost above before behind)
    (hindents : ∀ d ∈ (braceLine before behind).indentation, isIndent d = true) :
    retyped above line '}' options
        = (retyped above line '}' options).margin ++ line.trimStart ∧
      options.widthOf (retyped above line '}' options).margin
        = options.widthOf (braceLine before behind).margin := by
  rcases retyped_brace options above hline with ⟨hnone, -⟩ |
      ⟨before', behind', hinnermost', hnew⟩
  · exact absurd hinnermost.toIsOpenBrace (hnone before behind)
  · obtain ⟨rfl, rfl⟩ := hinnermost'.unique hinnermost
    have hindent : (braceLine before' behind').indentation.margin
        = (braceLine before' behind').indentation := List.takeWhile_eq_self_iff.2 hindents
    rw [LayoutOptions.realigned, List.dropWhile_eq_nil_iff.2 hindents, List.append_nil,
      hindent] at hnew
    have hmargin : (retyped above line '}' options).margin
        = options.indentation (options.widthOf (braceLine before' behind').indentation) := by
      rw [hnew, Text.margin,
        Text.takeWhile_append (fun d => options.isIndent_of_mem_indentation)
          (Text.forall_head? hline rfl)]
    rw [hmargin, LayoutOptions.widthOf_indentation, margin_eq_indentation hindents]
    exact ⟨hnew, rfl⟩

end Query

/-! ### Whole texts -/

namespace Text

/-- Line `n` of a text, without its line break, and what stands before and behind it. -/
structure IsLineOf (t : Text) (n : Nat) (above line below : Text) : Prop where
  text_eq : t = above ++ line ++ below
  span_eq : t.lineSpan? n = some (byteSize above, byteSize (above ++ line))

theorem isLineOf_of_lines {t line back rest : Text} {above below : List Text}
    (htext : t = above.flatMap (· ++ ['\n']) ++ (line ++ back ++ rest))
    (hlines : t.lines = above ++ (line ++ back) :: below)
    (hcontent : (line ++ back).lineContent = line) :
    IsLineOf t above.length (above.flatMap (· ++ ['\n'])) line (back ++ rest) := by
  constructor
  · rw [htext, List.append_assoc, List.append_assoc]
  · rw [Sliced.LineIndex.lineSpan?_of_lines hlines, hcontent, byteSize_append]

end Text

namespace Query

theorem formatOnType_of_lines {c : Context} {above below : List Text} {line back rest : Text}
    (htext : c.text = above.flatMap (· ++ ['\n']) ++ (line ++ back ++ rest))
    (hlines : c.text.lines = above ++ (line ++ back) :: below)
    (hcontent : (line ++ back).lineContent = line)
    (hcaret : (c.text.positionOf c.caret).line = above.length) (typed : Char)
    (options : LayoutOptions) :
    formatOnType c typed options = .ok (above.flatMap (· ++ ['\n'])
      ++ (retyped (above.flatMap (· ++ ['\n'])) line typed options ++ back ++ rest)) := by
  have htake : c.text.lines.take above.length = above := by rw [hlines, List.take_left]
  have hget : c.text.lines[above.length]? = some (line ++ back) := by simp [hlines]
  rw [formatOnType]
  simp only [hcaret, htake, hget, Option.getD_some, hcontent, retyped]
  cases retyped? (above.flatMap (· ++ ['\n'])) line typed options with
  | none => rw [htext, Option.getD_none]
  | some new =>
      have hsplit : c.text = (above.flatMap (· ++ ['\n']) ++ line) ++ (back ++ rest) := by
        simp only [htext, List.append_assoc]
      rw [← List.length_append, hsplit, List.drop_left, Option.getD_some]
      simp only [List.append_assoc]

/-- Typing changes the blanks in the line of the caret and nothing else, and typing the same there
again changes nothing more. A semicolon leaves no space or tab before the semicolons of its line. A
closing brace that a line starts with gives it a margin as wide as the one of the line with the
innermost open brace, if that line is indented by spaces and tabs; without an open brace the text
stays as it is. -/
theorem formatOnType_settles (c : Context) (typed : Char) (options : LayoutOptions) :
    ∃ above line new below t,
      c.text.IsLineOf (c.text.positionOf c.caret).line above line below ∧
      standard.formatOnType c typed options = .ok t ∧
      t.IsLineOf (c.text.positionOf c.caret).line above new below ∧
      new.filter (!isSpace ·) = line.filter (!isSpace ·) ∧
      (∀ caret, (t.positionOf caret).line = (c.text.positionOf c.caret).line →
        standard.formatOnType { c with text := t, caret } typed options = .ok t) ∧
      (typed = ';' → IsTight new) ∧
      (typed = '}' → line.trimStart.head? = some '}' →
        (∀ before behind, IsInnermost above before behind →
          (∀ d ∈ (braceLine before behind).indentation, isIndent d = true) →
          new = new.margin ++ line.trimStart ∧
            options.widthOf new.margin = options.widthOf (braceLine before behind).margin) ∧
        ((∀ before behind, ¬ IsOpenBrace above before behind) → t = c.text)) := by
  obtain ⟨above, raw, below, hlines, hline⟩ :=
    Text.exists_line (Sliced.positionOf_line_lt c.text c.caret)
  obtain ⟨rest, htext, -⟩ := Text.exists_rest hlines
  obtain ⟨back, hraw, hback, hcontent⟩ := Text.exists_lineBreak raw
  generalize raw.lineContent = line at hraw hcontent
  subst hraw
  have hcaret : (c.text.positionOf c.caret).line = above.length := by rw [hline]
  have hnone : '\n' ∉ line := fun hmem =>
    Text.not_mem_of_mem_lines (hlines ▸ List.mem_append_right _ List.mem_cons_self)
      (List.mem_append_left _ hmem)
  obtain ⟨hretyped, hagain⟩ := retyped_settles (above.flatMap (· ++ ['\n'])) line typed options
  have hformatted := formatOnType_of_lines htext hlines (hcontent line rfl) hcaret typed options
  obtain ⟨new, hnew⟩ : ∃ new, new = retyped (above.flatMap (· ++ ['\n'])) line typed options :=
    ⟨_, rfl⟩
  rw [← hnew] at hretyped hagain hformatted
  have hcontent' := hcontent new hretyped.getLast?_eq
  have hlines' : Text.lines (above.flatMap (· ++ ['\n']) ++ (new ++ back ++ rest))
      = above ++ (new ++ back) :: below := by
    refine Text.lines_replaced (htext ▸ hlines) ?_
    simpa using ⟨hretyped.newline_not_mem hnone, hback⟩
  rw [hcaret]
  refine ⟨_, line, new, back ++ rest, _, Text.isLineOf_of_lines htext hlines (hcontent line rfl),
    hformatted, Text.isLineOf_of_lines rfl hlines' hcontent', hretyped.filter_eq,
    fun caret hsame => ?_, ?_, ?_⟩
  · have hformatted' := formatOnType_of_lines (c := { c with text := _, caret }) rfl hlines'
      hcontent' hsame typed options
    rwa [hagain] at hformatted'
  · rintro rfl
    rw [hnew]
    exact isTight_tightenSemicolons line
  · rintro rfl hstart
    refine ⟨fun before behind hinnermost hindents => ?_, fun hopen => ?_⟩
    · rw [hnew]
      exact margin_retyped hstart hinnermost hindents
    · rcases retyped_brace options (above.flatMap (· ++ ['\n'])) hstart with
          ⟨-, hsame⟩ | ⟨before, behind, hinnermost, -⟩
      · rw [hnew, hsame, htext]
      · exact absurd hinnermost.toIsOpenBrace (hopen before behind)

end Query

end LanguageServer
