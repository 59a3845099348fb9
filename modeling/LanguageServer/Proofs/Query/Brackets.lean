import LanguageServer.Proofs.Query.Matching
import LanguageServer.Proofs.Text.Ends
import LanguageServer.Proofs.Text.Places
import LanguageServer.Query.Findings

/-!
# Findings about brackets

A bracket counts if no comment starts before it on its line and every double quote before it is
closed (`Counts`). The brackets that count are read line by line in their order
(`mem_countedBrackets_iff`, `pairwise_countedBrackets`), and the errors among the findings of a text
are about those without a counterpart (`errors_findings`). Leaving these out repairs the word of
brackets (`findings_match_brackets`).
-/

namespace LanguageServer

/-- The position comes before the other one. -/
def Position.Before (p q : Position) : Prop :=
  p.line < q.line ∨ p.line = q.line ∧ p.character < q.character

/-! ### Where brackets count -/

/-- What may stand between two double quotes: there is none in it but behind a backslash, and no
backslash comes last. -/
inductive IsQuotable : Text → Prop
  | nil : IsQuotable []
  | char {c : Char} {t : Text} : c ≠ '"' → c ≠ '\\' → IsQuotable t → IsQuotable (c :: t)
  | escaped (c : Char) {t : Text} : IsQuotable t → IsQuotable ('\\' :: c :: t)

/-- Texts in which every double quote that is opened is closed. -/
inductive QuotesClosed : Text → Prop
  | nil : QuotesClosed []
  | char {c : Char} {t : Text} : c ≠ '"' → QuotesClosed t → QuotesClosed (c :: t)
  | quoted {inside t : Text} : IsQuotable inside → QuotesClosed t →
      QuotesClosed ('"' :: (inside ++ '"' :: t))

/-- The position is that of a bracket outside of comments and double quotes. -/
def Counts (t : Text) (c : Char) (p : Position) : Prop :=
  ∃ before after, t.lines[p.line]? = some (before ++ c :: after) ∧
    p.character = Text.units before ∧ c ∈ ['(', ')', '[', ']', '{', '}'] ∧
    ¬ ['/', '/'] <:+: before ∧ QuotesClosed before

/-! ### One line -/

/-- Reading the text from this state on ends outside of quotes. -/
def ClosesFrom (quoted escaped : Bool) (t : Text) : Prop :=
  match quoted, escaped with
  | false, _ => QuotesClosed t
  | true, false => ∃ inside rest, t = inside ++ '"' :: rest ∧ IsQuotable inside ∧ QuotesClosed rest
  | true, true =>
    ∃ c inside rest, t = c :: (inside ++ '"' :: rest) ∧ IsQuotable inside ∧ QuotesClosed rest

theorem closesFrom_nil (quoted escaped : Bool) : ClosesFrom quoted escaped [] ↔ quoted = false := by
  cases quoted with
  | false => exact iff_of_true .nil rfl
  | true => cases escaped <;> simp [ClosesFrom]

theorem quotesClosed_quote (t : Text) : QuotesClosed ('"' :: t) ↔ ClosesFrom true false t := by
  constructor
  · intro h
    cases h with
    | char hne _ => exact absurd rfl hne
    | quoted hinside hrest => exact ⟨_, _, rfl, hinside, hrest⟩
  · rintro ⟨inside, rest, rfl, hinside, hrest⟩
    exact .quoted hinside hrest

theorem quotesClosed_cons {c : Char} (hc : c ≠ '"') (t : Text) :
    QuotesClosed (c :: t) ↔ QuotesClosed t := by
  constructor
  · intro h
    cases h with
    | char _ hrest => exact hrest
    | quoted _ _ => exact absurd rfl hc
  · exact .char hc

theorem closesFrom_quoted (c : Char) (t : Text) :
    ClosesFrom true false (c :: t) ↔ ClosesFrom (c != '"') (c == '\\') t := by
  by_cases hquote : c = '"'
  · subst hquote
    constructor
    · rintro ⟨inside, rest, heq, hinside, hrest⟩
      cases hinside with
      | nil =>
          obtain ⟨-, rfl⟩ := List.cons.inj heq
          exact hrest
      | char hne _ _ => exact absurd (List.cons.inj heq).1.symm hne
      | escaped _ _ => exact absurd (List.cons.inj heq).1 (by decide)
    · intro hrest
      exact ⟨[], t, rfl, .nil, hrest⟩
  · rw [show (c != '"') = true by simpa using hquote]
    by_cases hslash : c = '\\'
    · subst hslash
      constructor
      · rintro ⟨inside, rest, heq, hinside, hrest⟩
        cases hinside with
        | nil => exact absurd (List.cons.inj heq).1 (by decide)
        | char _ hne _ => exact absurd (List.cons.inj heq).1.symm hne
        | escaped d hinside => exact ⟨d, _, rest, (List.cons.inj heq).2, hinside, hrest⟩
      · rintro ⟨d, inside, rest, rfl, hinside, hrest⟩
        exact ⟨'\\' :: d :: inside, rest, rfl, .escaped d hinside, hrest⟩
    · rw [show (c == '\\') = false by simpa using hslash]
      constructor
      · rintro ⟨inside, rest, heq, hinside, hrest⟩
        cases hinside with
        | nil => exact absurd (List.cons.inj heq).1 hquote
        | char _ _ hinside => exact ⟨_, rest, (List.cons.inj heq).2, hinside, hrest⟩
        | escaped _ _ => exact absurd (List.cons.inj heq).1 hslash
      · rintro ⟨inside, rest, rfl, hinside, hrest⟩
        exact ⟨c :: inside, rest, rfl, .char hquote hslash hinside, hrest⟩

theorem closesFrom_escaped (c : Char) (t : Text) :
    ClosesFrom true true (c :: t) ↔ ClosesFrom true false t := by
  constructor
  · rintro ⟨d, inside, rest, heq, h⟩
    exact ⟨inside, rest, (List.cons.inj heq).2, h⟩
  · rintro ⟨inside, rest, rfl, h⟩
    exact ⟨c, inside, rest, rfl, h⟩

/-- A place in a text is at its start, or in what follows the first character. -/
theorem exists_place_cons {c first : Char} {t : Text} {P : Text → Prop} :
    (∃ before after, first :: t = before ++ c :: after ∧ P before) ↔
      first = c ∧ P [] ∨ ∃ before after, t = before ++ c :: after ∧ P (first :: before) := by
  constructor
  · rintro ⟨before, after, heq, hbefore⟩
    cases before with
    | nil => exact .inl ⟨(List.cons.inj heq).1, hbefore⟩
    | cons d before =>
        obtain ⟨rfl, rfl⟩ := List.cons.inj heq
        exact .inr ⟨before, after, rfl, hbefore⟩
  · rintro (⟨rfl, hbefore⟩ | ⟨before, after, rfl, hbefore⟩)
    · exact ⟨[], t, rfl, hbefore⟩
    · exact ⟨first :: before, after, rfl, hbefore⟩

theorem mem_bracketsFrom_iff {c : Char} {k column : Nat} {quoted escaped : Bool} {t : Text} :
    (c, k) ∈ bracketsFrom column quoted escaped t ↔
      ∃ before after, t = before ++ c :: after ∧ k = column + Text.units before ∧
        c ∈ ['(', ')', '[', ']', '{', '}'] ∧ ClosesFrom quoted escaped before := by
  induction t generalizing column quoted escaped with
  | nil => simp [bracketsFrom]
  | cons d t ih =>
      rw [exists_place_cons, closesFrom_nil, bracketsFrom]
      simp only [Text.units_nil, Text.units_cons, ← Nat.add_assoc, Nat.add_zero]
      cases quoted with
      | true =>
          simp only [if_true, Bool.true_eq_false, and_false, false_or]
          cases escaped with
          | true => simp only [if_true, ih, closesFrom_escaped]
          | false => simp only [Bool.false_eq_true, if_false, ih, closesFrom_quoted]
      | false =>
          have hplain : ∀ before : Text, ClosesFrom false escaped before ↔ QuotesClosed before :=
            fun _ => Iff.rfl
          simp only [Bool.false_eq_true, if_false, and_true, hplain]
          by_cases hquote : d = '"'
          · subst hquote
            have hnone : ¬ ('"' = c ∧ k = column ∧ c ∈ ['(', ')', '[', ']', '{', '}']) := by
              rintro ⟨rfl, -, hmem⟩
              exact absurd hmem (by decide)
            simp only [if_true, ih, quotesClosed_quote, hnone, false_or]
          · have hrest := @ih (column + Text.unitsOf d) false false
            simp only [if_neg hquote, quotesClosed_cons hquote]
            split
            · next hbracket =>
                rw [List.mem_cons, hrest, Prod.mk.injEq]
                refine or_congr_left ⟨?_, ?_⟩
                · rintro ⟨rfl, rfl⟩
                  exact ⟨rfl, rfl, List.contains_iff_mem.1 hbracket⟩
                · rintro ⟨rfl, rfl, -⟩
                  exact ⟨rfl, rfl⟩
            · next hbracket =>
                have hnone : ¬ (d = c ∧ k = column ∧ c ∈ ['(', ')', '[', ']', '{', '}']) := by
                  rintro ⟨rfl, -, hmem⟩
                  exact hbracket (List.contains_iff_mem.2 hmem)
                simp only [hrest, hnone, false_or]
                rfl

/-- Brackets are read from left to right. -/
theorem pairwise_bracketsFrom (column : Nat) (quoted escaped : Bool) (t : Text) :
    (bracketsFrom column quoted escaped t).Pairwise (fun a b => a.2 < b.2) ∧
      ∀ entry ∈ bracketsFrom column quoted escaped t, column ≤ entry.2 := by
  induction t generalizing column quoted escaped with
  | nil => exact ⟨.nil, nofun⟩
  | cons d t ih =>
      have hd := Text.unitsOf_pos d
      have hskip : ∀ quoted escaped : Bool,
          (bracketsFrom (column + Text.unitsOf d) quoted escaped t).Pairwise
              (fun a b => a.2 < b.2) ∧
            ∀ entry ∈ bracketsFrom (column + Text.unitsOf d) quoted escaped t,
              column < entry.2 := by
        intro quoted escaped
        obtain ⟨hpairwise, hbehind⟩ := ih (column + Text.unitsOf d) quoted escaped
        exact ⟨hpairwise, fun entry hentry => by have := hbehind entry hentry; omega⟩
      have hskip' : ∀ quoted escaped : Bool, _ := fun quoted escaped =>
        (hskip quoted escaped).imp_right fun h entry hentry => (h entry hentry).le
      rw [bracketsFrom]
      split
      · split
        · exact hskip' true false
        · exact hskip' _ _
      · split
        · exact hskip' true false
        · split
          · obtain ⟨hpairwise, hbehind⟩ := hskip false false
            refine ⟨List.pairwise_cons.2 ⟨hbehind, hpairwise⟩, ?_⟩
            exact List.forall_mem_cons.2 ⟨Nat.le_refl column, fun e he => (hbehind e he).le⟩
          · exact hskip' false false

/-- What is found by then is found by a search. -/
theorem Text.exists_indexOf?_of_isPrefix {pattern s t : Text} (h : s ++ pattern <+: t) :
    ∃ i, Text.indexOf? pattern t = some i ∧ i ≤ s.length := by
  induction t generalizing s with
  | nil =>
      obtain ⟨rfl, rfl⟩ := List.append_eq_nil_iff.1 (List.prefix_nil.1 h)
      exact ⟨0, rfl, Nat.le_refl 0⟩
  | cons c t ih =>
      rw [Text.indexOf?, Text.indexFrom?]
      split
      · exact ⟨0, rfl, Nat.zero_le _⟩
      · next hhere =>
          cases s with
          | nil => exact absurd (List.isPrefixOf_iff_prefix.2 h) hhere
          | cons d s =>
              obtain ⟨i, hi, hle⟩ := ih (List.cons_prefix_cons.1 h).2
              rw [Text.indexFrom?_eq, hi]
              exact ⟨0 + 1 + i, rfl, by rw [List.length_cons]; omega⟩

/-- A bracket comes before the comment exactly if no comment starts before the bracket. -/
theorem length_lt_comment_iff {before after : Text} {c : Char} (hc : c ≠ '/') :
    before.length
        < (Text.indexOf? ['/', '/'] (before ++ c :: after)).getD (before ++ c :: after).length ↔
      ¬ ['/', '/'] <:+: before := by
  constructor
  · rintro hlt ⟨s, u, rfl⟩
    have hearly : s ++ ['/', '/'] <+: s ++ ['/', '/'] ++ u ++ c :: after :=
      ⟨u ++ c :: after, (List.append_assoc _ _ _).symm⟩
    obtain ⟨i, hi, hle⟩ := Text.exists_indexOf?_of_isPrefix hearly
    rw [hi, Option.getD_some, List.length_append, List.length_append] at hlt
    omega
  · intro hnone
    cases hfound : Text.indexOf? ['/', '/'] (before ++ c :: after) with
    | none => simp
    | some i =>
        rw [Option.getD_some]
        by_contra hle
        have hsign := Text.isPrefix_of_indexOf? hfound
        rw [List.drop_append_of_le_length (Nat.le_of_not_lt hle)] at hsign
        have hbefore := List.take_append_drop i before
        -- The comment would start in front of the bracket, so both of its slashes would be there.
        generalize before.drop i = behind at hsign hbefore
        rcases behind with _ | ⟨a, _ | ⟨b, behind⟩⟩
        · exact hc (List.cons_prefix_cons.1 hsign).1.symm
        · exact hc (List.cons_prefix_cons.1 (List.cons_prefix_cons.1 hsign).2).1.symm
        · obtain ⟨rfl, hrest⟩ := List.cons_prefix_cons.1 hsign
          obtain ⟨rfl, -⟩ := List.cons_prefix_cons.1 hrest
          exact hnone ⟨before.take i, behind, by simpa using hbefore⟩

theorem exists_of_take_iff {n : Nat} {line before : Text} {c : Char} :
    (∃ after, line.take n = before ++ c :: after) ↔
      ∃ after, line = before ++ c :: after ∧ before.length < n := by
  constructor
  · rintro ⟨after, htake⟩
    have hlength := congrArg List.length htake
    rw [List.length_take, List.length_append, List.length_cons] at hlength
    refine ⟨after ++ line.drop n, ?_, by omega⟩
    rw [← List.cons_append, ← List.append_assoc, ← htake, List.take_append_drop]
  · rintro ⟨after, rfl, hlt⟩
    refine ⟨after.take (n - before.length - 1), ?_⟩
    rw [List.take_append, List.take_of_length_le hlt.le, List.take_cons (by omega)]

theorem exists_beforeComment_iff {line before : Text} {c : Char} (hc : c ≠ '/') :
    (∃ after, beforeComment line = before ++ c :: after) ↔
      (∃ after, line = before ++ c :: after) ∧ ¬ ['/', '/'] <:+: before := by
  rw [beforeComment, exists_of_take_iff]
  constructor
  · rintro ⟨after, rfl, hlt⟩
    exact ⟨⟨after, rfl⟩, (length_lt_comment_iff hc).1 hlt⟩
  · rintro ⟨⟨after, rfl⟩, hnone⟩
    exact ⟨after, rfl, (length_lt_comment_iff hc).2 hnone⟩

/-- No bracket is among the carriage returns that a line is read without. -/
theorem exists_of_dropReturns_iff {line before : Text} {c : Char} (hc : c ≠ '\r') :
    (∃ after, Text.dropReturns line = before ++ c :: after) ↔
      ∃ after, line = before ++ c :: after := by
  constructor
  · rintro ⟨after, hdrop⟩
    refine ⟨after ++ line.takeEndWhile (· == '\r'), ?_⟩
    rw [← List.cons_append, ← List.append_assoc, ← hdrop]
    exact (Text.dropEndWhile_append_takeEndWhile _ line).symm
  · rintro ⟨after, rfl⟩
    have hkeep : ¬ (c == '\r') = true := by simpa using hc
    have hlast : Text.dropEndWhile (· == '\r') (c :: after)
        = c :: Text.dropEndWhile (· == '\r') after := by
      have happend := Text.dropEndWhile_append (· == '\r') [c] after
      have hsingle : Text.dropEndWhile (· == '\r') [c] = [c] := by
        simp [Text.dropEndWhile, hc]
      rw [hsingle] at happend
      split at happend
      · next hnil => rw [hnil]; exact happend
      · exact happend
    refine ⟨Text.dropEndWhile (· == '\r') after, ?_⟩
    rw [Text.dropReturns, Text.dropEndWhile_append, hlast, if_neg (List.cons_ne_nil _ _)]

theorem mem_lineBrackets_iff {n : Nat} {line : Text} {c : Char} {p : Position} :
    (c, p) ∈ lineBrackets n (Text.dropReturns line) ↔
      ∃ before after, line = before ++ c :: after ∧ p = ⟨n, Text.units before⟩ ∧
        c ∈ ['(', ')', '[', ']', '{', '}'] ∧ ¬ ['/', '/'] <:+: before ∧ QuotesClosed before := by
  have hcut : c ∈ ['(', ')', '[', ']', '{', '}'] → ∀ before : Text,
      (∃ after, beforeComment (Text.dropReturns line) = before ++ c :: after) ↔
        (∃ after, line = before ++ c :: after) ∧ ¬ ['/', '/'] <:+: before := by
    intro hbracket before
    rw [exists_beforeComment_iff (by rintro rfl; exact absurd hbracket (by decide)),
      exists_of_dropReturns_iff (by rintro rfl; exact absurd hbracket (by decide))]
  rw [lineBrackets, List.mem_map]
  constructor
  · rintro ⟨⟨d, column⟩, hmem, heq⟩
    obtain ⟨rfl, rfl⟩ := Prod.mk.inj heq
    obtain ⟨before, after, hcode, rfl, hbracket, hquotes⟩ := mem_bracketsFrom_iff.1 hmem
    obtain ⟨⟨after, hline⟩, hcomment⟩ := (hcut hbracket before).1 ⟨after, hcode⟩
    exact ⟨before, after, hline, by rw [Nat.zero_add], hbracket, hcomment, hquotes⟩
  · rintro ⟨before, after, hline, rfl, hbracket, hcomment, hquotes⟩
    obtain ⟨after, hcode⟩ := (hcut hbracket before).2 ⟨⟨after, hline⟩, hcomment⟩
    refine ⟨(c, Text.units before), mem_bracketsFrom_iff.2 ?_, rfl⟩
    exact ⟨before, after, hcode, (Nat.zero_add _).symm, hbracket, hquotes⟩

/-! ### Whole texts -/

/-- The brackets of a text that count, in their order. -/
def countedBrackets (t : Text) : List Bracket :=
  t.lines.zipIdx.flatMap fun (line, n) => lineBrackets n line.dropReturns

theorem mem_countedBrackets_iff {t : Text} {c : Char} {p : Position} :
    (c, p) ∈ countedBrackets t ↔ Counts t c p := by
  rw [countedBrackets, List.mem_flatMap]
  constructor
  · rintro ⟨⟨line, n⟩, hline, hmem⟩
    obtain ⟨before, after, rfl, rfl, hbracket, hcomment, hquotes⟩ := mem_lineBrackets_iff.1 hmem
    exact ⟨before, after, List.mem_zipIdx_iff_getElem?.1 hline, rfl, hbracket, hcomment, hquotes⟩
  · rintro ⟨before, after, hline, hcharacter, hbracket, hcomment, hquotes⟩
    refine ⟨(before ++ c :: after, p.line), List.mem_zipIdx_iff_getElem?.2 hline, ?_⟩
    exact mem_lineBrackets_iff.2
      ⟨before, after, rfl, by rw [← hcharacter], hbracket, hcomment, hquotes⟩

theorem pairwise_countedBrackets (t : Text) :
    (countedBrackets t).Pairwise fun a b => a.2.Before b.2 := by
  suffices h : ∀ (ls : List Text) (n : Nat),
      ((ls.zipIdx n).flatMap fun (line, n) => lineBrackets n line.dropReturns).Pairwise
        fun a b => a.2.Before b.2 from h t.lines 0
  intro ls n
  rw [List.pairwise_flatMap]
  constructor
  · rintro ⟨line, n⟩ -
    have hline := (pairwise_bracketsFrom 0 false false (beforeComment line.dropReturns)).1
    exact List.pairwise_map.2 (hline.imp fun h => .inr ⟨rfl, h⟩)
  · refine (Text.pairwise_zipIdx ls n).imp fun hlt a ha b hb => .inl ?_
    obtain ⟨_, _, rfl⟩ := List.mem_map.1 ha
    obtain ⟨_, _, rfl⟩ := List.mem_map.1 hb
    exact hlt

/-- No two brackets have the same position. -/
theorem nodup_positions (t : Text) : ((countedBrackets t).map Prod.snd).Nodup := by
  refine List.pairwise_map.2 ((pairwise_countedBrackets t).imp ?_)
  rintro a b hbefore heq
  rw [heq] at hbefore
  rcases hbefore with h | ⟨-, h⟩ <;> exact absurd h (Nat.lt_irrefl _)

/-! ### Findings -/

theorem severity_ne_error {n : Nat} {line : Text} {f : Finding} (h : f ∈ lineFindings n line) :
    f.severity ≠ .error := by
  unfold lineFindings at h
  dsimp only at h
  simp only [List.mem_append, List.mem_map] at h
  rcases h with ((⟨_, _, rfl⟩ | h) | h) | ⟨_, _, rfl⟩
  · nofun
  · split at h
    · cases h
    · rw [List.mem_singleton.1 h]
      nofun
  · split at h
    · cases h
    · rw [List.mem_singleton.1 h]
      nofun
  · nofun

theorem errors_findingsFrom (opened : List Bracket) (n : Nat) (ls : List Text) :
    (findingsFrom opened n ls).filter (·.severity = .error)
      = (matchBrackets opened ((ls.zipIdx n).flatMap fun (line, n) =>
            lineBrackets n line.dropReturns)).2.map (bracketFinding "Unmatched")
        ++ (matchBrackets opened ((ls.zipIdx n).flatMap fun (line, n) =>
            lineBrackets n line.dropReturns)).1.reverse.map (bracketFinding "Unclosed") := by
  have herrors : ∀ (word : String) (bs : List Bracket),
      (bs.map (bracketFinding word)).filter (·.severity = .error) = bs.map (bracketFinding word) :=
    fun word bs => List.filter_eq_self.2 fun f hf => by
      obtain ⟨b, -, rfl⟩ := List.mem_map.1 hf
      exact decide_eq_true rfl
  induction ls generalizing opened n with
  | nil => exact herrors "Unclosed" _
  | cons raw ls ih =>
      have hother : (lineFindings n raw.dropReturns).filter (·.severity = .error) = [] :=
        List.filter_eq_nil_iff.2 fun f hf => by simpa using severity_ne_error hf
      rw [findingsFrom, List.zipIdx_cons, List.flatMap_cons, matchBrackets_append]
      simp only [List.filter_append, hother, herrors, ih, List.nil_append, List.map_append,
        List.append_assoc]

/-- The errors are about the brackets that have no counterpart. -/
theorem errors_findings (t : Text) :
    ∃ unmatched unclosed : List Bracket,
      strayBrackets (countedBrackets t) = unmatched ++ unclosed ∧
      (findings t).filter (·.severity = .error)
        = unmatched.map (bracketFinding "Unmatched") ++ unclosed.map (bracketFinding "Unclosed") ∧
      (∀ b ∈ unmatched, opening? b.1 ≠ none) ∧ ∀ b ∈ unclosed, opening? b.1 = none := by
  obtain ⟨hopened, hunmatched⟩ := kinds_matchBrackets [] (countedBrackets t)
  refine ⟨_, _, rfl, errors_findingsFrom [] 0 t.lines, hunmatched, fun b hb => ?_⟩
  exact (hopened b (List.mem_reverse.1 hb)).resolve_left List.not_mem_nil

/-- There are no errors among the findings of a text exactly if the brackets that count make a
well-nested word. In any case each error is one code unit wide and starts at a bracket that counts,
which its description quotes; no bracket has two errors, and without the brackets that have one the
word is well nested. -/
theorem findings_match_brackets (t : Text) :
    ∃ word : List Bracket, (word.Pairwise fun a b => a.2.Before b.2) ∧
      (∀ c p, (c, p) ∈ word ↔ Counts t c p) ∧
      let errors := (findings t).filter (·.severity = .error)
      (errors = [] ↔ WellNested (word.map Prod.fst)) ∧
      (∀ e ∈ errors, ∃ c p, (c, p) ∈ word ∧ e.range = ⟨p, ⟨p.line, p.character + 1⟩⟩ ∧
        e.description = some ((if (opening? c).isSome then "Unmatched" else "Unclosed").toList
          ++ " '".toList ++ [c, '\''])) ∧
      (errors.map (·.range.start)).Nodup ∧
      WellNested ((word.filter fun b => b.2 ∉ errors.map (·.range.start)).map Prod.fst) := by
  refine ⟨countedBrackets t, pairwise_countedBrackets t, fun c p => mem_countedBrackets_iff, ?_⟩
  obtain ⟨unmatched, unclosed, hstray, herrors, hclosing, hopening⟩ := errors_findings t
  dsimp only
  rw [herrors]
  have hstart : (unmatched.map (bracketFinding "Unmatched")
      ++ unclosed.map (bracketFinding "Unclosed")).map (·.range.start)
        = (strayBrackets (countedBrackets t)).map Prod.snd := by
    rw [hstray, List.map_append, List.map_append, List.map_map, List.map_map]
    rfl
  obtain ⟨rest, hnested, hsublist, hperm⟩ := exists_rest_of_matchBrackets (countedBrackets t)
  refine ⟨?_, fun e he => ?_, ?_, ?_⟩
  · rw [← strayBrackets_eq_nil_iff, hstray]
    simp
  · have hcounts : ∀ b ∈ unmatched ++ unclosed, b ∈ countedBrackets t := fun b hb =>
      hperm.mem_iff.1 (List.mem_append_left rest (hstray ▸ hb))
    rcases List.mem_append.1 he with he | he
    · obtain ⟨⟨c, p⟩, hb, rfl⟩ := List.mem_map.1 he
      refine ⟨c, p, hcounts _ (List.mem_append_left _ hb), rfl, ?_⟩
      rw [if_pos (Option.isSome_iff_ne_none.2 (hclosing _ hb))]
      rfl
    · obtain ⟨⟨c, p⟩, hb, rfl⟩ := List.mem_map.1 he
      refine ⟨c, p, hcounts _ (List.mem_append_right _ hb), rfl, ?_⟩
      rw [if_neg (by rw [hopening _ hb]; nofun)]
      rfl
  · rw [hstart]
    have hnodup := (hperm.map Prod.snd).nodup_iff.2 (nodup_positions t)
    rw [List.map_append] at hnodup
    exact (List.nodup_append.1 hnodup).1
  · rw [hstart, filter_eq_of_perm (nodup_positions t) hsublist hperm]
    exact hnested

/-- Brackets in quotes and comments do not count, and the second line closes those of the first. -/
example : ((findings "f(\"[\\\"\", [x\x7d // )\n])\n".toList).filter (·.severity = .error)).map
    (·.range.start) = [⟨0, 11⟩] := by decide

end LanguageServer
