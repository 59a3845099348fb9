import LanguageServer.Proofs.Text.Ends
import LanguageServer.Query.Signature

/-!
# Lists of parameters

The parameters of a signature stand between its first round bracket and the one that closes it, with
commas between them. A parameter may have brackets of its own, with commas inside (`Bracketed`). The
list is cut with a count of the open brackets for which the angle of an arrow closes one too. So a
parameter goes by as a whole exactly if there is no arrow in it (`splitParameters_bracketed`), and
the parameters of a signature are found exactly if none of them has an arrow
(`parameterList_eq_iff`).
-/

namespace LanguageServer

/-- The brackets that go together in a signature, the opening one first. -/
def signaturePairs : List (Char × Char) := [('(', ')'), ('[', ']'), ('<', '>')]

/-- Texts in which brackets are properly nested. The angle of an arrow is not a bracket, so none
that stands behind a minus closes anything. Commas may stand inside of brackets, and outside of them
if `commas` is set. -/
inductive Bracketed : Bool → Text → Prop
  | nil {commas : Bool} : Bracketed commas []
  | char {commas : Bool} {c : Char} {t : Text} : c ∉ ['(', ')', '[', ']', '<', '>'] →
      (c = ',' → commas = true) → Bracketed commas t → Bracketed commas (c :: t)
  | arrow {commas : Bool} {t : Text} : Bracketed commas t → Bracketed commas ('-' :: '>' :: t)
  | group {commas : Bool} {opening closing : Char} {inside t : Text} :
      (opening, closing) ∈ signaturePairs → (closing = '>' → inside.getLast? ≠ some '-') →
      Bracketed true inside → Bracketed commas t →
      Bracketed commas (opening :: (inside ++ closing :: t))

/-- There is an arrow in the text. -/
def HasArrow (t : Text) : Prop := ['-', '>'] <:+: t

/-- What is left of the pieces of a list: their texts without blanks at the ends, if there is more
to them than blanks. -/
def keptPieces (pieces : List Text) : List Text := (pieces.map Text.trim).filter (· ≠ [])

section Arrows

variable {commas : Bool} {c : Char} {s t : Text}

@[simp] theorem not_hasArrow_nil : ¬ HasArrow [] := by simp [HasArrow]

theorem hasArrow_cons : HasArrow (c :: t) ↔ (c = '-' ∧ t.head? = some '>') ∨ HasArrow t := by
  rw [HasArrow, List.infix_cons_iff, HasArrow, List.cons_prefix_cons]
  refine or_congr_left (and_congr eq_comm ?_)
  cases t with
  | nil => simp
  | cons d t => simp [List.cons_prefix_cons, eq_comm]

theorem hasArrow_append :
    HasArrow (s ++ t) ↔ HasArrow s ∨ (s.getLast? = some '-' ∧ t.head? = some '>') ∨ HasArrow t := by
  induction s with
  | nil => simp
  | cons c s ih =>
      rw [List.cons_append, hasArrow_cons, ih, hasArrow_cons]
      cases s with
      | nil => simp
      | cons d s => simp [List.getLast?_cons_cons, or_assoc]

theorem Bracketed.head?_ne (h : Bracketed commas t) : t.head? ≠ some '>' := by
  cases h with
  | nil => simp
  | char hc _ _ => rintro ⟨⟩; exact absurd hc (by decide)
  | arrow _ => simp
  | group hpair _ _ _ => rintro ⟨⟩; simp [signaturePairs] at hpair

theorem hasArrow_group {opening closing : Char} {inside : Text}
    (hpair : (opening, closing) ∈ signaturePairs)
    (hangle : closing = '>' → inside.getLast? ≠ some '-') :
    HasArrow (opening :: (inside ++ closing :: t)) ↔ HasArrow inside ∨ HasArrow t := by
  have hopening : opening ≠ '-' := by rintro rfl; simp [signaturePairs] at hpair
  have hclosing : closing ≠ '-' := by rintro rfl; simp [signaturePairs] at hpair
  rw [hasArrow_cons, hasArrow_append, hasArrow_cons]
  simp only [hopening, hclosing, false_and, false_or, List.head?_cons, Option.some.injEq]
  constructor
  · rintro (h | ⟨hlast, hclose⟩ | h)
    · exact .inl h
    · exact absurd hlast (hangle hclose)
    · exact .inr h
  · exact Or.imp_right .inr

/-- Characters that mean nothing in a list may stand in front. -/
theorem Bracketed.plain_append (hs : ∀ c ∈ s, c ∉ ['(', ')', '[', ']', '<', '>', ','])
    (h : Bracketed commas t) : Bracketed commas (s ++ t) := by
  induction s with
  | nil => exact h
  | cons c s ih =>
      obtain ⟨hc, hs⟩ := List.forall_mem_cons.1 hs
      refine .char (fun hbracket => hc ?_) (fun hcomma => ?_) (ih hs)
      · exact List.mem_append_left [','] hbracket
      · subst hcomma
        exact absurd (by decide) hc

end Arrows

section Reading

variable {commas : Bool} {depth : Int} {current p t : Text} {done : List Text} {c : Char}

/-! ### One character -/

theorem splitParameters_opening {closing : Char} (hpair : (c, closing) ∈ signaturePairs) :
    splitParameters depth current done (c :: t)
      = splitParameters (depth + 1) (c :: current) done t := by
  simp only [signaturePairs, List.mem_cons, Prod.mk.injEq, List.not_mem_nil, or_false] at hpair
  rcases hpair with ⟨rfl, -⟩ | ⟨rfl, -⟩ | ⟨rfl, -⟩ <;> rfl

theorem splitParameters_closing {opening : Char} (hpair : (opening, c) ∈ signaturePairs)
    (hopen : c = ')' → depth ≠ 0) :
    splitParameters depth current done (c :: t)
      = splitParameters (depth - 1) (c :: current) done t := by
  simp only [signaturePairs, List.mem_cons, Prod.mk.injEq, List.not_mem_nil, or_false] at hpair
  rcases hpair with ⟨-, rfl⟩ | ⟨-, rfl⟩ | ⟨-, rfl⟩
  · simp [splitParameters, hopen rfl]
  · rfl
  · rfl

theorem splitParameters_plain (hbracket : c ∉ ['(', ')', '[', ']', '<', '>'])
    (hcomma : c = ',' → depth ≠ 0) :
    splitParameters depth current done (c :: t) = splitParameters depth (c :: current) done t := by
  have hcut : ¬ (c = ',' ∧ depth = 0) := fun ⟨hc, hzero⟩ => hcomma hc hzero
  simp only [List.mem_cons, List.not_mem_nil, or_false, not_or] at hbracket
  simp [splitParameters, hbracket, hcut]

theorem splitParameters_comma :
    splitParameters 0 current done (',' :: t)
      = splitParameters 0 [] (current.reverse :: done) t := rfl

theorem splitParameters_end :
    splitParameters 0 current done (')' :: t) = (current.reverse :: done).reverse := rfl

/-- Where brackets are open, neither sign ends a parameter. -/
theorem splitParameters_separator (hdepth : depth ≠ 0) (hc : c ∈ [',', ')']) :
    ∃ depth', splitParameters depth current done (c :: t)
      = splitParameters depth' (c :: current) done t := by
  simp only [List.mem_cons, List.not_mem_nil, or_false] at hc
  rcases hc with rfl | rfl
  · exact ⟨depth, splitParameters_plain (by decide) fun _ => hdepth⟩
  · have hround : ('(', ')') ∈ signaturePairs := by decide
    exact ⟨depth - 1, splitParameters_closing hround fun _ => hdepth⟩

/-- Whatever is read, the earlier parameters stay, and the one that is being read goes on. -/
theorem exists_splitParameters (depth : Int) (current : Text) (done : List Text) (t : Text) :
    ∃ x more, splitParameters depth current done t
      = done.reverse ++ (current.reverse ++ x) :: more := by
  induction t generalizing depth current done with
  | nil => exact ⟨[], [], by simp [splitParameters]⟩
  | cons c t ih =>
      have hpush : ∀ depth, ∃ x more, splitParameters depth (c :: current) done t
          = done.reverse ++ (current.reverse ++ x) :: more := by
        intro depth
        obtain ⟨x, more, heq⟩ := ih depth (c :: current) done
        exact ⟨c :: x, more, by simpa using heq⟩
      rw [splitParameters]
      split
      · exact hpush _
      · split
        · exact ⟨[], [], by simp⟩
        · split
          · exact hpush _
          · split
            · obtain ⟨x, more, heq⟩ := ih depth [] (current.reverse :: done)
              exact ⟨[], x :: more, by simpa using heq⟩
            · exact hpush _

/-! ### One parameter -/

/-- Reading a text with brackets of its own: it goes by as a whole, and then as many brackets are
open as before exactly if it has no arrow. Or it is cut at a comma or a round bracket inside of it;
if no comma outside of its brackets was to be cut at, there was an arrow before. -/
theorem splitParameters_bracketed (h : Bracketed commas p) (depth : Int) (current : Text)
    (done : List Text) (rest : Text) :
    (∃ depth' ≤ depth, (depth' = depth ↔ ¬ HasArrow p) ∧
      splitParameters depth current done (p ++ rest)
        = splitParameters depth' (p.reverse ++ current) done rest) ∨
    ∃ x c y more, p = x ++ c :: y ∧ c ∈ [',', ')'] ∧
      (0 ≤ depth → (commas = true → 0 < depth) → HasArrow x) ∧
      splitParameters depth current done (p ++ rest)
        = done.reverse ++ (current.reverse ++ x) :: more := by
  induction h generalizing depth current rest with
  | nil => exact .inl ⟨depth, Int.le_refl depth, by simp, rfl⟩
  | @char commas c t hbracket hcomma ht ih =>
      by_cases hcut : c = ',' ∧ depth = 0
      · obtain ⟨rfl, rfl⟩ := hcut
        obtain ⟨x, more, heq⟩ := exists_splitParameters 0 [] (current.reverse :: done) (t ++ rest)
        refine .inr ⟨[], ',', t, x :: more, rfl, by simp, fun _ hopen => ?_, ?_⟩
        · exact absurd (hopen (hcomma rfl)) (Int.lt_irrefl 0)
        · rw [List.cons_append, splitParameters_comma, heq]
          simp
      · have harrow : HasArrow (c :: t) ↔ HasArrow t :=
          hasArrow_cons.trans (or_iff_right fun hhead => ht.head?_ne hhead.2)
        rw [List.cons_append, splitParameters_plain hbracket fun hc hzero => hcut ⟨hc, hzero⟩]
        rcases ih depth (c :: current) rest with
          ⟨depth', hle, hsame, heq⟩ | ⟨x, d, y, more, rfl, hd, hx, heq⟩
        · exact .inl ⟨depth', hle, by rw [harrow, hsame], by simpa using heq⟩
        · refine .inr ⟨c :: x, d, y, more, rfl, hd, fun hdepth hopen => ?_, by simpa using heq⟩
          exact hasArrow_cons.2 (.inr (hx hdepth hopen))
  | @arrow commas t ht ih =>
      have harrow : ∀ u, HasArrow ('-' :: '>' :: u) := fun u => hasArrow_cons.2 (.inl ⟨rfl, rfl⟩)
      have hread : splitParameters depth current done ('-' :: '>' :: t ++ rest)
          = splitParameters (depth - 1) ('>' :: '-' :: current) done (t ++ rest) := by
        have hangle : ('<', '>') ∈ signaturePairs := by decide
        rw [List.cons_append, List.cons_append, splitParameters_plain (by decide) (by simp),
          splitParameters_closing hangle (by simp)]
      rw [hread]
      rcases ih (depth - 1) ('>' :: '-' :: current) rest with
        ⟨depth', hle, -, heq⟩ | ⟨x, d, y, more, rfl, hd, -, heq⟩
      · refine .inl ⟨depth', by omega, ?_, by simpa using heq⟩
        exact iff_of_false (by omega) (not_not_intro (harrow t))
      · exact .inr ⟨'-' :: '>' :: x, d, y, more, rfl, hd, fun _ _ => harrow x, by simpa using heq⟩
  | @group commas opening closing inside t hpair hangle _ _ ih₁ ih₂ =>
      have harrow : ∀ u, HasArrow (opening :: (inside ++ closing :: u)) ↔
          HasArrow inside ∨ HasArrow u := fun u => hasArrow_group hpair hangle
      rw [List.cons_append, List.append_assoc, List.cons_append, splitParameters_opening hpair]
      rcases ih₁ (depth + 1) (opening :: current) (closing :: (t ++ rest)) with
        ⟨depth₁, hle₁, hsame₁, heq₁⟩ | ⟨x, d, y, more, rfl, hd, hx, heq⟩
      · rw [heq₁]
        by_cases hend : closing = ')' ∧ depth₁ = 0
        · obtain ⟨rfl, rfl⟩ := hend
          refine .inr ⟨opening :: inside, ')', t, [], rfl, by simp, fun hdepth _ => ?_, ?_⟩
          · refine hasArrow_cons.2 (.inr (by_contra fun hnone => ?_))
            exact absurd (hsame₁.2 hnone) (by omega)
          · rw [splitParameters_end]
            simp
        · rw [splitParameters_closing hpair fun hc hzero => hend ⟨hc, hzero⟩]
          rcases ih₂ (depth₁ - 1) (closing :: (inside.reverse ++ opening :: current)) rest with
            ⟨depth₂, hle₂, hsame₂, heq₂⟩ | ⟨x, d, y, more, rfl, hd, hx, heq₂⟩
          · refine .inl ⟨depth₂, by omega, ?_, by simpa using heq₂⟩
            rw [harrow, not_or, ← hsame₁, ← hsame₂]
            omega
          · refine .inr ⟨opening :: (inside ++ closing :: x), d, y, more, by simp, hd,
              fun hdepth hopen => (harrow x).2 ?_, by simpa using heq₂⟩
            by_cases hinside : HasArrow inside
            · exact .inl hinside
            · have hdepth₁ := hsame₁.2 hinside
              exact .inr (hx (by omega) fun hc => by have := hopen hc; omega)
      · refine .inr ⟨opening :: x, d, y ++ closing :: t, more, by simp, hd,
          fun hdepth _ => hasArrow_cons.2 (.inr (hx (by omega) fun _ => by omega)),
          by simpa using heq⟩

end Reading

/-! ### All parameters -/

section Pieces

variable {p piece : Text} {ps more rest : List Text}

theorem filter_trim (t : Text) : t.trim.filter (!isSpace ·) = t.filter (!isSpace ·) := by
  have hfront := Text.indentation_append_trimStart t
  have hback := Text.dropEndWhile_append_takeEndWhile isSpace t.trimStart
  have hindent : t.indentation.filter (!isSpace ·) = [] :=
    List.filter_eq_nil_iff.2 fun c hc => by simp [List.mem_takeWhile_imp hc]
  have hend : (t.trimStart.takeEndWhile isSpace).filter (!isSpace ·) = [] :=
    List.filter_eq_nil_iff.2 fun c hc => by simp [Text.of_mem_takeEndWhile hc]
  conv_rhs => rw [← hfront, ← hback, List.filter_append, List.filter_append, hindent, hend]
  rw [List.nil_append, List.append_nil]
  rfl

theorem keptPieces_append (ps qs : List Text) :
    keptPieces (ps ++ qs) = keptPieces ps ++ keptPieces qs := by
  simp [keptPieces]

theorem keptPieces_eq_map (h : ∀ p ∈ ps, p.trim ≠ []) : keptPieces ps = ps.map Text.trim :=
  List.filter_eq_self.2 fun q hq => by
    obtain ⟨p, hp, rfl⟩ := List.mem_map.1 hq
    simpa using h p hp

/-- A piece of which another character than a blank is missing, or with one too many, is kept as
something else. -/
theorem keptPieces_cons_ne (hblank : piece.filter (!isSpace ·) ≠ [])
    (hne : piece.filter (!isSpace ·) ≠ p.filter (!isSpace ·)) :
    keptPieces (piece :: more) ≠ p.trim :: rest := by
  rw [← filter_trim] at hblank hne
  have htrim : piece.trim ≠ [] := fun hnil => hblank (by rw [hnil]; rfl)
  rw [← filter_trim p] at hne
  rw [keptPieces, List.map_cons, List.filter_cons_of_pos (by simpa using htrim)]
  exact fun heq => hne (congrArg _ (List.cons.inj heq).1)

/-- A parameter with an arrow is not found: it goes on behind the sign that should end it, or it is
cut where brackets are open. -/
theorem keptPieces_splitParameters_ne {c : Char} (hp : Bracketed false p) (harrow : HasArrow p)
    (hc : c ∈ [',', ')']) (done : List Text) (t : Text) :
    keptPieces (splitParameters 0 [] done (p ++ c :: t))
      ≠ keptPieces done.reverse ++ p.trim :: rest := by
  have hspace : ∀ d ∈ [',', ')'], (!isSpace d) = true := by simp [isSpace]
  rcases splitParameters_bracketed hp 0 [] done (c :: t) with
    ⟨depth, -, hsame, heq⟩ | ⟨x, d, y, more, rfl, hd, hx, heq⟩
  · have hdepth : depth ≠ 0 := fun hzero => hsame.1 hzero harrow
    obtain ⟨depth', hpush⟩ := splitParameters_separator hdepth hc
    obtain ⟨x, more, hmore⟩ := exists_splitParameters depth' (c :: (p.reverse ++ [])) done t
    have hpiece : (c :: (p.reverse ++ [])).reverse ++ x = p ++ c :: x := by simp
    rw [heq, hpush, hmore, hpiece, keptPieces_append]
    refine fun hkept => keptPieces_cons_ne ?_ ?_ (List.append_cancel_left hkept)
    · simp [hspace c hc]
    · simp [hspace c hc]
  · have hminus : '-' ∈ x := (hx (Int.le_refl 0) nofun).subset (by simp)
    rw [heq, keptPieces_append]
    refine fun hkept => keptPieces_cons_ne ?_ ?_ (List.append_cancel_left hkept)
    · exact List.ne_nil_of_mem (List.mem_filter.2 ⟨hminus, by decide⟩)
    · simp [hspace d hd]

/-- The parameters up to the bracket that closes their list, behind earlier ones. -/
theorem keptPieces_splitParameters_iff (done : List Text) (tail : Text) (hne : ps ≠ [])
    (hps : ∀ p ∈ ps, Bracketed false p ∧ p.trim ≠ []) :
    keptPieces (splitParameters 0 [] done ([','].intercalate ps ++ ')' :: tail))
        = keptPieces done.reverse ++ ps.map Text.trim ↔
      ∀ p ∈ ps, ¬ HasArrow p := by
  induction ps generalizing done with
  | nil => exact absurd rfl hne
  | cons p ps ih =>
      obtain ⟨⟨hp, hblank⟩, hrest⟩ := List.forall_mem_cons.1 hps
      rw [List.forall_mem_cons, List.map_cons]
      by_cases harrow : HasArrow p
      · refine iff_of_false ?_ fun hall => hall.1 harrow
        cases ps with
        | nil =>
            rw [List.intercalate_singleton]
            exact keptPieces_splitParameters_ne hp harrow (by simp) done tail
        | cons q ps =>
            rw [List.intercalate_cons_cons, List.append_assoc, List.append_assoc]
            exact keptPieces_splitParameters_ne hp harrow (by simp) done _
      · rw [iff_true_intro harrow, true_and]
        have hread : ∀ c t, splitParameters 0 [] done (p ++ c :: t)
            = splitParameters 0 p.reverse done (c :: t) := by
          intro c t
          rcases splitParameters_bracketed hp 0 [] done (c :: t) with
            ⟨depth, -, hsame, heq⟩ | ⟨x, d, y, more, rfl, -, hx, -⟩
          · rw [heq, hsame.2 harrow, List.append_nil]
          · exact absurd (hasArrow_append.2 (.inl (hx (Int.le_refl 0) nofun))) harrow
        have hkept : keptPieces (p :: done).reverse = keptPieces done.reverse ++ [p.trim] := by
          have hone : keptPieces [p] = [p.trim] := keptPieces_eq_map (by simpa)
          rw [List.reverse_cons, keptPieces_append, hone]
        cases ps with
        | nil =>
            rw [List.intercalate_singleton, hread, splitParameters_end, List.reverse_reverse, hkept]
            simp
        | cons q ps =>
            rw [List.intercalate_cons_cons, List.append_assoc, List.append_assoc,
              List.singleton_append, hread, splitParameters_comma, List.reverse_reverse,
              ← ih (p :: done) (List.cons_ne_nil q ps) hrest, hkept, List.append_assoc]
            rfl

end Pieces

/-- The parameters of a signature, each with brackets of its own and more than blanks, are found
without the blanks around them exactly if there is no arrow in any of them. -/
theorem parameterList_eq_iff {head tail : Text} {ps : List Text} (hhead : '(' ∉ head)
    (hps : ∀ p ∈ ps, Bracketed false p ∧ p.trim ≠ []) :
    parameterList (head ++ '(' :: ([','].intercalate ps ++ ')' :: tail)) = ps.map Text.trim ↔
      ∀ p ∈ ps, ¬ HasArrow p := by
  have hfront : ∀ c ∈ head, (c != '(') = true := fun c hc => by
    simpa using fun heq : c = '(' => hhead (heq ▸ hc)
  rw [parameterList, List.dropWhile_append_of_pos hfront, List.dropWhile_cons_of_neg (by simp)]
  cases ps with
  | nil => exact iff_of_true rfl nofun
  | cons p ps => exact keptPieces_splitParameters_iff [] tail (List.cons_ne_nil p ps) hps

/-- Two parameters, the first one with brackets and a comma inside of them. -/
theorem parameterList_eq_iff_tuple :
    parameterList "fn f(a: Vec<(u8, u8)>, b: i32) -> u8".toList
      = ["a: Vec<(u8, u8)>".toList, "b: i32".toList] := by
  have hpair : Bracketed true "u8, u8".toList :=
    .plain_append (s := "u8".toList) (by simp) (.char (by decide) (fun _ => rfl)
      (.plain_append (s := " u8".toList) (by simp) .nil))
  have htuple : Bracketed true "(u8, u8)".toList :=
    .group (t := []) (by decide) (by decide) hpair .nil
  have hfirst : Bracketed false "a: Vec<(u8, u8)>".toList :=
    .plain_append (s := "a: Vec".toList) (by simp)
      (.group (t := []) (by decide) (by decide) htuple .nil)
  have hsecond : Bracketed false " b: i32".toList :=
    .plain_append (s := " b: i32".toList) (by simp) .nil
  have hfound := @parameterList_eq_iff "fn f".toList " -> u8".toList
    ["a: Vec<(u8, u8)>".toList, " b: i32".toList] (by decide) (by
      simp only [List.forall_mem_cons]
      exact ⟨⟨hfirst, by decide⟩, ⟨hsecond, by decide⟩, nofun⟩)
  exact hfound.2 (by simp [hasArrow_cons])

/-- The angle of an arrow closes the list of parameters for good, so nothing ends the first one. -/
theorem arrow_hides_comma :
    let ps := ["g: fn(u8) -> u8".toList, " b: i32".toList]
    (∀ p ∈ ps, Bracketed false p ∧ Text.trim p ≠ []) ∧
    parameterList ("fn f".toList ++ '(' :: ([','].intercalate ps ++ [')']))
      = ["g: fn(u8) -> u8, b: i32)".toList] ∧
    ps.map Text.trim = ["g: fn(u8) -> u8".toList, "b: i32".toList] := by
  have hresult : Bracketed false " -> u8".toList :=
    .plain_append (s := " ".toList) (by simp)
      (.arrow (.plain_append (s := " u8".toList) (by simp) .nil))
  have hargument : Bracketed true "u8".toList := .plain_append (s := "u8".toList) (by simp) .nil
  have hfirst : Bracketed false "g: fn(u8) -> u8".toList :=
    .plain_append (s := "g: fn".toList) (by simp)
      (.group (by decide) (by decide) hargument hresult)
  have hsecond : Bracketed false " b: i32".toList :=
    .plain_append (s := " b: i32".toList) (by simp) .nil
  refine ⟨?_, by decide, by decide⟩
  simp only [List.forall_mem_cons]
  exact ⟨⟨hfirst, by decide⟩, ⟨hsecond, by decide⟩, nofun⟩

end LanguageServer
