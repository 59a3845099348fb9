import LanguageServer.Query.Findings
import Mathlib.Data.List.Basic

/-!
# Well-nested words of brackets

Matching reads a word of brackets with a stack of those that are open. What it has read without the
brackets that match none is the open ones with well-nested words around them (`Spine`): an open
bracket goes on top of that, and a bracket that closes the one on top makes one well-nested word of
what is inside of it. So if what is reported is left out, the rest is well nested
(`exists_rest_of_matchBrackets`), and a well-nested word goes by without any trace
(`matchBrackets_of_wellNested`).
-/

namespace LanguageServer

/-- The brackets that go together, the opening one first. -/
def bracketPairs : List (Char × Char) := [('(', ')'), ('[', ']'), ('{', '}')]

/-- Words in which each bracket has its counterpart and no two pairs overlap. -/
inductive WellNested : Text → Prop
  | nil : WellNested []
  | enclose {opening closing : Char} {inside : Text} : (opening, closing) ∈ bracketPairs →
      WellNested inside → WellNested (opening :: (inside ++ [closing]))
  | append {s t : Text} : WellNested s → WellNested t → WellNested (s ++ t)

theorem opening?_eq_some_iff {opening closing : Char} :
    opening? closing = some opening ↔ (opening, closing) ∈ bracketPairs := by
  unfold opening?
  split <;> simp_all [bracketPairs, eq_comm]

theorem opening?_of_mem_bracketPairs {opening closing : Char}
    (h : (opening, closing) ∈ bracketPairs) : opening? opening = none := by
  simp only [bracketPairs, List.mem_cons, Prod.mk.injEq, List.not_mem_nil, or_false] at h
  rcases h with ⟨rfl, -⟩ | ⟨rfl, -⟩ | ⟨rfl, -⟩ <;> rfl

/-! ### One bracket -/

theorem matchBrackets_opening {b : Bracket} (hb : opening? b.1 = none) (opened bs : List Bracket) :
    matchBrackets opened (b :: bs) = matchBrackets (b :: opened) bs := by
  rw [matchBrackets, hb]

theorem matchBrackets_closing {b top : Bracket} (hpair : (top.1, b.1) ∈ bracketPairs)
    (below bs : List Bracket) :
    matchBrackets (top :: below) (b :: bs) = matchBrackets below bs := by
  rw [matchBrackets, opening?_eq_some_iff.2 hpair]
  exact if_pos rfl

/-- A closing bracket that does not go with the one on top of the stack. -/
theorem matchBrackets_unmatched {b : Bracket} {opened : List Bracket}
    (hb : opening? b.1 ≠ none) (htop : ∀ top ∈ opened.head?, (top.1, b.1) ∉ bracketPairs)
    (bs : List Bracket) :
    matchBrackets opened (b :: bs)
      = ((matchBrackets opened bs).1, b :: (matchBrackets opened bs).2) := by
  obtain ⟨opening, hopening⟩ := Option.ne_none_iff_exists'.1 hb
  rw [matchBrackets, hopening]
  cases opened with
  | nil => rfl
  | cons top below =>
      have hne : top.1 ≠ opening := by
        rintro rfl
        exact htop top rfl (opening?_eq_some_iff.1 hopening)
      exact if_neg hne

/-- What the first bracket does to the stack. -/
theorem bracket_cases (b : Bracket) (opened : List Bracket) :
    opening? b.1 = none ∨
      (∃ top below, opened = top :: below ∧ (top.1, b.1) ∈ bracketPairs) ∨
      opening? b.1 ≠ none ∧ ∀ top ∈ opened.head?, (top.1, b.1) ∉ bracketPairs := by
  by_cases hb : opening? b.1 = none
  · exact .inl hb
  · cases opened with
    | nil => exact .inr (.inr ⟨hb, nofun⟩)
    | cons top below =>
        by_cases hpair : (top.1, b.1) ∈ bracketPairs
        · exact .inr (.inl ⟨top, below, rfl, hpair⟩)
        · refine .inr (.inr ⟨hb, ?_⟩)
          rintro _ ⟨⟩
          exact hpair

/-! ### Words -/

theorem matchBrackets_append (opened bs cs : List Bracket) :
    matchBrackets opened (bs ++ cs)
      = ((matchBrackets (matchBrackets opened bs).1 cs).1,
          (matchBrackets opened bs).2 ++ (matchBrackets (matchBrackets opened bs).1 cs).2) := by
  induction bs generalizing opened with
  | nil => rfl
  | cons b bs ih =>
      rw [List.cons_append]
      rcases bracket_cases b opened with hb | ⟨top, below, rfl, hpair⟩ | ⟨hb, htop⟩
      · rw [matchBrackets_opening hb, matchBrackets_opening hb, ih]
      · rw [matchBrackets_closing hpair, matchBrackets_closing hpair, ih]
      · rw [matchBrackets_unmatched hb htop, matchBrackets_unmatched hb htop, ih, List.cons_append]

/-- A well-nested word leaves the stack as it is. -/
theorem matchBrackets_of_wellNested {word : Text} (h : WellNested word) {bs : List Bracket}
    (hbs : bs.map Prod.fst = word) (opened : List Bracket) :
    matchBrackets opened bs = (opened, []) := by
  induction h generalizing bs opened with
  | nil =>
      rw [List.map_eq_nil_iff.1 hbs]
      rfl
  | enclose hpair _ ih =>
      obtain ⟨first, rest, rfl, rfl, hrest⟩ := List.map_eq_cons_iff.1 hbs
      obtain ⟨inside, last, rfl, hinside, hlast⟩ := List.map_eq_append_iff.1 hrest
      obtain ⟨last, rfl, rfl⟩ := List.map_eq_singleton_iff.1 hlast
      rw [matchBrackets_opening (opening?_of_mem_bracketPairs hpair), matchBrackets_append,
        ih hinside]
      dsimp only
      rw [matchBrackets_closing hpair]
      rfl
  | append _ _ ihs iht =>
      obtain ⟨left, right, rfl, hleft, hright⟩ := List.map_eq_append_iff.1 hbs
      rw [matchBrackets_append, ihs hleft, iht hright]
      rfl

/-! ### What has been read -/

/-- Brackets that are open, innermost first, with well-nested words between and around them. -/
inductive Spine : List Bracket → List Bracket → Prop
  | closed {word : List Bracket} : WellNested (word.map Prod.fst) → Spine [] word
  | opened {b : Bracket} {opened word inside : List Bracket} : Spine opened word →
      WellNested (inside.map Prod.fst) → Spine (b :: opened) (word ++ b :: inside)

namespace Spine

variable {opened word : List Bracket}

theorem append (h : Spine opened word) {more : List Bracket}
    (hmore : WellNested (more.map Prod.fst)) : Spine opened (word ++ more) := by
  cases h with
  | closed hword =>
      refine .closed ?_
      rw [List.map_append]
      exact hword.append hmore
  | opened hbelow hinside =>
      rw [List.append_assoc, List.cons_append]
      refine .opened hbelow ?_
      rw [List.map_append]
      exact hinside.append hmore

theorem push (h : Spine opened word) (b : Bracket) : Spine (b :: opened) (word ++ [b]) :=
  .opened h .nil

/-- The bracket on top, what is inside of it and what closes it are well nested together. -/
theorem pop {top b : Bracket} (h : Spine (top :: opened) word)
    (hpair : (top.1, b.1) ∈ bracketPairs) : Spine opened (word ++ [b]) := by
  cases h with
  | opened hbelow hinside =>
      rw [List.append_assoc, List.cons_append]
      refine hbelow.append ?_
      rw [List.map_cons, List.map_append]
      exact .enclose hpair hinside

/-- Without the open brackets, the words around them are one well-nested word. -/
theorem exists_rest (h : Spine opened word) :
    ∃ rest : List Bracket, WellNested (rest.map Prod.fst) ∧ rest.Sublist word ∧
      (opened ++ rest).Perm word := by
  induction h with
  | closed hword => exact ⟨_, hword, .refl _, .refl _⟩
  | @opened b opened word inside _ hinside ih =>
      obtain ⟨rest, hrest, hsublist, hperm⟩ := ih
      refine ⟨rest ++ inside, ?_, hsublist.append (List.sublist_cons_self b inside), ?_⟩
      · rw [List.map_append]
        exact hrest.append hinside
      · rw [List.cons_append, ← List.append_assoc]
        exact ((hperm.append_right inside).cons b).trans List.perm_middle.symm

end Spine

/-- Reading on from a stack keeps the open brackets in their places and passes the rest over. -/
theorem spine_matchBrackets {opened word : List Bracket} (h : Spine opened word)
    (bs : List Bracket) :
    ∃ kept : List Bracket, Spine (matchBrackets opened bs).1 (word ++ kept) ∧ kept.Sublist bs ∧
      ((matchBrackets opened bs).2 ++ kept).Perm bs := by
  induction bs generalizing opened word with
  | nil => exact ⟨[], by simpa [matchBrackets] using h, .refl _, .refl _⟩
  | cons b bs ih =>
      have hkept : ∀ {opened' : List Bracket}, Spine opened' (word ++ [b]) →
          matchBrackets opened (b :: bs) = matchBrackets opened' bs →
          ∃ kept : List Bracket, Spine (matchBrackets opened (b :: bs)).1 (word ++ kept) ∧
            kept.Sublist (b :: bs) ∧
            ((matchBrackets opened (b :: bs)).2 ++ kept).Perm (b :: bs) := by
        intro opened' hspine heq
        obtain ⟨kept, hkept, hsublist, hperm⟩ := ih hspine
        rw [heq]
        refine ⟨b :: kept, ?_, hsublist.cons_cons b, List.perm_middle.trans (hperm.cons b)⟩
        rwa [← List.append_cons] at hkept
      rcases bracket_cases b opened with hb | ⟨top, below, rfl, hpair⟩ | ⟨hb, htop⟩
      · exact hkept (h.push b) (matchBrackets_opening hb opened bs)
      · exact hkept (h.pop hpair) (matchBrackets_closing hpair below bs)
      · obtain ⟨kept, hkept, hsublist, hperm⟩ := ih h
        rw [matchBrackets_unmatched hb htop]
        exact ⟨kept, hkept, hsublist.cons b, hperm.cons b⟩

/-- Closing brackets are found to be unmatched, and opening ones stay on the stack. -/
theorem kinds_matchBrackets (opened bs : List Bracket) :
    (∀ b ∈ (matchBrackets opened bs).1, b ∈ opened ∨ opening? b.1 = none) ∧
      ∀ b ∈ (matchBrackets opened bs).2, opening? b.1 ≠ none := by
  induction bs generalizing opened with
  | nil => exact ⟨fun b hb => .inl hb, nofun⟩
  | cons b bs ih =>
      rcases bracket_cases b opened with hb | ⟨top, below, rfl, hpair⟩ | ⟨hb, htop⟩
      · rw [matchBrackets_opening hb]
        refine (ih (b :: opened)).imp_left fun h d hd => ?_
        rcases h d hd with hd | hd
        · rcases List.mem_cons.1 hd with rfl | hd
          · exact .inr hb
          · exact .inl hd
        · exact .inr hd
      · rw [matchBrackets_closing hpair]
        exact (ih below).imp_left fun h d hd => (h d hd).imp_left (List.mem_cons_of_mem top)
      · rw [matchBrackets_unmatched hb htop]
        exact (ih opened).imp_right fun h => List.forall_mem_cons.2 ⟨hb, h⟩

/-! ### What is reported -/

/-- The brackets without a counterpart: the closing ones that match none, and those that are still
open in the end, outermost first. -/
def strayBrackets (bs : List Bracket) : List Bracket :=
  (matchBrackets [] bs).2 ++ (matchBrackets [] bs).1.reverse

/-- If the brackets without a counterpart are left out, the rest is well nested. -/
theorem exists_rest_of_matchBrackets (bs : List Bracket) :
    ∃ rest : List Bracket, WellNested (rest.map Prod.fst) ∧ rest.Sublist bs ∧
      (strayBrackets bs ++ rest).Perm bs := by
  have hempty : Spine [] [] := .closed .nil
  obtain ⟨kept, hspine, hkept, hperm⟩ := spine_matchBrackets hempty bs
  obtain ⟨rest, hnested, hrest, hopen⟩ := hspine.exists_rest
  refine ⟨rest, hnested, hrest.trans hkept, ?_⟩
  have hopen' := ((List.reverse_perm _).append_right rest).trans hopen
  rw [strayBrackets, List.append_assoc]
  exact (hopen'.append_left _).trans hperm

/-- A part of a word of brackets is what is left when the others are taken out by their
positions. -/
theorem filter_eq_of_perm {bs rest removed : List Bracket} (hnodup : (bs.map Prod.snd).Nodup)
    (hsublist : rest.Sublist bs) (hperm : (removed ++ rest).Perm bs) :
    bs.filter (fun b => b.2 ∉ removed.map Prod.snd) = rest := by
  have happart := (hperm.map Prod.snd).nodup_iff.2 hnodup
  rw [List.map_append, List.nodup_append] at happart
  have hremoved : removed.filter (fun b => b.2 ∉ removed.map Prod.snd) = [] :=
    List.filter_eq_nil_iff.2 fun b hb => by simpa using ⟨b.1, hb⟩
  have hrest : rest.filter (fun b => b.2 ∉ removed.map Prod.snd) = rest :=
    List.filter_eq_self.2 fun b hb => decide_eq_true fun hmem =>
      happart.2.2 b.2 hmem b.2 (List.mem_map_of_mem hb) rfl
  have hkept := hsublist.filter (fun b => b.2 ∉ removed.map Prod.snd)
  have hlength := (hperm.filter (fun b => b.2 ∉ removed.map Prod.snd)).length_eq
  rw [List.filter_append, hremoved, List.nil_append] at hlength
  rw [hrest] at hkept hlength
  exact (hkept.eq_of_length hlength).symm

theorem strayBrackets_eq_nil_iff {bs : List Bracket} :
    strayBrackets bs = [] ↔ WellNested (bs.map Prod.fst) := by
  constructor
  · intro h
    obtain ⟨rest, hnested, hsublist, hperm⟩ := exists_rest_of_matchBrackets bs
    rw [h, List.nil_append] at hperm
    rwa [hsublist.eq_of_length hperm.length_eq] at hnested
  · intro h
    rw [strayBrackets, matchBrackets_of_wellNested h rfl]
    rfl

end LanguageServer
