import LanguageServer.Proofs.Sliced.Lookup
import LanguageServer.Query.Signature

/-!
# The call around the caret

A call is open at the end of a text if everything behind its round bracket is a list of arguments
(`IsArguments`) on which no statement ends (`IsOpenCall`). The search for it goes backwards and
counts brackets that are closed but not opened yet (`IsOwed`); a list of arguments goes by as a
whole (`openCall?_arguments`). So a call is found exactly if one is open, and then it is the only
one (`enclosingCall?_exact`).
-/

namespace LanguageServer

/-- Texts in which every round or square bracket has a counterpart, of whichever of the two kinds.
They are arguments with so many commas between them; commas inside of brackets do not count. -/
inductive IsArguments : Nat → Text → Prop
  | nil : IsArguments 0 []
  | char {n : Nat} {c : Char} {t : Text} : c ∉ ['(', '[', ')', ']', ','] → IsArguments n t →
      IsArguments n (c :: t)
  | comma {n : Nat} {t : Text} : IsArguments n t → IsArguments (n + 1) (',' :: t)
  | group {m n : Nat} {opening closing : Char} {inside t : Text} : opening ∈ ['(', '['] →
      closing ∈ [')', ']'] → IsArguments m inside → IsArguments n t →
      IsArguments n (opening :: (inside ++ closing :: t))

/-- No statement or block ends or starts in the text. -/
def IsUnbroken (t : Text) : Prop := ∀ c ∈ t, c ∉ [';', '{', '}']

/-- At the end of a text, the arguments of a call are still being written. What stands before the
round bracket of the call is `callee`. -/
structure IsOpenCall (before callee args : Text) (commas : Nat) : Prop where
  text_eq : before = callee ++ '(' :: args
  arguments : IsArguments commas args
  unbroken : IsUnbroken args

/-- What has been read while `owed` brackets are closed without having been opened. The commas are
those behind the last of these brackets. -/
inductive IsOwed : Nat → Nat → Text → Prop
  | arguments {n : Nat} {t : Text} : IsArguments n t → IsOwed 0 n t
  | closing {owed m n : Nat} {c : Char} {inside t : Text} : c ∈ [')', ']'] → IsArguments m inside →
      IsOwed owed n t → IsOwed (owed + 1) n (inside ++ c :: t)

section Arguments

variable {m n owed : Nat} {c : Char} {s t : Text}

theorem IsArguments.append (hs : IsArguments m s) (ht : IsArguments n t) :
    IsArguments (m + n) (s ++ t) := by
  induction hs with
  | nil => rwa [Nat.zero_add]
  | char hc _ ih => exact .char hc ih
  | comma _ ih =>
      rw [Nat.add_right_comm]
      exact .comma ih
  | group hopening hclosing hinside _ _ ih =>
      rw [List.cons_append, List.append_assoc]
      exact .group hopening hclosing hinside ih

theorem IsArguments.intercalate {args : List Text} (hne : args ≠ [])
    (hargs : ∀ a ∈ args, IsArguments 0 a) :
    IsArguments (args.length - 1) ([','].intercalate args) := by
  induction args with
  | nil => exact absurd rfl hne
  | cons a args ih =>
      obtain ⟨ha, hrest⟩ := List.forall_mem_cons.1 hargs
      cases args with
      | nil => rwa [List.intercalate_singleton]
      | cons b args =>
          have hall := ha.append (.comma (ih (List.cons_ne_nil b args) hrest))
          rwa [Nat.zero_add] at hall

theorem IsArguments.plain (h : ∀ c ∈ t, c ∉ ['(', '[', ')', ']', ',']) : IsArguments 0 t := by
  induction t with
  | nil => exact .nil
  | cons c t ih =>
      obtain ⟨hc, ht⟩ := List.forall_mem_cons.1 h
      exact .char hc (ih ht)

theorem isUnbroken_intercalate {args : List Text} (h : ∀ a ∈ args, IsUnbroken a) :
    IsUnbroken ([','].intercalate args) := by
  induction args with
  | nil => exact nofun
  | cons a args ih =>
      obtain ⟨ha, hrest⟩ := List.forall_mem_cons.1 h
      cases args with
      | nil => rwa [List.intercalate_singleton]
      | cons b args =>
          rw [List.intercalate_cons_cons, List.append_assoc]
          refine List.forall_mem_append.2 ⟨ha, List.forall_mem_cons.2 ⟨by decide, ih hrest⟩⟩

theorem IsOwed.char (hc : c ∉ ['(', '[', ')', ']', ',']) (h : IsOwed owed n t) :
    IsOwed owed n (c :: t) := by
  cases h with
  | arguments ht => exact .arguments (.char hc ht)
  | closing hclosing hinside ht => exact .closing hclosing (.char hc hinside) ht

theorem IsOwed.comma (h : IsOwed owed n t) :
    IsOwed owed (if owed = 0 then n + 1 else n) (',' :: t) := by
  cases h with
  | arguments ht => exact .arguments (.comma ht)
  | closing hclosing hinside ht => exact .closing hclosing (.comma hinside) ht

theorem IsOwed.opening (hc : c ∈ ['(', '[']) (h : IsOwed (owed + 1) n t) :
    IsOwed owed n (c :: t) := by
  cases h with
  | @closing _ m _ d inside t hd hinside ht =>
      cases ht with
      | arguments ht => exact .arguments (.group hc hd hinside ht)
      | @closing _ k _ e between t he hbetween ht =>
          have hall := IsOwed.closing he (.group hc hd hinside hbetween) ht
          rwa [List.cons_append, List.append_assoc, List.cons_append] at hall

end Arguments

section Search

variable {depth commas n : Nat} {c : Char} {args back before callee t : Text}

/-! ### One character -/

theorem openCall?_closing (hc : c ∈ [')', ']']) :
    openCall? depth commas (c :: t) = openCall? (depth + 1) commas t := by
  simp only [List.mem_cons, List.not_mem_nil, or_false] at hc
  rcases hc with rfl | rfl <;> rfl

theorem openCall?_opening (hc : c ∈ ['(', '[']) :
    openCall? (depth + 1) commas (c :: t) = openCall? depth commas t := by
  simp only [List.mem_cons, List.not_mem_nil, or_false] at hc
  rcases hc with rfl | rfl <;> simp [openCall?]

theorem openCall?_comma :
    openCall? depth commas (',' :: t)
      = openCall? depth (if depth = 0 then commas + 1 else commas) t := by
  cases depth with
  | zero => rfl
  | succ depth => simp [openCall?]

theorem openCall?_char (hc : c ∉ ['(', '[', ')', ']', ',']) (hunbroken : c ∉ [';', '{', '}']) :
    openCall? depth commas (c :: t) = openCall? depth commas t := by
  simp only [List.mem_cons, List.not_mem_nil, or_false, not_or] at hc hunbroken
  simp [openCall?, hc, hunbroken]

theorem openCall?_break (hc : c ∈ [';', '{', '}']) : openCall? depth commas (c :: t) = none := by
  simp only [List.mem_cons, List.not_mem_nil, or_false] at hc
  rcases hc with rfl | rfl | rfl <;> rfl

/-! ### All characters -/

/-- A list of arguments goes by as a whole, and its commas count if no bracket is owed. -/
theorem openCall?_arguments (h : IsArguments n args) (hunbroken : IsUnbroken args)
    (depth commas : Nat) (back : Text) :
    openCall? depth commas (args.reverse ++ back)
      = openCall? depth (if depth = 0 then commas + n else commas) back := by
  induction h generalizing depth commas back with
  | nil => simp
  | @char n c t hc _ ih =>
      obtain ⟨hchar, hrest⟩ := List.forall_mem_cons.1 hunbroken
      rw [List.reverse_cons, List.append_assoc, ih hrest, List.singleton_append,
        openCall?_char hc hchar]
  | @comma n t _ ih =>
      obtain ⟨-, hrest⟩ := List.forall_mem_cons.1 hunbroken
      rw [List.reverse_cons, List.append_assoc, ih hrest, List.singleton_append, openCall?_comma]
      split
      · rw [Nat.add_assoc]
      · rfl
  | @group m n opening closing inside t hopening hclosing _ _ ih₁ ih₂ =>
      obtain ⟨-, hrest⟩ := List.forall_mem_cons.1 hunbroken
      obtain ⟨hinside, hrest⟩ := List.forall_mem_append.1 hrest
      obtain ⟨-, hbehind⟩ := List.forall_mem_cons.1 hrest
      have hreverse : (opening :: (inside ++ closing :: t)).reverse ++ back
          = t.reverse ++ closing :: (inside.reverse ++ opening :: back) := by simp
      rw [hreverse, ih₂ hbehind, openCall?_closing hclosing, ih₁ hinside,
        if_neg (Nat.succ_ne_zero depth), openCall?_opening hopening]

/-- What is found with `tail` already read is open behind it. -/
theorem isOpenCall_of_openCall? {s tail : Text} (htail : IsOwed depth commas tail)
    (hunbroken : IsUnbroken tail) (h : openCall? depth commas s.reverse = some (back, n)) :
    ∃ args, IsOpenCall (s ++ tail) back.reverse args n := by
  induction s using List.reverseRecOn generalizing depth commas tail with
  | nil => cases h
  | append_singleton s c ih =>
      rw [List.reverse_append, List.reverse_singleton, List.singleton_append] at h
      rw [← List.append_cons]
      by_cases hbreak : c ∈ [';', '{', '}']
      · rw [openCall?_break hbreak] at h
        cases h
      have hcons : IsUnbroken (c :: tail) := List.forall_mem_cons.2 ⟨hbreak, hunbroken⟩
      by_cases hclosing : c ∈ [')', ']']
      · rw [openCall?_closing hclosing] at h
        exact ih (.closing hclosing .nil htail) hcons h
      by_cases hopening : c ∈ ['(', '[']
      · cases depth with
        | zero =>
            simp only [List.mem_cons, List.not_mem_nil, or_false] at hopening
            rcases hopening with rfl | rfl
            · cases h
              cases htail with
              | arguments hargs => exact ⟨tail, by rw [List.reverse_reverse], hargs, hunbroken⟩
            · cases h
        | succ depth =>
            rw [openCall?_opening hopening] at h
            exact ih (htail.opening hopening) hcons h
      by_cases hcomma : c = ','
      · subst hcomma
        rw [openCall?_comma] at h
        exact ih htail.comma hcons h
      · have hchar : c ∉ ['(', '[', ')', ']', ','] := by
          simp only [List.mem_cons, List.not_mem_nil, or_false, not_or] at hclosing hopening ⊢
          exact ⟨hopening.1, hopening.2, hclosing.1, hclosing.2, hcomma⟩
        rw [openCall?_char hchar hbreak] at h
        exact ih (htail.char hchar) hcons h

/-- A call is found exactly if it is open. -/
theorem enclosingCall?_eq_some_iff :
    enclosingCall? before = some (callee, n) ↔ ∃ args, IsOpenCall before callee args n := by
  constructor
  · intro h
    obtain ⟨⟨back, k⟩, hopen, heq⟩ := Option.map_eq_some_iff.1 h
    cases heq
    obtain ⟨args, hcall⟩ := isOpenCall_of_openCall? (.arguments .nil) nofun hopen
    exact ⟨args, by rwa [List.append_nil] at hcall⟩
  · rintro ⟨args, rfl, hargs, hunbroken⟩
    have hreverse : (callee ++ '(' :: args).reverse = args.reverse ++ '(' :: callee.reverse := by
      simp
    rw [enclosingCall?, hreverse, openCall?_arguments hargs hunbroken, if_pos rfl, Nat.zero_add]
    simp [openCall?]

end Search

/-- The call around the end of a text is found exactly. A bracket is found at an offset in bytes,
with some number of commas, if and only if a round bracket stands there with arguments behind it
that no statement ends, and with that many commas between them. There is at most one such bracket,
and nothing is found only if there is none. Where arguments without commas of their own follow a
round bracket, there is one comma less than arguments, whatever stands before. -/
theorem enclosingCall?_exact (before : Text) :
    (∀ i n, Sliced.enclosingCall? before = some (i, n) ↔
      ∃ callee args, Text.byteSize callee = i ∧ IsOpenCall before callee args n) ∧
    (∀ callee n, enclosingCall? before = some (callee, n) ↔
      ∃ args, IsOpenCall before callee args n) ∧
    (∀ callee args n callee' args' n', IsOpenCall before callee args n →
      IsOpenCall before callee' args' n' → callee = callee' ∧ args = args' ∧ n = n') ∧
    (enclosingCall? before = none ↔ ∀ callee args n, ¬ IsOpenCall before callee args n) ∧
    ∀ front args, args ≠ [] → (∀ a ∈ args, IsArguments 0 a ∧ IsUnbroken a) →
      before = front ++ '(' :: [','].intercalate args →
        enclosingCall? before = some (front, args.length - 1) := by
  refine ⟨fun i n => ?_, fun callee n => enclosingCall?_eq_some_iff, ?_, ?_, ?_⟩
  · rw [Sliced.enclosingCall?_eq, Option.map_eq_some_iff]
    constructor
    · rintro ⟨⟨callee, k⟩, hfound, heq⟩
      cases heq
      obtain ⟨args, hcall⟩ := enclosingCall?_eq_some_iff.1 hfound
      exact ⟨callee, args, rfl, hcall⟩
    · rintro ⟨callee, args, rfl, hcall⟩
      exact ⟨(callee, n), enclosingCall?_eq_some_iff.2 ⟨args, hcall⟩, rfl⟩
  · intro callee args n callee' args' n' h h'
    have hfound := enclosingCall?_eq_some_iff.2 ⟨args, h⟩
    rw [enclosingCall?_eq_some_iff.2 ⟨args', h'⟩] at hfound
    cases hfound
    have hargs := List.append_cancel_left (h.text_eq.symm.trans h'.text_eq)
    exact ⟨rfl, (List.cons.inj hargs).2, rfl⟩
  · rw [Option.eq_none_iff_forall_ne_some]
    constructor
    · exact fun hnone callee args n h => hnone (callee, n) (enclosingCall?_eq_some_iff.2 ⟨args, h⟩)
    · rintro hnone ⟨callee, n⟩ hfound
      obtain ⟨args, h⟩ := enclosingCall?_eq_some_iff.1 hfound
      exact hnone callee args n h
  · intro front args hne hargs htext
    refine enclosingCall?_eq_some_iff.2 ⟨_, htext, ?_, ?_⟩
    · exact .intercalate hne fun a ha => (hargs a ha).1
    · exact isUnbroken_intercalate fun a ha => (hargs a ha).2

/-- The third argument is being written, and the second one has a comma of its own. -/
theorem enclosingCall?_exact_nested :
    enclosingCall? "x; foo(a, bar(b, c), ".toList = some ("x; foo".toList, 2) := by
  have hinside : IsArguments 1 "b, c".toList :=
    .append (s := "b".toList) (.plain (by simp)) (.comma (.plain (t := " c".toList) (by simp)))
  have hsecond : IsArguments 0 " bar(b, c)".toList :=
    .append (s := " bar".toList) (.plain (by simp))
      (.group (t := []) (by decide) (by decide) hinside .nil)
  have hargs : ∀ a ∈ ["a".toList, " bar(b, c)".toList, " ".toList],
      IsArguments 0 a ∧ IsUnbroken a := by
    simp only [List.forall_mem_cons]
    exact ⟨⟨.plain (by simp), by simp [IsUnbroken]⟩,
      ⟨hsecond, by simp [IsUnbroken]⟩, ⟨.plain (by simp), by simp [IsUnbroken]⟩,
      nofun⟩
  obtain ⟨-, -, -, -, hcounts⟩ := enclosingCall?_exact "x; foo(a, bar(b, c), ".toList
  exact hcounts _ _ (List.cons_ne_nil _ _) hargs rfl

end LanguageServer
