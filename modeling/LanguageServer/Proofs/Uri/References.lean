import LanguageServer.Proofs.Uri.Encoding

/-!
# The components of a reference

A reference is cut at its first number sign and before that at its first question mark; what is left
is a scheme, an authority and a path. So a local address without these two signs has nothing but a
path, and it is a reference if the path is made of what paths admit (`isReference_local`).
-/

namespace LanguageServer.Reference

/-- What follows the first number sign. -/
def fragment? (t : Text) : Option Text :=
  match t.dropWhile (· != '#') with
  | [] => none
  | _ :: fragment => some fragment

/-- What follows the first question mark in front of the fragment. -/
def query? (t : Text) : Option Text :=
  match (t.takeWhile (· != '#')).dropWhile (· != '?') with
  | [] => none
  | _ :: query => some query

/-- What is left in front of query and fragment without scheme and authority. -/
def path (t : Text) : Text :=
  let beforeQuery := (t.takeWhile (· != '#')).takeWhile (· != '?')
  let first := beforeQuery.takeWhile (· != '/')
  let hierarchy :=
    if first.contains ':' then beforeQuery.drop ((first.takeWhile (· != ':')).length + 1)
    else beforeQuery
  match hierarchy with
  | '/' :: '/' :: rest => rest.dropWhile (· != '/')
  | path => path

/-- A reference that has a path only, and whose path stands for the given one. -/
structure Denotes (reference localPath : Text) : Prop where
  query : query? reference = none
  fragment : fragment? reference = none
  path : Percent.decode (path reference) = localPath

/-! ### Signs that end a component -/

theorem dropWhile_ne_eq_nil_iff {sign : Char} {t : Text} :
    t.dropWhile (· != sign) = [] ↔ sign ∉ t := by
  rw [List.dropWhile_eq_nil_iff]
  constructor
  · intro h hmem
    simpa using h sign hmem
  · intro h c hc
    exact bne_iff_ne.2 fun heq => h (heq ▸ hc)

theorem takeWhile_ne_eq_self {sign : Char} {t : Text} (h : sign ∉ t) :
    t.takeWhile (· != sign) = t :=
  List.takeWhile_eq_self_iff.2 fun _ hc => bne_iff_ne.2 fun heq => h (heq ▸ hc)

theorem fragment?_eq_none_iff {t : Text} : fragment? t = none ↔ '#' ∉ t := by
  rw [← dropWhile_ne_eq_nil_iff, fragment?]
  split
  · next hnil => exact iff_of_true rfl hnil
  · next hcons => exact iff_of_false nofun (by simp [hcons])

theorem query?_eq_none_iff {t : Text} (h : '#' ∉ t) : query? t = none ↔ '?' ∉ t := by
  rw [← dropWhile_ne_eq_nil_iff, query?, takeWhile_ne_eq_self h]
  split
  · next hnil => exact iff_of_true rfl hnil
  · next hcons => exact iff_of_false nofun (by simp [hcons])

/-- A reference with a path only has neither of the two signs. -/
theorem Denotes.not_mem {reference localPath : Text} (h : Denotes reference localPath) :
    '#' ∉ reference ∧ '?' ∉ reference := by
  have hfragment := fragment?_eq_none_iff.1 h.fragment
  exact ⟨hfragment, (query?_eq_none_iff hfragment).1 h.query⟩

/-! ### Local addresses -/

variable {t : Text}

theorem path_local (hfragment : '#' ∉ t) (hquery : '?' ∉ t) :
    path ("file:///".toList ++ t) = '/' :: t := by
  have hf : '#' ∉ "file:///".toList ++ t := by simp [hfragment]
  have hq : '?' ∉ "file:///".toList ++ t := by simp [hquery]
  rw [path, takeWhile_ne_eq_self hf, takeWhile_ne_eq_self hq]
  rfl

theorem isReference_local (hfragment : '#' ∉ t) (hquery : '?' ∉ t) :
    isReference ("file:///".toList ++ t) = isMadeOf isPathChar t := by
  have hf : '#' ∉ "file:///".toList ++ t := by simp [hfragment]
  have hq : '?' ∉ "file:///".toList ++ t := by simp [hquery]
  have hrest : ("file:///".toList ++ t).drop (("file:///".toList ++ t).length + 1) = [] :=
    List.drop_eq_nil_of_le (Nat.le_succ _)
  have hslash : isMadeOf isPathChar ('/' :: t) = isMadeOf isPathChar t :=
    Percent.isMadeOf_cons (by decide) t
  rw [isReference, takeWhile_ne_eq_self hf, takeWhile_ne_eq_self hq, hrest, ← hslash]
  change (isMadeOf isPathChar ('/' :: t) && true && true) = _
  rw [Bool.and_true, Bool.and_true]

end LanguageServer.Reference
