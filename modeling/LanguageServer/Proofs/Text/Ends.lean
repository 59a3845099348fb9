import LanguageServer.Text.Basic
import Mathlib.Data.List.DropRight

/-!
# What is taken from the ends of a text

Where a run of characters of one kind ends is known once the next character is of another kind
(`takeWhile_append`, `takeEndWhile_append`), and such a character is what the rest has next to the
run (`head?_dropWhile`, `getLast?_dropEndWhile`). A run at the end goes on to the left only if
nothing else stands behind it (`dropEndWhile_append`).
-/

namespace LanguageServer.Text

variable {p : Char → Bool} {s t : Text}

theorem drop_length_takeWhile (p : Char → Bool) (t : Text) :
    t.drop (t.takeWhile p).length = t.dropWhile p := by
  have hdrop := @List.drop_left _ (t.takeWhile p) (t.dropWhile p)
  rwa [List.takeWhile_append_dropWhile] at hdrop

theorem takeWhile_append (hs : ∀ c ∈ s, p c = true) (ht : ∀ c, t.head? = some c → p c = false) :
    (s ++ t).takeWhile p = s := by
  rw [List.takeWhile_append_of_pos hs]
  cases t with
  | nil => exact List.append_nil s
  | cons c t => rw [List.takeWhile_cons_of_neg (by simp [ht c rfl]), List.append_nil]

/-- What does not start with a character of the kind neither prolongs a run nor is part of it. -/
theorem span_append (s : Text) (ht : ∀ c, t.head? = some c → p c = false) :
    (s ++ t).takeWhile p = s.takeWhile p ∧ (s ++ t).dropWhile p = s.dropWhile p ++ t := by
  induction s with
  | nil =>
      cases t with
      | nil => exact ⟨rfl, rfl⟩
      | cons c t =>
          have hc := ht c rfl
          have hneg : ¬ p c = true := by simp [hc]
          exact ⟨List.takeWhile_cons_of_neg hneg, List.dropWhile_cons_of_neg hneg⟩
  | cons c s ih =>
      rw [List.cons_append, List.takeWhile_cons, List.takeWhile_cons, List.dropWhile_cons,
        List.dropWhile_cons, ih.1, ih.2]
      split
      · exact ⟨rfl, rfl⟩
      · exact ⟨rfl, rfl⟩

theorem head?_dropWhile {c : Char} (h : (t.dropWhile p).head? = some c) : p c = false := by
  have hnot := List.head?_dropWhile_not p t
  rw [h] at hnot
  exact hnot

theorem forall_head? {c : Char} (h : t.head? = some c) (hc : p c = false) :
    ∀ d, t.head? = some d → p d = false := by
  intro d hd
  rw [h, Option.some.injEq] at hd
  exact hd ▸ hc

theorem dropWhile_eq_self {sign : Char} (h : t.head? ≠ some sign) :
    t.dropWhile (· == sign) = t := by
  cases t with
  | nil => rfl
  | cons c t => exact List.dropWhile_cons_of_neg (by simpa using h)

theorem of_mem_takeEndWhile {c : Char} (h : c ∈ takeEndWhile p t) : p c = true :=
  List.mem_takeWhile_imp (List.mem_reverse.1 h)

theorem takeEndWhile_append (hs : ∀ c, s.getLast? = some c → p c = false)
    (ht : ∀ c ∈ t, p c = true) : takeEndWhile p (s ++ t) = t := by
  rw [takeEndWhile, List.reverse_append, takeWhile_append, List.reverse_reverse]
  · exact fun c hc => ht c (List.mem_reverse.1 hc)
  · exact fun c hc => hs c (by rwa [List.head?_reverse] at hc)

theorem dropEndWhile_append_of_forall (hs : ∀ c, s.getLast? = some c → p c = false)
    (ht : ∀ c ∈ t, p c = true) : dropEndWhile p (s ++ t) = s := by
  have hwhole := dropEndWhile_append_takeEndWhile p (s ++ t)
  rwa [takeEndWhile_append hs ht, List.append_cancel_right_eq] at hwhole

theorem getLast?_dropEndWhile {c : Char} (h : (dropEndWhile p t).getLast? = some c) :
    p c = false := by
  have hne : dropEndWhile p t ≠ [] := fun hnil => by simp [hnil] at h
  rw [List.getLast?_eq_some_getLast hne, Option.some.injEq] at h
  exact h ▸ Bool.eq_false_iff.2 (List.rdropWhile_last_not p t hne)

theorem dropEndWhile_append (p : Char → Bool) (s t : Text) :
    dropEndWhile p (s ++ t)
      = if dropEndWhile p t = [] then dropEndWhile p s else s ++ dropEndWhile p t := by
  rw [dropEndWhile, List.reverse_append, List.dropWhile_append, dropEndWhile, dropEndWhile]
  simp only [List.isEmpty_iff, List.reverse_eq_nil_iff]
  split
  · rfl
  · rw [List.reverse_append, List.reverse_reverse]

end LanguageServer.Text
