import LanguageServer.Workspace.Keyed
import Mathlib.Data.List.Lex
import Mathlib.Data.Char

/-!
# Values in the order of their keys

Putting in and taking out keeps values `Keyed.Sorted`. Then a key stands at most once, so an entry
is there exactly if it is found under its key, and what is found under all keys determines the
values.
-/

namespace LanguageServer

namespace FileKey

variable {a b c : FileKey}

theorem lt_iff : a.lt b = true ↔ a.text < b.text := decide_eq_true_iff

theorem not_lt_self (a : FileKey) : ¬ a.lt a = true := by
  rw [lt_iff]
  exact lt_irrefl a.text

theorem lt_trans (hab : a.lt b = true) (hbc : b.lt c = true) : a.lt c = true := by
  rw [lt_iff] at hab hbc ⊢
  exact hab.trans hbc

theorem lt_of_not_lt (hne : a ≠ b) (hab : ¬ a.lt b = true) : b.lt a = true := by
  rw [lt_iff] at hab ⊢
  have htext : b.text ≠ a.text := fun h => hne (congrArg FileKey.mk h.symm)
  exact lt_of_le_of_ne (not_lt.1 hab) htext

end FileKey

namespace Keyed

variable {α : Type} {values values' : Keyed α} {key : FileKey} {v : α}

/-- In the order of the keys, each key once. -/
def Sorted (values : Keyed α) : Prop := values.Pairwise fun a b => a.1.lt b.1 = true

theorem sorted_nil : Sorted ([] : Keyed α) := .nil

theorem mem_insert {entry : FileKey × α} (h : entry ∈ values.insert key v) :
    entry = (key, v) ∨ entry ∈ values := by
  induction values with
  | nil => exact .inl (List.mem_singleton.1 h)
  | cons head rest ih =>
      obtain ⟨k, w⟩ := head
      rw [insert] at h
      split at h
      · exact (List.mem_cons.1 h).imp_right (List.mem_cons_of_mem _)
      · split at h
        · exact List.mem_cons.1 h
        · rcases List.mem_cons.1 h with rfl | h
          · exact .inr List.mem_cons_self
          · exact (ih h).imp_right (List.mem_cons_of_mem _)

theorem sorted_insert (h : values.Sorted) (key : FileKey) (v : α) :
    (values.insert key v).Sorted := by
  induction values with
  | nil => exact List.pairwise_singleton ..
  | cons head rest ih =>
      obtain ⟨k, w⟩ := head
      obtain ⟨hhead, hrest⟩ := List.pairwise_cons.1 h
      rw [insert]
      split
      · next hk => exact List.pairwise_cons.2 ⟨hk ▸ hhead, hrest⟩
      · next hk =>
          split
          · next hlt =>
              refine List.pairwise_cons.2 ⟨fun entry hentry => ?_, h⟩
              rcases List.mem_cons.1 hentry with rfl | hentry
              · exact hlt
              · exact FileKey.lt_trans hlt (hhead entry hentry)
          · next hlt =>
              refine List.pairwise_cons.2 ⟨fun entry hentry => ?_, ih hrest⟩
              rcases mem_insert hentry with rfl | hentry
              · exact FileKey.lt_of_not_lt hk hlt
              · exact hhead entry hentry

theorem sorted_erase (h : values.Sorted) (key : FileKey) : (values.erase key).Sorted :=
  List.Pairwise.filter _ h

theorem mem_of_get? (h : values.get? key = some v) : (key, v) ∈ values := by
  obtain ⟨⟨k, w⟩, hfind, hw⟩ := Option.map_eq_some_iff.1 h
  have hk : k = key := by simpa using List.find?_some hfind
  subst hk hw
  exact List.mem_of_find?_eq_some hfind

/-- Behind an entry its key does not stand again. -/
theorem Sorted.get?_tail {entry : FileKey × α} {rest : Keyed α}
    (h : Sorted (entry :: rest)) : Keyed.get? rest entry.1 = none := by
  cases hget : Keyed.get? rest entry.1 with
  | none => rfl
  | some w => exact absurd ((List.pairwise_cons.1 h).1 _ (mem_of_get? hget)) (FileKey.not_lt_self _)

theorem Sorted.filter_key (h : values.Sorted) (hget : values.get? key = some v) :
    values.filter (·.1 = key) = [(key, v)] := by
  induction values with
  | nil => cases hget
  | cons entry rest ih =>
      obtain ⟨k, w⟩ := entry
      have hrest := (List.pairwise_cons.1 h).2
      rw [get?_cons] at hget
      split at hget
      · next hk =>
          subst hk
          have hnone := h.get?_tail
          rw [get?, Option.map_eq_none_iff, List.find?_eq_none] at hnone
          rw [List.filter_cons_of_pos (by simp), List.filter_eq_nil_iff.2 hnone]
          cases hget
          rfl
      · next hk => rw [List.filter_cons_of_neg (by simpa using hk), ih hrest hget]

theorem Sorted.get?_of_mem (h : values.Sorted) (hmem : (key, v) ∈ values) :
    values.get? key = some v := by
  cases hget : values.get? key with
  | none =>
      rw [get?, Option.map_eq_none_iff, List.find?_eq_none] at hget
      exact absurd (decide_eq_true rfl) (hget _ hmem)
  | some w =>
      have hfilter : (key, v) ∈ values.filter (·.1 = key) :=
        List.mem_filter.2 ⟨hmem, decide_eq_true rfl⟩
      rw [h.filter_key hget, List.mem_singleton] at hfilter
      rw [(Prod.mk.inj hfilter).2]

theorem Sorted.ext (h : values.Sorted) (h' : values'.Sorted)
    (hget : ∀ key, values.get? key = values'.get? key) : values = values' := by
  have hmem : ∀ entry, entry ∈ values ↔ entry ∈ values' := by
    intro ⟨key, v⟩
    constructor
    · intro hentry
      exact mem_of_get? ((hget key).symm.trans (h.get?_of_mem hentry))
    · intro hentry
      exact mem_of_get? ((hget key).trans (h'.get?_of_mem hentry))
  have hnodup : ∀ {l : Keyed α}, l.Sorted → l.Nodup := by
    intro l hl
    refine List.Pairwise.imp (fun hlt heq => ?_) hl
    exact FileKey.not_lt_self _ (heq ▸ hlt)
  have hperm : values.Perm values' := (List.perm_ext_iff_of_nodup (hnodup h) (hnodup h')).2 hmem
  refine hperm.eq_of_pairwise (fun a b _ _ hab hba => ?_) h h'
  exact absurd (FileKey.lt_trans hab hba) (FileKey.not_lt_self _)

end Keyed

end LanguageServer
