import LanguageServer.Uri.Key

/-!
# Values of files

Values in the order of the keys of their files, each key once. A value is put in place without a
look at the rest, so what is found under a key afterwards does not depend on the order.
-/

namespace LanguageServer

/-- Values in the order of their keys, each key once. -/
abbrev Keyed (α : Type) := List (FileKey × α)

namespace Keyed

variable {α : Type}

def get? (values : Keyed α) (key : FileKey) : Option α :=
  (values.find? (·.1 = key)).map (·.2)

def erase (values : Keyed α) (key : FileKey) : Keyed α := values.filter (·.1 ≠ key)

/-- Puts a value at its place in the order, instead of the one that was there. -/
def insert (key : FileKey) (value : α) : Keyed α → Keyed α
  | [] => [(key, value)]
  | (k, v) :: rest =>
    if key = k then (key, value) :: rest
    else if key.lt k then (key, value) :: (k, v) :: rest
    else (k, v) :: insert key value rest

@[simp] theorem get?_nil (key : FileKey) : get? ([] : Keyed α) key = none := rfl

theorem get?_cons (k : FileKey) (v : α) (rest : Keyed α) (key : FileKey) :
    get? ((k, v) :: rest) key = if k = key then some v else get? rest key := by
  simp only [get?, List.find?_cons]
  by_cases hk : k = key <;> simp [hk]

theorem get?_insert (values : Keyed α) (key : FileKey) (value : α) (other : FileKey) :
    (values.insert key value).get? other =
      if key = other then some value else values.get? other := by
  induction values with
  | nil => rw [insert, get?_cons]
  | cons entry rest ih =>
      obtain ⟨k, v⟩ := entry
      rw [insert]
      split
      · next hk =>
          subst hk
          rw [get?_cons, get?_cons]
          split <;> rfl
      · split
        · rw [get?_cons]
        · next hk _ =>
            rw [get?_cons, get?_cons, ih]
            split
            · next hother => rw [if_neg fun h => hk (h.trans hother.symm)]
            · rfl

@[simp] theorem get?_insert_self (values : Keyed α) (key : FileKey) (value : α) :
    (values.insert key value).get? key = some value := by
  rw [get?_insert, if_pos rfl]

theorem get?_erase (values : Keyed α) (key other : FileKey) :
    (values.erase key).get? other = if key = other then none else values.get? other := by
  induction values with
  | nil => simp [erase]
  | cons entry rest ih =>
      obtain ⟨k, v⟩ := entry
      by_cases hk : k = key
      · subst hk
        have herase : erase ((k, v) :: rest) k = erase rest k := by simp [erase]
        rw [herase, ih, get?_cons]
        split <;> rfl
      · have herase : erase ((k, v) :: rest) key = (k, v) :: erase rest key := by simp [erase, hk]
        rw [herase, get?_cons, get?_cons, ih]
        split
        · next hother => rw [if_neg fun h => hk (hother.trans h.symm)]
        · rfl

theorem erase_of_get?_eq_none {values : Keyed α} {key : FileKey} (h : values.get? key = none) :
    values.erase key = values := by
  rw [get?, Option.map_eq_none_iff, List.find?_eq_none] at h
  exact List.filter_eq_self.2 fun entry hentry => by simpa using h entry hentry

end Keyed

end LanguageServer
