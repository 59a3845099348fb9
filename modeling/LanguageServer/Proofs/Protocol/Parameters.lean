import LanguageServer.Protocol.Params

/-!
# What valid parameters hold

Parameters are read from their canonical form. A field of a canonical record is the canonical form
of some value, so what its shape demands need not be checked again: the address of a document that
has been opened is a URI reference. It does not matter whether a record is given as an object or as
the list of its values.
-/

namespace LanguageServer

namespace Shape

theorem exists_of_mem_mapM {α β : Type} {f : α → Option β} {as : List α} {bs : List β}
    (h : as.mapM f = some bs) {b : β} (hb : b ∈ bs) : ∃ a ∈ as, f a = some b := by
  induction as generalizing bs with
  | nil =>
      rw [List.mapM_nil] at h
      cases h
      cases hb
  | cons a as ih =>
      rw [List.mapM_cons] at h
      obtain ⟨first, hfirst, h⟩ := Option.bind_eq_some_iff.1 h
      obtain ⟨rest, hrest, h⟩ := Option.bind_eq_some_iff.1 h
      cases h
      rcases List.mem_cons.1 hb with rfl | hb
      · exact ⟨a, List.mem_cons_self, hfirst⟩
      · obtain ⟨a', ha', hread⟩ := ih hrest hb
        exact ⟨a', List.mem_cons_of_mem a ha', hread⟩

theorem Field.key_of_read {f : Field} {given : Option Json} {key : String} {v : Json}
    (h : f.read given = some (key, some v)) : f.key = key ∧ ∃ raw, f.shape raw = some v := by
  rw [Field.read] at h
  split at h
  · split at h
    · cases h
    · next raw _ =>
        obtain ⟨v', hv', heq⟩ := Option.map_eq_some_iff.1 h
        cases heq
        exact ⟨rfl, raw, hv'⟩
  · obtain ⟨v', hv', heq⟩ := Option.map_eq_some_iff.1 h
    obtain ⟨raw, -, hshape⟩ := Option.bind_eq_some_iff.1 hv'
    cases heq
    exact ⟨rfl, raw, hshape⟩

variable {fields : List Field} {j record : Json} {key : String} {v : Json}

/-- A field in the canonical form of what is given is one of those that it is given for. -/
theorem exists_of_get?_ofGiven {given : List (Field × Option Json)}
    (h : ofGiven given = some record) (hv : record.get? key = some v) :
    ∃ f ∈ given.map Prod.fst, f.key = key ∧ ∃ raw, f.shape raw = some v := by
  obtain ⟨values, hvalues, rfl⟩ := Option.map_eq_some_iff.1 h
  obtain ⟨⟨k, v'⟩, hfound, heq⟩ := Option.map_eq_some_iff.1 hv
  obtain rfl : v' = v := heq
  obtain rfl : k = key := by simpa using List.find?_some hfound
  have hmem := List.mem_reverse.1 (List.mem_of_find?_eq_some hfound)
  obtain ⟨⟨k', value⟩, hvalue, heq⟩ := List.mem_filterMap.1 hmem
  obtain ⟨v'', hv'', heq⟩ := Option.map_eq_some_iff.1 heq
  cases heq
  cases hv''
  obtain ⟨⟨f, value⟩, hf, hread⟩ := exists_of_mem_mapM hvalues hvalue
  exact ⟨f, List.mem_map_of_mem hf, Field.key_of_read hread⟩

theorem exists_of_get?_object (h : object fields j = some record)
    (hv : record.get? key = some v) : ∃ f ∈ fields, f.key = key ∧ ∃ raw, f.shape raw = some v := by
  unfold object at h
  split at h
  · have hfound := exists_of_get?_ofGiven h hv
    rw [List.map_map] at hfound
    exact (List.map_id fields) ▸ hfound
  · cases h

/-- A field of a canonical record is one of those that the shape names, in its canonical form. -/
theorem exists_of_get?_record (h : Shape.record fields j = some record)
    (hv : record.get? key = some v) : ∃ f ∈ fields, f.key = key ∧ ∃ raw, f.shape raw = some v := by
  unfold Shape.record at h
  split at h
  · split at h
    · next values hlength =>
        have hfound := exists_of_get?_ofGiven h hv
        rw [List.map_fst_zip (by simp [hlength])] at hfound
        exact hfound
    · cases h
  · exact exists_of_get?_object h hv

/-! ### Records given as lists -/

theorem get?_zip {keys : List String} {values : List Json} (hkeys : keys.Nodup) {i : Nat}
    (hkey : keys[i]? = some key) (hv : values[i]? = some v) :
    (Json.obj (keys.zip values)).get? key = some v := by
  have hmem : (key, v) ∈ (keys.zip values).reverse :=
    List.mem_reverse.2 (List.mem_of_getElem? (List.getElem?_zip_eq_some.2 ⟨hkey, hv⟩))
  have hfound : ((keys.zip values).reverse.find? (·.1 == key)).isSome :=
    List.find?_isSome.2 ⟨_, hmem, beq_self_eq_true key⟩
  obtain ⟨⟨key', v'⟩, hfind⟩ := Option.isSome_iff_exists.1 hfound
  obtain rfl : key' = key := by simpa using List.find?_some hfind
  obtain ⟨k, hk⟩ := List.mem_iff_getElem?.1 (List.mem_reverse.1 (List.mem_of_find?_eq_some hfind))
  obtain ⟨hkey', hv'⟩ := List.getElem?_zip_eq_some.1 hk
  have hlt := (List.getElem?_eq_some_iff.1 hkey').1
  obtain rfl : k = i := (List.getElem?_inj hlt hkeys).1 (hkey'.trans hkey.symm)
  rw [Json.get?, hfind, Option.map_some]
  exact hv'.symm.trans hv

/-- A list of values is read as the object is whose fields have these values. -/
theorem record_arr {values : List Json} (hkeys : (fields.map Field.key).Nodup)
    (hlength : values.length = fields.length) :
    Shape.record fields (.arr values)
      = Shape.record fields (.obj ((fields.map Field.key).zip values)) := by
  have hgiven : fields.zip (values.map some) = fields.map fun f =>
      (f, (Json.obj ((fields.map Field.key).zip values)).get? f.key) := by
    refine List.ext_getElem (by simp [hlength]) fun i hi hi' => ?_
    have hf : i < fields.length := by simpa using hi'
    have hv : i < values.length := hlength ▸ hf
    have hkey : (fields.map Field.key)[i]? = some fields[i].key := by simp [hf]
    have hget := get?_zip hkeys hkey (List.getElem?_eq_getElem hv)
    simp [hget]
  simp only [Shape.record, object, hlength, if_true, hgiven]

/-! ### Addresses -/

theorem isReference_of_uri {raw : Json} {t : Text} (h : uri raw = some (.str t)) :
    Reference.isReference t = true := by
  unfold uri at h
  split at h
  · split at h
    · next hreference =>
        cases h
        exact hreference
    · cases h
  · cases h

end Shape

namespace Params

open Shape (required)

/-- The address of a document that has been opened is a URI reference. -/
theorem isReference_of_opened {j : Json} {d : OpenedDocument} (h : opened? j = some d) :
    Reference.isReference d.uri = true := by
  unfold opened? at h
  obtain ⟨record, hrecord, h⟩ := Option.bind_eq_some_iff.1 h
  obtain ⟨document, hdocument, h⟩ := Option.bind_eq_some_iff.1 h
  obtain ⟨uri, huri, h⟩ := Option.bind_eq_some_iff.1 h
  obtain ⟨text, -, h⟩ := Option.bind_eq_some_iff.1 h
  obtain ⟨version, -, h⟩ := Option.bind_eq_some_iff.1 h
  cases h
  obtain ⟨f, hf, -, raw, hraw⟩ := Shape.exists_of_get?_record hrecord hdocument
  obtain rfl := List.mem_singleton.1 hf
  obtain ⟨v, hv, hv'⟩ := Option.bind_eq_some_iff.1 huri
  obtain ⟨g, hg, hkey, raw', hraw'⟩ := Shape.exists_of_get?_record hraw hv
  have hg : g = required "uri" Shape.uri := by
    simp only [List.mem_cons, List.not_mem_nil, or_false] at hg
    rcases hg with rfl | rfl | rfl | rfl
    · rfl
    · exact absurd hkey (by decide)
    · exact absurd hkey (by decide)
    · exact absurd hkey (by decide)
  subst hg
  cases v <;> cases hv'
  exact Shape.isReference_of_uri hraw'

end Params

end LanguageServer
