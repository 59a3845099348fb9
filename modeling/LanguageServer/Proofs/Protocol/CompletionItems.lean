import LanguageServer.Protocol.Params

/-!
# Completion items on their way to the client and back

An item that has been sent comes back as the same one: its canonical form is the value that was
sent, and reading it gives the item again. The only thing that can come in between is a place whose
line or column does not fit into 32 bits, with which the item as a whole is refused.
-/

namespace LanguageServer

/-- Whether the client can send a place. -/
def Position.fits (p : Position) : Bool := p.line ≤ 4294967295 && p.character ≤ 4294967295

def Range.fits (r : Range) : Bool := r.start.fits && r.stop.fits

namespace Shape

theorem uint32_nat (n : Nat) :
    uint32 (.nat n) = if n ≤ 4294967295 then some (.nat n) else none := by
  have hbounds : ((0 : Int) ≤ (n : Int) && (n : Int) ≤ 4294967295) = decide (n ≤ 4294967295) := by
    by_cases h : n ≤ 4294967295
    · simp only [h, decide_true, Bool.and_eq_true, decide_eq_true_eq]
      omega
    · simp only [h, decide_false, Bool.and_eq_false_iff, decide_eq_false_iff_not]
      omega
  rw [uint32, Json.nat, integer, hbounds]
  simp only [decide_eq_true_eq]

/-- The fields of a record that is given as an object are read one after the other. -/
theorem record_obj (fields : List Field) (all : List (String × Json)) :
    record fields (.obj all) =
      (fields.mapM fun f : Field => f.read ((Json.obj all).get? f.key)).map Json.ofFields := by
  rw [record, object, ofGiven, List.mapM_map]
  · rfl
  · exact nofun

theorem int32_completionNumber (kind : SymbolKind) :
    int32 (.nat kind.completionNumber) = some (.nat kind.completionNumber) := by
  cases kind <;> rfl

theorem position_toJson (p : Position) :
    position p.toJson = if p.fits then some p.toJson else none := by
  by_cases hline : p.line ≤ 4294967295 <;> by_cases hcharacter : p.character ≤ 4294967295 <;>
    simp [position, record_obj, required, Field.read, Position.toJson, Position.fits, Json.get?,
      Json.ofFields, uint32_nat, hline, hcharacter]

theorem range_toJson (r : Range) : range r.toJson = if r.fits then some r.toJson else none := by
  by_cases hstart : r.start.fits <;> by_cases hstop : r.stop.fits <;>
    simp [range, record_obj, required, Field.read, Range.toJson, Range.fits, Json.get?,
      Json.ofFields, position_toJson, hstart, hstop]

theorem textEdit_toJson (e : TextEdit) :
    textEdit e.toJson = if e.range.fits then some e.toJson else none := by
  by_cases hrange : e.range.fits <;>
    simp [textEdit, record_obj, required, Field.read, TextEdit.toJson, Json.get?, Json.ofFields,
      text, range_toJson, hrange]

/-- An edit of one range is no edit of which the client takes one of two ranges. -/
theorem insertReplaceEdit_toJson (e : TextEdit) : insertReplaceEdit e.toJson = none := by
  simp [insertReplaceEdit, record_obj, required, Field.read, TextEdit.toJson, Json.get?, text]

theorem itemEdit_toJson (e : TextEdit) :
    either textEdit insertReplaceEdit (ItemEdit.single e).toJson =
      if e.range.fits then some (ItemEdit.single e).toJson else none := by
  rw [either, ItemEdit.toJson, textEdit_toJson, insertReplaceEdit_toJson, Option.or_none]

theorem completionItem_toJson (c : Candidate) (version index : Nat) :
    completionItem (CompletionItem.ofCandidate c version index).toJson =
      if c.replace.fits then some (CompletionItem.ofCandidate c version index).toJson
      else none := by
  have hkind := int32_completionNumber c.kind
  have hedit := itemEdit_toJson ⟨c.replace, c.insertText⟩
  have hnulls : (Json.nat c.kind.completionNumber).isNull = false ∧
      (ItemEdit.single ⟨c.replace, c.insertText⟩).toJson.isNull = false ∧
      (CompletionItem.dataFor version index).isNull = false ∧
      ∀ t, (Json.str t).isNull = false := ⟨rfl, rfl, rfl, fun _ => rfl⟩
  cases hdetail : c.detail <;> by_cases hfits : c.replace.fits <;>
    simp [completionItem, record_obj, required, optional, Field.read, CompletionItem.ofCandidate,
      CompletionItem.toJson, hdetail, Json.ofFields, Json.get?, hkind, hedit, hfits,
      hnulls, Option.filter, any, text]

end Shape

namespace Params

theorem position?_toJson (p : Position) : position? p.toJson = if p.fits then some p else none := by
  rw [position?, Shape.position_toJson]
  by_cases hfits : p.fits
  · rw [if_pos hfits, if_pos hfits]
    rfl
  · rw [if_neg hfits, if_neg hfits]
    rfl

theorem range?_toJson (r : Range) : range? r.toJson = if r.fits then some r else none := by
  rw [range?, Shape.range_toJson]
  by_cases hfits : r.fits
  · have hends : r.start.fits = true ∧ r.stop.fits = true := by
      simpa [Range.fits] using hfits
    have hstart := position?_toJson r.start
    have hstop := position?_toJson r.stop
    rw [if_pos hends.1] at hstart
    rw [if_pos hends.2] at hstop
    rw [if_pos hfits, if_pos hfits]
    simp [Range.toJson, Json.get?, hstart, hstop]
  · rw [if_neg hfits, if_neg hfits]
    rfl

theorem textEdit?_toJson (e : TextEdit) :
    textEdit? e.toJson = if e.range.fits then some e else none := by
  rw [textEdit?, Shape.textEdit_toJson]
  by_cases hfits : e.range.fits
  · have hrange := range?_toJson e.range
    rw [if_pos hfits] at hrange ⊢
    rw [if_pos hfits]
    simp [TextEdit.toJson, Json.get?, text?, Json.text?, hrange]
  · rw [if_neg hfits, if_neg hfits]
    rfl

theorem itemEdit?_toJson (e : TextEdit) :
    itemEdit? (ItemEdit.single e).toJson = if e.range.fits then some (.single e) else none := by
  rw [itemEdit?, ItemEdit.toJson, textEdit?_toJson, Shape.insertReplaceEdit_toJson]
  split <;> rfl

/-- An item comes back as it was sent, unless its place cannot be sent. -/
theorem completionItem?_toJson (c : Candidate) (version index : Nat) :
    completionItem? (CompletionItem.ofCandidate c version index).toJson =
      if c.replace.fits then some (CompletionItem.ofCandidate c version index) else none := by
  rw [completionItem?, Shape.completionItem_toJson]
  by_cases hfits : c.replace.fits
  · have hedit := itemEdit?_toJson ⟨c.replace, c.insertText⟩
    rw [if_pos hfits] at hedit ⊢
    rw [if_pos hfits]
    cases hdetail : c.detail <;>
      simp [CompletionItem.ofCandidate, CompletionItem.toJson, Json.ofFields, Json.fields?,
        Json.get?, hdetail, hedit]
  · rw [if_neg hfits, if_neg hfits]
    rfl

end Params

/-- An item says where it is from. -/
theorem CompletionItem.origin?_ofCandidate (c : Candidate) (version index : Nat) :
    (CompletionItem.ofCandidate c version index).origin? = some (version, index) := by
  rfl

end LanguageServer
