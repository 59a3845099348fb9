import LanguageServer.Proofs.Sliced.Capabilities
import LanguageServer.Proofs.Workspace.Editing

/-!
# Carets of editors

The caret of an editor is a byte offset at which queries cut the text. A move puts it between two
characters, but when the text becomes another one, it stays where it is unless that is behind the
end, and what was between two characters of the old text may be inside a character of the new one.
Completions and help with signatures then break off (`completions_eq_broken`), whereas the word
under the caret is still found.

So the caret is usable at all times exactly if every new text ends before it or has two characters
meet there (`usable_along_iff`), as a text has that goes on in the same way up to the caret
(`suits_of_isPrefix`).
-/

namespace LanguageServer

/-! ### Queries at a caret -/

namespace Sliced

variable {c : Context}

theorem sliceTo_eq_broken {t : Text} {j : Nat} (h : t.isBoundary j = false) :
    sliceTo t j = .error broken := by
  rw [sliceTo, slice, h, Bool.and_false]
  rfl

theorem completions_eq_broken (ix : Index) (hle : c.caret ≤ c.text.byteSize)
    (hcaret : c.text.isBoundary c.caret = false) : completions ix c = .error broken := by
  unfold completions
  dsimp only
  rw [Nat.min_eq_left hle, sliceTo_eq_broken hcaret]
  rfl

theorem signatureHelp_eq_broken (ix : Index) (hle : c.caret ≤ c.text.byteSize)
    (hcaret : c.text.isBoundary c.caret = false) : signatureHelp ix c = .error broken := by
  rw [signatureHelp, Nat.min_eq_left hle, sliceTo_eq_broken hcaret]
  rfl

end Sliced

/-! ### Steps of an editor -/

/-- What happens to an open file: its text is changed or read again from disk, or the caret is moved
to a position. -/
inductive EditorStep
  | edit (change : Text → Text)
  | reload (disk : FileTree)
  | moveTo (position : Position)

/-- The text that a step puts into an editor, unless it fails. Moving the caret puts none. -/
def EditorStep.newText? (key : FileKey) (e : Editor) : EditorStep → Option Text
  | edit change => if e.writable then some (change e.text) else none
  | reload disk =>
    match key.localPath?.map disk.readText with
    | some (.ok (text, _)) => some text
    | _ => none
  | moveTo _ => none

namespace Editor

/-- The caret is between two characters or at one of the ends. -/
def IsPlaced (e : Editor) : Prop := e.text.isBoundary e.caret = true

/-- The caret would still be between two characters of a text: the text ends before it, or two of
its characters meet there. -/
def Suits (e : Editor) (text : Text) : Prop :=
  text.byteSize ≤ e.caret ∨ text.isBoundary e.caret = true

/-- The editor after a step. -/
def next (key : FileKey) (e : Editor) (step : EditorStep) : Editor :=
  match step.newText? key e, step with
  | some text, _ => e.setText text
  | none, .moveTo position => e.moveCaret (e.text.offsetOf position)
  | none, _ => e

def nextAll (key : FileKey) (e : Editor) (steps : List EditorStep) : Editor :=
  steps.foldl (next key) e

/-- Every text that is put in during a run suits the caret that it finds. -/
def SuitedBy (key : FileKey) : Editor → List EditorStep → Prop
  | _, [] => True
  | e, step :: steps =>
    (∀ text, step.newText? key e = some text → e.Suits text) ∧ SuitedBy key (e.next key step) steps

variable {key : FileKey} {e : Editor}

theorem isPlaced_ofFile (text : Text) (writable : Bool) : (ofFile text writable).IsPlaced :=
  Text.isBoundary_bytesTo text 0

theorem IsPlaced.caret_le (h : e.IsPlaced) : e.caret ≤ e.text.byteSize := by
  have hsize : Text.byteSize (e.text.beforeByte e.caret) = e.caret := eq_of_beq h
  have hwhole : e.text.beforeByte e.caret ++ e.text.afterByte e.caret = e.text :=
    Text.splitWithin_append ..
  rw [← hwhole, Text.byteSize_append, hsize]
  exact Nat.le_add_right ..

/-- The caret that an offset behind the end is moved to is the end. -/
theorem isBoundary_min (text : Text) (offset : Nat) :
    text.isBoundary (min offset text.byteSize) = true ↔
      text.byteSize ≤ offset ∨ text.isBoundary offset = true := by
  rcases Nat.le_total text.byteSize offset with hle | hle
  · rw [Nat.min_eq_right hle, ← Text.bytesTo_length, Text.isBoundary_bytesTo]
    exact iff_of_true rfl (.inl (Text.bytesTo_length text ▸ hle))
  · rw [Nat.min_eq_left hle]
    refine ⟨.inr, Or.rec (fun hge => ?_) id⟩
    rw [Nat.le_antisymm hle hge, ← Text.bytesTo_length, Text.isBoundary_bytesTo]

theorem isPlaced_moveCaret (e : Editor) (position : Position) :
    (e.moveCaret (e.text.offsetOf position)).IsPlaced :=
  (isBoundary_min ..).2 (.inr (e.text.isBoundary_offsetOf position))

theorem isPlaced_setText_iff {text : Text} : (e.setText text).IsPlaced ↔ e.Suits text :=
  isBoundary_min text e.caret

/-- A text that goes on in the same way up to the caret suits it. -/
theorem suits_of_isPrefix (h : e.IsPlaced) {text : Text}
    (hbefore : e.text.beforeByte e.caret <+: text) : e.Suits text := by
  obtain ⟨after, rfl⟩ := hbefore
  have hcut := Text.isBoundary_byteSize (e.text.beforeByte e.caret) after
  rw [eq_of_beq h] at hcut
  exact .inr hcut

theorem caret_le_next (h : e.caret ≤ e.text.byteSize) (step : EditorStep) :
    (e.next key step).caret ≤ (e.next key step).text.byteSize := by
  unfold next
  split
  · exact Nat.min_le_right ..
  · exact Nat.min_le_right ..
  · exact h

theorem caret_le_nextAll (h : e.caret ≤ e.text.byteSize) (steps : List EditorStep) :
    (e.nextAll key steps).caret ≤ (e.nextAll key steps).text.byteSize := by
  induction steps generalizing e with
  | nil => exact h
  | cons step steps ih => exact ih (caret_le_next h step)

theorem isPlaced_next_iff (h : e.IsPlaced) (step : EditorStep) :
    (e.next key step).IsPlaced ↔ ∀ text, step.newText? key e = some text → e.Suits text := by
  unfold next
  split
  · next text heq => simp only [heq, Option.some.injEq, forall_eq', isPlaced_setText_iff]
  · next position heq => exact iff_of_true (isPlaced_moveCaret ..) nofun
  · next heq => exact iff_of_true h (by simp [heq])

/-- The first text that does not suit the caret is where it is lost. -/
theorem isPlaced_along_iff (h : e.IsPlaced) (steps : List EditorStep) :
    (∀ done, done <+: steps → (e.nextAll key done).IsPlaced) ↔ SuitedBy key e steps := by
  induction steps generalizing e with
  | nil =>
      refine iff_of_true (fun done hdone => ?_) trivial
      rw [List.prefix_nil.1 hdone]
      exact h
  | cons step steps ih =>
      rw [SuitedBy, ← isPlaced_next_iff h step]
      constructor
      · intro hall
        have hnext := hall [step] (List.cons_prefix_cons.2 ⟨rfl, List.nil_prefix⟩)
        exact ⟨hnext, (ih hnext).1 fun done hdone =>
          hall (step :: done) (List.cons_prefix_cons.2 ⟨rfl, hdone⟩)⟩
      · rintro ⟨hnext, hlater⟩ done hdone
        cases done with
        | nil => exact h
        | cons first done =>
            obtain ⟨rfl, hrest⟩ := List.cons_prefix_cons.1 hdone
            exact (ih hnext).2 hlater done hrest

end Editor

namespace Project

variable {p : Project} {key : FileKey} {e : Editor}

/-- The project after a step of the editor of a file. What fails leaves it as it is. -/
def act (key : FileKey) (p : Project) : EditorStep → Project
  | .edit change =>
    match p.edit key change with
    | .ok (edited, _) => edited
    | .error _ => p
  | .reload disk =>
    match p.reload disk key with
    | .ok (reloaded, _) => reloaded
    | .error _ => p
  | .moveTo position =>
    match p.editors.get? key with
    | some e => p.moveCaret key (e.text.offsetOf position)
    | none => p

def actAll (key : FileKey) (p : Project) (steps : List EditorStep) : Project :=
  steps.foldl (act key) p

/-- Completions and help with signatures at the editor's own caret give a result, or notice that
they have been cancelled. -/
def Usable (key : FileKey) (p : Project) : Prop :=
  ∃ e, p.editors.get? key = some e ∧ ∀ cancelled,
    Returns cancelled (Sliced.completions p.index ⟨key, e.text, e.caret, cancelled⟩) ∧
    Returns cancelled (Sliced.signatureHelp p.index ⟨key, e.text, e.caret, cancelled⟩)

/-- The editor takes the step, and the index follows. -/
theorem act_spec (h : p.editors.get? key = some e) (step : EditorStep) :
    (p.act key step).editors.get? key = some (e.next key step) ∧
      (p.index.Built → (p.act key step).index.Built) := by
  have hset (editor : Editor) : (p.setEditor key editor).editors.get? key = some editor ∧
      (p.index.Built → (p.setEditor key editor).index.Built) :=
    ⟨Keyed.get?_insert_self .., fun hbuilt => hbuilt.update key editor.text true⟩
  cases step with
  | edit change =>
      unfold act edit Editor.next EditorStep.newText?
      cases hwritable : e.writable with
      | true =>
          simp only [h, hwritable, Bool.not_true, Bool.false_eq_true, if_true, if_false]
          exact hset _
      | false =>
          simp only [h, hwritable, Bool.not_false, if_true, Bool.false_eq_true, if_false]
          exact ⟨trivial, id⟩
  | reload disk =>
      unfold act reload Editor.next EditorStep.newText?
      cases hread : key.localPath?.map disk.readText with
      | none =>
          simp only [h, hread]
          exact ⟨trivial, id⟩
      | some read =>
          cases read with
          | error _ =>
              simp only [h, hread]
              exact ⟨trivial, id⟩
          | ok found =>
              simp only [h, hread]
              exact hset _
  | moveTo position =>
      simp only [act, h, moveCaret]
      exact ⟨Keyed.get?_insert_self .., id⟩

theorem actAll_spec (h : p.editors.get? key = some e) (steps : List EditorStep) :
    (p.actAll key steps).editors.get? key = some (e.nextAll key steps) ∧
      (p.index.Built → (p.actAll key steps).index.Built) := by
  induction steps generalizing p e with
  | nil => exact ⟨h, id⟩
  | cons step steps ih =>
      obtain ⟨heditor, hindex⟩ := act_spec h step
      exact (ih heditor).imp_right fun hall => hall ∘ hindex

/-- The queries give an answer exactly if the caret is between two characters. -/
theorem usable_iff (hbuilt : p.index.Built) (h : p.editors.get? key = some e)
    (hle : e.caret ≤ e.text.byteSize) : p.Usable key ↔ e.IsPlaced := by
  constructor
  · rintro ⟨e', he', hreturns⟩
    obtain rfl := Option.some.inj (h.symm.trans he')
    by_contra hplaced
    -- The query breaks off, which is neither a result nor the notice of a cancellation.
    have hbroken := Sliced.completions_eq_broken (c := ⟨key, e.text, e.caret, false⟩) p.index hle
      (Bool.eq_false_iff.2 hplaced)
    rcases (hreturns false).1 with ⟨found, hfound⟩ | ⟨hcancelled, -⟩
    · rw [hbroken] at hfound
      cases hfound
    · cases hcancelled
  · intro hplaced
    refine ⟨e, h, fun cancelled => ?_⟩
    have hsafe := Sliced.safe_of_isBoundary (s := p.toSources) hbuilt
      (c := ⟨key, e.text, e.caret, cancelled⟩) hplaced
    exact ⟨hsafe.completions.returns, hsafe.signatureHelp.returns⟩

/-- However an editor is edited, reloaded and its caret moved, with or without success, the caret is
never behind the end. Queries at the caret break off when it is inside a character, and they do not
break off when it has just been moved. They never do in the whole run exactly if every text that is
put in ends before the caret that it finds or has two characters meet there. -/
theorem usable_along_iff (hbuilt : p.index.Built) (h : p.editors.get? key = some e)
    (hplaced : e.IsPlaced) (steps : List EditorStep) :
    (∃ e', (p.actAll key steps).editors.get? key = some e' ∧ e'.caret ≤ e'.text.byteSize ∧
      ((p.actAll key steps).Usable key ∨
        ∀ cancelled,
          Sliced.completions (p.actAll key steps).index ⟨key, e'.text, e'.caret, cancelled⟩
            = .error Sliced.broken ∧
          Sliced.signatureHelp (p.actAll key steps).index ⟨key, e'.text, e'.caret, cancelled⟩
            = .error Sliced.broken)) ∧
    (∀ position, ((p.actAll key steps).act key (.moveTo position)).Usable key) ∧
    ((∀ done, done <+: steps → (p.actAll key done).Usable key) ↔ e.SuitedBy key steps) := by
  have husable (done : List EditorStep) :
      (p.actAll key done).Usable key ↔ (e.nextAll key done).IsPlaced := by
    obtain ⟨heditor, hindex⟩ := actAll_spec h done
    exact usable_iff (hindex hbuilt) heditor (Editor.caret_le_nextAll hplaced.caret_le done)
  refine ⟨?_, fun position => ?_, ?_⟩
  · have hle : (e.nextAll key steps).caret ≤ (e.nextAll key steps).text.byteSize :=
      Editor.caret_le_nextAll hplaced.caret_le steps
    refine ⟨_, (actAll_spec h steps).1, hle, ?_⟩
    rw [husable]
    refine or_iff_not_imp_left.2 fun hnot cancelled => ?_
    have hinside := Bool.eq_false_iff.2 hnot
    exact ⟨Sliced.completions_eq_broken _ hle hinside, Sliced.signatureHelp_eq_broken _ hle hinside⟩
  · have hrun : p.actAll key (steps ++ [.moveTo position])
        = (p.actAll key steps).act key (.moveTo position) := List.foldl_concat ..
    rw [← hrun, husable, Editor.nextAll, List.foldl_concat]
    exact Editor.isPlaced_moveCaret ..
  · rw [← Editor.isPlaced_along_iff hplaced steps]
    exact forall₂_congr fun done _ => husable done

/-- Typing behind the caret leaves it usable, and so does a text that ends before it. -/
theorem usable_along_iff_typing :
    let key : FileKey := .ofUri "file:///a.rs".toList
    let e : Editor := ⟨"fn f(é".toList, 0, true⟩
    let p : Project := ⟨⟨.ofUri "file:///".toList, "/".toList, Index.update [] key e.text true⟩,
      true, [(key, e)], [], 1⟩
    let steps : List EditorStep := [.moveTo ⟨0, 6⟩, .edit (· ++ ", 𝒳".toList), .edit fun _ => ['é']]
    p.index.Built ∧ p.editors.get? key = some e ∧ e.IsPlaced ∧ e.SuitedBy key steps ∧
      (p.actAll key steps).Usable key := by
  intro key e p steps
  have hbuilt : p.index.Built := .update key e.text true .empty
  have heditor : p.editors.get? key = some e := rfl
  have hplaced : e.IsPlaced := Editor.isPlaced_ofFile e.text true
  have hsuited : e.SuitedBy key steps := by
    refine ⟨nofun, ?_, ?_, trivial⟩
    · rintro text ⟨⟩
      exact Editor.suits_of_isPrefix (Editor.isPlaced_moveCaret e ⟨0, 6⟩) (by decide)
    · rintro text ⟨⟩
      exact .inl (by decide)
  obtain ⟨-, -, halong⟩ := usable_along_iff hbuilt heditor hplaced steps
  exact ⟨hbuilt, heditor, hplaced, hsuited, halong.2 hsuited steps (List.prefix_refl steps)⟩

/-- A caret behind the first letter is inside the character that the text becomes. -/
theorem caret_inside_character :
    let key : FileKey := .ofUri "file:///a.rs".toList
    let e : Editor := .ofFile "abc".toList true
    let p : Project := ⟨⟨.ofUri "file:///".toList, "/".toList, Index.update [] key e.text true⟩,
      true, [(key, e)], [], 1⟩
    let q := p.actAll key [.moveTo ⟨0, 1⟩, .edit fun _ => ['é']]
    q.editors.get? key = some ⟨['é'], 1, true⟩ ∧ Text.isBoundary ['é'] 1 = false ∧
      Sliced.completions q.index ⟨key, ['é'], 1, false⟩ = .error Sliced.broken ∧
      Sliced.signatureHelp q.index ⟨key, ['é'], 1, false⟩ = .error Sliced.broken ∧
      ¬ q.Usable key := by
  intro key e p q
  have heditor : q.editors.get? key = some ⟨['é'], 1, true⟩ := by decide
  have hinside : Text.isBoundary ['é'] 1 = false := by decide
  have hbuilt : q.index.Built := .update key _ true (.update key e.text true .empty)
  exact ⟨heditor, hinside,
    Sliced.completions_eq_broken (c := ⟨key, ['é'], 1, false⟩) q.index (by decide) hinside,
    Sliced.signatureHelp_eq_broken (c := ⟨key, ['é'], 1, false⟩) q.index (by decide) hinside,
    fun husable => Bool.eq_false_iff.1 hinside ((usable_iff hbuilt heditor (by decide)).1 husable)⟩

end Project

end LanguageServer
