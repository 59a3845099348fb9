import LanguageServer.Query.Navigation

/-!
# What queries about a word return

Between the files a query looks whether it has been cancelled. If it has been, it ends without a
result; otherwise it returns what its loop gives without these checks (`usages_yields`,
`rename_yields`).
-/

namespace LanguageServer

/-- The query returns this unless it is cancelled, and it never returns anything else. -/
def Context.Yields {α : Type} (c : Context) (result : Except Fault α) (a : α) : Prop :=
  (c.cancelled = false → result = .ok a) ∧ ∀ b, result = .ok b → b = a

namespace Context

variable {c : Context} {α β : Type}

theorem yields_ok (a : α) : c.Yields (.ok a) a :=
  ⟨fun _ => rfl, fun _ h => (Except.ok.inj h).symm⟩

theorem Yields.map {result : Except Fault α} {a : α} (h : c.Yields result a) (f : α → β) :
    c.Yields (result >>= fun a => pure (f a)) (f a) := by
  refine ⟨fun hcheck => by rw [h.1 hcheck]; rfl, fun b hb => ?_⟩
  cases result with
  | error fault => cases hb
  | ok a' =>
      obtain rfl := h.2 a' rfl
      exact (Except.ok.inj hb).symm

theorem check_of_not_cancelled (h : c.cancelled = false) : c.check = .ok () := by
  rw [check, h]
  rfl

theorem check_of_cancelled (h : c.cancelled = true) : c.check = .error (.error .cancelled) := by
  rw [check, h]
  rfl

theorem yields_foldlM (f : β → α → β) (as : List α) (b : β) :
    c.Yields (as.foldlM (fun b a => do
      c.check
      return f b a) b) (as.foldl f b) := by
  constructor
  · intro hcheck
    rw [check_of_not_cancelled hcheck]
    exact List.foldlM_pure
  · intro result h
    cases hcancelled : c.cancelled with
    | false =>
        rw [check_of_not_cancelled hcancelled] at h
        exact (Except.ok.inj (List.foldlM_pure.symm.trans h)).symm
    | true =>
        rw [check_of_cancelled hcancelled] at h
        cases as with
        | nil => exact (Except.ok.inj h).symm
        | cons a as => cases h

theorem yields_mapM (f : α → β) (as : List α) :
    c.Yields (as.mapM fun a => do
      c.check
      return f a) (as.map f) := by
  constructor
  · intro hcheck
    rw [check_of_not_cancelled hcheck]
    exact List.mapM_pure
  · intro result h
    cases hcancelled : c.cancelled with
    | false =>
        rw [check_of_not_cancelled hcancelled] at h
        exact (Except.ok.inj (List.mapM_pure.symm.trans h)).symm
    | true =>
        rw [check_of_cancelled hcancelled] at h
        cases as with
        | nil => exact (Except.ok.inj h).symm
        | cons a as =>
            rw [List.mapM_cons] at h
            cases h

end Context

namespace Query

variable {ix : Index} {c : Context} {word : Text} {range : Range}

/-- Where a word occurs in a text, and whether it is written there. -/
def highlighted (t word : Text) : List Highlight :=
  let declared := ((Outline.scan t).named word).map (·.selection)
  (t.occurrences word).map fun i =>
    let range := t.rangeAt i (i + word.length)
    ⟨range, declared.contains range || isAssigned (t.drop (i + word.length))⟩

theorem highlights_yields (h : c.word? = some (word, range)) :
    c.Yields (highlights c) (highlighted c.text word) := by
  rw [highlights, h]
  exact Context.yields_ok _

/-- Where a word occurs in the files of an index. -/
def locations (ix : Index) (word : Text) : List Location :=
  ix.files.flatMap fun (key, file) =>
    (file.text.occurrences word).map fun i => ⟨key, file.text.rangeAt i (i + word.length)⟩

theorem usages_yields (h : c.word? = some (word, range)) :
    c.Yields (usages ix c) (locations ix word) := by
  rw [usages, h]
  exact (Context.yields_mapM _ ix.files).map List.flatten

/-- The edits that rename a word in the files of an index. -/
def renamed (ix : Index) (word newName : Text) : FileChanges :=
  ix.files.foldl (fun changes (key, file) =>
    (file.text.renameEdits word newName).foldl (·.add key ·) changes) {}

theorem rename_yields (h : c.word? = some (word, range))
    (hdeclared : ix.declarationsNamed word c.key ≠ []) (newName : Text) :
    c.Yields (rename ix c newName) (renamed ix word newName) := by
  rw [rename, h]
  dsimp only
  rw [if_neg (mt List.isEmpty_iff.1 hdeclared)]
  exact Context.yields_foldlM _ ix.files ({} : FileChanges)

end Query

end LanguageServer
