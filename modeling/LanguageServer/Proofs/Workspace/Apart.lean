import LanguageServer.Proofs.Workspace.Alike

/-!
# Work on different files

What an operation on one file comes to depends on the editor of that file and not on what else is
open (`Project.SameAt`), and it changes no other editor. The index is another matter, since a
directory is read again together with the files below it. But whatever an operation puts under a key
is what is expected there, the text of the editor or else the one on disk (`Project.expected?`), so
it is the same in whatever order two operations put it there.

All this is said about two runs of the same steps at once (`Project.Apart`), as the one operation
runs before and after the other.
-/

namespace LanguageServer

namespace FileTree

/-- The files below the directory that a key leads to, if it is one, have keys that lead back to
them. It is so unless there is a sign in their names that keys do not keep. -/
def ReadsBack (disk : FileTree) (key : FileKey) : Prop :=
  ∀ path ∈ key.localPath?, disk.isDirectory path = true → ∀ child ∈ disk.sources path,
    (FileKey.ofLocalPath child.1).localPath?.map disk.source? = some (disk.source? child.1)

instance (disk : FileTree) (key : FileKey) : Decidable (disk.ReadsBack key) :=
  inferInstanceAs (Decidable (∀ path ∈ key.localPath?, disk.isDirectory path = true →
    ∀ child ∈ disk.sources path, _ = _))

/-- Then whatever is read again for the key is read by its own key. -/
theorem ReadsBack.rereads {disk : FileTree} {key : FileKey} (h : disk.ReadsBack key) :
    ∀ file ∈ disk.rereads key, file.1.localPath?.map disk.source? = some (disk.source? file.2) := by
  intro file hfile
  rw [FileTree.rereads] at hfile
  cases hpath : key.localPath? with
  | none =>
      rw [hpath] at hfile
      cases hfile
  | some path =>
      cases hdirectory : disk.isDirectory path with
      | true =>
          simp only [hpath, hdirectory, if_true] at hfile
          obtain ⟨child, hchild, rfl⟩ := List.mem_map.1 hfile
          exact h path hpath hdirectory child hchild
      | false =>
          simp only [hpath, hdirectory, Bool.false_eq_true, if_false, List.mem_singleton] at hfile
          rw [hfile, hpath]
          rfl

end FileTree

namespace Project

variable {p p' q q' r r' : Project} {disk : FileTree} {key other : FileKey}

/-- What the index has for a file once it has been told about it. -/
def expected? (p : Project) (disk : FileTree) (key : FileKey) : Option IndexedFile :=
  match p.editors.get? key with
  | some editor => some (.ofText editor.text true)
  | none => (p.onceClosed? disk key).join

/-- Two projects that are the same as far as one file is concerned. -/
structure SameAt (key : FileKey) (p p' : Project) : Prop where
  root : p'.root = p.root
  isOpen : p'.isOpen = p.isOpen
  editor : p'.editors.get? key = p.editors.get? key

/-- What steps about one file leave alone. Under a key of another file, nothing changes unless what
is put there is what is expected there. -/
structure Confined (disk : FileTree) (key : FileKey) (p q : Project) : Prop where
  root : q.root = p.root
  isOpen : q.isOpen = p.isOpen
  editors : ∀ other ≠ key, q.editors.get? other = p.editors.get? other
  distant : ∀ other ≠ key, other.localPath? = none →
    Keyed.get? q.index other = Keyed.get? p.index other
  index : ∀ other, other.localPath? ≠ none →
    (q.editors.get? other = p.editors.get? other ∧
      Keyed.get? q.index other = Keyed.get? p.index other) ∨
    Keyed.get? q.index other = q.expected? disk other

theorem expected?_congr (hroot : q.root = p.root)
    (heditor : q.editors.get? key = p.editors.get? key) :
    q.expected? disk key = p.expected? disk key := by
  rw [expected?, expected?, onceClosed?, onceClosed?, heditor, hroot]

namespace Confined

theorem refl (p : Project) : Confined disk key p p :=
  ⟨rfl, rfl, fun _ _ => rfl, fun _ _ _ => rfl, fun _ _ => .inl ⟨rfl, rfl⟩⟩

theorem trans (h : Confined disk key p q) (h' : Confined disk key q r) : Confined disk key p r where
  root := h'.root.trans h.root
  isOpen := h'.isOpen.trans h.isOpen
  editors other hne := (h'.editors other hne).trans (h.editors other hne)
  distant other hne hnone := (h'.distant other hne hnone).trans (h.distant other hne hnone)
  index other hsome := by
    rcases h'.index other hsome with ⟨heditor', hindex'⟩ | hput
    · rcases h.index other hsome with ⟨heditor, hindex⟩ | hput
      · exact .inl ⟨heditor'.trans heditor, hindex'.trans hindex⟩
      · exact .inr (hindex'.trans (hput.trans (expected?_congr h'.root heditor').symm))
    · exact .inr hput

end Confined

/-- The same steps about one file in two projects. Where both have the same editor, the index has
the same afterwards, or it has in both what it had before. -/
structure Apart (disk : FileTree) (key : FileKey) (p p' q q' : Project) : Prop where
  same : SameAt key q q'
  left : Confined disk key p q
  right : Confined disk key p' q'
  index : ∀ other, p'.editors.get? other = p.editors.get? other →
    (Keyed.get? q.index other = Keyed.get? p.index other ∧
      Keyed.get? q'.index other = Keyed.get? p'.index other) ∨
    Keyed.get? q'.index other = Keyed.get? q.index other

namespace Apart

theorem refl (h : SameAt key p p') : Apart disk key p p' p p' :=
  ⟨h, .refl p, .refl p', fun _ _ => .inl ⟨rfl, rfl⟩⟩

/-- Editors that were the same stay the same. -/
theorem editors (h : Apart disk key p p' q q')
    (hsame : p'.editors.get? other = p.editors.get? other) :
    q'.editors.get? other = q.editors.get? other := by
  by_cases hother : other = key
  · subst hother
    exact h.same.editor
  · exact (h.right.editors other hother).trans (hsame.trans (h.left.editors other hother).symm)

theorem trans (h : Apart disk key p p' q q') (h' : Apart disk key q q' r r') :
    Apart disk key p p' r r' where
  same := h'.same
  left := h.left.trans h'.left
  right := h.right.trans h'.right
  index other hsame := by
    rcases h'.index other (h.editors hsame) with ⟨hkept, hkept'⟩ | hequal
    · rcases h.index other hsame with ⟨hbefore, hbefore'⟩ | hequal
      · exact .inl ⟨hkept.trans hbefore, hkept'.trans hbefore'⟩
      · exact .inr (hkept'.trans (hequal.trans hkept.symm))
    · exact .inr hequal

end Apart

/-! ### The steps of a project -/

theorem get?_index_rescan (p : Project) (disk : FileTree) (file : FileKey) (path : Text)
    (other : FileKey) :
    Keyed.get? (p.rescan disk file path).1.index other =
      if file = other ∧ p.editors.get? file = none then
        (disk.source? path).map (.ofText · (file.isUnder p.root))
      else Keyed.get? p.index other := by
  by_cases hfile : file = other
  · subst hfile
    cases hopen : p.editors.get? file with
    | some editor => simp [rescan, hopen]
    | none => rw [get?_rescan hopen, if_pos rfl, if_pos ⟨rfl, rfl⟩]
  · rw [get?_rescan_of_ne hfile, if_neg fun h => hfile h.1]

/-- One file is read again. What is put under its key is expected there. -/
theorem confined_rescan (p : Project) (key : FileKey) {file : FileKey} {path : Text}
    (hback : file.localPath?.map disk.source? = some (disk.source? path)) :
    Confined disk key p (p.rescan disk file path).1 := by
  have hsame := p.rescan_eq disk file path
  have hget := p.get?_index_rescan disk file path
  generalize (p.rescan disk file path).1 = q at hsame hget ⊢
  have hroot : q.root = p.root := by rw [hsame]
  have heditors : q.editors = p.editors := by rw [hsame]
  refine ⟨hroot, by rw [hsame], fun other _ => by rw [heditors], fun other _ hnone => ?_,
    fun other _ => ?_⟩
  · rw [hget, if_neg]
    rintro ⟨rfl, -⟩
    rw [hnone] at hback
    cases hback
  · by_cases hput : file = other ∧ p.editors.get? file = none
    · obtain ⟨rfl, hclosed⟩ := hput
      obtain ⟨path', hpath', hsource⟩ := Option.map_eq_some_iff.1 hback
      refine .inr ?_
      rw [hget, if_pos ⟨rfl, hclosed⟩, expected?, heditors, hclosed, onceClosed?, hpath', hroot]
      exact congrArg (Option.map _) hsource.symm
    · refine .inl ⟨by rw [heditors], ?_⟩
      rw [hget, if_neg hput]

theorem apart_rescan (h : SameAt key p p') {file : FileKey} {path : Text}
    (hback : file.localPath?.map disk.source? = some (disk.source? path)) :
    Apart disk key p p' (p.rescan disk file path).1 (p'.rescan disk file path).1 := by
  have hleft := p.confined_rescan key hback
  have hright := p'.confined_rescan key hback
  refine ⟨⟨?_, ?_, ?_⟩, hleft, hright, fun other hsame => ?_⟩
  · rw [hright.root, hleft.root, h.root]
  · rw [hright.isOpen, hleft.isOpen, h.isOpen]
  · rw [rescan_eq, rescan_eq p]
    exact h.editor
  · rw [get?_index_rescan, get?_index_rescan, h.root]
    by_cases hfile : file = other
    · subst hfile
      rw [hsame]
      by_cases hclosed : p.editors.get? file = none
      · exact .inr (by rw [if_pos ⟨rfl, hclosed⟩, if_pos ⟨rfl, hclosed⟩])
      · have hopen : ¬ (file = file ∧ p.editors.get? file = none) := fun h => hclosed h.2
        exact .inl ⟨if_neg hopen, if_neg hopen⟩
    · exact .inl ⟨if_neg fun h => hfile h.1, if_neg fun h => hfile h.1⟩

theorem apart_rescanAll (h : SameAt key p p') {files : Keyed Text}
    (hback : ∀ file ∈ files, file.1.localPath?.map disk.source? = some (disk.source? file.2)) :
    Apart disk key p p' (p.rescanAll disk files) (p'.rescanAll disk files) := by
  induction files generalizing p p' with
  | nil => exact .refl h
  | cons file rest ih =>
      have hfirst := apart_rescan h (hback file List.mem_cons_self)
      exact hfirst.trans (ih hfirst.same fun f hf => hback f (List.mem_cons_of_mem file hf))

theorem apart_refresh (h : SameAt key p p') (hback : disk.ReadsBack key) :
    Apart disk key p p' (p.refresh disk key).1 (p'.refresh disk key).1 := by
  rw [refresh_eq_rescanAll, refresh_eq_rescanAll]
  exact apart_rescanAll h hback.rereads

theorem confined_setEditor (p : Project) (key : FileKey) (editor : Editor) :
    Confined disk key p (p.setEditor key editor) := by
  have hget (other : FileKey) : (p.setEditor key editor).editors.get? other
      = if key = other then some editor else p.editors.get? other := Keyed.get?_insert ..
  have hindex (other : FileKey) : Keyed.get? (p.setEditor key editor).index other
      = if key = other then some (.ofText editor.text true) else Keyed.get? p.index other :=
    Index.get?_update ..
  refine ⟨rfl, rfl, fun other hne => ?_, fun other hne _ => ?_, fun other _ => ?_⟩
  · rw [hget, if_neg hne.symm]
  · rw [hindex, if_neg hne.symm]
  · by_cases hother : key = other
    · exact .inr (by rw [hindex, if_pos hother, expected?, hget, if_pos hother])
    · exact .inl ⟨by rw [hget, if_neg hother], by rw [hindex, if_neg hother]⟩

theorem apart_setEditor (h : SameAt key p p') (editor : Editor) :
    Apart disk key p p' (p.setEditor key editor) (p'.setEditor key editor) := by
  refine ⟨⟨h.root, h.isOpen, ?_⟩, p.confined_setEditor key editor,
    p'.confined_setEditor key editor, fun other _ => ?_⟩
  · exact (Keyed.get?_insert_self ..).trans (Keyed.get?_insert_self ..).symm
  · simp only [setEditor, Index.get?_update]
    by_cases hother : key = other
    · exact .inr (by rw [if_pos hother, if_pos hother])
    · exact .inl (by rw [if_neg hother, if_neg hother]; exact ⟨rfl, rfl⟩)

/-- Opening an editor comes to the same in both. -/
theorem apart_openEditor (h : SameAt key p p') :
    (p'.openEditor disk key).2 = (p.openEditor disk key).2 ∧
      Apart disk key p p' (p.openEditor disk key).1 (p'.openEditor disk key).1 := by
  rw [openEditor, openEditor, h.isOpen, h.editor]
  split
  · exact ⟨rfl, .refl h⟩
  · split
    · exact ⟨rfl, .refl h⟩
    · split
      · exact ⟨rfl, apart_setEditor h _⟩
      · exact ⟨rfl, .refl h⟩

theorem apart_edit (h : SameAt key p p') (change : Text → Text) :
    (∃ e, p.edit key change = .error e ∧ p'.edit key change = .error e) ∨
      ∃ q q' events, p.edit key change = .ok (q, events) ∧ p'.edit key change = .ok (q', events) ∧
        Apart disk key p p' q q' := by
  rw [edit, edit, h.editor]
  split
  · exact .inl ⟨_, rfl, rfl⟩
  · split
    · exact .inl ⟨_, rfl, rfl⟩
    · exact .inr ⟨_, _, _, rfl, rfl, apart_setEditor h _⟩

theorem apart_reload (h : SameAt key p p') :
    (∃ e, p.reload disk key = .error e ∧ p'.reload disk key = .error e) ∨
      ∃ q q' events, p.reload disk key = .ok (q, events) ∧
        p'.reload disk key = .ok (q', events) ∧ Apart disk key p p' q q' := by
  rw [reload, reload, h.editor]
  split
  · exact .inr ⟨_, _, _, rfl, rfl, apart_setEditor h _⟩
  · exact .inl ⟨_, rfl, rfl⟩
  · exact .inl ⟨_, rfl, rfl⟩

theorem confined_closeEditor (p : Project) (disk : FileTree) (key : FileKey) :
    Confined disk key p (p.closeEditor disk key) := by
  obtain ⟨index, hclose⟩ := p.closeEditor_eq disk key
  have hget := p.get?_index_closeEditor disk key
  rw [hclose] at hget ⊢
  refine ⟨rfl, rfl, fun other hne => ?_, fun other hne _ => ?_, fun other hsome => ?_⟩
  · exact (Keyed.get?_erase ..).trans (if_neg hne.symm)
  · rw [hget, if_neg fun h => hne h.1.symm]
  · by_cases hother : key = other
    · subst hother
      have hgone : Keyed.get? (p.editors.erase key) key = none := by
        rw [Keyed.get?_erase, if_pos rfl]
      cases hopen : p.editors.get? key with
      | none => exact .inl ⟨hgone, by rw [hget, hopen]; exact if_neg fun h => nomatch h.2⟩
      | some editor =>
          obtain ⟨path, hpath⟩ := Option.ne_none_iff_exists'.1 hsome
          refine .inr ?_
          rw [hget, hopen, if_pos ⟨rfl, rfl⟩, expected?, hgone, onceClosed?, onceClosed?, hpath]
          rfl
    · refine .inl ⟨(Keyed.get?_erase ..).trans (if_neg hother), ?_⟩
      rw [hget, if_neg fun h => hother h.1]

theorem apart_closeEditor (h : SameAt key p p') :
    Apart disk key p p' (p.closeEditor disk key) (p'.closeEditor disk key) := by
  have hleft := p.confined_closeEditor disk key
  have hright := p'.confined_closeEditor disk key
  refine ⟨⟨?_, ?_, ?_⟩, hleft, hright, fun other hsame => ?_⟩
  · rw [hright.root, hleft.root, h.root]
  · rw [hright.isOpen, hleft.isOpen, h.isOpen]
  · obtain ⟨_, hclose⟩ := p.closeEditor_eq disk key
    obtain ⟨_, hclose'⟩ := p'.closeEditor_eq disk key
    rw [hclose, hclose', Keyed.get?_erase, Keyed.get?_erase, if_pos rfl, if_pos rfl]
  · have honce : p'.onceClosed? disk other = p.onceClosed? disk other := by
      rw [onceClosed?, onceClosed?, h.root]
    rw [get?_index_closeEditor, get?_index_closeEditor, honce, hsame]
    by_cases hput : key = other ∧ (p.editors.get? other).isSome
    · rw [if_pos hput, if_pos hput]
      cases p.onceClosed? disk other with
      | none => exact .inl ⟨rfl, rfl⟩
      | some read => exact .inr rfl
    · exact .inl ⟨if_neg hput, if_neg hput⟩

/-! ### Two files -/

section TwoFiles

variable {a b : FileKey} {p₁ p₂ p₁₂ p₂₁ : Project}

/-- Two steps about different files leave the same editors in either order. -/
theorem editors_commute (hA : Apart disk a p p₂ p₁ p₂₁) (hB : Apart disk b p p₁ p₂ p₁₂)
    (hne : a ≠ b) (other : FileKey) :
    p₁₂.editors.get? other = p₂₁.editors.get? other := by
  by_cases hother : other = a
  · subst hother
    exact (hB.right.editors other hne).trans hA.same.editor.symm
  · refine (hB.editors (hA.left.editors other hother)).trans ?_
    exact (hA.right.editors other hother).symm

/-- What the index has under a key that the first step is not about. -/
theorem index_commutes_of_ne (hA : Apart disk a p p₂ p₁ p₂₁) (hB : Apart disk b p p₁ p₂ p₁₂)
    (hne : a ≠ b) {other : FileKey} (hother : other ≠ a) :
    Keyed.get? p₁₂.index other = Keyed.get? p₂₁.index other := by
  have hstays := hA.left.editors other hother
  have hboth (h : Keyed.get? p₁₂.index other = p₁₂.expected? disk other)
      (h' : Keyed.get? p₂₁.index other = p₂₁.expected? disk other) :
      Keyed.get? p₁₂.index other = Keyed.get? p₂₁.index other := by
    have hroot : p₁₂.root = p₂₁.root := hB.right.root.trans
      (hA.left.root.trans (hB.left.root.symm.trans hA.right.root.symm))
    exact h.trans ((expected?_congr hroot (editors_commute hA hB hne other)).trans h'.symm)
  by_cases hpath : other.localPath? = none
  · -- The first step leaves such a key alone, whenever it is taken.
    have hfirst := hA.left.distant other hother hpath
    have hlast := hA.right.distant other hother hpath
    rcases hB.index other hstays with ⟨hkept, hkept'⟩ | hequal
    · exact hkept'.trans (hfirst.trans (hkept.symm.trans hlast.symm))
    · exact hequal.trans hlast.symm
  by_cases hopen : p₂.editors.get? other = p.editors.get? other
  · rcases hB.index other hstays with ⟨hkept, hkept'⟩ | hequal <;>
      rcases hA.index other hopen with ⟨hbefore, hbefore'⟩ | hsame
    · exact hkept'.trans (hbefore.trans (hkept.symm.trans hbefore'.symm))
    · exact hkept'.trans hsame.symm
    · exact hequal.trans hbefore'.symm
    · rcases hB.right.index other hpath with ⟨-, hkept⟩ | hput
      · exact hkept.trans hsame.symm
      · rcases hA.right.index other hpath with ⟨-, hkept'⟩ | hput'
        · exact hequal.trans hkept'.symm
        · exact hboth hput hput'
  · -- The second step has changed the editor, so it has put its text into the index as well.
    have heditor := hB.editors hstays
    have hput := (hB.left.index other hpath).resolve_left fun h => hopen h.1
    have hput' := (hB.right.index other hpath).resolve_left fun h =>
      hopen (heditor.symm.trans (h.1.trans hstays))
    refine hboth hput' ?_
    rcases hA.right.index other hpath with ⟨hkept, hkept'⟩ | hput₂₁
    · exact hkept'.trans (hput.trans (expected?_congr hA.right.root hkept).symm)
    · exact hput₂₁

/-- Two steps about different files leave the same index in either order. -/
theorem index_commutes (hA : Apart disk a p p₂ p₁ p₂₁) (hB : Apart disk b p p₁ p₂ p₁₂)
    (hne : a ≠ b) (other : FileKey) :
    Keyed.get? p₁₂.index other = Keyed.get? p₂₁.index other := by
  by_cases hother : other = a
  · exact (index_commutes_of_ne hB hA hne.symm (hother ▸ hne)).symm
  · exact index_commutes_of_ne hA hB hne hother

end TwoFiles

end Project

namespace Workspace

variable {α : Type} {w w' v v' u u' : Workspace} {id : Nat} {key : FileKey}

/-- Two workspaces that are the same as far as one file of a project is concerned. -/
structure SameAt (id : Nat) (key : FileKey) (w w' : Workspace) : Prop where
  disk : w'.disk = w.disk
  capabilities : w'.capabilities = w.capabilities
  project : (w.project? id = none ∧ w'.project? id = none) ∨
    ∃ p p', w.project? id = some p ∧ w'.project? id = some p' ∧ p.SameAt key p'

theorem SameAt.refl (w : Workspace) : SameAt id key w w := by
  refine ⟨rfl, rfl, ?_⟩
  cases hp : w.project? id with
  | none => exact .inl ⟨rfl, rfl⟩
  | some p => exact .inr ⟨p, p, rfl, rfl, rfl, rfl, rfl⟩

theorem SameAt.editor?_eq (h : SameAt id key w w') : w'.editor? id key = w.editor? id key := by
  rw [editor?, editor?]
  rcases h.project with ⟨hp, hp'⟩ | ⟨p, p', hp, hp', hsame⟩
  · rw [hp, hp']
  · rw [hp, hp']
    exact hsame.editor

/-- The same steps about one file of a project in two workspaces. -/
structure Apart (id : Nat) (key : FileKey) (w w' v v' : Workspace) : Prop where
  same : SameAt id key v v'
  disk : v.disk = w.disk
  capabilities : v.capabilities = w.capabilities
  project : (w.project? id = none ∧ w'.project? id = none ∧ v.project? id = none) ∨
    ∃ p p' q q', w.project? id = some p ∧ w'.project? id = some p' ∧
      v.project? id = some q ∧ v'.project? id = some q' ∧ Project.Apart w.disk key p p' q q'

/-- The same outcome of steps about one file in two workspaces. -/
structure Coincide (id : Nat) (key : FileKey) (w w' : Workspace)
    (outcome outcome' : α × Workspace) : Prop where
  result : outcome'.1 = outcome.1
  apart : Apart id key w w' outcome.2 outcome'.2

/-- Steps about one file come to the same wherever nothing differs for that file. -/
def InStep (id : Nat) (key : FileKey) (steps : WorkspaceM α) : Prop :=
  ∀ ⦃w w'⦄, SameAt id key w w' → Coincide id key w w' (steps.run w) (steps.run w')

namespace Apart

theorem refl (h : SameAt id key w w') : Apart id key w w' w w' := by
  refine ⟨h, rfl, rfl, h.project.imp ?_ ?_⟩
  · rintro ⟨hp, hp'⟩
    exact ⟨hp, hp', hp⟩
  · rintro ⟨p, p', hp, hp', hsame⟩
    exact ⟨p, p', p, p', hp, hp', hp, hp', .refl hsame⟩

theorem trans (h : Apart id key w w' v v') (h' : Apart id key v v' u u') :
    Apart id key w w' u u' := by
  refine ⟨h'.same, h'.disk.trans h.disk, h'.capabilities.trans h.capabilities, ?_⟩
  rcases h.project with ⟨hp, hp', hq⟩ | ⟨p, p', q, q', hp, hp', hq, hq', hfirst⟩
  · rcases h'.project with ⟨-, -, hr⟩ | ⟨q₁, _, _, _, hq₁, -⟩
    · exact .inl ⟨hp, hp', hr⟩
    · rw [hq] at hq₁
      cases hq₁
  · rcases h'.project with ⟨hnone, -⟩ | ⟨q₁, q₁', r, r', hq₁, hq₁', hr, hr', hsecond⟩
    · rw [hq] at hnone
      cases hnone
    · cases hq.symm.trans hq₁
      cases hq'.symm.trans hq₁'
      exact .inr ⟨p, p', r, r', hp, hp', hr, hr', hfirst.trans (h.disk ▸ hsecond)⟩

/-- Whatever is told or noted. -/
theorem noted (h : Apart id key w w' v v') (calls calls' : List Call)
    (events events' : List (Listener × ProjectEvent)) :
    Apart id key w w' { v with calls, events } { v' with calls := calls', events := events' } :=
  ⟨⟨h.same.disk, h.same.capabilities, h.same.project⟩, h.disk, h.capabilities, h.project⟩

theorem setProject (h : SameAt id key w w') {p p' q q' : Project} (hp : w.project? id = some p)
    (hp' : w'.project? id = some p') (hq : Project.Apart w.disk key p p' q q') :
    Apart id key w w' (w.setProject id q) (w'.setProject id q') :=
  have hset := project?_setProject hp q
  have hset' := project?_setProject hp' q'
  ⟨⟨h.disk, h.capabilities, .inr ⟨q, q', hset, hset', hq.same⟩⟩, rfl, rfl,
    .inr ⟨p, p', q, q', hp, hp', hset, hset', hq⟩⟩

/-- Nothing differs afterwards for any other file. -/
theorem sameAt_other (h : Apart id key w w' v v') {other : FileKey} (hne : other ≠ key) :
    SameAt id other w v := by
  refine ⟨h.disk, h.capabilities, ?_⟩
  rcases h.project with ⟨hp, -, hq⟩ | ⟨p, _, q, _, hp, -, hq, -, hproject⟩
  · exact .inl ⟨hp, hq⟩
  · have hleft := hproject.left
    exact .inr ⟨p, q, hp, hq, hleft.root, hleft.isOpen, hleft.editors other hne⟩

end Apart

theorem inStep_pure (a : α) : InStep id key (pure a) := fun _ _ h => ⟨rfl, .refl h⟩

theorem SameAt.refresh (h : SameAt id key w w') (hback : w.disk.ReadsBack key) :
    Apart id key w w' ((refresh id key).run w).2 ((refresh id key).run w').2 := by
  rw [refresh_run, refresh_run]
  rcases h.project with ⟨hp, hp'⟩ | ⟨p, p', hp, hp', hsame⟩
  · rw [hp, hp']
    exact (Apart.refl h).noted _ _ _ _
  · rw [hp, hp', h.disk]
    exact (Apart.setProject h hp hp' (Project.apart_refresh hsame hback)).noted _ _ _ _

theorem inStep_openEditor (id : Nat) (key : FileKey) : InStep id key (openEditor id key) := by
  intro w w' h
  rw [openEditor_run, openEditor_run, h.capabilities]
  rcases h.project with ⟨hp, hp'⟩ | ⟨p, p', hp, hp', hsame⟩
  · rw [hp, hp']
    rcases w.capabilities.opensEditor key with _ | _ | _
    · exact ⟨rfl, .refl h⟩
    · exact ⟨rfl, .refl h⟩
    · exact ⟨rfl, .refl h⟩
  · rw [hp, hp', h.disk]
    obtain ⟨hresult, hapart⟩ := @Project.apart_openEditor p p' w.disk key hsame
    rcases w.capabilities.opensEditor key with _ | _ | _
    · exact ⟨rfl, .refl h⟩
    · exact ⟨rfl, .refl h⟩
    · refine ⟨congrArg (fun answer => Except.ok answer.1) hresult, ?_⟩
      exact (Apart.setProject h hp hp' hapart).noted _ _ _ _

theorem inStep_closeEditor (id : Nat) (key : FileKey) : InStep id key (closeEditor id key) := by
  refine fun w w' h => ⟨rfl, ?_⟩
  rw [closeEditor_run, closeEditor_run]
  rcases h.project with ⟨hp, hp'⟩ | ⟨p, p', hp, hp', hsame⟩
  · rw [hp, hp']
    exact (Apart.refl h).noted _ _ _ _
  · rw [hp, hp', h.disk]
    exact (Apart.setProject h hp hp' (Project.apart_closeEditor hsame)).noted _ _ _ _

theorem SameAt.settle (h : SameAt id key w w') {p p' : Project} (hp : w.project? id = some p)
    (hp' : w'.project? id = some p')
    {outcome outcome' : Except WorkspaceError (Project × List ProjectEvent)}
    (houtcome : (∃ e, outcome = .error e ∧ outcome' = .error e) ∨
      ∃ q q' events, outcome = .ok (q, events) ∧ outcome' = .ok (q', events) ∧
        Project.Apart w.disk key p p' q q') :
    Coincide id key w w' ((settle id outcome).run w) ((settle id outcome').run w') := by
  rw [settle_run, settle_run]
  rcases houtcome with ⟨e, rfl, rfl⟩ | ⟨q, q', events, rfl, rfl, hapart⟩
  · exact ⟨rfl, .refl h⟩
  · exact ⟨rfl, (Apart.setProject h hp hp' hapart).noted _ _ _ _⟩

theorem inStep_edit (id : Nat) (key : FileKey) (change : Text → Text) :
    InStep id key (edit id key change) := by
  intro w w' h
  rw [edit_run, edit_run]
  rcases h.project with ⟨hp, hp'⟩ | ⟨p, p', hp, hp', hsame⟩
  · rw [hp, hp']
    exact ⟨rfl, .refl h⟩
  · rw [hp, hp']
    exact h.settle hp hp' (Project.apart_edit hsame change)

theorem inStep_reload (id : Nat) (key : FileKey) : InStep id key (reload id key) := by
  intro w w' h
  rw [reload_run, reload_run]
  rcases h.project with ⟨hp, hp'⟩ | ⟨p, p', hp, hp', hsame⟩
  · rw [hp, hp']
    exact ⟨rfl, .refl h⟩
  · rw [hp, hp', h.disk]
    exact h.settle hp hp' (Project.apart_reload hsame)

/-! ### Two files -/

/-- What the index of a project has for a file. -/
def indexed? (w : Workspace) (id : Nat) (key : FileKey) : Option IndexedFile :=
  (w.project? id).bind fun p => Keyed.get? p.index key

theorem Apart.project?_eq_none (h : Apart id key w w' v v') (hp : w.project? id = none) :
    v'.project? id = none := by
  rcases h.project with ⟨-, -, hq⟩ | ⟨p, _, _, _, hp', -⟩
  · rcases h.same.project with ⟨-, hq'⟩ | ⟨q, _, hq', -⟩
    · exact hq'
    · rw [hq] at hq'
      cases hq'
  · rw [hp] at hp'
    cases hp'

/-- Steps about two different files leave the same editors and the same index in either order. -/
theorem files_commute {a b : FileKey} {w₁ w₂ w₁₂ w₂₁ : Workspace}
    (hA : Apart id a w w₂ w₁ w₂₁) (hB : Apart id b w w₁ w₂ w₁₂) (hne : a ≠ b) (other : FileKey) :
    w₁₂.editor? id other = w₂₁.editor? id other ∧
      w₁₂.indexed? id other = w₂₁.indexed? id other := by
  cases hp : w.project? id with
  | none =>
      simp only [editor?, indexed?, hA.project?_eq_none hp, hB.project?_eq_none hp, and_self]
  | some p =>
      rcases hA.project with ⟨hnone, -⟩ | ⟨_, p₂, p₁, p₂₁, hw, hp₂, hp₁, hp₂₁, hprojectA⟩
      · rw [hp] at hnone
        cases hnone
      rcases hB.project with ⟨hnone, -⟩ | ⟨_, _, _, p₁₂, hw', hp₁', hp₂', hp₁₂, hprojectB⟩
      · rw [hp] at hnone
        cases hnone
      cases hw.symm.trans hw'
      cases hp₁.symm.trans hp₁'
      cases hp₂.symm.trans hp₂'
      simp only [editor?, indexed?, hp₁₂, hp₂₁, Option.bind_some]
      exact ⟨Project.editors_commute hprojectA hprojectB hne other,
        Project.index_commutes hprojectA hprojectB hne other⟩

end Workspace

end LanguageServer
