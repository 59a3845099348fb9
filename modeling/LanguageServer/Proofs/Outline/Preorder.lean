import LanguageServer.Outline.Scan
import Mathlib.Data.List.Basic
import Mathlib.Data.List.TakeWhile

/-!
# The outline tree in preorder

The entries of a tree in preorder are the declarations in their order, if every declaration belongs
to the one before it or to one around that (`IsPreorder`). The declarations around the last one are
its path; the next one leaves some of them and is put in front of the rest. Along the list, the
entries below a declaration are those from where it is put on the path until it leaves it, which is
what the induction in `preorderAll_forests` is on.
-/

namespace LanguageServer

/-- The entry of a declaration with what is below it. -/
def Declaration.node (d : Declaration) (children : List SymbolNode) : SymbolNode :=
  .mk d.name d.detail d.kind d.range d.selection children

mutual

/-- An entry and what is below it, without their children. -/
def SymbolNode.preorder : SymbolNode → List SymbolNode
  | .mk name detail kind range selection children =>
    .mk name detail kind range selection [] :: SymbolNode.preorderAll children

/-- Some entries and what is below them, without their children. -/
def SymbolNode.preorderAll : List SymbolNode → List SymbolNode
  | [] => []
  | node :: rest => node.preorder ++ SymbolNode.preorderAll rest

end

namespace Outline

open SymbolNode (preorderAll)

/-! ### The path to the last declaration -/

/-- The path after declarations with the given parents, the first of which has index `n`. -/
def pathAfter (path : List Nat) (n : Nat) : List (Option Nat) → List Nat
  | [] => path
  | parent :: rest => pathAfter (n :: path.dropWhile (parent != some ·)) (n + 1) rest

/-- Every declaration belongs to one on the path to the declaration before it. -/
def IsPreorderFrom (path : List Nat) (n : Nat) : List (Option Nat) → Prop
  | [] => True
  | parent :: rest =>
    (∀ p, parent = some p → p ∈ path) ∧
      IsPreorderFrom (n :: path.dropWhile (parent != some ·)) (n + 1) rest

theorem pathAfter_concat (path : List Nat) (n : Nat) (parents : List (Option Nat))
    (parent : Option Nat) :
    pathAfter path n (parents ++ [parent])
      = (n + parents.length) :: (pathAfter path n parents).dropWhile (parent != some ·) := by
  induction parents generalizing path n with
  | nil => rfl
  | cons first rest ih =>
      rw [List.cons_append, pathAfter, ih, pathAfter, List.length_cons, Nat.add_assoc,
        Nat.add_comm 1]

theorem isPreorderFrom_concat (path : List Nat) (n : Nat) (parents : List (Option Nat))
    (parent : Option Nat) :
    IsPreorderFrom path n (parents ++ [parent]) ↔
      IsPreorderFrom path n parents ∧ ∀ p, parent = some p → p ∈ pathAfter path n parents := by
  induction parents generalizing path n with
  | nil => simp [IsPreorderFrom, pathAfter]
  | cons first rest ih =>
      rw [List.cons_append, IsPreorderFrom, ih, IsPreorderFrom, pathAfter, and_assoc]

/-- Paths go from later declarations to earlier ones. -/
structure IsPath (path : List Nat) (n : Nat) : Prop where
  descending : path.Pairwise (· > ·)
  lt : ∀ i ∈ path, i < n

theorem IsPath.cons {path : List Nat} {n : Nat} (h : IsPath path n) (p : Nat → Bool) :
    IsPath (n :: path.dropWhile p) (n + 1) := by
  have hkept := List.dropWhile_suffix (l := path) p
  constructor
  · refine List.pairwise_cons.2 ⟨fun i hi => h.lt i (hkept.subset hi), ?_⟩
    exact h.descending.sublist hkept.sublist
  · intro i hi
    rcases List.mem_cons.1 hi with rfl | hi
    · exact Nat.lt_succ_self i
    · exact Nat.lt_succ_of_lt (h.lt i (hkept.subset hi))

theorem isPath_pathAfter {path : List Nat} {n : Nat} (h : IsPath path n)
    (parents : List (Option Nat)) : IsPath (pathAfter path n parents) (n + parents.length) := by
  induction parents generalizing path n with
  | nil => exact h
  | cons parent rest ih =>
      have hrest := ih (h.cons (parent != some ·))
      rwa [Nat.add_assoc, Nat.add_comm 1] at hrest

/-- A parent on the path, or one that comes later than the path. -/
theorem parent_cases {path : List Nat} {n : Nat} {parents : List (Option Nat)}
    (h : IsPreorderFrom path n parents) {p : Nat} (hp : some p ∈ parents) : p ∈ path ∨ n ≤ p := by
  induction parents generalizing path n with
  | nil => cases hp
  | cons parent rest ih =>
      obtain ⟨hparent, hrest⟩ := h
      rcases List.mem_cons.1 hp with heq | hp
      · exact .inl (hparent p heq.symm)
      · rcases ih hrest hp with hmem | hle
        · rcases List.mem_cons.1 hmem with rfl | hmem
          · exact .inr (Nat.le_refl _)
          · exact .inl ((List.dropWhile_suffix _).subset hmem)
        · exact .inr (Nat.le_of_succ_le hle)

/-! ### The tree -/

/-- Declarations with their indexes, the first of which is `n`. -/
def indexedFrom (n : Nat) (ds : List Declaration) : List (Nat × Declaration) :=
  (ds.zipIdx n).map fun (d, i) => (i, d)

theorem indexedFrom_cons (n : Nat) (d : Declaration) (ds : List Declaration) :
    indexedFrom n (d :: ds) = (n, d) :: indexedFrom (n + 1) ds := rfl

theorem le_of_mem_indexedFrom {n : Nat} {ds : List Declaration} {entry : Nat × Declaration}
    (h : entry ∈ indexedFrom n ds) : n ≤ entry.1 := by
  obtain ⟨⟨d, i⟩, hmem, rfl⟩ := List.mem_map.1 h
  exact List.le_snd_of_mem_zipIdx hmem

theorem ascending_indexedFrom (n : Nat) (ds : List Declaration) :
    (indexedFrom n ds).Pairwise (·.1 < ·.1) := by
  induction ds generalizing n with
  | nil => exact List.Pairwise.nil
  | cons d ds ih =>
      rw [indexedFrom_cons]
      exact List.pairwise_cons.2 ⟨fun entry hentry => le_of_mem_indexedFrom hentry, ih (n + 1)⟩

theorem forest_eq_nil {parent : Option Nat} {entries : List (Nat × Declaration)}
    (h : ∀ entry ∈ entries, entry.2.parent ≠ parent) : forest parent entries = [] := by
  induction entries with
  | nil => rfl
  | cons entry rest ih =>
      obtain ⟨hne, hrest⟩ := List.forall_mem_cons.1 h
      rw [forest, if_neg hne, ih hrest]

theorem mem_of_mem_indexedFrom {n : Nat} {ds : List Declaration} {entry : Nat × Declaration}
    (h : entry ∈ indexedFrom n ds) : entry.2 ∈ ds := by
  obtain ⟨⟨d, i⟩, hmem, rfl⟩ := List.mem_map.1 h
  exact List.fst_mem_of_mem_zipIdx hmem

theorem forest_cons_of_ne {parent : Option Nat} {d : Declaration} (h : d.parent ≠ parent) (i : Nat)
    (rest : List (Nat × Declaration)) : forest parent ((i, d) :: rest) = forest parent rest := by
  rw [forest, if_neg h]

theorem preorderAll_forest_cons (i : Nat) (d : Declaration) (rest : List (Nat × Declaration)) :
    preorderAll (forest d.parent ((i, d) :: rest))
      = d.node [] ::
        (preorderAll (forest (some i) rest) ++ preorderAll (forest d.parent rest)) := by
  rw [forest, if_pos rfl]
  rfl

theorem dropWhile_none (path : List Nat) : path.dropWhile ((none : Option Nat) != some ·) = [] :=
  List.dropWhile_eq_nil_iff.2 fun _ _ => rfl

theorem dropWhile_some {left : List Nat} {p : Nat} (h : p ∉ left) (rest : List Nat) :
    (left ++ p :: rest).dropWhile (some p != some ·) = p :: rest := by
  rw [List.dropWhile_append_of_pos, List.dropWhile_cons_of_neg (by simp)]
  intro i hi
  simp only [bne_iff_ne, ne_eq, Option.some.injEq]
  rintro rfl
  exact h hi

/-- The entries below the declarations on the path and the entries of their own at the end are all
the rest of the declarations. -/
theorem preorderAll_forests {path : List Nat} {n : Nat} {ds : List Declaration}
    (hpath : IsPath path n) (h : IsPreorderFrom path n (ds.map (·.parent))) :
    path.flatMap (fun i => preorderAll (forest (some i) (indexedFrom n ds)))
      ++ preorderAll (forest none (indexedFrom n ds)) = ds.map (·.node []) := by
  induction ds generalizing path n with
  | nil =>
      rw [List.map_nil, List.append_eq_nil_iff]
      exact ⟨List.flatMap_eq_nil_iff.2 fun _ _ => rfl, rfl⟩
  | cons d ds ih =>
      obtain ⟨hparent, hrest⟩ := h
      dsimp only at hparent hrest
      have hnext := ih (hpath.cons _) hrest
      -- Nothing more is put below a declaration that the path has left.
      have hleft : ∀ i ∈ path, i ∉ path.dropWhile (d.parent != some ·) →
          forest (some i) (indexedFrom (n + 1) ds) = [] := by
        intro i hi hout
        refine forest_eq_nil fun entry hentry heq => ?_
        have hmem : some i ∈ ds.map (·.parent) :=
          List.mem_map.2 ⟨entry.2, mem_of_mem_indexedFrom hentry, heq⟩
        have hlt := hpath.lt i hi
        rcases parent_cases hrest hmem with hmem | hle
        · rcases List.mem_cons.1 hmem with rfl | hmem
          · exact Nat.lt_irrefl _ hlt
          · exact hout hmem
        · omega
      rw [indexedFrom_cons, List.map_cons, ← hnext, List.flatMap_cons, List.append_assoc]
      cases hp : d.parent with
      | none =>
          rw [hp, dropWhile_none] at hleft
          rw [dropWhile_none]
          have hpathEmpty : path.flatMap (fun i => preorderAll
              (forest (some i) ((n, d) :: indexedFrom (n + 1) ds))) = [] := by
            refine List.flatMap_eq_nil_iff.2 fun i hi => ?_
            rw [forest_cons_of_ne (by rw [hp]; nofun), hleft i hi List.not_mem_nil]
            rfl
          have hroot := preorderAll_forest_cons n d (indexedFrom (n + 1) ds)
          rw [hp] at hroot
          rw [hpathEmpty, hroot]
          rfl
      | some p =>
          obtain ⟨left, kept, rfl, hp'⟩ := List.eq_append_cons_of_mem (hparent p hp)
          rw [hp, dropWhile_some hp'] at hleft
          rw [dropWhile_some hp']
          obtain ⟨-, hkept, hbetween⟩ := List.pairwise_append.1 hpath.descending
          have hleftEmpty : left.flatMap (fun i => preorderAll
              (forest (some i) ((n, d) :: indexedFrom (n + 1) ds))) = [] := by
            refine List.flatMap_eq_nil_iff.2 fun i hi => ?_
            have hne : d.parent ≠ some i := by
              rw [hp]
              rintro ⟨⟩
              exact hp' hi
            have hout : i ∉ p :: kept := fun hmem => Nat.lt_irrefl i (hbetween i hi i hmem)
            rw [forest_cons_of_ne hne, hleft i (List.mem_append_left _ hi) hout]
            rfl
          have hkeptSame : kept.flatMap (fun i => preorderAll
              (forest (some i) ((n, d) :: indexedFrom (n + 1) ds)))
                = kept.flatMap fun i => preorderAll (forest (some i) (indexedFrom (n + 1) ds)) := by
            refine List.flatMap_congr fun i hi => ?_
            have hne : d.parent ≠ some i := by
              rw [hp]
              rintro ⟨⟩
              exact Nat.lt_irrefl p ((List.pairwise_cons.1 hkept).1 p hi)
            rw [forest_cons_of_ne hne]
          have hbelow := preorderAll_forest_cons n d (indexedFrom (n + 1) ds)
          rw [hp] at hbelow
          rw [List.flatMap_append, hleftEmpty, List.nil_append, List.flatMap_cons, hbelow,
            hkeptSame, forest_cons_of_ne (by rw [hp]; nofun), List.flatMap_cons]
          simp only [List.cons_append, List.append_assoc]

/-! ### The entries below a declaration -/

theorem forest_append {parent : Option Nat} {left : List (Nat × Declaration)}
    (h : ∀ entry ∈ left, entry.2.parent ≠ parent) (right : List (Nat × Declaration)) :
    forest parent (left ++ right) = forest parent right := by
  induction left with
  | nil => rfl
  | cons entry left ih =>
      obtain ⟨hne, hrest⟩ := List.forall_mem_cons.1 h
      rw [List.cons_append, forest_cons_of_ne hne, ih hrest]

/-- If every declaration comes behind its parent, looking for its entries behind it finds all of
them. -/
theorem forest_eq_map {left right : List (Nat × Declaration)}
    (hascending : (left ++ right).Pairwise (·.1 < ·.1))
    (hbehind : ∀ entry ∈ left ++ right, ∀ p, entry.2.parent = some p → p < entry.1)
    (parent : Option Nat) :
    forest parent right = (right.filter (·.2.parent = parent)).map fun (i, d) =>
      d.node (forest (some i) (left ++ right)) := by
  induction right generalizing left with
  | nil => rfl
  | cons entry right ih =>
      obtain ⟨n, d⟩ := entry
      have hsame : left ++ (n, d) :: right = (left ++ [(n, d)]) ++ right := by simp
      have hrest := ih (hsame ▸ hascending) (hsame ▸ hbehind)
      rw [← hsame] at hrest
      by_cases hparent : d.parent = parent
      · have hbefore : ∀ entry ∈ left ++ [(n, d)], entry.2.parent ≠ some n := by
          intro entry hentry heq
          have hlt := hbehind entry (hsame ▸ List.mem_append_left right hentry) n heq
          rcases List.mem_append.1 hentry with hentry | hentry
          · have hle := (List.pairwise_append.1 hascending).2.2 entry hentry _ List.mem_cons_self
            exact Nat.lt_asymm hlt hle
          · rw [List.mem_singleton.1 hentry] at hlt
            exact Nat.lt_irrefl n hlt
        rw [forest, if_pos hparent, List.filter_cons_of_pos (by simpa using hparent), List.map_cons,
          ← hrest]
        dsimp only
        rw [hsame, forest_append hbefore]
        rfl
      · rw [forest_cons_of_ne hparent, List.filter_cons_of_neg (by simpa using hparent), hrest]

/-! ### Outlines -/

/-- The entries below a declaration of the outline, or those at its root. -/
def childrenOf (o : Outline) (parent : Option Nat) : List SymbolNode :=
  forest parent (indexedFrom 0 o.declarations.toList)

theorem tree_eq_childrenOf (o : Outline) : o.tree = o.childrenOf none := rfl

/-- The entries below a declaration are those of all declarations that belong to it. -/
theorem childrenOf_eq_map {o : Outline}
    (h : ∀ (i : Nat) (d : Declaration), o.declarations[i]? = some d →
      ∀ p, d.parent = some p → p < i)
    (parent : Option Nat) :
    o.childrenOf parent =
      ((indexedFrom 0 o.declarations.toList).filter (·.2.parent = parent)).map fun (i, d) =>
        d.node (o.childrenOf (some i)) := by
  refine @forest_eq_map [] (indexedFrom 0 o.declarations.toList) ?_ ?_ parent
  · exact ascending_indexedFrom 0 _
  · intro entry hentry
    obtain ⟨⟨d, i⟩, hmem, rfl⟩ := List.mem_map.1 hentry
    refine h i d ?_
    rw [List.mem_zipIdx_iff_getElem?] at hmem
    simpa using hmem

/-- The parents of the declarations, in order. -/
def parents (o : Outline) : List (Option Nat) := o.declarations.toList.map (·.parent)

/-- The path to the last declaration. -/
def path (o : Outline) : List Nat := pathAfter [] 0 o.parents

theorem isPath_path (o : Outline) : IsPath o.path o.declarations.size := by
  have hpath : IsPath o.path (0 + o.parents.length) :=
    isPath_pathAfter ⟨List.Pairwise.nil, nofun⟩ o.parents
  rwa [Nat.zero_add, parents, List.length_map, Array.length_toList] at hpath

/-- An outline whose declarations come in preorder. -/
def IsPreorder (o : Outline) : Prop := IsPreorderFrom [] 0 o.parents

/-- The tree in preorder is the list of declarations. -/
theorem preorderAll_tree {o : Outline} (h : o.IsPreorder) :
    preorderAll o.tree = o.declarations.toList.map (·.node []) :=
  preorderAll_forests ⟨List.Pairwise.nil, nofun⟩ h

end Outline

end LanguageServer
