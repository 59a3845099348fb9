import LanguageServer.Proofs.Outline.Origins
import LanguageServer.Proofs.Query.Occurrences
import LanguageServer.Proofs.Query.Results
import LanguageServer.Proofs.Sliced.Capabilities
import LanguageServer.Proofs.Text.Patches

/-!
# What is offered at a caret

Declarations and words are collected in one list in which the first of each name counts
(`eraseDupsBy_key`), so a word with the name of a declaration is left out. Sorting puts the
declarations first, as none of them is of the kind of a mere word. What is offered is therefore the
beginning of two lists that are strictly sorted by label (`completions_best`).
-/

namespace LanguageServer

/-! ### The first of each name -/

section FirstOfEach

variable {α : Type} (key : α → Text)

theorem eraseDupsBy_cons_key (a : α) (l : List α) :
    (a :: l).eraseDupsBy (fun a b => key a == key b)
      = a :: (l.filter fun b => key b ≠ key a).eraseDupsBy fun a b => key a == key b := by
  rw [List.eraseDupsBy_cons]
  congr 2
  exact List.filter_congr fun b _ => by simp

/-- What stays is the first element of each key, and these keys are different. -/
theorem eraseDupsBy_key (l : List α) :
    (∀ b, b ∈ l.eraseDupsBy (fun a b => key a == key b) ↔ l.find? (key · = key b) = some b) ∧
      (l.eraseDupsBy fun a b => key a == key b).Pairwise fun a b => key a ≠ key b := by
  induction hlength : l.length using Nat.strong_induction_on generalizing l with
  | _ n ih =>
      cases l with
      | nil => simp
      | cons a l =>
          have hshorter : (l.filter fun b => key b ≠ key a).length < n :=
            Nat.lt_of_le_of_lt (List.length_filter_le _ l) (hlength ▸ Nat.lt_succ_self _)
          obtain ⟨hmem, hkeys⟩ := ih _ hshorter _ rfl
          have hother : ∀ b ∈ (l.filter fun b => key b ≠ key a).eraseDupsBy
              fun a b => key a == key b, key b ≠ key a := fun b hb => by
            have hfilter := List.mem_of_find?_eq_some ((hmem b).1 hb)
            simpa using (List.mem_filter.1 hfilter).2
          rw [eraseDupsBy_cons_key]
          refine ⟨fun b => ?_, List.pairwise_cons.2 ⟨fun b hb => (hother b hb).symm, hkeys⟩⟩
          rw [List.mem_cons, List.find?_cons]
          by_cases hkey : key a = key b
          · rw [decide_eq_true hkey, Option.some.injEq]
            constructor
            · exact fun h => h.elim Eq.symm fun hb => absurd hkey.symm (hother b hb)
            · exact fun h => .inl h.symm
          · have hsame : (l.filter fun b => key b ≠ key a).find? (key · = key b)
                = l.find? (key · = key b) := by
              rw [List.find?_filter]
              refine congrArg (List.find? · l) (funext fun d => ?_)
              by_cases hd : key d = key b
              · simp [hd, Ne.symm hkey]
              · simp [hd]
            rw [hmem, hsame, decide_eq_false hkey]
            exact ⟨fun h => h.resolve_left fun hb => hkey (congrArg key hb.symm), .inr⟩

/-- If one element only has a property, then it is the first. -/
theorem find?_eq_some_of_forall {p : α → Bool} {l : List α} {a : α} (ha : a ∈ l) (hp : p a = true)
    (honly : ∀ b ∈ l, p b = true → b = a) : l.find? p = some a := by
  obtain ⟨b, hb⟩ := Option.isSome_iff_exists.1 (List.find?_isSome.2 ⟨a, ha, hp⟩)
  rw [hb, honly b (List.mem_of_find?_eq_some hb) (List.find?_some hb)]

end FirstOfEach

/-! ### The order of candidates -/

namespace Candidate

variable {a b d : Candidate}

theorem le_iff : a.le b = true ↔ a.kind ≠ .text ∧ b.kind = .text ∨
    (a.kind = .text ↔ b.kind = .text) ∧ a.label ≤ b.label := by
  by_cases ha : a.kind = .text <;> by_cases hb : b.kind = .text <;> simp [le, ha, hb]

theorem le_trans (a b d : Candidate) (hab : a.le b = true) (hbd : b.le d = true) :
    a.le d = true := by
  rw [le_iff] at hab hbd ⊢
  rcases hab with ⟨ha, hb⟩ | ⟨hkind, hlabel⟩
  · rcases hbd with ⟨hb', -⟩ | ⟨hkind', -⟩
    · exact absurd hb hb'
    · exact .inl ⟨ha, hkind'.1 hb⟩
  · rcases hbd with ⟨hb', hd⟩ | ⟨hkind', hlabel'⟩
    · exact .inl ⟨mt hkind.1 hb', hd⟩
    · exact .inr ⟨hkind.trans hkind', hlabel.trans hlabel'⟩

theorem le_comparable (a b : Candidate) : (a.le b || b.le a) = true := by
  rw [Bool.or_eq_true, le_iff, le_iff]
  rcases le_total a.label b.label with hlabel | hlabel <;>
    by_cases ha : a.kind = .text <;> by_cases hb : b.kind = .text <;> simp [ha, hb, hlabel]

end Candidate

/-- A list in which what satisfies `p` comes last. -/
theorem eq_filter_append_filter {α : Type} {p : α → Bool} {l : List α}
    (h : l.Pairwise fun a b => p a = true → p b = true) :
    l = l.filter (!p ·) ++ l.filter p := by
  induction l with
  | nil => rfl
  | cons a l ih =>
      obtain ⟨hhead, hrest⟩ := List.pairwise_cons.1 h
      cases ha : p a with
      | false =>
          rw [List.filter_cons_of_pos (by simp [ha]), List.filter_cons_of_neg (by simp [ha]),
            List.cons_append, ← ih hrest]
      | true =>
          have hall : ∀ b ∈ a :: l, p b = true :=
            List.forall_mem_cons.2 ⟨ha, fun b hb => hhead b hb ha⟩
          rw [List.filter_eq_self.2 hall, List.filter_eq_nil_iff.2 (by simpa using hall)]
          rfl

/-- Candidates of different labels in order: those of declarations, then words, both by label. -/
theorem Candidate.sorted_mergeSort {all : List Candidate}
    (hlabels : all.Pairwise fun a b => a.label ≠ b.label) :
    ∃ declared words, all.mergeSort le = declared ++ words ∧
      ((declared ++ words).map (·.label)).Nodup ∧
      declared.Pairwise (·.label < ·.label) ∧ words.Pairwise (·.label < ·.label) ∧
      (∀ a, a ∈ declared ↔ a ∈ all ∧ a.kind ≠ .text) ∧
      ∀ a, a ∈ words ↔ a ∈ all ∧ a.kind = .text := by
  have hsorted := List.pairwise_mergeSort le_trans le_comparable all
  have hperm := List.mergeSort_perm all le
  have hdiffer := hperm.symm.pairwise hlabels fun hne => Ne.symm hne
  generalize all.mergeSort le = sorted at hsorted hperm hdiffer
  have hstrict {p : Candidate → Bool}
      (hp : ∀ a b : Candidate, p a = true → p b = true → b.kind = .text → a.kind = .text) :
      (sorted.filter p).Pairwise (·.label < ·.label) := by
    refine ((hsorted.and hdiffer).filter p).imp_of_mem fun {a b} ha hb h => ?_
    rcases le_iff.1 h.1 with ⟨hne, hword⟩ | ⟨-, hlabel⟩
    · exact absurd (hp a b (List.mem_filter.1 ha).2 (List.mem_filter.1 hb).2 hword) hne
    · exact lt_of_le_of_ne hlabel h.2
  have hsplit : sorted.Pairwise fun a b => (a.kind == .text) = true → (b.kind == .text) = true := by
    refine hsorted.imp fun {a b} h ha => ?_
    rw [beq_iff_eq] at ha ⊢
    exact (le_iff.1 h).elim (fun hdeclared => hdeclared.2) fun hsame => hsame.1.1 ha
  have hwhole := eq_filter_append_filter hsplit
  refine ⟨_, _, hwhole, List.pairwise_map.2 (hwhole ▸ hdiffer), hstrict fun a b ha hb hword => ?_,
    hstrict fun a b ha _ _ => beq_iff_eq.1 ha, fun a => ?_, fun a => ?_⟩
  · simp [hword] at hb
  · simp [List.mem_filter, hperm.mem_iff]
  · simp [List.mem_filter, hperm.mem_iff]

/-- The declarations of an index that can be found by name, in the order of its files. -/
def Index.declared (ix : Index) : List Declaration := ix.files.flatMap (·.2.outline.searchable)

theorem Index.kind_ne_text {ix : Index} (houtlined : ix.Outlined) {d : Declaration}
    (hd : d ∈ ix.declared) : d.kind ≠ .text := by
  obtain ⟨⟨key, file⟩, hfile, hd⟩ := List.mem_flatMap.1 hd
  rw [houtlined key file (Query.mem_files.1 hfile)] at hd
  exact Outline.kind_ne_text_of_searchable hd

namespace Query

open Text (byteSize)
open Capabilities (standard)

/-- All candidates, before the first of each name are chosen and sorted: declarations of an index,
then words of a text. -/
def candidates (found : List Declaration) (words : List (Nat × Text)) (place : Nat) (stem : Text)
    (range : Range) : List Candidate :=
  (found.filter fun d => stem.toLower.isPrefixOf d.name.toLower).map (.ofDeclaration range)
    ++ (words.filter fun (i, w) => i != place && w != stem
      && stem.toLower.isPrefixOf w.toLower).map fun (_, w) => .ofWord range w

theorem completions_eq (s : Sources) {c : Context} (hcancelled : c.cancelled = false)
    {front stem rest : Text} (htext : c.text = front ++ stem ++ rest)
    (hcaret : c.before = .ok (front ++ stem))
    (hstem : ∀ d ∈ stem, isWordChar d = true)
    (hfront : ∀ d, front.getLast? = some d → isWordChar d = false) :
    standard.completions s c = .ok (((candidates s.index.declared c.text.words front.length stem
      ⟨.after front, .after (front ++ stem)⟩).eraseDupsBy
        fun a b => a.label == b.label).mergeSort Candidate.le |>.take 200) := by
  have hstart : (front ++ stem).takeEndWhile isWordChar = stem :=
    Text.takeEndWhile_append hfront hstem
  have hplace : (front ++ stem).length - stem.length = front.length := by
    rw [List.length_append, Nat.add_sub_cancel]
  have hrange : c.text.rangeAt front.length (front ++ stem).length
      = ⟨.after front, .after (front ++ stem)⟩ := by
    rw [htext, List.length_append, Text.rangeAt_append]
  have hfiles := (c.yields_mapM (fun entry : FileKey × IndexedFile =>
    entry.2.outline.searchable.filter fun d => stem.toLower.isPrefixOf d.name.toLower)
    s.index.files).1 hcancelled
  have hdeclared : (s.index.files.map fun entry => entry.2.outline.searchable.filter
      fun d => stem.toLower.isPrefixOf d.name.toLower).flatten
        = s.index.declared.filter fun d => stem.toLower.isPrefixOf d.name.toLower := by
    rw [Index.declared, List.filter_flatMap, List.flatMap_def]
  change completions s.index c = _
  unfold completions
  rw [hcaret, Sliced.ok_bind]
  dsimp only
  rw [hstart, hplace, hrange, hfiles, Sliced.ok_bind, hdeclared]
  rfl

/-- What is offered for the names that start with `stem`, which begins behind `front`: declarations,
and words of the text that are not declared. -/
structure Offers (ix : Index) (t front stem : Text) (range : Range)
    (declared words : List Candidate) : Prop where
  labels : ((declared ++ words).map (·.label)).Nodup
  declared_sorted : declared.Pairwise (·.label < ·.label)
  words_sorted : words.Pairwise (·.label < ·.label)
  /-- A name stands for the first declaration of that name. -/
  mem_declared : ∀ a, a ∈ declared ↔ ∃ d, ix.declared.find? (·.name = d.name) = some d ∧
    stem.toLower <+: d.name.toLower ∧ a = .ofDeclaration range d
  /-- The word that starts where `stem` does is left out. -/
  mem_words : ∀ a, a ∈ words ↔ ∃ i w, (i, w) ∈ t.words ∧ i ≠ front.length ∧ w ≠ stem ∧
    stem.toLower <+: w.toLower ∧ (∀ d ∈ ix.declared, d.name ≠ w) ∧ a = .ofWord range w

section Members

variable {found : List Declaration} {words : List (Nat × Text)} {place : Nat} {stem : Text}
  {range : Range} {a : Candidate} {label : Text}

theorem find?_declarations :
    ((found.filter fun d => stem.toLower.isPrefixOf d.name.toLower).map
        (Candidate.ofDeclaration range)).find? (·.label = label) = some a ↔
      ∃ d, found.find? (·.name = d.name) = some d ∧ stem.toLower <+: d.name.toLower ∧
        d.name = label ∧ a = .ofDeclaration range d := by
  -- Declarations of one name all fit or all do not, so the first that fits is the first one.
  have hsame {d : Declaration} (hfits : stem.toLower <+: d.name.toLower) :
      (found.filter fun d => stem.toLower.isPrefixOf d.name.toLower).find? (·.name = d.name)
        = found.find? (·.name = d.name) := by
    rw [List.find?_filter]
    refine congrArg (List.find? · found) (funext fun e => ?_)
    by_cases he : e.name = d.name
    · simp [he, hfits]
    · simp [he]
  rw [List.find?_map, Option.map_eq_some_iff]
  constructor
  · rintro ⟨d, hd, rfl⟩
    have hnamed := List.find?_some hd
    have hlabel : d.name = label := of_decide_eq_true hnamed
    have hfits := (List.mem_filter.1 (List.mem_of_find?_eq_some hd)).2
    rw [List.isPrefixOf_iff_prefix] at hfits
    subst hlabel
    exact ⟨d, (hsame hfits).symm.trans hd, hfits, rfl, rfl⟩
  · rintro ⟨d, hd, hfits, rfl, rfl⟩
    exact ⟨d, (hsame hfits).trans hd, rfl⟩

theorem find?_words :
    ((words.filter fun (i, w) => i != place && w != stem && stem.toLower.isPrefixOf w.toLower).map
        fun (_, w) => Candidate.ofWord range w).find? (·.label = label) = some a ↔
      ∃ i, (i, label) ∈ words ∧ i ≠ place ∧ label ≠ stem ∧ stem.toLower <+: label.toLower ∧
        a = .ofWord range label := by
  have hmem {i : Nat} {w : Text} : (i, w) ∈ (words.filter fun (i, w) =>
      i != place && w != stem && stem.toLower.isPrefixOf w.toLower) ↔
        (i, w) ∈ words ∧ i ≠ place ∧ w ≠ stem ∧ stem.toLower <+: w.toLower := by
    simp [List.mem_filter, and_assoc]
  constructor
  · intro hfound
    have hlabelled := List.find?_some hfound
    obtain ⟨⟨i, w⟩, hfilter, rfl⟩ := List.mem_map.1 (List.mem_of_find?_eq_some hfound)
    obtain rfl : w = label := of_decide_eq_true hlabelled
    obtain ⟨hword, hplace, hstem, hfits⟩ := hmem.1 hfilter
    exact ⟨i, hword, hplace, hstem, hfits, rfl⟩
  · rintro ⟨i, hword, hplace, hstem, hfits, rfl⟩
    refine find?_eq_some_of_forall (List.mem_map_of_mem (hmem.2 ⟨hword, hplace, hstem, hfits⟩))
      (decide_eq_true rfl) fun b hb hlabel => ?_
    obtain ⟨⟨j, w⟩, -, rfl⟩ := List.mem_map.1 hb
    obtain rfl : w = label := of_decide_eq_true hlabel
    rfl

/-- The first candidate with a label comes from a declaration, or there is no such declaration and
it comes from a word. -/
theorem find?_candidates (hkinds : ∀ d ∈ found, d.kind ≠ .text) :
    ((candidates found words place stem range).find? (·.label = a.label) = some a ∧
        a.kind ≠ .text ↔
      ∃ d, found.find? (·.name = d.name) = some d ∧ stem.toLower <+: d.name.toLower ∧
        a = .ofDeclaration range d) ∧
    ((candidates found words place stem range).find? (·.label = a.label) = some a ∧
        a.kind = .text ↔
      ∃ i w, (i, w) ∈ words ∧ i ≠ place ∧ w ≠ stem ∧ stem.toLower <+: w.toLower ∧
        (∀ d ∈ found, d.name ≠ w) ∧ a = .ofWord range w) := by
  rw [candidates, List.find?_append, Option.or_eq_some_iff, find?_declarations, find?_words]
  refine ⟨⟨?_, ?_⟩, ⟨?_, ?_⟩⟩
  · rintro ⟨⟨d, hd, hfits, -, ha⟩ | ⟨-, i, -, -, -, -, ha⟩, hkind⟩
    · exact ⟨d, hd, hfits, ha⟩
    · exact absurd (congrArg Candidate.kind ha) hkind
  · rintro ⟨d, hd, hfits, rfl⟩
    exact ⟨.inl ⟨d, hd, hfits, rfl, rfl⟩, hkinds d (List.mem_of_find?_eq_some hd)⟩
  · rintro ⟨⟨d, hd, -, -, ha⟩ | ⟨hnone, i, hword, hplace, hstem, hfits, ha⟩, hkind⟩
    · rw [ha] at hkind
      exact absurd hkind (hkinds d (List.mem_of_find?_eq_some hd))
    · refine ⟨i, a.label, hword, hplace, hstem, hfits, fun d hd hname => ?_, ha⟩
      have hfilter : d ∈ found.filter fun d => stem.toLower.isPrefixOf d.name.toLower :=
        List.mem_filter.2 ⟨hd, List.isPrefixOf_iff_prefix.2 (hname.symm ▸ hfits)⟩
      exact List.find?_eq_none.1 hnone _ (List.mem_map_of_mem hfilter) (decide_eq_true hname)
  · rintro ⟨i, w, hword, hplace, hstem, hfits, hnone, rfl⟩
    refine ⟨.inr ⟨List.find?_eq_none.2 fun b hb hlabel => ?_, i, hword, hplace, hstem, hfits, rfl⟩,
      rfl⟩
    obtain ⟨d, hd, rfl⟩ := List.mem_map.1 hb
    exact hnone d (List.mem_of_mem_filter hd) (of_decide_eq_true hlabel)

end Members

/-- What is offered at a caret between two characters: the first 200 of all names that start, in
any case, with the identifier characters before the caret. Searchable declarations come first, each
name once and from the first file that declares it, then the words of the text that are not
declared. Both are sorted by their labels, and all of them are to replace the identifier characters
before the caret. -/
theorem completions_best {s : Sources} (hbuilt : s.index.Built) {c : Context}
    (hcancelled : c.cancelled = false) (hcaret : c.text.isBoundary c.caret = true) :
    ∃ front stem rest declared words range,
      c.text = front ++ stem ++ rest ∧ byteSize (front ++ stem) = c.caret ∧
      (∀ d ∈ stem, isWordChar d = true) ∧
      (∀ d, front.getLast? = some d → isWordChar d = false) ∧
      range = ⟨c.text.positionOf (byteSize front), c.text.positionOf c.caret⟩ ∧
      (c.text.Addressable c.caret → c.text.byteSpan range = (byteSize front, c.caret)) ∧
      Offers s.index c.text front stem range declared words ∧
      standard.completions s c = .ok ((declared ++ words).take 200) := by
  obtain ⟨before, rest, htext, hmin, hbefore⟩ := Sliced.exists_caret hcaret
  have hwhole := Text.dropEndWhile_append_takeEndWhile isWordChar before
  have hstem : ∀ d ∈ before.takeEndWhile isWordChar, isWordChar d = true :=
    fun d => Text.of_mem_takeEndWhile
  have hfront : ∀ d, (before.dropEndWhile isWordChar).getLast? = some d → isWordChar d = false :=
    fun d => Text.getLast?_dropEndWhile
  generalize before.dropEndWhile isWordChar = front at hwhole hfront
  generalize before.takeEndWhile isWordChar = stem at hwhole hstem
  subst hwhole
  have hle : c.caret ≤ byteSize c.text := by
    rw [← eq_of_beq hcaret]
    exact Text.width_le_of_isPrefix Char.utf8Size (Text.splitWithin_isPrefix _ _ _)
  have hsize : byteSize (front ++ stem) = c.caret := by rw [← hmin, Nat.min_eq_left hle]
  have hlisted := completions_eq s hcancelled htext hbefore hstem hfront
  have hkinds : ∀ d ∈ s.index.declared, d.kind ≠ .text :=
    fun d => Index.kind_ne_text hbuilt.outlined
  obtain ⟨hfirst, hlabels⟩ := eraseDupsBy_key Candidate.label (candidates s.index.declared
    c.text.words front.length stem ⟨.after front, .after (front ++ stem)⟩)
  obtain ⟨declared, words, hsorted, hnodup, hdeclared, hwords, hmem, hmem'⟩ :=
    Candidate.sorted_mergeSort hlabels
  refine ⟨front, stem, rest, declared, words, ⟨.after front, .after (front ++ stem)⟩, htext, hsize,
    hstem, hfront, ?_, fun haddressable => ?_,
    ⟨hnodup, hdeclared, hwords, fun a => ?_, fun a => ?_⟩, ?_⟩
  · rw [← hsize, htext, Text.positionOf_byteSize, List.append_assoc, Text.positionOf_byteSize]
  · have hstop := haddressable.2
    rw [← hsize, htext, Text.beforeByte_byteSize, Text.afterByte_byteSize] at hstop
    have hstart : Text.CleanCut front (stem ++ rest) := by
      by_cases hne : stem = []
      · subst hne
        rwa [List.append_nil] at hstop
      · exact (Text.cleanCut_of_chars hne hstem front rest).1
    rw [htext, Text.byteSpan_between hstart hstop, ← hsize, Text.byteSize_append]
  · rw [hmem, hfirst]
    exact (find?_candidates hkinds).1
  · rw [hmem', hfirst]
    exact (find?_candidates hkinds).2
  · rw [hlisted, hsorted]

/-- A caret behind the first two characters of a name that the same file declares. -/
theorem completions_best_behind_two :
    let key : FileKey := .ofUri "file:///a.rs".toList
    let t : Text := "fn foo() {}\nfo".toList
    let s : Sources := ⟨.ofUri "file:///".toList, "/".toList, Index.update [] key t true⟩
    let c : Context := ⟨key, t, 14, false⟩
    s.index.Built ∧ c.cancelled = false ∧ c.text.isBoundary c.caret = true ∧
    ∃ front stem rest declared words range,
      c.text = front ++ stem ++ rest ∧ byteSize (front ++ stem) = c.caret ∧
      (∀ d ∈ stem, isWordChar d = true) ∧
      (∀ d, front.getLast? = some d → isWordChar d = false) ∧
      range = ⟨c.text.positionOf (byteSize front), c.text.positionOf c.caret⟩ ∧
      (c.text.Addressable c.caret → c.text.byteSpan range = (byteSize front, c.caret)) ∧
      Offers s.index c.text front stem range declared words ∧
      standard.completions s c = .ok ((declared ++ words).take 200) := by
  intro key t s c
  have hbuilt : s.index.Built := .update key t true .empty
  have hcaret : c.text.isBoundary c.caret = true := by decide
  exact ⟨hbuilt, rfl, hcaret, completions_best hbuilt rfl hcaret⟩

end Query

end LanguageServer
