import LanguageServer.Proofs.Uri.Keys
import LanguageServer.Proofs.Uri.References
import LanguageServer.Uri.Address

/-!
# Reading local addresses

An address is read in three steps: blank edges and line breaks are dropped (`stripped`), query and
fragment are cut off, and dot segments of the path are resolved. What is left of a local address is
again an escaped path, and none of the steps makes it longer (`exists_pathOf_eq`). Without dot
segments the path stays what it was (`pathOf_of_no_dots`).
-/

namespace LanguageServer

open Percent (Spells)

namespace Address

/-! ### Dot segments -/

theorem eq_of_toLower_eq {c : Char} (h : c.toLower = 'e') : c = 'e' ∨ c = 'E' := by
  rcases FileKey.toLower_cases c with ⟨hc, -⟩ | ⟨hc, -, -⟩
  · exact .inl (hc ▸ h)
  · rw [h] at hc
    have hvalue : c.toNat = 'E'.toNat := Nat.add_right_cancel (m := 32) hc.symm
    exact .inr (FileKey.eq_of_toNat_eq hvalue)

/-- The small spellings of a dot. -/
def dots : List Text := [".".toList, "%2e".toList]

theorem spells_dot {t : Text} (h : t.map Char.toLower ∈ dots) : Spells t ['.'] := by
  have hsign {c sign : Char} (hc : c.toLower = sign) (hsign : sign.toNat < 65) : c = sign :=
    (FileKey.toLower_eq_iff (.inl hsign)).1 hc
  simp only [dots, List.mem_cons, List.not_mem_nil, or_false] at h
  rcases h with h | h
  · obtain ⟨c, _, rfl, hc, hnil⟩ := List.map_eq_cons_iff.1 h
    obtain rfl := List.map_eq_nil_iff.1 hnil
    obtain rfl := hsign hc (by decide)
    exact Spells.char (by decide)
  · obtain ⟨c, _, rfl, hc, h⟩ := List.map_eq_cons_iff.1 h
    obtain ⟨d, _, rfl, hd, h⟩ := List.map_eq_cons_iff.1 h
    obtain ⟨e, _, rfl, he, hnil⟩ := List.map_eq_cons_iff.1 h
    obtain rfl := List.map_eq_nil_iff.1 hnil
    obtain rfl := hsign hc (by decide)
    obtain rfl := hsign hd (by decide)
    rcases eq_of_toLower_eq he with rfl | rfl
    · exact fun rest => Percent.decodeBytes_escaped rfl rest
    · exact fun rest => Percent.decodeBytes_escaped rfl rest

theorem ofList_eq_iff {t : Text} {s : String} : String.ofList t = s ↔ t = s.toList := by
  constructor
  · rintro rfl
    exact String.toList_ofList.symm
  · rintro rfl
    exact String.ofList_toList

/-- A segment that means the directory itself stands for a dot. -/
theorem decode_of_isSingleDot {s : Text} (h : isSingleDot s = true) :
    Percent.decode s = ['.'] := by
  refine (spells_dot ?_).decode_eq
  simp only [isSingleDot, List.contains_iff_mem, List.mem_cons, List.not_mem_nil, or_false,
    ofList_eq_iff] at h
  simpa only [dots, List.mem_cons, List.not_mem_nil, or_false] using h

/-- A segment that means the directory above stands for two dots. -/
theorem decode_of_isDoubleDot {s : Text} (h : isDoubleDot s = true) :
    Percent.decode s = ['.', '.'] := by
  obtain ⟨x, hx, y, hy, heq⟩ : ∃ x ∈ dots, ∃ y ∈ dots, s.map Char.toLower = x ++ y := by
    simp only [isDoubleDot, List.contains_iff_mem, List.mem_cons, List.not_mem_nil, or_false,
      ofList_eq_iff] at h
    rcases h with h | h | h | h
    · exact ⟨".".toList, by decide, ".".toList, by decide, h⟩
    · exact ⟨"%2e".toList, by decide, ".".toList, by decide, h⟩
    · exact ⟨".".toList, by decide, "%2e".toList, by decide, h⟩
    · exact ⟨"%2e".toList, by decide, "%2e".toList, by decide, h⟩
  obtain ⟨a, b, rfl, rfl, rfl⟩ := List.map_eq_append_iff.1 heq
  exact ((spells_dot hx).append (spells_dot hy)).decode_eq

/-! ### Resolving -/

variable {kind : Kind}

theorem resolve_of_no_dots {segments : List Text} (hne : segments ≠ [])
    (h : ∀ s ∈ segments, isSingleDot s = false ∧ isDoubleDot s = false) (dirs : List Text) :
    resolve kind dirs segments = dirs ++ segments := by
  induction segments generalizing dirs with
  | nil => exact absurd rfl hne
  | cons s segments ih =>
      obtain ⟨⟨hsingle, hdouble⟩, hrest⟩ := List.forall_mem_cons.1 h
      cases segments with
      | nil => simp only [resolve, hsingle, hdouble, Bool.false_eq_true, if_false]
      | cons next segments =>
          simp only [resolve, hsingle, hdouble, Bool.false_eq_true, if_false]
          rw [ih (List.cons_ne_nil _ _) hrest, List.append_assoc, List.singleton_append]

theorem goUp_cases (dirs : List Text) : goUp kind dirs = dirs ∨ goUp kind dirs = dirs.dropLast := by
  unfold goUp
  split
  · split
    · exact .inl rfl
    · exact .inr rfl
  · next hnil => exact .inr (by rw [List.getLast?_eq_none_iff.1 hnil]; rfl)

/-- The length of a path with these segments. -/
def weight (segments : List Text) : Nat := (segments.flatMap ('/' :: ·)).length

@[simp] theorem weight_nil : weight [] = 0 := rfl

@[simp] theorem weight_append (s t : List Text) : weight (s ++ t) = weight s + weight t := by
  rw [weight, List.flatMap_append, List.length_append, weight, weight]

@[simp] theorem weight_cons (s : Text) (segments : List Text) :
    weight (s :: segments) = s.length + 1 + weight segments := by
  rw [weight, List.flatMap_cons, List.length_append, List.length_cons, weight]

theorem weight_dropLast (dirs : List Text) : weight dirs.dropLast ≤ weight dirs := by
  rcases List.eq_nil_or_concat dirs with rfl | ⟨init, last, rfl⟩
  · exact Nat.le_refl _
  · rw [List.concat_eq_append, List.dropLast_concat, weight_append]
    exact Nat.le_add_right _ _

theorem exists_goUp_map (f : Text → Text) (dirs : List Text) :
    ∃ kept, goUp kind (dirs.map f) = kept.map f ∧ weight kept ≤ weight dirs := by
  rcases @goUp_cases kind (dirs.map f) with hsame | hlast
  · exact ⟨dirs, hsame, Nat.le_refl _⟩
  · exact ⟨dirs.dropLast, by rw [hlast, List.map_dropLast], weight_dropLast dirs⟩

/-- Resolving changes no segment, and the path does not get longer. -/
theorem exists_resolve_map (f : Text → Text) (hf : f [] = []) (dirs segments : List Text) :
    ∃ kept, resolve kind (dirs.map f) (segments.map f) = kept.map f ∧
      weight kept ≤ weight dirs + weight segments := by
  induction segments generalizing dirs with
  | nil => exact ⟨dirs, rfl, Nat.le_refl _⟩
  | cons s segments ih =>
      obtain ⟨above, habove, hweight⟩ := @exists_goUp_map kind f dirs
      cases segments with
      | nil =>
          simp only [List.map_cons, List.map_nil, resolve]
          split
          · exact ⟨above ++ [[]], by simp [habove, hf], by simp; omega⟩
          split
          · exact ⟨dirs ++ [[]], by simp [hf], by simp⟩
          · exact ⟨dirs ++ [s], by simp, by simp⟩
      | cons next segments =>
          simp only [List.map_cons, resolve] at ih ⊢
          split
          · obtain ⟨kept, hkept, hle⟩ := ih above
            exact ⟨kept, by rw [habove, hkept], by simp at hle ⊢; omega⟩
          split
          · obtain ⟨kept, hkept, hle⟩ := ih dirs
            exact ⟨kept, hkept, by simp at hle ⊢; omega⟩
          · obtain ⟨kept, hkept, hle⟩ := ih (dirs ++ [s])
            rw [List.map_append] at hkept
            exact ⟨kept, hkept, by simp at hle ⊢; omega⟩

/-! ### Reading a local address -/

/-- What is left of a text when the blank edge and the line breaks are dropped. -/
def stripped (t : Text) : Text := (Text.dropEndWhile (· ≤ ' ') t).filter (!isDropped ·)

theorem stripped_sublist (t : Text) : (stripped t).Sublist t :=
  List.filter_sublist.trans (List.rdropWhile_prefix _ t).sublist

/-- Nothing is dropped from a text without line breaks and tabs that ends in no blank. -/
theorem stripped_eq_self_iff (t : Text) :
    stripped t = t ↔ (∀ c ∈ t, isDropped c = false) ∧ ∀ c, t.getLast? = some c → ' ' < c := by
  have hprefix : Text.dropEndWhile (· ≤ ' ') t <+: t := List.rdropWhile_prefix _ t
  have hlast : Text.dropEndWhile (· ≤ ' ') t = t ↔ ∀ c, t.getLast? = some c → ' ' < c := by
    refine List.rdropWhile_eq_self_iff.trans ⟨fun h c hc => ?_, fun h hne => ?_⟩
    · have hne : t ≠ [] := by
        rintro rfl
        cases hc
      rw [List.getLast?_eq_some_getLast hne, Option.some.injEq] at hc
      simpa [hc] using h hne
    · simpa using h _ (List.getLast?_eq_some_getLast hne)
  rw [← hlast]
  constructor
  · intro h
    have hlength := congrArg List.length h
    have hkept : Text.dropEndWhile (· ≤ ' ') t = t := by
      refine hprefix.eq_of_length_le ?_
      rw [← hlength]
      exact List.filter_sublist.length_le
    refine ⟨fun c hc => ?_, hkept⟩
    rw [stripped, hkept] at h
    simpa using List.filter_eq_self.1 h c hc
  · rintro ⟨hdropped, hkept⟩
    rw [stripped, hkept]
    exact List.filter_eq_self.2 fun c hc => by rw [hdropped c hc]; rfl

theorem dropEndWhile_escapePercent (t : Text) :
    Text.dropEndWhile (· ≤ ' ') (FileKey.escapePercent t)
      = FileKey.escapePercent (Text.dropEndWhile (· ≤ ' ') t) := by
  induction t using List.reverseRecOn with
  | nil => rfl
  | append_singleton t c ih =>
      have hconcat := @List.flatMap_append Char Char t [c] fun c =>
        if c = '%' then ['%', '2', '5'] else [c]
      rw [List.flatMap_singleton] at hconcat
      by_cases hpercent : c = '%'
      · subst hpercent
        have hkept : Text.dropEndWhile (· ≤ ' ') (t ++ ['%']) = t ++ ['%'] :=
          List.rdropWhile_concat_neg _ t '%' (by decide)
        have hescape := List.rdropWhile_concat_neg (· ≤ ' ')
          (FileKey.escapePercent t ++ ['%', '2']) '5' (by decide)
        rw [List.append_assoc] at hescape
        rw [hkept, FileKey.escapePercent, hconcat, if_pos rfl]
        exact hescape
      · rw [if_neg hpercent] at hconcat
        by_cases hblank : c ≤ ' '
        · have hdropped : Text.dropEndWhile (· ≤ ' ') (t ++ [c]) = Text.dropEndWhile (· ≤ ' ') t :=
            List.rdropWhile_concat_pos _ t c (by simpa using hblank)
          rw [hdropped, ← ih, FileKey.escapePercent, hconcat]
          exact List.rdropWhile_concat_pos _ _ c (by simpa using hblank)
        · have hkept : Text.dropEndWhile (· ≤ ' ') (t ++ [c]) = t ++ [c] :=
            List.rdropWhile_concat_neg _ t c (by simpa using hblank)
          rw [hkept, FileKey.escapePercent, hconcat]
          exact List.rdropWhile_concat_neg _ _ c (by simpa using hblank)

theorem filter_escapePercent (t : Text) :
    (FileKey.escapePercent t).filter (!isDropped ·)
      = FileKey.escapePercent (t.filter (!isDropped ·)) := by
  induction t with
  | nil => rfl
  | cons c t ih =>
      by_cases hpercent : c = '%'
      · subst hpercent
        rw [List.filter_cons_of_pos (by decide)]
        change '%' :: '2' :: '5' :: (FileKey.escapePercent t).filter (!isDropped ·) = _
        rw [ih]
        rfl
      · rw [FileKey.escapePercent_cons_of_ne hpercent]
        rw [List.filter_cons, List.filter_cons]
        split
        · rw [FileKey.escapePercent_cons_of_ne hpercent, ih]
        · exact ih

theorem stripped_escapePercent (t : Text) :
    stripped (FileKey.escapePercent t) = FileKey.escapePercent (stripped t) := by
  rw [stripped, dropEndWhile_escapePercent, filter_escapePercent, stripped]

theorem parse?_local (t : Text) :
    parse? ("file:///".toList ++ t) = local? "file".toList ("///".toList ++ stripped t) := by
  have hstart : ("file:///".toList ++ t).dropWhile (· ≤ ' ') = "file:///".toList ++ t := rfl
  have hend : Text.dropEndWhile (· ≤ ' ') ("file:///".toList ++ t)
      = "file:///".toList ++ Text.dropEndWhile (· ≤ ' ') t := by
    rw [Text.dropEndWhile, Text.dropEndWhile, List.reverse_append, List.dropWhile_append]
    split
    · next hempty =>
        rw [List.isEmpty_iff.1 hempty]
        rfl
    · rw [List.reverse_append, List.reverse_reverse]
  rw [parse?, hstart, hend]
  rw [List.filter_append]
  rfl

theorem splitTail_slash (t : Text) :
    splitTail kind ('/' :: t) = ('/' :: (splitTail kind t).1, (splitTail kind t).2) := by
  have hbody : ('/' :: t).takeWhile (fun c => c != '?' && c != '#')
      = '/' :: t.takeWhile fun c => c != '?' && c != '#' := rfl
  simp only [splitTail, hbody, List.length_cons, List.drop_succ_cons]
  split <;> rfl

theorem local?_slashes (scheme t : Text) :
    local? scheme ("///".toList ++ t) = some ⟨scheme, some [], pathOf .file (splitTail .file t).1,
      (splitTail .file t).2.1, (splitTail .file t).2.2⟩ := by
  change local? scheme ('/' :: '/' :: '/' :: t) = _
  rw [local?, splitTail_slash, splitTail_slash, splitTail_slash]
  rfl

theorem splitTail_of_not_mem {t : Text} (hfragment : '#' ∉ t) (hquery : '?' ∉ t) :
    splitTail kind t = (t, none, none) := by
  have hbody : t.takeWhile (fun c => c != '?' && c != '#') = t := by
    refine List.takeWhile_eq_self_iff.2 fun c hc => ?_
    rw [Bool.and_eq_true, bne_iff_ne, bne_iff_ne]
    exact ⟨fun heq => hquery (heq ▸ hc), fun heq => hfragment (heq ▸ hc)⟩
  simp only [splitTail, hbody, List.drop_length, List.takeWhile_nil, List.drop_nil]

/-- A question mark or a number sign leaves a query or a fragment behind. -/
theorem not_mem_of_splitTail {t body : Text} (h : splitTail kind t = (body, none, none)) :
    '#' ∉ t ∧ '?' ∉ t := by
  have hcut : t.takeWhile (fun c => c != '?' && c != '#')
      ++ t.dropWhile (fun c => c != '?' && c != '#') = t := List.takeWhile_append_dropWhile
  have hrest : t.drop (t.takeWhile fun c => c != '?' && c != '#').length
      = t.dropWhile fun c => c != '?' && c != '#' := by
    have hleft := @List.drop_left _ (t.takeWhile fun c => c != '?' && c != '#')
      (t.dropWhile fun c => c != '?' && c != '#')
    rwa [hcut] at hleft
  cases hdrop : t.dropWhile (fun c => c != '?' && c != '#') with
  | nil =>
      have hall := List.dropWhile_eq_nil_iff.1 hdrop
      exact ⟨fun hmem => by simpa using hall _ hmem, fun hmem => by simpa using hall _ hmem⟩
  | cons c rest =>
      have hc := List.head?_dropWhile_not (fun c => c != '?' && c != '#') t
      rw [hdrop] at hc hrest
      rw [splitTail, hrest] at h
      by_cases hquery : c = '?'
      · subst hquery
        cases (Prod.mk.inj (Prod.mk.inj h).2).1
      · obtain rfl : c = '#' := by simpa [hquery] using hc
        cases (Prod.mk.inj (Prod.mk.inj h).2).2

/-! ### The path -/

/-- What an address escapes of a path, percent signs included. -/
def escapedInAddress (c : Char) : Bool := c == '%' || escapedInPath c

theorem encode_escapePercent (t : Text) :
    Percent.encode escapedInPath (FileKey.escapePercent t) = Percent.encode escapedInAddress t :=
  Percent.encode_escapePercent (by decide) t

theorem flatMap_slash {parts : List Text} (h : parts ≠ []) :
    parts.flatMap ('/' :: ·) = '/' :: ['/'].intercalate parts := by
  induction parts with
  | nil => exact absurd rfl h
  | cons part parts ih =>
      cases parts with
      | nil => simp
      | cons next parts =>
          rw [List.flatMap_cons, ih (List.cons_ne_nil _ _), List.intercalate_cons_cons,
            List.append_assoc, List.cons_append, List.singleton_append]

theorem flatMap_slash_splitOn (t : Text) : (t.splitOn '/').flatMap ('/' :: ·) = '/' :: t := by
  rw [flatMap_slash (List.splitOn_ne_nil _ _), List.intercalate_splitOn]

/-- The path of a local address is an escaped path that is not longer than the one it is made of. -/
theorem exists_pathOf_eq (t : Text) :
    ∃ kept : Text, pathOf .file (FileKey.escapePercent t)
        = '/' :: Percent.encode escapedInAddress kept ∧ kept.length ≤ t.length := by
  obtain ⟨segments, hsegments, hweight⟩ :=
    @exists_resolve_map .file (Percent.encode escapedInAddress) rfl [] (t.splitOn '/')
  rw [List.map_nil, ← Percent.splitOn_encode (by decide)] at hsegments
  refine ⟨(segments.flatMap ('/' :: ·)).dropWhile (· == '/'), ?_, ?_⟩
  · rw [pathOf, encode_escapePercent, hsegments, ← Percent.encode_flatMap_cons (by decide),
      Percent.dropWhile_encode (by decide)]
  · rw [weight_nil, Nat.zero_add, weight, weight, flatMap_slash_splitOn, List.length_cons]
      at hweight
    cases segments with
    | nil => exact Nat.zero_le _
    | cons s segments =>
        have hdrop := List.length_dropWhile_le (· == '/') (s ++ segments.flatMap ('/' :: ·))
        rw [List.flatMap_cons, List.cons_append, List.length_cons] at hweight
        rw [List.flatMap_cons, List.cons_append, List.dropWhile_cons_of_pos (by simp)]
        exact Nat.le_trans hdrop (Nat.le_of_succ_le_succ hweight)

/-- A path without dot segments stays as it is. -/
theorem pathOf_of_no_dots {t : Text} (hdots : ∀ s ∈ t.splitOn '/', s ≠ ['.'] ∧ s ≠ ['.', '.'])
    (hhead : t.head? ≠ some '/') :
    pathOf .file (FileKey.escapePercent t) = '/' :: Percent.encode escapedInAddress t := by
  have hne : (Percent.encode escapedInAddress t).splitOn '/' ≠ [] := List.splitOn_ne_nil _ _
  have hresolve := @resolve_of_no_dots .file _ hne ?_ []
  · rw [pathOf, encode_escapePercent, hresolve, List.nil_append, flatMap_slash_splitOn]
    change '/' :: (Percent.encode escapedInAddress t).dropWhile (· == '/') = _
    rw [Percent.dropWhile_encode (by decide), Text.dropWhile_eq_self hhead]
  · intro s hs
    rw [Percent.splitOn_encode (by decide)] at hs
    obtain ⟨name, hname, rfl⟩ := List.mem_map.1 hs
    obtain ⟨hsingle, hdouble⟩ := hdots name hname
    have hdecode : Percent.decode (Percent.encode escapedInAddress name) = name :=
      (Percent.spells_encode (by decide) name).decode_eq
    refine ⟨Bool.eq_false_iff.2 fun h => hsingle ?_, Bool.eq_false_iff.2 fun h => hdouble ?_⟩
    · rw [← hdecode, decode_of_isSingleDot h]
    · rw [← hdecode, decode_of_isDoubleDot h]

end Address

end LanguageServer
