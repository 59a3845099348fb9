import LanguageServer.Proofs.Text.Ends
import LanguageServer.Proofs.Uri.Escapes
import LanguageServer.Uri.Key

/-!
# The steps of normalization

A spelling is brought into its canonical form in small steps: separators are cleaned, a scheme is
cut off, percent signs are escaped again and a drive letter is made small. Here stands what each
step does by itself: what it leaves is left alone by the same step (`cleanSlashes_of_isClean`,
`decode_escapePercent`, `lowerDrive_lowerDrive`), and no step brings up what another one has taken
away.
-/

namespace LanguageServer

open Percent (Spells)

namespace FileKey

/-! ### Separators -/

/-- A text with slashes for backslashes. -/
def slashed (t : Text) : Text := t.map fun c => if c = '\\' then '/' else c

theorem cleanSlashes_eq (t : Text) :
    cleanSlashes t = Text.dropEndWhile (· == '/') (slashed t) := rfl

@[simp] theorem slashed_append (s t : Text) : slashed (s ++ t) = slashed s ++ slashed t :=
  List.map_append

theorem backslash_not_mem_slashed (t : Text) : '\\' ∉ slashed t := by
  intro hmem
  obtain ⟨c, -, hc⟩ := List.mem_map.1 hmem
  split at hc
  · cases hc
  · next hne => exact hne hc

theorem slashed_of_not_mem {t : Text} (h : '\\' ∉ t) : slashed t = t := by
  refine (List.map_congr_left fun c hc => if_neg ?_).trans (List.map_id t)
  rintro rfl
  exact h hc

/-- A text without backslashes and without slashes at its end. -/
structure IsClean (t : Text) : Prop where
  no_backslash : '\\' ∉ t
  last_ne : t.getLast? ≠ some '/'

theorem isClean_cleanSlashes (t : Text) : IsClean (cleanSlashes t) := by
  refine ⟨fun hmem => backslash_not_mem_slashed t ((List.rdropWhile_prefix _ _).subset hmem),
    fun hlast => ?_⟩
  have hne : cleanSlashes t ≠ [] := fun hnil => by simp [hnil] at hlast
  refine List.rdropWhile_last_not _ _ hne ?_
  rw [List.getLast?_eq_some_getLast hne, Option.some.injEq] at hlast
  exact beq_iff_eq.2 hlast

theorem cleanSlashes_of_isClean {t : Text} (h : IsClean t) : cleanSlashes t = t := by
  rw [cleanSlashes_eq, slashed_of_not_mem h.no_backslash]
  refine List.rdropWhile_eq_self_iff.2 fun hne hslash => h.last_ne ?_
  rw [List.getLast?_eq_some_getLast hne, beq_iff_eq.1 hslash]

/-- Slashes are dropped from the end of a text until there is something else. -/
theorem cleanSlashes_append (s t : Text) :
    cleanSlashes (s ++ t)
      = if cleanSlashes t = [] then cleanSlashes s else slashed s ++ cleanSlashes t := by
  rw [cleanSlashes_eq, slashed_append, Text.dropEndWhile_append]
  rfl

theorem cleanSlashes_append_slash (t : Text) : cleanSlashes (t ++ ['/']) = cleanSlashes t := by
  rw [cleanSlashes_append, if_pos (show cleanSlashes ['/'] = [] from rfl)]

/-! ### Schemes -/

/-- Two or more characters of which the first is a letter, a digit or an underscore. -/
structure IsScheme (scheme : Text) : Prop where
  start : ∃ first second more, scheme = first :: second :: more ∧ isSchemeStart first = true
  chars : ∀ c ∈ scheme, isSchemeChar c = true

theorem IsScheme.colon_not_mem {scheme : Text} (h : IsScheme scheme) : ':' ∉ scheme := fun hmem =>
  absurd (h.chars ':' hmem) (by decide)

theorem IsScheme.backslash_not_mem {scheme : Text} (h : IsScheme scheme) : '\\' ∉ scheme :=
  fun hmem => absurd (h.chars '\\' hmem) (by decide)

theorem takeWhile_ne_colon {scheme : Text} (h : ':' ∉ scheme) (rest : Text) :
    (scheme ++ ':' :: rest).takeWhile (· != ':') = scheme := by
  have hkeep : ∀ c ∈ scheme, (c != ':') = true := fun c hc =>
    bne_iff_ne.2 fun heq => h (heq ▸ hc)
  rw [List.takeWhile_append_of_pos hkeep, List.takeWhile_cons_of_neg (by simp), List.append_nil]

theorem dropWhile_ne_colon {scheme : Text} (h : ':' ∉ scheme) (rest : Text) :
    (scheme ++ ':' :: rest).dropWhile (· != ':') = ':' :: rest := by
  have hkeep : ∀ c ∈ scheme, (c != ':') = true := fun c hc =>
    bne_iff_ne.2 fun heq => h (heq ▸ hc)
  rw [List.dropWhile_append_of_pos hkeep, List.dropWhile_cons_of_neg (by simp)]

theorem splitScheme?_eq_some_iff {t scheme path : Text} :
    splitScheme? t = some (scheme, path) ↔
      IsScheme scheme ∧ ∃ rest, t = scheme ++ ':' :: '/' :: rest ∧
        path = rest.dropWhile (· == '/') := by
  constructor
  · intro h
    have hcut : t.takeWhile (· != ':') ++ t.dropWhile (· != ':') = t :=
      List.takeWhile_append_dropWhile
    have hcolon : ∀ c rest, t.dropWhile (· != ':') = c :: rest → c = ':' := by
      intro c rest heq
      have hhead := Text.head?_dropWhile (List.head?_eq_some_iff.2 ⟨rest, heq⟩)
      exact bne_eq_false_iff_eq.1 hhead
    simp only [splitScheme?] at h
    split at h
    · next first second more c rest htake hdrop =>
        split at h
        · next hchars =>
            obtain ⟨rfl, rfl⟩ := Prod.mk.inj (Option.some.inj h)
            rw [Bool.and_eq_true] at hchars
            refine ⟨⟨⟨first, second, more, htake, hchars.1⟩, ?_⟩, rest, ?_, rfl⟩
            · rw [htake]
              refine List.forall_mem_cons.2 ⟨?_, List.all_eq_true.1 hchars.2⟩
              simp [isSchemeChar, hchars.1]
            · obtain rfl := hcolon c _ hdrop
              rw [← hdrop, hcut]
        · cases h
    · cases h
  · rintro ⟨hscheme, rest, rfl, rfl⟩
    obtain ⟨first, second, more, rfl, hfirst⟩ := hscheme.start
    have hall : (second :: more).all isSchemeChar = true :=
      List.all_eq_true.2 fun c hc => hscheme.chars c (List.mem_cons_of_mem first hc)
    rw [splitScheme?, takeWhile_ne_colon hscheme.colon_not_mem,
      dropWhile_ne_colon hscheme.colon_not_mem]
    simp only [hfirst, hall, Bool.and_true, if_true]

/-! ### Percent signs and drives -/

theorem spells_escapePercent (t : Text) : Spells (escapePercent t) t := by
  refine Spells.flatMap fun c _ => ?_
  split
  · next hc =>
      subst hc
      exact fun rest => Percent.decodeBytes_escaped rfl rest
  · next hc => exact Spells.char hc

@[simp] theorem decode_escapePercent (t : Text) : Percent.decode (escapePercent t) = t :=
  (spells_escapePercent t).decode_eq

theorem escapePercent_cons_of_ne {c : Char} (hc : c ≠ '%') (t : Text) :
    escapePercent (c :: t) = c :: escapePercent t := by
  rw [escapePercent, List.flatMap_cons, if_neg hc]
  rfl

theorem toLower_cases (c : Char) :
    c.toLower = c ∧ c.isUpper = false ∨
      c.toLower.toNat = c.toNat + 32 ∧ 65 ≤ c.toNat ∧ c.toNat ≤ 90 := by
  unfold Char.toLower
  split
  · next h =>
      obtain ⟨hlow, hhigh⟩ : 65 ≤ c.toNat ∧ c.toNat ≤ 90 := h
      refine .inr ⟨?_, hlow, hhigh⟩
      change (c.val + 32).toNat = c.val.toNat + 32
      rw [UInt32.toNat_add]
      exact Nat.mod_eq_of_lt (Nat.lt_of_le_of_lt (Nat.add_le_add_right hhigh 32) (by decide))
  · next h => exact .inl ⟨rfl, decide_eq_false h⟩

theorem toLower_toLower (c : Char) : c.toLower.toLower = c.toLower := by
  rcases toLower_cases c with ⟨hc, -⟩ | ⟨hc, hlow, -⟩
  · rw [hc, hc]
  · rcases toLower_cases c.toLower with ⟨hagain, -⟩ | ⟨-, -, hhigh⟩
    · exact hagain
    · omega

/-- Making a letter small neither brings up a sign nor takes one away. -/
theorem toLower_eq_iff {c sign : Char} (hsign : sign.toNat < 65 ∨ sign.toNat = 92) :
    c.toLower = sign ↔ c = sign := by
  rcases toLower_cases c with ⟨hc, -⟩ | ⟨hc, hlow, hhigh⟩
  · rw [hc]
  · refine iff_of_false ?_ ?_ <;> rintro rfl <;> omega

theorem isUpper_toLower (c : Char) : c.toLower.isUpper = false := by
  rcases toLower_cases c.toLower with ⟨-, hc⟩ | ⟨-, hlow, hhigh⟩
  · exact hc
  · rcases toLower_cases c with ⟨hc, hupper⟩ | ⟨hc, hlow', -⟩
    · rw [hc]
      exact hupper
    · omega

theorem lowerDrive_cases (t : Text) :
    (∃ d rest, t = d :: ':' :: rest ∧ lowerDrive t = d.toLower :: ':' :: rest) ∨
      lowerDrive t = t ∧ ∀ d rest, t ≠ d :: ':' :: rest := by
  unfold lowerDrive
  split
  · exact .inl ⟨_, _, rfl, rfl⟩
  · next hne => exact .inr ⟨rfl, hne⟩

theorem lowerDrive_lowerDrive (t : Text) : lowerDrive (lowerDrive t) = lowerDrive t := by
  rcases lowerDrive_cases t with ⟨d, rest, -, ht⟩ | ⟨ht, -⟩
  · rw [ht, lowerDrive, toLower_toLower]
  · rw [ht, ht]

theorem lowerDrive_escapePercent (t : Text) :
    lowerDrive (escapePercent t) = escapePercent (lowerDrive t) := by
  rcases lowerDrive_cases t with ⟨d, rest, rfl, ht⟩ | ⟨ht, hne⟩
  · rw [ht]
    by_cases hd : d = '%'
    · subst hd
      rfl
    · have hlow : d.toLower ≠ '%' := fun h => hd ((toLower_eq_iff (.inl (by decide))).1 h)
      rw [escapePercent_cons_of_ne hd, escapePercent_cons_of_ne hlow,
        escapePercent_cons_of_ne (by decide), lowerDrive]
  · rw [ht]
    rcases lowerDrive_cases (escapePercent t) with ⟨d, rest, hdrive, -⟩ | ⟨hsame, -⟩
    · obtain ⟨c, t, rfl⟩ := List.exists_cons_of_ne_nil (l := t) (by rintro rfl; cases hdrive)
      by_cases hc : c = '%'
      · subst hc
        cases hdrive
      · rw [escapePercent_cons_of_ne hc, List.cons.injEq] at hdrive
        obtain ⟨e, t, rfl⟩ :=
          List.exists_cons_of_ne_nil (l := t) (by rintro rfl; cases hdrive.2)
        by_cases he : e = '%'
        · subst he
          cases hdrive.2
        · rw [escapePercent_cons_of_ne he, List.cons.injEq] at hdrive
          exact absurd (by rw [hdrive.2.1]) (hne c t)
    · exact hsame

theorem mem_escapePercent {c : Char} {t : Text} (h : c ∈ escapePercent t)
    (hc : c ∉ ['%', '2', '5']) : c ∈ t := by
  obtain ⟨d, hd, hmem⟩ := List.mem_flatMap.1 h
  split at hmem
  · exact absurd hmem hc
  · rwa [List.mem_singleton.1 hmem]

theorem escapePercent_eq_nil_iff (t : Text) : escapePercent t = [] ↔ t = [] := by
  constructor
  · intro hnil
    rw [← decode_escapePercent t, hnil]
    rfl
  · rintro rfl
    rfl

theorem head?_escapePercent_slash (t : Text) :
    (escapePercent t).head? = some '/' ↔ t.head? = some '/' := by
  cases t with
  | nil => exact Iff.rfl
  | cons c t =>
      by_cases hc : c = '%'
      · subst hc
        exact iff_of_false nofun nofun
      · rw [escapePercent_cons_of_ne hc]
        exact Iff.rfl

theorem getLast?_escapePercent {c : Char} {t : Text} (h : (escapePercent t).getLast? = some c)
    (hc : c ≠ '5') : t.getLast? = some c := by
  rcases List.eq_nil_or_concat t with rfl | ⟨init, last, rfl⟩
  · cases h
  · rw [List.concat_eq_append] at h ⊢
    rw [escapePercent, List.flatMap_append, List.flatMap_singleton] at h
    split at h
    · rw [List.getLast?_append] at h
      exact absurd (Option.some.inj h).symm hc
    · rwa [List.getLast?_append] at h ⊢

theorem dropWhile_escapePercent (t : Text) :
    (escapePercent t).dropWhile (· == '/') = escapePercent (t.dropWhile (· == '/')) := by
  induction t with
  | nil => rfl
  | cons c t ih =>
      by_cases hslash : c = '/'
      · subst hslash
        rw [escapePercent_cons_of_ne (by decide)]
        exact ih
      · rw [List.dropWhile_cons_of_neg (by simpa using hslash)]
        by_cases hc : c = '%'
        · subst hc
          rfl
        · rw [escapePercent_cons_of_ne hc, List.dropWhile_cons_of_neg (by simpa using hslash)]

theorem isClean_lowerDrive {t : Text} (h : IsClean t) : IsClean (lowerDrive t) := by
  rcases lowerDrive_cases t with ⟨d, rest, rfl, ht⟩ | ⟨ht, -⟩
  · rw [ht]
    refine ⟨fun hmem => h.no_backslash ?_, fun hlast => h.last_ne ?_⟩
    · rcases List.mem_cons.1 hmem with hd | hmem
      · rw [(toLower_eq_iff (.inr rfl)).1 hd.symm]
        exact List.mem_cons_self
      · exact List.mem_cons_of_mem d hmem
    · rwa [List.getLast?_cons_cons] at hlast ⊢
  · rwa [ht]

theorem head?_lowerDrive_slash (t : Text) :
    (lowerDrive t).head? = some '/' ↔ t.head? = some '/' := by
  rcases lowerDrive_cases t with ⟨d, rest, rfl, ht⟩ | ⟨ht, -⟩
  · rw [ht, List.head?_cons, List.head?_cons, Option.some.injEq, Option.some.injEq]
    exact toLower_eq_iff (.inl (by decide))
  · rw [ht]

theorem lowerDrive_eq_nil_iff (t : Text) : lowerDrive t = [] ↔ t = [] := by
  rcases lowerDrive_cases t with ⟨d, rest, rfl, ht⟩ | ⟨ht, -⟩
  · rw [ht]
    exact iff_of_false nofun nofun
  · rw [ht]

end FileKey

end LanguageServer
