import LanguageServer.Outline.Line
import LanguageServer.Proofs.Text.Identifiers
import Mathlib.Data.List.Infix

/-!
# Where a line declares something

What a line declares is named by a word of that line. Comments are cut off at the end, so the word
stands at the same place in the whole line.
-/

namespace LanguageServer.Line

open Text (IsWordAt)

variable {code line : Text} {found : Found}

/-- The word that was found. -/
def Found.word : Found → Text
  | .named _ name _ => name
  | .implementation _ target _ _ => target

/-- Where the word was found. -/
def Found.start : Found → Nat
  | .named _ _ start => start
  | .implementation _ _ start _ => start

/-- The word stands where it was found. -/
def Found.StandsOn (line : Text) (found : Found) : Prop := IsWordAt line found.start found.word

/-- What is cut off from a line starts with a comment sign. -/
theorem exists_comment (line : Text) :
    ∃ comment, line = Line.code line ++ comment ∧
      ∀ c, comment.head? = some c → c = '/' ∨ c = '#' := by
  suffices hcut : ∃ n, Line.code line = line.take n ∧
      ∀ c, (line.drop n).head? = some c → c = '/' ∨ c = '#' by
    obtain ⟨n, hcode, hhead⟩ := hcut
    exact ⟨line.drop n, by rw [hcode, List.take_append_drop], hhead⟩
  have hslashes : ∀ c, (line.drop ((Text.indexOf? ['/', '/'] line).getD line.length)).head?
      = some c → c = '/' := by
    intro c hc
    cases hfound : Text.indexOf? ['/', '/'] line with
    | none => simp [hfound] at hc
    | some i =>
        obtain ⟨rest, hrest⟩ := Text.isPrefix_of_indexOf? hfound
        rw [hfound, Option.getD_some, ← hrest] at hc
        exact (Option.some.inj hc).symm
  have hhash : ∀ c, (line.drop (line.takeWhile (· != '#')).length).head? = some c → c = '#' := by
    intro c hc
    rw [Text.drop_length_takeWhile] at hc
    have hsign := Text.head?_dropWhile hc
    exact bne_eq_false_iff_eq.1 hsign
  unfold Line.code
  dsimp only
  generalize (Text.indexOf? ['/', '/'] line).getD line.length = slashes at hslashes
  have hearlier : ∃ n, line.take slashes = line.take n ∧
      ∀ c, (line.drop n).head? = some c → c = '/' ∨ c = '#' :=
    ⟨slashes, rfl, fun c hc => .inl (hslashes c hc)⟩
  split
  · exact hearlier
  · split
    · exact hearlier
    · refine ⟨_, rfl, fun c hc => ?_⟩
      rcases Nat.le_total slashes (line.takeWhile (· != '#')).length with hle | hle
      · rw [Nat.min_eq_left hle] at hc
        exact .inl (hslashes c hc)
      · rw [Nat.min_eq_right hle] at hc
        exact .inr (hhash c hc)

theorem code_isPrefix (line : Text) : Line.code line <+: line := by
  obtain ⟨comment, hline, -⟩ := exists_comment line
  exact ⟨comment, hline.symm⟩

theorem standsOn_of_implementation? {start : Nat} (h : implementation? code start = some found) :
    found.StandsOn code := by
  have hnames : ∀ entry ∈ (Text.words (code.drop (namesStart code start))).map
      (fun name => (namesStart code start + name.1, name.2)), IsWordAt code entry.1 entry.2 := by
    intro entry hentry
    obtain ⟨⟨i, w⟩, hword, rfl⟩ := List.mem_map.1 hentry
    exact (Text.isWordAt_of_mem_words hword).of_drop
  unfold implementation? at h
  dsimp only at h
  generalize (Text.words (code.drop (namesStart code start))).map
    (fun name => (namesStart code start + name.1, name.2)) = names at h hnames
  split at h
  · cases h
  · next first firstName rest =>
      split at h
      · cases h
        refine hnames _ ?_
        cases hfind : ((first, firstName) :: rest).find? (isCapitalized ·.2) with
        | none => exact List.mem_cons_self
        | some entry => exact List.mem_of_find?_eq_some hfind
      · cases h
      · next sign at' target more hafter =>
          cases h
          have hmem : (at', target) ∈ sign :: (at', target) :: more :=
            List.mem_cons_of_mem _ List.mem_cons_self
          rw [← hafter] at hmem
          exact hnames _ (List.mem_of_mem_drop hmem)

/-- What a line declares is named by one of its words behind a keyword, unless it is an `impl`
block. -/
theorem declarationOf?_cases {words : List (Nat × Text)}
    (h : declarationOf? code words = some found) :
    (∃ keyword name start, found = .named keyword name start ∧ (start, name) ∈ words ∧
        (keywordKind? keyword).isSome = true) ∨
      ∃ start, implementation? code start = some found := by
  induction words with
  | nil => cases h
  | cons entry rest ih =>
      obtain ⟨i, word⟩ := entry
      unfold declarationOf? at h
      dsimp only at h
      split at h
      · rcases ih h with ⟨keyword, name, start, rfl, hmem, hkind⟩ | hblock
        · exact .inl ⟨keyword, name, start, rfl, List.mem_cons_of_mem _ hmem, hkind⟩
        · exact .inr hblock
      split at h
      · exact .inr ⟨_, h⟩
      by_cases hkeyword : (keywordKind? word).isNone = true
      · rw [if_pos hkeyword] at h
        cases h
      rw [if_neg hkeyword] at h
      have hkind : (keywordKind? word).isSome = true := by
        rwa [Option.isNone_iff_eq_none, ← ne_eq, ← Option.isSome_iff_ne_none] at hkeyword
      split at h
      · cases h
      · next j name more =>
          split at h
          · cases h
          split at h
          · split at h
            · cases h
            · next k later _ =>
                cases h
                exact .inl ⟨word, later, k, rfl, by simp, hkind⟩
          · cases h
            exact .inl ⟨word, name, j, rfl, by simp, hkind⟩

theorem standsOn_of_declarationOf? {words : List (Nat × Text)}
    (hwords : ∀ entry ∈ words, IsWordAt code entry.1 entry.2)
    (h : declarationOf? code words = some found) : found.StandsOn code := by
  rcases declarationOf?_cases h with ⟨keyword, name, start, rfl, hmem, -⟩ | ⟨start, hblock⟩
  · exact hwords _ hmem
  · exact standsOn_of_implementation? hblock

theorem standsOn_code (h : declaration? line = some found) : found.StandsOn (Line.code line) :=
  standsOn_of_declarationOf? (fun _ hentry => Text.isWordAt_of_mem_words hentry) h

/-- What a line declares is named by a word of the line. -/
theorem standsOn_of_declaration? (h : declaration? line = some found) : found.StandsOn line :=
  IsWordAt.of_isPrefix (standsOn_code h) (code_isPrefix line)

theorem implementation?_ne_named {start i : Nat} {keyword name : Text} :
    implementation? code start ≠ some (.named keyword name i) := by
  intro h
  unfold implementation? at h
  dsimp only at h
  split at h
  · cases h
  · split at h <;> cases h

/-- A name is a word of the line, and the line goes on behind it with no identifier character even
if a comment starts there. -/
theorem mem_words_of_declaration? {keyword name : Text} {start : Nat}
    (h : declaration? line = some (.named keyword name start)) :
    (start, name) ∈ Text.words line := by
  rcases declarationOf?_cases h with ⟨_, _, _, ⟨⟩, hword, -⟩ | ⟨_, hblock⟩
  · obtain ⟨comment, hline, hsign⟩ := exists_comment line
    have hbehind : ∀ c, comment.head? = some c → isWordChar c = false := fun c hc => by
      rcases hsign c hc with rfl | rfl <;> decide
    have hlonger : (([] : Text).length + start, name) ∈
        Text.words ([] ++ Line.code line ++ comment) :=
      Text.mem_words_append hword nofun hbehind
    rwa [List.nil_append, ← hline, List.length_nil, Nat.zero_add] at hlonger
  · exact absurd hblock implementation?_ne_named

/-- The keyword before a name says what kind of thing it names. -/
theorem exists_kind_of_declaration? {keyword name : Text} {start : Nat}
    (h : declaration? line = some (.named keyword name start)) :
    ∃ kind, keywordKind? keyword = some kind ∧ kind ≠ .text := by
  rcases declarationOf?_cases h with ⟨_, _, _, ⟨⟩, -, hsome⟩ | ⟨_, hblock⟩
  · obtain ⟨kind, hkind⟩ := Option.isSome_iff_exists.1 hsome
    refine ⟨kind, hkind, ?_⟩
    rintro rfl
    unfold keywordKind? at hkind
    split at hkind <;> cases hkind
  · exact absurd hblock implementation?_ne_named

/-- The part of a line in which supertypes are looked for. -/
theorem head_isPrefix (line : Text) (start : Nat) :
    ((Line.code line).drop start).takeWhile (fun c => c != '{' && c != '=') <+: line.drop start :=
  (List.takeWhile_prefix _).trans ((code_isPrefix line).drop start)

/-- Supertypes are words of the line. -/
theorem isWordAt_of_mem_supertypes {start : Nat} {entry : Nat × Text}
    (h : entry ∈ supertypes line start) : IsWordAt line entry.1 entry.2 := by
  have hhead := head_isPrefix line start
  rw [supertypes, List.mem_reverse] at h
  generalize ((Line.code line).drop start).takeWhile (fun c => c != '{' && c != '=') = head
    at h hhead
  refine List.foldlRecOn (motive := fun h : Heading =>
    ∀ entry ∈ h.found, IsWordAt line entry.1 entry.2) (Text.words head) _ (by simp) ?_ entry h
  intro before hbefore ⟨i, word⟩ hword
  have hplace := ((Text.isWordAt_of_mem_words hword).of_isPrefix hhead).of_drop
  unfold Heading.read
  dsimp only
  split
  · exact hbefore
  · split
    · exact List.forall_mem_cons.2 ⟨hplace, hbefore⟩
    · exact hbefore

end LanguageServer.Line
