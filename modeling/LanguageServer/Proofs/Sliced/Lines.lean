import LanguageServer.Outline.Scan
import LanguageServer.Proofs.Outline.Lines
import LanguageServer.Proofs.Sliced.Words

/-!
# Declarations on one line by byte offsets

Where a comment starts, where the names of an `impl` block start and where a supertype stands are
byte offsets, and some are sums of an offset in a part of the line and the offset of that part. They
all are offsets of characters of the line, so looking for a declaration (`declaration?_eq`) and for
the supertypes behind its name (`supertypes_eq`) never breaks off.
-/

namespace LanguageServer

namespace Line

/-- What was found on a line, by byte offsets. -/
def Found.atBytes (line : Text) : Found → Found
  | .named keyword name start => .named keyword name (line.bytesTo start)
  | .implementation label target start interface =>
    .implementation label target (line.bytesTo start) interface

/-- What has been read behind a type's name, by byte offsets. -/
def Heading.atBytes (head line : Text) (h : Heading) : Heading :=
  { h with lastEnd := head.bytesTo h.lastEnd, found := h.found.map (Sliced.atBytes line) }

theorem Found.atBytes_of_isPrefix {code line : Text} {found : Found} (h : code <+: line)
    (hfound : found.StandsOn code) : found.atBytes code = found.atBytes line := by
  have hstart : line.bytesTo found.start = code.bytesTo found.start :=
    Text.bytesTo_eq_of_isPrefix h (Nat.le_of_add_right_le (Text.IsWordAt.le_length hfound))
  cases found with
  | named => exact congrArg (Found.named _ _) hstart.symm
  | implementation => exact congrArg (Found.implementation _ _ · _) hstart.symm

theorem Heading.lastEnd_read (head : Text) (start : Nat) (h : Heading) (i : Nat) (word : Text) :
    (h.read head start i word).lastEnd = i + word.length := by
  unfold Heading.read
  dsimp only
  split
  · rfl
  · split <;> rfl

end Line

namespace Sliced

open Text (byteSize bytesTo)

/-! ### Looking at a line -/

/-- The column of a byte offset in a line; one past the end means the end. -/
def column (line : Text) (offset : Nat) : Except Fault Nat := do
  let before ← sliceTo line (min offset (byteSize line))
  .ok before.units

/-- The part of line `n` between two byte offsets, as a range. -/
def rangeOn (n : Nat) (line : Text) (i j : Nat) : Except Fault Range := do
  let start ← column line i
  let stop ← column line j
  .ok (.onLine n start stop)

/-- Number of bytes that a line is indented by. -/
def indentSize (line : Text) : Except Fault Nat := sub (byteSize line) (byteSize line.trimStart)

def code (line : Text) : Except Fault Text :=
  let cut := (find? ['/', '/'] line).getD (byteSize line)
  match findChar? (· == '#') line with
  | none => sliceTo line cut
  | some i => do
    let rest ← sliceFrom line (i + 1)
    sliceTo line (if Line.isCodeAfterHash rest then cut else min cut i)

/-- The offset of the sign that closes the first one. -/
def closing? (depth : Int) : List (Nat × Char) → Option Nat
  | [] => none
  | (i, c) :: rest =>
    if c = '<' then closing? (depth + 1) rest
    else if c = '>' then if depth - 1 = 0 then some i else closing? (depth - 1) rest
    else closing? depth rest

/-- Where the names of an `impl` block start whose keyword ends at `start`. -/
def namesStart? (code : Text) (start : Nat) : Except Fault (Option Nat) := do
  let rest ← sliceFrom code start
  if rest.trimStart.head? = some '<' then
    match findChar? (· == '<') rest with
    | none => .ok none
    | some i =>
      let inner ← sliceFrom code (start + i)
      .ok (some (((closing? 0 (charIndices 0 inner)).map (start + i + · + 1)).getD start))
  else .ok (some start)

/-- The `impl` block that some words name. -/
def implementationOf? (names : List (Nat × Text)) : Except Fault (Option Line.Found) :=
  match names.head? with
  | none => .ok none
  | some first =>
    match names.findIdx? (·.2 = "for".toList) with
    | some k =>
      match names[k + 1]? with
      | none => .ok none
      | some target => do
        let before ← initial names k
        let interface := (before.getLast?.map (·.2)).getD first.2
        .ok (some (.implementation ("impl ".toList ++ interface ++ " for ".toList ++ target.2)
          target.2 target.1 (some interface)))
    | none =>
      let target := (names.find? (Line.isCapitalized ·.2)).getD first
      .ok (some (.implementation ("impl ".toList ++ target.2) target.2 target.1 none))

def implementation? (code : Text) (start : Nat) : Except Fault (Option Line.Found) := do
  match ← namesStart? code start with
  | none => .ok none
  | some start =>
    let inner ← sliceFrom code start
    let names ← words inner
    implementationOf? (names.map fun (i, w) => (start + i, w))

def declarationOf? (code : Text) : List (Nat × Text) → Except Fault (Option Line.Found)
  | [] => .ok none
  | (i, word) :: rest =>
    if Line.isModifier word then declarationOf? code rest
    else if word = "impl".toList then implementation? code (i + byteSize word)
    else if (Line.keywordKind? word).isNone then .ok none
    else match rest with
      | [] => .ok none
      | (j, name) :: more => do
        let gap ← slice code (i + byteSize word) j
        if gap.trim ≠ [] then .ok none
        else if Line.isModifier name then
          match more with
          | [] => .ok none
          | (k, later) :: _ => .ok (some (.named word later k))
        else .ok (some (.named word name j))

def declaration? (line : Text) : Except Fault (Option Line.Found) := do
  let code ← code line
  let found ← words code
  declarationOf? code found

/-- Reads the word at offset `i` behind a type's name. The offsets are in bytes, those of supertypes
counted from the start of the line. -/
def readWord (head : Text) (start : Nat) (h : Line.Heading) (i : Nat) (word : Text) :
    Except Fault Line.Heading := do
  let between ← slice head h.lastEnd i
  let depth := Line.bracketDepth h.depth between
  let lastEnd := i + byteSize word
  if word = "extends".toList || word = "implements".toList then
    .ok { h with lastEnd, depth, collecting := true }
  else
    let collecting := h.collecting ||
      (depth == 0 && between.contains ':' && !Text.includes [':', ':'] between)
    if collecting && depth == 0 && Line.isCapitalized word then
      .ok { lastEnd, depth, collecting, found := (start + i, word) :: h.found }
    else .ok { h with lastEnd, depth, collecting }

def supertypes (line : Text) (start : Nat) : Except Fault (List (Nat × Text)) := do
  let code ← code line
  match sliceFrom code start with
  | .error _ => .ok []
  | .ok tail =>
    let head ← sliceTo tail ((findChar? (fun c => c == '{' || c == '=') tail).getD (byteSize tail))
    let found ← words head
    let heading ← found.foldlM (fun (h : Line.Heading) (i, w) => readWord head start h i w)
      ⟨0, 0, false, []⟩
    .ok heading.found.reverse

/-- Whether a line that declares nothing opens a block. -/
def opensBlock (trimmed : Text) : Except Fault Bool := do
  let code ← code trimmed
  .ok (match code.trimEnd.getLast? with
    | some '{' | some ':' => true
    | _ => false)

/-! ### Columns -/

theorem column_bytesTo (line : Text) (i : Nat) :
    column line (line.bytesTo i) = .ok (Text.units (line.take i)) := by
  rw [column, Nat.min_eq_left (Text.bytesTo_le line i), sliceTo_bytesTo]
  rfl

theorem rangeOn_bytesTo (n : Nat) (line : Text) (i j : Nat) :
    rangeOn n line (line.bytesTo i) (line.bytesTo j) = .ok (Outline.rangeOn n line i j) := by
  rw [rangeOn, column_bytesTo, column_bytesTo]
  rfl

theorem indentSize_eq (line : Text) :
    indentSize line = .ok (line.bytesTo line.indentation.length) := by
  have hwhole := Text.indentation_append_trimStart line
  have hindent := Text.bytesTo_append_length line.indentation line.trimStart
  rw [hwhole] at hindent
  have hsize : byteSize line = byteSize line.indentation + byteSize line.trimStart := by
    rw [← Text.byteSize_append, hwhole]
  rw [indentSize, hsize, sub_eq (Nat.le_add_left _ _), Nat.add_sub_cancel, hindent]

/-! ### Comments -/

theorem code_eq (line : Text) : code line = .ok (Line.code line) := by
  rw [code, Line.code, find?_getD]
  generalize (Text.indexOf? ['/', '/'] line).getD line.length = slashes
  rcases findSign_cases '#' line with ⟨hnone, hall, -⟩ | ⟨s, u, rfl, hsign, -, hfound⟩
  · rw [hnone, hall, List.drop_length]
    exact sliceTo_bytesTo line slashes
  · rw [hfound, hsign, List.drop_left]
    dsimp only
    rw [sliceFrom_sign s u rfl, ok_bind, ← Text.bytesTo_append_length s ('#' :: u),
      Text.bytesTo_min]
    split <;> exact sliceTo_bytesTo _ _

/-! ### The names of an `impl` block -/

/-- Behind the first sign, the loop stops at the sign that closes it. -/
theorem closing?_charIndices (depth : Nat) (s t : Text) :
    (closing? (depth + 1) (charIndices (byteSize s) t)).map (· + 1)
      = (Line.closingAngle? (depth + 1) s.length t).map (bytesTo (s ++ t)) := by
  induction t generalizing depth s with
  | nil => rfl
  | cons c t ih =>
      have hrest := fun depth => ih depth (s ++ [c])
      simp only [Text.byteSize_append, Text.byteSize_cons, Text.byteSize_nil, Nat.add_zero,
        List.length_append, List.length_singleton, List.append_assoc, List.singleton_append]
        at hrest
      rw [charIndices, closing?, Line.closingAngle?]
      split
      · exact hrest (depth + 1)
      split
      · next hc =>
          subst hc
          cases depth with
          | zero =>
              rw [if_pos (by simp), if_pos (by simp), Option.map_some, Option.map_some,
                Text.bytesTo_add, Text.bytesTo_append_length, List.drop_left]
              rfl
          | succ depth =>
              rw [if_neg (by omega), if_neg (by omega)]
              have hinner := hrest depth
              simpa using hinner
      · exact hrest depth

theorem closing?_eq (t : Text) :
    (closing? 0 (charIndices 0 ('<' :: t))).map (· + 1)
      = (Line.closingAngle? 0 0 ('<' :: t)).map (bytesTo ('<' :: t)) :=
  closing?_charIndices 0 ['<'] t

theorem namesStart?_eq (code : Text) (k : Nat) :
    namesStart? code (code.bytesTo k) = .ok (some (code.bytesTo (Line.namesStart code k))) := by
  rw [namesStart?, sliceFrom_bytesTo, ok_bind, Line.namesStart]
  generalize hrest : code.drop k = rest
  dsimp only
  cases htrimmed : Text.trimStart rest with
  | nil => simp
  | cons c after =>
      by_cases hc : c = '<'
      · subst hc
        have hmem : '<' ∈ rest := by
          rw [← Text.indentation_append_trimStart rest, htrimmed]
          exact List.mem_append_cons_self
        rcases findSign_cases '<' rest with ⟨-, hall, -⟩ | ⟨s, u, rfl, hsign, -, hfound⟩
        · rw [← hall] at hmem
          simpa using List.all_eq_true.1 List.all_takeWhile '<' hmem
        · have hstart : code.bytesTo k + byteSize s = code.bytesTo (k + s.length) := by
            rw [Text.bytesTo_add, hrest, Text.bytesTo_append_length]
          have hinner : code.drop (k + s.length) = '<' :: u := by
            rw [← List.drop_drop, hrest, List.drop_left]
          rw [List.head?_cons, if_pos rfl, hfound]
          dsimp only
          rw [hstart, sliceFrom_bytesTo, hinner, ok_bind, hsign, List.drop_left]
          have hclose := closing?_eq u
          have hbehind := Text.bytesTo_add code (k + s.length)
          rw [hinner] at hbehind
          cases hfirst : closing? 0 (charIndices 0 ('<' :: u)) with
          | none =>
              rw [hfirst, Option.map_none, eq_comm, Option.map_eq_none_iff] at hclose
              rw [hclose]
              rfl
          | some i =>
              rw [hfirst, Option.map_some, eq_comm, Option.map_eq_some_iff] at hclose
              obtain ⟨n, hn, hi⟩ := hclose
              rw [hn, Option.map_some, Option.getD_some]
              change _ = Except.ok (some (code.bytesTo (k + s.length + n)))
              rw [hbehind, hi, Nat.add_assoc]
      · rw [if_neg (by simpa using hc)]
        split
        · next heq => exact absurd (List.cons.inj heq).1 hc
        · rfl

theorem findIdx?_cases {α : Type} (p : α → Bool) (xs : List α) :
    (xs.findIdx? p = none ∧ ∀ x ∈ xs, p x = false) ∨
      ∃ before x after, xs = before ++ x :: after ∧ (∀ y ∈ before, p y = false) ∧ p x = true ∧
        xs.findIdx? p = some before.length := by
  induction xs with
  | nil => exact .inl ⟨rfl, by simp⟩
  | cons x xs ih =>
      rw [List.findIdx?_cons]
      cases hx : p x with
      | true => exact .inr ⟨[], x, xs, rfl, by simp, hx, rfl⟩
      | false =>
          rcases ih with ⟨hnone, hxs⟩ | ⟨before, y, after, rfl, hbefore, hy, hfound⟩
          · exact .inl ⟨by rw [hnone]; rfl, List.forall_mem_cons.2 ⟨hx, hxs⟩⟩
          · exact .inr ⟨x :: before, y, after, rfl, List.forall_mem_cons.2 ⟨hx, hbefore⟩, hy,
              by rw [hfound]; rfl⟩

theorem initial_append {α : Type} (xs ys : List α) : initial (xs ++ ys) xs.length = .ok xs := by
  rw [initial, if_pos (by simp), List.take_left]

theorem findIdx?_atBytes (code : Text) (p : Text → Bool) (names : List (Nat × Text)) :
    (names.map (atBytes code)).findIdx? (p ·.2) = names.findIdx? (p ·.2) := by
  rw [List.findIdx?_map]
  rfl

theorem find?_atBytes (code : Text) (p : Text → Bool) (names : List (Nat × Text)) :
    (names.map (atBytes code)).find? (p ·.2) = (names.find? (p ·.2)).map (atBytes code) := by
  rw [List.find?_map]
  rfl

/-- Without `for`, the first capitalized word is meant, or else the first one. -/
theorem implementationOf?_plain (code : Text) {first : Nat × Text} {rest : List (Nat × Text)}
    (h : (first :: rest).findIdx? (·.2 = "for".toList) = none) :
    implementationOf? ((first :: rest).map (atBytes code))
      = .ok (some (Line.Found.atBytes code
          (let target := ((first :: rest).find? (Line.isCapitalized ·.2)).getD first
          .implementation ("impl ".toList ++ target.2) target.2 target.1 none))) := by
  have hfor := findIdx?_atBytes code (fun w => decide (w = "for".toList)) (first :: rest)
  rw [h] at hfor
  rw [implementationOf?, hfor, find?_atBytes]
  cases (first :: rest).find? (Line.isCapitalized ·.2) <;> rfl

/-- With `for`, the words next to it are the interface and the target. -/
theorem implementationOf?_for (code : Text) {before after : List (Nat × Text)} {sign : Nat × Text}
    (h : (before ++ sign :: after).findIdx? (·.2 = "for".toList) = some before.length)
    {first : Nat × Text} {rest : List (Nat × Text)}
    (hnames : before ++ sign :: after = first :: rest) :
    implementationOf? ((before ++ sign :: after).map (atBytes code))
      = .ok (after.head?.map fun target => Line.Found.atBytes code
          (let interface := (before.getLast?.map (·.2)).getD first.2
          .implementation ("impl ".toList ++ interface ++ " for ".toList ++ target.2) target.2
            target.1 (some interface))) := by
  have hfor := findIdx?_atBytes code (fun w => decide (w = "for".toList)) (before ++ sign :: after)
  have hinitial := initial_append (before.map (atBytes code)) ((sign :: after).map (atBytes code))
  have hlast : ((before.map (atBytes code)).getLast?).map (·.2) = before.getLast?.map (·.2) := by
    rw [List.getLast?_map, Option.map_map]
    rfl
  have hnext : ((before ++ sign :: after).map (atBytes code))[before.length + 1]?
      = after.head?.map (atBytes code) := by
    rw [List.getElem?_map, List.getElem?_append_right (Nat.le_add_right _ _),
      Nat.add_sub_cancel_left, List.getElem?_cons_succ, List.head?_eq_getElem?]
  rw [h] at hfor
  rw [← List.map_append, List.length_map] at hinitial
  rw [implementationOf?, hfor]
  dsimp only
  rw [hinitial, hnext, List.head?_map, hnames]
  cases after with
  | nil => rfl
  | cons target more =>
      dsimp only [List.head?_cons, Option.map_some]
      rw [ok_bind, hlast]
      rfl

theorem implementation?_eq (code : Text) (k : Nat) :
    implementation? code (code.bytesTo k)
      = .ok ((Line.implementation? code k).map (Line.Found.atBytes code)) := by
  rw [implementation?, namesStart?_eq, ok_bind, Line.implementation?]
  generalize Line.namesStart code k = start
  dsimp only
  rw [sliceFrom_bytesTo, ok_bind, words_eq, ok_bind]
  have hnames : ((Text.words (code.drop start)).map (atBytes (code.drop start))).map
      (fun (i, w) => (code.bytesTo start + i, w))
      = ((Text.words (code.drop start)).map fun (i, w) => (start + i, w)).map (atBytes code) := by
    simp [atBytes, Text.bytesTo_add]
  rw [hnames]
  generalize (Text.words (code.drop start)).map (fun (i, w) => (start + i, w)) = names
  rcases findIdx?_cases (fun (name : Nat × Text) => decide (name.2 = "for".toList)) names with
    ⟨hnone, hall⟩ | ⟨before, sign, after, rfl, hbefore, hsign, hfound⟩
  · have htake : names.takeWhile (fun (_, w) => w != "for".toList) = names :=
      List.takeWhile_eq_self_iff.2 fun name hname => by simpa using hall name hname
    rw [htake, List.drop_length]
    cases names with
    | nil => rfl
    | cons first rest => rw [implementationOf?_plain code hnone]; rfl
  · have htake : (before ++ sign :: after).takeWhile (fun (_, w) => w != "for".toList)
        = before := by
      rw [List.takeWhile_append_of_pos (by simpa using hbefore),
        List.takeWhile_cons_of_neg (by simpa using hsign), List.append_nil]
    obtain ⟨first, rest, hnames⟩ := List.exists_cons_of_ne_nil
      (List.append_ne_nil_of_right_ne_nil before (List.cons_ne_nil sign after))
    rw [htake, List.drop_left, implementationOf?_for code hfound hnames, hnames]
    cases after <;> rfl

/-! ### What a line declares -/

theorem trim_eq_nil_iff (t : Text) : t.trim = [] ↔ t.all isSpace = true := by
  rw [Text.trim, Text.trimEnd, Text.dropEndWhile, List.reverse_eq_nil_iff,
    List.dropWhile_eq_nil_iff, List.all_eq_true]
  constructor
  · intro htrimmed
    have hnot := List.head?_dropWhile_not isSpace t
    cases hdrop : t.dropWhile isSpace with
    | nil => exact List.dropWhile_eq_nil_iff.1 hdrop
    | cons c u =>
        rw [hdrop] at hnot
        have hc := htrimmed c (by rw [Text.trimStart, hdrop]; simp)
        rw [show isSpace c = false from hnot] at hc
        cases hc
  · intro hblank c hc
    exact hblank c ((List.dropWhile_sublist _).mem (List.mem_reverse.1 hc))

theorem declarationOf?_eq {code : Text} {found : List (Nat × Text)}
    (hwords : ∀ entry ∈ found, Text.IsWordAt code entry.1 entry.2)
    (horder : found.Pairwise fun a b => a.1 + a.2.length ≤ b.1) :
    declarationOf? code (found.map (atBytes code))
      = .ok ((Line.declarationOf? code found).map (Line.Found.atBytes code)) := by
  induction found with
  | nil => rfl
  | cons entry rest ih =>
      obtain ⟨i, word⟩ := entry
      obtain ⟨hword, hrest⟩ := List.forall_mem_cons.1 hwords
      obtain ⟨hbehind, hlater⟩ := List.pairwise_cons.1 horder
      rw [List.map_cons, declarationOf?.eq_def, Line.declarationOf?.eq_def]
      dsimp only [atBytes]
      rw [← Text.bytesTo_add_of_isPrefix hword.isPrefix]
      split
      · exact ih hrest hlater
      split
      · exact implementation?_eq code _
      split
      · rfl
      cases rest with
      | nil => rfl
      | cons next more =>
          obtain ⟨j, name⟩ := next
          have hgap : i + word.length ≤ j := hbehind (j, name) List.mem_cons_self
          simp only [List.map_cons, atBytes]
          rw [slice_bytesTo code hgap, ok_bind, List.drop_take]
          generalize (code.drop (i + word.length)).take (j - (i + word.length)) = gap
          simp only [ne_eq, trim_eq_nil_iff, Bool.not_eq_true', Bool.not_eq_true]
          split
          · rfl
          split
          · cases more <;> rfl
          · rfl

theorem declaration?_eq (line : Text) :
    declaration? line = .ok ((Line.declaration? line).map (Line.Found.atBytes line)) := by
  have hcode := declarationOf?_eq (fun _ hentry => Text.isWordAt_of_mem_words hentry)
    (Text.pairwise_words (Line.code line))
  rw [← Line.declaration?] at hcode
  rw [declaration?, code_eq, ok_bind, words_eq, ok_bind, hcode]
  cases hfound : Line.declaration? line with
  | none => rfl
  | some found =>
      rw [Option.map_some, Option.map_some, Line.Found.atBytes_of_isPrefix
        (Line.code_isPrefix line) (Line.standsOn_code hfound)]

theorem opensBlock_eq (trimmed : Text) : opensBlock trimmed = .ok (Line.opensBlock trimmed) := by
  rw [opensBlock, code_eq]
  rfl

/-! ### Supertypes -/

section

variable {head line : Text} {start : Nat} (hhead : head <+: line.drop start)

include hhead in
theorem readWord_eq {h : Line.Heading} {i : Nat} {word : Text} (hlast : h.lastEnd ≤ i)
    (hword : Text.IsWordAt head i word) :
    readWord head (line.bytesTo start) (h.atBytes head line) (head.bytesTo i) word
      = .ok ((h.read head start i word).atBytes head line) := by
  have hplace : line.bytesTo start + head.bytesTo i = line.bytesTo (start + i) := by
    rw [Text.bytesTo_add,
      Text.bytesTo_eq_of_isPrefix hhead (Nat.le_of_add_right_le hword.le_length)]
  rw [readWord]
  simp only [Line.Heading.atBytes]
  rw [slice_bytesTo head hlast, ok_bind, List.drop_take, hplace,
    ← Text.bytesTo_add_of_isPrefix hword.isPrefix, Line.Heading.read]
  dsimp only
  split
  · rfl
  · split
    · next hcapital => exact if_pos hcapital
    · next hother => exact if_neg hother

include hhead in
theorem foldlM_readWord {found : List (Nat × Text)} {h : Line.Heading}
    (hwords : ∀ entry ∈ found, Text.IsWordAt head entry.1 entry.2)
    (horder : found.Pairwise fun a b => a.1 + a.2.length ≤ b.1)
    (hlast : ∀ entry ∈ found, h.lastEnd ≤ entry.1) :
    (found.map (atBytes head)).foldlM
        (fun (h : Line.Heading) (i, w) => readWord head (line.bytesTo start) h i w)
        (h.atBytes head line)
      = .ok ((found.foldl (fun (h : Line.Heading) (i, w) => h.read head start i w) h).atBytes head
          line) := by
  induction found generalizing h with
  | nil => rfl
  | cons entry rest ih =>
      obtain ⟨i, word⟩ := entry
      obtain ⟨hbehind, hlater⟩ := List.pairwise_cons.1 horder
      rw [List.map_cons, List.foldlM_cons, List.foldl_cons]
      dsimp only [atBytes]
      rw [readWord_eq hhead (hlast _ List.mem_cons_self) (hwords _ List.mem_cons_self), ok_bind]
      refine ih (List.forall_mem_cons.1 hwords).2 hlater fun entry hentry => ?_
      rw [Line.Heading.lastEnd_read]
      exact hbehind entry hentry

end

theorem supertypes_eq {line : Text} {k : Nat} (hk : k ≤ (Line.code line).length) :
    supertypes line (line.bytesTo k) = .ok ((Line.supertypes line k).map (atBytes line)) := by
  have hcode := Line.code_isPrefix line
  have hsign : (fun c => c == '{' || c == '=') = fun c : Char => !(c != '{' && c != '=') := by
    funext c
    cases hc : c == '{' <;> cases hc' : c == '=' <;> simp [bne, hc, hc']
  rw [supertypes, code_eq, ok_bind, Text.bytesTo_eq_of_isPrefix hcode hk, sliceFrom_bytesTo]
  dsimp only
  rw [hsign, findChar?_getD, sliceTo_of_isPrefix (List.takeWhile_prefix _), ok_bind, words_eq,
    ok_bind, ← Text.bytesTo_eq_of_isPrefix hcode hk, Line.supertypes]
  have hread := foldlM_readWord (h := ⟨0, 0, false, []⟩) (Line.head_isPrefix line k)
    (fun _ hentry => Text.isWordAt_of_mem_words hentry) (Text.pairwise_words _)
    fun entry _ => Nat.zero_le entry.1
  rw [Line.Heading.atBytes, List.map_nil, Text.bytesTo_zero] at hread
  rw [hread, ok_bind, List.map_reverse]
  rfl

end Sliced

end LanguageServer
