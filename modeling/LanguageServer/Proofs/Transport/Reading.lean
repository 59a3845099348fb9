import LanguageServer.Proofs.Text.Utf8
import LanguageServer.Protocol.Framing

/-!
# Reading a stream of messages

Whoever reads a message looks at no byte behind it: the line that ends at the first line feed, the
header that ends at the first empty line and the body of the length that is told are the same
whatever follows (`readLine_append`, `readHeader_append`, `read_append`). So messages that are read
back one by one are also read back from a stream, up to the first `exit`. A message is read back if
its JSON is, as the header that is written tells the length of the body (`readHeader_header`).
-/

namespace LanguageServer

namespace Utf8

/-! ### The bytes of a line -/

theorem encode_append (s t : Text) : encode (s ++ t) = encode s ++ encode t :=
  List.flatMap_append

theorem decode?_encode (t : Text) : decode? (encode t) = some t := by
  rw [decode?, decodeLossy_encode]
  exact if_pos rfl

/-- The bytes of longer characters are above those of a line feed. -/
theorem eq_of_feed_mem {c : Char} (h : 0x0A ∈ encodeChar c) : c = '\n' := by
  have hval : c.val.toNat = c.toNat := rfl
  have hfeed (n : Nat) (hn : n < 256) (heq : 0x0A = UInt8.ofNat n) : n = 10 := by
    rw [← toNat_ofNat hn, ← heq]
    rfl
  rw [encodeChar, String.utf8EncodeChar, hval] at h
  by_cases hascii : c.toNat ≤ 0x7F
  · rw [if_pos hascii, List.mem_singleton] at h
    have hn := hfeed c.toNat (by omega) h
    rw [← Char.ofNat_toNat c, hn]
  · -- All bytes of a character that is not ASCII are at least 0x80.
    simp only [if_neg hascii] at h
    split_ifs at h <;> simp only [List.mem_cons, List.not_mem_nil, or_false] at h
    · rcases h with h | h <;> have := hfeed _ (by omega) h <;> omega
    · rcases h with h | h | h <;> have := hfeed _ (by omega) h <;> omega
    · rcases h with h | h | h | h <;> have := hfeed _ (by omega) h <;> omega

theorem feed_not_mem_encode {t : Text} (h : '\n' ∉ t) : 0x0A ∉ encode t := by
  intro hmem
  obtain ⟨c, hc, hbyte⟩ := List.mem_flatMap.1 hmem
  exact h (eq_of_feed_mem hbyte ▸ hc)

end Utf8

namespace Framing

variable {bytes rest : Bytes}

/-! ### Nothing behind a message is looked at -/

theorem readLine_of_not_mem (h : 0x0A ∉ bytes) :
    readLine bytes = if bytes.isEmpty then .ok none else .error .unfinishedLine := by
  have hall : ∀ b ∈ bytes, decide (b ≠ 0x0A) = true := fun b hb =>
    decide_eq_true (ne_of_mem_of_not_mem hb h)
  have hdrop : (bytes ++ []).dropWhile (· ≠ 0x0A) = ([] : Bytes).dropWhile (· ≠ 0x0A) :=
    List.dropWhile_append_of_pos hall
  rw [List.append_nil, List.dropWhile_nil] at hdrop
  rw [readLine, hdrop]

theorem readLine_of_feed {front : Bytes} (h : 0x0A ∉ front) (rest : Bytes) :
    readLine (front ++ 0x0A :: rest) =
      match Utf8.decode? front with
      | none => .error .notText
      | some line =>
        if line.getLast? = some '\r' then .ok (some (line.dropLast, rest))
        else .error .brokenLine := by
  have hall : ∀ b ∈ front, decide (b ≠ 0x0A) = true := fun b hb =>
    decide_eq_true (ne_of_mem_of_not_mem hb h)
  have hdrop : (front ++ 0x0A :: rest).dropWhile (· ≠ 0x0A) = 0x0A :: rest := by
    rw [List.dropWhile_append_of_pos hall, List.dropWhile_cons_of_neg (by decide)]
  have htake : (front ++ 0x0A :: rest).takeWhile (· ≠ 0x0A) = front := by
    rw [List.takeWhile_append_of_pos hall, List.takeWhile_cons_of_neg (by decide),
      List.append_nil]
  cases htext : Utf8.decode? front <;> simp only [readLine, hdrop, htake, htext]

/-- A line ends at the first line feed, with a carriage return before it. -/
theorem readLine_eq_some_iff {line : Text} :
    readLine bytes = .ok (some (line, rest)) ↔
      ∃ front, bytes = front ++ 0x0A :: rest ∧ 0x0A ∉ front ∧
        Utf8.decode? front = some (line ++ ['\r']) := by
  constructor
  · intro h
    by_cases hmem : 0x0A ∈ bytes
    · obtain ⟨front, behind, rfl, hfront⟩ := List.eq_append_cons_of_mem hmem
      rw [readLine_of_feed hfront] at h
      split at h
      · cases h
      · next text htext =>
          split at h
          · next hlast =>
              cases h
              obtain ⟨init, rfl⟩ := List.getLast?_eq_some_iff.1 hlast
              rw [List.dropLast_concat]
              exact ⟨front, rfl, hfront, htext⟩
          · cases h
    · rw [readLine_of_not_mem hmem] at h
      split at h <;> cases h
  · rintro ⟨front, rfl, hfront, htext⟩
    rw [readLine_of_feed hfront, htext]
    dsimp only
    rw [if_pos List.getLast?_concat, List.dropLast_concat]

theorem readLine_append {line : Text} (h : readLine bytes = .ok (some (line, rest)))
    (more : Bytes) : readLine (bytes ++ more) = .ok (some (line, rest ++ more)) := by
  obtain ⟨front, rfl, hfront, htext⟩ := readLine_eq_some_iff.1 h
  exact readLine_eq_some_iff.2 ⟨front, List.append_assoc .., hfront, htext⟩

theorem readHeader_append {size : Option Nat} {n : Nat}
    (h : readHeader size bytes = .ok (some (n, rest))) (more : Bytes) :
    readHeader size (bytes ++ more) = .ok (some (n, rest ++ more)) := by
  fun_induction readHeader size bytes with
  | case1 => cases h
  | case2 => cases h
  | case3 bytes behind hline =>
      cases h
      rw [readHeader, readLine_append hline more]
  | case4 => cases h
  | case5 => cases h
  | case6 size bytes line behind hline hread next htake ih =>
      obtain ⟨c, line, rfl⟩ := List.exists_cons_of_ne_nil hline
      rw [readHeader, readLine_append hread more]
      dsimp only
      rw [htake]
      exact ih h

theorem read_append {m : Message} (h : read bytes = .ok (some (m, rest))) (more : Bytes) :
    read (bytes ++ more) = .ok (some (m, rest ++ more)) := by
  unfold read at h
  split at h
  · cases h
  · cases h
  · next size behind hheader =>
      split at h
      · cases h
      · next hsize =>
          cases hbody : readBody (behind.take size) with
          | error e =>
              rw [hbody] at h
              cases h
          | ok body =>
              rw [hbody] at h
              cases h
              have hle : size ≤ behind.length := Nat.le_of_not_lt hsize
              rw [read, readHeader_append hheader more]
              dsimp only
              rw [if_neg (by rw [List.length_append]; omega), List.take_append_of_le_length hle,
                hbody, List.drop_append_of_le_length hle]
              rfl

/-! ### The header of a message -/

theorem size?_digits {n : Nat} (h : n ≤ 18446744073709551615) :
    size? (Nat.toDigits 10 n) = some n := by
  have hdigit : ∀ c ∈ Nat.toDigits 10 n, c.isDigit = true := fun c hc =>
    Nat.isDigit_of_mem_toDigits (by decide) (by decide) hc
  have hsign : Text.dropHead? (Nat.toDigits 10 n) ['+'] = none := by
    obtain ⟨c, rest, heq⟩ := List.exists_cons_of_ne_nil (Nat.toDigits_ne_nil (n := n) (b := 10))
    rw [heq] at hdigit ⊢
    refine if_neg ?_
    rintro rfl
    exact absurd (hdigit '+' List.mem_cons_self) (by decide)
  have hvalue : Json.digitsValue (Nat.toDigits 10 n) = n := by
    refine Eq.trans ?_ (Nat.ofDigitChars_ten_toDigits (n := n))
    rw [Nat.ofDigitChars_eq_foldl, Json.digitsValue]
    simp only [Nat.mul_comm, Char.reduceToNat]
  rw [size?, hsign, Option.getD_none]
  dsimp only
  rw [hvalue, if_pos h, if_neg]
  simpa [Nat.toDigits_ne_nil] using hdigit

/-- The line of a header that tells the length of a body. -/
def lengthLine (n : Nat) : Text := "Content-Length: ".toList ++ Nat.toDigits 10 n

theorem takeLine_lengthLine {n : Nat} (h : n ≤ 18446744073709551615) :
    takeLine none (lengthLine n) = .ok (some n) := by
  have hindex : Text.indexOf? separator (lengthLine n) = some 14 := rfl
  have hname : ((lengthLine n).take 14).map Char.toLower = "content-length".toList := rfl
  have hvalue : (lengthLine n).drop (14 + separator.length) = Nat.toDigits 10 n := rfl
  rw [takeLine, hindex]
  dsimp only
  rw [if_pos hname, hvalue, size?_digits h]

theorem newline_not_mem_lengthLine (n : Nat) : '\n' ∉ lengthLine n := by
  intro hmem
  rcases List.mem_append.1 hmem with hmem | hmem
  · exact absurd hmem (by decide)
  · exact absurd (Nat.isDigit_of_mem_toDigits (by decide) (by decide) hmem) (by decide)

/-- A header is the line with the length and an empty one. -/
theorem encode_header (n : Nat) :
    Utf8.encode (header n) =
      Utf8.encode (lengthLine n ++ ['\r']) ++ 0x0A :: (Utf8.encode ['\r'] ++ [0x0A]) := by
  have hdigits : (toString n).toList = Nat.toDigits 10 n := Nat.toList_repr
  have hheader : header n = lengthLine n ++ "\r\n\r\n".toList :=
    congrArg (fun digits => "Content-Length: ".toList ++ digits ++ "\r\n\r\n".toList) hdigits
  have hend : Utf8.encode "\r\n\r\n".toList
      = Utf8.encode ['\r'] ++ 0x0A :: (Utf8.encode ['\r'] ++ [0x0A]) := rfl
  rw [hheader, Utf8.encode_append, hend, Utf8.encode_append, List.append_assoc]

theorem readLine_encode {line : Text} (h : '\n' ∉ line) (rest : Bytes) :
    readLine (Utf8.encode (line ++ ['\r']) ++ 0x0A :: rest) = .ok (some (line, rest)) := by
  refine readLine_eq_some_iff.2 ⟨_, rfl, Utf8.feed_not_mem_encode ?_, Utf8.decode?_encode _⟩
  simpa using h

theorem readHeader_header {n : Nat} (h : n ≤ 18446744073709551615) (content : Bytes) :
    readHeader none (Utf8.encode (header n) ++ content) = .ok (some (n, content)) := by
  have hfirst := readLine_encode (newline_not_mem_lengthLine n)
    (Utf8.encode ['\r'] ++ 0x0A :: content)
  have hempty : readLine (Utf8.encode ['\r'] ++ 0x0A :: content) = .ok (some ([], content)) :=
    readLine_encode List.not_mem_nil content
  have hbytes : Utf8.encode (header n) ++ content = Utf8.encode (lengthLine n ++ ['\r'])
      ++ 0x0A :: (Utf8.encode ['\r'] ++ 0x0A :: content) := by
    rw [encode_header, List.append_assoc, List.cons_append, List.append_assoc, List.cons_append,
      List.nil_append]
  have hname : lengthLine n = 'C' :: ("ontent-Length: ".toList ++ Nat.toDigits 10 n) := rfl
  rw [hbytes, readHeader, hfirst, hname]
  dsimp only
  rw [← hname, takeLine_lengthLine h]
  dsimp only
  rw [readHeader, hempty]

/-- A message is read back if its JSON is and the header can tell its length. -/
theorem read_encode {m : Message} (hlength : (Utf8.encode (body m)).length ≤ 18446744073709551615)
    (hbody : (Json.parse? depth (body m)).bind Message.ofJson? = some m) :
    read (encode m) = .ok (some (m, [])) := by
  rw [read, encode, readHeader_header hlength]
  dsimp only
  rw [if_neg (Nat.lt_irrefl _), List.take_length, List.drop_length, readBody,
    Utf8.decode?_encode]
  dsimp only
  rw [hbody]
  rfl

/-! ### Streams -/

theorem encodeAll_append (ms ms' : List Message) :
    encodeAll (ms ++ ms') = encodeAll ms ++ encodeAll ms' := List.flatMap_append

theorem encodeAll_singleton (m : Message) : encodeAll [m] = encode m := List.flatMap_singleton ..

/-- A message is passed on before anything is read behind it, and nothing is read behind `exit`. -/
theorem readAll_append {m : Message} (h : read bytes = .ok (some (m, []))) (more : Bytes) :
    readAll (bytes ++ more) =
      if isExit m then ([m], none) else (m :: (readAll more).1, (readAll more).2) := by
  have hread := read_append h more
  rw [readAll]
  split
  · next heq => cases hread.symm.trans heq
  · next heq => cases hread.symm.trans heq
  · next heq =>
      cases hread.symm.trans heq
      rfl

/-- Messages that are not `exit` are passed on, and reading goes on behind them. -/
theorem readAll_encodeAll_append {ms : List Message}
    (hback : ∀ m ∈ ms, read (encode m) = .ok (some (m, [])))
    (hgoes : ∀ m ∈ ms, isExit m = false) (more : Bytes) :
    readAll (encodeAll ms ++ more) = (ms ++ (readAll more).1, (readAll more).2) := by
  induction ms with
  | nil => rfl
  | cons m ms ih =>
      obtain ⟨hm, hback⟩ := List.forall_mem_cons.1 hback
      obtain ⟨hexit, hgoes⟩ := List.forall_mem_cons.1 hgoes
      rw [encodeAll, List.flatMap_cons, List.append_assoc, readAll_append hm, hexit, ← encodeAll,
        ih hback hgoes]
      rfl

theorem readAll_nil : readAll [] = ([], none) := by
  have hread : Framing.read [] = .ok none := by
    rw [Framing.read, readHeader]
    rfl
  rw [readAll]
  split
  · next heq => cases hread.symm.trans heq
  · rfl
  · next heq => cases hread.symm.trans heq

theorem readAll_encodeAll {ms : List Message}
    (hback : ∀ m ∈ ms, read (encode m) = .ok (some (m, [])))
    (hgoes : ∀ m ∈ ms, isExit m = false) : readAll (encodeAll ms) = (ms, none) := by
  have hall := readAll_encodeAll_append hback hgoes []
  rwa [readAll_nil, List.append_nil, List.append_nil] at hall

theorem readAll_through_exit {ms : List Message} {exit : Message}
    (hback : ∀ m ∈ ms ++ [exit], read (encode m) = .ok (some (m, [])))
    (hgoes : ∀ m ∈ ms, isExit m = false) (hexit : isExit exit = true) (more : Bytes) :
    readAll (encodeAll (ms ++ [exit]) ++ more) = (ms ++ [exit], none) := by
  obtain ⟨hms, hback⟩ := List.forall_mem_append.1 hback
  have hlast := readAll_append (hback exit List.mem_cons_self) more
  rw [hexit, if_pos rfl] at hlast
  rw [encodeAll_append, encodeAll_singleton, List.append_assoc,
    readAll_encodeAll_append hms hgoes, hlast]

end Framing

end LanguageServer
