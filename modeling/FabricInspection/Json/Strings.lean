import Mathlib

namespace FabricInspection.CJson

abbrev Bytes := List UInt8

def ascii (s : String) : Bytes := s.toList.map Char.toUInt8

-- What strlen and strcmp see of a buffer.
def cString (s : Bytes) : Bytes := s.takeWhile (· ≠ 0)

-- The letter of a one character escape sequence.
def escapeLetter : UInt8 → Option UInt8
  | 0x5C => some 0x5C
  | 0x22 => some 0x22
  | 0x08 => some 0x62
  | 0x0C => some 0x66
  | 0x0A => some 0x6E
  | 0x0D => some 0x72
  | 0x09 => some 0x74
  | _ => none

def escapeCharacters (c : UInt8) : Nat :=
  if (escapeLetter c).isSome then 1 else if c < 32 then 5 else 0

def hexDigit (n : UInt8) : UInt8 := if n < 10 then 48 + n else 87 + n

-- sprintf "u%04x".
def codepointEscape (c : UInt8) : Bytes := [0x75, 48, 48, hexDigit (c / 16), hexDigit (c % 16)]

def escape (c : UInt8) : Bytes :=
  if 31 < c ∧ c ≠ 0x22 ∧ c ≠ 0x5C then [c]
  else
    0x5C :: match escapeLetter c with
      | some letter => [letter]
      | none => codepointEscape c

def printStringPtr (input : Bytes) : Bytes :=
  let escapes := (input.map escapeCharacters).sum
  let outputLength := input.length + escapes
  let output := if escapes = 0 then input else input.flatMap escape
  -- The closing quote is written behind the bytes that were counted first.
  0x22 :: (output.take outputLength ++ [0x22])

def hexValue (c : UInt8) : Option Nat :=
  if 48 ≤ c ∧ c ≤ 57 then some (c.toNat - 48)
  else if 65 ≤ c ∧ c ≤ 70 then some (10 + c.toNat - 65)
  else if 97 ≤ c ∧ c ≤ 102 then some (10 + c.toNat - 97)
  else none

-- Any byte that is not a hexadecimal digit makes the number 0.
def parseHex4 (input : Bytes) : Nat :=
  ((input.take 4).foldlM (fun h c => (hexValue c).map (h <<< 4 + ·)) 0).getD 0

def encodeUtf8 : Nat → Nat → Nat → Bytes → Bytes
  | 0, codepoint, firstByteMark, output =>
    UInt8.ofNat ((codepoint ||| firstByteMark) &&& 0xFF) :: output
  | position + 1, codepoint, firstByteMark, output =>
    encodeUtf8 position (codepoint >>> 6) firstByteMark
      (UInt8.ofNat ((codepoint ||| 0x80) &&& 0xBF) :: output)

def utf8 (codepoint : Nat) : Option Bytes :=
  if codepoint < 0x80 then some [UInt8.ofNat (codepoint &&& 0x7F)]
  else if codepoint < 0x800 then some (encodeUtf8 1 codepoint 0xC0 [])
  else if codepoint < 0x10000 then some (encodeUtf8 2 codepoint 0xE0 [])
  else if codepoint ≤ 0x10FFFF then some (encodeUtf8 3 codepoint 0xF0 [])
  else none

-- The bytes for the literal and the length of the literal.
def utf16LiteralToUtf8 (input : Bytes) : Option (Bytes × Nat) :=
  if input.length < 6 then none
  else
    let firstCode := parseHex4 (input.drop 2)
    if 0xDC00 ≤ firstCode ∧ firstCode ≤ 0xDFFF then none
    else if 0xD800 ≤ firstCode ∧ firstCode ≤ 0xDBFF then
      let second := input.drop 6
      if second.length < 6 ∨ second.take 2 ≠ [0x5C, 0x75] then none
      else
        let secondCode := parseHex4 (second.drop 2)
        if secondCode < 0xDC00 ∨ 0xDFFF < secondCode then none
        else
          (utf8 (0x10000 + (((firstCode &&& 0x3FF) <<< 10) ||| (secondCode &&& 0x3FF)))).map
            fun bytes => (bytes, 12)
    else (utf8 firstCode).map fun bytes => (bytes, 6)

-- `input` runs from a backslash to the closing quote, which is what a last backslash escapes.
def escapeSequence (input : Bytes) : Option (Bytes × Nat) :=
  match input.getD 1 0x22 with
  | 0x62 => some ([0x08], 2)
  | 0x66 => some ([0x0C], 2)
  | 0x6E => some ([0x0A], 2)
  | 0x72 => some ([0x0D], 2)
  | 0x74 => some ([0x09], 2)
  | 0x22 => some ([0x22], 2)
  | 0x5C => some ([0x5C], 2)
  | 0x2F => some ([0x2F], 2)
  | 0x75 => utf16LiteralToUtf8 input
  | _ => none

-- The second loop of parse_string; `skip` bytes belong to the last sequence still.
def unescape : Nat → Bytes → Option Bytes
  | _, [] => some []
  | skip + 1, _ :: input => unescape skip input
  | 0, c :: input =>
    if c ≠ 0x5C then (unescape 0 input).map (c :: ·)
    else
      (escapeSequence (c :: input)).bind fun sequence =>
        (unescape (sequence.2 - 1) input).map (sequence.1 ++ ·)

-- The first loop: the bytes before the closing quote, and those behind it.
def scanString : Bytes → Option (Bytes × Bytes)
  | [] => none
  | c :: input =>
    if c = 0x22 then some ([], input)
    else if c = 0x5C then
      match input with
      | [] => none
      | d :: input => (scanString input).map fun r => (c :: d :: r.1, r.2)
    else (scanString input).map fun r => (c :: r.1, r.2)

def parseString : Bytes → Option (Bytes × Bytes)
  | [] => none
  | c :: input =>
    if c ≠ 0x22 then none
    else
      (scanString input).bind fun r =>
        (unescape 0 r.1).map fun output => (cString output, r.2)

theorem forall_uint8 {P : UInt8 → Prop} (h : ∀ n < 256, P (UInt8.ofNat n)) (c : UInt8) : P c := by
  rw [← UInt8.ofNat_toNat (x := c)]
  exact h _ c.toNat_lt

set_option maxRecDepth 2048 in
theorem length_escape (c : UInt8) : (escape c).length = 1 + escapeCharacters c := by
  revert c
  exact forall_uint8 (by decide)

theorem length_flatMap_escape (input : Bytes) :
    (input.flatMap escape).length = input.length + (input.map escapeCharacters).sum := by
  induction input with
  | nil => rfl
  | cons c input ih =>
    rw [List.flatMap_cons, List.length_append, length_escape, ih, List.length_cons, List.map_cons,
      List.sum_cons]
    omega

set_option maxRecDepth 2048 in
theorem escape_plain (c : UInt8) : escapeCharacters c = 0 → escape c = [c] := by
  revert c
  exact forall_uint8 (by decide)

-- The short cut for a string that needs no escapes prints what the loop would print.
theorem printStringPtr_eq (input : Bytes) :
    printStringPtr input = 0x22 :: (input.flatMap escape ++ [0x22]) := by
  rw [printStringPtr]
  split
  · rename_i h
    have hplain : input.flatMap escape = input := by
      rw [List.sum_eq_zero_iff_forall_eq_nat, List.forall_mem_map] at h
      rw [List.flatMap_congr fun c hc => escape_plain c (h c hc), List.flatMap_singleton']
    rw [hplain, h, Nat.add_zero, List.take_length]
  · rw [← length_flatMap_escape, List.take_length]

theorem escape_cases (c : UInt8) :
    (escape c = [c] ∧ c ≠ 0x22 ∧ c ≠ 0x5C) ∨
      (∃ letter, escapeLetter c = some letter ∧ escape c = [0x5C, letter]) ∨
      (c < 32 ∧ escape c = 0x5C :: codepointEscape c) := by
  rw [escape]
  split
  · rename_i h
    exact Or.inl ⟨rfl, h.2⟩
  · rename_i h
    cases hl : escapeLetter c with
    | some letter => exact Or.inr (Or.inl ⟨letter, rfl, rfl⟩)
    | none =>
      refine Or.inr (Or.inr ⟨?_, rfl⟩)
      by_contra hlt
      have h22 : c ≠ 0x22 := fun hc => by simp [hc, escapeLetter] at hl
      have h5C : c ≠ 0x5C := fun hc => by simp [hc, escapeLetter] at hl
      refine h ⟨?_, h22, h5C⟩
      rw [UInt8.lt_iff_toNat_lt] at hlt ⊢
      exact Nat.lt_of_lt_of_le (by decide : (31 : UInt8).toNat < (32 : UInt8).toNat) (Nat.le_of_not_lt hlt)

theorem escapeSequence_letter {c letter : UInt8} (h : escapeLetter c = some letter)
    (rest : Bytes) : escapeSequence (0x5C :: letter :: rest) = some ([c], 2) := by
  unfold escapeLetter at h
  split at h <;> cases h <;> rfl

set_option maxRecDepth 2048 in
theorem parseHex4_codepointEscape (c : UInt8) :
    parseHex4 [48, 48, hexDigit (c / 16), hexDigit (c % 16)] = c.toNat := by
  revert c
  exact forall_uint8 (by decide)

theorem escapeSequence_codepoint {c : UInt8} (h : c < 32) (rest : Bytes) :
    escapeSequence (0x5C :: (codepointEscape c ++ rest)) = some ([c], 6) := by
  have hlt : c.toNat < 32 := UInt8.lt_iff_toNat_lt.mp h
  have hcode : parseHex4 ((0x5C :: (codepointEscape c ++ rest)).drop 2) = c.toNat :=
    parseHex4_codepointEscape c
  have hbytes : utf8 c.toNat = some [c] := by
    rw [utf8, if_pos (by omega), Nat.and_two_pow_sub_one_of_lt_two_pow (n := 7) (by omega), UInt8.ofNat_toNat]
  have hliteral : utf16LiteralToUtf8 (0x5C :: (codepointEscape c ++ rest)) = some ([c], 6) := by
    rw [utf16LiteralToUtf8, hcode, if_neg (by simp [codepointEscape]), if_neg (by omega),
      if_neg (by omega), hbytes]
    rfl
  rw [← hliteral]
  rfl

theorem unescape_skip (sequence rest : Bytes) :
    unescape sequence.length (sequence ++ rest) = unescape 0 rest := by
  induction sequence with
  | nil => rfl
  | cons c sequence ih => exact ih

theorem unescape_sequence (sequence rest : Bytes) {output : Bytes}
    (h : escapeSequence (0x5C :: (sequence ++ rest)) = some (output, sequence.length + 1)) :
    unescape 0 (0x5C :: (sequence ++ rest)) = (unescape 0 rest).map (output ++ ·) := by
  rw [unescape, if_neg (by simp), h, Option.bind_some, Nat.add_sub_cancel, unescape_skip]

theorem unescape_escape (c : UInt8) (rest : Bytes) :
    unescape 0 (escape c ++ rest) = (unescape 0 rest).map (c :: ·) := by
  obtain ⟨he, -, hc⟩ | ⟨letter, hl, he⟩ | ⟨hlt, he⟩ := escape_cases c
  · rw [he, List.singleton_append, unescape, if_pos hc]
  · rw [he]
    exact unescape_sequence [letter] rest (escapeSequence_letter hl rest)
  · rw [he]
    exact unescape_sequence _ rest (escapeSequence_codepoint hlt rest)

theorem unescape_flatMap_escape (input : Bytes) :
    unescape 0 (input.flatMap escape) = some input := by
  induction input with
  | nil => rfl
  | cons c input ih => rw [List.flatMap_cons, unescape_escape, ih, Option.map_some]

theorem scanString_plain {c : UInt8} (h : c ≠ 0x22 ∧ c ≠ 0x5C) (rest : Bytes) :
    scanString (c :: rest) = (scanString rest).map fun r => (c :: r.1, r.2) := by
  rw [scanString.eq_def]
  dsimp only
  rw [if_neg h.1, if_neg h.2]

theorem scanString_escaped (c : UInt8) (rest : Bytes) :
    scanString (0x5C :: c :: rest) = (scanString rest).map fun r => (0x5C :: c :: r.1, r.2) := by
  rw [scanString, if_neg (by decide), if_pos rfl]

set_option maxRecDepth 2048 in
theorem hexDigit_plain (c : UInt8) :
    (hexDigit (c / 16) ≠ 0x22 ∧ hexDigit (c / 16) ≠ 0x5C) ∧
      (hexDigit (c % 16) ≠ 0x22 ∧ hexDigit (c % 16) ≠ 0x5C) := by
  revert c
  exact forall_uint8 (by decide)

theorem scanString_escape (c : UInt8) (rest : Bytes) :
    scanString (escape c ++ rest) = (scanString rest).map fun r => (escape c ++ r.1, r.2) := by
  obtain ⟨he, hc⟩ | ⟨letter, -, he⟩ | ⟨-, he⟩ := escape_cases c
  · rw [he]
    exact scanString_plain hc rest
  · rw [he]
    exact scanString_escaped letter rest
  · have hzero : (48 : UInt8) ≠ 0x22 ∧ (48 : UInt8) ≠ 0x5C := by decide
    obtain ⟨hhigh, hlow⟩ := hexDigit_plain c
    rw [he, codepointEscape]
    simp only [List.cons_append, List.nil_append]
    rw [scanString_escaped, scanString_plain hzero, scanString_plain hzero, scanString_plain hhigh,
      scanString_plain hlow]
    simp only [Option.map_map]
    rfl

theorem scanString_flatMap_escape (input rest : Bytes) :
    scanString (input.flatMap escape ++ 0x22 :: rest) = some (input.flatMap escape, rest) := by
  induction input with
  | nil =>
    rw [List.flatMap_nil, List.nil_append, scanString.eq_def]
    rfl
  | cons c input ih =>
    rw [List.flatMap_cons, List.append_assoc, scanString_escape, ih]
    rfl

theorem cString_eq {s : Bytes} (h : 0 ∉ s) : cString s = s :=
  List.takeWhile_eq_self_iff.mpr fun _ hc => decide_eq_true (ne_of_mem_of_not_mem hc h)

theorem parseString_printStringPtr {input : Bytes} (h : 0 ∉ input) (rest : Bytes) :
    parseString (printStringPtr input ++ rest) = some (input, rest) := by
  rw [printStringPtr_eq, List.cons_append, List.append_assoc, List.singleton_append, parseString,
    if_neg (by simp), scanString_flatMap_escape, Option.bind_some, unescape_flatMap_escape,
    Option.map_some, cString_eq h]

end FabricInspection.CJson
