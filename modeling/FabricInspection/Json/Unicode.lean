import FabricInspection.Json.Strings

namespace FabricInspection.CJson

-- Four hexadecimal digits, in either case.
def CodeUnit (digits : Bytes) (n : Nat) : Prop :=
  ∃ a b c d, digits.map hexValue = [some a, some b, some c, some d] ∧
    n = ((a * 16 + b) * 16 + c) * 16 + d

def shortEscapes : List (UInt8 × UInt8) :=
  [(0x22, 0x22), (0x5C, 0x5C), (0x2F, 0x2F), (0x62, 0x08), (0x66, 0x0C), (0x6E, 0x0A), (0x72, 0x0D),
    (0x74, 0x09)]

-- The ways to write a character inside a JSON string.
inductive Spelled : Char → Bytes → Prop
  | plain {c : Char} (h : 0x20 ≤ c.toNat) (hquote : c.toNat ≠ 0x22) (hescape : c.toNat ≠ 0x5C) :
      Spelled c (String.utf8EncodeChar c)
  | short {letter value : UInt8} (h : (letter, value) ∈ shortEscapes) :
      Spelled (Char.ofNat value.toNat) [0x5C, letter]
  | unit {c : Char} {digits : Bytes} (h : CodeUnit digits c.toNat) :
      Spelled c (0x5C :: 0x75 :: digits)
  | pair {c : Char} {high low : Bytes} (hc : 0x10000 ≤ c.toNat)
      (hhigh : CodeUnit high (0xD800 + (c.toNat - 0x10000) / 0x400))
      (hlow : CodeUnit low (0xDC00 + (c.toNat - 0x10000) % 0x400)) :
      Spelled c (0x5C :: 0x75 :: (high ++ 0x5C :: 0x75 :: low))

set_option maxRecDepth 2048 in
theorem continuationByte (n : Nat) : (n ||| 0x80) &&& 0xBF = n % 64 + 128 := by
  have hsmall : ∀ m < 256, (m ||| 0x80) &&& 0xBF = m % 64 + 128 := by decide
  have hmod : ((n ||| 0x80) &&& 0xBF) % 2 ^ 8 = ((n % 2 ^ 8 ||| 0x80) &&& 0xBF) % 2 ^ 8 := by
    rw [Nat.and_mod_two_pow, Nat.or_mod_two_pow, Nat.and_mod_two_pow, Nat.or_mod_two_pow, Nat.mod_mod]
  have hle (m : Nat) : (m ||| 0x80) &&& 0xBF < 2 ^ 8 :=
    Nat.lt_of_le_of_lt Nat.and_le_right (by decide)
  have hn : n % 2 ^ 8 < 256 := Nat.mod_lt n (by decide)
  rw [Nat.mod_eq_of_lt (hle n), Nat.mod_eq_of_lt (hle _), hsmall (n % 2 ^ 8) hn] at hmod
  omega

theorem firstBytes : (∀ m < 32, (m ||| 0xC0) &&& 0xFF = m + 192) ∧
    (∀ m < 16, (m ||| 0xE0) &&& 0xFF = m + 224) ∧ ∀ m < 8, (m ||| 0xF0) &&& 0xFF = m + 240 := by
  decide

theorem codepoint_lt (c : Char) : c.toNat < 0x110000 := by
  rcases c.valid with h | ⟨-, h⟩
  · exact Nat.lt_trans h (by decide)
  · exact h

theorem utf8_char (c : Char) : utf8 c.toNat = some (String.utf8EncodeChar c) := by
  obtain ⟨htwo, hthree, hfour⟩ := firstBytes
  have hmax := codepoint_lt c
  have hv : c.val.toNat = c.toNat := rfl
  rw [String.utf8EncodeChar, utf8]
  simp only [hv]
  rcases Nat.lt_or_ge c.toNat 0x80 with h | h
  · rw [if_pos h, if_pos (Nat.le_of_lt_succ h),
      Nat.and_two_pow_sub_one_of_lt_two_pow (n := 7) (by omega)]
  rw [if_neg (Nat.not_lt.mpr h), if_neg (Nat.not_le.mpr h)]
  rcases Nat.lt_or_ge c.toNat 0x800 with h | h
  · rw [if_pos h, if_pos (Nat.le_of_lt_succ h)]
    simp only [encodeUtf8, continuationByte, Nat.shiftRight_eq_div_pow]
    rw [htwo _ (by omega), Nat.mod_eq_of_lt (a := c.toNat / 64) (by omega)]
  rw [if_neg (Nat.not_lt.mpr h), if_neg (Nat.not_le.mpr h)]
  rcases Nat.lt_or_ge c.toNat 0x10000 with h | h
  · rw [if_pos h, if_pos (Nat.le_of_lt_succ h)]
    simp only [encodeUtf8, continuationByte, Nat.shiftRight_eq_div_pow, Nat.div_div_eq_div_mul]
    rw [hthree _ (by omega), Nat.mod_eq_of_lt (a := c.toNat / 4096) (by omega)]
  rw [if_neg (Nat.not_lt.mpr h), if_neg (Nat.not_le.mpr h), if_pos (Nat.le_of_lt_succ hmax)]
  simp only [encodeUtf8, continuationByte, Nat.shiftRight_eq_div_pow, Nat.div_div_eq_div_mul]
  rw [hfour _ (by omega), Nat.mod_eq_of_lt (a := c.toNat / 262144) (by omega)]

theorem CodeUnit.parse {digits : Bytes} {n : Nat} (h : CodeUnit digits n) :
    ∃ w x y z, digits = [w, x, y, z] ∧ (∀ d ∈ digits, (hexValue d).isSome) ∧
      ∀ rest, parseHex4 (w :: x :: y :: z :: rest) = n := by
  obtain ⟨a, b, c, d, hmap, rfl⟩ := h
  obtain ⟨w, _, rfl, hw, hmap⟩ := List.map_eq_cons_iff.mp hmap
  obtain ⟨x, _, rfl, hx, hmap⟩ := List.map_eq_cons_iff.mp hmap
  obtain ⟨y, _, rfl, hy, hmap⟩ := List.map_eq_cons_iff.mp hmap
  obtain ⟨z, _, rfl, hz, hmap⟩ := List.map_eq_cons_iff.mp hmap
  obtain rfl := List.map_eq_nil_iff.mp hmap
  refine ⟨w, x, y, z, rfl, by simp [hw, hx, hy, hz], fun rest => ?_⟩
  have htake : (w :: x :: y :: z :: rest).take 4 = [w, x, y, z] := rfl
  rw [parseHex4, htake]
  simp [hw, hx, hy, hz, Nat.shiftLeft_eq]

theorem literal_unit {c : Char} {digits : Bytes} (h : CodeUnit digits c.toNat) (rest : Bytes) :
    utf16LiteralToUtf8 (0x5C :: 0x75 :: (digits ++ rest)) =
      some (String.utf8EncodeChar c, 6) := by
  obtain ⟨w, x, y, z, rfl, -, hparse⟩ := h.parse
  have hcode : parseHex4 ((0x5C :: 0x75 :: ([w, x, y, z] ++ rest)).drop 2) = c.toNat := hparse rest
  have hvalid : c.toNat < 0xD800 ∨ 0xDFFF < c.toNat := c.valid.imp id And.left
  rw [utf16LiteralToUtf8, if_neg (by simp), hcode]
  dsimp only
  rw [if_neg (by omega), if_neg (by omega), utf8_char]
  rfl

theorem literal_pair {c : Char} {high low : Bytes} (hc : 0x10000 ≤ c.toNat)
    (hhigh : CodeUnit high (0xD800 + (c.toNat - 0x10000) / 0x400))
    (hlow : CodeUnit low (0xDC00 + (c.toNat - 0x10000) % 0x400)) (rest : Bytes) :
    utf16LiteralToUtf8 (0x5C :: 0x75 :: (high ++ 0x5C :: 0x75 :: (low ++ rest))) =
      some (String.utf8EncodeChar c, 12) := by
  obtain ⟨w, x, y, z, rfl, -, hfirst⟩ := hhigh.parse
  obtain ⟨w', x', y', z', rfl, -, hsecond⟩ := hlow.parse
  have hmax := codepoint_lt c
  have hcode : parseHex4 ((0x5C :: 0x75 :: ([w, x, y, z] ++ 0x5C :: 0x75 ::
      ([w', x', y', z'] ++ rest))).drop 2) = 0xD800 + (c.toNat - 0x10000) / 0x400 := hfirst _
  have hcode' : parseHex4 ((0x5C :: 0x75 :: ([w', x', y', z'] ++ rest)).drop 2) =
      0xDC00 + (c.toNat - 0x10000) % 0x400 := hsecond rest
  have hdrop : (0x5C :: 0x75 :: ([w, x, y, z] ++ 0x5C :: 0x75 :: ([w', x', y', z'] ++ rest))).drop 6 =
      0x5C :: 0x75 :: ([w', x', y', z'] ++ rest) := rfl
  have hjoin : 0x10000 + (((0xD800 + (c.toNat - 0x10000) / 0x400) &&& 0x3FF) <<< 10 |||
      ((0xDC00 + (c.toNat - 0x10000) % 0x400) &&& 0x3FF)) = c.toNat := by
    rw [Nat.and_two_pow_sub_one_eq_mod _ 10, Nat.and_two_pow_sub_one_eq_mod _ 10,
      ← Nat.shiftLeft_add_eq_or_of_lt (Nat.mod_lt _ (by decide)), Nat.shiftLeft_eq]
    omega
  rw [utf16LiteralToUtf8, if_neg (by simp), hcode, hdrop]
  dsimp only
  rw [hcode', if_neg (by omega), if_pos (by omega), if_neg (by simp), if_neg (by omega), hjoin,
    utf8_char]
  rfl

theorem unescape_plain {bytes : Bytes} (h : ∀ b ∈ bytes, b ≠ 0x22 ∧ b ≠ 0x5C) (rest : Bytes) :
    unescape 0 (bytes ++ rest) = (unescape 0 rest).map (bytes ++ ·) := by
  induction bytes with
  | nil => exact Option.map_id'.symm
  | cons b bytes ih =>
    rw [List.cons_append, unescape, if_pos (h b List.mem_cons_self).2,
      ih fun b hb => h b (List.mem_cons_of_mem _ hb), Option.map_map]
    rfl

theorem scanString_plains {bytes : Bytes} (h : ∀ b ∈ bytes, b ≠ 0x22 ∧ b ≠ 0x5C) (rest : Bytes) :
    scanString (bytes ++ rest) = (scanString rest).map fun r => (bytes ++ r.1, r.2) := by
  induction bytes with
  | nil => exact Option.map_id'.symm
  | cons b bytes ih =>
    rw [List.cons_append, scanString_plain (h b List.mem_cons_self),
      ih fun b hb => h b (List.mem_cons_of_mem _ hb), Option.map_map]
    rfl

theorem utf8_bytes {c : Char} {b : UInt8} (h : b ∈ String.utf8EncodeChar c) :
    b.toNat = c.toNat ∨ 0x80 ≤ b.toNat := by
  have hv : c.val.toNat = c.toNat := rfl
  have hmax := codepoint_lt c
  rw [String.utf8EncodeChar] at h
  simp only [hv] at h
  split at h
  · rw [List.mem_singleton.mp h, UInt8.toNat_ofNat']
    omega
  · right
    split at h
    · simp only [List.mem_cons, List.not_mem_nil, or_false] at h
      rcases h with rfl | rfl <;> rw [UInt8.toNat_ofNat'] <;> omega
    · split at h
      · simp only [List.mem_cons, List.not_mem_nil, or_false] at h
        rcases h with rfl | rfl | rfl <;> rw [UInt8.toNat_ofNat'] <;> omega
      · simp only [List.mem_cons, List.not_mem_nil, or_false] at h
        rcases h with rfl | rfl | rfl | rfl <;> rw [UInt8.toNat_ofNat'] <;> omega

theorem utf8_ne {c : Char} {d : UInt8} (hd : d.toNat < 0x80) (hc : c.toNat ≠ d.toNat) :
    ∀ b ∈ String.utf8EncodeChar c, b ≠ d := by
  rintro b hb rfl
  rcases utf8_bytes hb with h | h
  · exact hc h.symm
  · exact absurd hd (Nat.not_lt.mpr h)

theorem utf8_plain {c : Char} (hquote : c.toNat ≠ 0x22) (hescape : c.toNat ≠ 0x5C) :
    ∀ b ∈ String.utf8EncodeChar c, b ≠ 0x22 ∧ b ≠ 0x5C :=
  fun b hb => ⟨utf8_ne (by decide) hquote b hb, utf8_ne (by decide) hescape b hb⟩

set_option maxRecDepth 2048 in
theorem hexValue_plain (d : UInt8) : (hexValue d).isSome → d ≠ 0x22 ∧ d ≠ 0x5C := by
  revert d
  exact forall_uint8 (by decide)

theorem Spelled.unescape {c : Char} {s : Bytes} (h : Spelled c s) (rest : Bytes) :
    unescape 0 (s ++ rest) = (unescape 0 rest).map (String.utf8EncodeChar c ++ ·) := by
  cases h with
  | plain h hquote hescape => exact unescape_plain (utf8_plain hquote hescape) rest
  | @short letter value h =>
    refine unescape_sequence [letter] rest ?_
    simp only [shortEscapes, List.mem_cons, Prod.mk.injEq, List.not_mem_nil, or_false] at h
    rcases h with ⟨rfl, rfl⟩ | ⟨rfl, rfl⟩ | ⟨rfl, rfl⟩ | ⟨rfl, rfl⟩ | ⟨rfl, rfl⟩ | ⟨rfl, rfl⟩ |
      ⟨rfl, rfl⟩ | ⟨rfl, rfl⟩ <;> rfl
  | @unit c digits h =>
    have hliteral := literal_unit h rest
    obtain ⟨w, x, y, z, rfl, -⟩ := h.parse
    exact unescape_sequence [0x75, w, x, y, z] rest hliteral
  | @pair c high low hc hhigh hlow =>
    have hliteral := literal_pair hc hhigh hlow rest
    obtain ⟨w, x, y, z, rfl, -⟩ := hhigh.parse
    obtain ⟨w', x', y', z', rfl, -⟩ := hlow.parse
    exact unescape_sequence [0x75, w, x, y, z, 0x5C, 0x75, w', x', y', z'] rest hliteral

theorem Spelled.scanString {c : Char} {s : Bytes} (h : Spelled c s) (rest : Bytes) :
    scanString (s ++ rest) = (scanString rest).map fun r => (s ++ r.1, r.2) := by
  cases h with
  | plain h hquote hescape => exact scanString_plains (utf8_plain hquote hescape) rest
  | short h => exact scanString_escaped _ rest
  | @unit c digits h =>
    obtain ⟨-, -, -, -, -, hhex, -⟩ := h.parse
    rw [List.cons_append, List.cons_append, scanString_escaped,
      scanString_plains fun d hd => hexValue_plain d (hhex d hd), Option.map_map]
    rfl
  | @pair c high low hc hhigh hlow =>
    obtain ⟨-, -, -, -, -, hhex, -⟩ := hhigh.parse
    obtain ⟨-, -, -, -, -, hhex', -⟩ := hlow.parse
    rw [List.cons_append, List.cons_append, List.append_assoc, List.cons_append, List.cons_append,
      scanString_escaped, scanString_plains fun d hd => hexValue_plain d (hhex d hd),
      scanString_escaped, scanString_plains fun d hd => hexValue_plain d (hhex' d hd)]
    simp [Option.map_map, Function.comp_def]

section
variable {text : List Char} {spelling : List Bytes} (h : List.Forall₂ Spelled text spelling)
include h

theorem unescape_spelling (rest : Bytes) :
    unescape 0 (spelling.flatten ++ rest) =
      (unescape 0 rest).map (text.flatMap String.utf8EncodeChar ++ ·) := by
  induction h with
  | nil => exact Option.map_id'.symm
  | cons hc hs ih =>
    rw [List.flatten_cons, List.append_assoc, hc.unescape, ih, Option.map_map]
    simp [Function.comp_def]

theorem scanString_spelling (rest : Bytes) :
    scanString (spelling.flatten ++ rest) =
      (scanString rest).map fun r => (spelling.flatten ++ r.1, r.2) := by
  induction h with
  | nil => exact Option.map_id'.symm
  | cons hc hs ih =>
    rw [List.flatten_cons, List.append_assoc, hc.scanString, ih, Option.map_map]
    simp [Function.comp_def]

-- However a JSON string is spelled, it is read as the UTF-8 of its text.
theorem string_read_as_utf8 (hz : ∀ c ∈ text, c.toNat ≠ 0) (rest : Bytes) :
    parseString (0x22 :: (spelling.flatten ++ 0x22 :: rest)) =
      some (text.flatMap String.utf8EncodeChar, rest) := by
  have hscan : scanString (0x22 :: rest) = some ([], rest) := by
    rw [scanString.eq_def]
    rfl
  have hbody := unescape_spelling h []
  have hnoNul : 0 ∉ text.flatMap String.utf8EncodeChar := by
    rw [List.mem_flatMap]
    rintro ⟨c, hc, hb⟩
    exact utf8_ne (by decide) (hz c hc) 0 hb rfl
  rw [List.append_nil] at hbody
  rw [parseString, if_neg (by simp), scanString_spelling h, hscan, Option.map_some,
    Option.bind_some, List.append_nil, hbody, unescape, Option.map_some, Option.map_some,
    List.append_nil, cString_eq hnoNul]

end

-- A tab as a letter, e with acute as one code unit, a clef as two, and a plain letter.
theorem string_read_as_utf8_mixed :
    parseString (ascii "\"\\t\\u00e9\\uD834\\udd1Ea\"") =
      some ([0x09, 0xC3, 0xA9, 0xF0, 0x9D, 0x84, 0x9E, 0x61], []) := by
  have htab : Spelled (Char.ofNat 9) (ascii "\\t") :=
    .short (by decide : ((0x74 : UInt8), (0x09 : UInt8)) ∈ shortEscapes)
  have hacute : Spelled (Char.ofNat 0xE9) (ascii "\\u00e9") :=
    .unit ⟨0, 0, 14, 9, by decide, by decide⟩
  have hhigh : CodeUnit (ascii "D834")
      (0xD800 + ((Char.ofNat 0x1D11E).toNat - 0x10000) / 0x400) :=
    ⟨13, 8, 3, 4, by decide, by decide⟩
  have hlow : CodeUnit (ascii "dd1E")
      (0xDC00 + ((Char.ofNat 0x1D11E).toNat - 0x10000) % 0x400) :=
    ⟨13, 13, 1, 14, by decide, by decide⟩
  have hletter : Spelled 'a' (ascii "a") := .plain (by decide) (by decide) (by decide)
  have h : List.Forall₂ Spelled [Char.ofNat 9, Char.ofNat 0xE9, Char.ofNat 0x1D11E, 'a']
      [ascii "\\t", ascii "\\u00e9", ascii "\\uD834\\udd1E", ascii "a"] :=
    .cons htab (.cons hacute (.cons (.pair (by decide) hhigh hlow) (.cons hletter .nil)))
  refine string_read_as_utf8 h (fun c hc => ?_) []
  simp only [List.mem_cons, List.not_mem_nil, or_false] at hc
  rcases hc with rfl | rfl | rfl | rfl <;> decide

end FabricInspection.CJson
