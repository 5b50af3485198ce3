import FabricInspection.Json.Item

namespace FabricInspection.CJson
open Numerals

-- At most `nesting` arrays and objects inside each other, all strings ended by their first NUL, and
-- numbers that satisfy `P`.
inductive Item.Within (P : Double → Prop) : Nat → Item → Prop
  | null {nesting : Nat} : Within P nesting .null
  | isFalse {nesting : Nat} : Within P nesting .isFalse
  | isTrue {nesting : Nat} : Within P nesting .isTrue
  | number {nesting : Nat} {d : Double} (h : P d) : Within P nesting (.number d)
  | string {nesting : Nat} {s : Bytes} (h : 0 ∉ s) : Within P nesting (.string s)
  | array {nesting : Nat} {child : List Item} (h : ∀ item ∈ child, Within P nesting item) :
      Within P (nesting + 1) (.array child)
  | object {nesting : Nat} {child : List (Bytes × Item)} (hn : ∀ m ∈ child, 0 ∉ m.1)
      (h : ∀ m ∈ child, Within P nesting m.2) : Within P (nesting + 1) (.object child)

-- A value of the C type int.
def IsInt (d : Double) : Prop := ∃ n : Int, intMin ≤ n ∧ n ≤ intMax ∧ d = .finite n

-- White space of a text.
def Blank (s : Bytes) : Prop := ∀ c ∈ s, c ≠ 0 ∧ c ≤ 32

theorem Blank.nil : Blank [] := List.forall_mem_nil _

theorem Blank.cons {c : UInt8} {s : Bytes} (hc : c ≠ 0 ∧ c ≤ 32) (hs : Blank s) : Blank (c :: s) :=
  List.forall_mem_cons.mpr ⟨hc, hs⟩

theorem Blank.noNul {s : Bytes} (h : Blank s) : 0 ∉ s := fun hs => (h 0 hs).1 rfl

theorem Blank.append {s t : Bytes} (hs : Blank s) (ht : Blank t) : Blank (s ++ t) :=
  List.forall_mem_append.mpr ⟨hs, ht⟩

def Stops (s : Bytes) : Prop := ∀ c ∈ s.head?, ¬ numberByte c

-- The parser reads `text` as `a` wherever it stands, and needs no white space before it.
structure Reads {α : Type} (parser : Parser α) (text : Bytes) (a : α) : Prop where
  noNul : 0 ∉ text
  visible : ∃ c rest, text = c :: rest ∧ 32 < c ∧ c ≠ 0xEF ∧ c ≠ 0x5D ∧ c ≠ 0x7D
  reads : ∀ rest, Stops rest → parser (text ++ rest) = some (a, rest)

theorem bufferSkipWhitespace_visible {c : UInt8} (h : 32 < c) (rest : Bytes) :
    bufferSkipWhitespace (c :: rest) = c :: rest := by
  rw [bufferSkipWhitespace, List.dropWhile_cons, if_neg (by simpa using h)]

theorem bufferSkipWhitespace_blank {blank : Bytes} (hb : Blank blank) {c : UInt8}
    (h : 32 < c) (rest : Bytes) :
    bufferSkipWhitespace (blank ++ c :: rest) = c :: rest := by
  rw [bufferSkipWhitespace, List.dropWhile_append_of_pos fun b hb' => decide_eq_true (hb b hb').2,
    List.dropWhile_cons, if_neg (by simpa using h)]

section
variable {α : Type} {parser : Parser α} {text : Bytes} {a : α}

theorem Reads.skip (h : Reads parser text a) {blank : Bytes} (hb : Blank blank)
    (rest : Bytes) : bufferSkipWhitespace (blank ++ (text ++ rest)) = text ++ rest := by
  obtain ⟨c, tail, rfl, hc, -⟩ := h.visible
  exact bufferSkipWhitespace_blank hb hc _

-- Texts with a comma between them, and white space behind the comma.
inductive Listed (parser : Parser α) (blank : Bytes) : List α → Bytes → Prop
  | last {a : α} {text : Bytes} (h : Reads parser text a) : Listed parser blank [a] text
  | more {a : α} {text body : Bytes} {as : List α} (h : Reads parser text a)
      (hs : Listed parser blank as body) :
      Listed parser blank (a :: as) (text ++ 0x2C :: (blank ++ body))

variable {blank body : Bytes} {as : List α}

theorem Listed.noNul (h : Listed parser blank as body) (hb : Blank blank) : 0 ∉ body := by
  induction h with
  | last h => exact h.noNul
  | more h hs ih => simp [h.noNul, hb.noNul, ih]

theorem Listed.visible (h : Listed parser blank as body) :
    ∃ c rest, body = c :: rest ∧ 32 < c ∧ c ≠ 0x5D ∧ c ≠ 0x7D := by
  cases h with
  | last h =>
    obtain ⟨c, rest, htext, hc, -, hclose⟩ := h.visible
    exact ⟨c, rest, htext, hc, hclose⟩
  | more h hs =>
    obtain ⟨c, rest, htext, hc, -, hclose⟩ := h.visible
    exact ⟨c, _, by rw [htext]; rfl, hc, hclose⟩

theorem Listed.length_le (h : Listed parser blank as body) : as.length ≤ body.length := by
  induction h with
  | last h =>
    obtain ⟨c, rest, rfl, -⟩ := h.visible
    exact Nat.succ_le_succ (Nat.zero_le _)
  | more h hs ih =>
    simp only [List.length_cons, List.length_append]
    omega

-- What may stand behind the last element.
structure Closing (close : UInt8) (trail : Bytes) : Prop where
  close : close = 0x5D ∨ close = 0x7D
  blank : Blank trail

theorem Closing.stops {close : UInt8} {trail : Bytes} (h : Closing close trail) (rest : Bytes) :
    Stops (trail ++ close :: rest) := by
  intro c hc
  cases trail with
  | nil =>
    obtain rfl : close = c := by simpa using hc
    rcases h.close with rfl | rfl <;> decide
  | cons b trail =>
    obtain rfl : b = c := by simpa using hc
    have hblank := UInt8.le_iff_toNat_le.mp (h.blank b List.mem_cons_self).2
    simp only [numberByte, isDigit]
    intro hnum
    simp [UInt8.le_iff_toNat_le, ← UInt8.toNat_inj] at hnum
    simp at hblank
    omega

theorem parseItems_listed (h : Listed parser blank as body) (hb : Blank blank)
    {close : UInt8} {trail : Bytes} (hclose : Closing close trail) {passes : Nat}
    (hp : as.length ≤ passes) {before : Bytes} (hbefore : Blank before) (rest : Bytes) :
    parseItems parser close passes (before ++ (body ++ (trail ++ close :: rest))) =
      some (as, rest) := by
  induction h generalizing passes before with
  | last h =>
    cases passes with
    | zero => simp at hp
    | succ passes =>
      have hvisible : 32 < close := by rcases hclose.close with rfl | rfl <;> decide
      have hcomma : close ≠ 0x2C := by rcases hclose.close with rfl | rfl <;> decide
      rw [parseItems, h.skip hbefore, h.reads _ (hclose.stops rest), Option.bind_some]
      dsimp only
      rw [bufferSkipWhitespace_blank hclose.blank hvisible]
      dsimp only
      rw [if_neg hcomma, if_pos rfl]
  | @more a text body as h hs ih =>
    cases passes with
    | zero => simp at hp
    | succ passes =>
      have hcomma : Stops (0x2C :: (blank ++ body) ++ (trail ++ close :: rest)) := by
        intro c hc
        obtain rfl : 0x2C = c := by simpa using hc
        decide
      have hrest := ih (Nat.le_of_succ_le_succ hp) hb
      rw [parseItems, List.append_assoc text, h.skip hbefore, h.reads _ hcomma, Option.bind_some]
      dsimp only
      rw [List.cons_append, bufferSkipWhitespace_visible (by decide)]
      dsimp only
      rw [if_pos rfl, List.append_assoc, hrest]
      rfl

theorem parseList_listed (h : Listed parser blank as body) {before trail : Bytes}
    (hb : Blank blank) (hbefore : Blank before) {opening close : UInt8}
    (hclose : Closing close trail) (rest : Bytes) :
    parseList parser opening close
      (opening :: (before ++ (body ++ (trail ++ close :: rest)))) = some (as, rest) := by
  obtain ⟨c, tail, hbody, hc, hne⟩ := h.visible
  have hskip : bufferSkipWhitespace (before ++ (body ++ (trail ++ close :: rest))) =
      c :: (tail ++ (trail ++ close :: rest)) := by
    rw [hbody]
    exact bufferSkipWhitespace_blank hbefore hc _
  have hother : c ≠ close := by
    rcases hclose.close with rfl | rfl
    · exact hne.1
    · exact hne.2
  have hpasses : as.length ≤ (tail ++ (trail ++ close :: rest)).length + 1 := by
    have := h.length_le
    rw [hbody] at this
    simp only [List.length_append, List.length_cons] at this ⊢
    omega
  have hitems := parseItems_listed h hb hclose hpasses Blank.nil rest
  rw [parseList, if_neg (not_not.mpr rfl), hskip]
  dsimp only
  rw [if_neg hother]
  rw [hbody] at hitems
  exact hitems

theorem parseList_empty {trail : Bytes} {opening close : UInt8} (hclose : Closing close trail)
    (rest : Bytes) :
    parseList parser opening close (opening :: (trail ++ close :: rest)) = some ([], rest) := by
  have hvisible : 32 < close := by rcases hclose.close with rfl | rfl <;> decide
  rw [parseList, if_neg (not_not.mpr rfl), bufferSkipWhitespace_blank hclose.blank hvisible]
  dsimp only
  rw [if_pos rfl]

end

theorem numberByte_of_isDigit {c : UInt8} (h : isDigit c) : numberByte c := by
  rw [numberByte, h]
  rfl

theorem decimalInt_bytes (n : Int) : ∀ c ∈ decimalInt n, numberByte c := by
  intro c hc
  rw [decimalInt] at hc
  split at hc
  · rcases List.mem_cons.mp hc with rfl | hc
    · rfl
    · exact numberByte_of_isDigit (decimal_digits _ c hc)
  · exact numberByte_of_isDigit (decimal_digits _ c hc)

theorem length_decimalInt {n : Int} (hlow : intMin ≤ n) (hhigh : n ≤ intMax) :
    (decimalInt n).length ≤ 11 := by
  have h : (decimal n.natAbs).length ≤ 10 := by
    refine length_decimal (by decide) ?_
    rw [intMin] at hlow
    rw [intMax] at hhigh
    omega
  rw [decimalInt]
  split
  · exact Nat.succ_le_succ h
  · exact Nat.le_succ_of_le h

theorem splitSign_digits {s : Bytes} (h : ∀ c ∈ s, isDigit c) : splitSign s = (false, s) := by
  cases s with
  | nil => rfl
  | cons c s =>
    have hc := h c List.mem_cons_self
    have hminus : c ≠ 0x2D := fun hm => by simp [hm, isDigit] at hc
    have hplus : c ≠ 0x2B := fun hp => by simp [hp, isDigit] at hc
    rw [splitSign, if_neg hminus, if_neg hplus]

theorem strtod_digits {s text : Bytes} {negative : Bool} (hne : s ≠ []) (h : ∀ c ∈ s, isDigit c)
    (hs : splitSign text = (negative, s)) :
    strtod text = some (signed negative (natural s : ℚ), []) := by
  have htake : s.takeWhile isDigit = s := List.takeWhile_eq_self_iff.mpr h
  have hdrop : s.dropWhile isDigit = [] := List.dropWhile_eq_nil_iff.mpr h
  rw [strtod]
  simp only [hs, htake, hdrop, splitFraction, splitExponent, hne, false_and, if_false,
    List.append_nil, List.length_nil, Nat.cast_zero, sub_zero, zpow_zero, mul_one]

theorem strtod_decimalInt (n : Int) : strtod (decimalInt n) = some ((n : ℚ), []) := by
  have hne := decimal_ne_nil n.natAbs
  have hdigits := decimal_digits n.natAbs
  rcases lt_or_ge n 0 with hneg | hpos
  · have hsign : splitSign (decimalInt n) = (true, decimal n.natAbs) := by
      rw [decimalInt, if_pos hneg, splitSign, if_pos rfl]
    have hvalue : signed true ((n.natAbs : ℕ) : ℚ) = n := by
      rw [signed, if_pos rfl, Nat.cast_natAbs, abs_of_neg hneg, Int.cast_neg, neg_neg]
    rw [strtod_digits hne hdigits hsign, natural_decimal, hvalue]
  · have hsign : splitSign (decimalInt n) = (false, decimal n.natAbs) := by
      rw [decimalInt, if_neg (not_lt.mpr hpos), splitSign_digits hdigits]
    have hvalue : signed false ((n.natAbs : ℕ) : ℚ) = n := by
      rw [signed, if_neg (by decide), Nat.cast_natAbs, abs_of_nonneg hpos]
    rw [strtod_digits hne hdigits hsign, natural_decimal, hvalue]

theorem valueint_finite {n : Int} (hlow : intMin ≤ n) (hhigh : n ≤ intMax) :
    valueint (.finite n) = n := by
  rw [valueint]
  split
  · rename_i h
    exact le_antisymm (by exact_mod_cast h) hhigh
  · split
    · rename_i h
      exact le_antisymm hlow (by exact_mod_cast h)
    · exact Int.tdiv_one n

theorem numberText_append {text rest : Bytes} (h : ∀ c ∈ text, numberByte c)
    (hl : text.length ≤ 63) (hs : Stops rest) : numberText (text ++ rest) = text := by
  have hrest : (rest.take (63 - text.length)).takeWhile numberByte = [] := by
    cases hk : 63 - text.length with
    | zero => rfl
    | succ k =>
      cases rest with
      | nil => rfl
      | cons c rest => 
        rw [List.take_succ_cons, List.takeWhile_cons_of_neg (hs c (by simp))]
  rw [numberText, List.take_append, List.take_of_length_le hl, List.takeWhile_append_of_pos h, hrest,
    List.append_nil]

section
variable (sprintfG : Nat → ℚ → Bytes) (format : Bool)

theorem printNumber_int {n : Int} (hlow : intMin ≤ n) (hhigh : n ≤ intMax) :
    printNumber sprintfG (.finite n) = some (decimalInt n) := by
  have hv := valueint_finite hlow hhigh
  have hl := length_decimalInt hlow hhigh
  rw [printNumber]
  dsimp only
  rw [hv, if_pos rfl, if_pos (by omega)]

theorem parseNumber_decimalInt {n : Int} (hlow : intMin ≤ n) (hhigh : n ≤ intMax) {rest : Bytes}
    (hs : Stops rest) :
    parseNumber (decimalInt n ++ rest) = some (.number (.finite n), rest) := by
  have hl := length_decimalInt hlow hhigh
  have hexact : binary64 n = .finite n := by
    refine binary64_int (abs_lt.mpr ⟨?_, ?_⟩)
    · exact lt_of_lt_of_le (by decide) hlow
    · exact lt_of_le_of_lt hhigh (by decide)
  rw [parseNumber, numberText_append (decimalInt_bytes n) (by omega) hs, strtod_decimalInt,
    Option.map_some, hexact, List.length_nil, Nat.sub_zero, List.drop_left]

end

theorem ascii_null : ascii "null" = [0x6E, 0x75, 0x6C, 0x6C] := by decide
theorem ascii_false : ascii "false" = [0x66, 0x61, 0x6C, 0x73, 0x65] := by decide
theorem ascii_true : ascii "true" = [0x74, 0x72, 0x75, 0x65] := by decide

section
variable {array object : Parser Item}

theorem parseValueWith_cons {c : UInt8} (hc : c ∉ [0x6E, 0x66, 0x74]) (rest : Bytes) :
    parseValueWith array object (c :: rest) =
      if c = 0x22 then (parseString (c :: rest)).map fun r => (.string r.1, r.2)
      else if c = 0x2D ∨ isDigit c then parseNumber (c :: rest)
      else if c = 0x5B then array (c :: rest)
      else if c = 0x7B then object (c :: rest)
      else none := by
  simp only [List.mem_cons, List.not_mem_nil, or_false, not_or] at hc
  rw [parseValueWith, ascii_null, ascii_false, ascii_true]
  simp [Ne.symm hc.1, Ne.symm hc.2.1, Ne.symm hc.2.2]

theorem reads_null : Reads (parseValueWith array object) (ascii "null") .null where
  noNul := by decide
  visible := ⟨_, _, ascii_null, by decide⟩
  reads rest _ := by
    rw [parseValueWith.eq_def, ascii_null]
    rfl

theorem reads_false : Reads (parseValueWith array object) (ascii "false") .isFalse where
  noNul := by decide
  visible := ⟨_, _, ascii_false, by decide⟩
  reads rest _ := by
    rw [parseValueWith.eq_def, ascii_null, ascii_false]
    rfl

theorem reads_true : Reads (parseValueWith array object) (ascii "true") .isTrue where
  noNul := by decide
  visible := ⟨_, _, ascii_true, by decide⟩
  reads rest _ := by
    rw [parseValueWith.eq_def, ascii_null, ascii_false, ascii_true]
    rfl

set_option maxRecDepth 2048 in
theorem escape_noNul (c : UInt8) : c ≠ 0 → 0 ∉ escape c := by
  revert c
  exact forall_uint8 (by decide)

theorem reads_printStringPtr {s : Bytes} (h : 0 ∉ s) : Reads parseString (printStringPtr s) s where
  noNul := by
    have hescape : 0 ∉ s.flatMap escape := by
      rw [List.mem_flatMap]
      rintro ⟨c, hc, hmem⟩
      exact escape_noNul c (ne_of_mem_of_not_mem hc h) hmem
    simp [printStringPtr_eq, hescape]
  visible := ⟨_, _, printStringPtr_eq s, by decide⟩
  reads rest _ := parseString_printStringPtr h rest

theorem reads_string {s : Bytes} (h : 0 ∉ s) :
    Reads (parseValueWith array object) (printStringPtr s) (.string s) where
  noNul := (reads_printStringPtr h).noNul
  visible := (reads_printStringPtr h).visible
  reads rest hr := by
    have hread := (reads_printStringPtr h).reads rest hr
    rw [printStringPtr_eq, List.cons_append] at hread ⊢
    rw [parseValueWith_cons (by decide), if_pos rfl, hread]
    rfl

theorem decimalInt_head (n : Int) :
    ∃ c rest, decimalInt n = c :: rest ∧ (c = 0x2D ∨ isDigit c) := by
  rw [decimalInt]
  split
  · exact ⟨_, _, rfl, Or.inl rfl⟩
  · obtain ⟨c, rest, h⟩ := List.exists_cons_of_ne_nil (decimal_ne_nil n.natAbs)
    exact ⟨c, rest, h, Or.inr (decimal_digits n.natAbs c (h ▸ List.mem_cons_self))⟩

set_option maxRecDepth 2048 in
theorem numberHead_visible (c : UInt8) : c = 0x2D ∨ isDigit c →
    (32 < c ∧ c ≠ 0xEF ∧ c ≠ 0x5D ∧ c ≠ 0x7D) ∧ c ∉ [0x6E, 0x66, 0x74] ∧ c ≠ 0x22 := by
  revert c
  exact forall_uint8 (by decide)

theorem reads_int {n : Int} (hlow : intMin ≤ n) (hhigh : n ≤ intMax) :
    Reads (parseValueWith array object) (decimalInt n) (.number (.finite n)) where
  noNul hzero := absurd (decimalInt_bytes n 0 hzero) (by decide)
  visible := by
    obtain ⟨c, rest, h, hc⟩ := decimalInt_head n
    exact ⟨c, rest, h, (numberHead_visible c hc).1⟩
  reads rest hr := by
    have hnumber := parseNumber_decimalInt hlow hhigh hr
    obtain ⟨c, tail, h, hc⟩ := decimalInt_head n
    obtain ⟨-, hletter, hquote⟩ := numberHead_visible c hc
    rw [h, List.cons_append] at hnumber ⊢
    rw [parseValueWith_cons hletter, if_neg hquote, if_pos hc, hnumber]

theorem reads_array {child : List Item} {body : Bytes} {value : Parser Item}
    (hb : 0 ∉ body) (h : ∀ rest, parseList value 0x5B 0x5D (0x5B :: (body ++ 0x5D :: rest)) =
      some (child, rest)) :
    Reads (parseValueWith (parseArray value) object) (0x5B :: (body ++ [0x5D])) (.array child) where
  noNul := by simp [hb]
  visible := ⟨_, _, rfl, by decide⟩
  reads rest _ := by
    have hlist := h rest
    rw [List.cons_append, List.append_assoc, List.singleton_append, parseValueWith_cons (by decide),
      if_neg (by decide), if_neg (by decide), if_pos rfl, parseArray, hlist]
    rfl

theorem reads_object {child : List (Bytes × Item)} {body : Bytes} {value : Parser Item}
    (hb : 0 ∉ body) (h : ∀ rest, parseList (parseMember value) 0x7B 0x7D
      (0x7B :: (body ++ 0x7D :: rest)) = some (child, rest)) :
    Reads (parseValueWith array (parseObject value)) (0x7B :: (body ++ [0x7D])) (.object child)
    where
  noNul := by simp [hb]
  visible := ⟨_, _, rfl, by decide⟩
  reads rest _ := by
    have hlist := h rest
    rw [List.cons_append, List.append_assoc, List.singleton_append, parseValueWith_cons (by decide),
      if_neg (by decide), if_neg (by decide), if_neg (by decide), if_pos rfl, parseObject, hlist]
    rfl

end

section
variable (sprintfG : Nat → ℚ → Bytes) (format : Bool) {value : Parser Item}

theorem tabs_blank (depth : Nat) : Blank (tabs format depth) := by
  intro c hc
  rw [tabs] at hc
  split at hc
  · rw [List.eq_of_mem_replicate hc]
    decide
  · cases hc

theorem newline_blank : Blank (newline format) := by
  cases format
  · exact .nil
  · exact .cons (by decide) .nil

theorem colon_eq : ∃ blank, colon format = 0x3A :: blank ∧ Blank blank := by
  cases format
  · exact ⟨[], rfl, .nil⟩
  · exact ⟨[0x09], rfl, .cons (by decide) .nil⟩

theorem separator_eq : ∃ blank, separator format = 0x2C :: blank ∧ Blank blank := by
  cases format
  · exact ⟨[], rfl, .nil⟩
  · exact ⟨[0x20], rfl, .cons (by decide) .nil⟩

theorem printArray_listed {blank : Bytes} (hs : separator format = 0x2C :: blank) {depth : Nat}
    {child : List Item} (hne : child ≠ []) (h : ∀ item ∈ child, ∃ text,
      printValue sprintfG format depth item = some text ∧ Reads value text item) :
    ∃ body, printArray sprintfG format depth child = some body ∧ Listed value blank child body := by
  induction child with
  | nil => exact absurd rfl hne
  | cons item next ih =>
    obtain ⟨text, htext, hreads⟩ := h item List.mem_cons_self
    rcases eq_or_ne next [] with rfl | hnext
    · refine ⟨text, ?_, .last hreads⟩
      simp [printArray, htext]
    · obtain ⟨body, hbody, hlisted⟩ := ih hnext fun item hi => h item (List.mem_cons_of_mem _ hi)
      refine ⟨_, ?_, .more hreads hlisted⟩
      rw [printArray, htext, Option.bind_some, hbody, Option.map_some, hs,
        if_neg (by simpa using hnext), List.append_assoc, List.cons_append]

theorem reads_member {name text : Bytes} {item : Item} (hn : 0 ∉ name)
    (h : Reads value text item) :
    Reads (parseMember value) (printStringPtr name ++ (colon format ++ text)) (name, item) := by
  obtain ⟨blank, hcolon, hb⟩ := colon_eq format
  rw [hcolon]
  refine ⟨?_, ?_, fun rest hr => ?_⟩
  · simp [(reads_printStringPtr hn).noNul, hb.noNul, h.noNul]
  · exact ⟨_, _, by rw [printStringPtr_eq, List.cons_append], by decide⟩
  · rw [parseMember, List.append_assoc, parseString_printStringPtr hn, Option.bind_some]
    dsimp only
    rw [List.cons_append, List.cons_append, bufferSkipWhitespace_visible (by decide)]
    dsimp only
    rw [if_pos rfl, List.append_assoc, h.skip hb, h.reads rest hr]
    rfl

theorem printObject_listed {depth : Nat} {child : List (Bytes × Item)} (hne : child ≠ [])
    (hn : ∀ m ∈ child, 0 ∉ m.1) (h : ∀ m ∈ child, ∃ text,
      printValue sprintfG format depth m.2 = some text ∧ Reads value text m.2) :
    ∃ body, printObject sprintfG format depth child =
        some (tabs format depth ++ (body ++ newline format)) ∧
      Listed (parseMember value) (newline format ++ tabs format depth) child body := by
  induction child with
  | nil => exact absurd rfl hne
  | cons m next ih =>
    obtain ⟨text, htext, hreads⟩ := h m List.mem_cons_self
    have hmember := reads_member format (hn m List.mem_cons_self) hreads
    have hprint : printMember sprintfG format depth m =
        some (tabs format depth ++ (printStringPtr m.1 ++ (colon format ++ text))) := by
      rw [printMember, htext, Option.map_some]
      simp only [List.append_assoc]
    rcases eq_or_ne next [] with rfl | hnext
    · refine ⟨_, ?_, .last hmember⟩
      simp [printObject, hprint]
    · obtain ⟨body, hbody, hlisted⟩ := ih hnext
        (fun m hm => hn m (List.mem_cons_of_mem _ hm))
        fun m hm => h m (List.mem_cons_of_mem _ hm)
      refine ⟨_, ?_, .more hmember hlisted⟩
      rw [printObject, hprint, Option.bind_some, hbody, Option.map_some,
        if_neg (by simpa using hnext)]
      simp only [List.append_assoc, List.cons_append, List.nil_append]

theorem parseValue_with (nesting : Nat) :
    ∃ array object, parseValue nesting = parseValueWith array object := by
  cases nesting with
  | zero => exact ⟨_, _, rfl⟩
  | succ nesting => exact ⟨_, _, rfl⟩

-- By induction on the item: what print_value writes for it, parse_value reads back.
theorem printValue_reads {nesting : Nat} {item : Item} (h : item.Within IsInt nesting)
    (depth : Nat) :
    ∃ text, printValue sprintfG format depth item = some text ∧
      Reads (parseValue nesting) text item := by
  induction h generalizing depth with
  | @null nesting =>
    obtain ⟨array, object, hp⟩ := parseValue_with nesting
    exact ⟨_, rfl, hp ▸ reads_null⟩
  | @isFalse nesting =>
    obtain ⟨array, object, hp⟩ := parseValue_with nesting
    exact ⟨_, rfl, hp ▸ reads_false⟩
  | @isTrue nesting =>
    obtain ⟨array, object, hp⟩ := parseValue_with nesting
    exact ⟨_, rfl, hp ▸ reads_true⟩
  | @number nesting d hd =>
    obtain ⟨n, hlow, hhigh, rfl⟩ := hd
    obtain ⟨array, object, hp⟩ := parseValue_with nesting
    exact ⟨_, printNumber_int sprintfG hlow hhigh, hp ▸ reads_int hlow hhigh⟩
  | @string nesting s hs =>
    obtain ⟨array, object, hp⟩ := parseValue_with nesting
    exact ⟨_, rfl, hp ▸ reads_string hs⟩
  | @array nesting child _ ih =>
    have hclose : Closing 0x5D [] := ⟨Or.inl rfl, Blank.nil⟩
    rcases eq_or_ne child [] with rfl | hne
    · exact ⟨_, rfl, reads_array List.not_mem_nil (parseList_empty hclose)⟩
    · obtain ⟨blank, hs, hb⟩ := separator_eq format
      obtain ⟨body, hbody, hlisted⟩ := printArray_listed sprintfG format hs hne
        fun item hi => ih item hi (depth + 1)
      refine ⟨_, by rw [printValue, hbody, Option.map_some], ?_⟩
      exact reads_array (hlisted.noNul hb) (parseList_listed hlisted hb Blank.nil hclose)
  | @object nesting child hn _ ih =>
    have hblank (depth : Nat) : Blank (newline format ++ tabs format depth) :=
      (newline_blank format).append (tabs_blank format depth)
    have hclose : Closing 0x7D (newline format ++ tabs format depth) := ⟨Or.inr rfl, hblank depth⟩
    rcases eq_or_ne child [] with rfl | hne
    · refine ⟨_, by rw [printValue, printObject, Option.map_some, List.append_nil], ?_⟩
      exact reads_object (hblank depth).noNul (parseList_empty hclose)
    · obtain ⟨body, hbody, hlisted⟩ := printObject_listed sprintfG format hne hn
        fun m hm => ih m hm (depth + 1)
      have htext : printValue sprintfG format depth (.object child) = some (0x7B ::
          ((newline format ++ tabs format (depth + 1) ++
            (body ++ (newline format ++ tabs format depth))) ++ [0x7D])) := by
        rw [printValue, hbody, Option.map_some]
        simp only [List.append_assoc]
      refine ⟨_, htext, reads_object ?_ fun rest => ?_⟩
      · simp only [List.mem_append, (hblank _).noNul, hlisted.noNul (hblank _), or_false,
          not_false_iff]
      · simp only [List.append_assoc]
        rw [← List.append_assoc (newline format) (tabs format (depth + 1)),
          ← List.append_assoc (newline format) (tabs format depth)]
        exact parseList_listed hlisted (hblank _) (hblank _) hclose rest

theorem parseWithLengthOpts_printed {item : Item} {text : Bytes}
    (h : Reads (parseValue nestingLimit) text item) {rest : Bytes} (hs : Stops rest)
    (requireNullTerminated : Bool)
    (hz : requireNullTerminated → (bufferSkipWhitespace rest).head? = some 0) :
    parseWithLengthOpts (text ++ rest) requireNullTerminated =
      some (item, if requireNullTerminated then bufferSkipWhitespace rest else rest) := by
  obtain ⟨c, tail, htext, -, hbom, -⟩ := h.visible
  have hskip : bufferSkipWhitespace (skipUtf8Bom (text ++ rest)) = text ++ rest := by
    have hkeep : skipUtf8Bom (text ++ rest) = text ++ rest := by
      rw [skipUtf8Bom, if_neg]
      simp [htext, hbom]
    rw [hkeep]
    exact h.skip Blank.nil rest
  rw [parseWithLengthOpts, if_neg (by simp [htext]), hskip, h.reads rest hs, Option.bind_some]
  cases requireNullTerminated with
  | false => rfl
  | true => 
    dsimp only
    rw [if_pos rfl, if_pos (hz rfl), if_pos rfl]

end

theorem parseWithOpts_printed {item : Item} {text : Bytes}
    (h : Reads (parseValue nestingLimit) text item) (requireNullTerminated : Bool) :
    parseWithOpts text requireNullTerminated = some (item, [0]) := by
  have hstops : Stops [0] := by
    intro c hc
    obtain rfl : 0 = c := by simpa using hc
    decide
  rw [parseWithOpts, cString_eq h.noNul,
    parseWithLengthOpts_printed h hstops requireNullTerminated fun _ => rfl]
  cases requireNullTerminated <;> rfl

-- cJSON_Parse takes back what cJSON_Print and cJSON_PrintUnformatted give.
theorem parse_print (sprintfG : Nat → ℚ → Bytes) (format : Bool) {item : Item}
    (h : item.Within IsInt nestingLimit) :
    ∃ text, print sprintfG format item = some text ∧ 0 ∉ text ∧
      ∀ requireNullTerminated,
        parseWithOpts text requireNullTerminated = some (item, [0]) := by
  obtain ⟨text, htext, hreads⟩ := printValue_reads sprintfG format h 0
  exact ⟨text, htext, hreads.noNul, parseWithOpts_printed hreads⟩

theorem parse_print_two_numbers :
    ∃ text, print (fun _ _ => []) true (.array [.number (.finite 12), .number (.finite (-7))]) =
        some text ∧ 0 ∉ text ∧ ∀ requireNullTerminated, parseWithOpts text requireNullTerminated =
          some (.array [.number (.finite 12), .number (.finite (-7))], [0]) := by
  refine parse_print (fun _ _ => []) true (.array fun item hi => ?_)
  rcases List.mem_pair.mp hi with rfl | rfl
  · exact .number ⟨12, by decide, by decide, rfl⟩
  · exact .number ⟨-7, by decide, by decide, rfl⟩

end FabricInspection.CJson
