import FabricInspection.Json.RoundTrip

namespace FabricInspection.CJson
open Numerals

-- What a parser returns satisfies `P`, and what it leaves is the end of what it was given.
def Yields {α : Type} (parser : Parser α) (P : α → Prop) : Prop :=
  ∀ s r, parser s = some r → P r.1 ∧ r.2 <:+ s

theorem bufferSkipWhitespace_suffix (s : Bytes) : bufferSkipWhitespace s <:+ s := by
  rw [bufferSkipWhitespace]
  split
  · exact List.drop_suffix _ _
  · rename_i c rest h
    rw [← h]
    exact List.dropWhile_suffix _

theorem suffix_of_skip {s t : Bytes} {c : UInt8} (h : bufferSkipWhitespace s = c :: t) :
    t <:+ s :=
  (List.suffix_cons c t).trans (h ▸ bufferSkipWhitespace_suffix s)

theorem cString_noNul (s : Bytes) : 0 ∉ cString s := fun h => by
  simpa using List.mem_takeWhile_imp h

theorem scanString_suffix {s : Bytes} {r : Bytes × Bytes} (h : scanString s = some r) :
    r.2 <:+ s := by
  fun_induction scanString s generalizing r with
  | case1 => cases h
  | case2 input =>
    cases h
    exact List.suffix_cons _ _
  | case3 hquote => cases h
  | case4 hquote d input ih =>
    obtain ⟨q, hq, rfl⟩ := Option.map_eq_some_iff.mp h
    exact ((ih hq).trans (List.suffix_cons _ _)).trans (List.suffix_cons _ _)
  | case5 c input hquote hescape ih =>
    obtain ⟨q, hq, rfl⟩ := Option.map_eq_some_iff.mp h
    exact (ih hq).trans (List.suffix_cons _ _)

theorem parseString_yields : Yields parseString (0 ∉ ·) := by
  intro s r h
  cases s with
  | nil => cases h
  | cons c s =>
    rw [parseString] at h
    split at h
    · cases h
    · obtain ⟨q, hq, h⟩ := Option.bind_eq_some_iff.mp h
      obtain ⟨output, -, rfl⟩ := Option.map_eq_some_iff.mp h
      exact ⟨cString_noNul output, (scanString_suffix hq).trans (List.suffix_cons _ _)⟩

section
variable {α : Type} {element : Parser α} {P : α → Prop}

theorem parseItems_yields (h : Yields element P) (close : UInt8) (passes : Nat) :
    Yields (parseItems element close passes) (∀ a ∈ ·, P a) := by
  intro s r hr
  induction passes generalizing s r with
  | zero => cases hr
  | succ passes ih =>
    obtain ⟨item, hitem, hr⟩ := Option.bind_eq_some_iff.mp hr
    obtain ⟨hP, hsuffix⟩ := h _ _ hitem
    have hleft := hsuffix.trans (bufferSkipWhitespace_suffix s)
    split at hr
    · cases hr
    · rename_i c rest hskip
      have hrest := (suffix_of_skip hskip).trans hleft
      split at hr
      · obtain ⟨items, hitems, rfl⟩ := Option.map_eq_some_iff.mp hr
        obtain ⟨hPs, hend⟩ := ih _ _ hitems
        exact ⟨List.forall_mem_cons.mpr ⟨hP, hPs⟩, hend.trans hrest⟩
      · split at hr
        · cases hr
          exact ⟨List.forall_mem_singleton.mpr hP, hrest⟩
        · cases hr

-- A list of elements never needs more passes than there are bytes.
theorem parseItems_passes (h : Yields element P) (hnil : element [] = none) (close : UInt8)
    {passes : Nat} {s : Bytes} (hp : s.length ≤ passes) (k : Nat) :
    parseItems element close (passes + k) s = parseItems element close passes s := by
  induction passes generalizing s with
  | zero =>
    obtain rfl := List.eq_nil_of_length_eq_zero (Nat.le_zero.mp hp)
    cases k with
    | zero => rfl
    | succ k =>
      have hskip : bufferSkipWhitespace [] = [] := rfl
      rw [Nat.zero_add, parseItems.eq_2, hskip, hnil]
      rfl
  | succ passes ih =>
    rw [Nat.add_right_comm, parseItems, parseItems]
    refine Option.bind_congr fun item hitem => ?_
    have hleft := (h _ _ hitem).2.trans (bufferSkipWhitespace_suffix s)
    split
    · rfl
    · rename_i c rest hskip
      have hlt : (c :: rest).length ≤ s.length :=
        (hskip ▸ (bufferSkipWhitespace_suffix item.2).trans hleft).length_le
      rw [ih (Nat.le_of_succ_le_succ (hlt.trans hp))]

theorem parseList_yields (h : Yields element P) (opening close : UInt8) :
    Yields (parseList element opening close) (∀ a ∈ ·, P a) := by
  intro s r hr
  cases s with
  | nil => cases hr
  | cons c s =>
    rw [parseList] at hr
    split at hr
    · cases hr
    · split at hr
      · cases hr
      · rename_i d rest hskip
        have hs := (suffix_of_skip hskip).trans (List.suffix_cons c s)
        split at hr
        · cases hr
          exact ⟨by simp, hs⟩
        · obtain ⟨hP, hsuffix⟩ := parseItems_yields h close _ _ _ hr
          rw [← hskip] at hsuffix
          exact ⟨hP, (hsuffix.trans (bufferSkipWhitespace_suffix s)).trans (List.suffix_cons c s)⟩

end

section
variable {value : Parser Item} {P : Item → Prop}

theorem parseMember_yields (h : Yields value P) :
    Yields (parseMember value) (fun m => 0 ∉ m.1 ∧ P m.2) := by
  intro s r hr
  obtain ⟨name, hname, hr⟩ := Option.bind_eq_some_iff.mp hr
  obtain ⟨hz, hs⟩ := parseString_yields _ _ hname
  split at hr
  · cases hr
  · rename_i c rest hskip
    split at hr
    · obtain ⟨item, hitem, rfl⟩ := Option.map_eq_some_iff.mp hr
      obtain ⟨hP, hi⟩ := h _ _ hitem
      have hrest := (suffix_of_skip hskip).trans hs
      exact ⟨⟨hz, hP⟩, (hi.trans (bufferSkipWhitespace_suffix rest)).trans hrest⟩
    · cases hr

theorem parseValueWith_yields {array object : Parser Item} {nesting : Nat}
    (ha : Yields array (Item.Within (fun _ => True) nesting))
    (ho : Yields object (Item.Within (fun _ => True) nesting)) :
    Yields (parseValueWith array object) (Item.Within (fun _ => True) nesting) := by
  intro s r hr
  rw [parseValueWith.eq_def] at hr
  split at hr
  · cases hr
    exact ⟨.null, List.drop_suffix _ _⟩
  split at hr
  · cases hr
    exact ⟨.isFalse, List.drop_suffix _ _⟩
  split at hr
  · cases hr
    exact ⟨.isTrue, List.drop_suffix _ _⟩
  split at hr
  · cases hr
  split at hr
  · obtain ⟨q, hq, rfl⟩ := Option.map_eq_some_iff.mp hr
    obtain ⟨hz, hs⟩ := parseString_yields _ _ hq
    exact ⟨.string hz, hs⟩
  split at hr
  · obtain ⟨q, -, rfl⟩ := Option.map_eq_some_iff.mp hr
    exact ⟨.number trivial, List.drop_suffix _ _⟩
  split at hr
  · exact ha _ _ hr
  split at hr
  · exact ho _ _ hr
  · cases hr

theorem parseValue_yields (nesting : Nat) :
    Yields (parseValue nesting) (Item.Within (fun _ => True) nesting) := by
  induction nesting with
  | zero => exact parseValueWith_yields nofun nofun
  | succ nesting ih =>
    refine parseValueWith_yields (fun s r hr => ?_) fun s r hr => ?_
    · obtain ⟨q, hq, rfl⟩ := Option.map_eq_some_iff.mp hr
      obtain ⟨h, hs⟩ := parseList_yields ih _ _ _ _ hq
      exact ⟨.array h, hs⟩
    · obtain ⟨q, hq, rfl⟩ := Option.map_eq_some_iff.mp hr
      obtain ⟨h, hs⟩ := parseList_yields (parseMember_yields ih) _ _ _ _ hq
      exact ⟨.object (fun m hm => (h m hm).1) fun m hm => (h m hm).2, hs⟩

end

theorem parseValue_nil (nesting : Nat) : parseValue nesting [] = none := by
  obtain ⟨array, object, hp⟩ := parseValue_with nesting
  rw [hp, parseValueWith.eq_def, ascii_null, ascii_false, ascii_true]
  rfl

-- No array or object is refused because its loop ran too long.
theorem parseArray_passes (nesting : Nat) (s : Bytes) (k : Nat) :
    parseItems (parseValue nesting) 0x5D (s.length + k) s =
      parseItems (parseValue nesting) 0x5D s.length s :=
  parseItems_passes (parseValue_yields nesting) (parseValue_nil nesting) _ le_rfl k

theorem parseObject_passes (nesting : Nat) (s : Bytes) (k : Nat) :
    parseItems (parseMember (parseValue nesting)) 0x7D (s.length + k) s =
      parseItems (parseMember (parseValue nesting)) 0x7D s.length s :=
  parseItems_passes (parseMember_yields (parseValue_yields nesting)) rfl _ le_rfl k

theorem parse_within {text : Bytes} {item : Item} (h : parse text = some item) :
    item.Within (fun _ => True) nestingLimit := by
  obtain ⟨r, hr, rfl⟩ := Option.map_eq_some_iff.mp h
  rw [parseWithOpts, parseWithLengthOpts] at hr
  split at hr
  · cases hr
  · obtain ⟨q, hq, hr⟩ := Option.bind_eq_some_iff.mp hr
    obtain rfl : q = r := Option.some.inj hr
    exact (parseValue_yields _ _ _ hq).1

theorem Item.Within.and {P Q : Double → Prop} {item : Item} {nesting other : Nat}
    (h : item.Within P nesting) (hQ : item.Within Q other) : item.Within Q nesting := by
  induction h generalizing other with
  | null => exact .null
  | isFalse => exact .isFalse
  | isTrue => exact .isTrue
  | number _ =>
    cases hQ with
    | number hq => exact .number hq
  | string hs => exact .string hs
  | array _ ih =>
    cases hQ with
    | array hq => exact .array fun item hi => ih item hi (hq item hi)
  | object hn _ ih =>
    cases hQ with
    | object _ hq => exact .object hn fun m hm => ih m hm (hq m hm)

-- Whatever cJSON_Parse accepts is within the nesting limit, with strings that end at their first
-- NUL, and unless it has a number that is no int, it survives being printed and parsed again.
theorem accepted_text_normalises (sprintfG : Nat → ℚ → Bytes) {text : Bytes} {item : Item}
    (h : parse text = some item) :
    item.Within (fun _ => True) nestingLimit ∧ ∀ nesting, item.Within IsInt nesting →
      ∀ format, ∃ printed, print sprintfG format item = some printed ∧
        parse printed = some item := by
  have hwithin := parse_within h
  refine ⟨hwithin, fun nesting hint format => ?_⟩
  obtain ⟨printed, hprinted, hreads⟩ :=
    printValue_reads sprintfG format (hwithin.and hint) 0
  refine ⟨printed, hprinted, ?_⟩
  rw [parse, parseWithOpts_printed hreads]
  rfl

theorem accepted_text_normalises_nested :
    parse (ascii "\x7b\"a/b\":[null,true]\x7d") = some (.object [(ascii "a/b", .array [.null, .isTrue])]) ∧
    ∃ printed, print (fun _ _ => []) true
        (.object [(ascii "a/b", .array [.null, .isTrue])]) = some printed ∧
      parse printed = some (.object [(ascii "a/b", .array [.null, .isTrue])]) := by
  have hitem (nesting : Nat) :
      Item.Within IsInt (nesting + 2) (.object [(ascii "a/b", .array [.null, .isTrue])]) := by
    refine .object (by decide) fun m hm => ?_
    rw [List.mem_singleton.mp hm]
    exact .array (by simp [Item.Within.null, Item.Within.isTrue])
  have hparse : parse (ascii "\x7b\"a/b\":[null,true]\x7d") =
      some (.object [(ascii "a/b", .array [.null, .isTrue])]) := by
    obtain ⟨text, htext, hreads⟩ := printValue_reads (fun _ _ => []) false (hitem 998) 0
    have hsame : ascii "\x7b\"a/b\":[null,true]\x7d" = text := Option.some.inj htext
    rw [hsame, parse, parseWithOpts_printed hreads]
    rfl
  exact ⟨hparse, (accepted_text_normalises (fun _ _ => []) hparse).2 2 (hitem 0) true⟩

end FabricInspection.CJson
