import FabricInspection.MiniProgram.Pages
import FabricInspection.Sorting.Stable

namespace FabricInspection.MiniProgram

open Sorting (StablySorted)

-- The table: the type of each parameter, in their order, with its positions.
def PageData.columns (data : PageData) : List (Text × List Text) :=
  [(['裂', '缝'], data.posDefect), (['胶', '水'], data.posGlue), (['灰', '尘'], data.posDust),
    (['油', '污'], data.posOil), (['磨', '损'], data.posWear), (['黑', '线'], data.posBlackline),
    (['无', '缺', '陷'], data.posNone)]

def value (t : Text) : ℚ := (decimal t).getD 0

def column (name : Text) (arr : List Text) : List (Entry ℚ) := arr.map fun t => ⟨name, value t⟩

def table (data : PageData) : List (Entry ℚ) := data.columns.flatMap fun c => column c.1 c.2

def PageData.Numerals (data : PageData) : Prop :=
  ∀ c ∈ data.columns, ∀ t ∈ c.2, ∃ q, decimal t = some q ∧ 0 < q

def Entry.read (e : Entry ℚ) : Entry Num := ⟨e.type, .fin e.pos⟩

-- The characters of a numeral.
def numeralChar (c : Char) : Bool := c.isDigit || c = '.'

theorem fraction_chars {t frac : Text} (h : fraction t = some frac) :
    ∀ c ∈ t, numeralChar c := by
  unfold fraction at h
  split at h
  · exact fun c hc => absurd hc List.not_mem_nil
  · split at h
    · rename_i digits hd
      intro c hc
      rcases List.mem_cons.mp hc with rfl | hc
      · rfl
      · simp [numeralChar, hd.2 c hc]
    · cases h
  · cases h

theorem decimal_chars {t : Text} {q : ℚ} (h : decimal t = some q) :
    ∀ c ∈ t, numeralChar c := by
  have hsplit : t.takeWhile Char.isDigit ++ t.dropWhile Char.isDigit = t :=
    List.takeWhile_append_dropWhile
  intro c hc
  rw [← hsplit] at hc
  rcases List.mem_append.mp hc with hc | hc
  · simp [numeralChar, List.mem_takeWhile_imp hc]
  · by_cases hw : t.takeWhile Char.isDigit = []
    · rw [decimal, if_pos hw] at h
      cases h
    · rw [decimal, if_neg hw] at h
      obtain ⟨frac, hf, -⟩ := Option.map_eq_some_iff.mp h
      exact fraction_chars hf c hc

theorem decimal_digits {t : Text} (hne : t ≠ []) (h : ∀ c ∈ t, c.isDigit) :
    decimal t = some (natural t) := by
  have htake : t.takeWhile Char.isDigit = t := List.takeWhile_eq_self_iff.mpr h
  have hdrop : t.dropWhile Char.isDigit = [] := List.dropWhile_eq_nil_iff.mpr h
  rw [decimal, htake, if_neg hne, hdrop]
  simp [fraction]

theorem numeralChar_range {c : Char} (h : numeralChar c) : 0x2e ≤ c.toNat ∧ c.toNat ≤ 0x39 := by
  rcases Bool.or_eq_true_iff.mp h with hd | hp
  · have hr : 0x30 ≤ c.toNat ∧ c.toNat ≤ 0x39 := Char.isDigit_iff_toNat.mp hd
    exact ⟨le_trans (by decide) hr.1, hr.2⟩
  · rw [of_decide_eq_true hp]
    decide

theorem jsSpace_numeralChar {c : Char} (h : numeralChar c) : jsSpace c = false := by
  have hr := numeralChar_range h
  simp [jsSpace]
  omega

theorem numeralChar_ne {c d : Char} (h : numeralChar c) (hd : numeralChar d = false) : d ≠ c := by
  rintro rfl
  simp [h] at hd

theorem trim_numeral {t : Text} (h : ∀ c ∈ t, numeralChar c) : trim t = t := by
  have hs : ∀ c ∈ t, ¬jsSpace c := fun c hc => by simp [jsSpace_numeralChar (h c hc)]
  rw [trim, List.dropWhile_eq_self_iff.mpr ?_, List.rdropWhile_eq_self_iff.mpr ?_]
  · exact fun hne => hs _ (List.getLast_mem hne)
  · exact fun hne => hs _ (List.getElem_mem hne)

-- What a numeral of the table is to the decoder.
structure Readable (number : Text → Num) (t : Text) : Prop where
  chars : ∀ c ∈ t, numeralChar c
  number_eq : number t = .fin (value t)
  pos : 0 < value t

-- A type name without the separators.
structure Clean (name : Text) : Prop where
  comma : ',' ∉ name
  bar : '|' ∉ name
  plain : Plain name

def typeNames : List Text :=
  [['裂', '缝'], ['胶', '水'], ['灰', '尘'], ['油', '污'], ['磨', '损'], ['黑', '线'],
    ['无', '缺', '陷']]

theorem typeNames_clean : ∀ name ∈ typeNames, Clean name := by
  have hnames : ∀ name ∈ typeNames,
      ',' ∉ name ∧ '|' ∉ name ∧ ∀ c ∈ name, c ∉ ['?', '&', '=', '#', '%', '+'] := by
    simp [typeNames]
  exact fun name hn => ⟨(hnames name hn).1, (hnames name hn).2.1, (hnames name hn).2.2⟩

theorem columns_clean {data : PageData} {c : Text × List Text} (hc : c ∈ data.columns) :
    Clean c.1 :=
  typeNames_clean c.1 (List.mem_map_of_mem (f := Prod.fst) hc)

section
variable {number : Text → Num} {name t : Text} {arr : List Text}

theorem not_mem_numeral (h : ∀ c ∈ t, numeralChar c) {d : Char} (hd : numeralChar d = false) :
    d ∉ t :=
  fun hm => numeralChar_ne (h d hm) hd rfl

theorem plain_numeral (h : ∀ c ∈ t, numeralChar c) : Plain t := by
  intro c hc hs
  have hspecial : ∀ d ∈ ['?', '&', '=', '#', '%', '+'], numeralChar d = false := by
    simp [numeralChar]
  exact numeralChar_ne (h c hc) (hspecial c hs) rfl

theorem readItem_numeral (hn : Clean name) (ht : Readable number t) :
    readItem number (name ++ '|' :: t) = some (Entry.read ⟨name, value t⟩) := by
  have hbar : '|' ∉ t := not_mem_numeral ht.chars (by decide)
  have hsplit : (name ++ '|' :: t).splitOn '|' = [name, t] := by
    rw [List.splitOn_append_cons_self_of_not_mem hn.bar, List.splitOn_eq_singleton hbar]
  rw [readItem, if_neg (by simp), hsplit]
  simp [trim_numeral ht.chars, ht.number_eq, Num.isNaN, Num.positive, ht.pos, Entry.read]

-- An empty parameter is split into one empty item, which is skipped.
theorem readParam_some (t : Text) :
    readParam number (some t) = (t.splitOn ',').filterMap (readItem number) := by
  cases t with
  | nil => simp [readParam, readItem]
  | cons c t => rfl

theorem readParam_encode (hn : Clean name) (ht : ∀ t ∈ arr, Readable number t) :
    readParam number (some (encode name arr)) = (column name arr).map Entry.read := by
  rcases eq_or_ne arr [] with rfl | hne
  · rfl
  have hitems : ∀ item ∈ arr.map (fun num => name ++ '|' :: num), ',' ∉ item := by
    intro item hi
    obtain ⟨t, hm, rfl⟩ := List.mem_map.mp hi
    have hcomma : ',' ∉ t := not_mem_numeral (ht t hm).chars (by decide)
    simp [hn.comma, hcomma]
  rw [readParam_some, encode, List.splitOn_intercalate ',' hitems (by simpa using hne),
    List.filterMap_map, column, List.map_map, ← List.filterMap_eq_map]
  exact List.filterMap_congr fun t hm => readItem_numeral hn (ht t hm)

theorem plain_encode (hn : Clean name) (ht : ∀ t ∈ arr, Readable number t) :
    Plain (encode name arr) := by
  induction arr with
  | nil => exact fun c hc => absurd hc List.not_mem_nil
  | cons t rest ih =>
    have ih := ih fun x hx => ht x (List.mem_cons_of_mem t hx)
    have hitem : Plain (name ++ '|' :: t) :=
      hn.plain.append (plain_cons (by decide) (plain_numeral (ht t List.mem_cons_self).chars))
    rcases eq_or_ne rest [] with rfl | hne
    · rwa [encode, List.map_singleton, List.intercalate_singleton]
    · rw [encode, List.map_cons, List.intercalate_cons_of_ne_nil (by simpa using hne)]
      exact (hitem.append (plain_cons (by decide) (plain_nil))).append ih

end

theorem inOrder_read (a b : Entry ℚ) : inOrder a.read b.read = Sorting.keyLe Entry.pos a b := by
  have hiff : 0 < a.pos - b.pos ↔ ¬a.pos ≤ b.pos := sub_pos.trans not_le.symm
  have hdiff : (a.read.pos.sub b.read.pos).positive = decide (0 < a.pos - b.pos) := rfl
  rw [inOrder, hdiff, decide_eq_decide.mpr hiff, decide_not, Bool.not_not, Sorting.keyLe]

theorem onLoad_columns {number : Text → Num} {data : PageData} {options : Options}
    (ho : [options.d1, options.d2, options.d3, options.d4, options.d5, options.d6, options.d7] =
      data.columns.map fun c => some (encode c.1 c.2))
    (hr : ∀ c ∈ data.columns, ∀ t ∈ c.2, Readable number t) :
    onLoad number options =
      ((table data).mergeSort (Sorting.keyLe Entry.pos)).map Entry.read := by
  have hread : (data.columns.map fun c => some (encode c.1 c.2)).flatMap (readParam number) =
      (table data).map Entry.read := by
    rw [table, List.map_flatMap, List.flatMap_map]
    exact List.flatMap_congr fun c hc => readParam_encode (columns_clean hc) (hr c hc)
  rw [onLoad, ho, hread]
  exact (List.map_mergeSort fun a _ b _ => (inOrder_read a b).symm).symm

def PageData.ReadExactly (data : PageData) (number : Text → Num) : Prop :=
  ∀ c ∈ data.columns, ∀ t ∈ c.2, ∀ q, decimal t = some q → number t = .fin q

theorem readable_of_numerals {number : Text → Num} {data : PageData} (hd : data.Numerals)
    (hn : data.ReadExactly number) : ∀ c ∈ data.columns, ∀ t ∈ c.2, Readable number t := by
  intro c hc t ht
  obtain ⟨q, hq, hpos⟩ := hd c hc t ht
  have hv : value t = q := by rw [value, hq, Option.getD_some]
  exact ⟨decimal_chars hq, hv ▸ hn c hc t ht q hq, hv ▸ hpos⟩

theorem options_goStatPage {navigateTo : Text → Options} (hnav : Delivers navigateTo)
    {data : PageData} (hp : ∀ c ∈ data.columns, Plain (encode c.1 c.2)) :
    let options := navigateTo (goStatPage data)
    [options.d1, options.d2, options.d3, options.d4, options.d5, options.d6, options.d7] =
      data.columns.map fun c => some (encode c.1 c.2) := by
  have hplain : ∀ t ∈ data.columns.map (fun c => encode c.1 c.2), Plain t := by
    intro t ht
    obtain ⟨c, hc, rfl⟩ := List.mem_map.mp ht
    exact hp c hc
  rw [goStatPage, hnav _ _ _ _ _ _ _ hplain]
  rfl

theorem statistics_show_table (data : PageData) (navigateTo : Text → Options)
    (number : Text → Num) (hnav : Delivers navigateTo) (hd : data.Numerals)
    (hn : data.ReadExactly number) :
    ∃ shown, onLoad number (navigateTo (goStatPage data)) = shown.map Entry.read ∧
      StablySorted Entry.pos (table data) shown := by
  have hr := readable_of_numerals hd hn
  have hplain : ∀ c ∈ data.columns, Plain (encode c.1 c.2) := fun c hc =>
    plain_encode (columns_clean hc) (hr c hc)
  exact ⟨_, onLoad_columns (options_goStatPage hnav hplain) hr,
    Sorting.stablySorted_mergeSort (table data)⟩

-- The arrays that index.js holds.
def sampleData : PageData where
  posDefect := [['8', '3']]
  posGlue := []
  posDust := []
  posOil := [['5', '2']]
  posWear := []
  posBlackline := [['2', '3']]
  posNone := []

def readNumeral (t : Text) : Num := (decimal t).elim .nan .fin

theorem sample_shown : ∃ shown,
    onLoad readNumeral (queryOptions (goStatPage sampleData)) = shown.map Entry.read ∧
      StablySorted Entry.pos [⟨['裂', '缝'], 83⟩, ⟨['油', '污'], 52⟩, ⟨['黑', '线'], 23⟩] shown := by
  have h83 : decimal ['8', '3'] = some 83 := decimal_digits (by simp) (by simp)
  have h52 : decimal ['5', '2'] = some 52 := decimal_digits (by simp) (by simp)
  have h23 : decimal ['2', '3'] = some 23 := decimal_digits (by simp) (by simp)
  have hd : sampleData.Numerals := by
    simp [PageData.Numerals, PageData.columns, sampleData, h83, h52, h23]
  have ht : table sampleData =
      [⟨['裂', '缝'], 83⟩, ⟨['油', '污'], 52⟩, ⟨['黑', '线'], 23⟩] := by
    simp [table, PageData.columns, sampleData, column, value, h83, h52, h23]
  rw [← ht]
  refine statistics_show_table sampleData queryOptions readNumeral delivers_queryOptions hd ?_
  intro c _ t _ q hq
  rw [readNumeral, hq]
  rfl

end FabricInspection.MiniProgram
