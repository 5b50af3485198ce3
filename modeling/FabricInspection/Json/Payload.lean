import FabricInspection.Inspection.Csv
import FabricInspection.Json.RoundTrip

namespace FabricInspection.CJson
open Numerals

def createString (s : Bytes) : Item := .string (cString s)

def addItemToArray (array item : Item) : Item :=
  match array with
  | .array child => .array (child ++ [item])
  | other => other

def addItemToObject (object : Item) (name : Bytes) (item : Item) : Item :=
  match object with
  | .object child => .object (child ++ [(name, item)])
  | other => other

def addNumberToObject (object : Item) (name : Bytes) (number : Nat) : Item :=
  addItemToObject object name (.number (.finite number))

def addStringToObject (object : Item) (name string : Bytes) : Item :=
  addItemToObject object name (createString string)

def getObjectItemCaseSensitive (object : Item) (name : Bytes) : Option Item :=
  match object with
  | .object child => (child.find? fun m => m.1 = name).map Prod.snd
  | _ => none

def Item.asString : Item → Option Bytes
  | .string s => some s
  | _ => none

def Item.asInt : Item → Option Int
  | .number d => some (valueint d)
  | _ => none

def Item.elements : Item → List Item
  | .array child => child
  | _ => []

def Item.members : Item → List (Bytes × Item)
  | .object child => child
  | _ => []

section
variable (sprintfG : Nat → ℚ → Bytes) (id : UInt32)

-- The second half of the two upload functions: the text of `root` goes into a string of the post,
-- which `id` numbers.
def propertyPost (identifier : Bytes) (root : Item) : Option Bytes :=
  (print sprintfG false root).bind fun valueStr =>
    let propRoot := addStringToObject (.object []) (ascii "id") (decimal id.toNat)
    let entry := addStringToObject (.object []) (ascii "value") valueStr
    let params := addItemToObject (.object []) identifier entry
    print sprintfG false (addItemToObject propRoot (ascii "params") params)

def reportRoot (total : UInt8) (results : List String) : Item :=
  let arr := results.foldl (fun arr name => addItemToArray arr (createString (ascii name)))
    (.array [])
  addItemToObject (addNumberToObject (.object []) (ascii "total") total.toNat) (ascii "results") arr

def onenetUploadDefectReport (total : UInt8) (results : List String) : Option Bytes :=
  propertyPost sprintfG id (ascii "defect_report") (reportRoot total results)

def countRoot (counts : List (String × Nat)) : Item :=
  counts.foldl (fun root count => addNumberToObject root (ascii count.1) count.2) (.object [])

def onenetUploadDefectCount (counts : List (String × Nat)) : Option Bytes :=
  propertyPost sprintfG id (ascii "defect_count") (countRoot counts)

end

-- How a subscriber takes a post apart: the text in it is parsed once more.
def readPost (identifier payload : Bytes) : Option (Bytes × Item) := do
  let root ← parse payload
  let id ← (← getObjectItemCaseSensitive root (ascii "id")).asString
  let params ← getObjectItemCaseSensitive root (ascii "params")
  let entry ← getObjectItemCaseSensitive params identifier
  let text ← (← getObjectItemCaseSensitive entry (ascii "value")).asString
  let value ← parse text
  some (id, value)

def readReport (payload : Bytes) : Option (Bytes × Int × List Bytes) := do
  let post ← readPost (ascii "defect_report") payload
  let total ← (← getObjectItemCaseSensitive post.2 (ascii "total")).asInt
  let results ← getObjectItemCaseSensitive post.2 (ascii "results")
  let names ← results.elements.mapM Item.asString
  some (post.1, total, names)

def readCount (payload : Bytes) : Option (Bytes × List (Bytes × Option Int)) := do
  let post ← readPost (ascii "defect_count") payload
  some (post.1, post.2.members.map fun m => (m.1, m.2.asInt))

theorem parse_printed {item : Item} {text : Bytes}
    (h : Reads (parseValue nestingLimit) text item) : parse text = some item := by
  rw [parse, parseWithOpts_printed h]
  rfl

theorem decimal_noNul (n : Nat) : 0 ∉ decimal n := fun h => by
  have := decimal_digits n 0 h
  simp [isDigit] at this

theorem isInt_natCast {n : Nat} (h : n ≤ 2147483647) : IsInt (.finite n) :=
  ⟨n, by rw [intMin]; omega, by rw [intMax]; omega, rfl⟩

theorem valueint_natCast {n : Nat} (h : n ≤ 2147483647) : valueint (.finite n) = n :=
  valueint_finite (n := n) (by rw [intMin]; omega) (by rw [intMax]; omega)

theorem ascii_keys : ascii "id" ≠ ascii "params" ∧ ascii "total" ≠ ascii "results" ∧
    0 ∉ ascii "id" ∧ 0 ∉ ascii "params" ∧ 0 ∉ ascii "value" ∧ 0 ∉ ascii "total" ∧
    0 ∉ ascii "results" ∧ 0 ∉ ascii "defect_report" ∧ 0 ∉ ascii "defect_count" := by
  decide

-- A post within the limits is printed, and gives back its number and its object.
theorem readPost_propertyPost (sprintfG : Nat → ℚ → Bytes) (id : UInt32) {identifier : Bytes}
    (hi : 0 ∉ identifier) {root : Item} (h : root.Within IsInt nestingLimit) :
    ∃ payload, propertyPost sprintfG id identifier root = some payload ∧
      readPost identifier payload = some (decimal id.toNat, root) := by
  obtain ⟨hne, -, hid, hparams, hvalue, -⟩ := ascii_keys
  obtain ⟨valueStr, hprint, hreads⟩ := printValue_reads sprintfG false h 0
  have hnumber := decimal_noNul id.toNat
  have hpost : (Item.object [(ascii "id", .string (decimal id.toNat)), (ascii "params",
      .object [(identifier, .object [(ascii "value", .string valueStr)])])]).Within IsInt
        nestingLimit := by
    refine .object (by simp [hid, hparams]) fun m hm => ?_
    rcases List.mem_pair.mp hm with rfl | rfl
    · exact .string hnumber
    refine .object (by simpa using hi) fun m hm => ?_
    rw [List.mem_singleton.mp hm]
    refine .object (by simpa using hvalue) fun m hm => ?_
    rw [List.mem_singleton.mp hm]
    exact .string hreads.noNul
  obtain ⟨payload, hpayload, hread⟩ := printValue_reads sprintfG false hpost 0
  refine ⟨payload, ?_, ?_⟩
  · rw [propertyPost, print, hprint, Option.bind_some]
    simp only [addStringToObject, addItemToObject, createString, cString_eq hnumber,
      cString_eq hreads.noNul, List.nil_append, List.cons_append]
    exact hpayload
  · simp [readPost, parse_printed hread, getObjectItemCaseSensitive, Item.asString,
      hne, parse_printed hreads]

theorem addItemToArray_foldl (items : List Item) (child : List Item) :
    items.foldl addItemToArray (.array child) = .array (child ++ items) := by
  induction items generalizing child with
  | nil => rw [List.foldl_nil, List.append_nil]
  | cons item items ih => rw [List.foldl_cons, addItemToArray, ih, List.append_assoc,
      List.singleton_append]

theorem reportRoot_eq (total : UInt8) {results : List String}
    (h : ∀ name ∈ results, 0 ∉ ascii name) :
    reportRoot total results = .object [(ascii "total", .number (.finite total.toNat)),
      (ascii "results", .array (results.map fun name => .string (ascii name)))] := by
  have harray : results.foldl (fun arr name => addItemToArray arr (createString (ascii name)))
      (.array []) = .array (results.map fun name => .string (ascii name)) := by
    have hmap : results.map (fun name => createString (ascii name)) =
        results.map fun name => .string (ascii name) :=
      List.map_congr_left fun name hname => by rw [createString, cString_eq (h name hname)]
    have hfold := addItemToArray_foldl (results.map fun name => createString (ascii name)) []
    rw [List.foldl_map, List.nil_append, hmap] at hfold
    exact hfold
  rw [reportRoot, harray]
  rfl

theorem countRoot_foldl (counts : List (String × Nat)) (child : List (Bytes × Item)) :
    counts.foldl (fun root count => addNumberToObject root (ascii count.1) count.2)
      (.object child) =
        .object (child ++ counts.map fun c => (ascii c.1, Item.number (.finite c.2))) := by
  induction counts generalizing child with
  | nil => rw [List.foldl_nil, List.map_nil, List.append_nil]
  | cons c counts ih =>
    rw [List.foldl_cons, addNumberToObject, addItemToObject, ih, List.append_assoc, List.map_cons,
      List.singleton_append]

section
variable (sprintfG : Nat → ℚ → Bytes) (id : UInt32)

theorem readReport_upload (total : UInt8) {results : List String}
    (h : ∀ name ∈ results, 0 ∉ ascii name) :
    ∃ payload, onenetUploadDefectReport sprintfG id total results = some payload ∧
      readReport payload = some (decimal id.toNat, (total.toNat : Int), results.map ascii) := by
  obtain ⟨-, hne, -, -, -, htotal, hresults, hpost, -⟩ := ascii_keys
  have hsmall : total.toNat ≤ 2147483647 := by have := total.toNat_lt; omega
  have hroot : (reportRoot total results).Within IsInt nestingLimit := by
    rw [reportRoot_eq total h]
    refine .object (by simp [htotal, hresults]) fun m hm => ?_
    rcases List.mem_pair.mp hm with rfl | rfl
    · exact .number (isInt_natCast hsmall)
    refine .array fun item hi => ?_
    obtain ⟨name, hname, rfl⟩ := List.mem_map.mp hi
    exact .string (h name hname)
  obtain ⟨payload, hpayload, hread⟩ := readPost_propertyPost sprintfG id hpost hroot
  refine ⟨payload, hpayload, ?_⟩
  have hnames : (results.map fun name => Item.string (ascii name)).mapM Item.asString =
      some (results.map ascii) := by
    rw [List.mapM_map]
    exact List.mapM_pure (m := Option) (f := ascii)
  rw [readReport, hread, reportRoot_eq total h]
  simp [getObjectItemCaseSensitive, Item.asInt, Item.elements, hne, hnames,
    valueint_natCast hsmall]

theorem readCount_upload {counts : List (String × Nat)}
    (h : ∀ c ∈ counts, 0 ∉ ascii c.1 ∧ c.2 ≤ 2147483647) :
    ∃ payload, onenetUploadDefectCount sprintfG id counts = some payload ∧
      readCount payload = some (decimal id.toNat,
        counts.map fun c => (ascii c.1, some (c.2 : Int))) := by
  obtain ⟨-, -, -, -, -, -, -, -, hpost⟩ := ascii_keys
  have heq : countRoot counts = .object (counts.map fun c => (ascii c.1, .number (.finite c.2))) :=
    countRoot_foldl counts []
  have hroot : (countRoot counts).Within IsInt nestingLimit := by
    rw [heq]
    refine .object (fun m hm => ?_) fun m hm => ?_
    · obtain ⟨c, hc, rfl⟩ := List.mem_map.mp hm
      exact (h c hc).1
    · obtain ⟨c, hc, rfl⟩ := List.mem_map.mp hm
      exact .number (isInt_natCast (h c hc).2)
  obtain ⟨payload, hpayload, hread⟩ := readPost_propertyPost sprintfG id hpost hroot
  refine ⟨payload, hpayload, ?_⟩
  have hcounts : (counts.map fun c => (ascii c.1, Item.number (.finite c.2))).map
      (fun m => (m.1, m.2.asInt)) = counts.map fun c => (ascii c.1, some (c.2 : Int)) := by
    rw [List.map_map]
    refine List.map_congr_left fun c hc => ?_
    simp only [Function.comp_apply, Item.asInt, valueint_natCast (h c hc).2]
  rw [readCount, hread, heq]
  simp only [Option.bind_eq_bind, Option.bind_some, Item.members, hcounts]

end
end FabricInspection.CJson
