import FabricInspection.Json.Strings
import FabricInspection.Numerals.Binary64
import FabricInspection.Numerals.Decimal

namespace FabricInspection.CJson
open Numerals

-- A node of the tree; the name of an object's child stands beside it.
inductive Item where
  | null
  | isFalse
  | isTrue
  | number (valuedouble : Double)
  | string (valuestring : Bytes)
  | array (child : List Item)
  | object (child : List (Bytes × Item))

def intMax : Int := 2147483647
def intMin : Int := -2147483648

-- valueint, as parse_number and cJSON_CreateNumber set it.
def valueint : Double → Int
  | .infinite negative => if negative then intMin else intMax
  | .finite q =>
    if q ≥ intMax then intMax
    else if q ≤ intMin then intMin
    else q.num.tdiv q.den

def signed {α : Type} [Neg α] (negative : Bool) (a : α) : α := if negative then -a else a

def splitSign : Bytes → Bool × Bytes
  | [] => (false, [])
  | c :: s => if c = 0x2D then (true, s) else if c = 0x2B then (false, s) else (false, c :: s)

def splitFraction : Bytes → Bytes × Bytes
  | [] => ([], [])
  | c :: s =>
    if c = 0x2E then (s.takeWhile isDigit, s.dropWhile isDigit) else ([], c :: s)

def splitExponent : Bytes → Int × Bytes
  | [] => (0, [])
  | c :: s =>
    if c = 0x65 ∨ c = 0x45 then
      let exponent := (splitSign s).2
      if exponent.takeWhile isDigit = [] then (0, c :: s)
      else
        (signed (splitSign s).1 (natural (exponent.takeWhile isDigit) : Int),
          exponent.dropWhile isDigit)
    else (0, c :: s)

-- The exact value of the longest numeral at the start, and what is left behind it.
def strtod (s : Bytes) : Option (ℚ × Bytes) :=
  let numeral := (splitSign s).2
  let whole := numeral.takeWhile isDigit
  let fraction := splitFraction (numeral.dropWhile isDigit)
  if whole = [] ∧ fraction.1 = [] then none
  else
    let exponent := splitExponent fraction.2
    let magnitude : ℚ := natural (whole ++ fraction.1) * 10 ^ (exponent.1 - fraction.1.length)
    some (signed (splitSign s).1 magnitude, exponent.2)

def decimalInt (n : Int) : Bytes :=
  if n < 0 then 0x2D :: decimal n.natAbs else decimal n.natAbs

def magnitude : Double → Option ℚ
  | .finite q => some |q|
  | .infinite _ => none

-- An infinite value differs from a finite one by an infinite amount, which is the bound then too.
def compareDouble : Double → Double → Bool
  | .finite a, .finite b =>
    match magnitude (binary64 (a - b)), magnitude (binary64 (max |a| |b| / 2 ^ 52)) with
    | some difference, some bound => difference ≤ bound
    | none, some _ => false
    | _, none => true
  | _, _ => true

section
variable (sprintfG : Nat → ℚ → Bytes)

-- `sprintfG p` is sprintf "%1.pg".
def printNumber : Double → Option Bytes
  | .infinite _ => some (ascii "null")
  | .finite q =>
    let text :=
      if q = valueint (.finite q) then decimalInt (valueint (.finite q))
      else
        let short := sprintfG 15 q
        let test := (strtod short).map fun r => binary64 r.1
        if test.any fun d => compareDouble d (.finite q) then short else sprintfG 17 q
    if text.length ≤ 25 then some text else none

def separator (format : Bool) : Bytes := if format then [0x2C, 0x20] else [0x2C]

def newline (format : Bool) : Bytes := if format then [0x0A] else []

def tabs (format : Bool) (depth : Nat) : Bytes := if format then List.replicate depth 0x09 else []

def colon (format : Bool) : Bytes := if format then [0x3A, 0x09] else [0x3A]

-- print_value, with the brackets of print_array and print_object.
mutual
def printValue (format : Bool) : Nat → Item → Option Bytes
  | _, .null => some (ascii "null")
  | _, .isFalse => some (ascii "false")
  | _, .isTrue => some (ascii "true")
  | _, .number d => printNumber sprintfG d
  | _, .string s => some (printStringPtr s)
  | depth, .array child =>
    (printArray format (depth + 1) child).map fun body => 0x5B :: (body ++ [0x5D])
  | depth, .object child =>
    (printObject format (depth + 1) child).map fun body =>
      0x7B :: (newline format ++ body ++ tabs format depth ++ [0x7D])

-- The loop of print_array.
def printArray (format : Bool) : Nat → List Item → Option Bytes
  | _, [] => some []
  | depth, item :: next =>
    (printValue format depth item).bind fun text =>
      (printArray format depth next).map fun rest =>
        text ++ (if next.isEmpty then [] else separator format) ++ rest

-- The loop of print_object.
def printObject (format : Bool) : Nat → List (Bytes × Item) → Option Bytes
  | _, [] => some []
  | depth, member :: next =>
    (printMember format depth member).bind fun text =>
      (printObject format depth next).map fun rest =>
        text ++ (if next.isEmpty then [] else [0x2C]) ++ newline format ++ rest

def printMember (format : Bool) : Nat → Bytes × Item → Option Bytes
  | depth, (name, item) =>
    (printValue format depth item).map fun text =>
      tabs format depth ++ printStringPtr name ++ colon format ++ text
end

def print (format : Bool) (item : Item) : Option Bytes := printValue sprintfG format 0 item

end

-- What is left behind the white space; the last byte of the buffer is never passed.
def bufferSkipWhitespace (s : Bytes) : Bytes :=
  match s.dropWhile (· ≤ 32) with
  | [] => s.drop (s.length - 1)
  | c :: rest => c :: rest

def skipUtf8Bom (s : Bytes) : Bytes :=
  if 4 < s.length ∧ s.take 3 = [0xEF, 0xBB, 0xBF] then s.drop 3 else s

abbrev Parser (α : Type) := Bytes → Option (α × Bytes)

def numberByte (c : UInt8) : Bool := isDigit c || c ∈ [0x2B, 0x2D, 0x65, 0x45, 0x2E]

def numberText (s : Bytes) : Bytes := (s.take 63).takeWhile numberByte

def parseNumber : Parser Item := fun s =>
  (strtod (numberText s)).map fun r =>
    (.number (binary64 r.1), s.drop ((numberText s).length - r.2.length))

section
variable {α : Type}

-- The loop of parse_array and parse_object; every pass takes a byte, which `passes` counts.
def parseItems (element : Parser α) (close : UInt8) : Nat → Parser (List α)
  | 0, _ => none
  | passes + 1, s =>
    (element (bufferSkipWhitespace s)).bind fun item =>
      match bufferSkipWhitespace item.2 with
      | [] => none
      | c :: rest =>
        if c = 0x2C then
          (parseItems element close passes rest).map fun items => (item.1 :: items.1, items.2)
        else if c = close then some ([item.1], rest)
        else none

def parseList (element : Parser α) (opening close : UInt8) : Parser (List α)
  | [] => none
  | c :: s =>
    if c ≠ opening then none
    else
      match bufferSkipWhitespace s with
      | [] => none
      | d :: rest =>
        if d = close then some ([], rest)
        else parseItems element close (rest.length + 1) (d :: rest)

end

def parseMember (value : Parser Item) : Parser (Bytes × Item) := fun s =>
  (parseString s).bind fun name =>
    match bufferSkipWhitespace name.2 with
    | [] => none
    | c :: rest =>
      if c = 0x3A then
        (value (bufferSkipWhitespace rest)).map fun item => ((name.1, item.1), item.2)
      else none

def parseArray (value : Parser Item) : Parser Item := fun s =>
  (parseList value 0x5B 0x5D s).map fun r => (.array r.1, r.2)

def parseObject (value : Parser Item) : Parser Item := fun s =>
  (parseList (parseMember value) 0x7B 0x7D s).map fun r => (.object r.1, r.2)

def parseValueWith (array object : Parser Item) : Parser Item := fun s =>
  if (ascii "null").isPrefixOf s then some (.null, s.drop 4)
  else if (ascii "false").isPrefixOf s then some (.isFalse, s.drop 5)
  else if (ascii "true").isPrefixOf s then some (.isTrue, s.drop 4)
  else
    match s with
    | [] => none
    | c :: _ =>
      if c = 0x22 then (parseString s).map fun r => (.string r.1, r.2)
      else if c = 0x2D ∨ isDigit c then parseNumber s
      else if c = 0x5B then array s
      else if c = 0x7B then object s
      else none

-- parse_value with `nesting` levels left below the nesting limit.
def parseValue : Nat → Parser Item
  | 0 => parseValueWith (fun _ => none) (fun _ => none)
  | nesting + 1 => parseValueWith (parseArray (parseValue nesting)) (parseObject (parseValue nesting))

def nestingLimit : Nat := 1000

def parseWithLengthOpts (s : Bytes) (requireNullTerminated : Bool) : Option (Item × Bytes) :=
  if s = [] then none
  else
    (parseValue nestingLimit (bufferSkipWhitespace (skipUtf8Bom s))).bind fun r =>
      if requireNullTerminated then
        if (bufferSkipWhitespace r.2).head? = some 0 then some (r.1, bufferSkipWhitespace r.2)
        else none
      else some r

def parseWithOpts (value : Bytes) (requireNullTerminated : Bool) : Option (Item × Bytes) :=
  parseWithLengthOpts (cString value ++ [0]) requireNullTerminated

def parse (value : Bytes) : Option Item := (parseWithOpts value false).map Prod.fst

end FabricInspection.CJson
