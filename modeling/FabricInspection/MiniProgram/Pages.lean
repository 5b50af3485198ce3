import FabricInspection.MiniProgram.Navigation
import Mathlib

namespace FabricInspection.MiniProgram

-- The arrays of index.js.
structure PageData where
  posDefect : List Text
  posGlue : List Text
  posDust : List Text
  posOil : List Text
  posWear : List Text
  posBlackline : List Text
  posNone : List Text

def encode (name : Text) (arr : List Text) : Text :=
  [','].intercalate (arr.map fun num => name ++ '|' :: num)

def goStatPage (data : PageData) : Text :=
  statUrl (encode ['裂', '缝'] data.posDefect) (encode ['胶', '水'] data.posGlue)
    (encode ['灰', '尘'] data.posDust) (encode ['油', '污'] data.posOil)
    (encode ['磨', '损'] data.posWear) (encode ['黑', '线'] data.posBlackline)
    (encode ['无', '缺', '陷'] data.posNone)

-- A number of the script. Rounding never changes the sign of a difference, so that the finite
-- ones are taken exactly.
inductive Num where
  | nan | posInf | negInf
  | fin (q : ℚ)
  deriving DecidableEq

namespace Num

def isNaN : Num → Bool
  | .nan => true
  | _ => false

-- `x > 0`
def positive : Num → Bool
  | .posInf => true
  | .fin q => 0 < q
  | _ => false

def sub : Num → Num → Num
  | .fin a, .fin b => .fin (a - b)
  | .posInf, .negInf | .posInf, .fin _ | .fin _, .negInf => .posInf
  | .negInf, .posInf | .negInf, .fin _ | .fin _, .posInf => .negInf
  | _, _ => .nan

end Num

structure Entry (ν : Type) where
  type : Text
  pos : ν
  deriving DecidableEq

-- White space and line terminators.
def jsSpace (c : Char) : Bool :=
  c.toNat ∈ [0x09, 0x0a, 0x0b, 0x0c, 0x0d, 0x20, 0xa0, 0x1680, 0x2028, 0x2029, 0x202f, 0x205f,
    0x3000, 0xfeff] || 0x2000 ≤ c.toNat && c.toNat ≤ 0x200a

def trim (t : Text) : Text := (t.dropWhile jsSpace).rdropWhile jsSpace

-- One element of itemList, and what it adds to allData.
def readItem (number : Text → Num) (item : Text) : Option (Entry Num) :=
  if item = [] ∨ '|' ∉ item then none
  else
    match item.splitOn '|' with
    | type :: posText :: _ =>
      let posNum := number (trim posText)
      if !posNum.isNaN && posNum.positive then some ⟨type, posNum⟩ else none
    | _ => none

def readParam (number : Text → Num) : Option Text → List (Entry Num)
  | none | some [] => []
  | some paramStr => (paramStr.splitOn ',').filterMap (readItem number)

-- The comparison of allData.sort: `b` goes before `a` only if a.pos - b.pos > 0.
def inOrder (a b : Entry Num) : Bool := !(a.pos.sub b.pos).positive

-- sortAllPos as onLoad of stat.js sets it.
def onLoad (number : Text → Num) (options : Options) : List (Entry Num) :=
  let paramList := [options.d1, options.d2, options.d3, options.d4, options.d5, options.d6,
    options.d7]
  (paramList.flatMap (readParam number)).mergeSort inOrder

-- The value of a numeral: digits with an optional fraction.
def natural (ds : Text) : Nat := ds.foldl (fun n d => 10 * n + (d.toNat - '0'.toNat)) 0

def fraction : Text → Option Text
  | [] => some []
  | '.' :: frac => if frac ≠ [] ∧ ∀ c ∈ frac, c.isDigit then some frac else none
  | _ => none

def decimal (t : Text) : Option ℚ :=
  let whole := t.takeWhile Char.isDigit
  if whole = [] then none
  else
    (fraction (t.dropWhile Char.isDigit)).map fun frac =>
      natural (whole ++ frac) / 10 ^ frac.length

end FabricInspection.MiniProgram
