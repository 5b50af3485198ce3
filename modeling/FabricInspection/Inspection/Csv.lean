import FabricInspection.Board.State

namespace FabricInspection

def defectNames : Vector String defectClassCnt :=
  #v["crack", "dirt", "glue", "line", "oil", "no defect", "wear"]

def names : List String :=
  ["first", "second", "third", "forth", "fifth", "sixth", "seventh", "eighth", "ninth", "tenth"]

def headerSize : Nat := 128
def lineSize : Nat := 256

def strlen (t : Text) : Nat := (t.map Char.utf8Size).sum

-- strcat also writes the terminator.
def strcat (size : Nat) (overflow : Nat → Fault) (dst src : Text) : Except Fault Text :=
  if strlen dst + strlen src + 1 ≤ size then .ok (dst ++ src)
  else .error (overflow (strlen dst + strlen src + 1))

def lastAt (lastDetect : Vector DefectClass defaultDetectionRoundCnt) (j : Nat) :
    Except Fault DefectClass :=
  if h : j < defaultDetectionRoundCnt then .ok lastDetect[j] else .error (.lastDetect j)

def nameAt (i : Nat) : Except Fault Text :=
  match names[i]? with
  | some name => .ok name.toList
  | none => .error (.names i)

def headerCell (total : UInt8) (header : Text) (i : Nat) : Except Fault Text := do
  let name ← nameAt i
  let header ← strcat headerSize .header header name
  if i + 1 ≠ total.toNat then strcat headerSize .header header [','] else .ok header

def csvHeader (total : UInt8) : Except Fault Text := do
  let header ← (List.range total.toNat).foldlM (headerCell total) ['t', 'y', 'p', 'e', ',']
  strcat headerSize .header header ['\n']

def tick (hit : Bool) : Text := if hit then [',', '√'] else [',']

def lineCell (lastDetect : Vector DefectClass defaultDetectionRoundCnt) (i : DefectClass)
    (line : Text) (j : Nat) : Except Fault Text := do
  let c ← lastAt lastDetect j
  strcat lineSize .line line (tick (c = i))

def csvLine (lastDetect : Vector DefectClass defaultDetectionRoundCnt) (total : UInt8)
    (i : DefectClass) : Except Fault Text := do
  let line ← (List.range total.toNat).foldlM (lineCell lastDetect i) defectNames[i].toList
  strcat lineSize .line line ['\n']

-- What the calls of write put into the file.
def csvFile (lastDetect : Vector DefectClass defaultDetectionRoundCnt) (total : UInt8) :
    Except Fault (List Text) := do
  let header ← csvHeader total
  let lines ← (List.finRange defectClassCnt).mapM (csvLine lastDetect total)
  .ok (header :: lines)

-- The "results" array of onenet_upload_defect_report.
def defectReport (lastDetect : Vector DefectClass defaultDetectionRoundCnt) (total : UInt8) :
    Except Fault (List String) :=
  (List.range total.toNat).mapM fun i => do
    let c ← lastAt lastDetect i
    .ok defectNames[c]

-- The object of onenet_upload_defect_count.
def defectCount (defectCounter : Vector UInt16 defectClassCnt) : List (String × Nat) :=
  (List.finRange defectClassCnt).map fun i => (defectNames[i], defectCounter[i].toNat)

end FabricInspection
