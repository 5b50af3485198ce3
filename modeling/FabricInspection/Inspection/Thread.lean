import FabricInspection.Inspection.Csv
import FabricInspection.Motor.Commands

namespace FabricInspection

open Concurrency.Program (read write when lift)

def argmaxStep (output : Scores) (best : Int8 × DefectClass) (i : DefectClass) :
    Int8 × DefectClass :=
  if getElem output i i.isLt > best.1 then (getElem output i i.isLt, i) else best

def maxIdx (output : Scores) : DefectClass :=
  ((List.finRange defectClassCnt).foldl (argmaxStep output) (-128, 0)).2

namespace Inspection

def init : Inspection where
  nnomInputData := Vector.replicate imageSize 0
  nnomOutputData := Vector.replicate defectClassCnt 0
  detectRound := 0
  defectCounter := Vector.replicate defectClassCnt 0
  lastDetect := Vector.replicate defaultDetectionRoundCnt 0

def countOne (s : Inspection) (c : DefectClass) : Inspection :=
  { s with defectCounter := s.defectCounter.set c (getElem s.defectCounter c c.isLt + 1) c.isLt }

end Inspection

def setInsp (f : Inspection → Inspection) : Prog Unit :=
  write fun s => { s with insp := f s.insp }

def readTotal : Prog UInt8 := read fun s => s.round.detectionRoundCnt

def storeLast (round : UInt8) (c : DefectClass) : Prog Unit :=
  if h : round.toNat < defaultDetectionRoundCnt then
    setInsp fun s => { s with lastDetect := s.lastDetect.set round.toNat c }
  else .fail (.lastDetect round.toNat)

def parseOutputResult : Prog Unit := do
  let c ← read fun s => maxIdx s.insp.nnomOutputData
  let total ← readTotal
  let round ← read fun s => s.insp.detectRound
  when (round < total) (storeLast round c)
  write fun s =>
    { s.emit (.classified s.insp.nnomInputData c) with insp := s.insp.countOne c }

def prepareInputData : Prog Unit :=
  write fun s =>
    { s.emit (.copied s.rx.imageBuffer) with
      insp := { s.insp with nnomInputData := s.rx.imageBuffer } }

def defectInspectMain (w : World) : Prog Unit := do
  prepareInputData
  setInsp fun s => { s with nnomOutputData := w.modelRun s.nnomInputData }
  parseOutputResult

def openFile (w : World) : Prog Bool :=
  .act (fun s => { s.emit (.opened (w.openOk s.opens)) with opens := s.opens + 1 })
    fun s => .ret (w.openOk s.opens)

def generateDefectStatCsv (w : World) : Prog Unit := do
  let ok ← openFile w
  when ok do
    let total ← readTotal
    let last ← read fun s => s.insp.lastDetect
    let file ← lift (csvFile last total)
    emit (.saved file)
    let results ← lift (defectReport last total)
    emit (.report total results)
    rtThreadMdelay .recv 300
    write fun s => s.emit (.count (defectCount s.insp.defectCounter))
    rtThreadMdelay .recv 200
    beep .recv 80
    rtThreadMdelay .recv 80
    setInsp fun s => { s with defectCounter := Vector.replicate defectClassCnt 0 }
    setInsp fun s => { s with lastDetect := Vector.replicate defaultDetectionRoundCnt 0 }
    setInsp fun s => { s with detectRound := 0 }

-- One pass of the loop of uart_recv_thread.
def uartRecvThread (w : World) : Prog Unit := do
  let ready ← read fun s => s.rx.frameReady
  when ready do
    write fun s => { s.emit .taken with rx := { s.rx with frameReady := false } }
    defectInspectMain w
    setInsp fun s => { s with detectRound := s.detectRound + 1 }
    let total ← readTotal
    let round ← read fun s => s.insp.detectRound
    when (round ≥ total) (generateDefectStatCsv w)
  rtThreadMdelay .recv 10

end FabricInspection
