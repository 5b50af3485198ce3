import FabricInspection.Board.Footprint
import FabricInspection.Concurrency.Machine

namespace FabricInspection

open Concurrency (Machine)

-- What uart_recv_thread sees of the board, and the part of the log that is about rounds.
structure Desk where
  ready : Bool
  buffer : Image
  total : UInt8
  insp : Inspection
  opens : Nat
  log : List Event

-- A pass of the thread ends with its rt_thread_mdelay(10).
def Event.tracked : Event → Bool
  | .counted | .announced _ | .committed _ | .taken | .copied _ | .classified _ _ | .opened _
  | .saved _ | .report _ _ | .count _ | .call .recv (.sleep 10) => true
  | _ => false

def Board.history (s : Board) : List Event := s.log.filter Event.tracked

def Board.desk (s : Board) : Desk :=
  ⟨s.rx.frameReady, s.rx.imageBuffer, s.round.detectionRoundCnt, s.insp, s.opens, s.history⟩

-- The '(' characters handled since the last ')', as image_count counts them.
def tallyStep (n : UInt8) : Event → UInt8
  | .counted => n + 1
  | .announced _ => 0
  | _ => n

def tally (log : List Event) : UInt8 := log.foldl tallyStep 0

theorem tally_snoc (log : List Event) (e : Event) :
    tally (log ++ [e]) = tallyStep (tally log) e := by
  simp only [tally, List.foldl_append, List.foldl_cons, List.foldl_nil]

inductive Phase where
  | idle
  | taking
  | took
  | copied
  | ran
  | parsing (total : UInt8)
  | stored
  | classified
  | advanced
  | compared (total : UInt8)
  | opened
  | saving (total : UInt8)
  | saved (total : UInt8)
  | reported
  | uploaded
  | clearedCounter
  | clearedLast
  | done
  | crashed (f : Fault)

namespace Desk

def note (x : Desk) (e : Event) : Desk := { x with log := x.log ++ [e] }

@[simp] theorem note_ready (x : Desk) (e : Event) : (x.note e).ready = x.ready := rfl
@[simp] theorem note_buffer (x : Desk) (e : Event) : (x.note e).buffer = x.buffer := rfl
@[simp] theorem note_total (x : Desk) (e : Event) : (x.note e).total = x.total := rfl
@[simp] theorem note_insp (x : Desk) (e : Event) : (x.note e).insp = x.insp := rfl
@[simp] theorem note_opens (x : Desk) (e : Event) : (x.note e).opens = x.opens := rfl
@[simp] theorem note_log (x : Desk) (e : Event) : (x.note e).log = x.log ++ [e] := rfl

def init : Desk where
  ready := false
  buffer := Vector.replicate imageSize 0
  total := UInt8.ofNat defaultDetectionRoundCnt
  insp := Inspection.init
  opens := 0
  log := []

end Desk

namespace Inspection

def storeAt (s : Inspection) (j : Nat) (h : j < defaultDetectionRoundCnt) (c : DefectClass) :
    Inspection :=
  { s with lastDetect := s.lastDetect.set j c }

def verdict (s : Inspection) : DefectClass := maxIdx s.nnomOutputData

end Inspection

-- Each step of the thread, from the phase it is in.
inductive RecvStep (w : World) : Phase → Desk → Phase → Desk → Prop
  | poll {x} (ready : x.ready = true) : RecvStep w .idle x .taking x
  | skip {x} : RecvStep w .idle x .done x
  | take {x} : RecvStep w .taking x .took { x.note .taken with ready := false }
  | copy {x} : RecvStep w .took x .copied
      { x.note (.copied x.buffer) with insp := { x.insp with nnomInputData := x.buffer } }
  | modelRun {x} : RecvStep w .copied x .ran
      { x with insp := { x.insp with nnomOutputData := w.modelRun x.insp.nnomInputData } }
  | readTotal {x} : RecvStep w .ran x (.parsing x.total) x
  | store {x} {t : UInt8} (below : x.insp.detectRound < t)
      (fits : x.insp.detectRound.toNat < defaultDetectionRoundCnt) :
      RecvStep w (.parsing t) x .stored
        { x with insp := x.insp.storeAt _ fits x.insp.verdict }
  | overrun {x} {t : UInt8} (below : x.insp.detectRound < t)
      (beyond : ¬x.insp.detectRound.toNat < defaultDetectionRoundCnt) :
      RecvStep w (.parsing t) x (.crashed (.lastDetect x.insp.detectRound.toNat)) x
  | pass {x} {t : UInt8} (above : ¬x.insp.detectRound < t) : RecvStep w (.parsing t) x .stored x
  | classify {x} : RecvStep w .stored x .classified
      { x.note (.classified x.insp.nnomInputData x.insp.verdict) with
        insp := x.insp.countOne x.insp.verdict }
  | advance {x} : RecvStep w .classified x .advanced
      { x with insp := { x.insp with detectRound := x.insp.detectRound + 1 } }
  | readAgain {x} : RecvStep w .advanced x (.compared x.total) x
  | wait {x} {t : UInt8} (below : ¬x.insp.detectRound ≥ t) : RecvStep w (.compared t) x .done x
  | openFails {x} {t : UInt8} (due : x.insp.detectRound ≥ t) (fails : w.openOk x.opens = false) :
      RecvStep w (.compared t) x .done { x.note (.opened false) with opens := x.opens + 1 }
  | opens {x} {t : UInt8} (due : x.insp.detectRound ≥ t) (succeeds : w.openOk x.opens = true) :
      RecvStep w (.compared t) x .opened { x.note (.opened true) with opens := x.opens + 1 }
  | readLast {x} : RecvStep w .opened x (.saving x.total) x
  | save {x} {t : UInt8} {file : List Text} (ok : csvFile x.insp.lastDetect t = .ok file) :
      RecvStep w (.saving t) x (.saved t) (x.note (.saved file))
  | saveFault {x} {t : UInt8} {f : Fault} (err : csvFile x.insp.lastDetect t = .error f) :
      RecvStep w (.saving t) x (.crashed f) x
  | report {x} {t : UInt8} {results : List String}
      (ok : defectReport x.insp.lastDetect t = .ok results) :
      RecvStep w (.saved t) x .reported (x.note (.report t results))
  | reportFault {x} {t : UInt8} {f : Fault} (err : defectReport x.insp.lastDetect t = .error f) :
      RecvStep w (.saved t) x (.crashed f) x
  | upload {x} : RecvStep w .reported x .uploaded
      (x.note (.count (defectCount x.insp.defectCounter)))
  | clearCounter {x} : RecvStep w .uploaded x .clearedCounter
      { x with insp := { x.insp with defectCounter := Vector.replicate defectClassCnt 0 } }
  | clearLast {x} : RecvStep w .clearedCounter x .clearedLast
      { x with insp := { x.insp with lastDetect := Vector.replicate defaultDetectionRoundCnt 0 } }
  | clearRound {x} : RecvStep w .clearedLast x .done
      { x with insp := { x.insp with detectRound := 0 } }
  | rest {x} : RecvStep w .done x .idle (x.note (.call .recv (.sleep 10)))

inductive EnvStep : Desk → Desk → Prop
  | counted (x) : EnvStep x (x.note .counted)
  | announced (x) : EnvStep x { x.note (.announced (tally x.log)) with total := tally x.log }
  | committed (x) (image : Image) :
      EnvStep x { x.note (.committed image) with ready := true, buffer := image }

def desk (w : World) : Machine Phase Desk where
  start := .idle
  init := Desk.init
  own := RecvStep w
  env := EnvStep

theorem RecvStep.log_prefix {w : World} {p q : Phase} {x y : Desk} (h : RecvStep w p x q y) :
    x.log <+: y.log := by
  cases h <;> simp

theorem EnvStep.log_prefix {x y : Desk} (h : EnvStep x y) : x.log <+: y.log := by
  cases h <;> simp

theorem EnvStep.insp {x y : Desk} (h : EnvStep x y) : y.insp = x.insp := by
  cases h <;> rfl

end FabricInspection
