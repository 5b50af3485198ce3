import FabricInspection.Queues.Ring
import FabricInspection.Board.System

namespace FabricInspection

open Concurrency (Platform)
open Queues (Ring)

def rtSerialRbBufsz : Nat := 64
def rtSemValueMax : Nat := 65535

abbrev RxFifo := Ring UInt8 rtSerialRbBufsz

inductive Uart where
  | uart4 | uart2
  deriving DecidableEq, Repr

-- Where the control thread stands in its loop. In `handle` it is inside the switch.
inductive RxStage where
  | take | suspended | read4 | read2 | handle
  deriving DecidableEq, Repr

-- The two UARTs and g_rx_sem in front of the control thread. `arrived`, `dispatched` and `bursts`
-- record what came in, what the switch was entered with and how much each interrupt brought.
structure Link (w : World) where
  fifo : Uart → RxFifo
  sem : Nat
  stage : RxStage
  config : Config w
  arrived : List (Uart × UInt8)
  dispatched : List (Uart × UInt8)
  bursts : List Nat

def rxFifoInit : RxFifo := ⟨fun _ => 0, ⟨0, by decide⟩, ⟨0, by decide⟩, false⟩

namespace Link
variable {w : World}

def init (w : World) (pin : Pin → Bool) (found : MotorId → Bool) : Link w where
  fifo := fun _ => rxFifoInit
  sem := 0
  stage := .take
  config := start w pin found
  arrived := []
  dispatched := []
  bursts := []

-- rt_sem_release: a suspended thread is resumed, and rt_sem_take returns to it.
def rtSemRelease (l : Link w) : Link w :=
  if l.stage = .suspended then { l with stage := .read4 }
  else if l.sem < rtSemValueMax then { l with sem := l.sem + 1 }
  else l

def uartRxCb (l : Link w) : Link w := l.rtSemRelease

-- The RX_IND branch, for the bytes that getc has to give.
def rtHwSerialIsr (l : Link w) (u : Uart) (bs : List UInt8) : Link w :=
  let fifo := (l.fifo u).pushAll bs
  let l := { l with
    fifo := Function.update l.fifo u fifo
    arrived := l.arrived ++ bs.map (u, ·)
    bursts := l.bursts ++ [bs.length] }
  if fifo.span ≠ 0 then l.uartRxCb else l

def rtSemTake (l : Link w) : Link w :=
  if 0 < l.sem then { l with sem := l.sem - 1, stage := .read4 } else { l with stage := .suspended }

-- rt_device_read of one byte. `other` is where the loop goes on when there is none.
def rtDeviceRead (l : Link w) (u : Uart) (other : RxStage) : Link w :=
  match (l.fifo u).pop with
  | none => { l with stage := other }
  | some (b, fifo) =>
    { l with
      fifo := Function.update l.fifo u fifo
      stage := .handle
      config := l.config.enter Task.ctrl (uartCtrlThread (some (Char.ofNat b.toNat)))
      dispatched := l.dispatched ++ [(u, b)] }

inductive Step : Link w → Link w → Prop
  | interrupt (l : Link w) (u : Uart) (bs : List UInt8) (hbs : bs ≠ []) :
      Step l (l.rtHwSerialIsr u bs)
  | take (l : Link w) (h : l.stage = .take) : Step l l.rtSemTake
  | read4 (l : Link w) (h : l.stage = .read4) : Step l (l.rtDeviceRead .uart4 .read2)
  | read2 (l : Link w) (h : l.stage = .read2) : Step l (l.rtDeviceRead .uart2 .take)
  | handled (l : Link w) (h : l.stage = .handle) (hb : l.config.blocked Task.ctrl) :
      Step l { l with stage := .take }
  | board (l : Link w) (a : (inspector w).Action) (d : Config w)
      (ha : ∀ x, a ≠ .start Task.ctrl x) (hs : Platform.step l.config a = some d) :
      Step l { l with config := d }

-- A run in which no FIFO overflows.
inductive Run (w : World) (pin : Pin → Bool) (found : MotorId → Bool) : Link w → Prop
  | init : Run w pin found (init w pin found)
  | step {l m : Link w} (h : Run w pin found l) (hs : Step l m)
      (hfull : ∀ u, (m.fifo u).full = false) : Run w pin found m

end Link
end FabricInspection
