import FabricInspection.Inspection.Thread
import FabricInspection.Concurrency.Contract

namespace FabricInspection

open Concurrency (Platform)

inductive Task where
  | ctrl | recv
  deriving DecidableEq

inductive Irq where
  | uart3 (d : UInt8)
  | pid (cnt : UInt16) (now : UInt32)

namespace Board

def initial (pin : Pin → Bool) (found : MotorId → Bool) : Board where
  rx := Receiver.init
  motor := (motorHwInit found (Motor.reset pin)).setPin .buzzer false
  round := ⟨0, UInt8.ofNat defaultDetectionRoundCnt⟩
  insp := Inspection.init
  opens := 0
  log := []

def received (s : Board) (rx : Receiver) : Option Image → Board
  | none => { s with rx := rx }
  | some image => { s.emit (.committed image) with rx := rx }

-- uart_rx_callback takes the bytes it reads one at a time.
def interrupt (s : Board) : Irq → Except Fault Board
  | .uart3 d => (s.rx.uartRxByte d).map fun p => s.received p.1 p.2
  | .pid cnt now => .ok (s.speedPidIteration cnt now)

end Board

def inspector (w : World) : Platform Board Fault where
  Thread := Task
  threadEq := inferInstance
  Input
    | .ctrl => Option Char
    | .recv => Unit
  Interrupt := Irq
  entry
    | .ctrl, ch => uartCtrlThread ch
    | .recv, () => uartRecvThread w
  interrupt e s := s.interrupt e

abbrev Config (w : World) := (inspector w).Config

def start (w : World) (pin : Pin → Bool) (found : MotorId → Bool) : Config w :=
  Platform.boot (Board.initial pin found)

end FabricInspection
