import FabricInspection.Receiver.Callback
import FabricInspection.Concurrency.Program
import Mathlib

namespace FabricInspection

abbrev defectClassCnt : Nat := 7
abbrev defaultDetectionRoundCnt : Nat := 10

instance : NeZero defectClassCnt := ⟨by decide⟩

abbrev DefectClass := Fin defectClassCnt

abbrev Scores := Vector Int8 defectClassCnt

inductive MotorId where
  | motor1 | motor2
  deriving DecidableEq, Repr

def MotorId.other : MotorId → MotorId
  | .motor1 => .motor2
  | .motor2 => .motor1

inductive Pin where
  | ena (i : MotorId)
  | dirPlus (i : MotorId)
  | dirMinus (i : MotorId)
  | pulseNeg (i : MotorId)
  | buzzer
  deriving DecidableEq, Repr

structure Pwm where
  enabled : Bool
  period : Nat
  pulse : Nat
  deriving DecidableEq, Repr

-- The variables of speed_pid_thread, and the static ones of get_line_speed_mmps.
structure Pid where
  integral : ℚ
  prevError : ℚ
  wasEnabled : Bool
  filteredSpeed : ℚ
  lastCount : Int
  lastTimeMs : UInt32

-- `pwm i = none` is a pwm_dev pointer that is RT_NULL.
structure Motor where
  pin : Pin → Bool
  pwm : MotorId → Option Pwm
  gMotorRun : Bool
  gDirectionReverse : Bool
  gMotorSpeedUs : Nat
  closedLoopEnable : Bool
  targetSpeedMmps : ℚ
  pid : Pid

structure Announcement where
  imageCount : UInt8
  detectionRoundCnt : UInt8

structure Inspection where
  nnomInputData : Image
  nnomOutputData : Scores
  detectRound : UInt8
  defectCounter : Vector UInt16 defectClassCnt
  lastDetect : Vector DefectClass defaultDetectionRoundCnt

inductive Party where
  | ctrl | pid | recv
  deriving DecidableEq, Repr

inductive Call where
  | pinWrite (p : Pin) (level : Bool)
  | pwmSet (i : MotorId) (period pulse : Nat)
  | pwmEnable (i : MotorId)
  | pwmDisable (i : MotorId)
  | uart4Write (text : List Char)
  | sleep (ms : Nat)
  | wake
  deriving DecidableEq, Repr

abbrev Text := List Char

inductive Event where
  | command (ch : Char)
  | handled (ch : Char)
  | call (who : Party) (c : Call)
  | iteration
  | counted
  | announced (total : UInt8)
  | committed (image : Image)
  | taken
  | copied (image : Image)
  | classified (image : Image) (cls : DefectClass)
  | opened (ok : Bool)
  | saved (file : List Text)
  | report (total : UInt8) (results : List String)
  | count (counts : List (String × Nat))

-- `log` is what an observer of the board sees, oldest event first.
structure Board where
  rx : Receiver
  motor : Motor
  round : Announcement
  insp : Inspection
  opens : Nat
  log : List Event

-- The network of the nnom package, and how each call of open on the SD card ends.
structure World where
  modelRun : Image → Scores
  openOk : Nat → Bool

abbrev Prog := Concurrency.Program Board Fault

namespace Board

def emit (s : Board) (e : Event) : Board := { s with log := s.log ++ [e] }

@[simp] theorem emit_rx (s : Board) (e : Event) : (s.emit e).rx = s.rx := rfl
@[simp] theorem emit_motor (s : Board) (e : Event) : (s.emit e).motor = s.motor := rfl
@[simp] theorem emit_round (s : Board) (e : Event) : (s.emit e).round = s.round := rfl
@[simp] theorem emit_insp (s : Board) (e : Event) : (s.emit e).insp = s.insp := rfl
@[simp] theorem emit_opens (s : Board) (e : Event) : (s.emit e).opens = s.opens := rfl
@[simp] theorem emit_log (s : Board) (e : Event) : (s.emit e).log = s.log ++ [e] := rfl

end Board

namespace Motor

def setPin (m : Motor) (p : Pin) (level : Bool) : Motor :=
  { m with pin := Function.update m.pin p level }

def modifyPwm (m : Motor) (i : MotorId) (f : Pwm → Pwm) : Motor :=
  { m with pwm := Function.update m.pwm i ((m.pwm i).map f) }

def setPwm (m : Motor) (i : MotorId) (period pulse : Nat) : Motor :=
  m.modifyPwm i fun p => { p with period := period, pulse := pulse }

def switchPwm (m : Motor) (i : MotorId) (on : Bool) : Motor :=
  m.modifyPwm i fun p => { p with enabled := on }

def pwmOn (m : Motor) (i : MotorId) : Bool := (m.pwm i).any (·.enabled)

end Motor

open Concurrency.Program (write)

def emit (e : Event) : Prog Unit := write fun s => s.emit e

-- A call that only the log shows.
def call (who : Party) (c : Call) : Prog Unit := emit (.call who c)

def rtPinWrite (who : Party) (p : Pin) (level : Bool) : Prog Unit :=
  write fun s => { s.emit (.call who (.pinWrite p level)) with motor := s.motor.setPin p level }

def rtPwmSet (who : Party) (i : MotorId) (period pulse : Nat) : Prog Unit :=
  write fun s =>
    { s.emit (.call who (.pwmSet i period pulse)) with motor := s.motor.setPwm i period pulse }

def rtPwmEnable (who : Party) (i : MotorId) : Prog Unit :=
  write fun s => { s.emit (.call who (.pwmEnable i)) with motor := s.motor.switchPwm i true }

def rtPwmDisable (who : Party) (i : MotorId) : Prog Unit :=
  write fun s => { s.emit (.call who (.pwmDisable i)) with motor := s.motor.switchPwm i false }

def rtThreadMdelay (who : Party) (ms : Nat) : Prog Unit := do
  call who (.sleep ms)
  call who .wake

end FabricInspection
