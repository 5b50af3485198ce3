import FabricInspection.Board.State

namespace FabricInspection

def microSteps : Nat := 400
def rtTickPerSecond : Nat := 1000
def encoderPpr : Nat := 500
def wheelCircumMm : ℚ := 188.4956
def encoder4x : Nat := encoderPpr * 4
def kp : ℚ := 1
def ki : ℚ := 0.05
def kd : ℚ := 0
def kiLimit : ℚ := 50
def filterAlpha : ℚ := 0.5
def pidDt : ℚ := 0.02

def clampBetween (lo hi x : ℚ) : ℚ :=
  let x := if x > hi then hi else x
  if x < lo then lo else x

namespace Pid

def init : Pid where
  integral := 0
  prevError := 0
  wasEnabled := false
  filteredSpeed := 0
  lastCount := 0
  lastTimeMs := 0

def clear (p : Pid) (wasEnabled : Bool) : Pid :=
  { p with integral := 0, prevError := 0, filteredSpeed := 0, wasEnabled := wasEnabled }

def wrap (delta : Int) : Int :=
  if delta > 32767 then delta - 65536
  else if delta < -32767 then delta + 65536
  else delta

-- `cnt` is TIM3->CNT and `now` the tick count.
def getLineSpeedMmps (p : Pid) (cnt : UInt16) (now : UInt32) : Pid × ℚ :=
  let dt : ℚ := (now - p.lastTimeMs).toNat / rtTickPerSecond
  if dt ≤ 0 then (p, p.filteredSpeed)
  else
    let delta := wrap (cnt.toNat - p.lastCount)
    let rawSpeed := delta * wheelCircumMm / encoder4x / dt
    let filtered :=
      if p.filteredSpeed = 0 then rawSpeed
      else filterAlpha * rawSpeed + (1 - filterAlpha) * p.filteredSpeed
    ({ p with filteredSpeed := filtered, lastCount := cnt.toNat, lastTimeMs := now }, filtered)

def control (p : Pid) (target : ℚ) (cnt : UInt16) (now : UInt32) : Pid × ℚ :=
  let p := if p.wasEnabled then p else p.clear true
  let (p, currentSpeed) := p.getLineSpeedMmps cnt now
  let error := target - currentSpeed
  let integral := clampBetween (-kiLimit) kiLimit (p.integral + error * pidDt)
  let derivative := (error - p.prevError) / pidDt
  let output := clampBetween 0 800 (kp * error + ki * integral + kd * derivative)
  ({ p with integral := integral, prevError := error }, output)

end Pid

namespace Motor

def missing (m : Motor) : Bool := (m.pwm .motor1).isNone || (m.pwm .motor2).isNone

def periodNs (rpm : UInt16) : Nat :=
  let freqHz := rpm.toNat * microSteps / 60
  let freqHz := if freqHz < 1 then 1 else freqHz
  1000000000 / freqHz

-- The device that motor_set_active_speed_rpm writes to.
def active (m : Motor) : MotorId := if m.gDirectionReverse then .motor2 else .motor1

end Motor

namespace Board

def motorSetActiveSpeedRpm (s : Board) (rpm : UInt16) : Board :=
  if s.motor.missing then s
  else
    let period := Motor.periodNs rpm
    { s.emit (.call .pid (.pwmSet s.motor.active period (period / 2))) with
      motor := s.motor.setPwm s.motor.active period (period / 2) }

-- One pass of the loop of speed_pid_thread. It never blocks before its rt_thread_mdelay and runs at
-- a higher priority than uart_ctrl, so the control thread sees it as one step.
def speedPidIteration (s : Board) (cnt : UInt16) (now : UInt32) : Board :=
  let s := s.emit .iteration
  if s.motor.closedLoopEnable then
    let (pid, output) := s.motor.pid.control s.motor.targetSpeedMmps cnt now
    { s with motor := { s.motor with pid := pid } }.motorSetActiveSpeedRpm
      (UInt16.ofNat ⌊output⌋₊)
  else { s with motor := { s.motor with pid := s.motor.pid.clear false } }

end Board
end FabricInspection
