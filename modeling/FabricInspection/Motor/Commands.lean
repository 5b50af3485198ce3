import FabricInspection.Motor.Pid

namespace FabricInspection

def speedMidUs : Nat := 750
def pulseHalfCirc : Nat := 200
def pulseFullCirc : Nat := 400

open Concurrency.Program (read write when)

def Motor.reset (pin : Pin → Bool) : Motor where
  pin := pin
  pwm := fun _ => none
  gMotorRun := false
  gDirectionReverse := false
  gMotorSpeedUs := speedMidUs
  closedLoopEnable := false
  targetSpeedMmps := 200
  pid := Pid.init

-- `found i` says whether rt_device_find knows the device of motor i. Its timer has not been started.
def motorHwInit (found : MotorId → Bool) (m : Motor) : Motor :=
  let m := m.setPin (.pulseNeg .motor1) false
  let m := m.setPin (.pulseNeg .motor2) false
  let m := m.setPin (.dirMinus .motor1) false
  let m := m.setPin (.dirMinus .motor2) false
  let m := m.setPin (.ena .motor1) false
  let m := m.setPin (.ena .motor2) false
  let m := { m with pwm := fun i => if found i then some ⟨false, 0, 0⟩ else none }
  if m.missing then m else { m with gMotorSpeedUs := speedMidUs }

def motorSetSpeedRpmBoth (rpm : UInt16) : Prog Unit := do
  let missing ← read fun s => s.motor.missing
  when (!missing) do
    rtPwmSet .ctrl .motor1 (Motor.periodNs rpm) (Motor.periodNs rpm / 2)
    rtPwmSet .ctrl .motor2 (Motor.periodNs rpm) (Motor.periodNs rpm / 2)

def motorSetDirection (reverse : Bool) : Prog Unit :=
  if reverse = false then do
    rtPinWrite .ctrl (.dirPlus .motor1) false
    rtPinWrite .ctrl (.dirPlus .motor2) false
    rtPinWrite .ctrl (.ena .motor1) true
    rtPinWrite .ctrl (.ena .motor2) false
  else do
    rtPinWrite .ctrl (.dirPlus .motor1) true
    rtPinWrite .ctrl (.dirPlus .motor2) true
    rtPinWrite .ctrl (.ena .motor1) false
    rtPinWrite .ctrl (.ena .motor2) true

def setMotorRun (b : Bool) : Prog Unit :=
  write fun s => { s with motor := { s.motor with gMotorRun := b } }

def setClosedLoop (b : Bool) : Prog Unit :=
  write fun s => { s with motor := { s.motor with closedLoopEnable := b } }

def setDirectionReverse (b : Bool) : Prog Unit :=
  write fun s => { s with motor := { s.motor with gDirectionReverse := b } }

def setTargetSpeed (v : ℚ) : Prog Unit :=
  write fun s => { s with motor := { s.motor with targetSpeedMmps := v } }

-- Both branches of the source disable both outputs.
def motorContinuousStop : Prog Unit := do
  let run ← read fun s => s.motor.gMotorRun
  when run (setMotorRun false)
  rtPwmDisable .ctrl .motor1
  rtPwmDisable .ctrl .motor2

def stopClosedLoop : Prog Unit := do
  let closed ← read fun s => s.motor.closedLoopEnable
  when closed (setClosedLoop false)

def motorSetSpeedLevel (periodUs : Nat) : Prog Unit := do
  write fun s => { s with motor := { s.motor with gMotorSpeedUs := periodUs } }
  let openLoop ← read fun s => s.motor.gMotorRun && !s.motor.closedLoopEnable
  when openLoop do
    let freqHz := 1000000 / periodUs
    let rpm := freqHz * 60 / microSteps
    let pulseFreq := rpm * microSteps / 60
    let pulseFreq := if pulseFreq < 1 then 1 else pulseFreq
    let periodNs := 1000000000 / pulseFreq
    rtPwmSet .ctrl .motor1 periodNs (periodNs / 2)
    rtPwmSet .ctrl .motor2 periodNs (periodNs / 2)

-- The two arms of the source's `if (motor_id == 1)` are this one with the motors exchanged.
def motorMoveSteps (motorId : MotorId) (steps : Nat) (reverse : Bool) : Prog Unit := do
  let closed ← read fun s => s.motor.closedLoopEnable
  when closed do
    setClosedLoop false
    motorContinuousStop
    rtThreadMdelay .ctrl 10
  motorContinuousStop
  rtThreadMdelay .ctrl 10
  let freqHz := 500
  let periodNs := 1000000000 / freqHz
  rtPinWrite .ctrl (.dirPlus motorId) reverse
  rtPinWrite .ctrl (.ena motorId) true
  rtPinWrite .ctrl (.ena motorId.other) false
  rtPwmSet .ctrl motorId periodNs (periodNs / 2)
  rtPwmEnable .ctrl motorId
  let timeMs := steps * 1000 / freqHz
  rtThreadMdelay .ctrl (if timeMs < 20 then 20 else timeMs)
  rtPwmDisable .ctrl motorId
  rtPinWrite .ctrl (.ena .motor1) false
  rtPinWrite .ctrl (.ena .motor2) false
  let speedUs ← read fun s => s.motor.gMotorSpeedUs
  motorSetSpeedLevel speedUs

def motorAccelStart : Prog Unit := do
  let run ← read fun s => s.motor.gMotorRun
  when (!run) do
    setMotorRun true
    let reverse ← read fun s => s.motor.gDirectionReverse
    motorSetDirection reverse
    rtPwmEnable .ctrl .motor1
    rtPwmEnable .ctrl .motor2

-- Every caller has 0 < stepRpm.
def motorAccelLoop (targetRpm stepRpm stepDelayMs rpm : Nat) : Prog Unit :=
  if _h : 0 < stepRpm ∧ rpm ≤ targetRpm then do
    motorSetSpeedRpmBoth (UInt16.ofNat rpm)
    rtThreadMdelay .ctrl stepDelayMs
    motorAccelLoop targetRpm stepRpm stepDelayMs (rpm + stepRpm)
  else .ret ()
termination_by targetRpm + 1 - rpm

def motorAccel (startRpm targetRpm stepRpm stepDelayMs : Nat) : Prog Unit :=
  if startRpm ≥ targetRpm then do
    motorSetSpeedRpmBoth (UInt16.ofNat targetRpm)
    motorAccelStart
  else do
    motorSetSpeedRpmBoth (UInt16.ofNat startRpm)
    motorAccelStart
    rtThreadMdelay .ctrl stepDelayMs
    motorAccelLoop targetRpm stepRpm stepDelayMs (startRpm + stepRpm)
    motorSetSpeedRpmBoth (UInt16.ofNat targetRpm)

def targetRpm (targetSpeedMmps : ℚ) : Nat :=
  let rpm := ⌊targetSpeedMmps * 60 / (3.14159 * 60)⌋₊
  if rpm < 30 then 30 else rpm

def beep (who : Party) (ms : Nat) : Prog Unit := do
  rtPinWrite who .buzzer true
  rtThreadMdelay who ms
  rtPinWrite who .buzzer false

def uartCtrlSwitch : Char → Prog Unit
  | 'b' => do
    stopClosedLoop
    motorContinuousStop
    call .ctrl (.uart4Write ['p', 'p'])
    beep .ctrl 100
  | 's' => do
    stopClosedLoop
    motorContinuousStop
  | 'u' => do
    stopClosedLoop
    motorContinuousStop
    rtThreadMdelay .ctrl 20
    setDirectionReverse false
    let reverse ← read fun s => s.motor.gDirectionReverse
    motorSetDirection reverse
    let target ← read fun s => targetRpm s.motor.targetSpeedMmps
    motorAccel 50 target 5 80
    setClosedLoop true
  | 'o' => do
    motorContinuousStop
    setClosedLoop true
    setDirectionReverse true
    let reverse ← read fun s => s.motor.gDirectionReverse
    motorSetDirection reverse
    rtPwmEnable .ctrl .motor2
    rtPwmDisable .ctrl .motor1
  | 'h' => motorMoveSteps .motor1 pulseHalfCirc false
  | 'a' => motorMoveSteps .motor1 pulseFullCirc false
  | 'y' => motorMoveSteps .motor1 pulseHalfCirc true
  | 'z' => motorMoveSteps .motor1 pulseFullCirc true
  | 'd' => motorMoveSteps .motor2 pulseHalfCirc false
  | 'x' => motorMoveSteps .motor2 pulseFullCirc false
  | 'p' => motorMoveSteps .motor2 pulseHalfCirc true
  | 'q' => motorMoveSteps .motor2 pulseFullCirc true
  | 'w' => setTargetSpeed 300
  | 'm' => setTargetSpeed 200
  | 'l' => setTargetSpeed 100
  | 't' => do
    stopClosedLoop
    motorContinuousStop
    setDirectionReverse false
    let reverse ← read fun s => s.motor.gDirectionReverse
    motorSetDirection reverse
    motorAccel 100 200 20 50
  | '(' => write fun s =>
      { s.emit .counted with round := { s.round with imageCount := s.round.imageCount + 1 } }
  | ')' => do
    beep .ctrl 80
    rtThreadMdelay .ctrl 80
    beep .ctrl 80
    write fun s =>
      { s.emit (.announced s.round.imageCount) with
        round := { s.round with detectionRoundCnt := s.round.imageCount } }
    write fun s => { s with round := { s.round with imageCount := 0 } }
  | _ => .ret ()

-- A wake-up that finds both UARTs empty handles nothing.
def uartCtrlThread : Option Char → Prog Unit
  | none => .ret ()
  | some ch => do
    emit (.command ch)
    uartCtrlSwitch ch
    emit (.handled ch)

end FabricInspection
