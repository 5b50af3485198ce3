import FabricInspection.Concurrency.Invariants
import FabricInspection.Motor.Feedback
import FabricInspection.Motor.PwmTimer
import FabricInspection.Motor.Safety

namespace FabricInspection

open Concurrency (Platform)
open Concurrency.Program

-- Step periods between 30 and 200 rpm for the commands, and up to 800 rpm for the closed loop.
def shortest : Party → Nat
  | .pid => Motor.periodNs 800
  | _ => Motor.periodNs 200

def longest : Party → Nat
  | .pid => Motor.periodNs 0
  | _ => Motor.periodNs 30

structure StepSignal (who : Party) (period pulse : Nat) : Prop where
  half : pulse = period / 2
  short : shortest who ≤ period
  long : period ≤ longest who

namespace StepSignal

theorem widen {who : Party} {period pulse : Nat} (h : StepSignal who period pulse) :
    StepSignal .pid period pulse := by
  have hshort : shortest .pid ≤ shortest who := by cases who <;> decide
  have hlong : longest who ≤ longest .pid := by cases who <;> decide
  exact ⟨h.half, hshort.trans h.short, h.long.trans hlong⟩

theorem of_rpm {rpm : Nat} (hlow : 30 ≤ rpm) (hhigh : rpm ≤ 200) :
    StepSignal .ctrl (Motor.periodNs (UInt16.ofNat rpm))
      (Motor.periodNs (UInt16.ofNat rpm) / 2) := by
  have hnat : (UInt16.ofNat rpm).toNat = rpm := by
    rw [UInt16.toNat_ofNat', Nat.mod_eq_of_lt (by omega)]
  refine ⟨rfl, periodNs_antitone ?_, periodNs_antitone ?_⟩
  · rw [UInt16.le_iff_toNat_le, hnat]
    exact hhigh
  · rw [UInt16.le_iff_toNat_le, hnat]
    exact hlow

theorem of_output {rpm : Nat} (h : rpm ≤ 800) :
    StepSignal .pid (Motor.periodNs (UInt16.ofNat rpm))
      (Motor.periodNs (UInt16.ofNat rpm) / 2) := by
  refine ⟨rfl, periodNs_antitone ?_, periodNs_le _⟩
  rw [UInt16.le_iff_toNat_le, UInt16.toNat_ofNat', Nat.mod_eq_of_lt (by omega)]
  exact h

end StepSignal

theorem targetRpm_low (v : ℚ) : 30 ≤ targetRpm v := by
  simp only [targetRpm]
  split <;> omega

theorem targetRpm_high {v : ℚ} (h : v ≤ 300) : targetRpm v ≤ 200 := by
  have hfloor : ⌊v * 60 / (3.14159 * 60)⌋₊ ≤ 200 := by
    refine Nat.floor_le_of_le ?_
    norm_num
    linarith
  simp only [targetRpm]
  split <;> omega

namespace Pid

theorem control_integral (p : Pid) (target : ℚ) (cnt : UInt16) (now : UInt32) :
    -kiLimit ≤ (p.control target cnt now).1.integral ∧
      (p.control target cnt now).1.integral ≤ kiLimit := by
  have hlimit : -kiLimit ≤ kiLimit := by norm_num [kiLimit]
  exact ⟨le_clampBetween _ _ _, clampBetween_le hlimit _⟩

end Pid

-- What the globals of the motors keep to.
structure Tuned (m : Motor) : Prop where
  low : -kiLimit ≤ m.pid.integral
  high : m.pid.integral ≤ kiLimit
  target : m.targetSpeedMmps ≤ 300
  speed : m.gMotorSpeedUs = speedMidUs
  pwm : ∀ i p, m.pwm i = some p → p.period = 0 ∧ p.pulse = 0 ∨ StepSignal .pid p.period p.pulse

namespace Tuned
variable {m : Motor}

theorem modifyPwm (h : Tuned m) (i : MotorId) {f : Pwm → Pwm}
    (hf : ∀ p, p.period = 0 ∧ p.pulse = 0 ∨ StepSignal .pid p.period p.pulse →
      (f p).period = 0 ∧ (f p).pulse = 0 ∨ StepSignal .pid (f p).period (f p).pulse) :
    Tuned (m.modifyPwm i f) := by
  refine ⟨h.low, h.high, h.target, h.speed, fun j p hp => ?_⟩
  by_cases hj : j = i
  · subst hj
    simp only [Motor.modifyPwm, Function.update_self, Option.map_eq_some_iff] at hp
    obtain ⟨q, hq, rfl⟩ := hp
    exact hf q (h.pwm j q hq)
  · simp only [Motor.modifyPwm, Function.update_of_ne hj] at hp
    exact h.pwm j p hp

theorem setPin (h : Tuned m) (p : Pin) (level : Bool) : Tuned (m.setPin p level) :=
  ⟨h.low, h.high, h.target, h.speed, h.pwm⟩

theorem switchPwm (h : Tuned m) (i : MotorId) (on : Bool) : Tuned (m.switchPwm i on) :=
  h.modifyPwm i fun _ hp => hp

theorem setPwm (h : Tuned m) (i : MotorId) {who : Party} {period pulse : Nat}
    (hs : StepSignal who period pulse) : Tuned (m.setPwm i period pulse) :=
  h.modifyPwm i fun _ _ => .inr hs.widen

theorem initial (pin : Pin → Bool) (found : MotorId → Bool) :
    Tuned (Board.initial pin found).motor := by
  have hset : (motorHwInit found (Motor.reset pin)).pid = Pid.init ∧
      (motorHwInit found (Motor.reset pin)).targetSpeedMmps = 200 ∧
      (motorHwInit found (Motor.reset pin)).gMotorSpeedUs = speedMidUs := by
    simp only [motorHwInit]
    split <;> exact ⟨rfl, rfl, rfl⟩
  obtain ⟨hpid, htarget, hspeed⟩ := hset
  have hpwm (i : MotorId) : (motorHwInit found (Motor.reset pin)).pwm i =
      if found i then some ⟨false, 0, 0⟩ else none := by
    simp only [motorHwInit]
    split <;> rfl
  refine setPin ⟨?_, ?_, ?_, hspeed, fun i p hp => .inl ?_⟩ .buzzer false
  · norm_num [hpid, Pid.init, kiLimit]
  · norm_num [hpid, Pid.init, kiLimit]
  · norm_num [htarget]
  · rw [hpwm] at hp
    split at hp
    · obtain rfl := Option.some.inj hp
      exact ⟨rfl, rfl⟩
    · cases hp

end Tuned

def Event.Within : Event → Prop
  | .call who (.pwmSet _ period pulse) => StepSignal who period pulse
  | _ => True

structure Steered (s : Board) : Prop where
  motor : Tuned s.motor
  log : ∀ e ∈ s.log, e.Within

namespace Steered
variable {s : Board}

theorem emit (h : Steered s) {e : Event} (he : e.Within) : Steered (s.emit e) := by
  refine ⟨h.motor, fun e' hm => ?_⟩
  rcases List.mem_append.mp hm with hm | hm
  · exact h.log e' hm
  · exact List.mem_singleton.mp hm ▸ he

theorem note {t : Board} {e : Event} (h : Steered s) (hm : t.motor = s.motor)
    (hl : t.log = s.log ++ [e]) (he : e.Within) : Steered t := by
  refine ⟨hm ▸ h.motor, ?_⟩
  rw [hl]
  exact (h.emit he).log

theorem withMotor (h : Steered s) {m : Motor} (hm : Tuned m) : Steered { s with motor := m } :=
  ⟨hm, h.log⟩

theorem upholds_motor {f : Motor → Motor} (hf : ∀ m, Tuned m → Tuned (f m)) :
    Upholds Steered (write fun s => { s with motor := f s.motor } : Prog Unit) :=
  upholds_write fun _ hs => hs.withMotor (hf _ hs.motor)

theorem upholds_emit {e : Event} (he : e.Within) : Upholds Steered (FabricInspection.emit e) :=
  upholds_write fun _ hs => hs.emit he

theorem upholds_call {who : Party} {c : Call} {f : Motor → Motor}
    (hc : (Event.call who c).Within) (hf : ∀ m, Tuned m → Tuned (f m)) :
    Upholds Steered
      (write fun s => { s.emit (.call who c) with motor := f s.motor } : Prog Unit) :=
  upholds_write fun _ hs => (hs.emit hc).withMotor (hf _ hs.motor)

theorem upholds_pin (who : Party) (p : Pin) (level : Bool) :
    Upholds Steered (rtPinWrite who p level) :=
  upholds_call (c := .pinWrite p level) (f := (·.setPin p level)) trivial
    fun _ hm => hm.setPin p level

theorem upholds_pwmEnable (i : MotorId) : Upholds Steered (rtPwmEnable .ctrl i) :=
  upholds_call (c := .pwmEnable i) (f := (·.switchPwm i true)) trivial
    fun _ hm => hm.switchPwm i true

theorem upholds_pwmDisable (i : MotorId) : Upholds Steered (rtPwmDisable .ctrl i) :=
  upholds_call (c := .pwmDisable i) (f := (·.switchPwm i false)) trivial
    fun _ hm => hm.switchPwm i false

theorem upholds_pwmSet (i : MotorId) {period pulse : Nat} (h : StepSignal .ctrl period pulse) :
    Upholds Steered (rtPwmSet .ctrl i period pulse) :=
  upholds_call (c := .pwmSet i period pulse) (f := (·.setPwm i period pulse)) h
    fun _ hm => hm.setPwm i h

theorem upholds_delay (who : Party) (ms : Nat) : Upholds Steered (rtThreadMdelay who ms) :=
  upholds_seq (upholds_emit trivial) (upholds_emit trivial)

theorem upholds_beep (who : Party) (ms : Nat) : Upholds Steered (beep who ms) :=
  upholds_seq (upholds_pin who _ _) (upholds_seq (upholds_delay who ms) (upholds_pin who _ _))

theorem upholds_setMotorRun (b : Bool) : Upholds Steered (setMotorRun b) :=
  upholds_motor (f := fun m => { m with gMotorRun := b }) fun _ hm =>
    ⟨hm.low, hm.high, hm.target, hm.speed, hm.pwm⟩

theorem upholds_setClosedLoop (b : Bool) : Upholds Steered (setClosedLoop b) :=
  upholds_motor (f := fun m => { m with closedLoopEnable := b }) fun _ hm =>
    ⟨hm.low, hm.high, hm.target, hm.speed, hm.pwm⟩

theorem upholds_setDirectionReverse (b : Bool) : Upholds Steered (setDirectionReverse b) :=
  upholds_motor (f := fun m => { m with gDirectionReverse := b }) fun _ hm =>
    ⟨hm.low, hm.high, hm.target, hm.speed, hm.pwm⟩

theorem upholds_setTargetSpeed {v : ℚ} (hv : v ≤ 300) : Upholds Steered (setTargetSpeed v) :=
  upholds_motor (f := fun m => { m with targetSpeedMmps := v }) fun _ hm =>
    ⟨hm.low, hm.high, hv, hm.speed, hm.pwm⟩

theorem upholds_stopClosedLoop : Upholds Steered stopClosedLoop :=
  upholds_bind_read fun _ _ => upholds_when (upholds_setClosedLoop false)

theorem upholds_motorContinuousStop : Upholds Steered motorContinuousStop :=
  upholds_bind_read fun _ _ => upholds_seq (upholds_when (upholds_setMotorRun false))
    (upholds_seq (upholds_pwmDisable _) (upholds_pwmDisable _))

theorem upholds_motorSetSpeedRpmBoth {rpm : Nat} (hlow : 30 ≤ rpm) (hhigh : rpm ≤ 200) :
    Upholds Steered (motorSetSpeedRpmBoth (UInt16.ofNat rpm)) :=
  have hsignal := StepSignal.of_rpm hlow hhigh
  upholds_bind_read fun _ _ => upholds_when
    (upholds_seq (upholds_pwmSet _ hsignal) (upholds_pwmSet _ hsignal))

theorem upholds_motorSetDirection (reverse : Bool) :
    Upholds Steered (motorSetDirection reverse) := by
  cases reverse with
  | false => exact upholds_seq (upholds_pin _ _ _) (upholds_seq (upholds_pin _ _ _)
      (upholds_seq (upholds_pin _ _ _) (upholds_pin _ _ _)))
  | true => exact upholds_seq (upholds_pin _ _ _) (upholds_seq (upholds_pin _ _ _)
      (upholds_seq (upholds_pin _ _ _) (upholds_pin _ _ _)))

-- The level is the one of SPEED_MID_US, which makes 199 rpm.
theorem upholds_motorSetSpeedLevel : Upholds Steered (motorSetSpeedLevel speedMidUs) := by
  have hsignal : StepSignal .ctrl (1000000000 / 1326) (1000000000 / 1326 / 2) :=
    ⟨rfl, by decide, by decide⟩
  have hlevel : Upholds Steered (write fun s => { s with
      motor := { s.motor with gMotorSpeedUs := speedMidUs } } : Prog Unit) :=
    upholds_motor (f := fun m => { m with gMotorSpeedUs := speedMidUs }) fun _ hm =>
      ⟨hm.low, hm.high, hm.target, rfl, hm.pwm⟩
  refine upholds_seq hlevel ?_
  exact upholds_bind_read fun _ _ => upholds_when
    (upholds_seq (upholds_pwmSet _ hsignal) (upholds_pwmSet _ hsignal))

theorem upholds_motorMoveSteps (i : MotorId) (steps : Nat) (reverse : Bool) :
    Upholds Steered (motorMoveSteps i steps reverse) := by
  have hsignal : StepSignal .ctrl (1000000000 / 500) (1000000000 / 500 / 2) :=
    ⟨rfl, by decide, by decide⟩
  refine upholds_bind_read fun _ _ => upholds_seq (upholds_when ?_) ?_
  · exact upholds_seq (upholds_setClosedLoop false) (upholds_seq upholds_motorContinuousStop
      (upholds_delay _ 10))
  · refine upholds_seq upholds_motorContinuousStop (upholds_seq (upholds_delay _ 10) ?_)
    refine upholds_seq (upholds_pin _ _ _) (upholds_seq (upholds_pin _ _ _)
      (upholds_seq (upholds_pin _ _ _) ?_))
    refine upholds_seq (upholds_pwmSet _ hsignal) (upholds_seq (upholds_pwmEnable _) ?_)
    refine upholds_seq (upholds_delay _ _) (upholds_seq (upholds_pwmDisable _) ?_)
    refine upholds_seq (upholds_pin _ _ _) (upholds_seq (upholds_pin _ _ _) ?_)
    exact upholds_bind_read fun s hs => hs.motor.speed ▸ upholds_motorSetSpeedLevel

theorem upholds_motorAccelStart : Upholds Steered motorAccelStart := by
  refine upholds_bind_read fun _ _ => upholds_when (upholds_seq (upholds_setMotorRun true) ?_)
  refine upholds_bind_read fun _ _ => upholds_seq (upholds_motorSetDirection _) ?_
  exact upholds_seq (upholds_pwmEnable _) (upholds_pwmEnable _)

theorem upholds_motorAccelLoop {target step delay rpm : Nat} (hlow : 30 ≤ rpm)
    (hhigh : target ≤ 200) : Upholds Steered (motorAccelLoop target step delay rpm) := by
  induction rpm using motorAccelLoop.induct target step with
  | case1 rpm hrpm ih =>
    rw [motorAccelLoop, dif_pos hrpm]
    exact upholds_seq (upholds_motorSetSpeedRpmBoth hlow (hrpm.2.trans hhigh))
      (upholds_seq (upholds_delay _ delay) (ih (hlow.trans (Nat.le_add_right _ _))))
  | case2 rpm hrpm =>
    rw [motorAccelLoop, dif_neg hrpm]
    trivial

theorem upholds_motorAccel {start target step delay : Nat} (hstart : 30 ≤ start)
    (hlow : 30 ≤ target) (hhigh : target ≤ 200) :
    Upholds Steered (motorAccel start target step delay) := by
  have htarget := upholds_motorSetSpeedRpmBoth hlow hhigh
  unfold motorAccel
  split
  · exact upholds_seq htarget upholds_motorAccelStart
  · refine upholds_seq (upholds_motorSetSpeedRpmBoth hstart (by omega))
      (upholds_seq upholds_motorAccelStart (upholds_seq (upholds_delay _ delay) ?_))
    exact upholds_seq (upholds_motorAccelLoop (hstart.trans (Nat.le_add_right _ _)) hhigh) htarget

theorem upholds_uartCtrlSwitch (ch : Char) : Upholds Steered (uartCtrlSwitch ch) := by
  unfold uartCtrlSwitch
  split
  case h_1 => exact upholds_seq upholds_stopClosedLoop (upholds_seq upholds_motorContinuousStop
      (upholds_seq (upholds_emit trivial) (upholds_beep _ 100)))
  case h_2 => exact upholds_seq upholds_stopClosedLoop upholds_motorContinuousStop
  case h_3 =>
    refine upholds_seq upholds_stopClosedLoop (upholds_seq upholds_motorContinuousStop ?_)
    refine upholds_seq (upholds_delay _ 20) (upholds_seq (upholds_setDirectionReverse _) ?_)
    refine upholds_bind_read fun _ _ => upholds_seq (upholds_motorSetDirection _) ?_
    refine upholds_bind_read fun s hs => upholds_seq ?_ (upholds_setClosedLoop true)
    exact upholds_motorAccel (by decide) (targetRpm_low _) (targetRpm_high hs.motor.target)
  case h_4 =>
    refine upholds_seq upholds_motorContinuousStop (upholds_seq (upholds_setClosedLoop _)
      (upholds_seq (upholds_setDirectionReverse _) ?_))
    exact upholds_bind_read fun _ _ => upholds_seq (upholds_motorSetDirection _)
      (upholds_seq (upholds_pwmEnable _) (upholds_pwmDisable _))
  case h_13 | h_14 | h_15 => exact upholds_setTargetSpeed (by norm_num)
  case h_16 =>
    refine upholds_seq upholds_stopClosedLoop (upholds_seq upholds_motorContinuousStop
      (upholds_seq (upholds_setDirectionReverse _) ?_))
    exact upholds_bind_read fun _ _ => upholds_seq (upholds_motorSetDirection _)
      (upholds_motorAccel (by decide) (by decide) (by decide))
  case h_17 => exact upholds_write fun _ hs => hs.note rfl rfl trivial
  case h_18 =>
    refine upholds_seq (upholds_beep _ 80) (upholds_seq (upholds_delay _ 80)
      (upholds_seq (upholds_beep _ 80) (upholds_seq ?_ ?_)))
    · exact upholds_write fun _ hs => hs.note rfl rfl trivial
    · exact upholds_write fun _ hs => ⟨hs.motor, hs.log⟩
  case h_19 => trivial
  all_goals exact upholds_motorMoveSteps _ _ _

theorem upholds_uartCtrlThread (x : Option Char) : Upholds Steered (uartCtrlThread x) := by
  cases x with
  | none => trivial
  | some ch => exact upholds_seq (upholds_emit trivial) (upholds_seq (upholds_uartCtrlSwitch ch)
      (upholds_emit trivial))

theorem upholds_setInsp (f : Inspection → Inspection) : Upholds Steered (setInsp f) :=
  upholds_write fun _ hs => ⟨hs.motor, hs.log⟩

theorem upholds_defectInspectMain (w : World) : Upholds Steered (defectInspectMain w) := by
  have hstore (round : UInt8) (c : DefectClass) : Upholds Steered (storeLast round c) := by
    unfold storeLast
    split
    · exact upholds_setInsp _
    · trivial
  refine upholds_seq (upholds_write fun _ hs => hs.note rfl rfl trivial)
    (upholds_seq (upholds_setInsp _) ?_)
  refine upholds_bind_read fun _ _ => upholds_bind_read fun _ _ => upholds_bind_read fun _ _ => ?_
  exact upholds_seq (upholds_when (hstore _ _))
    (upholds_write fun _ hs => hs.note rfl rfl trivial)

theorem upholds_generateDefectStatCsv (w : World) : Upholds Steered (generateDefectStatCsv w) := by
  have hopen : Upholds Steered (openFile w) := fun _ hs =>
    ⟨hs.note rfl rfl trivial, trivial⟩
  refine upholds_bind hopen fun ok => upholds_when ?_
  refine upholds_bind_read fun _ _ => upholds_bind_read fun _ _ => ?_
  refine upholds_bind (upholds_lift _) fun file => upholds_seq (upholds_emit trivial) ?_
  refine upholds_bind (upholds_lift _) fun results => upholds_seq (upholds_emit trivial) ?_
  refine upholds_seq (upholds_delay _ 300) (upholds_seq ?_ ?_)
  · exact upholds_write fun _ hs => hs.note rfl rfl trivial
  · refine upholds_seq (upholds_delay _ 200) (upholds_seq (upholds_beep _ 80) ?_)
    exact upholds_seq (upholds_delay _ 80) (upholds_seq (upholds_setInsp _)
      (upholds_seq (upholds_setInsp _) (upholds_setInsp _)))

theorem upholds_uartRecvThread (w : World) : Upholds Steered (uartRecvThread w) := by
  refine upholds_bind_read fun _ _ => upholds_seq (upholds_when ?_) (upholds_delay _ 10)
  refine upholds_seq (upholds_write fun _ hs => hs.note rfl rfl trivial) ?_
  refine upholds_seq (upholds_defectInspectMain w) (upholds_seq (upholds_setInsp _) ?_)
  exact upholds_bind_read fun _ _ => upholds_bind_read fun _ _ =>
    upholds_when (upholds_generateDefectStatCsv w)

theorem motorSetActiveSpeedRpm (h : Steered s) {rpm : Nat} (hrpm : rpm ≤ 800) :
    Steered (s.motorSetActiveSpeedRpm (UInt16.ofNat rpm)) := by
  have hsignal := StepSignal.of_output hrpm
  have hemit : Steered (s.emit (.call .pid (.pwmSet s.motor.active
      (Motor.periodNs (UInt16.ofNat rpm)) (Motor.periodNs (UInt16.ofNat rpm) / 2)))) :=
    h.emit hsignal
  unfold Board.motorSetActiveSpeedRpm
  split
  · exact h
  · exact hemit.withMotor (h.motor.setPwm _ hsignal)

theorem speedPidIteration (h : Steered s) (cnt : UInt16) (now : UInt32) :
    Steered (s.speedPidIteration cnt now) := by
  have hs : Steered (s.emit .iteration) := h.emit trivial
  simp only [Board.speedPidIteration]
  split
  · obtain ⟨hlow, hhigh⟩ := Pid.control_integral s.motor.pid s.motor.targetSpeedMmps cnt now
    refine motorSetActiveSpeedRpm ?_ (Pid.control_output_le _ _ _ _)
    exact hs.withMotor ⟨hlow, hhigh, h.motor.target, h.motor.speed, h.motor.pwm⟩
  · refine hs.withMotor ⟨?_, ?_, h.motor.target, h.motor.speed, h.motor.pwm⟩
    · norm_num [Pid.clear, kiLimit]
    · norm_num [Pid.clear, kiLimit]

theorem received (h : Steered s) (rx : Receiver) (x : Option Image) :
    Steered (s.received rx x) := by
  cases x with
  | none => exact ⟨h.motor, h.log⟩
  | some image =>
    exact h.note (t := s.received rx (some image)) (e := .committed image) rfl rfl trivial

theorem interrupt {t : Board} (h : Steered s) {e : Irq} (ht : s.interrupt e = .ok t) :
    Steered t := by
  cases e with
  | pid cnt now =>
    obtain rfl := Except.ok.inj ht
    exact h.speedPidIteration cnt now
  | uart3 d =>
    simp only [Board.interrupt] at ht
    cases hbyte : s.rx.uartRxByte d with
    | error e => simp [hbyte, Except.map] at ht
    | ok p =>
      rw [hbyte] at ht
      obtain rfl := Except.ok.inj ht
      exact h.received p.1 p.2

end Steered

theorem reach_steered {w : World} {pin : Pin → Bool} {found : MotorId → Bool} {c : Config w}
    (h : Platform.Reach (start w pin found) c) : Steered c.state := by
  have hboot : Steered (Board.initial pin found) :=
    ⟨Tuned.initial pin found, fun _ he => (List.not_mem_nil he).elim⟩
  refine Platform.upheld_reach hboot (fun i x => ?_) (fun _ _ _ hs ht => hs.interrupt ht) h
  cases i with
  | ctrl => exact Steered.upholds_uartCtrlThread x
  | recv => exact Steered.upholds_uartRecvThread w

-- Whatever the encoder counts, the outputs step at a bounded rate with a duty of one half.
theorem step_signals_bounded (w : World) (pin : Pin → Bool) (found : MotorId → Bool)
    (c : Config w) (h : Platform.Reach (start w pin found) c) :
    (-kiLimit ≤ c.state.motor.pid.integral ∧ c.state.motor.pid.integral ≤ kiLimit) ∧
      (∀ who i period pulse, Event.call who (.pwmSet i period pulse) ∈ c.state.log →
        StepSignal who period pulse) ∧
      (∀ i p, c.state.motor.pwm i = some p →
        p.period = 0 ∧ p.pulse = 0 ∨ StepSignal .pid p.period p.pulse) ∧
      ∀ cnt now, (c.state.motor.commandedRpm cnt now).toNat =
          ⌊(c.state.motor.pid.control c.state.motor.targetSpeedMmps cnt now).2⌋₊ ∧
        (c.state.motor.commandedRpm cnt now).toNat ≤ 800 := by
  have hs := reach_steered h
  refine ⟨⟨hs.motor.low, hs.motor.high⟩, fun who i period pulse he => hs.log _ he, hs.motor.pwm,
    fun cnt now => ?_⟩
  have hrpm := commandedRpm_toNat c.state.motor cnt now
  exact ⟨hrpm, hrpm ▸ Pid.control_output_le _ _ cnt now⟩

theorem step_signals_bounded_jog :
    ∃ c : Config blindWorld, Platform.Reach (start blindWorld (fun _ => true) fun _ => true) c ∧
      c.state.motor.pwm .motor1 = some ⟨false, 2000000, 1000000⟩ ∧
      shortest .pid ≤ 2000000 := by
  have h := Platform.Reach.of_entry (P := inspector blindWorld) (i := Task.ctrl) (x := some 'h')
    (c := start blindWorld (fun _ => true) fun _ => true) rfl rfl
  refine ⟨_, h, rfl, ?_⟩
  have hsignal := (step_signals_bounded _ _ _ _ h).2.2.1 .motor1 _ rfl
  exact hsignal.elim (fun h0 => absurd h0.1 (by decide)) (·.short)

end FabricInspection
