import FabricInspection.Motor.Commands
import FabricInspection.Concurrency.Triple

namespace FabricInspection

open Concurrency (Program Rely)
open Concurrency.Program (Triple)

-- What the control thread alone decides about the motors.
@[ext] structure Drive where
  ena : MotorId → Bool
  dir : MotorId → Bool
  on : MotorId → Bool
  present : MotorId → Bool
  run : Bool
  reverse : Bool
  closed : Bool

structure View where
  drive : Drive
  trace : List Event

def moves (ch : Char) : Bool := ch ∈ ['u', 'o', 't', 'h', 'a', 'y', 'z', 'd', 'x', 'p', 'q']

def stops (ch : Char) : Bool := ch ∈ ['s', 'b']

def jogs : Char → Option MotorId
  | 'h' | 'a' | 'y' | 'z' => some .motor1
  | 'd' | 'x' | 'p' | 'q' => some .motor2
  | _ => none

def Event.byCtrl : Event → Bool
  | .command _ | .handled _ | .call .ctrl _ => true
  | _ => false

def Motor.drive (m : Motor) : Drive where
  ena i := m.pin (.ena i)
  dir i := m.pin (.dirPlus i)
  on := m.pwmOn
  present i := (m.pwm i).isSome
  run := m.gMotorRun
  reverse := m.gDirectionReverse
  closed := m.closedLoopEnable

def Board.view (s : Board) : View := ⟨s.motor.drive, s.log.filter Event.byCtrl⟩

namespace Drive

def apply (d : Drive) : Call → Drive
  | .pinWrite (.ena i) level => { d with ena := Function.update d.ena i level }
  | .pinWrite (.dirPlus i) level => { d with dir := Function.update d.dir i level }
  | .pwmEnable i => { d with on := Function.update d.on i (d.present i) }
  | .pwmDisable i => { d with on := Function.update d.on i false }
  | _ => d

def Off (d : Drive) : Prop := ∀ i, d.on i = false

def Halted (d : Drive) : Prop := d.closed = false ∧ d.run = false ∧ d.Off

def Released (d : Drive) : Prop := d.Halted ∧ ∀ i, d.ena i = false

def Opposed (d : Drive) : Prop :=
  (d.ena .motor1 = true ∧ d.on .motor1 = true) ∧ d.ena .motor2 = true ∧ d.on .motor2 = true

def active (d : Drive) : MotorId := if d.reverse then .motor2 else .motor1

def Regulated (d : Drive) : Prop :=
  d.closed = true → d.ena d.active = true ∧ d.on d.active = d.present d.active ∧
    d.ena d.active.other = false

theorem regulated_of_not_closed {d : Drive} (h : d.closed = false) : d.Regulated := by
  intro hc
  rw [h] at hc
  cases hc

end Drive

namespace View

def call (v : View) (c : Call) : View := ⟨v.drive.apply c, v.trace ++ [.call .ctrl c]⟩

def note (v : View) (e : Event) : View := { v with trace := v.trace ++ [e] }

-- `made` are the calls of the command `ch` so far.
def Handling (v : View) (ch : Char) (made : List Call) : Prop :=
  ∃ pre, v.trace = pre ++ .command ch :: made.map (.call .ctrl)

end View

def initialStop : List Call := [.pwmDisable .motor1, .pwmDisable .motor2]

-- The commands that program a speed: not 'o', and the soft start only with both devices.
def Programs (d : Drive) (ch : Char) : Prop :=
  ch ≠ 'o' ∧ ((jogs ch).isSome ∨ ∀ j, d.present j = true)

-- What they program before they switch the output of motor i on.
def Programmed (d : Drive) (ch : Char) (made : List Call) (i : MotorId) : Prop :=
  (ch = 'o' → i = .motor2) ∧ (Programs d ch → ∃ period pulse, .pwmSet i period pulse ∈ made)

def Permits (d : Drive) (ch : Char) (made : List Call) : Call → Prop
  | .pinWrite (.ena _) _ | .pinWrite (.dirPlus _) _ => d.Off
  | .pwmEnable i =>
    moves ch = true ∧ ¬(d.ena .motor1 = true ∧ d.ena .motor2 = true) ∧
      (∀ j, jogs ch = some j → i = j ∧ initialStop ⊆ made) ∧ Programmed d ch made i
  | .pwmSet _ _ _ => Programs d ch
  | .sleep ms => d.Regulated ∧ (ch = 'u' → d.closed = false ∧ 20 ≤ ms)
  | .wake => d.Regulated ∧ ∃ before ms, made = before ++ [.sleep ms]
  | _ => True

theorem Programmed.mono {d : Drive} {ch : Char} {made more : List Call} {i : MotorId}
    (h : Programmed d ch made i) (hm : made ⊆ more) : Programmed d ch more i := by
  refine ⟨h.1, fun hp => ?_⟩
  obtain ⟨period, pulse, hset⟩ := h.2 hp
  exact ⟨period, pulse, hm hset⟩

theorem Permits.mono {d : Drive} {ch : Char} {made more : List Call} {c : Call}
    (h : Permits d ch made c) (hm : made ⊆ more) (hc : c ≠ .wake) : Permits d ch more c := by
  cases c with
  | pinWrite p level => cases p <;> exact h
  | pwmEnable i =>
    obtain ⟨hmoves, hena, hjog, hset⟩ := h
    refine ⟨hmoves, hena, fun j hj => ?_, hset.mono hm⟩
    exact ⟨(hjog j hj).1, List.Subset.trans (hjog j hj).2 hm⟩
  | pwmSet | sleep => exact h
  | wake => exact (hc rfl).elim
  | pwmDisable | uart4Write => trivial

-- The loop is closed only by a motion command, and by 'u' not before it has slept.
inductive CtrlStep : View → View → Prop
  | silent (v : View) : CtrlStep v v
  | assign (v : View) (ch : Char) (made : List Call) (run reverse closed : Bool)
      (handling : v.Handling ch made)
      (runs : run = true → v.drive.run = true ∨ moves ch = true)
      (closes : closed = true →
        v.drive.closed = true ∨ moves ch = true ∧ (ch = 'u' → .wake ∈ made)) :
      CtrlStep v { v with drive :=
        { v.drive with run := run, reverse := reverse, closed := closed } }
  | call (v : View) (ch : Char) (made : List Call) (c : Call) (handling : v.Handling ch made)
      (permitted : Permits v.drive ch made c) : CtrlStep v (v.call c)
  | command (v : View) (ch : Char) (regulated : v.drive.Regulated) :
      CtrlStep v (v.note (.command ch))
  | handled (v : View) (ch : Char) (halted : stops ch = true → v.drive.Halted)
      (released : (jogs ch).isSome → v.drive.Released)
      (closed : ch = 'u' ∨ ch = 'o' → v.drive.closed = true)
      (woken : ch = 'u' → ∃ made, v.Handling ch made ∧ .wake ∈ made) :
      CtrlStep v (v.note (.handled ch))

namespace Motor

@[simp] theorem drive_setPin_ena (m : Motor) (i : MotorId) (level : Bool) :
    (m.setPin (.ena i) level).drive = m.drive.apply (.pinWrite (.ena i) level) := by
  ext j <;> simp [Motor.drive, Motor.setPin, Motor.pwmOn, Drive.apply, Function.update_apply]

@[simp] theorem drive_setPin_dirPlus (m : Motor) (i : MotorId) (level : Bool) :
    (m.setPin (.dirPlus i) level).drive = m.drive.apply (.pinWrite (.dirPlus i) level) := by
  ext j <;> simp [Motor.drive, Motor.setPin, Motor.pwmOn, Drive.apply, Function.update_apply]

@[simp] theorem drive_setPin_buzzer (m : Motor) (level : Bool) :
    (m.setPin .buzzer level).drive = m.drive := by
  ext j <;> simp [Motor.drive, Motor.setPin, Motor.pwmOn]

theorem modifyPwm_present (m : Motor) (i j : MotorId) (f : Pwm → Pwm) :
    ((m.modifyPwm i f).pwm j).isSome = (m.pwm j).isSome := by
  by_cases h : j = i
  · subst h; simp [modifyPwm]
  · simp [modifyPwm, h]

@[simp] theorem drive_setPwm (m : Motor) (i : MotorId) (period pulse : Nat) :
    (m.setPwm i period pulse).drive = m.drive := by
  have hon : (m.setPwm i period pulse).pwmOn = m.pwmOn := by
    funext j
    by_cases h : j = i
    · subst h; cases hp : m.pwm j <;> simp [setPwm, modifyPwm, pwmOn, hp]
    · simp [setPwm, modifyPwm, pwmOn, h]
  ext j
  case on => exact congrFun hon j
  case present => exact modifyPwm_present m i j _
  all_goals rfl

theorem pwmOn_switchPwm (m : Motor) (i : MotorId) (b : Bool) :
    (m.switchPwm i b).pwmOn = Function.update m.pwmOn i (b && (m.pwm i).isSome) := by
  funext j
  by_cases h : j = i
  · subst h; cases hp : m.pwm j <;> simp [switchPwm, modifyPwm, pwmOn, hp]
  · simp [switchPwm, modifyPwm, pwmOn, h]

@[simp] theorem drive_switchPwm_true (m : Motor) (i : MotorId) :
    (m.switchPwm i true).drive = m.drive.apply (.pwmEnable i) := by
  ext j
  case on => simp [Motor.drive, Drive.apply, pwmOn_switchPwm]
  case present => exact modifyPwm_present m i j _
  all_goals rfl

@[simp] theorem drive_switchPwm_false (m : Motor) (i : MotorId) :
    (m.switchPwm i false).drive = m.drive.apply (.pwmDisable i) := by
  ext j
  case on => simp [Motor.drive, Drive.apply, pwmOn_switchPwm]
  case present => exact modifyPwm_present m i j _
  all_goals rfl

end Motor
end FabricInspection
