import FabricInspection.Motor.Contract

namespace FabricInspection

open Concurrency (Platform)

namespace CtrlStep

theorem on_of_pins {v w : View} (h : CtrlStep v w) (i : MotorId)
    (hp : w.drive.ena i ≠ v.drive.ena i ∨ w.drive.dir i ≠ v.drive.dir i) : v.drive.on i = false := by
  cases h with
  | silent | assign | command | handled => simp [View.note] at hp
  | call ch made c handling permitted =>
    cases c with
    | pinWrite p level =>
      cases p with
      | ena j => exact permitted i
      | dirPlus j => exact permitted i
      | dirMinus | pulseNeg | buzzer => simp [View.call, Drive.apply] at hp
    | pwmSet | pwmEnable | pwmDisable | uart4Write | sleep | wake =>
      simp [View.call, Drive.apply] at hp

theorem not_opposed {v w : View} (hv : ¬v.drive.Opposed) (h : CtrlStep v w) :
    ¬w.drive.Opposed := by
  rintro ⟨⟨he1, ho1⟩, he2, ho2⟩
  cases h with
  | silent | assign | command | handled => exact hv ⟨⟨he1, ho1⟩, he2, ho2⟩
  | call ch made c handling permitted =>
    cases c with
    | pinWrite p level =>
      cases p with
      | ena j => exact Bool.false_ne_true ((permitted .motor1).symm.trans ho1)
      | dirPlus j => exact Bool.false_ne_true ((permitted .motor1).symm.trans ho1)
      | dirMinus | pulseNeg | buzzer => exact hv ⟨⟨he1, ho1⟩, he2, ho2⟩
    | pwmEnable j => exact permitted.2.1 ⟨he1, he2⟩
    | pwmDisable j =>
      simp only [View.call, Drive.apply, Function.update_apply] at ho1 ho2
      cases j with
      | motor1 => simp at ho1
      | motor2 => simp at ho2
    | pwmSet | uart4Write | sleep | wake => exact hv ⟨⟨he1, ho1⟩, he2, ho2⟩

end CtrlStep

theorem initial_not_opposed {pin : Pin → Bool} {found : MotorId → Bool} :
    ¬(Board.initial pin found).view.drive.Opposed := fun h =>
  Bool.false_ne_true ((initial_off .motor1).symm.trans h.1.2)

theorem motors_never_opposed (w : World) (pin : Pin → Bool) (found : MotorId → Bool)
    (c : Config w) (h : Platform.Reach (start w pin found) c) :
    ¬((c.state.motor.pin (.ena .motor1) = true ∧ c.state.motor.pwmOn .motor1 = true) ∧
      c.state.motor.pin (.ena .motor2) = true ∧ c.state.motor.pwmOn .motor2 = true) ∧
    ∀ a d i, Platform.step c a = some d →
      (d.state.motor.pin (.ena i) ≠ c.state.motor.pin (.ena i) ∨
        d.state.motor.pin (.dirPlus i) ≠ c.state.motor.pin (.dirPlus i)) →
      c.state.motor.pwmOn i = false := by
  refine ⟨view_invariant (I := fun v => ¬v.drive.Opposed) initial_not_opposed
    (fun _ _ hv hs => hs.not_opposed hv) h, ?_⟩
  intro a d i hs hp
  exact (ctrlStep_of_step h hs).on_of_pins i hp

def blindWorld : World := ⟨fun _ => Vector.replicate defectClassCnt 0, fun _ => true⟩

theorem motors_never_opposed_reverse :
    ∃ c : Config blindWorld, Platform.Reach (start blindWorld (fun _ => true) fun _ => true) c ∧
      c.state.motor.pwmOn .motor2 = true ∧
      ¬((c.state.motor.pin (.ena .motor1) = true ∧ c.state.motor.pwmOn .motor1 = true) ∧
        c.state.motor.pin (.ena .motor2) = true ∧ c.state.motor.pwmOn .motor2 = true) := by
  have h := Platform.Reach.of_entry (P := inspector blindWorld) (i := Task.ctrl) (x := some 'o')
    (c := start blindWorld (fun _ => true) fun _ => true) rfl rfl
  exact ⟨_, h, by decide, (motors_never_opposed _ _ _ _ h).1⟩

end FabricInspection
