import FabricInspection.Motor.Safety

namespace FabricInspection

open Concurrency (Platform Program)

-- The control thread is inside an rt_thread_mdelay.
def Sleeping {w : World} (c : Config w) : Prop :=
  ∃ k, c.thread Task.ctrl = .act (fun s => s.emit (.call .ctrl .wake)) k

namespace CtrlStep

theorem present_eq {v w : View} (h : CtrlStep v w) : w.drive.present = v.drive.present := by
  cases h with
  | silent | assign | command | handled => rfl
  | call ch made c =>
    cases c with
    | pinWrite p level => cases p <;> rfl
    | pwmSet | pwmEnable | pwmDisable | uart4Write | sleep | wake => rfl

-- Only a call can wake the thread up, and the loop is regulated when it does.
theorem regulated_of_wake {v w : View} (h : CtrlStep v w)
    (hw : w.trace = v.trace ++ [.call .ctrl .wake]) : v.drive.Regulated := by
  cases h with
  | silent | assign => simp at hw
  | command | handled => simp [View.note] at hw
  | call ch made c handling permitted =>
    obtain rfl : c = .wake := by simpa [View.call] using hw
    exact permitted.1

end CtrlStep

section
variable {w : World} {pin : Pin → Bool} {found : MotorId → Bool} {c : Config w}

theorem reach_present (h : Platform.Reach (start w pin found) c) (i : MotorId) :
    (c.state.motor.pwm i).isSome = found i := by
  have hp : c.state.view.drive.present = found := by
    refine view_invariant (I := fun v => v.drive.present = found) ?_
      (fun _ _ hv hs => hs.present_eq.trans hv) h
    funext j
    have hj : ((Board.initial pin found).motor.pwm j).isSome = found j := by
      rw [initial_pwm]
      cases found j <;> rfl
    exact hj
  exact congrFun hp i

theorem regulated_of_idle (h : Platform.Reach (start w pin found) c)
    (hb : c.blocked Task.ctrl ∨ Sleeping c) : c.state.view.drive.Regulated := by
  have hc := (motorContract w).holds_reach motorContract_holds h
  rcases hb with hb | ⟨k, hk⟩
  · exact (motorContract w).idle_of_blocked hc hb
  · have hstep : CtrlStep c.state.view (c.state.emit (.call .ctrl .wake)).view :=
      ((motorContract w).holds_run hc hk).1.1
    refine hstep.regulated_of_wake ?_
    simp [Board.view, Event.byCtrl]

theorem other_of_ne {i j : MotorId} (h : j ≠ i) : j = i.other := by
  cases i <;> cases j <;> first | rfl | exact (h rfl).elim

theorem setActiveSpeed_other (s : Board) (rpm : UInt16) :
    (s.motorSetActiveSpeedRpm rpm).motor.pwm s.motor.active.other =
      s.motor.pwm s.motor.active.other := by
  have hne : s.motor.active.other ≠ s.motor.active := by cases s.motor.active <;> nofun
  unfold Board.motorSetActiveSpeedRpm
  split
  · rfl
  · simp [Motor.setPwm, Motor.modifyPwm, hne]

theorem setActiveSpeed_active (s : Board) (rpm : UInt16) (h : ∀ j, (s.motor.pwm j).isSome) :
    (s.motorSetActiveSpeedRpm rpm).motor.pwm s.motor.active =
      some ⟨s.motor.pwmOn s.motor.active, Motor.periodNs rpm, Motor.periodNs rpm / 2⟩ := by
  have hm : s.motor.missing = false := by
    simp [Motor.missing, ← Option.not_isSome, h]
  obtain ⟨p, hp⟩ := Option.isSome_iff_exists.mp (h s.motor.active)
  simp [Board.motorSetActiveSpeedRpm, hm, Motor.setPwm, Motor.modifyPwm, Motor.pwmOn, hp]

end

theorem closed_loop_regulates (w : World) (pin : Pin → Bool) (found : MotorId → Bool)
    (c : Config w) (h : Platform.Reach (start w pin found) c)
    (hb : c.blocked Task.ctrl ∨ Sleeping c) (hc : c.state.motor.closedLoopEnable = true) :
    c.state.motor.pin (.ena c.state.motor.active) = true ∧
      c.state.motor.pin (.ena c.state.motor.active.other) = false ∧
      (∀ j, (c.state.motor.pin (.ena j) = true ∧ c.state.motor.pwmOn j = true) ↔
        j = c.state.motor.active ∧ found j = true) ∧
      ∀ rpm, (c.state.motorSetActiveSpeedRpm rpm).motor.pwm c.state.motor.active.other =
          c.state.motor.pwm c.state.motor.active.other ∧
        ((∀ j, found j = true) →
          (c.state.motorSetActiveSpeedRpm rpm).motor.pwm c.state.motor.active =
            some ⟨true, Motor.periodNs rpm, Motor.periodNs rpm / 2⟩) := by
  obtain ⟨hena, hon, hother⟩ : c.state.motor.pin (.ena c.state.motor.active) = true ∧
      c.state.motor.pwmOn c.state.motor.active = (c.state.motor.pwm c.state.motor.active).isSome ∧
      c.state.motor.pin (.ena c.state.motor.active.other) = false := regulated_of_idle h hb hc
  rw [reach_present h] at hon
  refine ⟨hena, hother, fun j => ⟨?_, ?_⟩, fun rpm => ⟨setActiveSpeed_other _ _, fun hf => ?_⟩⟩
  · rintro ⟨he, ho⟩
    have hj : j = c.state.motor.active := by
      by_contra hne
      rw [other_of_ne hne, hother] at he
      cases he
    subst hj
    exact ⟨rfl, hon ▸ ho⟩
  · rintro ⟨rfl, hf⟩
    exact ⟨hena, hon.trans hf⟩
  · rw [setActiveSpeed_active _ _ fun j => (reach_present h j).trans (hf j), hon, hf]

theorem closed_loop_regulates_reverse :
    ∃ c : Config blindWorld, Platform.Reach (start blindWorld (fun _ => true) fun _ => true) c ∧
      c.state.motor.closedLoopEnable = true ∧
      ∀ j, (c.state.motor.pin (.ena j) = true ∧ c.state.motor.pwmOn j = true) ↔ j = .motor2 := by
  have h := Platform.Reach.of_entry (P := inspector blindWorld) (i := Task.ctrl) (x := some 'o')
    (c := start blindWorld (fun _ => true) fun _ => true) rfl rfl
  have hr := (closed_loop_regulates _ _ _ _ h (.inl rfl) rfl).2.2.1
  exact ⟨_, h, rfl, fun j => (hr j).trans ⟨fun hj => hj.1, fun hj => ⟨hj, rfl⟩⟩⟩

end FabricInspection
