import FabricInspection.Motor.Discipline
import FabricInspection.Board.Footprint

namespace FabricInspection

open Concurrency (Contract Platform Program Rely)

abbrev SameView (s t : Board) : Prop := t.view = s.view

theorem view_log {s t : Board} {e : Event} (he : e.byCtrl = false) (hm : t.motor = s.motor)
    (hl : t.log = s.log ++ [e]) : SameView s t := by
  simp [SameView, Board.view, hm, hl, he]

theorem uart3_effect {s t : Board} {d : UInt8} (h : s.interrupt (.uart3 d) = .ok t) :
    t.motor = s.motor ∧ (t.log = s.log ∨ ∃ image, t.log = s.log ++ [Event.committed image]) := by
  rw [Board.interrupt] at h
  cases hd : s.rx.uartRxByte d with
  | error f => simp [hd, Except.map] at h
  | ok p =>
    obtain ⟨rx, image⟩ := p
    simp only [hd, Except.map, Except.ok.injEq] at h
    subst h
    cases image with
    | none => exact ⟨rfl, .inl rfl⟩
    | some image => exact ⟨rfl, .inr ⟨image, rfl⟩⟩

theorem view_motorSetActiveSpeedRpm (s : Board) (rpm : UInt16) :
    (s.motorSetActiveSpeedRpm rpm).view = s.view := by
  unfold Board.motorSetActiveSpeedRpm
  split
  · rfl
  · simp [Board.view, Event.byCtrl]

-- The speed controller only moves the period of an output.
theorem view_speedPidIteration (s : Board) (cnt : UInt16) (now : UInt32) :
    (s.speedPidIteration cnt now).view = s.view := by
  have he : (s.emit .iteration).view = s.view := view_log rfl rfl rfl
  simp only [Board.speedPidIteration]
  split
  · rw [view_motorSetActiveSpeedRpm]
    exact he
  · exact he

theorem view_interrupt {s t : Board} {e : Irq} (h : s.interrupt e = .ok t) : SameView s t := by
  cases e with
  | uart3 d =>
    obtain ⟨hm, hl | ⟨image, hl⟩⟩ := uart3_effect h
    · simp [SameView, Board.view, hm, hl]
    · exact view_log rfl hm hl
  | pid cnt now =>
    simp only [Board.interrupt, Except.ok.injEq] at h
    rw [SameView, ← h]
    exact view_speedPidIteration s cnt now

theorem RecvOnly.view {s t : Board} (h : RecvOnly s t) : SameView s t := by
  have hl : t.log.filter Event.byCtrl = s.log.filter Event.byCtrl := by
    refine h.log.filter fun e he => ?_
    cases e with
    | call who c => cases who with
      | ctrl => cases he
      | pid | recv => rfl
    | command | handled => cases he
    | _ => rfl
  rw [SameView, Board.view, Board.view, h.drive, hl]

def motorContract (w : World) : Contract (inspector w) where
  rely
    | .ctrl => Rely.ofView Board.view
    | .recv => .any
  guar
    | .ctrl => fun s t => CtrlStep s.view t.view ∧ CtrlOnly s t
    | .recv => RecvOnly
  fault
    | .ctrl => fun _ _ => False
    | .recv => fun _ _ => True
  idle
    | .ctrl => fun s => s.view.drive.Regulated
    | .recv => fun _ => True
  entry
    | .ctrl, x, s, hs =>
      Program.wp_keeps (CtrlOnly.keeps_uartCtrlThread x) (uartCtrlThread_spec x s hs)
    | .recv, (), s, _ => Program.wp_of_keeps (fun _ _ h _ => h) (fun _ _ _ h => ⟨h, trivial⟩)
        (RecvOnly.keeps_uartRecvThread w) trivial
  others := by
    rintro (_ | _) (_ | _) s t hij h
    · exact (hij rfl).elim
    · trivial
    · exact h.view
    · exact (hij rfl).elim
  interrupts := by
    rintro (_ | _) e s t h
    · exact view_interrupt h
    · trivial

section
variable {w : World} {pin : Pin → Bool} {found : MotorId → Bool}

theorem initial_pwm (i : MotorId) :
    (Board.initial pin found).motor.pwm i = if found i then some ⟨false, 0, 0⟩ else none := by
  simp only [Board.initial, motorHwInit]
  split <;> rfl

theorem initial_flags : (Board.initial pin found).view.drive.closed = false ∧
    (Board.initial pin found).view.drive.run = false := by
  simp only [Board.initial, motorHwInit]
  split <;> exact ⟨rfl, rfl⟩

theorem initial_off : (Board.initial pin found).view.drive.Off := by
  intro i
  have h : (Board.initial pin found).motor.pwm i = _ := initial_pwm i
  have hon : (Board.initial pin found).motor.pwmOn i = false := by
    rw [Motor.pwmOn, h]
    split <;> rfl
  exact hon

theorem motorContract_holds : (motorContract w).Holds (start w pin found) := by
  refine (motorContract w).holds_boot ?_
  rintro (_ | _) t h
  · have hv : t.view = (Board.initial pin found).view := h
    have hr : t.view.drive.Regulated := by
      rw [hv]
      exact Drive.regulated_of_not_closed initial_flags.1
    exact hr
  · trivial

theorem step_effect {c d : Config w} {a : (inspector w).Action}
    (h : Platform.Reach (start w pin found) c) (hs : Platform.step c a = some d) :
    ((∀ e, a ≠ .interrupt e) ∧ (d.state = c.state ∨
      (CtrlStep c.state.view d.state.view ∧ CtrlOnly c.state d.state) ∨
        RecvOnly c.state d.state)) ∨
      ∃ e, a = .interrupt e ∧ c.state.interrupt e = .ok d.state := by
  have hc := (motorContract w).holds_reach motorContract_holds h
  obtain ⟨i, x, rfl, -, rfl⟩ | ⟨i, f, k, rfl, hk, rfl⟩ | ⟨e, s, rfl, he, rfl⟩ :=
    Platform.step_cases hs
  · exact .inl ⟨nofun, .inl rfl⟩
  · have hg := ((motorContract w).holds_run hc hk).1
    cases i with
    | ctrl => exact .inl ⟨nofun, .inr (.inl hg)⟩
    | recv => exact .inl ⟨nofun, .inr (.inr hg)⟩
  · exact .inr ⟨e, rfl, he⟩

theorem ctrlStep_of_step {c d : Config w} {a : (inspector w).Action}
    (h : Platform.Reach (start w pin found) c) (hs : Platform.step c a = some d) :
    CtrlStep c.state.view d.state.view := by
  rcases step_effect h hs with ⟨-, he | ⟨he, -⟩ | he⟩ | ⟨e, -, he⟩
  · exact he ▸ .silent _
  · exact he
  · exact (show SameView c.state d.state from he.view) ▸ .silent _
  · exact (view_interrupt he : SameView c.state d.state) ▸ .silent _

-- What every step of the control thread keeps, every run of the system keeps.
theorem view_invariant {I : View → Prop} (h0 : I (Board.initial pin found).view)
    (hI : ∀ v v', I v → CtrlStep v v' → I v') {c : Config w}
    (h : Platform.Reach (start w pin found) c) : I c.state.view := by
  refine Platform.Reach.induct (motive := fun c => I c.state.view) h0 ?_ c h
  intro c a d hc hv hs
  exact hI _ _ hv (ctrlStep_of_step hc hs)

theorem ctrl_never_faults {c : Config w} (h : Platform.Reach (start w pin found) c) (e : Fault) :
    c.thread Task.ctrl ≠ .fail e := fun hf =>
  (motorContract w).fault_of_fail ((motorContract w).holds_reach motorContract_holds h) hf

end
end FabricInspection
