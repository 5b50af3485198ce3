import FabricInspection.Motor.Drive
import FabricInspection.Board.System

namespace FabricInspection

open Concurrency (Program)
open Concurrency.Program

def Event.byRecv : Event → Bool
  | .call .recv (.pinWrite .buzzer _) | .call .recv (.sleep _) | .call .recv .wake
  | .taken | .copied _ | .classified _ _ | .opened _ | .saved _ | .report _ _
  | .count _ => true
  | _ => false

def Event.byMotor : Event → Bool
  | .command _ | .handled _ | .call .ctrl _ | .call .pid _ | .iteration => true
  | _ => false

def Event.ofCtrl : Event → Bool
  | .command _ | .handled _ | .call .ctrl _ | .counted | .announced _ => true
  | _ => false

def Appends (own : Event → Bool) (s t : Board) : Prop :=
  ∃ es, t.log = s.log ++ es ∧ ∀ e ∈ es, own e = true

theorem Appends.refl (own : Event → Bool) {s t : Board} (h : t.log = s.log) : Appends own s t :=
  ⟨[], by simp [h], nofun⟩

theorem Appends.one {own : Event → Bool} {s t : Board} {e : Event} (h : t.log = s.log ++ [e])
    (he : own e = true) : Appends own s t :=
  ⟨[e], h, by simpa using he⟩

theorem Appends.filter {own p : Event → Bool} {s t : Board} (h : Appends own s t)
    (hp : ∀ e, own e = true → p e = false) : t.log.filter p = s.log.filter p := by
  obtain ⟨es, hl, he⟩ := h
  have hes : es.filter p = [] := by
    refine List.filter_eq_nil_iff.mpr fun e hm => ?_
    simp [hp e (he e hm)]
  rw [hl, List.filter_append, hes, List.append_nil]

-- What a step of the inspection thread leaves alone.
structure RecvOnly (s t : Board) : Prop where
  round : t.round = s.round
  drive : t.motor.drive = s.motor.drive
  pid : t.motor.pid = s.motor.pid
  log : Appends Event.byRecv s t

-- What a step of the control thread leaves alone.
structure CtrlOnly (s t : Board) : Prop where
  pid : t.motor.pid = s.motor.pid
  log : t.log = s.log ∨ ∃ e, t.log = s.log ++ [e] ∧ e.ofCtrl = true

-- What a step on the motors leaves alone.
structure MotorOnly (s t : Board) : Prop where
  rx : t.rx = s.rx
  round : t.round = s.round
  insp : t.insp = s.insp
  opens : t.opens = s.opens
  log : Appends Event.byMotor s t

namespace RecvOnly

theorem silent {s t : Board} (hr : t.round = s.round) (hm : t.motor = s.motor)
    (hl : t.log = s.log) : RecvOnly s t :=
  ⟨hr, by rw [hm], by rw [hm], .refl _ hl⟩

theorem event {s t : Board} {e : Event} (hr : t.round = s.round) (hm : t.motor = s.motor)
    (hl : t.log = s.log ++ [e]) (he : e.byRecv = true) : RecvOnly s t :=
  ⟨hr, by rw [hm], by rw [hm], .one hl he⟩

theorem keeps_emit {e : Event} (he : e.byRecv = true) : Keeps RecvOnly (emit e) :=
  keeps_write fun _ => event rfl rfl rfl he

theorem keeps_setInsp (f : Inspection → Inspection) : Keeps RecvOnly (setInsp f) :=
  keeps_write fun _ => silent rfl rfl rfl

theorem keeps_delay (ms : Nat) : Keeps RecvOnly (rtThreadMdelay .recv ms) :=
  keeps_seq (keeps_emit rfl) (keeps_emit rfl)

theorem keeps_buzzer (level : Bool) : Keeps RecvOnly (rtPinWrite .recv .buzzer level) :=
  keeps_write fun s => ⟨rfl, Motor.drive_setPin_buzzer s.motor level, rfl, .one rfl rfl⟩

theorem keeps_beep (ms : Nat) : Keeps RecvOnly (beep .recv ms) :=
  keeps_seq (keeps_buzzer true) (keeps_seq (keeps_delay ms) (keeps_buzzer false))

theorem keeps_storeLast (round : UInt8) (c : DefectClass) : Keeps RecvOnly (storeLast round c) := by
  unfold storeLast
  split
  · exact keeps_setInsp _
  · trivial

theorem keeps_bind_read {α β : Type} (g : Board → α) {q : α → Prog β}
    (hq : ∀ a, Keeps RecvOnly (q a)) : Keeps RecvOnly (read g >>= q) :=
  keeps_bind (keeps_read fun _ => silent rfl rfl rfl) hq

theorem keeps_defectInspectMain (w : World) : Keeps RecvOnly (defectInspectMain w) := by
  refine keeps_seq (keeps_write fun _ => event rfl rfl rfl rfl) (keeps_seq (keeps_setInsp _) ?_)
  refine keeps_bind_read _ fun c => keeps_bind_read _ fun total => keeps_bind_read _ fun round => ?_
  exact keeps_seq (keeps_when fun _ => keeps_storeLast round c)
    (keeps_write fun _ => event rfl rfl rfl rfl)

theorem keeps_generateDefectStatCsv (w : World) : Keeps RecvOnly (generateDefectStatCsv w) := by
  refine keeps_bind (fun _ => ⟨event rfl rfl rfl rfl, trivial⟩) fun ok => keeps_when fun _ => ?_
  refine keeps_bind_read _ fun total => keeps_bind_read _ fun last => ?_
  refine keeps_bind (keeps_lift _) fun file => keeps_seq (keeps_emit rfl) ?_
  refine keeps_bind (keeps_lift _) fun results => keeps_seq (keeps_emit rfl) ?_
  refine keeps_seq (keeps_delay 300) (keeps_seq (keeps_write fun _ => event rfl rfl rfl rfl) ?_)
  refine keeps_seq (keeps_delay 200) (keeps_seq (keeps_beep 80) (keeps_seq (keeps_delay 80) ?_))
  exact keeps_seq (keeps_setInsp _) (keeps_seq (keeps_setInsp _) (keeps_setInsp _))

theorem keeps_uartRecvThread (w : World) : Keeps RecvOnly (uartRecvThread w) := by
  refine keeps_bind_read _ fun ready => keeps_seq (keeps_when fun _ => ?_) (keeps_delay 10)
  refine keeps_seq (keeps_write fun _ => event rfl rfl rfl rfl) ?_
  refine keeps_seq (keeps_defectInspectMain w) (keeps_seq (keeps_setInsp _) ?_)
  refine keeps_bind_read _ fun total => keeps_bind_read _ fun round => ?_
  exact keeps_when fun _ => keeps_generateDefectStatCsv w

end RecvOnly

-- A relation that the single steps of the motor commands are in.
structure Frame (r : Board → Board → Prop) : Prop where
  set : ∀ s m, m.pid = s.motor.pid → r s { s with motor := m }
  call : ∀ s c m, m.pid = s.motor.pid → r s { s.emit (.call .ctrl c) with motor := m }

namespace Frame
variable {r : Board → Board → Prop}

theorem keeps_set (hr : Frame r) {f : Board → Motor} (hf : ∀ s, (f s).pid = s.motor.pid) :
    Keeps r (write fun s => { s with motor := f s } : Prog Unit) :=
  keeps_write fun s => hr.set s (f s) (hf s)

theorem keeps_pin (hr : Frame r) (p : Pin) (level : Bool) : Keeps r (rtPinWrite .ctrl p level) :=
  keeps_write fun s => hr.call s (.pinWrite p level) (s.motor.setPin p level) rfl

theorem keeps_pwmSet (hr : Frame r) (i : MotorId) (period pulse : Nat) :
    Keeps r (rtPwmSet .ctrl i period pulse) :=
  keeps_write fun s => hr.call s (.pwmSet i period pulse) (s.motor.setPwm i period pulse) rfl

theorem keeps_pwmEnable (hr : Frame r) (i : MotorId) : Keeps r (rtPwmEnable .ctrl i) :=
  keeps_write fun s => hr.call s (.pwmEnable i) (s.motor.switchPwm i true) rfl

theorem keeps_pwmDisable (hr : Frame r) (i : MotorId) : Keeps r (rtPwmDisable .ctrl i) :=
  keeps_write fun s => hr.call s (.pwmDisable i) (s.motor.switchPwm i false) rfl

theorem keeps_call (hr : Frame r) (c : Call) : Keeps r (FabricInspection.call .ctrl c) :=
  keeps_write fun s => hr.call s c s.motor rfl

theorem keeps_delay (hr : Frame r) (ms : Nat) : Keeps r (rtThreadMdelay .ctrl ms) :=
  keeps_seq (hr.keeps_call _) (hr.keeps_call _)

theorem keeps_beep (hr : Frame r) (ms : Nat) : Keeps r (beep .ctrl ms) :=
  keeps_seq (hr.keeps_pin .buzzer true) (keeps_seq (hr.keeps_delay ms) (hr.keeps_pin .buzzer false))

theorem keeps_bind_read (hr : Frame r) {α β : Type} (g : Board → α) {q : α → Prog β}
    (hq : ∀ a, Keeps r (q a)) : Keeps r (read g >>= q) :=
  keeps_bind (keeps_read fun s => hr.set s s.motor rfl) hq

theorem keeps_stopClosedLoop (hr : Frame r) : Keeps r stopClosedLoop :=
  hr.keeps_bind_read _ fun _ => keeps_when fun _ => hr.keeps_set fun _ => rfl

theorem keeps_motorContinuousStop (hr : Frame r) : Keeps r motorContinuousStop :=
  hr.keeps_bind_read _ fun _ => keeps_seq (keeps_when fun _ => hr.keeps_set fun _ => rfl)
    (keeps_seq (hr.keeps_pwmDisable _) (hr.keeps_pwmDisable _))

theorem keeps_motorSetSpeedRpmBoth (hr : Frame r) (rpm : UInt16) :
    Keeps r (motorSetSpeedRpmBoth rpm) :=
  hr.keeps_bind_read _ fun _ => keeps_when fun _ =>
    keeps_seq (hr.keeps_pwmSet _ _ _) (hr.keeps_pwmSet _ _ _)

theorem keeps_motorSetSpeedLevel (hr : Frame r) (periodUs : Nat) :
    Keeps r (motorSetSpeedLevel periodUs) :=
  keeps_seq (hr.keeps_set fun _ => rfl) (hr.keeps_bind_read _ fun _ => keeps_when fun _ =>
    keeps_seq (hr.keeps_pwmSet _ _ _) (hr.keeps_pwmSet _ _ _))

theorem keeps_motorSetDirection (hr : Frame r) (reverse : Bool) :
    Keeps r (motorSetDirection reverse) := by
  cases reverse with
  | false => exact keeps_seq (hr.keeps_pin _ _) (keeps_seq (hr.keeps_pin _ _)
      (keeps_seq (hr.keeps_pin _ _) (hr.keeps_pin _ _)))
  | true => exact keeps_seq (hr.keeps_pin _ _) (keeps_seq (hr.keeps_pin _ _)
      (keeps_seq (hr.keeps_pin _ _) (hr.keeps_pin _ _)))

theorem keeps_motorMoveSteps (hr : Frame r) (i : MotorId) (steps : Nat) (reverse : Bool) :
    Keeps r (motorMoveSteps i steps reverse) := by
  refine hr.keeps_bind_read _ fun closed => keeps_seq (keeps_when fun _ => ?_) ?_
  · exact keeps_seq (hr.keeps_set fun _ => rfl) (keeps_seq hr.keeps_motorContinuousStop
      (hr.keeps_delay 10))
  · refine keeps_seq hr.keeps_motorContinuousStop (keeps_seq (hr.keeps_delay 10) ?_)
    refine keeps_seq (hr.keeps_pin _ _) (keeps_seq (hr.keeps_pin _ _)
      (keeps_seq (hr.keeps_pin _ _) ?_))
    refine keeps_seq (hr.keeps_pwmSet _ _ _) (keeps_seq (hr.keeps_pwmEnable _) ?_)
    refine keeps_seq (hr.keeps_delay _) (keeps_seq (hr.keeps_pwmDisable _) ?_)
    refine keeps_seq (hr.keeps_pin _ _) (keeps_seq (hr.keeps_pin _ _) ?_)
    exact hr.keeps_bind_read _ fun speedUs => hr.keeps_motorSetSpeedLevel speedUs

theorem keeps_motorAccelStart (hr : Frame r) : Keeps r motorAccelStart := by
  refine hr.keeps_bind_read _ fun run => keeps_when fun _ =>
    keeps_seq (hr.keeps_set fun _ => rfl) ?_
  refine hr.keeps_bind_read _ fun reverse => keeps_seq (hr.keeps_motorSetDirection reverse) ?_
  exact keeps_seq (hr.keeps_pwmEnable _) (hr.keeps_pwmEnable _)

theorem keeps_motorAccelLoop (hr : Frame r) (target step delay rpm : Nat) :
    Keeps r (motorAccelLoop target step delay rpm) := by
  induction rpm using motorAccelLoop.induct target step with
  | case1 rpm hrpm ih =>
    rw [motorAccelLoop, dif_pos hrpm]
    exact keeps_seq (hr.keeps_motorSetSpeedRpmBoth _) (keeps_seq (hr.keeps_delay delay) ih)
  | case2 rpm hrpm =>
    rw [motorAccelLoop, dif_neg hrpm]
    trivial

theorem keeps_motorAccel (hr : Frame r) (start target step delay : Nat) :
    Keeps r (motorAccel start target step delay) := by
  unfold motorAccel
  split
  · exact keeps_seq (hr.keeps_motorSetSpeedRpmBoth _) hr.keeps_motorAccelStart
  · refine keeps_seq (hr.keeps_motorSetSpeedRpmBoth _) (keeps_seq hr.keeps_motorAccelStart ?_)
    exact keeps_seq (hr.keeps_delay delay) (keeps_seq (hr.keeps_motorAccelLoop _ _ _ _)
      (hr.keeps_motorSetSpeedRpmBoth _))

-- Every command but the two that announce a round is about the motors and the buzzer only.
theorem keeps_uartCtrlSwitch (hr : Frame r) {ch : Char} (ho : ch ≠ '(') (hc : ch ≠ ')') :
    Keeps r (uartCtrlSwitch ch) := by
  have hdirect (reverse : Bool) {q : Bool → Prog Unit} (hq : ∀ b, Keeps r (q b)) :
      Keeps r (do
        setDirectionReverse reverse
        let b ← read fun s => s.motor.gDirectionReverse
        q b) := keeps_seq (hr.keeps_set fun _ => rfl) (hr.keeps_bind_read _ hq)
  unfold uartCtrlSwitch
  split
  case h_1 => exact keeps_seq hr.keeps_stopClosedLoop (keeps_seq hr.keeps_motorContinuousStop
      (keeps_seq (hr.keeps_call _) (hr.keeps_beep 100)))
  case h_2 => exact keeps_seq hr.keeps_stopClosedLoop hr.keeps_motorContinuousStop
  case h_3 =>
    refine keeps_seq hr.keeps_stopClosedLoop (keeps_seq hr.keeps_motorContinuousStop ?_)
    refine keeps_seq (hr.keeps_delay 20) (hdirect false fun b => ?_)
    refine keeps_seq (hr.keeps_motorSetDirection b) (hr.keeps_bind_read _ fun target => ?_)
    exact keeps_seq (hr.keeps_motorAccel _ _ _ _) (hr.keeps_set fun _ => rfl)
  case h_4 =>
    refine keeps_seq hr.keeps_motorContinuousStop (keeps_seq (hr.keeps_set fun _ => rfl)
      (hdirect true fun b => ?_))
    exact keeps_seq (hr.keeps_motorSetDirection b) (keeps_seq (hr.keeps_pwmEnable _)
      (hr.keeps_pwmDisable _))
  case h_13 | h_14 | h_15 => exact hr.keeps_set fun _ => rfl
  case h_16 =>
    refine keeps_seq hr.keeps_stopClosedLoop (keeps_seq hr.keeps_motorContinuousStop ?_)
    exact hdirect false fun b => keeps_seq (hr.keeps_motorSetDirection b)
      (hr.keeps_motorAccel _ _ _ _)
  case h_17 => exact (ho rfl).elim
  case h_18 => exact (hc rfl).elim
  case h_19 => trivial
  all_goals exact hr.keeps_motorMoveSteps _ _ _

end Frame

namespace CtrlOnly

theorem frame : Frame CtrlOnly :=
  ⟨fun _ _ hm => ⟨hm, .inl rfl⟩, fun _ _ _ hm => ⟨hm, .inr ⟨_, rfl, rfl⟩⟩⟩

theorem keeps_uartCtrlThread (x : Option Char) : Keeps CtrlOnly (uartCtrlThread x) := by
  cases x with
  | none => trivial
  | some ch =>
    have hemit {e : Event} (he : e.ofCtrl = true) : Keeps CtrlOnly (emit e) :=
      keeps_write fun _ => ⟨rfl, .inr ⟨e, rfl, he⟩⟩
    refine keeps_seq (hemit rfl) (keeps_seq ?_ (hemit rfl))
    by_cases ho : ch = '('
    · subst ho
      exact keeps_write fun _ => ⟨rfl, .inr ⟨_, rfl, rfl⟩⟩
    by_cases hc : ch = ')'
    · subst hc
      refine keeps_seq (frame.keeps_beep 80) (keeps_seq (frame.keeps_delay 80) (keeps_seq
        (frame.keeps_beep 80) (keeps_seq (keeps_write fun _ => ⟨rfl, .inr ⟨_, rfl, rfl⟩⟩) ?_)))
      exact keeps_write fun _ => ⟨rfl, .inl rfl⟩
    exact frame.keeps_uartCtrlSwitch ho hc

end CtrlOnly

namespace MotorOnly

theorem silent {s t : Board} (hx : t.rx = s.rx) (hr : t.round = s.round) (hi : t.insp = s.insp)
    (ho : t.opens = s.opens) (hl : t.log = s.log) : MotorOnly s t :=
  ⟨hx, hr, hi, ho, .refl _ hl⟩

theorem frame : Frame MotorOnly :=
  ⟨fun _ _ _ => silent rfl rfl rfl rfl rfl, fun _ _ _ _ => ⟨rfl, rfl, rfl, rfl, .one rfl rfl⟩⟩

theorem keeps_emit {e : Event} (he : e.byMotor = true) : Keeps MotorOnly (emit e) :=
  keeps_write fun _ => ⟨rfl, rfl, rfl, rfl, .one rfl he⟩

theorem trans {s t u : Board} (h : MotorOnly s t) (g : MotorOnly t u) : MotorOnly s u := by
  obtain ⟨es, hl, he⟩ := h.log
  obtain ⟨fs, hm, hf⟩ := g.log
  refine ⟨g.rx.trans h.rx, g.round.trans h.round, g.insp.trans h.insp, g.opens.trans h.opens,
    es ++ fs, by rw [hm, hl, List.append_assoc], ?_⟩
  intro e hmem
  exact (List.mem_append.mp hmem).elim (he e) (hf e)

theorem motorSetActiveSpeedRpm (s : Board) (rpm : UInt16) :
    MotorOnly s (s.motorSetActiveSpeedRpm rpm) := by
  unfold Board.motorSetActiveSpeedRpm
  split
  · exact silent rfl rfl rfl rfl rfl
  · exact ⟨rfl, rfl, rfl, rfl, .one rfl rfl⟩

theorem speedPidIteration (s : Board) (cnt : UInt16) (now : UInt32) :
    MotorOnly s (s.speedPidIteration cnt now) := by
  have he : MotorOnly s (s.emit .iteration) := ⟨rfl, rfl, rfl, rfl, .one rfl rfl⟩
  simp only [Board.speedPidIteration]
  split
  · refine he.trans (MotorOnly.trans ?_ (motorSetActiveSpeedRpm _ _))
    exact silent rfl rfl rfl rfl rfl
  · exact he.trans (silent rfl rfl rfl rfl rfl)

end MotorOnly
end FabricInspection
