import FabricInspection.Motor.Encoder
import Mathlib.Tactic.Linarith
import Mathlib.Tactic.GCongr
import Mathlib.Order.Monotone.Basic

namespace FabricInspection

theorem clampBetween_eq (lo hi x : ℚ) : clampBetween lo hi x = max lo (min hi x) := by
  have hhigh : (if x > hi then hi else x) = min hi x := by
    split
    · rw [min_eq_left (by assumption : hi < x).le]
    · rw [min_eq_right (not_lt.mp (by assumption))]
  have hlow (y : ℚ) : (if y < lo then lo else y) = max lo y := by
    split
    · rw [max_eq_left (by assumption : y < lo).le]
    · rw [max_eq_right (not_lt.mp (by assumption))]
  rw [clampBetween, hhigh]
  exact hlow _

theorem clampBetween_mono (lo hi : ℚ) : Monotone (clampBetween lo hi) := by
  intro x y h
  rw [clampBetween_eq, clampBetween_eq]
  exact max_le_max le_rfl (min_le_min le_rfl h)

theorem clampBetween_le {lo hi : ℚ} (h : lo ≤ hi) (x : ℚ) : clampBetween lo hi x ≤ hi := by
  rw [clampBetween_eq]
  exact max_le h (min_le_left _ _)

theorem le_clampBetween (lo hi x : ℚ) : lo ≤ clampBetween lo hi x := by
  rw [clampBetween_eq]
  exact le_max_left _ _

namespace Pid

theorem lowPass_mono (filteredSpeed : ℚ) : Monotone (lowPass filteredSpeed) := by
  intro x y h
  simp only [lowPass, filterAlpha]
  split <;> linarith

theorem rawSpeed_mono {dt : ℚ} (hdt : 0 < dt) {d₁ d₂ : Int} (h : d₁ ≤ d₂) :
    rawSpeed d₁ dt ≤ rawSpeed d₂ dt := by
  have hd : (d₁ : ℚ) ≤ d₂ := Int.cast_le.mpr h
  simp only [rawSpeed, wheelCircumMm, encoder4x, encoderPpr]
  gcongr

-- The rest of an iteration, from the measured speed.
def respond (p : Pid) (target currentSpeed : ℚ) : ℚ :=
  let error := target - currentSpeed
  let integral := clampBetween (-kiLimit) kiLimit (p.integral + error * pidDt)
  let derivative := (error - p.prevError) / pidDt
  clampBetween 0 800 (kp * error + ki * integral + kd * derivative)

theorem respond_antitone (p : Pid) (target : ℚ) : Antitone (p.respond target) := by
  intro v₁ v₂ h
  have herror : target - v₂ ≤ target - v₁ := sub_le_sub_left h target
  have hintegral : clampBetween (-kiLimit) kiLimit (p.integral + (target - v₂) * pidDt) ≤
      clampBetween (-kiLimit) kiLimit (p.integral + (target - v₁) * pidDt) := by
    refine clampBetween_mono _ _ ?_
    simp only [pidDt]
    linarith
  refine clampBetween_mono _ _ ?_
  simp only [kp, ki, kd]
  linarith

def restarted (p : Pid) : Pid := if p.wasEnabled then p else p.clear true

theorem control_output (p : Pid) (target : ℚ) (cnt : UInt16) {now : UInt32}
    (h : p.samples now = true) :
    (p.control target cnt now).2 = p.restarted.respond target (lowPass p.restarted.filteredSpeed
      (rawSpeed (p.delta cnt) ((now - p.lastTimeMs).toNat / rtTickPerSecond))) := by
  have hsame : p.restarted.samples now = true ∧ p.restarted.delta cnt = p.delta cnt ∧
      p.restarted.lastTimeMs = p.lastTimeMs := by
    rw [restarted]
    split
    · exact ⟨h, rfl, rfl⟩
    · exact ⟨h, rfl, rfl⟩
  obtain ⟨hsamples, hdelta, hlast⟩ := hsame
  have hcontrol : p.control target cnt now =
      (let q := (p.restarted.getLineSpeedMmps cnt now).1
      let error := target - (p.restarted.getLineSpeedMmps cnt now).2
      let integral := clampBetween (-kiLimit) kiLimit (q.integral + error * pidDt)
      let derivative := (error - q.prevError) / pidDt
      let output := clampBetween 0 800 (kp * error + ki * integral + kd * derivative)
      ({ q with integral := integral, prevError := error }, output)) := rfl
  rw [hcontrol, getLineSpeedMmps_sample hsamples, hdelta, hlast]
  rfl

theorem control_output_le (p : Pid) (target : ℚ) (cnt : UInt16) (now : UInt32) :
    ⌊(p.control target cnt now).2⌋₊ ≤ 800 := by
  refine Nat.floor_le_of_le ?_
  exact clampBetween_le (by norm_num) _

end Pid

-- The argument of motor_set_active_speed_rpm in one iteration of the closed loop.
def Motor.commandedRpm (m : Motor) (cnt : UInt16) (now : UInt32) : UInt16 :=
  UInt16.ofNat ⌊(m.pid.control m.targetSpeedMmps cnt now).2⌋₊

theorem speedPidIteration_commands {s : Board} (h : s.motor.closedLoopEnable = true)
    (cnt : UInt16) (now : UInt32) :
    ∃ t : Board, s.speedPidIteration cnt now =
      t.motorSetActiveSpeedRpm (s.motor.commandedRpm cnt now) ∧
      t.motor.gDirectionReverse = s.motor.gDirectionReverse := by
  simp only [Board.speedPidIteration, Board.emit_motor, h, if_true]
  exact ⟨_, rfl, rfl⟩

-- The cast to uint16_t loses nothing.
theorem commandedRpm_toNat (m : Motor) (cnt : UInt16) (now : UInt32) :
    (m.commandedRpm cnt now).toNat = ⌊(m.pid.control m.targetSpeedMmps cnt now).2⌋₊ := by
  have hle := Pid.control_output_le m.pid m.targetSpeedMmps cnt now
  rw [Motor.commandedRpm, UInt16.toNat_ofNat', Nat.mod_eq_of_lt (by omega)]

theorem commandedRpm_le {m : Motor} {cnt₁ cnt₂ : UInt16} {now : UInt32}
    (h : m.pid.samples now = true) (hd : m.pid.delta cnt₁ ≤ m.pid.delta cnt₂) :
    m.commandedRpm cnt₂ now ≤ m.commandedRpm cnt₁ now := by
  have hticks : (0 : ℚ) < (now - m.pid.lastTimeMs).toNat := Nat.cast_pos.mpr (of_decide_eq_true h)
  have hdt : (0 : ℚ) < (now - m.pid.lastTimeMs).toNat / rtTickPerSecond :=
    div_pos hticks (by norm_num [rtTickPerSecond])
  have houtput : (m.pid.control m.targetSpeedMmps cnt₂ now).2 ≤
      (m.pid.control m.targetSpeedMmps cnt₁ now).2 := by
    rw [Pid.control_output _ _ _ h, Pid.control_output _ _ _ h]
    exact Pid.respond_antitone _ _ (Pid.lowPass_mono _ (Pid.rawSpeed_mono hdt hd))
  have hfloor : ⌊(m.pid.control m.targetSpeedMmps cnt₂ now).2⌋₊ ≤
      ⌊(m.pid.control m.targetSpeedMmps cnt₁ now).2⌋₊ := Nat.floor_le_floor houtput
  rw [UInt16.le_iff_toNat_le, commandedRpm_toNat, commandedRpm_toNat]
  exact hfloor

-- Counts of the fabric that moves `d` in the commanded direction.
def travel (reverse : Bool) (d : Nat) : Int := if reverse then -d else d

-- What one iteration commands `d` counts after a sample at `pos`.
def rpmAfter (m : Motor) (pos : Int) (d : Nat) (now : UInt32) : UInt16 :=
  m.commandedRpm (tim3 (pos + travel m.gDirectionReverse d)) now

def NegativeFeedback (m : Motor) : Prop :=
  ∀ (pos : Int) (now : UInt32) (d₁ d₂ : Nat), m.pid.lastCount = (tim3 pos).toNat →
    m.pid.samples now = true → d₁ ≤ d₂ → d₂ ≤ 32767 → rpmAfter m pos d₂ now ≤ rpmAfter m pos d₁ now

section
variable {m : Motor} {pos : Int} {now : UInt32} {d d₁ d₂ : Nat}

theorem delta_travel (hp : m.pid.lastCount = (tim3 pos).toNat) (hd : d ≤ 32767) (reverse : Bool) :
    m.pid.delta (tim3 (pos + travel reverse d)) = travel reverse d := by
  refine (Pid.delta_displacement hp _).mpr (.inl ?_)
  cases reverse with
  | false =>
    simp only [travel, Bool.false_eq_true, if_false]
    omega
  | true =>
    simp only [travel, if_true]
    omega

theorem forward_slows (hp : m.pid.lastCount = (tim3 pos).toNat) (hs : m.pid.samples now = true)
    (h : d₁ ≤ d₂) (hd : d₂ ≤ 32767) (hr : m.gDirectionReverse = false) :
    rpmAfter m pos d₂ now ≤ rpmAfter m pos d₁ now := by
  refine commandedRpm_le hs ?_
  rw [delta_travel hp (h.trans hd), delta_travel hp hd, hr]
  exact Int.ofNat_le.mpr h

-- The count goes down, the measured speed is negative, and the error grows with it.
theorem reverse_speeds_up (hp : m.pid.lastCount = (tim3 pos).toNat)
    (hs : m.pid.samples now = true) (h : d₁ ≤ d₂) (hd : d₂ ≤ 32767)
    (hr : m.gDirectionReverse = true) : rpmAfter m pos d₁ now ≤ rpmAfter m pos d₂ now := by
  refine commandedRpm_le hs ?_
  rw [delta_travel hp (h.trans hd), delta_travel hp hd, hr]
  exact Int.neg_le_neg (Int.ofNat_le.mpr h)

end

-- Reverse travel at the target speed of 'm', 20 ms after the last sample.
def reverseMotor : Motor :=
  { Motor.reset fun _ => false with
    gDirectionReverse := true
    closedLoopEnable := true
    pid := { Pid.init with wasEnabled := true } }

theorem rpmAfter_reverseMotor :
    rpmAfter reverseMotor 0 0 20 = 200 ∧ rpmAfter reverseMotor 0 100 20 = 671 := by
  decide +kernel

theorem reverseMotor_not_negative : ¬NegativeFeedback reverseMotor := by
  intro h
  obtain ⟨hzero, hhundred⟩ := rpmAfter_reverseMotor
  have hle := h 0 20 0 100 rfl rfl (Nat.zero_le _) (by decide)
  rw [hzero, hhundred] at hle
  exact absurd hle (by decide)

theorem feedback_negative_iff (reverse : Bool) :
    ((∀ m : Motor, m.gDirectionReverse = reverse → -kiLimit ≤ m.pid.integral →
      m.pid.integral ≤ kiLimit → NegativeFeedback m) ↔ reverse = false) ∧
    (reverse = true → ∀ (m : Motor) (pos : Int) (now : UInt32) (d₁ d₂ : Nat),
      m.gDirectionReverse = reverse → m.pid.lastCount = (tim3 pos).toNat →
      m.pid.samples now = true → d₁ ≤ d₂ → d₂ ≤ 32767 →
      rpmAfter m pos d₁ now ≤ rpmAfter m pos d₂ now) := by
  refine ⟨⟨fun h => ?_, ?_⟩, ?_⟩
  · cases reverse with
    | false => rfl
    | true =>
      exact absurd (h reverseMotor rfl (by decide +kernel) (by decide +kernel))
        reverseMotor_not_negative
  · rintro rfl m hm - - pos now d₁ d₂ hp hs h hd
    exact forward_slows hp hs h hd hm
  · rintro rfl m pos now d₁ d₂ hm hp hs h hd
    exact reverse_speeds_up hp hs h hd hm

theorem reverse_feedback_positive :
    reverseMotor.gDirectionReverse = true ∧ reverseMotor.closedLoopEnable = true ∧
      ∃ (pos : Int) (now : UInt32) (d₁ d₂ : Nat), d₁ ≤ d₂ ∧ d₂ ≤ 32767 ∧
        rpmAfter reverseMotor pos d₁ now < rpmAfter reverseMotor pos d₂ now := by
  obtain ⟨hzero, hhundred⟩ := rpmAfter_reverseMotor
  refine ⟨rfl, rfl, 0, 20, 0, 100, by decide, by decide, ?_⟩
  rw [hzero, hhundred]
  decide

end FabricInspection
