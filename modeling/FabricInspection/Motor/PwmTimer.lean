import FabricInspection.Motor.Pid
import FabricInspection.Timing.Prescaler
import Mathlib.Tactic.Ring

namespace Fallible

inductive Trap where
  | divByZero
  | overflow (bits : Nat)
  deriving DecidableEq, Repr

-- A value that is stored in `bits` bits, the sign apart.
def fit (bits n : Nat) : Except Trap Nat := if n < 2 ^ bits then .ok n else .error (.overflow bits)

def quot (a b : Nat) : Except Trap Nat := if b = 0 then .error .divByZero else .ok (a / b)

theorem fit_ok {bits n : Nat} (h : n < 2 ^ bits) : fit bits n = .ok n := if_pos h

theorem quot_ok {b : Nat} (h : 0 < b) (a : Nat) : quot a b = .ok (a / b) := if_neg (Nat.ne_of_gt h)

end Fallible

namespace FabricInspection

open Fallible (Trap fit quot fit_ok quot_ok)
open Timing (prescaler reload total)

def maxPeriod : Nat := 65535
def minPeriod : Nat := 3
def minPulse : Nat := 2

-- The registers that drv_pwm_set writes.
structure PwmTimer where
  psc : Nat
  arr : Nat
  ccr : Nat
  deriving DecidableEq, Repr

def PwmTimer.totalPeriod (t : PwmTimer) : Nat := (t.psc + 1) * (t.arr + 1)

-- `rpm * MICRO_STEPS` is an int, the rest of the computation unsigned.
def periodAndPulse (rpm : UInt16) : Except Trap (Nat × Nat) := do
  let steps ← fit 31 (rpm.toNat * microSteps)
  let freqHz ← quot steps 60
  let freqHz := if freqHz < 1 then 1 else freqHz
  let periodNs ← quot 1000000000 freqHz
  let periodNs ← fit 32 periodNs
  let pulseNs ← quot periodNs 2
  .ok (periodNs, pulseNs)

-- `timClock` is tim_clock in MHz. The products are unsigned long long.
def drvPwmSet (timClock : Nat) (configuration : Nat × Nat) : Except Trap PwmTimer := do
  let ticks ← fit 64 (configuration.1 * timClock)
  let ticks ← quot ticks 1000
  let period ← fit 32 ticks
  let psc ← quot period maxPeriod
  let psc ← fit 32 (psc + 1)
  let period ← quot period psc
  let period := if period < minPeriod then minPeriod else period
  let pulse ← fit 64 (configuration.2 * timClock)
  let pulse ← quot pulse psc
  let pulse ← quot pulse 1000
  let pulse ← fit 32 pulse
  let pulse := if pulse < minPulse then minPulse else if pulse > period then period else pulse
  .ok ⟨psc - 1, period - 1, pulse - 1⟩

def setRpm (timClock : Nat) (rpm : UInt16) : Except Trap PwmTimer :=
  periodAndPulse rpm >>= drvPwmSet timClock

def ticksOf (timClock : Nat) (rpm : UInt16) : Nat := Motor.periodNs rpm * timClock / 1000

def pulseOf (timClock : Nat) (rpm : UInt16) : Nat :=
  Motor.periodNs rpm / 2 * timClock / prescaler maxPeriod (ticksOf timClock rpm) / 1000

def timerOf (timClock : Nat) (rpm : UInt16) : PwmTimer :=
  let period := max minPeriod (reload maxPeriod (ticksOf timClock rpm))
  ⟨prescaler maxPeriod (ticksOf timClock rpm) - 1, period - 1,
    min period (max minPulse (pulseOf timClock rpm)) - 1⟩

theorem freqHz_pos (rpm : UInt16) :
    0 < if rpm.toNat * microSteps / 60 < 1 then 1 else rpm.toNat * microSteps / 60 := by
  split
  · exact Nat.zero_lt_one
  · exact Nat.pos_of_ne_zero (by omega)

theorem periodNs_le (rpm : UInt16) : Motor.periodNs rpm ≤ 1000000000 := Nat.div_le_self ..

-- A faster motor has the shorter period.
theorem periodNs_antitone {rpm₁ rpm₂ : UInt16} (h : rpm₁ ≤ rpm₂) :
    Motor.periodNs rpm₂ ≤ Motor.periodNs rpm₁ := by
  have hsteps : rpm₁.toNat * microSteps / 60 ≤ rpm₂.toNat * microSteps / 60 :=
    Nat.div_le_div_right (Nat.mul_le_mul_right _ (UInt16.le_iff_toNat_le.mp h))
  refine Nat.div_le_div_left ?_ (freqHz_pos rpm₁)
  split <;> split <;> omega

theorem periodAndPulse_ok (rpm : UInt16) :
    periodAndPulse rpm = .ok (Motor.periodNs rpm, Motor.periodNs rpm / 2) := by
  have hrpm : rpm.toNat < 65536 := rpm.toNat_lt
  have hsteps : rpm.toNat * microSteps < 2 ^ 31 := by
    rw [microSteps]
    omega
  have hperiod := periodNs_le rpm
  have hfit : Motor.periodNs rpm < 2 ^ 32 := by omega
  rw [Motor.periodNs] at hfit
  simp only [periodAndPulse, fit_ok hsteps, quot_ok (by decide : 0 < 60), bind, Except.bind,
    quot_ok (freqHz_pos rpm), fit_ok hfit, quot_ok Nat.zero_lt_two]
  rfl

theorem clamp_low (a lo : Nat) : (if a < lo then lo else a) = max lo a := by
  split <;> omega

theorem clamp_both {a lo hi : Nat} (h : lo ≤ hi) :
    (if a < lo then lo else if a > hi then hi else a) = min hi (max lo a) := by
  split
  · omega
  · split <;> omega

theorem half_quot {a b d : Nat} (hd : 0 < d) (hlow : 2 * b ≤ a) (hhigh : a ≤ 2 * b + d) :
    2 * (b / d) ≤ a / d ∧ a / d ≤ 2 * (b / d) + 2 := by
  constructor
  · rw [Nat.le_div_iff_mul_le hd, Nat.mul_assoc]
    exact (Nat.mul_le_mul_left 2 (Nat.div_mul_le_self b d)).trans hlow
  · have hb := Nat.lt_mul_div_succ b hd
    refine Nat.le_of_lt_succ ((Nat.div_lt_iff_lt_mul hd).mpr ?_)
    calc a ≤ 2 * b + d := hhigh
      _ < 2 * (d * (b / d + 1)) + d := by omega
      _ = (2 * (b / d) + 2).succ * d := by rw [Nat.succ_eq_add_one]; ring

section
variable {timClock : Nat} (hc : timClock ≤ 1000) (rpm : UInt16)
include hc

theorem ticksOf_le : ticksOf timClock rpm ≤ 1000000000 := by
  have hmul : Motor.periodNs rpm * timClock ≤ 1000000000 * 1000 :=
    Nat.mul_le_mul (periodNs_le rpm) hc
  rw [ticksOf]
  omega

theorem setRpm_ok : setRpm timClock rpm = .ok (timerOf timClock rpm) := by
  have hproduct : Motor.periodNs rpm * timClock ≤ 1000000000 * 1000 :=
    Nat.mul_le_mul (periodNs_le rpm) hc
  have hhalf : Motor.periodNs rpm / 2 * timClock ≤ 1000000000 * 1000 :=
    Nat.mul_le_mul ((Nat.div_le_self _ 2).trans (periodNs_le rpm)) hc
  have hperiod : Motor.periodNs rpm * timClock < 2 ^ 64 := by omega
  have hpulse : Motor.periodNs rpm / 2 * timClock < 2 ^ 64 := by omega
  have hticks : ticksOf timClock rpm < 2 ^ 32 := (ticksOf_le hc rpm).trans_lt (by decide)
  have hpsc : ticksOf timClock rpm / maxPeriod + 1 < 2 ^ 32 := by
    rw [maxPeriod]
    omega
  have hfinal : pulseOf timClock rpm < 2 ^ 32 := by
    have hle : pulseOf timClock rpm ≤ Motor.periodNs rpm / 2 * timClock / 1000 :=
      Nat.div_le_div_right (Nat.div_le_self ..)
    omega
  rw [setRpm, periodAndPulse_ok]
  simp only [ticksOf] at hticks hpsc
  simp only [pulseOf, ticksOf, prescaler] at hfinal
  have hlow (period : Nat) : minPulse ≤ max minPeriod period :=
    (by decide : minPulse ≤ minPeriod).trans (le_max_left ..)
  simp only [drvPwmSet, bind, Except.bind, fit_ok hperiod, quot_ok (by decide : 0 < 1000),
    fit_ok hticks, quot_ok (by decide : 0 < maxPeriod), fit_ok hpsc, quot_ok (Nat.succ_pos _),
    fit_ok hpulse, fit_ok hfinal, clamp_low, clamp_both (hlow _)]
  rfl

-- Half of the period, rounded down twice and kept inside the bounds of the register.
theorem pulseOf_half :
    2 * pulseOf timClock rpm ≤ reload maxPeriod (ticksOf timClock rpm) ∧
      reload maxPeriod (ticksOf timClock rpm) ≤ 2 * pulseOf timClock rpm + 2 := by
  generalize hp : prescaler maxPeriod (ticksOf timClock rpm) = psc
  have hpos : 0 < psc := hp ▸ Timing.prescaler_pos _ _
  have hpulse : pulseOf timClock rpm = Motor.periodNs rpm / 2 * timClock / (1000 * psc) := by
    rw [pulseOf, hp, Nat.div_div_eq_div_mul, Nat.mul_comm psc]
  have hreload : reload maxPeriod (ticksOf timClock rpm) =
      Motor.periodNs rpm * timClock / (1000 * psc) := by
    rw [reload, hp, ticksOf, Nat.div_div_eq_div_mul]
  have hhalf : 2 * (Motor.periodNs rpm / 2) ≤ Motor.periodNs rpm := Nat.mul_div_le _ 2
  have hodd : Motor.periodNs rpm ≤ 2 * (Motor.periodNs rpm / 2) + 1 := by omega
  have hlow : 2 * (Motor.periodNs rpm / 2 * timClock) ≤ Motor.periodNs rpm * timClock := by
    rw [← Nat.mul_assoc]
    exact Nat.mul_le_mul_right _ hhalf
  have hhigh : Motor.periodNs rpm * timClock ≤
      2 * (Motor.periodNs rpm / 2 * timClock) + 1000 * psc := by
    calc Motor.periodNs rpm * timClock ≤ (2 * (Motor.periodNs rpm / 2) + 1) * timClock :=
          Nat.mul_le_mul_right _ hodd
      _ = 2 * (Motor.periodNs rpm / 2 * timClock) + timClock := by ring
      _ ≤ 2 * (Motor.periodNs rpm / 2 * timClock) + 1000 * psc := by omega
  rw [hpulse, hreload]
  exact half_quot (by omega) hlow hhigh

theorem timerOf_psc_le : (timerOf timClock rpm).psc ≤ 65535 := by
  have hticks := ticksOf_le hc rpm
  simp only [timerOf, prescaler, maxPeriod]
  omega

end

section
variable (timClock : Nat) (rpm : UInt16)

theorem timerOf_psc : (timerOf timClock rpm).psc + 1 = prescaler maxPeriod (ticksOf timClock rpm) :=
  Nat.sub_add_cancel (Timing.prescaler_pos _ _)

theorem timerOf_arr :
    (timerOf timClock rpm).arr + 1 = max minPeriod (reload maxPeriod (ticksOf timClock rpm)) :=
  Nat.sub_add_cancel ((by decide : 1 ≤ minPeriod).trans (le_max_left ..))

theorem timerOf_ccr : (timerOf timClock rpm).ccr + 1 =
    min (max minPeriod (reload maxPeriod (ticksOf timClock rpm)))
      (max minPulse (pulseOf timClock rpm)) := by
  refine Nat.sub_add_cancel (le_min ?_ ?_)
  · exact (by decide : 1 ≤ minPeriod).trans (le_max_left ..)
  · exact (by decide : 1 ≤ minPulse).trans (le_max_left ..)

-- The lower bound on the period only matters where there is nothing to prescale.
theorem timerOf_total :
    (timerOf timClock rpm).totalPeriod = max minPeriod (total maxPeriod (ticksOf timClock rpm)) := by
  rw [PwmTimer.totalPeriod, timerOf_psc, timerOf_arr]
  rcases Nat.lt_or_ge (ticksOf timClock rpm) minPeriod with hshort | hlong
  · rw [total, Timing.prescaler_short (hshort.trans (by decide)), Nat.one_mul, Nat.one_mul]
  · have hreload := Timing.le_reload (by decide : 0 < maxPeriod) (by decide) hlong
    rw [max_eq_right hreload, total, max_eq_right]
    exact hreload.trans (Timing.reload_le_total _ _)

end

theorem rpm_timer_in_range (timClock : Nat) (hc : timClock ≤ 1000) :
    (∀ rpm, ∃ t, setRpm timClock rpm = .ok t ∧ t.psc ≤ 65535 ∧
      (3 ≤ t.arr + 1 ∧ t.arr + 1 ≤ 65535) ∧ (2 ≤ t.ccr + 1 ∧ t.ccr + 1 ≤ t.arr + 1) ∧
      (2 * (t.ccr + 1) ≤ t.arr + 1 + 2 ∧ t.arr + 1 ≤ 2 * (t.ccr + 1) + 2) ∧
      (3 ≤ ticksOf timClock rpm → t.totalPeriod ≤ ticksOf timClock rpm ∧
        ticksOf timClock rpm < t.totalPeriod + (t.psc + 1))) ∧
    ∀ rpm₁ rpm₂ t₁ t₂, rpm₁ ≤ rpm₂ → setRpm timClock rpm₁ = .ok t₁ →
      setRpm timClock rpm₂ = .ok t₂ → t₂.totalPeriod ≤ t₁.totalPeriod := by
  have hmax : 0 < maxPeriod := by decide
  refine ⟨fun rpm => ⟨timerOf timClock rpm, setRpm_ok hc rpm, timerOf_psc_le hc rpm, ?_, ?_, ?_, ?_⟩,
    ?_⟩
  · rw [timerOf_arr]
    have hreload : reload maxPeriod (ticksOf timClock rpm) < 65535 := Timing.reload_lt hmax _
    exact ⟨le_max_left .., max_le (by decide) hreload.le⟩
  · rw [timerOf_arr, timerOf_ccr]
    refine ⟨le_min ?_ (le_max_left ..), min_le_left ..⟩
    exact (by decide : 2 ≤ minPeriod).trans (le_max_left ..)
  · obtain ⟨hlow, hhigh⟩ := pulseOf_half hc rpm
    rw [timerOf_arr, timerOf_ccr, minPeriod, minPulse]
    omega
  · intro hticks
    have htotal : minPeriod ≤ total maxPeriod (ticksOf timClock rpm) :=
      (Timing.le_reload hmax (by decide) hticks).trans (Timing.reload_le_total _ _)
    rw [timerOf_total, timerOf_psc, max_eq_right htotal]
    exact ⟨Timing.total_le _ _, Timing.lt_total_add _ _⟩
  · intro rpm₁ rpm₂ t₁ t₂ hle h₁ h₂
    rw [setRpm_ok hc] at h₁ h₂
    rw [← Except.ok.inj h₁, ← Except.ok.inj h₂, timerOf_total, timerOf_total]
    refine max_le_max le_rfl (Timing.total_mono hmax ?_)
    exact Nat.div_le_div_right (Nat.mul_le_mul_right _ (periodNs_antitone hle))

-- At 200 MHz.
theorem rpm_timer_in_range_full_speed :
    ∃ t, setRpm 200 800 = .ok t ∧ 3 ≤ t.arr + 1 ∧ t.ccr + 1 ≤ t.arr + 1 := by
  obtain ⟨t, ht, -, harr, hccr, -⟩ := (rpm_timer_in_range 200 (by decide)).1 800
  exact ⟨t, ht, harr.1, hccr.2⟩

end FabricInspection
