import Mathlib.Tactic.Common
import Mathlib.Algebra.Order.Group.Nat

namespace Timing

-- A counter holds at most `m` ticks, so a longer period is divided by a prescaler first.
def prescaler (m p : Nat) : Nat := p / m + 1

def reload (m p : Nat) : Nat := p / prescaler m p

def total (m p : Nat) : Nat := prescaler m p * reload m p

section
variable {m p q : Nat}

theorem prescaler_pos (m p : Nat) : 0 < prescaler m p := Nat.succ_pos _

theorem prescaler_mono (h : p ≤ q) : prescaler m p ≤ prescaler m q :=
  Nat.succ_le_succ (Nat.div_le_div_right h)

theorem reload_lt (hm : 0 < m) (p : Nat) : reload m p < m := by
  rw [reload, Nat.div_lt_iff_lt_mul (prescaler_pos m p)]
  exact Nat.lt_mul_div_succ p hm

theorem total_le (m p : Nat) : total m p ≤ p := Nat.mul_div_le p _

theorem lt_total_add (m p : Nat) : p < total m p + prescaler m p :=
  Nat.lt_mul_div_succ p (prescaler_pos m p)

-- A period that needs a larger prescaler is long enough to make up for the coarser rounding.
theorem total_lt_of_prescaler_lt (hm : 0 < m) (h : prescaler m p < prescaler m q) :
    total m p ≤ total m q := by
  have hlow : total m p ≤ prescaler m p * (m - 1) :=
    Nat.mul_le_mul_left _ (Nat.le_sub_one_of_lt (reload_lt hm p))
  have hstep : prescaler m p * (m - 1) ≤ q / m * (m - 1) :=
    Nat.mul_le_mul_right _ (Nat.le_of_lt_succ h)
  have hq : q / m * (m - 1) + q / m ≤ q := by
    calc q / m * (m - 1) + q / m = q / m * m := by rw [← Nat.mul_succ, Nat.succ_eq_add_one,
          Nat.sub_add_cancel hm]
      _ ≤ q := Nat.div_mul_le_self q m
  have hhigh := lt_total_add m q
  rw [prescaler] at hhigh
  omega

theorem total_mono (hm : 0 < m) (h : p ≤ q) : total m p ≤ total m q := by
  rcases (prescaler_mono (m := m) h).eq_or_lt with heq | hlt
  · rw [total, total, reload, reload, heq]
    exact Nat.mul_le_mul_left _ (Nat.div_le_div_right h)
  · exact total_lt_of_prescaler_lt hm hlt

theorem prescaler_short (h : p < m) : prescaler m p = 1 := by
  rw [prescaler, Nat.div_eq_of_lt h]

theorem reload_short (h : p < m) : reload m p = p := by
  rw [reload, prescaler_short h, Nat.div_one]

-- Even a long period leaves the counter half of its range.
theorem half_le_reload (hm : 0 < m) (h : m ≤ p) : m / 2 ≤ reload m p := by
  rw [reload, Nat.le_div_iff_mul_le (prescaler_pos m p), prescaler]
  have hone : 1 ≤ p / m := (Nat.one_le_div_iff hm).mpr h
  calc m / 2 * (p / m + 1) ≤ m / 2 * (2 * (p / m)) := Nat.mul_le_mul_left _ (by omega)
    _ = m / 2 * 2 * (p / m) := (Nat.mul_assoc ..).symm
    _ ≤ m * (p / m) := Nat.mul_le_mul_right _ (Nat.div_mul_le_self m 2)
    _ ≤ p := Nat.mul_div_le p m

theorem le_reload {k : Nat} (hm : 0 < m) (hk : k ≤ m / 2) (h : k ≤ p) : k ≤ reload m p := by
  rcases Nat.lt_or_ge p m with hshort | hlong
  · rwa [reload_short hshort]
  · exact hk.trans (half_le_reload hm hlong)

theorem reload_le_total (m p : Nat) : reload m p ≤ total m p :=
  Nat.le_mul_of_pos_left _ (prescaler_pos m p)

end
end Timing
