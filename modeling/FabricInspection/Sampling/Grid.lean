import Mathlib.Tactic.Common
import Mathlib.Algebra.Order.Group.Nat

-- `k` samples of a line of `n` points, taken every `n / k` points from the first one on.
namespace Sampling
variable {k n s p q : Nat}

def Near (s p q : Nat) : Prop := p ≤ q + s ∧ q ≤ p + s

def Spans (k n : Nat) : Prop := ∀ p < n, ∃ i < k, Near (n / k) p (i * (n / k))

theorem sample_lt (hk : 0 < k) (hn : k ≤ n) {i : Nat} (hi : i < k) : i * (n / k) < n := by
  have hs : 0 < n / k := Nat.div_pos hn hk
  calc i * (n / k) < k * (n / k) := Nat.mul_lt_mul_of_pos_right hi hs
    _ ≤ n := Nat.mul_div_le n k

-- The samples reach as far as one step after the last of them.
theorem near_iff (hk : 0 < k) : (∃ i < k, Near s p (i * s)) ↔ p ≤ k * s := by
  constructor
  · rintro ⟨i, hi, hle, -⟩
    calc p ≤ i * s + s := hle
      _ = (i + 1) * s := (Nat.succ_mul i s).symm
      _ ≤ k * s := Nat.mul_le_mul_right s hi
  · intro hp
    rcases Nat.eq_zero_or_pos s with rfl | hs
    · exact ⟨0, hk, by simpa using hp, by simp⟩
    rcases hp.eq_or_lt with heq | hlt
    · refine ⟨k - 1, Nat.sub_lt hk Nat.one_pos, ?_, ?_⟩
      · rw [← Nat.succ_mul, Nat.succ_eq_add_one, Nat.sub_add_cancel hk]
        exact hp
      · rw [heq]
        exact (Nat.mul_le_mul_right s (Nat.sub_le k 1)).trans (Nat.le_add_right _ s)
    · have hle : p / s * s ≤ p := Nat.div_mul_le_self p s
      have hnext : p < p / s * s + s := by
        rw [← Nat.succ_mul, Nat.mul_comm]
        exact Nat.lt_mul_div_succ p hs
      exact ⟨p / s, Nat.div_lt_of_lt_mul (Nat.mul_comm k s ▸ hlt), hnext.le,
        hle.trans (Nat.le_add_right p s)⟩

theorem spans_iff (hk : 0 < k) (hn : k ≤ n) : Spans k n ↔ n % k ≤ 1 := by
  have hdiv := Nat.div_add_mod n k
  constructor
  · intro h
    have hlast := (near_iff hk).mp (h (n - 1) (Nat.sub_lt (hk.trans_le hn) Nat.one_pos))
    omega
  · intro h p hp
    refine (near_iff hk).mpr ?_
    omega

end Sampling
