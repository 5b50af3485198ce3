import Mathlib.Tactic.Common
import Mathlib.Algebra.Order.Group.Nat

-- How much was counted since an interval of the log was opened. Outside of it there is no count.
namespace Concurrency.Trace
variable {ε : Type}

structure Interval (ε : Type) where
  opens : ε → Bool
  closes : ε → Bool
  counts : ε → Bool

namespace Interval

def next (w : Interval ε) (n : Option Nat) (e : ε) : Option Nat :=
  if w.opens e then some 0
  else if w.closes e then none
  else if w.counts e then n.map (· + 1)
  else n

def elapsed (w : Interval ε) (log : List ε) : Option Nat := log.foldl w.next none

variable {w : Interval ε}

theorem elapsed_snoc (log : List ε) (e : ε) :
    w.elapsed (log ++ [e]) = w.next (w.elapsed log) e :=
  List.foldl_append

theorem foldl_next {es : List ε} (h : ∀ e ∈ es, w.closes e = false) (n : Nat) :
    ∃ m ≤ n + es.countP w.counts, es.foldl w.next (some n) = some m := by
  induction es generalizing n with
  | nil => exact ⟨n, Nat.le_refl n, rfl⟩
  | cons e es ih =>
    have he : w.closes e = false := h e List.mem_cons_self
    have ih := ih fun x hx => h x (List.mem_cons_of_mem e hx)
    rw [List.foldl_cons, List.countP_cons]
    by_cases ho : w.opens e
    · obtain ⟨m, hm, heq⟩ := ih 0
      refine ⟨m, ?_, by rwa [next, if_pos ho]⟩
      omega
    · by_cases hc : w.counts e
      · obtain ⟨m, hm, heq⟩ := ih (n + 1)
        refine ⟨m, ?_, by simpa [next, ho, he, hc] using heq⟩
        rw [if_pos hc]
        omega
      · obtain ⟨m, hm, heq⟩ := ih n
        refine ⟨m, ?_, by simpa [next, ho, he, hc] using heq⟩
        omega

-- An interval that stays open: what is counted is all there.
theorem elapsed_le {pre es : List ε} {x : ε} (hx : w.opens x)
    (h : ∀ e ∈ es, w.closes e = false) :
    ∃ m ≤ es.countP w.counts, w.elapsed (pre ++ x :: es) = some m := by
  obtain ⟨m, hm, heq⟩ := foldl_next h 0
  refine ⟨m, by rwa [Nat.zero_add] at hm, ?_⟩
  rw [elapsed, List.foldl_append, List.foldl_cons, next, if_pos hx]
  exact heq

end Interval
end Concurrency.Trace
