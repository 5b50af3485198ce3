import FabricInspection.Concurrency.Platform
import FabricInspection.Concurrency.Triple

namespace Concurrency.Platform
open Program (Keeps)

variable {σ φ : Type} {P : Platform σ φ} {r : P.Thread → σ → σ → Prop}

-- What is left of a thread's program makes no other steps than the whole of it.
def Keeping (r : P.Thread → σ → σ → Prop) (c : P.Config) : Prop := ∀ i, Keeps (r i) (c.thread i)

theorem keeping_boot (s : σ) : Keeping r (boot s : P.Config) := fun _ => trivial

theorem Keeping.enter {c : P.Config} (h : Keeping r c) {i : P.Thread} {p : Program σ φ Unit}
    (hp : Keeps (r i) p) : Keeping r (c.enter i p) := by
  intro j
  by_cases hj : j = i
  · subst hj
    rw [enter_self]
    exact hp
  · rw [enter_other c hj]
    exact h j

theorem Keeping.step {c d : P.Config} {a : P.Action} (h : Keeping r c)
    (hentry : ∀ i x, Keeps (r i) (P.entry i x)) (hs : step c a = some d) : Keeping r d := by
  obtain ⟨i, x, -, -, rfl⟩ | ⟨i, f, k, -, hi, rfl⟩ | ⟨e, s, -, -, rfl⟩ := step_cases hs
  · exact h.enter (hentry i x)
  · have hk := h i
    rw [hi] at hk
    exact h.enter (hk c.state).2
  · exact h

theorem Keeping.run {c : P.Config} (h : Keeping r c) {i : P.Thread} {f : σ → σ}
    {k : σ → Program σ φ Unit} (hi : c.thread i = .act f k) : r i c.state (f c.state) := by
  have hk := h i
  rw [hi] at hk
  exact (hk c.state).1

end Concurrency.Platform
