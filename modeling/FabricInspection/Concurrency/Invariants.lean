import FabricInspection.Concurrency.Platform
import FabricInspection.Concurrency.Triple

namespace Concurrency

namespace Program
variable {σ φ α β : Type} {A : σ → Prop}

-- Every step of the program keeps `A`, in whatever state with `A` it is taken.
def Upholds (A : σ → Prop) : Program σ φ α → Prop
  | .ret _ => True
  | .fail _ => True
  | .act f k => ∀ s, A s → A (f s) ∧ Upholds A (k s)

theorem upholds_write {f : σ → σ} (h : ∀ s, A s → A (f s)) :
    Upholds A (write f : Program σ φ Unit) :=
  fun s hs => ⟨h s hs, trivial⟩

theorem upholds_bind {p : Program σ φ α} {q : α → Program σ φ β} (hp : Upholds A p)
    (hq : ∀ a, Upholds A (q a)) : Upholds A (p >>= q) := by
  induction p with
  | ret a => exact hq a
  | fail e => trivial
  | act f k ih => exact fun s hs => ⟨(hp s hs).1, ih s (hp s hs).2⟩

theorem upholds_seq {p : Program σ φ Unit} {q : Program σ φ β} (hp : Upholds A p)
    (hq : Upholds A q) : Upholds A (p >>= fun _ => q) :=
  upholds_bind hp fun _ => hq

-- What is read is what a state with `A` has to give.
theorem upholds_bind_read {g : σ → α} {q : α → Program σ φ β}
    (hq : ∀ s, A s → Upholds A (q (g s))) : Upholds A (read g >>= q) :=
  fun s hs => ⟨hs, hq s hs⟩

theorem upholds_when {b : Bool} {p : Program σ φ Unit} (h : Upholds A p) :
    Upholds A (when b p) := by
  cases b with
  | true => exact h
  | false => trivial

theorem upholds_lift (x : Except φ α) : Upholds A (lift x : Program σ φ α) := by
  cases x with
  | ok a => trivial
  | error e => trivial

end Program

namespace Platform
open Program (Upholds)
variable {σ φ : Type} {P : Platform σ φ} {A : σ → Prop}

structure Upheld (A : σ → Prop) (c : P.Config) : Prop where
  state : A c.state
  thread : ∀ i, Upholds A (c.thread i)

theorem Upheld.enter {c : P.Config} (h : Upheld A c) {i : P.Thread} {p : Program σ φ Unit}
    (hp : Upholds A p) : Upheld A (c.enter i p) := by
  refine ⟨h.state, fun j => ?_⟩
  by_cases hj : j = i
  · subst hj
    rw [enter_self]
    exact hp
  · rw [enter_other c hj]
    exact h.thread j

theorem Upheld.step {c d : P.Config} {a : P.Action} (h : Upheld A c)
    (hentry : ∀ i x, Upholds A (P.entry i x))
    (hirq : ∀ e s t, A s → P.interrupt e s = .ok t → A t) (hs : step c a = some d) :
    Upheld A d := by
  obtain ⟨i, x, -, -, rfl⟩ | ⟨i, f, k, -, hi, rfl⟩ | ⟨e, s, -, he, rfl⟩ := step_cases hs
  · exact h.enter (hentry i x)
  · have hk := h.thread i
    rw [hi] at hk
    obtain ⟨hf, hrest⟩ := hk c.state h.state
    exact ⟨hf, (h.enter hrest).thread⟩
  · exact ⟨hirq e c.state s h.state he, h.thread⟩

-- What every thread and every interrupt upholds is true in every state reached.
theorem upheld_reach {s : σ} {d : P.Config} (h : A s) (hentry : ∀ i x, Upholds A (P.entry i x))
    (hirq : ∀ e s t, A s → P.interrupt e s = .ok t → A t) (hr : Reach (boot s) d) :
    A d.state := by
  have hboot : Upheld A (boot s : P.Config) := ⟨h, fun _ => trivial⟩
  have hd : Upheld A d :=
    Reach.induct hboot (fun _ _ _ _ hc hs => hc.step hentry hirq hs) d hr
  exact hd.state

end Platform
end Concurrency
