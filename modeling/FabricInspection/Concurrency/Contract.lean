import FabricInspection.Concurrency.Platform

namespace Concurrency

structure Contract {σ φ : Type} (P : Platform σ φ) where
  rely : P.Thread → Rely σ
  guar : P.Thread → σ → σ → Prop
  fault : P.Thread → φ → σ → Prop
  idle : P.Thread → σ → Prop
  entry : ∀ i x s, idle i s →
    (P.entry i x).wp (rely i) (guar i) (fault i) (fun _ => idle i) s
  others : ∀ {i j s t}, j ≠ i → guar i s t → (rely j).rel s t
  interrupts : ∀ j {e s t}, P.interrupt e s = .ok t → (rely j).rel s t

namespace Contract
variable {σ φ : Type} {P : Platform σ φ} (K : Contract P)

def Holds (c : P.Config) : Prop :=
  ∀ i, (c.thread i).wp (K.rely i) (K.guar i) (K.fault i) (fun _ => K.idle i) c.state

theorem holds_start {c : P.Config} (h : K.Holds c) {i : P.Thread} (x : P.Input i)
    (hi : c.blocked i) : K.Holds (c.enter i (P.entry i x)) := by
  intro j
  by_cases hj : j = i
  · subst hj
    have hs := h j
    rw [hi] at hs
    rw [Platform.enter_self]
    exact K.entry j x c.state (hs c.state ((K.rely j).refl _))
  · rw [Platform.enter_other c hj]
    exact h j

theorem holds_run {c : P.Config} (h : K.Holds c) {i : P.Thread} {f : σ → σ}
    {k : σ → Program σ φ Unit} (hi : c.thread i = .act f k) :
    K.guar i c.state (f c.state) ∧
      K.Holds { c.enter i (k c.state) with state := f c.state } := by
  have hs := h i
  rw [hi] at hs
  obtain ⟨hg, hk⟩ := hs c.state ((K.rely i).refl _)
  refine ⟨hg, ?_⟩
  intro j
  by_cases hj : j = i
  · subst hj
    simpa only [Platform.enter_self] using hk
  · simp only [Platform.enter_other c hj]
    exact Program.wp_stable _ _ _ (h j) (K.others hj hg)

theorem holds_interrupt {c : P.Config} (h : K.Holds c) {e : P.Interrupt} {s : σ}
    (he : P.interrupt e c.state = .ok s) : K.Holds { c with state := s } :=
  fun j => Program.wp_stable _ _ _ (h j) (K.interrupts j he)

theorem holds_step {c d : P.Config} {a : P.Action} (h : K.Holds c)
    (hs : Platform.step c a = some d) : K.Holds d := by
  obtain ⟨i, x, -, hi, rfl⟩ | ⟨i, f, k, -, hi, rfl⟩ | ⟨e, s, -, he, rfl⟩ := Platform.step_cases hs
  · exact K.holds_start h x hi
  · exact (K.holds_run h hi).2
  · exact K.holds_interrupt h he

theorem holds_boot {s : σ} (h : ∀ i t, (K.rely i).rel s t → K.idle i t) :
    K.Holds (Platform.boot s) := fun i t hst => h i t hst

theorem holds_reach {c d : P.Config} (h : K.Holds c) (hr : Platform.Reach c d) : K.Holds d :=
  Platform.Reach.induct h (fun _ _ _ _ hd hs => K.holds_step hd hs) d hr

theorem idle_of_blocked {c : P.Config} (h : K.Holds c) {i : P.Thread} (hi : c.blocked i) :
    K.idle i c.state := by
  have hs := h i
  rw [hi] at hs
  exact hs c.state ((K.rely i).refl _)

theorem fault_of_fail {c : P.Config} (h : K.Holds c) {i : P.Thread} {e : φ}
    (hi : c.thread i = .fail e) : K.fault i e c.state := by
  have hs := h i
  rw [hi] at hs
  exact hs c.state ((K.rely i).refl _)

theorem step_effect {c d : P.Config} {a : P.Action} (h : K.Holds c)
    (hs : Platform.step c a = some d) :
    d.state = c.state ∨ (∃ i, K.guar i c.state d.state) ∨
      ∃ e, P.interrupt e c.state = .ok d.state := by
  obtain ⟨i, x, -, -, rfl⟩ | ⟨i, f, k, -, hk, rfl⟩ | ⟨e, s, -, he, rfl⟩ := Platform.step_cases hs
  · exact .inl rfl
  · exact .inr (.inl ⟨i, (K.holds_run h hk).1⟩)
  · exact .inr (.inr ⟨e, he⟩)

-- A predicate kept by every guarantee and every interrupt holds of every state reached.
theorem invariant {J : σ → Prop} {c d : P.Config} (h : K.Holds c) (hJ : J c.state)
    (hg : ∀ i s t, J s → K.guar i s t → J t)
    (hi : ∀ e s t, J s → P.interrupt e s = .ok t → J t) (hr : Platform.Reach c d) :
    J d.state := by
  refine (Platform.Reach.induct (motive := fun d => K.Holds d ∧ J d.state) ⟨h, hJ⟩ ?_ d hr).2
  rintro d a e - ⟨hd, hJd⟩ hs
  refine ⟨K.holds_step hd hs, ?_⟩
  rcases K.step_effect hd hs with he | ⟨i, he⟩ | ⟨e, he⟩
  · exact he ▸ hJd
  · exact hg i _ _ hJd he
  · exact hi e _ _ hJd he

end Contract
end Concurrency
