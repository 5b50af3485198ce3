import Mathlib.Tactic.Common

namespace Fallible
variable {α β ε : Type}

-- A loop over an index succeeds when each pass does and keeps the invariant.
theorem foldlM_range {f : β → Nat → Except ε β} {I : Nat → β → Prop} {n : Nat} {b : β}
    (h0 : I 0 b) (hf : ∀ i < n, ∀ b, I i b → ∃ b', f b i = .ok b' ∧ I (i + 1) b') :
    ∃ b', (List.range n).foldlM f b = .ok b' ∧ I n b' := by
  induction n with
  | zero => exact ⟨b, rfl, h0⟩
  | succ n ih =>
    obtain ⟨c, hc, hI⟩ := ih fun i hi => hf i (Nat.lt_succ_of_lt hi)
    obtain ⟨d, hd, hJ⟩ := hf n n.lt_succ_self c hI
    refine ⟨d, ?_, hJ⟩
    rw [List.range_succ, List.foldlM_append, hc]
    simp [bind, Except.bind, pure, Except.pure, hd]

-- A loop that succeeds has done what it does when no pass can fail.
theorem foldlM_eq {f : β → α → Except ε β} {g : β → α → β}
    (h : ∀ b x c, f b x = .ok c → c = g b x) {l : List α} {b c : β}
    (hf : l.foldlM f b = .ok c) : c = l.foldl g b := by
  induction l generalizing b with
  | nil => exact (Except.ok.inj hf).symm
  | cons x l ih =>
    rw [List.foldlM_cons] at hf
    cases hx : f b x with
    | error e => simp [hx, bind, Except.bind] at hf
    | ok d =>
      rw [hx] at hf
      rw [List.foldl_cons, ← h b x d hx]
      exact ih hf

theorem mapM_eq {f : α → Except ε β} {g : α → β} {l : List α} (h : ∀ x ∈ l, f x = .ok (g x)) :
    l.mapM f = .ok (l.map g) := by
  induction l with
  | nil => rfl
  | cons x l ih =>
    rw [List.mapM_cons, h x List.mem_cons_self, ih fun y hy => h y (List.mem_cons_of_mem x hy)]
    rfl

theorem mapM_eq_map {f : α → Except ε β} {g : α → β} (h : ∀ x y, f x = .ok y → y = g x)
    {l : List α} {ys : List β} (hf : l.mapM f = .ok ys) : ys = l.map g := by
  induction l generalizing ys with
  | nil => exact (Except.ok.inj hf).symm
  | cons x l ih =>
    rw [List.mapM_cons] at hf
    cases hx : f x with
    | error e => simp [hx, bind, Except.bind] at hf
    | ok y =>
      cases hl : l.mapM f with
      | error e => simp [hx, hl, bind, Except.bind] at hf
      | ok zs =>
        simp only [hx, hl, bind, Except.bind, pure, Except.pure, Except.ok.injEq] at hf
        rw [← hf, h x y hx, ih hl, List.map_cons]

theorem mapM_pass {f : α → Except ε β} {l : List α} {ys : List β} (h : l.mapM f = .ok ys) {x : α}
    (hx : x ∈ l) : ∃ y, f x = .ok y := by
  induction l generalizing ys with
  | nil => cases hx
  | cons a l ih =>
    rw [List.mapM_cons] at h
    cases ha : f a with
    | error e => simp [ha, bind, Except.bind] at h
    | ok y =>
      cases hl : l.mapM f with
      | error e => simp [ha, hl, bind, Except.bind] at h
      | ok zs =>
        rcases List.mem_cons.mp hx with rfl | hx
        · exact ⟨y, ha⟩
        · exact ih hl hx

theorem mapM_ok {f : α → Except ε β} {l : List α} (h : ∀ x ∈ l, ∃ y, f x = .ok y) :
    ∃ ys, l.mapM f = .ok ys := by
  induction l with
  | nil => exact ⟨[], rfl⟩
  | cons x l ih =>
    obtain ⟨y, hy⟩ := h x List.mem_cons_self
    obtain ⟨ys, hys⟩ := ih fun z hz => h z (List.mem_cons_of_mem x hz)
    exact ⟨y :: ys, by rw [List.mapM_cons, hy, hys]; rfl⟩

end Fallible
