import FabricInspection.Concurrency.Interference

namespace Concurrency
namespace Program
variable {σ τ φ α β : Type}

-- A specification over the part of the state that no other party changes.
def Triple (v : σ → τ) (G : τ → τ → Prop) (A : τ → Prop) (p : Program σ φ α)
    (B : α → τ → Prop) : Prop :=
  ∀ s, A (v s) →
    wp (Rely.ofView v) (fun s t => G (v s) (v t)) (fun _ _ => False) p (fun a t => B a (v t)) s

namespace Triple
variable {v : σ → τ} {G : τ → τ → Prop} {A A' : τ → Prop}

theorem conseq {p : Program σ φ α} {B B' : α → τ → Prop} (h : Triple v G A p B)
    (hA : ∀ x, A' x → A x) (hB : ∀ a x, B a x → B' a x) : Triple v G A' p B' :=
  fun s hs => wp_post (fun a t => hB a (v t)) (h s (hA _ hs))

theorem post {p : Program σ φ α} {B B' : α → τ → Prop} (h : Triple v G A p B)
    (hB : ∀ a x, B a x → B' a x) : Triple v G A p B' :=
  h.conseq (fun _ hx => hx) hB

theorem ret {a : α} {B : α → τ → Prop} (h : ∀ x, A x → B a x) :
    Triple v G A (.ret a : Program σ φ α) B :=
  fun s hs => wp_ret (Rely.stable_ofView v (B a)) (h (v s) hs)

theorem bind {p : Program σ φ α} {q : α → Program σ φ β} {M : α → τ → Prop} {B : β → τ → Prop}
    (hp : Triple v G A p M) (hq : ∀ a, Triple v G (M a) (q a) B) : Triple v G A (p >>= q) B :=
  fun s hs => wp_bind (wp_post (fun a t => hq a t) (hp s hs))

theorem seq {p : Program σ φ Unit} {q : Unit → Program σ φ β} {M : τ → Prop} {B : β → τ → Prop}
    (hp : Triple v G A p fun _ => M) (hq : Triple v G M (q ()) B) : Triple v G A (p >>= q) B :=
  bind hp fun _ => hq

theorem write {f : σ → σ} {k : τ → τ} {B : τ → Prop} (hf : ∀ s, v (f s) = k (v s))
    (h : ∀ x, A x → G x (k x) ∧ B (k x)) :
    Triple v G A (write f : Program σ φ Unit) fun _ => B := by
  intro s hs
  refine wp_write (Rely.stable_ofView v A) (Rely.stable_ofView v B) hs ?_
  intro t ht
  rw [hf t]
  exact h (v t) ht

theorem read {g : σ → α} {k : τ → α} (hg : ∀ s, g s = k (v s)) (hG : ∀ x, G x x) :
    Triple v G A (read g : Program σ φ α) fun a x => A x ∧ a = k x := by
  intro s hs
  refine wp_act (Rely.stable_ofView v A) hs ?_
  intro t ht
  refine ⟨hG (v t), wp_ret (Rely.stable_ofView v fun x => A x ∧ g t = k x) ?_⟩
  exact ⟨ht, hg t⟩

theorem bind_read {g : σ → α} {k : τ → α} {q : α → Program σ φ β} {B : β → τ → Prop}
    (hg : ∀ s, g s = k (v s)) (hG : ∀ x, G x x)
    (hq : ∀ a, Triple v G (fun x => A x ∧ a = k x) (q a) B) :
    Triple v G A (Program.read g >>= q) B :=
  bind (read hg hG) hq

-- A read whose result the specification does not depend on.
theorem bind_any {g : σ → α} {q : α → Program σ φ β} {B : β → τ → Prop} (hG : ∀ x, G x x)
    (hq : ∀ a, Triple v G A (q a) B) : Triple v G A (Program.read g >>= q) B := by
  intro s hs
  refine wp_act (Rely.stable_ofView v A) hs ?_
  intro t ht
  exact ⟨hG (v t), hq (g t) t ht⟩

theorem when {b : Bool} {p : Program σ φ Unit} {B : τ → Prop}
    (ht : b = true → Triple v G A p fun _ => B) (hf : ∀ x, b = false → A x → B x) :
    Triple v G A (when b p) fun _ => B := by
  cases b with
  | true => exact ht rfl
  | false => exact ret fun x hx => hf x rfl hx

theorem cases {p : Program σ φ α} {B : α → τ → Prop} (h : Triple v G A p B)
    (h' : Triple v G A' p B) : Triple v G (fun x => A x ∨ A' x) p B :=
  fun s hs => hs.elim (h s) (h' s)

theorem and_pure {P : Prop} {p : Program σ φ α} {B : α → τ → Prop}
    (h : P → Triple v G A p B) : Triple v G (fun x => A x ∧ P) p B :=
  fun s hs => h hs.2 s hs.1

end Triple

-- Every step of the program, whatever the state it meets, is one of `r`.
def Keeps (r : σ → σ → Prop) : Program σ φ α → Prop
  | .ret _ => True
  | .fail _ => True
  | .act f k => ∀ s, r s (f s) ∧ Keeps r (k s)

variable {r : σ → σ → Prop}

theorem keeps_write {f : σ → σ} (h : ∀ s, r s (f s)) : Keeps r (write f : Program σ φ Unit) :=
  fun s => ⟨h s, trivial⟩

theorem keeps_read {g : σ → α} (h : ∀ s, r s s) : Keeps r (read g : Program σ φ α) :=
  fun s => ⟨h s, trivial⟩

theorem keeps_bind {p : Program σ φ α} {q : α → Program σ φ β} (hp : Keeps r p)
    (hq : ∀ a, Keeps r (q a)) : Keeps r (p >>= q) := by
  induction p with
  | ret a => exact hq a
  | fail e => trivial
  | act f k ih => exact fun s => ⟨(hp s).1, ih s (hp s).2⟩

theorem keeps_seq {p : Program σ φ Unit} {q : Program σ φ β} (hp : Keeps r p)
    (hq : Keeps r q) : Keeps r (p >>= fun _ => q) :=
  keeps_bind hp fun _ => hq

theorem keeps_when {b : Bool} {p : Program σ φ Unit} (h : b = true → Keeps r p) :
    Keeps r (when b p) := by
  cases b with
  | true => exact h rfl
  | false => trivial

theorem keeps_lift (x : Except φ α) : Keeps r (lift x : Program σ φ α) := by
  cases x with
  | ok a => trivial
  | error e => trivial

theorem Keeps.and {r' : σ → σ → Prop} {p : Program σ φ α} (h : Keeps r p) (h' : Keeps r' p) :
    Keeps (fun s t => r s t ∧ r' s t) p := by
  induction p with
  | ret a => trivial
  | fail e => trivial
  | act f k ih => exact fun s => ⟨⟨(h s).1, (h' s).1⟩, ih s (h s).2 (h' s).2⟩

theorem keeps_mono {r' : σ → σ → Prop} {p : Program σ φ α} (hr : ∀ s t, r s t → r' s t)
    (h : Keeps r p) : Keeps r' p := by
  induction p with
  | ret a => trivial
  | fail e => trivial
  | act f k ih => exact fun s => ⟨hr s (f s) (h s).1, ih s (h s).2⟩

theorem wp_keeps {R : Rely σ} {G : σ → σ → Prop} {E : φ → σ → Prop} {p : Program σ φ α}
    {Q : α → σ → Prop} {s : σ} (h : Keeps r p) (hp : wp R G E p Q s) :
    wp R (fun s t => G s t ∧ r s t) E p Q s := by
  induction p generalizing s with
  | ret a => exact hp
  | fail e => exact hp
  | act f k ih =>
    intro t hst
    obtain ⟨hg, hk⟩ := hp t hst
    exact ⟨⟨hg, (h t).1⟩, ih t (h t).2 hk⟩

theorem wp_of_keeps {R : Rely σ} {G : σ → σ → Prop} {A : σ → Prop} {p : Program σ φ α} {s : σ}
    (hA : R.Stable A) (hr : ∀ s t, A s → r s t → G s t ∧ A t) (h : Keeps r p) (hs : A s) :
    wp R G (fun _ _ => True) p (fun _ => A) s := by
  induction p generalizing s with
  | ret a => exact fun t hst => hA s t hs hst
  | fail e => exact fun _ _ => trivial
  | act f k ih =>
    intro t hst
    obtain ⟨hg, ht⟩ := hr t (f t) (hA s t hs hst) (h t).1
    exact ⟨hg, ih t (h t).2 ht⟩

end Program
end Concurrency
