import FabricInspection.Concurrency.Program

namespace Concurrency

structure Rely (σ : Type) where
  rel : σ → σ → Prop
  refl : ∀ s, rel s s
  trans : ∀ {s t u}, rel s t → rel t u → rel s u

namespace Rely
variable {σ τ : Type}

def any : Rely σ := ⟨fun _ _ => True, fun _ => trivial, fun _ _ => trivial⟩

def ofView (v : σ → τ) : Rely σ := ⟨fun s t => v t = v s, fun _ => rfl, fun h g => g.trans h⟩

def closure (r : σ → σ → Prop) : Rely σ :=
  ⟨Relation.ReflTransGen r, fun _ => .refl, fun h g => h.trans g⟩

def comap (v : σ → τ) (R : Rely τ) : Rely σ :=
  ⟨fun s t => R.rel (v s) (v t), fun s => R.refl (v s), fun h g => R.trans h g⟩

def Stable (R : Rely σ) (P : σ → Prop) : Prop := ∀ s t, P s → R.rel s t → P t

theorem stable_ofView (v : σ → τ) (P : τ → Prop) : (ofView v).Stable fun s => P (v s) :=
  fun s t hs hst => by
    have hv : v t = v s := hst
    simpa only [hv] using hs

theorem stable_closure {r : σ → σ → Prop} {P : σ → Prop} (h : ∀ s t, P s → r s t → P t) :
    (closure r).Stable P := by
  intro s t hs hst
  have hst' : Relation.ReflTransGen r s t := hst
  induction hst' with
  | refl => exact hs
  | tail _ hr ih => exact h _ _ (ih ‹_›) hr

theorem stable_comap (v : σ → τ) {R : Rely τ} {P : τ → Prop} (h : R.Stable P) :
    (comap v R).Stable fun s => P (v s) :=
  fun s t hs hst => h (v s) (v t) hs hst

end Rely

namespace Program
variable {σ φ α β : Type}

-- `R` is what the other parties may do between two steps, `G` what each step of the program
-- promises them, `E` the failures that are let through.
def wp (R : Rely σ) (G : σ → σ → Prop) (E : φ → σ → Prop) :
    Program σ φ α → (α → σ → Prop) → σ → Prop
  | .ret a, Q, s => ∀ t, R.rel s t → Q a t
  | .fail e, _, s => ∀ t, R.rel s t → E e t
  | .act f k, Q, s => ∀ t, R.rel s t → G t (f t) ∧ wp R G E (k t) Q (f t)

variable {R : Rely σ} {G G' : σ → σ → Prop} {E E' : φ → σ → Prop}

theorem wp_stable (p : Program σ φ α) {Q : α → σ → Prop} : R.Stable (wp R G E p Q) := by
  intro s t h hst
  cases p with
  | ret a => exact fun u htu => h u (R.trans hst htu)
  | fail e => exact fun u htu => h u (R.trans hst htu)
  | act f k => exact fun u htu => h u (R.trans hst htu)

theorem wp_mono {p : Program σ φ α} {Q Q' : α → σ → Prop} {s : σ}
    (hG : ∀ s t, G s t → G' s t) (hE : ∀ e s, E e s → E' e s) (hQ : ∀ a s, Q a s → Q' a s)
    (h : wp R G E p Q s) : wp R G' E' p Q' s := by
  induction p generalizing s with
  | ret a => exact fun t hst => hQ a t (h t hst)
  | fail e => exact fun t hst => hE e t (h t hst)
  | act f k ih => exact fun t hst => ⟨hG _ _ (h t hst).1, ih t (h t hst).2⟩

theorem wp_post {p : Program σ φ α} {Q Q' : α → σ → Prop} {s : σ}
    (hQ : ∀ a s, Q a s → Q' a s) (h : wp R G E p Q s) : wp R G E p Q' s :=
  wp_mono (fun _ _ => id) (fun _ _ => id) hQ h

theorem wp_bind {p : Program σ φ α} {q : α → Program σ φ β} {Q : β → σ → Prop} {s : σ}
    (h : wp R G E p (fun a t => wp R G E (q a) Q t) s) : wp R G E (p >>= q) Q s := by
  induction p generalizing s with
  | ret a => exact h s (R.refl s)
  | fail e => exact h
  | act f k ih => exact fun t hst => ⟨(h t hst).1, ih t (h t hst).2⟩

theorem wp_ret {a : α} {Q : α → σ → Prop} {s : σ} (hQ : R.Stable (Q a)) (h : Q a s) :
    wp R G E (.ret a : Program σ φ α) Q s :=
  fun t hst => hQ s t h hst

theorem wp_act {f : σ → σ} {k : σ → Program σ φ α} {P : σ → Prop} {Q : α → σ → Prop} {s : σ}
    (hP : R.Stable P) (hs : P s) (h : ∀ t, P t → G t (f t) ∧ wp R G E (k t) Q (f t)) :
    wp R G E (.act f k) Q s :=
  fun t hst => h t (hP s t hs hst)

theorem wp_write {f : σ → σ} {P : σ → Prop} {Q : Unit → σ → Prop} {s : σ}
    (hP : R.Stable P) (hQ : R.Stable (Q ())) (hs : P s)
    (h : ∀ t, P t → G t (f t) ∧ Q () (f t)) : wp R G E (write f : Program σ φ Unit) Q s :=
  wp_act hP hs fun t ht => ⟨(h t ht).1, wp_ret hQ (h t ht).2⟩

theorem wp_seq {p : Program σ φ Unit} {q : Unit → Program σ φ β} {P : σ → Prop}
    {Q : β → σ → Prop} {s : σ} (hp : wp R G E p (fun _ => P) s)
    (hq : ∀ t, P t → wp R G E (q ()) Q t) : wp R G E (p >>= q) Q s :=
  wp_bind (wp_post (fun _ t ht => hq t ht) hp)

end Program
end Concurrency
