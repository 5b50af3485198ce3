import FabricInspection.Concurrency.Interference
import FabricInspection.Concurrency.Trace

namespace Concurrency

-- One party as an automaton: its own steps, and what the others may do to the data it looks at.
structure Machine (π τ : Type) where
  start : π
  init : τ
  own : π → τ → π → τ → Prop
  env : τ → τ → Prop

namespace Machine
variable {π τ : Type} (M : Machine π τ)

inductive Reach : π → τ → Prop
  | init : Reach M.start M.init
  | own {p q : π} {x y : τ} (h : Reach p x) (hs : M.own p x q y) : Reach q y
  | env {p : π} {x y : τ} (h : Reach p x) (hs : M.env x y) : Reach p y

-- The induction for a run whose log obeys `ok`.
theorem Reach.every {M : Machine π τ} {ε : Type} {log : τ → List ε} {ok : List ε → ε → Prop}
    {I : π → τ → Prop} (hown : ∀ p x q y, M.own p x q y → log x <+: log y)
    (henv : ∀ x y, M.env x y → log x <+: log y) (h0 : I M.start M.init)
    (hI : ∀ p x q y, M.Reach p x → I p x → M.own p x q y → Trace.Every ok (log y) → I q y)
    (hJ : ∀ p x y, M.Reach p x → I p x → M.env x y → Trace.Every ok (log y) → I p y)
    {p : π} {x : τ} (h : M.Reach p x) (hx : Trace.Every ok (log x)) : I p x := by
  induction h with
  | init => exact h0
  | own hp hs ih => exact hI _ _ _ _ hp (ih (hx.of_prefix (hown _ _ _ _ hs))) hs hx
  | env hp hs ih => exact hJ _ _ _ hp (ih (hx.of_prefix (henv _ _ hs))) hs hx

-- An assertion about a state the automaton can be in, that the others cannot falsify.
structure Cond where
  holds : τ → Prop
  within : ∀ x, holds x → ∃ p, M.Reach p x
  stable : ∀ x y, holds x → M.env x y → holds y

variable {M}

def inPhase (M : Machine π τ) (p : π) : M.Cond :=
  ⟨M.Reach p, fun _ h => ⟨p, h⟩, fun _ _ h hs => h.env hs⟩

def Cond.and (C : M.Cond) (P : τ → Prop) (hP : ∀ x y, P x → M.env x y → P y) : M.Cond :=
  ⟨fun x => C.holds x ∧ P x, fun x h => C.within x h.1,
    fun x y h hs => ⟨C.stable x y h.1 hs, hP x y h.2 hs⟩⟩

variable {σ φ α β : Type}

def rely (M : Machine π τ) (v : σ → τ) : Rely σ := .comap v (.closure M.env)

theorem Cond.stable_rely (C : M.Cond) (v : σ → τ) : (M.rely v).Stable fun s => C.holds (v s) :=
  Rely.stable_comap v (Rely.stable_closure C.stable)

-- Every state the program brings about is one the automaton can be in.
def Follows (v : σ → τ) (E : φ → M.Cond) (C : M.Cond) (p : Program σ φ α) (D : α → M.Cond) :
    Prop :=
  ∀ s, C.holds (v s) →
    p.wp (M.rely v) (fun _ t => ∃ q, M.Reach q (v t)) (fun e t => (E e).holds (v t))
      (fun a t => (D a).holds (v t)) s

namespace Follows
variable {v : σ → τ} {E : φ → M.Cond} {C : M.Cond}

theorem pre {C' : M.Cond} {p : Program σ φ α} {D : α → M.Cond} (h : M.Follows v E C p D)
    (hC : ∀ x, C'.holds x → C.holds x) : M.Follows v E C' p D :=
  fun s hs => h s (hC _ hs)

theorem ret {a : α} {D : α → M.Cond} (h : ∀ x, C.holds x → (D a).holds x) :
    M.Follows v E C (.ret a : Program σ φ α) D :=
  fun _ hs => Program.wp_ret ((D a).stable_rely v) (h _ hs)

theorem bind {p : Program σ φ α} {q : α → Program σ φ β} {B : α → M.Cond} {D : β → M.Cond}
    (hp : M.Follows v E C p B) (hq : ∀ a, M.Follows v E (B a) (q a) D) :
    M.Follows v E C (p >>= q) D :=
  fun s hs => Program.wp_bind (Program.wp_post (fun a t => hq a t) (hp s hs))

theorem seq {p : Program σ φ Unit} {q : Unit → Program σ φ β} {B : M.Cond} {D : β → M.Cond}
    (hp : M.Follows v E C p fun _ => B) (hq : M.Follows v E B (q ()) D) :
    M.Follows v E C (p >>= q) D :=
  bind hp fun _ => hq

theorem act {f : σ → σ} {g : σ → α} {D : α → M.Cond}
    (h : ∀ s, C.holds (v s) → (D (g s)).holds (v (f s))) :
    M.Follows v E C (.act f fun s => .ret (g s) : Program σ φ α) D := by
  intro s hs
  refine Program.wp_act (C.stable_rely v) hs fun t ht => ⟨(D (g t)).within _ (h t ht), ?_⟩
  exact Program.wp_ret ((D (g t)).stable_rely v) (h t ht)

theorem read {g : σ → α} {D : α → M.Cond} (h : ∀ s, C.holds (v s) → (D (g s)).holds (v s)) :
    M.Follows v E C (Program.read g : Program σ φ α) D :=
  act h

theorem write {f : σ → σ} {D : M.Cond} (h : ∀ s, C.holds (v s) → D.holds (v (f s))) :
    M.Follows v E C (Program.write f : Program σ φ Unit) fun _ => D :=
  act h

theorem fail {e : φ} {D : α → M.Cond} (h : ∀ x, C.holds x → (E e).holds x) :
    M.Follows v E C (.fail e : Program σ φ α) D :=
  fun s hs => fun t hst => (E e).stable_rely v s t (h _ hs) hst

theorem lift {x : Except φ α} {D : α → M.Cond}
    (hok : ∀ a, x = .ok a → ∀ y, C.holds y → (D a).holds y)
    (herr : ∀ e, x = .error e → ∀ y, C.holds y → (E e).holds y) :
    M.Follows v E C (Program.lift x) D := by
  cases x with
  | ok a => exact ret (hok a rfl)
  | error e => exact fail (herr e rfl)

theorem when {b : Bool} {p : Program σ φ Unit} {D : M.Cond}
    (ht : b = true → M.Follows v E C p fun _ => D)
    (hf : b = false → ∀ x, C.holds x → D.holds x) :
    M.Follows v E C (Program.when b p) fun _ => D := by
  cases b with
  | true => exact ht rfl
  | false => exact ret (hf rfl)

end Follows
end Machine
end Concurrency
