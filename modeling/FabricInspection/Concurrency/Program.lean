import Mathlib.Logic.Relation
import Mathlib.Tactic.Common

namespace Concurrency

inductive Program (σ φ α : Type) : Type where
  | ret (a : α)
  | fail (e : φ)
  | act (f : σ → σ) (k : σ → Program σ φ α)

namespace Program
variable {σ φ α β γ : Type}

def bind : Program σ φ α → (α → Program σ φ β) → Program σ φ β
  | .ret a, q => q a
  | .fail e, _ => .fail e
  | .act f k, q => .act f (fun s => (k s).bind q)

instance : Monad (Program σ φ) where
  pure := .ret
  bind := bind

@[simp] theorem pure_eq (a : α) : (pure a : Program σ φ α) = .ret a := rfl
@[simp] theorem ret_bind (a : α) (q : α → Program σ φ β) : (Program.ret a >>= q) = q a := rfl
@[simp] theorem fail_bind (e : φ) (q : α → Program σ φ β) :
    (Program.fail e >>= q) = Program.fail e := rfl
@[simp] theorem act_bind (f : σ → σ) (k : σ → Program σ φ α) (q : α → Program σ φ β) :
    (Program.act f k >>= q) = .act f (fun s => k s >>= q) := rfl

theorem bind_ret (p : Program σ φ α) : p >>= Program.ret = p := by
  induction p with
  | ret a => rfl
  | fail e => rfl
  | act f k ih => simp only [act_bind, ih]

theorem bind_assoc (p : Program σ φ α) (q : α → Program σ φ β) (r : β → Program σ φ γ) :
    (p >>= q) >>= r = p >>= fun a => q a >>= r := by
  induction p with
  | ret a => rfl
  | fail e => rfl
  | act f k ih => simp only [act_bind, ih]

instance : LawfulMonad (Program σ φ) :=
  LawfulMonad.mk' (Program σ φ) (fun p => bind_ret p) (fun _ _ => rfl) bind_assoc

def read (g : σ → α) : Program σ φ α := .act id (fun s => .ret (g s))

def write (f : σ → σ) : Program σ φ Unit := .act f (fun _ => .ret ())

def lift : Except φ α → Program σ φ α
  | .ok a => .ret a
  | .error e => .fail e

def when (b : Bool) (p : Program σ φ Unit) : Program σ φ Unit := if b then p else .ret ()

def run : Program σ φ α → σ → Except φ (α × σ)
  | .ret a, s => .ok (a, s)
  | .fail e, _ => .error e
  | .act f k, s => (k s).run (f s)

theorem run_bind (p : Program σ φ α) (q : α → Program σ φ β) (s : σ) :
    (p >>= q).run s = p.run s >>= fun r => (q r.1).run r.2 := by
  induction p generalizing s with
  | ret a => rfl
  | fail e => rfl
  | act f k ih => exact ih s (f s)

theorem run_bind_ok {p : Program σ φ α} {s t : σ} {a : α} (h : p.run s = .ok (a, t))
    (q : α → Program σ φ β) : (p >>= q).run s = (q a).run t := by
  rw [run_bind, h]
  rfl

end Program
end Concurrency
