import Mathlib.Tactic.Common
import Mathlib.Data.List.Induction

namespace Concurrency.Trace
variable {ε : Type}

theorem snoc_split {log pre post : List ε} {e x : ε} (h : log ++ [e] = pre ++ x :: post) :
    (post = [] ∧ log = pre ∧ e = x) ∨ ∃ rest, post = rest ++ [e] ∧ log = pre ++ x :: rest := by
  induction pre generalizing log with
  | nil =>
    cases log with
    | nil =>
      obtain ⟨hx, hp⟩ := List.cons.inj h
      exact .inl ⟨hp.symm, rfl, hx⟩
    | cons y log =>
      obtain ⟨rfl, hp⟩ := List.cons.inj h
      exact .inr ⟨log, hp.symm, rfl⟩
  | cons p pre ih =>
    cases log with
    | nil => simp at h
    | cons y log =>
      obtain ⟨rfl, ht⟩ := List.cons.inj h
      rcases ih ht with ⟨hp, rfl, he⟩ | ⟨rest, hp, rfl⟩
      · exact .inl ⟨hp, rfl, he⟩
      · exact .inr ⟨rest, hp, rfl⟩

-- Every event stands after a history that allows it.
def Every (ok : List ε → ε → Prop) (log : List ε) : Prop :=
  ∀ pre e post, log = pre ++ e :: post → ok pre e

variable {ok : List ε → ε → Prop}

theorem every_nil : Every ok [] := by
  intro pre e post h
  simp at h

theorem every_snoc {log : List ε} {e : ε} : Every ok (log ++ [e]) ↔ Every ok log ∧ ok log e := by
  constructor
  · intro h
    refine ⟨fun pre x post hx => h pre x (post ++ [e]) (by simp [hx]), h log e [] rfl⟩
  · rintro ⟨h, he⟩ pre x post hx
    rcases snoc_split hx with ⟨-, rfl, rfl⟩ | ⟨rest, -, rfl⟩
    · exact he
    · exact h pre x rest rfl

theorem Every.of_prefix {log more : List ε} (h : Every ok more) (hl : log <+: more) :
    Every ok log := by
  obtain ⟨rest, rfl⟩ := hl
  intro pre e post hp
  exact h pre e (post ++ rest) (by simp [hp])

theorem Every.mono {ok' : List ε → ε → Prop} {log : List ε} (h : Every ok log)
    (hok : ∀ pre e, ok pre e → ok' pre e) : Every ok' log :=
  fun pre e post hp => hok pre e (h pre e post hp)

theorem Every.and {ok' : List ε → ε → Prop} {log : List ε} (h : Every ok log)
    (h' : Every ok' log) : Every (fun pre e => ok pre e ∧ ok' pre e) log :=
  fun pre e post hp => ⟨h pre e post hp, h' pre e post hp⟩

theorem every_of_mem {P : ε → Prop} {log : List ε} (h : ∀ e ∈ log, P e) :
    Every (fun _ => P) log := by
  intro pre e post hp
  exact h e (by simp [hp])

-- Events that are allowed anywhere.
theorem Every.append {log es : List ε} (h : Every ok log) (hes : ∀ e ∈ es, ∀ pre, ok pre e) :
    Every ok (log ++ es) := by
  induction es using List.reverseRecOn with
  | nil => rwa [List.append_nil]
  | append_singleton es e ih =>
    rw [← List.append_assoc]
    exact every_snoc.mpr ⟨ih fun x hx => hes x (by simp [hx]), hes e (by simp) _⟩

end Concurrency.Trace
