import FabricInspection.Concurrency.Interference
import Mathlib.Logic.Function.Basic
import Mathlib.Data.List.Induction

namespace Concurrency

structure Platform (σ φ : Type) where
  Thread : Type
  threadEq : DecidableEq Thread
  Input : Thread → Type
  Interrupt : Type
  entry : (i : Thread) → Input i → Program σ φ Unit
  interrupt : Interrupt → σ → Except φ σ

namespace Platform
variable {σ φ : Type} (P : Platform σ φ)

instance : DecidableEq P.Thread := P.threadEq

-- A thread with nothing left to run is blocked at the head of its loop.
structure Config where
  state : σ
  thread : P.Thread → Program σ φ Unit

inductive Action where
  | start (i : P.Thread) (x : P.Input i)
  | run (i : P.Thread)
  | interrupt (e : P.Interrupt)

variable {P}

def boot (s : σ) : P.Config := ⟨s, fun _ => .ret ()⟩

def Config.blocked (c : P.Config) (i : P.Thread) : Prop := c.thread i = .ret ()

def Config.enter (c : P.Config) (i : P.Thread) (p : Program σ φ Unit) : P.Config :=
  { c with thread := Function.update c.thread i p }

@[simp] theorem enter_state (c : P.Config) (i : P.Thread) (p : Program σ φ Unit) :
    (c.enter i p).state = c.state := rfl

@[simp] theorem enter_self (c : P.Config) (i : P.Thread) (p : Program σ φ Unit) :
    (c.enter i p).thread i = p := Function.update_self ..

theorem enter_other (c : P.Config) {i j : P.Thread} (h : j ≠ i) (p : Program σ φ Unit) :
    (c.enter i p).thread j = c.thread j := Function.update_of_ne h ..

@[simp] theorem enter_enter (c : P.Config) (i : P.Thread) (p q : Program σ φ Unit) :
    (c.enter i p).enter i q = c.enter i q := by simp [Config.enter]

theorem enter_same (c : P.Config) {i : P.Thread} {p : Program σ φ Unit} (h : c.thread i = p) :
    c.enter i p = c := by simp [Config.enter, ← h]

def step (c : P.Config) : P.Action → Option P.Config
  | .start i x =>
    match c.thread i with
    | .ret () => some (c.enter i (P.entry i x))
    | _ => none
  | .run i =>
    match c.thread i with
    | .act f k => some { c.enter i (k c.state) with state := f c.state }
    | _ => none
  | .interrupt e =>
    match P.interrupt e c.state with
    | .ok s => some { c with state := s }
    | .error _ => none

def exec (c : P.Config) (as : List P.Action) : Option P.Config := as.foldlM step c

def Reach (c d : P.Config) : Prop := ∃ as, exec c as = some d

theorem exec_nil (c : P.Config) : exec c [] = some c := rfl

theorem exec_cons (c : P.Config) (a : P.Action) (as : List P.Action) :
    exec c (a :: as) = (step c a).bind fun d => exec d as := rfl

theorem exec_append (c : P.Config) (as bs : List P.Action) :
    exec c (as ++ bs) = (exec c as).bind fun d => exec d bs := by
  simp only [exec, List.foldlM_append, Option.bind_eq_bind]

theorem Reach.refl (c : P.Config) : Reach c c := ⟨[], rfl⟩

theorem Reach.trans {c d e : P.Config} (h : Reach c d) (g : Reach d e) : Reach c e := by
  obtain ⟨as, ha⟩ := h
  obtain ⟨bs, hb⟩ := g
  exact ⟨as ++ bs, by rw [exec_append, ha]; exact hb⟩

theorem Reach.of_step {c d : P.Config} {a : P.Action} (h : step c a = some d) : Reach c d :=
  ⟨[a], by rw [exec_cons, h]; rfl⟩

theorem Reach.tail {c d e : P.Config} {a : P.Action} (h : Reach c d) (g : step d a = some e) :
    Reach c e := h.trans (.of_step g)

-- Every run is built by adding one action at its end.
theorem Reach.induct {motive : P.Config → Prop} {c : P.Config} (base : motive c)
    (next : ∀ d a e, Reach c d → motive d → step d a = some e → motive e) :
    ∀ d, Reach c d → motive d := by
  rintro d ⟨as, h⟩
  induction as using List.reverseRecOn generalizing d with
  | nil => exact Option.some.inj h ▸ base
  | append_singleton as a ih =>
    rw [exec_append, Option.bind_eq_some_iff] at h
    obtain ⟨e, he, hd⟩ := h
    have hs : step e a = some d := by
      simpa only [exec_cons, exec_nil, Option.bind_fun_some] using hd
    exact next e a d ⟨as, he⟩ (ih e he) hs

theorem step_start {c : P.Config} {i : P.Thread} (x : P.Input i) (h : c.blocked i) :
    step c (.start i x) = some (c.enter i (P.entry i x)) := by
  rw [Config.blocked] at h
  simp only [step, h]

theorem step_run {c : P.Config} {i : P.Thread} {f : σ → σ} {k : σ → Program σ φ Unit}
    (h : c.thread i = .act f k) :
    step c (.run i) = some { c.enter i (k c.state) with state := f c.state } := by
  simp only [step, h]

theorem step_cases {c d : P.Config} {a : P.Action} (h : step c a = some d) :
    (∃ i x, a = .start i x ∧ c.blocked i ∧ d = c.enter i (P.entry i x)) ∨
    (∃ i f k, a = .run i ∧ c.thread i = .act f k ∧
      d = { c.enter i (k c.state) with state := f c.state }) ∨
    (∃ e s, a = .interrupt e ∧ P.interrupt e c.state = .ok s ∧ d = { c with state := s }) := by
  cases a with
  | start i x =>
    simp only [step] at h
    split at h
    · exact .inl ⟨i, x, rfl, ‹_›, (Option.some.inj h).symm⟩
    · cases h
  | run i =>
    simp only [step] at h
    split at h
    · exact .inr (.inl ⟨i, _, _, rfl, ‹_›, (Option.some.inj h).symm⟩)
    · cases h
  | interrupt e =>
    simp only [step] at h
    split at h
    · exact .inr (.inr ⟨e, _, rfl, ‹_›, (Option.some.inj h).symm⟩)
    · cases h

-- A thread that nobody disturbs runs the first part of its program.
theorem exec_run_bind {α : Type} {c : P.Config} {i : P.Thread} {p : Program σ φ α}
    {q : α → Program σ φ Unit} {a : α} {s : σ} (hp : c.thread i = p >>= q)
    (h : p.run c.state = .ok (a, s)) :
    ∃ n, exec c (List.replicate n (.run i)) = some { c.enter i (q a) with state := s } := by
  induction p generalizing c with
  | ret b =>
    simp only [Program.run, Except.ok.injEq, Prod.mk.injEq] at h
    obtain ⟨rfl, rfl⟩ := h
    have hb : c.thread i = q b := hp
    rw [enter_same c hb]
    exact ⟨0, rfl⟩
  | fail e => simp [Program.run] at h
  | act f k ih =>
    have hs := step_run (hp.trans (Program.act_bind f k q))
    obtain ⟨n, hn⟩ := ih c.state (c := { c.enter i (k c.state >>= q) with state := f c.state })
      (by exact enter_self ..) h
    refine ⟨n + 1, ?_⟩
    rw [List.replicate_succ, exec_cons, hs, Option.bind_some]
    simpa only [Config.enter, Function.update_idem, Function.update_self] using hn

theorem exec_entry_bind {α : Type} {c : P.Config} {i : P.Thread} {x : P.Input i}
    {p : Program σ φ α} {q : α → Program σ φ Unit} {a : α} {s : σ} (hi : c.blocked i)
    (hx : P.entry i x = p >>= q) (h : p.run c.state = .ok (a, s)) :
    ∃ n, exec c (.start i x :: List.replicate n (.run i)) =
      some { c.enter i (q a) with state := s } := by
  obtain ⟨n, hn⟩ := exec_run_bind (c := c.enter i (P.entry i x)) ((enter_self ..).trans hx) h
  rw [enter_enter] at hn
  exact ⟨n, by rw [exec_cons, step_start x hi]; exact hn⟩

theorem exec_entry {c : P.Config} {i : P.Thread} {x : P.Input i} {s : σ}
    (hi : c.blocked i) (h : (P.entry i x).run c.state = .ok ((), s)) :
    ∃ n, exec c (.start i x :: List.replicate n (.run i)) = some { c with state := s } := by
  obtain ⟨n, hn⟩ := exec_entry_bind (q := .ret) hi (Program.bind_ret _).symm h
  rw [enter_same c hi] at hn
  exact ⟨n, hn⟩

theorem Reach.of_run_bind {α : Type} {c : P.Config} {i : P.Thread} {p : Program σ φ α}
    {q : α → Program σ φ Unit} {a : α} {s : σ} (hp : c.thread i = p >>= q)
    (h : p.run c.state = .ok (a, s)) : Reach c { c.enter i (q a) with state := s } := by
  obtain ⟨n, hn⟩ := exec_run_bind hp h
  exact ⟨_, hn⟩

-- Or all of it.
theorem Reach.of_run {c : P.Config} {i : P.Thread} {p : Program σ φ Unit} {s : σ}
    (hp : c.thread i = p) (h : p.run c.state = .ok ((), s)) :
    Reach c { c.enter i (.ret ()) with state := s } :=
  of_run_bind (hp.trans (Program.bind_ret p).symm) h

theorem Reach.of_enter {α : Type} {c : P.Config} {i : P.Thread} {p : Program σ φ α}
    {q : α → Program σ φ Unit} {a : α} {s : σ} (h : p.run c.state = .ok (a, s)) :
    Reach (c.enter i (p >>= q)) { c.enter i (q a) with state := s } := by
  have hr := Reach.of_run_bind (c := c.enter i (p >>= q)) (enter_self ..) h
  rwa [enter_enter] at hr

-- Or up to the point where it faults.
theorem Reach.of_fault {c : P.Config} {i : P.Thread} {p : Program σ φ Unit} {e : φ}
    (hp : c.thread i = p) (h : p.run c.state = .error e) :
    ∃ d, Reach c d ∧ d.thread i = .fail e := by
  induction p generalizing c with
  | ret a => simp [Program.run] at h
  | fail f =>
    simp only [Program.run, Except.error.injEq] at h
    exact ⟨c, .refl c, h ▸ hp⟩
  | act f k ih =>
    have hs := step_run hp
    obtain ⟨d, hd, hf⟩ := ih c.state (c := { c.enter i (k c.state) with state := f c.state })
      (by exact enter_self ..) h
    exact ⟨d, (Reach.of_step hs).trans hd, hf⟩

theorem Reach.of_entry {c : P.Config} {i : P.Thread} {x : P.Input i} {s : σ}
    (hi : c.blocked i) (h : (P.entry i x).run c.state = .ok ((), s)) :
    Reach c { c with state := s } := by
  obtain ⟨n, hn⟩ := exec_entry hi h
  exact ⟨_, hn⟩

theorem Reach.of_entry_fault {c : P.Config} {i : P.Thread} {x : P.Input i} {e : φ}
    (hi : c.blocked i) (h : (P.entry i x).run c.state = .error e) :
    ∃ d, Reach c d ∧ d.thread i = .fail e := by
  obtain ⟨d, hd, hf⟩ := Reach.of_fault (c := c.enter i (P.entry i x)) (enter_self ..) h
  exact ⟨d, (Reach.of_step (step_start x hi)).trans hd, hf⟩

end Platform
end Concurrency
