import Mathlib.Tactic.Common
import Mathlib.Data.Fin.Basic
import Mathlib.Logic.Function.Basic

namespace Queues

-- A buffer with a put and a get index. It gives up its oldest entry rather than fill up.
structure Ring (α : Type) (n : Nat) where
  buffer : Fin n → α
  put : Fin n
  get : Fin n
  full : Bool

namespace Ring
variable {α : Type} {n : Nat}

def next (i : Fin n) : Fin n := if h : i + 1 < n then ⟨i + 1, h⟩ else ⟨0, i.pos⟩

def push (r : Ring α n) (x : α) : Ring α n :=
  let buffer := Function.update r.buffer r.put x
  let put := next r.put
  if put = r.get then ⟨buffer, put, next r.get, true⟩ else ⟨buffer, put, r.get, r.full⟩

def pushAll (r : Ring α n) (xs : List α) : Ring α n := xs.foldl push r

def pop (r : Ring α n) : Option (α × Ring α n) :=
  if r.get = r.put ∧ r.full = false then none
  else some (r.buffer r.get, { r with get := next r.get, full := false })

-- The distance between the two indices.
def span (r : Ring α n) : Nat :=
  if r.get ≤ r.put then r.put - r.get else n - (r.get - r.put)

-- The slot of the k-th entry from the get index.
def slot (r : Ring α n) (k : Nat) : Fin n := ⟨(r.get + k) % n, Nat.mod_lt _ r.get.pos⟩

structure Holds (r : Ring α n) (xs : List α) : Prop where
  notFull : r.full = false
  short : xs.length < n
  put : r.put = r.slot xs.length
  slots : ∀ k (h : k < xs.length), r.buffer (r.slot k) = xs[k]

theorem next_val (i : Fin n) : (next i : Nat) = (i + 1) % n := by
  unfold next
  split
  · exact (Nat.mod_eq_of_lt ‹_›).symm
  · have hi : (i : Nat) + 1 = n := by omega
    simp [hi]

theorem add_mod_wrap {a b : Nat} (ha : a < n) (hb : b < n) :
    (a + b) % n = if a + b < n then a + b else a + b - n := by
  split
  · exact Nat.mod_eq_of_lt ‹_›
  · rw [Nat.mod_eq_sub_mod (by omega), Nat.mod_eq_of_lt (by omega)]

theorem slot_zero (r : Ring α n) : r.slot 0 = r.get := by
  ext
  exact Nat.mod_eq_of_lt r.get.isLt

theorem next_slot (r : Ring α n) (k : Nat) : next (r.slot k) = r.slot (k + 1) := by
  ext
  rw [next_val]
  simp only [slot, Nat.mod_add_mod, Nat.add_assoc]

theorem slot_inj (r : Ring α n) {j k : Nat} (hj : j < n) (hk : k < n) :
    r.slot j = r.slot k ↔ j = k := by
  have hget := r.get.isLt
  simp only [slot, Fin.mk.injEq, add_mod_wrap hget hj, add_mod_wrap hget hk]
  constructor
  · intro h
    split at h <;> split at h <;> omega
  · rintro rfl
    rfl

theorem full_of_push {r : Ring α n} {x : α} (h : (r.push x).full = false) :
    r.full = false ∧ next r.put ≠ r.get := by
  by_cases hp : next r.put = r.get
  · simp [push, hp] at h
  · exact ⟨by simpa [push, hp] using h, hp⟩

theorem full_of_pushAll {r : Ring α n} {xs : List α} (h : (r.pushAll xs).full = false) :
    r.full = false := by
  induction xs generalizing r with
  | nil => exact h
  | cons x xs ih => exact (full_of_push (ih h)).1

namespace Holds
variable {r : Ring α n} {x : α} {xs ys : List α}

theorem empty {r : Ring α n} (hp : r.put = r.get) (hf : r.full = false) : r.Holds [] :=
  ⟨hf, r.get.pos, hp.trans (slot_zero r).symm, nofun⟩

-- An entry that does not make the buffer give one up is appended.
theorem push (h : r.Holds xs) (hf : (r.push x).full = false) : (r.push x).Holds (xs ++ [x]) := by
  have hne := (full_of_push hf).2
  rw [h.put, next_slot] at hne
  have hlen : xs.length + 1 < n := by
    refine lt_of_le_of_ne h.short fun he => hne ?_
    ext
    simp [slot, he, Nat.mod_eq_of_lt r.get.isLt]
  have hpush : r.push x = ⟨Function.update r.buffer r.put x, next r.put, r.get, r.full⟩ := by
    rw [Ring.push, h.put, next_slot, if_neg hne]
  refine ⟨hf, by simpa using hlen, ?_, ?_⟩
  · rw [hpush, h.put, next_slot, List.length_append]
    rfl
  · intro k hk
    rw [hpush]
    have hk' : k ≤ xs.length := by simpa [Nat.lt_succ_iff] using hk
    rcases hk'.lt_or_eq with hlt | rfl
    · have hslot : r.slot k ≠ r.put := by
        rw [h.put, Ne, slot_inj r (hlt.trans h.short) h.short]
        exact hlt.ne
      rw [List.getElem_append_left hlt]
      exact (Function.update_of_ne hslot x r.buffer).trans (h.slots k hlt)
    · rw [List.getElem_concat_length rfl]
      have hslot : r.slot xs.length = r.put := h.put.symm
      exact (congrArg _ hslot).trans (Function.update_self r.put x r.buffer)

theorem pushAll (h : r.Holds xs) (hf : (r.pushAll ys).full = false) :
    (r.pushAll ys).Holds (xs ++ ys) := by
  induction ys generalizing r xs with
  | nil => rwa [List.append_nil]
  | cons y ys ih =>
    have hy : (r.push y).full = false := full_of_pushAll hf
    have hrest := ih (h.push hy) hf
    rwa [List.append_assoc] at hrest

theorem pop_nil (h : r.Holds []) : r.pop = none :=
  if_pos ⟨(slot_zero r).symm.trans h.put.symm, h.notFull⟩

theorem pop_cons (h : r.Holds (x :: xs)) : ∃ r', r.pop = some (x, r') ∧ r'.Holds xs := by
  have hne : r.get ≠ r.put := by
    rw [h.put, ← slot_zero r, Ne, slot_inj r r.get.pos h.short]
    simp
  have hx : r.buffer r.get = x := by
    rw [← slot_zero r]
    exact h.slots 0 (by simp)
  have hslot (k : Nat) : Ring.slot { r with get := next r.get, full := false } k = r.slot (k + 1) := by
    ext
    simp only [slot, next_val, Nat.mod_add_mod, Nat.add_assoc, Nat.add_comm 1 k]
  refine ⟨_, by rw [pop, if_neg fun hp => hne hp.1, hx], rfl, ?_, ?_, ?_⟩
  · exact Nat.lt_of_succ_lt h.short
  · rw [hslot]
    exact h.put
  · intro k hk
    rw [hslot]
    exact h.slots (k + 1) (by simpa using hk)

theorem pop_eq_none (h : r.Holds xs) : r.pop = none ↔ xs = [] := by
  cases xs with
  | nil => simp [h.pop_nil]
  | cons x xs =>
    obtain ⟨r', hr, -⟩ := h.pop_cons
    simp [hr]

theorem span_eq (h : r.Holds xs) : r.span = xs.length := by
  have hput : (r.put : Nat) = (r.get + xs.length) % n := congrArg Fin.val h.put
  rw [add_mod_wrap r.get.isLt h.short] at hput
  have := r.get.isLt
  have := h.short
  unfold span
  simp only [Fin.le_def]
  split at hput <;> split <;> omega

end Holds

-- The newest of the entries, as many as the buffer has room for.
def newest (n : Nat) (xs : List α) : List α := xs.drop (xs.length - (n - 1))

theorem newest_short {xs : List α} (h : xs.length < n) : newest n xs = xs := by
  rw [newest, Nat.sub_eq_zero_of_le (Nat.le_sub_one_of_lt h), List.drop_zero]

theorem newest_suffix (n : Nat) (xs : List α) : newest n xs <:+ xs := List.drop_suffix _ xs

theorem newest_behind {front t : List α} (h : n - 1 ≤ t.length) :
    newest n (front ++ t) = newest n t := by
  rw [newest, List.length_append, Nat.add_sub_assoc h, List.drop_length_add_append, newest]

theorem newest_append (n : Nat) (xs ys : List α) :
    newest n (newest n xs ++ ys) = newest n (xs ++ ys) := by
  rcases Nat.lt_or_ge xs.length n with h | h
  · rw [newest_short h]
  · obtain ⟨front, hfront⟩ := newest_suffix n xs
    have hlen : (newest n xs).length = n - 1 := by
      rw [newest, List.length_drop]
      omega
    have hroom : n - 1 ≤ (newest n xs ++ ys).length := by
      rw [List.length_append, hlen]
      exact Nat.le_add_right _ _
    calc newest n (newest n xs ++ ys)
        = newest n (front ++ (newest n xs ++ ys)) := (newest_behind hroom).symm
      _ = newest n (xs ++ ys) := by rw [← List.append_assoc, hfront]

def clear (r : Ring α n) : Ring α n := { r with full := false }

-- The unread entries of a buffer that may have given some up.
structure Unread (r : Ring α n) (xs : List α) : Prop where
  holds : r.clear.Holds xs
  flag : r.full = true → xs ≠ []

namespace Unread
variable {r : Ring α n} {x : α} {xs ys : List α}

theorem empty {r : Ring α n} (hp : r.put = r.get) (hf : r.full = false) : r.Unread [] :=
  ⟨.empty hp rfl, fun h => by simp [hf] at h⟩

-- The oldest entry goes when the new one takes the last slot.
theorem push_full (h : r.Unread xs) (hn : 1 < n) (hlen : xs.length + 1 = n) :
    (r.push x).Unread ((xs ++ [x]).drop 1) := by
  obtain ⟨hholds, -⟩ := h
  have hput : r.put = r.slot xs.length := hholds.put
  have hnext : next r.put = r.get := by
    rw [hput, next_slot, hlen]
    ext
    simp [slot, Nat.mod_eq_of_lt r.get.isLt]
  have hpush : (r.push x).clear =
      ⟨Function.update r.buffer r.put x, next r.put, next r.get, false⟩ := by
    rw [Ring.push, if_pos hnext]
    rfl
  have hslot (k : Nat) :
      slot ⟨Function.update r.buffer r.put x, next r.put, next r.get, false⟩ k = r.slot (k + 1) := by
    ext
    simp only [slot, next_val, Nat.mod_add_mod, Nat.add_assoc, Nat.add_comm 1 k]
  have hdrop : ((xs ++ [x]).drop 1).length = xs.length := by simp
  refine ⟨?_, fun _ he => ?_⟩
  · rw [hpush]
    refine ⟨rfl, by rw [hdrop]; exact hholds.short, ?_, fun k hk => ?_⟩
    · rw [hdrop, hslot, ← next_slot, ← hput]
    · rw [hdrop] at hk
      rw [hslot, List.getElem_drop]
      rcases (Nat.succ_le_of_lt hk).lt_or_eq with hlt | heq
      · have hne : r.slot (k + 1) ≠ r.put := by
          rw [hput, Ne, slot_inj r (hlt.trans hholds.short) hholds.short]
          exact hlt.ne
        have hold : r.buffer (r.slot (k + 1)) = xs[k + 1] := hholds.slots (k + 1) hlt
        simp only [Nat.add_comm 1 k, List.getElem_append_left hlt]
        exact (Function.update_of_ne hne x r.buffer).trans hold
      · have hnew : r.slot (k + 1) = r.put := by rw [hput, ← heq]
        simp only [Nat.add_comm 1 k, List.getElem_concat_length heq]
        exact (congrArg _ hnew).trans (Function.update_self r.put x r.buffer)
  · rw [he, List.length_nil] at hdrop
    omega

theorem push (h : r.Unread xs) (hn : 1 < n) : (r.push x).Unread (newest n (xs ++ [x])) := by
  rcases (Nat.succ_le_of_lt h.holds.short).lt_or_eq with hroom | hlen
  · have hne : next r.put ≠ r.get := by
      have hput : r.put = r.slot xs.length := h.holds.put
      rw [hput, next_slot, ← slot_zero r, Ne, slot_inj r hroom r.get.pos]
      exact Nat.succ_ne_zero _
    have hsame : (r.push x).clear = r.clear.push x := by
      have hclear : next r.clear.put ≠ r.clear.get := hne
      rw [Ring.push, Ring.push, if_neg hne, if_neg hclear]
      rfl
    have hfull : (r.clear.push x).full = false := by
      rw [← hsame]
      rfl
    rw [newest_short (by simpa using hroom)]
    exact ⟨hsame ▸ h.holds.push hfull, fun _ => by simp⟩
  · have hnewest : newest n (xs ++ [x]) = (xs ++ [x]).drop 1 := by
      rw [newest, List.length_append, List.length_singleton]
      congr 1
      omega
    rw [hnewest]
    exact h.push_full hn hlen

theorem pushAll (h : r.Unread xs) (hn : 1 < n) : (r.pushAll ys).Unread (newest n (xs ++ ys)) := by
  induction ys generalizing r xs with
  | nil =>
    rw [List.append_nil, newest_short h.holds.short]
    exact h
  | cons y ys ih =>
    have hrest := ih (h.push hn (x := y))
    rwa [newest_append, List.append_assoc, List.singleton_append] at hrest

theorem pop_nil (h : r.Unread []) : r.pop = none := by
  have hflag : r.full = false := by
    rw [← Bool.not_eq_true]
    exact fun hf => h.flag hf rfl
  have hclear : r.clear = r := by rw [clear, ← hflag]
  exact hclear ▸ h.holds.pop_nil

theorem pop_cons (h : r.Unread (x :: xs)) : ∃ r', r.pop = some (x, r') ∧ r'.Unread xs := by
  obtain ⟨r', hpop, hrest⟩ := h.holds.pop_cons
  rw [pop] at hpop
  split at hpop
  · cases hpop
  · rename_i hne
    obtain ⟨hx, rfl⟩ := Prod.mk.inj (Option.some.inj hpop)
    refine ⟨{ r with get := next r.get, full := false }, ?_, hrest, nofun⟩
    rw [pop, if_neg fun hp => hne ⟨hp.1, rfl⟩]
    exact congrArg some (Prod.ext hx rfl)

theorem pop_eq_none (h : r.Unread xs) : r.pop = none ↔ xs = [] := by
  cases xs with
  | nil => simp [h.pop_nil]
  | cons x xs =>
    obtain ⟨r', hr, -⟩ := h.pop_cons
    simp [hr]

theorem span_eq (h : r.Unread xs) : r.span = xs.length := h.holds.span_eq

end Unread
end Ring
end Queues
