import Mathlib.Data.List.Basic
import Mathlib.Data.List.Flatten
import Mathlib.Tactic.Common

-- A sequence of items cut into rounds, of which the first so many are closed.
namespace Batching
variable {α : Type} {rounds : List (List α)} {r a : Nat} {batch : List α}

theorem flatten_take_succ {items : List α} (h : rounds[r]? = some items) :
    (rounds.take (r + 1)).flatten = (rounds.take r).flatten ++ items := by
  simp [List.take_add_one, h]

theorem flatten_take_mono (rounds : List (List α)) (h : r ≤ a) :
    (rounds.take r).flatten <+: (rounds.take a).flatten := by
  induction h with
  | refl => exact List.prefix_rfl
  | @step a _ ih =>
    refine ih.trans ?_
    rw [List.take_add_one, List.flatten_append]
    exact List.prefix_append _ _

theorem length_flatten_take_lt (hne : ∀ items ∈ rounds, items ≠ []) (h : r < a)
    (ha : a ≤ rounds.length) :
    (rounds.take r).flatten.length < (rounds.take a).flatten.length := by
  have hr : rounds[r]? = some rounds[r] := List.getElem?_eq_getElem (Nat.lt_of_lt_of_le h ha)
  have hpos := List.length_pos_iff.mpr (hne rounds[r] (List.getElem_mem _))
  have hle := (flatten_take_mono rounds (Nat.succ_le_of_lt h)).length_le
  rw [flatten_take_succ hr, List.length_append] at hle
  omega

theorem eq_of_length_flatten_take (hne : ∀ items ∈ rounds, items ≠ []) (hr : r ≤ rounds.length)
    (ha : a ≤ rounds.length)
    (h : (rounds.take r).flatten.length = (rounds.take a).flatten.length) : r = a := by
  rcases Nat.lt_trichotomy r a with hlt | heq | hgt
  · exact absurd h (Nat.ne_of_lt (length_flatten_take_lt hne hlt ha))
  · exact heq
  · exact absurd h (Nat.ne_of_gt (length_flatten_take_lt hne hgt hr))

-- What has been taken beyond the closed rounds is empty, or the beginning of the open round.
theorem batch_nil (h : (rounds.take r).flatten ++ batch <+: (rounds.take r).flatten) :
    batch = [] := by
  have hle := h.length_le
  rw [List.length_append] at hle
  exact List.length_eq_zero_iff.mp (by omega)

theorem batch_prefix {items : List α} (hr : rounds[r]? = some items)
    (h : (rounds.take r).flatten ++ batch <+: (rounds.take (r + 1)).flatten) : batch <+: items := by
  rw [flatten_take_succ hr] at h
  exact (List.prefix_append_right_inj _).mp h

end Batching
