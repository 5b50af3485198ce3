import Mathlib

-- Sorting by a key, where entries of equal key stay in their order.
namespace Sorting
variable {α β κ : Type} [LinearOrder κ]

structure StablySorted (key : α → κ) (l sorted : List α) : Prop where
  perm : sorted.Perm l
  ascending : sorted.Pairwise fun a b => key a ≤ key b
  ties : ∀ k, sorted.filter (key · = k) = l.filter (key · = k)

def keyLe (key : α → κ) (a b : α) : Bool := key a ≤ key b

section
variable {key : α → κ}

theorem keyLe_trans (a b c : α) (hab : keyLe key a b) (hbc : keyLe key b c) : keyLe key a c :=
  decide_eq_true ((of_decide_eq_true hab).trans (of_decide_eq_true hbc))

theorem keyLe_total (a b : α) : keyLe key a b || keyLe key b a := by
  rw [Bool.or_eq_true]
  exact (le_total (key a) (key b)).imp decide_eq_true decide_eq_true

-- A tie is a sublist that is in order already, so the sort keeps it.
theorem filter_mergeSort (l : List α) (k : κ) :
    (l.mergeSort (keyLe key)).filter (key · = k) = l.filter (key · = k) := by
  have htie : (l.filter (key · = k)).Pairwise fun a b => keyLe key a b := by
    refine List.pairwise_of_forall_mem_list fun a ha b hb => ?_
    have hka : key a = k := by simpa using (List.mem_filter.mp ha).2
    have hkb : key b = k := by simpa using (List.mem_filter.mp hb).2
    exact decide_eq_true (hka.trans hkb.symm).le
  have hsub := (List.sublist_mergeSort keyLe_trans keyLe_total htie List.filter_sublist).filter
    (key · = k)
  rw [List.filter_filter] at hsub
  have hlen := ((List.mergeSort_perm l (keyLe key)).filter (key · = k)).length_eq
  refine (List.Sublist.eq_of_length ?_ hlen.symm).symm
  simpa using hsub

theorem stablySorted_mergeSort (l : List α) :
    StablySorted key l (l.mergeSort (keyLe key)) where
  perm := List.mergeSort_perm l _
  ascending := (List.pairwise_mergeSort keyLe_trans keyLe_total l).imp of_decide_eq_true
  ties := filter_mergeSort l

end
end Sorting
