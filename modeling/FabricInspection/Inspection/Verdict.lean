import FabricInspection.Inspection.Thread
import FabricInspection.Inspection.Layout
import Mathlib.Algebra.BigOperators.Fin
import Mathlib.Order.Bounds.Basic

namespace FabricInspection

section
variable (output : Scores)

-- The state of the scan after the outputs of `l`.
structure Scan (l : List DefectClass) (best : Int8 × DefectClass) : Prop where
  above : ∀ j ∈ l, getElem output j j.isLt ≤ best.1
  first : ∀ j ∈ l, j < best.2 → getElem output j j.isLt < best.1
  attained : getElem output best.2 best.2.isLt = best.1 ∨ best = (-128, 0)
  seen : best.2 = 0 ∨ best.2 ∈ l

variable {output} {l : List DefectClass} {best : Int8 × DefectClass}

theorem Scan.step (h : Scan output l best) {i : DefectClass} (hl : ∀ j ∈ l, j < i) :
    Scan output (l ++ [i]) (argmaxStep output best i) := by
  rw [argmaxStep]
  split
  · rename_i hgt
    rw [gt_iff_lt, Int8.lt_iff_toInt_lt] at hgt
    have hbelow (j : DefectClass) (hj : j ∈ l) : output[j] < output[i] := by
      have hle := Int8.le_iff_toInt_le.mp (h.above j hj)
      exact Int8.lt_iff_toInt_lt.mpr (hle.trans_lt hgt)
    refine ⟨fun j hj => ?_, fun j hj hji => ?_, .inl rfl, .inr (by simp)⟩
    · rcases List.mem_append.mp hj with hj | hj
      · exact Int8.le_of_lt (hbelow j hj)
      · rw [List.mem_singleton.mp hj]
        exact Int8.le_refl _
    · rcases List.mem_append.mp hj with hj | hj
      · exact hbelow j hj
      · exact absurd (List.mem_singleton.mp hj) hji.ne
  · rename_i hle
    rw [gt_iff_lt, Int8.not_lt] at hle
    have hlast : best.2 ≤ i := by
      rcases h.seen with h0 | hmem
      · rw [h0]
        exact Fin.zero_le i
      · exact (hl _ hmem).le
    refine ⟨fun j hj => ?_, fun j hj hji => ?_, h.attained, ?_⟩
    · rcases List.mem_append.mp hj with hj | hj
      · exact h.above j hj
      · rw [List.mem_singleton.mp hj]
        exact hle
    · rcases List.mem_append.mp hj with hj | hj
      · exact h.first j hj hji
      · rw [List.mem_singleton.mp hj] at hji
        exact absurd hji (not_lt.mpr hlast)
    · exact h.seen.imp_right fun hmem => List.mem_append_left _ hmem

theorem Scan.foldl (h : Scan output l best) {m : List DefectClass}
    (hm : (l ++ m).Pairwise (· < ·)) :
    Scan output (l ++ m) (m.foldl (argmaxStep output) best) := by
  induction m generalizing l best with
  | nil => simpa using h
  | cons i m ih =>
    have hsplit : l ++ i :: m = (l ++ [i]) ++ m := by simp
    rw [hsplit] at hm ⊢
    refine ih (h.step fun j hj => ?_) hm
    have hleft := (List.pairwise_append.mp hm).1
    exact (List.pairwise_append.mp hleft).2.2 j hj i (by simp)

-- The class of an image is the first one with the highest score.
theorem maxIdx_isLeast (output : Scores) :
    IsLeast {i : DefectClass | ∀ j : DefectClass,
      getElem output j j.isLt ≤ getElem output i i.isLt} (maxIdx output) := by
  have hinit : Scan output [] (-128, 0) := ⟨nofun, nofun, .inr rfl, .inl rfl⟩
  have hscan : Scan output (List.finRange defectClassCnt)
      ((List.finRange defectClassCnt).foldl (argmaxStep output) (-128, 0)) :=
    hinit.foldl (m := List.finRange defectClassCnt) (List.pairwise_lt_finRange _)
  have hattained : output[maxIdx output] =
      ((List.finRange defectClassCnt).foldl (argmaxStep output) (-128, 0)).1 := by
    rcases hscan.attained with h | h
    · exact h
    · have hle := hscan.above (maxIdx output) (List.mem_finRange _)
      rw [h] at hle ⊢
      exact Int8.le_antisymm hle (Int8.minValue_le _)
  refine ⟨fun j => ?_, fun i hi => ?_⟩
  · rw [hattained]
    exact hscan.above j (List.mem_finRange j)
  · by_contra hlt
    have hfirst := hscan.first i (List.mem_finRange i) (not_le.mp hlt)
    rw [← hattained] at hfirst
    exact absurd (hi (maxIdx output)) (Int8.not_le.mpr hfirst)

end

section
variable (w : World)

def classOf (image : Image) : DefectClass := maxIdx (w.modelRun image)

def classes (images : List Image) : List DefectClass := images.map (classOf w)

def resultsOf (total : UInt8) (images : List Image) : List String :=
  ((classes w images).take total.toNat).map fun c => getElem defectNames c c.isLt

def countsOf (images : List Image) : List (String × Nat) :=
  (List.finRange defectClassCnt).map fun c =>
    (getElem defectNames c c.isLt, (classes w images).count c)

@[simp] theorem length_classes (images : List Image) :
    (classes w images).length = images.length := List.length_map ..

theorem classes_snoc (images : List Image) (image : Image) :
    classes w (images ++ [image]) = classes w images ++ [classOf w image] := by
  simp [classes]

theorem sum_countsOf (images : List Image) :
    ((countsOf w images).map Prod.snd).sum = images.length := by
  have hcount : (countsOf w images).map Prod.snd =
      (List.finRange defectClassCnt).map fun c => (classes w images).count c := by
    simp only [countsOf, List.map_map]
    rfl
  have hcard := Multiset.sum_count_eq_card (s := Finset.univ)
    (m := (classes w images : Multiset DefectClass)) fun c _ => Finset.mem_univ c
  simp only [Multiset.coe_count, Multiset.coe_card, length_classes] at hcard
  rw [hcount, ← List.ofFn_eq_map, List.sum_ofFn]
  exact hcard

end
end FabricInspection
