import FabricInspection.Inspection.Csv
import FabricInspection.Fallible.Loops

namespace FabricInspection

section
variable {size : Nat} {overflow : Nat → Fault} {dst src : Text}

@[simp] theorem strlen_append (s t : Text) : strlen (s ++ t) = strlen s + strlen t := by
  simp only [strlen, List.map_append, List.sum_append]

theorem strcat_ok (h : strlen dst + strlen src < size) :
    strcat size overflow dst src = .ok (dst ++ src) := if_pos h

end

theorem lastAt_ok (lastDetect : Vector DefectClass defaultDetectionRoundCnt) {j : Nat}
    (h : j < defaultDetectionRoundCnt) : lastAt lastDetect j = .ok lastDetect[j] := dif_pos h

theorem nameAt_short : ∀ i < defaultDetectionRoundCnt, ∃ name, nameAt i = .ok name ∧
    strlen name ≤ 7 := by
  have hall : ∀ i < 10, (nameAt i).toOption.any (fun t => decide (strlen t ≤ 7)) = true := by
    decide
  intro i hi
  have h := hall i hi
  cases hn : nameAt i with
  | error f => simp [hn, Except.toOption] at h
  | ok name => exact ⟨name, rfl, by simpa [hn, Except.toOption] using h⟩

theorem defectNames_short : ∀ i : DefectClass, strlen (getElem defectNames i i.isLt).toList ≤ 9 := by
  decide

theorem tick_short (hit : Bool) : strlen (tick hit) ≤ 4 := by
  cases hit <;> decide

section
variable {total : UInt8} (ht : total.toNat ≤ defaultDetectionRoundCnt)
include ht

theorem headerCell_ok {i : Nat} (hi : i < total.toNat) {header : Text}
    (hh : strlen header ≤ 5 + 8 * i) :
    ∃ header', headerCell total header i = .ok header' ∧ strlen header' ≤ 5 + 8 * (i + 1) := by
  obtain ⟨name, hname, hlen⟩ := nameAt_short i (hi.trans_le ht)
  have hi : i < 10 := hi.trans_le ht
  have hcat : strcat headerSize .header header name = .ok (header ++ name) := by
    refine strcat_ok ?_
    simp only [headerSize]
    omega
  have hcomma : strlen [','] = 1 := rfl
  simp only [headerCell, hname, hcat, bind, Except.bind]
  split
  · refine ⟨header ++ name ++ [','], strcat_ok ?_, ?_⟩
    · rw [strlen_append, hcomma, headerSize]
      omega
    · rw [strlen_append, strlen_append, hcomma]
      omega
  · exact ⟨header ++ name, rfl, by rw [strlen_append]; omega⟩

theorem csvHeader_ok : ∃ header, csvHeader total = .ok header := by
  obtain ⟨header, hfold, hlen⟩ := Fallible.foldlM_range (f := headerCell total)
    (I := fun i header => strlen header ≤ 5 + 8 * i) (b := ['t', 'y', 'p', 'e', ','])
    (n := total.toNat) (by decide) fun i hi header => headerCell_ok ht hi
  have hten : total.toNat ≤ 10 := ht
  have hnewline : strlen ['\n'] = 1 := rfl
  refine ⟨header ++ ['\n'], ?_⟩
  simp only [csvHeader, hfold, bind, Except.bind]
  refine strcat_ok ?_
  rw [hnewline, headerSize]
  omega

theorem csvLine_ok (lastDetect : Vector DefectClass defaultDetectionRoundCnt) (i : DefectClass) :
    ∃ line, csvLine lastDetect total i = .ok line := by
  have hten : total.toNat ≤ 10 := ht
  obtain ⟨line, hfold, hlen⟩ := Fallible.foldlM_range (f := lineCell lastDetect i)
    (I := fun j line => strlen line ≤ 9 + 4 * j) (b := defectNames[i].toList) (n := total.toNat)
    (defectNames_short i) (by
      intro j hj line hl
      have hj : j < 10 := hj.trans_le ht
      have htick := tick_short (lastDetect[j] = i)
      refine ⟨line ++ tick (lastDetect[j] = i), ?_, by rw [strlen_append]; omega⟩
      rw [lineCell, lastAt_ok lastDetect hj]
      refine strcat_ok ?_
      rw [lineSize]
      omega)
  have hnewline : strlen ['\n'] = 1 := rfl
  refine ⟨line ++ ['\n'], ?_⟩
  simp only [csvLine, hfold, bind, Except.bind]
  refine strcat_ok ?_
  rw [hnewline, lineSize]
  omega

theorem csvFile_ok (lastDetect : Vector DefectClass defaultDetectionRoundCnt) :
    ∃ file, csvFile lastDetect total = .ok file := by
  obtain ⟨header, hheader⟩ := csvHeader_ok ht
  obtain ⟨lines, hlines⟩ := Fallible.mapM_ok (f := csvLine lastDetect total)
    (l := List.finRange defectClassCnt) fun i _ => csvLine_ok ht lastDetect i
  refine ⟨header :: lines, ?_⟩
  rw [csvFile, hheader]
  simp only [bind, Except.bind, hlines]

-- The results are the classes the thread has stored, one for each announced image.
theorem defectReport_eq (lastDetect : Vector DefectClass defaultDetectionRoundCnt) :
    defectReport lastDetect total =
      .ok ((lastDetect.toList.take total.toNat).map fun c => defectNames[c]) := by
  have hten : total.toNat ≤ lastDetect.toList.length := by simpa using ht
  have hmap := Fallible.mapM_eq (l := List.range total.toNat)
    (f := fun i => do
      let c ← lastAt lastDetect i
      Except.ok (ε := Fault) defectNames[c])
    (g := fun i => defectNames[lastDetect.toList[i]?.getD 0]) (by
      intro i hi
      have hi : i < 10 := (List.mem_range.mp hi).trans_le ht
      rw [lastAt_ok lastDetect hi]
      simp [bind, Except.bind, hi])
  rw [defectReport, hmap]
  congr 1
  refine List.ext_getElem (by simpa using hten) fun i h₁ h₂ => ?_
  have hi : i < 10 := by simp at h₁; exact h₁.trans_le ht
  simp [hi]

end
end FabricInspection
