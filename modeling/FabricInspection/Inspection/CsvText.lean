import FabricInspection.Inspection.Layout
import FabricInspection.Tabular.Fields
import Mathlib.Data.List.Induction

namespace FabricInspection

open Tabular (fields row)

-- The two loops of generate_defect_stat_csv for a header table of any length, with buffers that
-- are large enough.
def headerStep (names : List Text) (total : Nat) (header : Text) (i : Nat) : Text :=
  let header := header ++ names[i]?.getD []
  if i + 1 ≠ total then header ++ [','] else header

def headerText (names : List Text) (total : Nat) : Text :=
  (List.range total).foldl (headerStep names total) ['t', 'y', 'p', 'e', ','] ++ ['\n']

def lineText (results : List DefectClass) (i : DefectClass) : Text :=
  results.foldl (fun line c => line ++ tick (c = i)) (getElem defectNames i i.isLt).toList ++
    ['\n']

def csvText (names : List Text) (results : List DefectClass) : Text :=
  headerText names results.length ++ (List.finRange defectClassCnt).flatMap (lineText results)

def mark (hit : Bool) : Text := if hit then ['√'] else []

-- The class rows of a file, each with its name and its cells.
def classRows (results : List DefectClass) : List (Text × List Text) :=
  (List.finRange defectClassCnt).map fun i =>
    ((getElem defectNames i i.isLt).toList, results.map fun c => mark (c = i))

def tableRows (names : List Text) (results : List DefectClass) : List (Text × List Text) :=
  (['t', 'y', 'p', 'e'], names.take results.length) :: classRows results

theorem tick_eq (hit : Bool) : tick hit = ',' :: mark hit := by
  cases hit <;> rfl

theorem lineText_eq (results : List DefectClass) (i : DefectClass) :
    lineText results i =
      row ',' (getElem defectNames i i.isLt).toList (results.map fun c => mark (c = i)) ++
        ['\n'] := by
  have hfold (line : Text) : results.foldl (fun line c => line ++ tick (c = i)) line =
      row ',' line (results.map fun c => mark (c = i)) := by
    induction results using List.reverseRecOn with
    | nil => exact (List.append_nil line).symm
    | append_singleton results c ih =>
      rw [List.foldl_append, ih, List.map_append, List.map_singleton, Tabular.row_snoc, ← tick_eq]
      rfl
  rw [lineText, hfold]

theorem headerFold (names : List Text) {total k : Nat} (hk : k ≤ total) (h : total ≤ names.length)
    (h0 : 0 < total) :
    (List.range k).foldl (headerStep names total) ['t', 'y', 'p', 'e', ','] =
      row ',' ['t', 'y', 'p', 'e'] (names.take k) ++ if k < total then [','] else [] := by
  induction k with
  | zero =>
    rw [if_pos h0]
    rfl
  | succ k ih =>
    have hlt : k < names.length := hk.trans h
    rw [List.range_succ, List.foldl_append, ih (Nat.le_of_succ_le hk),
      if_pos (Nat.lt_of_succ_le hk),
      List.foldl_cons, List.foldl_nil, headerStep, List.take_add_one, List.getElem?_eq_getElem hlt,
      Option.toList_some, Tabular.row_snoc, Option.getD_some]
    rcases hk.eq_or_lt with heq | hmore
    · rw [if_neg (not_not.mpr heq), if_neg (by omega)]
      simp
    · rw [if_pos hmore.ne, if_pos hmore]
      simp

theorem csvText_eq (names : List Text) {results : List DefectClass} (h : results ≠ [])
    (hn : results.length ≤ names.length) :
    csvText names results =
      (tableRows names results).flatMap fun r => row ',' r.1 r.2 ++ ['\n'] := by
  rw [csvText, headerText, headerFold names le_rfl hn (List.length_pos_of_ne_nil h),
    if_neg (Nat.lt_irrefl _), List.append_nil, tableRows, List.flatMap_cons, classRows,
    List.flatMap_map]
  exact congrArg _ (List.flatMap_congr fun i _ => lineText_eq results i)

theorem defectNames_clean : ∀ i : DefectClass,
    ',' ∉ (getElem defectNames i i.isLt).toList ∧
      '\n' ∉ (getElem defectNames i i.isLt).toList := by
  decide

theorem mark_clean (hit : Bool) : ',' ∉ mark hit ∧ '\n' ∉ mark hit := by
  cases hit <;> decide

section
variable {names : List Text} {results : List DefectClass}

theorem tableRows_clean (hc : ∀ name ∈ names.take results.length, ',' ∉ name ∧ '\n' ∉ name) :
    ∀ r ∈ tableRows names results, (',' ∉ r.1 ∧ '\n' ∉ r.1) ∧
      ∀ cell ∈ r.2, ',' ∉ cell ∧ '\n' ∉ cell := by
  intro r hr
  rcases List.mem_cons.mp hr with rfl | hr
  · exact ⟨(by decide : ',' ∉ ['t', 'y', 'p', 'e'] ∧ '\n' ∉ ['t', 'y', 'p', 'e']), hc⟩
  · obtain ⟨i, -, rfl⟩ := List.mem_map.mp hr
    refine ⟨defectNames_clean i, fun cell hcell => ?_⟩
    obtain ⟨c, -, rfl⟩ := List.mem_map.mp hcell
    exact mark_clean _

theorem tableRows_comma (hc : ∀ name ∈ names.take results.length, ',' ∉ name ∧ '\n' ∉ name) :
    ∀ r ∈ tableRows names results, ',' ∉ r.1 ∧ ∀ cell ∈ r.2, ',' ∉ cell := by
  intro r hr
  obtain ⟨hfirst, hrest⟩ := tableRows_clean hc r hr
  exact ⟨hfirst.1, fun cell hcell => (hrest cell hcell).1⟩

theorem tableRows_newline
    (hc : ∀ name ∈ names.take results.length, ',' ∉ name ∧ '\n' ∉ name) :
    ∀ r ∈ tableRows names results, '\n' ∉ r.1 ∧ ∀ cell ∈ r.2, '\n' ∉ cell := by
  intro r hr
  obtain ⟨hfirst, hrest⟩ := tableRows_clean hc r hr
  exact ⟨hfirst.2, fun cell hcell => (hrest cell hcell).2⟩

theorem tableRows_width (hn : results.length ≤ names.length) :
    ∀ r ∈ tableRows names results, r.2.length = results.length := by
  intro r hr
  rcases List.mem_cons.mp hr with rfl | hr
  · rw [List.length_take, min_eq_left hn]
  · obtain ⟨i, -, rfl⟩ := List.mem_map.mp hr
    exact List.length_map _

theorem fields_csvText (h : results ≠ []) (hn : results.length ≤ names.length)
    (hc : ∀ name ∈ names.take results.length, ',' ∉ name ∧ '\n' ∉ name) :
    fields '\n' ',' (csvText names results) =
      (tableRows names results).map fun r => r.1 :: r.2 := by
  rw [csvText_eq names h hn]
  exact Tabular.fields_rows (by decide) (tableRows_comma hc) (tableRows_newline hc)

end

-- The cell of class row `i` in column `j`, where column 0 has the name of the class.
def cellAt (t : Text) (i : DefectClass) (j : Nat) : Option Text :=
  (fields '\n' ',' t)[i.val + 1]?.bind fun row => row[j]?

-- The class whose row has the tick, column by column.
def readTicks (t : Text) : List (Option DefectClass) :=
  (List.range ((((fields '\n' ',' t).head?.getD []).length) - 1)).map fun j =>
    (List.finRange defectClassCnt).find? fun i => cellAt t i (j + 1) = some ['√']

section
variable {names : List Text} {results : List DefectClass}

theorem cellAt_csvText (h : results ≠ []) (hn : results.length ≤ names.length)
    (hc : ∀ name ∈ names.take results.length, ',' ∉ name ∧ '\n' ∉ name) (i : DefectClass) (j : Nat) :
    cellAt (csvText names results) i j =
      (defectNames[i].toList :: results.map fun c => mark (c = i))[j]? := by
  have hrow : (List.finRange defectClassCnt)[i.val]? = some i := by
    rw [List.getElem?_eq_getElem (by rw [List.length_finRange]; exact i.isLt)]
    simp
  rw [cellAt, fields_csvText h hn hc, tableRows, List.map_cons, List.getElem?_cons_succ, classRows,
    List.map_map, List.getElem?_map, hrow]
  rfl

theorem find_class : ∀ c : DefectClass,
    (List.finRange defectClassCnt).find? (fun i => some (mark (c = i)) = some ['√']) = some c := by
  decide

theorem readTicks_csvText (h : results ≠ []) (hn : results.length ≤ names.length)
    (hc : ∀ name ∈ names.take results.length, ',' ∉ name ∧ '\n' ∉ name) :
    readTicks (csvText names results) = results.map some := by
  have hwidth : ((fields '\n' ',' (csvText names results)).head?.getD []).length - 1 =
      results.length := by
    rw [fields_csvText h hn hc, tableRows, List.map_cons, List.head?_cons, Option.getD_some,
      List.length_cons, List.length_take, min_eq_left hn, Nat.add_sub_cancel]
  rw [readTicks, hwidth]
  refine List.ext_getElem (by simp) fun j h₁ h₂ => ?_
  have hj : j < results.length := by simpa using h₂
  have hcell (i : DefectClass) :
      cellAt (csvText names results) i (j + 1) = some (mark (results[j] = i)) := by
    rw [cellAt_csvText h hn hc, List.getElem?_cons_succ, List.getElem?_map,
      List.getElem?_eq_getElem hj, Option.map_some]
  simp only [List.getElem_map, List.getElem_range, hcell]
  exact find_class results[j]

end

theorem csv_determines_results (names : List Text) (results : List DefectClass)
    (h : results ≠ []) (hn : results.length ≤ names.length)
    (hc : ∀ name ∈ names.take results.length, ',' ∉ name ∧ '\n' ∉ name) :
    (∃ lines, (csvText names results).splitOn '\n' = lines ++ [[]] ∧ lines.length = 8 ∧
      ∀ line ∈ lines, (line.splitOn ',').length = results.length + 1) ∧
    (∀ i, cellAt (csvText names results) i 0 = some defectNames[i].toList) ∧
    (∀ i j, (hj : j < results.length) → cellAt (csvText names results) i (j + 1) =
      some (if results[j] = i then ['√'] else [])) ∧
    readTicks (csvText names results) = results.map some ∧
    ∀ names' results', results' ≠ [] → results'.length ≤ names'.length →
      (∀ name ∈ names'.take results'.length, ',' ∉ name ∧ '\n' ∉ name) →
      csvText names' results' = csvText names results → results' = results := by
  refine ⟨⟨(tableRows names results).map fun r => row ',' r.1 r.2, ?_, ?_, ?_⟩, ?_, ?_,
    readTicks_csvText h hn hc, ?_⟩
  · rw [csvText_eq names h hn]
    exact Tabular.rows_splitOn (by decide) (tableRows_newline hc)
  · rw [List.length_map, tableRows, List.length_cons, classRows, List.length_map,
      List.length_finRange]
  · intro line hline
    obtain ⟨r, hr, rfl⟩ := List.mem_map.mp hline
    obtain ⟨hfirst, hrest⟩ := tableRows_comma hc r hr
    rw [Tabular.row_splitOn hfirst hrest, List.length_cons, tableRows_width hn r hr]
  · intro i
    rw [cellAt_csvText h hn hc, List.getElem?_cons_zero]
  · intro i j hj
    rw [cellAt_csvText h hn hc, List.getElem?_cons_succ, List.getElem?_map,
      List.getElem?_eq_getElem hj, Option.map_some]
    simp only [mark, decide_eq_true_eq]
  · intro names' results' h' hn' hc' heq
    have hread := readTicks_csvText h' hn' hc'
    rw [heq, readTicks_csvText h hn hc] at hread
    exact (List.map_injective_iff.mpr (Option.some_injective _) hread).symm

theorem csv_determines_results_two_images :
    readTicks (csvText (names.map String.toList) [0, 3]) = [some 0, some 3] :=
  (csv_determines_results (names.map String.toList) [0, 3] (by decide) (by decide)
    (by decide)).2.2.2.1

section
variable {lastDetect : Vector DefectClass defaultDetectionRoundCnt} {total : UInt8}

theorem strcat_eq {size : Nat} {overflow : Nat → Fault} {dst src t : Text}
    (h : strcat size overflow dst src = .ok t) : t = dst ++ src := by
  rw [strcat] at h
  split at h
  · exact (Except.ok.inj h).symm
  · cases h

theorem headerCell_eq {header t : Text} {i : Nat} (h : headerCell total header i = .ok t) :
    t = headerStep (names.map String.toList) total.toNat header i := by
  have hname : ∀ name, nameAt i = .ok name → name = (names.map String.toList)[i]?.getD [] := by
    intro name hn
    rw [nameAt] at hn
    split at hn
    · rename_i s hs
      rw [List.getElem?_map, hs]
      exact (Except.ok.inj hn).symm
    · cases hn
  rw [headerCell] at h
  cases hn : nameAt i with
  | error f => simp [hn, bind, Except.bind] at h
  | ok name =>
    cases hcat : strcat headerSize .header header name with
    | error f => simp [hn, hcat, bind, Except.bind] at h
    | ok joined =>
      simp only [hn, hcat, bind, Except.bind] at h
      rw [headerStep, ← hname name hn, ← strcat_eq hcat]
      split at h
      · rw [if_pos (by assumption)]
        exact strcat_eq h
      · rw [if_neg (by assumption)]
        exact (Except.ok.inj h).symm

theorem lineCell_eq {line t : Text} {i : DefectClass} {j : Nat}
    (h : lineCell lastDetect i line j = .ok t) :
    t = line ++ tick (lastDetect.toList[j]?.getD 0 = i) := by
  rw [lineCell, lastAt] at h
  split at h
  · rename_i hj
    rw [strcat_eq h, List.getElem?_eq_getElem (by simpa using hj)]
    simp
  · cases h

theorem csvHeader_eq {t : Text} (h : csvHeader total = .ok t) : t = headerText (names.map String.toList) total.toNat := by
  obtain ⟨header, hfold⟩ : ∃ header, (List.range total.toNat).foldlM (headerCell total)
      ['t', 'y', 'p', 'e', ','] = .ok header := by
    cases hf : (List.range total.toNat).foldlM (headerCell total) ['t', 'y', 'p', 'e', ','] with
    | error f => simp [csvHeader, hf, bind, Except.bind] at h
    | ok header => exact ⟨header, rfl⟩
  simp only [csvHeader, hfold, bind, Except.bind] at h
  rw [strcat_eq h, Fallible.foldlM_eq (fun _ _ _ => headerCell_eq) hfold]
  rfl

theorem take_eq_map (ht : total.toNat ≤ defaultDetectionRoundCnt) :
    lastDetect.toList.take total.toNat =
      (List.range total.toNat).map fun j => lastDetect.toList[j]?.getD 0 := by
  have hlen : lastDetect.toList.length = defaultDetectionRoundCnt := by simp
  refine List.ext_getElem (by simp [hlen, ht]) fun j h₁ h₂ => ?_
  have hj : j < lastDetect.toList.length := (List.length_take_le' _ _).trans_lt' h₁
  rw [List.getElem_take, List.getElem_map, List.getElem_range, List.getElem?_eq_getElem hj,
    Option.getD_some]

theorem csvLine_eq (ht : total.toNat ≤ defaultDetectionRoundCnt) {i : DefectClass} {t : Text}
    (h : csvLine lastDetect total i = .ok t) :
    t = lineText (lastDetect.toList.take total.toNat) i := by
  obtain ⟨line, hfold⟩ : ∃ line, (List.range total.toNat).foldlM (lineCell lastDetect i)
      defectNames[i].toList = .ok line := by
    cases hf : (List.range total.toNat).foldlM (lineCell lastDetect i) defectNames[i].toList with
    | error f => simp only [csvLine, hf, bind, Except.bind, reduceCtorEq] at h
    | ok line => exact ⟨line, rfl⟩
  simp only [csvLine, hfold, bind, Except.bind] at h
  rw [strcat_eq h, Fallible.foldlM_eq (fun _ _ _ => lineCell_eq) hfold, lineText, take_eq_map ht,
    List.foldl_map]

end

-- The file that generate_defect_stat_csv writes is this text, as long as its buffers suffice.
theorem csvFile_text {lastDetect : Vector DefectClass defaultDetectionRoundCnt} {total : UInt8}
    (ht : total.toNat ≤ defaultDetectionRoundCnt) {file : List Text}
    (h : csvFile lastDetect total = .ok file) :
    file.flatten = csvText (names.map String.toList) (lastDetect.toList.take total.toNat) := by
  have hlen : (lastDetect.toList.take total.toNat).length = total.toNat := by simpa using ht
  cases hh : csvHeader total with
  | error f => simp [csvFile, hh, bind, Except.bind] at h
  | ok header =>
    cases hl : (List.finRange defectClassCnt).mapM (csvLine lastDetect total) with
    | error f => simp only [csvFile, hh, hl, bind, Except.bind, reduceCtorEq] at h
    | ok lines =>
      simp only [csvFile, hh, hl, bind, Except.bind, Except.ok.injEq] at h
      rw [← h, List.flatten_cons, csvHeader_eq hh,
        Fallible.mapM_eq_map (fun _ _ => csvLine_eq ht) hl, csvText, hlen]
      rfl

theorem headerNames_clean : ∀ name ∈ names.map String.toList, ',' ∉ name ∧ '\n' ∉ name := by
  decide

section
variable {last last' : Vector DefectClass defaultDetectionRoundCnt} {total total' : UInt8}
  {file file' : List Text}

theorem csvFile_readTicks (h : csvFile last total = .ok file)
    (ht : total.toNat ≤ defaultDetectionRoundCnt) (h0 : 0 < total.toNat) :
    readTicks file.flatten = (last.toList.take total.toNat).map some := by
  have hlen : (last.toList.take total.toNat).length = total.toNat := by simpa using ht
  rw [csvFile_text ht h]
  refine readTicks_csvText ?_ ?_ fun name hname => ?_
  · exact List.ne_nil_of_length_pos (hlen.symm ▸ h0)
  · rw [hlen]
    exact ht
  · exact headerNames_clean name (List.mem_of_mem_take hname)

-- Two files that the thread writes are the same text only for the same classes.
theorem csvFile_determines_results (h : csvFile last total = .ok file)
    (h' : csvFile last' total' = .ok file') (ht : total.toNat ≤ defaultDetectionRoundCnt)
    (ht' : total'.toNat ≤ defaultDetectionRoundCnt) (h0 : 0 < total.toNat)
    (h0' : 0 < total'.toNat) (heq : file.flatten = file'.flatten) :
    total = total' ∧ last.toList.take total.toNat = last'.toList.take total'.toNat := by
  have hticks := csvFile_readTicks h ht h0
  rw [heq, csvFile_readTicks h' ht' h0'] at hticks
  have hsame := List.map_injective_iff.mpr (Option.some_injective _) hticks
  refine ⟨UInt8.toNat_inj.mp ?_, hsame.symm⟩
  have hlen := congrArg List.length hsame
  simp only [List.length_take, Vector.length_toList] at hlen
  omega

end
end FabricInspection
