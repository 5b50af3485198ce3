import FabricInspection.Inspection.CsvText
import FabricInspection.Inspection.Reporting
import FabricInspection.Json.Payload

namespace FabricInspection

open Concurrency (Machine Platform)
open Concurrency.Trace (Every every_nil every_snoc)
open CJson (Bytes ascii onenetUploadDefectReport onenetUploadDefectCount readReport readCount)
open Numerals (decimal)

def className (c : DefectClass) : String := getElem defectNames c c.isLt

-- The last file written before is a table of these classes.
def Tabled (pre : List Event) (classes : List DefectClass) : Prop :=
  ∃ before file between, pre = before ++ .saved file :: between ∧
    (∀ other, .saved other ∉ between) ∧
    (classes ≠ [] → readTicks file.flatten = classes.map some)

-- The classes of the frames since the last count.
def uncountedStep (cs : List DefectClass) : Event → List DefectClass
  | .classified _ c => cs ++ [c]
  | .count _ => []
  | _ => cs

def uncounted (log : List Event) : List DefectClass := log.foldl uncountedStep []

-- What the uploads say, to whoever parses them. The counters have 16 bits.
def Uploaded (sprintfG : Nat → ℚ → Bytes) (pre : List Event) : Event → Prop
  | .report total results => ∃ classes : List DefectClass,
      classes.length = total.toNat ∧ results = classes.map className ∧ Tabled pre classes ∧
      ∀ id, ∃ payload, onenetUploadDefectReport sprintfG id total results = some payload ∧
        readReport payload = some (decimal id.toNat, (classes.length : Int),
          classes.map fun c => ascii (className c))
  | .count counts =>
      counts = (List.finRange defectClassCnt).map
        (fun c => (className c, (uncounted pre).count c % 65536)) ∧
      ∀ id, ∃ payload, onenetUploadDefectCount sprintfG id counts = some payload ∧
        readCount payload = some (decimal id.toNat,
          counts.map fun c => (ascii c.1, some (c.2 : Int)))
  | _ => True

theorem className_noNul : ∀ c : DefectClass, 0 ∉ ascii (className c) := by
  decide

theorem defectReport_bound {last : Vector DefectClass defaultDetectionRoundCnt} {total : UInt8}
    {results : List String} (h : defectReport last total = .ok results) :
    total.toNat ≤ defaultDetectionRoundCnt := by
  by_contra hlt
  obtain ⟨name, hname⟩ := Fallible.mapM_pass h
    (List.mem_range.mpr (Nat.lt_of_not_le hlt))
  simp [lastAt, bind, Except.bind] at hname

-- The table and the report are made from the same variable.
theorem tabled_report {pre : List Event} {last : Vector DefectClass defaultDetectionRoundCnt}
    {total : UInt8} {file : List Text} (hfile : csvFile last total = .ok file)
    {before between : List Event} (hpre : pre = before ++ .saved file :: between)
    (hbetween : ∀ other, .saved other ∉ between) {results : List String}
    (h : defectReport last total = .ok results) (sprintfG : Nat → ℚ → Bytes) :
    Uploaded sprintfG pre (.report total results) := by
  have hten := defectReport_bound h
  have hlen : (last.toList.take total.toNat).length = total.toNat := by simpa using hten
  rw [defectReport_eq hten] at h
  have hresults : results = (last.toList.take total.toNat).map className := (Except.ok.inj h).symm
  refine ⟨last.toList.take total.toNat, hlen, hresults, ?_, fun id => ?_⟩
  · refine ⟨before, file, between, hpre, hbetween, fun hne => csvFile_readTicks hfile hten ?_⟩
    rw [← hlen]
    exact List.length_pos_iff.mpr hne
  · have hclean : ∀ name ∈ results, 0 ∉ ascii name := by
      intro name hname
      rw [hresults] at hname
      obtain ⟨c, -, rfl⟩ := List.mem_map.mp hname
      exact className_noNul c
    obtain ⟨payload, hpayload, hread⟩ := CJson.readReport_upload sprintfG id total hclean
    refine ⟨payload, hpayload, ?_⟩
    rw [hread, hlen, hresults, List.map_map]
    rfl

def CountsUp (counter : Vector UInt16 defectClassCnt) (cs : List DefectClass) : Prop :=
  ∀ c : DefectClass, (getElem counter c c.isLt).toNat = cs.count c % 65536

theorem CountsUp.nil : CountsUp (Vector.replicate defectClassCnt 0) [] := fun c =>
  congrArg UInt16.toNat (Vector.getElem_replicate c.isLt)

theorem CountsUp.countOne {i : Inspection} {cs : List DefectClass}
    (h : CountsUp i.defectCounter cs) (c : DefectClass) :
    CountsUp (i.countOne c).defectCounter (cs ++ [c]) := by
  intro d
  have hd := h d
  rw [List.count_append]
  by_cases hcd : c = d
  · subst hcd
    simp only [Inspection.countOne, Fin.getElem_fin, Vector.getElem_set_self, UInt16.toNat_add,
      List.count_singleton_self]
    exact (congrArg (fun n => (n + 1) % 65536) hd).trans (Nat.mod_add_mod ..)
  · have hne : (c : Nat) ≠ d := fun he => hcd (Fin.ext he)
    simp only [Inspection.countOne, Fin.getElem_fin, Vector.getElem_set_ne _ _ hne]
    rw [List.count_singleton, beq_false_of_ne hcd]
    exact hd

theorem CountsUp.uploaded {counter : Vector UInt16 defectClassCnt} {pre : List Event}
    (h : CountsUp counter (uncounted pre)) (sprintfG : Nat → ℚ → Bytes) :
    Uploaded sprintfG pre (.count (defectCount counter)) := by
  refine ⟨List.map_congr_left fun c _ => Prod.ext rfl (h c), fun id => ?_⟩
  refine CJson.readCount_upload sprintfG id fun c hc => ?_
  obtain ⟨i, -, rfl⟩ := List.mem_map.mp hc
  refine ⟨className_noNul i, ?_⟩
  have := (counter.get i).toNat_lt
  exact Nat.le_of_lt (Nat.lt_trans this (by decide))

section
variable {w : World} {p : Phase} {x : Desk}

theorem EnvStep.unsaved {y : Desk} (h : EnvStep x y) :
    ∃ e, y.log = x.log ++ [e] ∧ ∀ file, e ≠ .saved file := by
  cases h with
  | counted | announced | committed => exact ⟨_, rfl, nofun⟩

-- Between the file and the report nothing is stored and no other file is written.
theorem saved_file (h : (desk w).Reach p x) : ∀ t, p = .saved t →
    ∃ before file between, x.log = before ++ .saved file :: between ∧
      (∀ other, .saved other ∉ between) ∧ csvFile x.insp.lastDetect t = .ok file := by
  induction h with
  | init => exact fun t hp => nomatch hp
  | own hx hs ih =>
    have hs' : RecvStep w _ _ _ _ := hs
    cases hs' with
    | save ok =>
      rintro t hp
      cases hp
      exact ⟨_, _, [], rfl, by simp, ok⟩
    | _ => exact fun t hp => nomatch hp
  | env hx hs ih =>
    have hs' : EnvStep _ _ := hs
    intro t hp
    obtain ⟨before, file, between, hlog, hbetween, hfile⟩ := ih t hp
    obtain ⟨e, hnote, hne⟩ := hs'.unsaved
    refine ⟨before, file, between ++ [e], ?_, fun other hother => ?_, hs'.insp ▸ hfile⟩
    · rw [hnote, hlog, List.append_assoc, List.cons_append]
    · rcases List.mem_append.mp hother with hother | hother
      · exact hbetween other hother
      · exact hne other (List.mem_singleton.mp hother).symm

theorem uncounted_snoc (log : List Event) (e : Event) :
    uncounted (log ++ [e]) = uncountedStep (uncounted log) e := by
  simp only [uncounted, List.foldl_append, List.foldl_cons, List.foldl_nil]

def Phase.counting : Phase → Bool
  | .uploaded => false
  | _ => true

-- Between the upload of the count and the clearing of the counters no frame is classified.
theorem countsUp (h : (desk w).Reach p x) :
    (p.counting = true → CountsUp x.insp.defectCounter (uncounted x.log)) ∧
      (p.counting = false → uncounted x.log = []) := by
  induction h with
  | init => exact ⟨fun _ => CountsUp.nil, nofun⟩
  | own hx hs ih =>
    have hs' : RecvStep w _ _ _ _ := hs
    cases hs' with
    | classify =>
      refine ⟨fun _ => ?_, nofun⟩
      rw [Desk.note_log, uncounted_snoc]
      exact (ih.1 rfl).countOne _
    | upload =>
      refine ⟨nofun, fun _ => ?_⟩
      rw [Desk.note_log, uncounted_snoc]
      rfl
    | clearCounter =>
      refine ⟨fun _ => ?_, nofun⟩
      rw [ih.2 rfl]
      exact CountsUp.nil
    | take | copy | openFails | opens | save | report | rest =>
      rw [Desk.note_log, uncounted_snoc]
      exact ih
    | _ => exact ih
  | env hx hs ih =>
    have hs' : EnvStep _ _ := hs
    cases hs' with
    | counted | announced | committed =>
      rw [Desk.note_log, uncounted_snoc]
      exact ih

theorem uploaded (sprintfG : Nat → ℚ → Bytes) (h : (desk w).Reach p x) :
    Every (Uploaded sprintfG) x.log := by
  induction h with
  | init => exact every_nil
  | own hx hs ih =>
    have hs' : RecvStep w _ _ _ _ := hs
    cases hs' with
    | report ok =>
      obtain ⟨before, file, between, hlog, hbetween, hfile⟩ := saved_file hx _ rfl
      exact every_snoc.mpr ⟨ih, tabled_report hfile hlog hbetween ok sprintfG⟩
    | upload => exact every_snoc.mpr ⟨ih, ((countsUp hx).1 rfl).uploaded sprintfG⟩
    | take | copy | classify | openFails | opens | save | rest =>
      exact every_snoc.mpr ⟨ih, trivial⟩
    | _ => exact ih
  | env hx hs ih =>
    have hs' : EnvStep _ _ := hs
    cases hs' with
    | counted | announced | committed => exact every_snoc.mpr ⟨ih, trivial⟩

end

-- Whatever the run, what the board publishes can be parsed back, and says what the file says.
theorem uploads_agree (w : World) (pin : Pin → Bool) (found : MotorId → Bool)
    (sprintfG : Nat → ℚ → Bytes) (c : Config w) (h : Platform.Reach (start w pin found) c) :
    Every (Uploaded sprintfG) c.state.history := by
  obtain ⟨p, hreach⟩ := reach_desk h
  exact uploaded sprintfG hreach

theorem uploads_agree_two_rounds :
    ∃ c : Config shadeWorld, Platform.Reach (start shadeWorld (fun _ => true) fun _ => true) c ∧
      ∃ pre results counts post,
        c.state.history = pre ++ .report 1 results :: .count counts :: post ∧
        results = ["wear"] ∧
        counts = [("crack", 0), ("dirt", 0), ("glue", 0), ("line", 0), ("oil", 0),
          ("no defect", 0), ("wear", 1)] ∧
        Uploaded (fun _ _ => []) pre (.report 1 results) ∧
        Uploaded (fun _ _ => []) (pre ++ [.report 1 results]) (.count counts) := by
  obtain ⟨f, g, c, h, hrest⟩ := reach_twoRounds
  have hlog : c.state.history = (twoRounds f g).log := congrArg Desk.log hrest.desk
  let x : Desk := ((Desk.init.round shadeWorld [1] 3 f).announce 1).receive (plain 6)
  have hsplit : (twoRounds f g).log = ((x.handle shadeWorld).log ++ [.opened true, .saved g]) ++
      .report 1 (x.results shadeWorld) :: .count (defectCount (x.inspected shadeWorld).defectCounter)
        :: [.call .recv (.sleep 10)] := Desk.report_split shadeWorld x g
  have h₆ : classOf shadeWorld (plain 6) = 6 := classOf_plain 6
  have hresults : x.results shadeWorld = [className (classOf shadeWorld (plain 6))] := rfl
  have hcounts : defectCount (x.inspected shadeWorld).defectCounter =
      defectCount (Inspection.init.countOne (classOf shadeWorld (plain 6))).defectCounter := rfl
  have hagree := uploads_agree shadeWorld _ _ (fun _ _ => []) c h
  refine ⟨c, h, _, _, _, _, hlog.trans hsplit, ?_, ?_, hagree _ _ _ (hlog.trans hsplit),
    hagree _ _ _ ((hlog.trans hsplit).trans (List.append_cons ..))⟩
  · rw [hresults, h₆]
    rfl
  · rw [hcounts, h₆]
    decide

end FabricInspection
