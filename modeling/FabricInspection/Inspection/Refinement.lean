import FabricInspection.Inspection.Desk

namespace FabricInspection

open Concurrency (Machine Rely)
open Concurrency.Machine (Follows Cond inPhase)
open Concurrency.Program (read write when lift)

section
variable {w : World}

abbrev Runs (w : World) {α : Type} (C : (desk w).Cond) (p : Prog α) (D : α → (desk w).Cond) :
    Prop :=
  Follows Board.desk (fun f => (desk w).inPhase (.crashed f)) C p D

abbrev at_ (w : World) (p : Phase) : (desk w).Cond := (desk w).inPhase p

-- The thread alone writes its inspection data.
def withInsp (C : (desk w).Cond) (P : Inspection → Prop) : (desk w).Cond :=
  C.and (fun x => P x.insp) fun x y h hs => by
    have hi : y.insp = x.insp := EnvStep.insp hs
    rwa [hi]

theorem history_log {s t : Board} {e : Event} (he : e.tracked = true)
    (hl : t.log = s.log ++ [e]) : t.history = s.history ++ [e] := by
  simp [Board.history, hl, he]

theorem desk_log {s t : Board} {e : Event} (he : e.tracked = true) (hl : t.log = s.log ++ [e]) :
    t.desk = ⟨t.rx.frameReady, t.rx.imageBuffer, t.round.detectionRoundCnt, t.insp, t.opens,
      s.history ++ [e]⟩ := by
  rw [Board.desk, history_log he hl]

theorem desk_event (s : Board) {e : Event} (he : e.tracked = true) :
    (s.emit e).desk = s.desk.note e := by
  simp [Board.desk, Board.history, Desk.note, he]

theorem desk_quiet (s : Board) {e : Event} (he : e.tracked = false) :
    (s.emit e).desk = s.desk := by
  simp [Board.desk, Board.history, he]

theorem quiet_runs {C : (desk w).Cond} {e : Event} (he : e.tracked = false) :
    Runs w C (emit e) fun _ => C :=
  Follows.write fun s hs => (desk_quiet s he).symm ▸ hs

-- On either side of 10 the test is evaluated.
theorem tracked_sleep {ms : Nat} (h : ms ≠ 10) :
    Event.tracked (.call .recv (.sleep ms)) = false := by
  rcases Nat.lt_or_gt_of_ne h with hlt | hgt
  · interval_cases ms <;> rfl
  · obtain ⟨k, rfl⟩ := Nat.exists_eq_add_of_lt hgt
    rw [Nat.add_comm 10 k]
    rfl

theorem delay_runs {C : (desk w).Cond} {ms : Nat} (h : ms ≠ 10) :
    Runs w C (rtThreadMdelay .recv ms) fun _ => C :=
  Follows.seq (quiet_runs (tracked_sleep h)) (quiet_runs rfl)

theorem write_runs {p q : Phase} {f : Board → Board} {g : Desk → Desk}
    (hf : ∀ s, (f s).desk = g s.desk) (h : ∀ x, RecvStep w p x q (g x)) :
    Runs w (at_ w p) (write f) fun _ => at_ w q :=
  Follows.write fun s hs => (hf s).symm ▸ Machine.Reach.own hs (h s.desk)

theorem event_runs {p q : Phase} {e : Event} (he : e.tracked = true)
    (h : ∀ x, RecvStep w p x q (x.note e)) : Runs w (at_ w p) (emit e) fun _ => at_ w q :=
  write_runs (fun s => desk_event s he) h

theorem setInsp_runs {p q : Phase} {f : Inspection → Inspection}
    (h : ∀ x, RecvStep w p x q { x with insp := f x.insp }) :
    Runs w (at_ w p) (setInsp f) fun _ => at_ w q :=
  write_runs (fun _ => rfl) h

theorem storeLast_runs (total round : UInt8) (c : DefectClass) (hr : round < total) :
    Runs w (withInsp (at_ w (.parsing total)) fun i => c = i.verdict ∧ round = i.detectRound)
      (storeLast round c) fun _ => withInsp (at_ w .stored) fun i => c = i.verdict := by
  unfold storeLast
  split
  · rename_i h
    refine Follows.write ?_
    rintro s ⟨hs, rfl, rfl⟩
    exact ⟨Machine.Reach.own hs (.store hr h), rfl⟩
  · rename_i h
    refine Follows.fail ?_
    rintro x ⟨hs, rfl, rfl⟩
    exact Machine.Reach.own hs (.overrun hr h)

theorem parseOutputResult_runs :
    Runs w (at_ w .ran) parseOutputResult fun _ => at_ w .classified := by
  refine Follows.bind (B := fun c => withInsp (at_ w .ran) fun i => c = i.verdict)
    (Follows.read fun s hs => ⟨hs, rfl⟩) fun c => ?_
  refine Follows.bind (B := fun total => withInsp (at_ w (.parsing total)) fun i => c = i.verdict)
    (Follows.read fun s hs => ⟨Machine.Reach.own hs.1 .readTotal, hs.2⟩) fun total => ?_
  refine Follows.bind (B := fun round => withInsp (at_ w (.parsing total))
    fun i => c = i.verdict ∧ round = i.detectRound)
    (Follows.read fun s hs => ⟨hs.1, hs.2, rfl⟩) fun round => ?_
  refine Follows.seq (B := withInsp (at_ w .stored) fun i => c = i.verdict)
    (Follows.when (fun h => storeLast_runs total round c (of_decide_eq_true h)) fun h x hx => ?_)
    (Follows.write fun s hs => ?_)
  · obtain ⟨hx, hc, rfl⟩ := hx
    exact ⟨Machine.Reach.own hx (.pass (of_decide_eq_false h)), hc⟩
  · obtain ⟨hs, rfl⟩ := hs
    rw [desk_log (e := .classified s.insp.nnomInputData s.insp.verdict) rfl rfl]
    exact Machine.Reach.own hs .classify

theorem defectInspectMain_runs :
    Runs w (at_ w .took) (defectInspectMain w) fun _ => at_ w .classified := by
  refine Follows.seq (B := at_ w .copied) ?_ (Follows.seq (B := at_ w .ran) ?_
    parseOutputResult_runs)
  · exact write_runs (fun s => desk_log (e := .copied s.rx.imageBuffer) rfl rfl) fun _ => .copy
  · exact setInsp_runs fun _ => .modelRun

theorem openFile_runs (t : UInt8) :
    Runs w (withInsp (at_ w (.compared t)) fun i => i.detectRound ≥ t) (openFile w)
      fun ok => if ok then at_ w .opened else at_ w .done := by
  refine Follows.act fun s hs => ?_
  obtain ⟨hs, hdue⟩ := hs
  rw [desk_log (e := .opened (w.openOk s.opens)) rfl rfl]
  cases ho : w.openOk s.opens with
  | true => exact Machine.Reach.own hs (.opens hdue ho)
  | false => exact Machine.Reach.own hs (.openFails hdue ho)

theorem beep_runs {C : (desk w).Cond} {ms : Nat} (h : ms ≠ 10) :
    Runs w C (beep .recv ms) fun _ => C := by
  have hpin (level : Bool) : Runs w C (rtPinWrite .recv .buzzer level) fun _ => C := by
    refine Follows.write fun s hs => ?_
    have hd := desk_quiet s (e := .call .recv (.pinWrite .buzzer level)) rfl
    exact hd.symm ▸ hs
  exact Follows.seq (hpin true) (Follows.seq (delay_runs h) (hpin false))

theorem clear_runs : Runs w (at_ w .uploaded) (do
    setInsp fun s => { s with defectCounter := Vector.replicate defectClassCnt 0 }
    setInsp fun s => { s with lastDetect := Vector.replicate defaultDetectionRoundCnt 0 }
    setInsp fun s => { s with detectRound := 0 }) fun _ => at_ w .done :=
  Follows.seq (setInsp_runs fun _ => .clearCounter) (Follows.seq
    (setInsp_runs fun _ => .clearLast) (setInsp_runs fun _ => .clearRound))

theorem generateDefectStatCsv_runs (t : UInt8) :
    Runs w (withInsp (at_ w (.compared t)) fun i => i.detectRound ≥ t) (generateDefectStatCsv w)
      fun _ => at_ w .done := by
  refine Follows.bind (openFile_runs t) fun ok => Follows.when (fun hok => ?_) fun hok x hx => ?_
  · subst hok
    refine Follows.bind (B := fun total => at_ w (.saving total))
      (Follows.read fun s hs => Machine.Reach.own hs .readLast) fun total => ?_
    refine Follows.bind (B := fun last => withInsp (at_ w (.saving total))
      fun i => i.lastDetect = last) (Follows.read fun s hs => ⟨hs, rfl⟩) fun last => ?_
    refine Follows.bind (B := fun file => withInsp (at_ w (.saving total))
      fun i => i.lastDetect = last ∧ csvFile last total = .ok file) ?_ fun file => ?_
    · refine Follows.lift (fun file hf x hx => ⟨hx.1, hx.2, hf⟩) ?_
      rintro f hf x ⟨hx, rfl⟩
      exact Machine.Reach.own hx (.saveFault hf)
    refine Follows.seq (B := withInsp (at_ w (.saved total)) fun i => i.lastDetect = last) ?_ ?_
    · refine Follows.write fun s hs => ?_
      obtain ⟨hs, rfl, hf⟩ := hs
      rw [desk_event s rfl]
      exact ⟨Machine.Reach.own hs (.save hf), rfl⟩
    refine Follows.bind (B := fun results => withInsp (at_ w (.saved total))
      fun i => defectReport i.lastDetect total = .ok results) ?_ fun results => ?_
    · refine Follows.lift ?_ ?_
      · rintro results hr x ⟨hx, rfl⟩
        exact ⟨hx, hr⟩
      · rintro f hf x ⟨hx, rfl⟩
        exact Machine.Reach.own hx (.reportFault hf)
    refine Follows.seq (B := at_ w .reported) ?_ (Follows.seq (delay_runs (by decide)) ?_)
    · refine Follows.write fun s hs => ?_
      rw [desk_event s rfl]
      exact Machine.Reach.own hs.1 (.report hs.2)
    refine Follows.seq (B := at_ w .uploaded) ?_ ?_
    · exact write_runs (fun s => desk_event s (e := .count (defectCount s.insp.defectCounter)) rfl)
        fun _ => .upload
    refine Follows.seq (delay_runs (by decide)) (Follows.seq (beep_runs (by decide)) ?_)
    exact Follows.seq (delay_runs (by decide)) clear_runs
  · subst hok
    exact hx

theorem uartRecvThread_runs : Runs w (at_ w .idle) (uartRecvThread w) fun _ => at_ w .idle := by
  refine Follows.bind (B := fun ready => if ready then at_ w .taking else at_ w .done) ?_
    fun ready => ?_
  · refine Follows.read fun s hs => ?_
    cases hr : s.rx.frameReady with
    | true => exact Machine.Reach.own hs (.poll hr)
    | false => exact Machine.Reach.own hs .skip
  refine Follows.seq (B := at_ w .done) (Follows.when (fun hr => ?_) fun hr x hx => ?_) ?_
  · subst hr
    refine Follows.seq (B := at_ w .took) ?_ (Follows.seq defectInspectMain_runs ?_)
    · exact write_runs (fun s => desk_log (e := .taken) rfl rfl) fun _ => .take
    refine Follows.seq (setInsp_runs fun _ => .advance) ?_
    refine Follows.bind (B := fun total => at_ w (.compared total))
      (Follows.read fun s hs => Machine.Reach.own hs .readAgain) fun total => ?_
    refine Follows.bind (B := fun round => withInsp (at_ w (.compared total))
      fun i => round = i.detectRound) (Follows.read fun s hs => ⟨hs, rfl⟩) fun round => ?_
    refine Follows.when (fun h => ?_) fun h x hx => ?_
    · refine (generateDefectStatCsv_runs total).pre ?_
      rintro x ⟨hx, rfl⟩
      exact ⟨hx, of_decide_eq_true h⟩
    · obtain ⟨hx, rfl⟩ := hx
      exact Machine.Reach.own hx (.wait (of_decide_eq_false h))
  · subst hr
    exact hx
  · exact Follows.seq (event_runs rfl fun _ => .rest) (quiet_runs rfl)

end
end FabricInspection
