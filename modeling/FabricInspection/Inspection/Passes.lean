import FabricInspection.Board.Runs
import FabricInspection.Inspection.Refinement
import FabricInspection.Inspection.Verdict

namespace FabricInspection

open Concurrency (Platform Program)
open Concurrency.Trace (Every)

theorem classOf_plain (c : DefectClass) : classOf shadeWorld (plain (UInt8.ofNat c.val)) = c := by
  rw [classOf, modelRun_plain]
  revert c
  decide

namespace Desk

def inspected (w : World) (x : Desk) : Inspection where
  nnomInputData := x.buffer
  nnomOutputData := w.modelRun x.buffer
  detectRound := x.insp.detectRound + 1
  defectCounter := (x.insp.countOne (classOf w x.buffer)).defectCounter
  lastDetect :=
    if x.insp.detectRound < x.total then
      if h : x.insp.detectRound.toNat < defaultDetectionRoundCnt then
        x.insp.lastDetect.set x.insp.detectRound.toNat (classOf w x.buffer)
      else x.insp.lastDetect
    else x.insp.lastDetect

-- A pass of the thread that nobody disturbs, up to the comparison with the total.
def handle (w : World) (x : Desk) : Desk :=
  { x with
    ready := false
    insp := x.inspected w
    log := x.log ++ [.taken, .copied x.buffer, .classified x.buffer (classOf w x.buffer)] }

def take (x : Desk) : Desk := { x.note .taken with ready := false }

def inspect (w : World) (x : Desk) : Desk :=
  { x with
    insp := x.inspected w
    log := x.log ++ [.copied x.buffer, .classified x.buffer (classOf w x.buffer)] }

theorem inspect_take (w : World) (x : Desk) : x.take.inspect w = x.handle w := by
  simp only [inspect, handle, take, note, List.append_assoc, List.cons_append, List.nil_append]
  rfl

def cleared (x : Desk) : Desk :=
  { x with insp := { x.insp with
      detectRound := 0
      defectCounter := Vector.replicate defectClassCnt 0
      lastDetect := Vector.replicate defaultDetectionRoundCnt 0 } }

def announce (x : Desk) (n : Nat) : Desk :=
  { x with
    total := UInt8.ofNat n
    log := x.log ++ List.replicate n .counted ++ [.announced (UInt8.ofNat n)] }

def receive (x : Desk) (image : Image) : Desk :=
  { x.note (.committed image) with ready := true, buffer := image }

def rest (x : Desk) : Desk := x.note (.call .recv (.sleep 10))

def fail (w : World) (x : Desk) : Desk :=
  { (x.handle w).note (.opened false) with opens := x.opens + 1 }

def results (w : World) (x : Desk) : List String :=
  ((x.inspected w).lastDetect.toList.take x.total.toNat).map fun c =>
    getElem defectNames c c.isLt

def report (w : World) (x : Desk) (file : List Text) : Desk :=
  { (x.handle w).cleared with
    opens := x.opens + 1
    log := (x.handle w).log ++ [.opened true, .saved file, .report x.total (x.results w),
      .count (defectCount (x.inspected w).defectCounter)] }

-- Plain images that arrive and are handled one after the other, none of which ends the round.
def frames (w : World) (x : Desk) (vs : List UInt8) : Desk :=
  vs.foldl (fun x v => ((x.receive (plain v)).handle w).rest) x

-- A round announced with as many images as then arrive.
def round (w : World) (x : Desk) (vs : List UInt8) (v : UInt8) (file : List Text) : Desk :=
  ((((x.announce (vs.length + 1)).frames w vs).receive (plain v)).report w file).rest

@[simp] theorem announce_log (x : Desk) (n : Nat) : (x.announce n).log =
    x.log ++ List.replicate n Event.counted ++ [Event.announced (UInt8.ofNat n)] := rfl
@[simp] theorem receive_log (x : Desk) (image : Image) :
    (x.receive image).log = x.log ++ [Event.committed image] := rfl
@[simp] theorem handle_log (w : World) (x : Desk) : (x.handle w).log =
    x.log ++ [Event.taken, Event.copied x.buffer,
      Event.classified x.buffer (classOf w x.buffer)] := rfl
@[simp] theorem rest_log (x : Desk) : x.rest.log = x.log ++ [Event.call .recv (.sleep 10)] := rfl
@[simp] theorem fail_log (w : World) (x : Desk) :
    (x.fail w).log = (x.handle w).log ++ [Event.opened false] := rfl
@[simp] theorem report_log (w : World) (x : Desk) (file : List Text) : (x.report w file).log =
    (x.handle w).log ++ [Event.opened true, Event.saved file, Event.report x.total (x.results w),
      Event.count (defectCount (x.inspected w).defectCounter)] := rfl

theorem report_split (w : World) (x : Desk) (file : List Text) :
    (x.report w file).rest.log = ((x.handle w).log ++ [Event.opened true, Event.saved file]) ++
      Event.report x.total (x.results w) :: [Event.count (defectCount (x.inspected w).defectCounter),
        Event.call .recv (.sleep 10)] := by
  rw [rest_log, report_log, List.append_assoc, List.append_assoc]
  rfl

-- The history grows by events of the thread alone.
def Follows (x y : Desk) : Prop := ∃ es, y.log = x.log ++ es ∧ ∀ e ∈ es, e.byRecv = true

theorem handle_follows (w : World) (x : Desk) : x.Follows (x.handle w).rest :=
  ⟨_, List.append_assoc .., by simp [Event.byRecv]⟩

theorem fail_follows (w : World) (x : Desk) : x.Follows (x.fail w).rest :=
  ⟨_, by rw [rest_log, fail_log, handle_log, List.append_assoc, List.append_assoc],
    by simp [Event.byRecv]⟩

theorem report_follows (w : World) (x : Desk) (file : List Text) :
    x.Follows (x.report w file).rest :=
  ⟨_, by rw [rest_log, report_log, handle_log, List.append_assoc, List.append_assoc],
    by simp [Event.byRecv]⟩

theorem Follows.every {x y : Desk} {P : List Event → Event → Prop} (h : x.Follows y)
    (hP : ∀ pre e, e.byRecv = true → P pre e) (hx : Every P x.log) : Every P y.log := by
  obtain ⟨es, hl, hes⟩ := h
  rw [hl]
  exact hx.append fun e he pre => hP pre e (hes e he)

@[simp] theorem receive_insp (x : Desk) (image : Image) : (x.receive image).insp = x.insp := rfl
@[simp] theorem receive_total (x : Desk) (image : Image) : (x.receive image).total = x.total := rfl
@[simp] theorem handle_total (w : World) (x : Desk) : (x.handle w).total = x.total := rfl
@[simp] theorem handle_insp (w : World) (x : Desk) : (x.handle w).insp = x.inspected w := rfl

theorem frames_cons (w : World) (x : Desk) (v : UInt8) (vs : List UInt8) :
    x.frames w (v :: vs) = ((x.receive (plain v)).handle w).rest.frames w vs := rfl

theorem frames_total (w : World) (x : Desk) (vs : List UInt8) :
    (x.frames w vs).total = x.total := by
  induction vs generalizing x with
  | nil => rfl
  | cons v vs ih => exact ih _

theorem frames_opens (w : World) (x : Desk) (vs : List UInt8) :
    (x.frames w vs).opens = x.opens := by
  induction vs generalizing x with
  | nil => rfl
  | cons v vs ih => exact ih _

theorem frames_round (w : World) (x : Desk) (vs : List UInt8) :
    (x.frames w vs).insp.detectRound = x.insp.detectRound + UInt8.ofNat vs.length := by
  induction vs generalizing x with
  | nil => exact (UInt8.add_zero _).symm
  | cons v vs ih =>
    rw [frames_cons, ih, List.length_cons, Nat.add_comm, UInt8.ofNat_add, ← UInt8.add_assoc]
    rfl

end Desk

-- What uart_recv_thread does with a frame it has picked up.
def inspectFrame (w : World) : Prog Unit := do
  defectInspectMain w
  setInsp fun s => { s with detectRound := s.detectRound + 1 }
  let total ← readTotal
  let round ← Program.read fun s => s.insp.detectRound
  Program.when (round ≥ total) (generateDefectStatCsv w)

def Board.take (s : Board) : Board :=
  { s.emit .taken with rx := { s.rx with frameReady := false } }

section
variable {w : World} {s : Board}

theorem uartRecvThread_eq (w : World) : uartRecvThread w =
    ((Program.read fun s => s.rx.frameReady) >>= fun ready =>
      Program.when ready (Program.write Board.take >>= fun _ => inspectFrame w) >>= fun _ =>
        rtThreadMdelay .recv 10) := rfl

theorem defectInspectMain_inspects
    (hfits : s.insp.detectRound < s.round.detectionRoundCnt → s.insp.detectRound.toNat < 10) :
    ∃ t, (defectInspectMain w).run s = .ok ((), t) ∧
      Board.desk { t with insp := { t.insp with detectRound := t.insp.detectRound + 1 } } =
        s.desk.inspect w ∧
      t.rx = s.rx ∧ t.round = s.round := by
  by_cases hbelow : s.insp.detectRound < s.round.detectionRoundCnt
  · simp [defectInspectMain, prepareInputData, parseOutputResult, setInsp, readTotal,
      Program.read, Program.write, Program.run, Program.when, storeLast, hfits hbelow, hbelow,
      Inspection.countOne, Board.desk, Board.history, Desk.inspect, Desk.inspected, classOf]
    exact ⟨rfl, rfl⟩
  · simp [defectInspectMain, prepareInputData, parseOutputResult, setInsp, readTotal,
      Program.read, Program.write, Program.run, Program.when, hbelow, Inspection.countOne,
      Board.desk, Board.history, Desk.inspect, Desk.inspected, classOf]
    exact ⟨rfl, rfl⟩

theorem inspectFrame_inspects
    (hfits : s.insp.detectRound < s.round.detectionRoundCnt → s.insp.detectRound.toNat < 10) :
    ∃ t : Board, t.desk = s.desk.inspect w ∧ t.rx = s.rx ∧ t.round = s.round ∧
      ∀ u, (Program.when (s.desk.insp.detectRound + 1 ≥ s.desk.total)
          (generateDefectStatCsv w)).run t = .ok ((), u) → (inspectFrame w).run s = .ok ((), u) := by
  obtain ⟨t, hmain, hdesk, hrx, hround⟩ := defectInspectMain_inspects (w := w) hfits
  refine ⟨{ t with insp := { t.insp with detectRound := t.insp.detectRound + 1 } }, hdesk, hrx,
    hround, fun u hu => ?_⟩
  have hnext : t.insp.detectRound + 1 = s.insp.detectRound + 1 :=
    congrArg (fun x => x.insp.detectRound) hdesk
  have hdue : (s.desk.insp.detectRound + 1 ≥ s.desk.total) =
      (t.insp.detectRound + 1 ≥ t.round.detectionRoundCnt) := by
    rw [hnext, hround]
    rfl
  rw [inspectFrame, Program.run_bind_ok hmain, Program.run_bind_ok rfl, Program.run_bind_ok rfl,
    Program.run_bind_ok rfl]
  simp only [hdue] at hu
  exact hu

theorem desk_take (s : Board) : s.take.desk = s.desk.take :=
  desk_log (s := s) (e := .taken) rfl rfl

theorem uartRecvThread_handles (hready : s.rx.frameReady = true)
    (hfits : s.insp.detectRound < s.round.detectionRoundCnt → s.insp.detectRound.toNat < 10) :
    ∃ t : Board, t.desk = s.desk.handle w ∧ t.rx.frameStart = s.rx.frameStart ∧
      t.round = s.round ∧
      ∀ u, (Program.when (s.desk.insp.detectRound + 1 ≥ s.desk.total)
          (generateDefectStatCsv w)).run t = .ok ((), u) →
        (uartRecvThread w).run s =
          .ok ((), (u.emit (.call .recv (.sleep 10))).emit (.call .recv .wake)) := by
  obtain ⟨t, hdesk, hrx, hround, hrun⟩ := inspectFrame_inspects (w := w) (s := s.take) hfits
  have hstart : t.rx.frameStart = s.take.rx.frameStart := congrArg Receiver.frameStart hrx
  refine ⟨t, ?_, hstart, hround, fun u hu => ?_⟩
  · rw [hdesk, desk_take, Desk.inspect_take]
  · have hframe : (Program.write Board.take >>= fun _ => inspectFrame w).run s = .ok ((), u) :=
      hrun u hu
    rw [uartRecvThread_eq, Program.run_bind_ok (a := true) (t := s) (by rw [← hready]; rfl),
      Program.when, if_pos rfl, Program.run_bind_ok hframe]
    rfl

theorem generateDefectStatCsv_fails (hopen : w.openOk s.opens = false) :
    (generateDefectStatCsv w).run s =
      .ok ((), { s.emit (.opened false) with opens := s.opens + 1 }) := by
  simp [generateDefectStatCsv, openFile, Program.run, Program.when, hopen]

theorem generateDefectStatCsv_reports (hopen : w.openOk s.opens = true)
    (hten : s.round.detectionRoundCnt.toNat ≤ defaultDetectionRoundCnt) :
    ∃ u file, (generateDefectStatCsv w).run s = .ok ((), u) ∧
      u.desk = { s.desk.cleared with
        opens := s.opens + 1
        log := s.history ++ [.opened true, .saved file, .report s.round.detectionRoundCnt
          ((s.insp.lastDetect.toList.take s.round.detectionRoundCnt.toNat).map
            fun c => defectNames[c]), .count (defectCount s.insp.defectCounter)] } ∧
      u.rx.frameStart = s.rx.frameStart ∧ u.round = s.round := by
  obtain ⟨file, hfile⟩ := csvFile_ok hten s.insp.lastDetect
  have hreport := defectReport_eq hten s.insp.lastDetect
  simp [generateDefectStatCsv, openFile, readTotal, setInsp, beep, rtPinWrite, rtThreadMdelay,
    call, emit, Program.read, Program.write, Program.lift, Program.run, Program.when, hopen, hfile,
    hreport, Board.desk, Board.history, Desk.cleared]
  exact ⟨file, rfl⟩

end

-- Both threads wait, the decoder is between two frames, no '(' is counted.
structure Resting {w : World} (c : Config w) (x : Desk) : Prop where
  ctrl : c.blocked Task.ctrl
  recv : c.blocked Task.recv
  between : c.state.rx.frameStart = false
  count : c.state.round.imageCount = 0
  desk : c.state.desk = x

theorem resting_start (w : World) (pin : Pin → Bool) (found : MotorId → Bool) :
    Resting (start w pin found) Desk.init := ⟨rfl, rfl, rfl, rfl, rfl⟩

section
variable {w : World} {c : Config w} {x : Desk}

theorem reach_counts {b : Config w} (hctrl : b.blocked Task.ctrl) (n : Nat) :
    ∃ s : Board, Platform.Reach b { b with state := s } ∧
      s.round.imageCount = b.state.round.imageCount + UInt8.ofNat n ∧ s.rx = b.state.rx ∧
      s.desk = { b.state.desk with log := b.state.history ++ List.replicate n .counted } := by
  induction n with
  | zero => exact ⟨b.state, .refl b, by simp, rfl, by simp [Board.desk]⟩
  | succ n ih =>
    obtain ⟨s, hs, hcount, hrx, hdesk⟩ := ih
    have hrun := Platform.Reach.of_entry (P := inspector w) (i := Task.ctrl) (x := some '(')
      (c := { b with state := s }) hctrl rfl
    refine ⟨_, hs.trans hrun, ?_, hrx, ?_⟩
    · simp [hcount, UInt8.ofNat_add, UInt8.add_assoc]
    · simp only [Board.desk, Desk.mk.injEq] at hdesk ⊢
      obtain ⟨hready, hbuffer, htotal, hinsp, hopens, hlog⟩ := hdesk
      refine ⟨hready, hbuffer, htotal, hinsp, hopens, ?_⟩
      rw [List.replicate_succ', ← List.append_assoc, ← hlog]
      simp [Board.history]
      rfl

theorem uartCtrlThread_announces (s : Board) :
    ∃ u, (uartCtrlThread (some ')')).run s = .ok ((), u) ∧ u.rx = s.rx ∧ u.round.imageCount = 0 ∧
      u.desk = { s.desk with
        total := s.round.imageCount
        log := s.history ++ [.announced s.round.imageCount] } := by
  simp [uartCtrlThread, uartCtrlSwitch, beep, rtPinWrite, rtThreadMdelay, call, emit,
    Program.write, Program.run, Board.desk, Board.history]
  rfl

theorem reach_announce {b : Config w} (hctrl : b.blocked Task.ctrl)
    (h0 : b.state.round.imageCount = 0) (n : Nat) :
    ∃ u : Board, Platform.Reach b { b with state := u } ∧ u.rx = b.state.rx ∧
      u.round.imageCount = 0 ∧ u.desk = b.state.desk.announce n := by
  obtain ⟨s, hs, hcount, hrx, hdesk⟩ := reach_counts hctrl n
  obtain ⟨u, hu, hurx, hzero, hudesk⟩ := uartCtrlThread_announces s
  have hrun := Platform.Reach.of_entry (P := inspector w) (i := Task.ctrl) (x := some ')')
    (c := { b with state := s }) hctrl hu
  have hn : s.round.imageCount = UInt8.ofNat n := by rw [hcount, h0, UInt8.zero_add]
  have hlog : s.history = b.state.history ++ List.replicate n Event.counted := congrArg Desk.log hdesk
  refine ⟨u, hs.trans hrun, hurx.trans hrx, hzero, ?_⟩
  rw [hudesk, hdesk, hn, hlog]
  rfl

theorem Resting.announce (h : Resting c x) (n : Nat) :
    ∃ d, Platform.Reach c d ∧ Resting d (x.announce n) := by
  obtain ⟨u, hu, hrx, hzero, hdesk⟩ := reach_announce h.ctrl h.count n
  have hstart : u.rx.frameStart = c.state.rx.frameStart := congrArg Receiver.frameStart hrx
  exact ⟨_, hu, h.ctrl, h.recv, hstart.trans h.between, hzero, hdesk.trans (by rw [h.desk])⟩

theorem Resting.commit (h : Resting c x) (v : UInt8) :
    ∃ d, Platform.Reach c d ∧ Resting d (x.receive (plain v)) := by
  obtain ⟨buf, cnt, hreach⟩ := reach_frame (p := List.replicate 1024 v) (.refl c) h.between
    List.length_replicate
  refine ⟨_, hreach, h.ctrl, h.recv, rfl, h.count, ?_⟩
  rw [← h.desk]
  exact desk_log rfl rfl

theorem Resting.pass (h : Resting c x) {u : Board} (hrun : (uartRecvThread w).run c.state =
      .ok ((), (u.emit (.call .recv (.sleep 10))).emit (.call .recv .wake)))
    (hstart : u.rx.frameStart = c.state.rx.frameStart) (hround : u.round = c.state.round) :
    ∃ d, Platform.Reach c d ∧ Resting d u.desk.rest := by
  have hreach := Platform.Reach.of_entry (P := inspector w) (i := Task.recv) (x := ()) h.recv hrun
  refine ⟨_, hreach, h.ctrl, h.recv, hstart.trans h.between, ?_, ?_⟩
  · exact (congrArg Announcement.imageCount hround).trans h.count
  · exact (desk_quiet _ rfl).trans (desk_event u rfl)

-- The thread has picked a frame up and has not looked at it yet.
theorem Resting.takes (h : Resting c x) (hready : x.ready = true) :
    Platform.Reach c { c.enter Task.recv (inspectFrame w >>= fun _ => rtThreadMdelay .recv 10) with
      state := c.state.take } := by
  have hx : c.state.rx.frameReady = true := (congrArg Desk.ready h.desk).trans hready
  have hstart := Platform.Reach.of_step (Platform.step_start (P := inspector w) (i := Task.recv)
    (c := c) () h.recv)
  have hpoll := Platform.Reach.of_enter (P := inspector w) (c := c) (i := Task.recv)
    (p := Program.read fun s => s.rx.frameReady) (a := true) (s := c.state)
    (q := fun ready => Program.when ready (Program.write Board.take >>= fun _ => inspectFrame w)
      >>= fun _ => rtThreadMdelay .recv 10) (by rw [← hx]; rfl)
  have htake := Platform.Reach.of_enter (P := inspector w) (c := c) (i := Task.recv)
    (p := Program.write Board.take) (a := ()) (s := c.state.take)
    (q := fun _ => inspectFrame w >>= fun _ => rtThreadMdelay .recv 10) rfl
  exact hstart.trans (hpoll.trans htake)

theorem Resting.waits (h : Resting c x) (hready : x.ready = true)
    (hfits : x.insp.detectRound < x.total → x.insp.detectRound.toNat < 10)
    (hwait : ¬x.insp.detectRound + 1 ≥ x.total) :
    ∃ d, Platform.Reach c d ∧ Resting d (x.handle w).rest := by
  have hx := h.desk
  subst hx
  obtain ⟨t, hdesk, hstart, hround, hrun⟩ := uartRecvThread_handles (w := w) hready hfits
  have hwhen := hrun t (by
    rw [Program.when, if_neg fun hge => hwait (of_decide_eq_true hge)]
    rfl)
  rw [← hdesk]
  exact h.pass hwhen hstart hround

theorem Resting.fails (h : Resting c x) (hready : x.ready = true)
    (hfits : x.insp.detectRound < x.total → x.insp.detectRound.toNat < 10)
    (hdue : x.insp.detectRound + 1 ≥ x.total) (hopen : w.openOk x.opens = false) :
    ∃ d, Platform.Reach c d ∧ Resting d (x.fail w).rest := by
  have hx := h.desk
  subst hx
  obtain ⟨t, hdesk, hstart, hround, hrun⟩ := uartRecvThread_handles (w := w) hready hfits
  have hopens : t.opens = c.state.opens := congrArg Desk.opens hdesk
  have hopen : w.openOk t.opens = false := by rw [hopens]; exact hopen
  have hwhen := hrun _ (by
    rw [Program.when, if_pos (decide_eq_true hdue)]
    exact generateDefectStatCsv_fails hopen)
  have hd := h.pass hwhen hstart hround
  have hnote : Board.desk { t.emit (.opened false) with opens := t.opens + 1 } =
      { t.desk.note (.opened false) with opens := t.opens + 1 } := by
    rw [← desk_event t rfl]
    rfl
  rw [hnote, hdesk, hopens] at hd
  exact hd

theorem Resting.reports (h : Resting c x) (hready : x.ready = true)
    (hfits : x.insp.detectRound < x.total → x.insp.detectRound.toNat < 10)
    (hdue : x.insp.detectRound + 1 ≥ x.total) (hopen : w.openOk x.opens = true)
    (hten : x.total.toNat ≤ defaultDetectionRoundCnt) :
    ∃ file d, Platform.Reach c d ∧ Resting d (x.report w file).rest := by
  have hx := h.desk
  subst hx
  obtain ⟨t, hdesk, hstart, hround, hrun⟩ := uartRecvThread_handles (w := w) hready hfits
  have hopens : t.opens = c.state.opens := congrArg Desk.opens hdesk
  have hopen : w.openOk t.opens = true := by rw [hopens]; exact hopen
  obtain ⟨u, file, hu, hudesk, hustart, huround⟩ := generateDefectStatCsv_reports hopen
    (by rw [hround]; exact hten)
  have hwhen := hrun u (by
    rw [Program.when, if_pos (decide_eq_true hdue)]
    exact hu)
  have hd := h.pass hwhen (hustart.trans hstart) (huround.trans hround)
  have hinsp : t.insp = c.state.desk.inspected w := congrArg Desk.insp hdesk
  have hlog : t.history = (c.state.desk.handle w).log := congrArg Desk.log hdesk
  rw [hudesk, hdesk, hopens, hround, hinsp, hlog] at hd
  exact ⟨file, hd⟩

theorem Resting.frames (h : Resting c x) (vs : List UInt8)
    (hbelow : x.insp.detectRound.toNat + vs.length < x.total.toNat)
    (hfits : x.insp.detectRound.toNat + vs.length ≤ 10) :
    ∃ d, Platform.Reach c d ∧ Resting d (x.frames w vs) := by
  induction vs generalizing c x with
  | nil => exact ⟨c, .refl c, h⟩
  | cons v vs ih =>
    rw [List.length_cons] at hbelow hfits
    have htotal := x.total.toNat_lt
    have hnext : (x.insp.detectRound + 1).toNat = x.insp.detectRound.toNat + 1 := by
      rw [UInt8.toNat_add]
      exact Nat.mod_eq_of_lt (by simp; omega)
    have hwait : ¬x.insp.detectRound + 1 ≥ x.total := by
      rw [ge_iff_le, UInt8.le_iff_toNat_le, hnext]
      omega
    obtain ⟨d, hd, hframe⟩ := h.commit v
    obtain ⟨e, he, hwaits⟩ := hframe.waits rfl (fun _ => by rw [Desk.receive_insp]; omega) hwait
    have hround : ((x.receive (plain v)).handle w).rest.insp.detectRound.toNat =
        x.insp.detectRound.toNat + 1 := hnext
    have hsame : ((x.receive (plain v)).handle w).rest.total = x.total := rfl
    obtain ⟨f, hf, hframes⟩ := ih hwaits (by rw [hround, hsame]; omega) (by omega)
    exact ⟨f, hd.trans (he.trans hf), hframes⟩

theorem inspectFrame_reports {s : Board} {y : Desk} (hy : s.desk = y)
    (hfits : y.insp.detectRound < y.total → y.insp.detectRound.toNat < 10)
    (hdue : y.insp.detectRound + 1 ≥ y.total) (hopen : w.openOk y.opens = true)
    (hten : y.total.toNat ≤ defaultDetectionRoundCnt) :
    ∃ u file, (inspectFrame w).run s = .ok ((), u) ∧
      u.history = (y.inspect w).log ++ [Event.opened true, Event.saved file,
        Event.report y.total (y.results w), Event.count (defectCount (y.inspected w).defectCounter)] := by
  subst hy
  obtain ⟨t, hdesk, -, hround, hrun⟩ := inspectFrame_inspects (w := w) hfits
  have hopens : t.opens = s.opens := congrArg Desk.opens hdesk
  obtain ⟨u, file, hu, hudesk, -⟩ := generateDefectStatCsv_reports (w := w) (s := t)
    (by rw [hopens]; exact hopen) (by rw [hround]; exact hten)
  have hframe := hrun u (by
    rw [Program.when, if_pos (decide_eq_true hdue)]
    exact hu)
  have hulog : u.history = _ := congrArg Desk.log hudesk
  have htlog : t.history = _ := congrArg Desk.log hdesk
  have hinsp : t.insp = s.desk.inspected w := congrArg Desk.insp hdesk
  refine ⟨u, file, hframe, ?_⟩
  rw [hulog, htlog, hround, hinsp]
  rfl

-- The total is updated right after the frame was picked up.
theorem Resting.reports_updated (h : Resting c x) (hready : x.ready = true) (n : Nat)
    {y : Desk} (hy : x.take.announce n = y)
    (hfits : y.insp.detectRound < y.total → y.insp.detectRound.toNat < 10)
    (hdue : y.insp.detectRound + 1 ≥ y.total) (hopen : w.openOk y.opens = true)
    (hten : y.total.toNat ≤ defaultDetectionRoundCnt) :
    ∃ file d, Platform.Reach c d ∧ d.state.history = (y.inspect w).log ++ [Event.opened true,
      Event.saved file, Event.report y.total (y.results w),
      Event.count (defectCount (y.inspected w).defectCounter)] ++ [Event.call .recv (.sleep 10)] := by
  have htakes := h.takes hready
  have hctrl := (Platform.enter_other c (i := Task.recv) (j := Task.ctrl) nofun
    (inspectFrame w >>= fun _ => rtThreadMdelay .recv 10)).trans h.ctrl
  obtain ⟨u, hu, -, -, hudesk⟩ := reach_announce (b := { c.enter Task.recv
    (inspectFrame w >>= fun _ => rtThreadMdelay .recv 10) with state := c.state.take })
    hctrl h.count n
  have hyu : u.desk = y := by rw [hudesk, ← hy, ← h.desk, ← desk_take]
  obtain ⟨v, file, hframe, hlog⟩ := inspectFrame_reports hyu hfits hdue hopen hten
  have hpass : (inspectFrame w >>= fun _ => rtThreadMdelay .recv 10).run u =
      .ok ((), (v.emit (Event.call .recv (.sleep 10))).emit (Event.call .recv .wake)) := by
    rw [Program.run_bind_ok hframe]
    rfl
  have hdone := Platform.Reach.of_run (P := inspector w) (i := Task.recv)
    (c := { c.enter Task.recv (inspectFrame w >>= fun _ => rtThreadMdelay .recv 10) with
      state := u }) (Platform.enter_self c Task.recv _) hpass
  refine ⟨file, _, htakes.trans (hu.trans hdone), ?_⟩
  have hsleep : Board.history
      ((v.emit (.call .recv (.sleep 10))).emit (.call .recv .wake)) =
      v.history ++ [Event.call .recv (.sleep 10)] :=
    congrArg Desk.log ((desk_quiet _ rfl).trans (desk_event v rfl))
  exact hsleep.trans (by rw [hlog])

theorem Resting.overruns (h : Resting c x) (hready : x.ready = true)
    (hover : ¬x.insp.detectRound.toNat < 10) (hbelow : x.insp.detectRound < x.total) :
    ∃ d, Platform.Reach c d ∧
      d.thread Task.recv = .fail (.lastDetect x.insp.detectRound.toNat) := by
  have hx := h.desk
  subst hx
  have hready : c.state.rx.frameReady = true := hready
  have hover : ¬c.state.insp.detectRound.toNat < 10 := hover
  have hbelow : c.state.insp.detectRound < c.state.round.detectionRoundCnt := hbelow
  refine Platform.Reach.of_entry_fault (P := inspector w) (i := Task.recv) (x := ()) h.recv ?_
  have hrun : (uartRecvThread w).run c.state =
      .error (.lastDetect c.state.insp.detectRound.toNat) := by
    simp [uartRecvThread, defectInspectMain, prepareInputData, parseOutputResult, setInsp,
      readTotal, Program.read, Program.write, Program.run, Program.when, hready, hbelow, storeLast,
      hover]
  exact hrun

theorem Resting.round (h : Resting c x) (hr : x.insp.detectRound = 0) (vs : List UInt8) (v : UInt8)
    (hlen : vs.length < 10) (hopen : w.openOk x.opens = true) :
    ∃ file d, Platform.Reach c d ∧ Resting d (x.round w vs v file) := by
  obtain ⟨d, hd, hannounced⟩ := h.announce (vs.length + 1)
  have hzero : (x.announce (vs.length + 1)).insp.detectRound.toNat = 0 := by
    rw [← UInt8.toNat_zero, ← hr]
    rfl
  have htotal : (x.announce (vs.length + 1)).total.toNat = vs.length + 1 := by
    rw [Desk.announce, UInt8.toNat_ofNat']
    exact Nat.mod_eq_of_lt (by omega)
  obtain ⟨e, he, hframes⟩ := hannounced.frames vs (by omega) (by omega)
  obtain ⟨f, hf, hlast⟩ := hframes.commit v
  have hround : ((x.announce (vs.length + 1)).frames w vs).insp.detectRound.toNat = vs.length := by
    rw [Desk.frames_round, UInt8.toNat_add, hzero, UInt8.toNat_ofNat', Nat.zero_add]
    omega
  have hnext : (((x.announce (vs.length + 1)).frames w vs).insp.detectRound + 1).toNat =
      vs.length + 1 := by
    rw [UInt8.toNat_add, hround]
    exact Nat.mod_eq_of_lt (by simp; omega)
  have hreport := hlast.reports rfl (fun _ => by rw [Desk.receive_insp]; omega) ?_ ?_ ?_
  · obtain ⟨file, g, hg, hrest⟩ := hreport
    exact ⟨file, g, hd.trans (he.trans (hf.trans hg)), hrest⟩
  · rw [Desk.receive_insp, Desk.receive_total, Desk.frames_total, ge_iff_le,
      UInt8.le_iff_toNat_le, hnext, htotal]
  · rw [Desk.receive, Desk.note_opens, Desk.frames_opens]
    exact hopen
  · rw [Desk.receive_total, Desk.frames_total, htotal]
    exact hlen

end
end FabricInspection
