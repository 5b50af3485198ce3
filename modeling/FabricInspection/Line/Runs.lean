import FabricInspection.Inspection.Passes
import FabricInspection.Line.Carriage
import FabricInspection.Motor.Contract

namespace FabricInspection

open Camera (Session typed wired)
open Concurrency (Machine Platform Program)
open Concurrency.Program (Keeps)

-- What the control thread makes of a character: image_count and what the inspection sees.
def hear (p : UInt8 × Desk) (ch : Char) : UInt8 × Desk :=
  if ch = '(' then (p.1 + 1, p.2.note .counted)
  else if ch = ')' then (0, { p.2.note (.announced p.1) with total := p.1 })
  else p

def Board.ear (s : Board) : UInt8 × Desk := (s.round.imageCount, s.desk)

theorem MotorOnly.refl (s : Board) : MotorOnly s s := silent rfl rfl rfl rfl rfl

theorem run_keeps {r : Board → Board → Prop} (hrefl : ∀ s, r s s)
    (htrans : ∀ {s t u}, r s t → r t u → r s u) {α : Type} {p : Prog α} {s t : Board} {a : α}
    (h : Keeps r p) (hr : p.run s = .ok (a, t)) : r s t := by
  induction p generalizing s with
  | ret b =>
    cases hr
    exact hrefl _
  | fail e => cases hr
  | act f k ih => exact htrans (h s).1 (ih s (h s).2 hr)

theorem uartCtrlThread_heard {ch : Char} {s t : Board}
    (h : (uartCtrlThread (some ch)).run s = .ok ((), t)) :
    t.rx = s.rx ∧ t.ear = hear s.ear ch := by
  by_cases ho : ch = '('
  · subst ho
    cases h
    refine ⟨rfl, Prod.ext rfl ?_⟩
    have hcommand : (s.emit (.command '(')).desk = s.desk := desk_quiet s rfl
    have hcounted := desk_log (s := s.emit (.command '(')) (e := .counted)
      (t := { (s.emit (.command '(')).emit .counted with
        round := { s.round with imageCount := s.round.imageCount + 1 } }) rfl rfl
    refine (desk_quiet _ (e := .handled '(') rfl).trans (hcounted.trans ?_)
    exact congrArg (Desk.note · .counted) hcommand
  by_cases hc : ch = ')'
  · subst hc
    obtain ⟨u, hu, hrx, hzero, hdesk⟩ := uartCtrlThread_announces s
    rw [hu] at h
    cases h
    exact ⟨hrx, Prod.ext hzero hdesk⟩
  have hmotor : Keeps MotorOnly (uartCtrlThread (some ch)) :=
    Program.keeps_seq (MotorOnly.keeps_emit rfl) (Program.keeps_seq
      (MotorOnly.frame.keeps_uartCtrlSwitch ho hc) (MotorOnly.keeps_emit rfl))
  have hm := run_keeps MotorOnly.refl MotorOnly.trans hmotor h
  refine ⟨hm.rx, ?_⟩
  rw [hear, if_neg ho, if_neg hc, Board.ear, Board.ear, hm.round, hm.desk]

theorem foldl_hear (p : UInt8 × Desk) (cs : List Char) :
    cs.foldl hear p = (cs.filter isBracket).foldl hear p := by
  induction cs generalizing p with
  | nil => rfl
  | cons ch cs ih =>
    by_cases hb : isBracket ch
    · rw [List.filter_cons_of_pos hb, List.foldl_cons, List.foldl_cons, ih]
    · have hne : ch ≠ '(' ∧ ch ≠ ')' := by simpa [isBracket] using hb
      rw [List.filter_cons_of_neg hb, List.foldl_cons, ih, hear, if_neg hne.1, if_neg hne.2]

theorem desk_received (s : Board) {rx : Receiver} {image : Image} (hready : rx.frameReady = true)
    (himage : rx.imageBuffer = image) :
    Board.desk { s with rx := rx, log := s.log ++ [.committed image] } = s.desk.receive image := by
  rw [desk_log (s := s) (e := .committed image) rfl rfl, hready, himage]
  rfl

theorem uartRecvThread_reports {w : World} {s : Board} (hready : s.rx.frameReady = true)
    (hfits : s.insp.detectRound < s.round.detectionRoundCnt → s.insp.detectRound.toNat < 10)
    (hdue : s.desk.insp.detectRound + 1 ≥ s.desk.total) (hopen : w.openOk s.opens = true)
    (hten : s.round.detectionRoundCnt.toNat ≤ defaultDetectionRoundCnt) :
    ∃ u file, (uartRecvThread w).run s = .ok ((), u) ∧ u.desk = (s.desk.report w file).rest ∧
      u.rx.frameStart = s.rx.frameStart ∧ u.round = s.round := by
  obtain ⟨t, hdesk, hstart, hround, hrun⟩ := uartRecvThread_handles (w := w) hready hfits
  have hopens : t.opens = s.opens := congrArg Desk.opens hdesk
  obtain ⟨u, file, hu, hudesk, hustart, huround⟩ := generateDefectStatCsv_reports (w := w) (s := t)
    (by rw [hopens]; exact hopen) (by rw [hround]; exact hten)
  have hpass := hrun u (by
    rw [Program.when, if_pos (decide_eq_true hdue)]
    exact hu)
  have hinsp : t.insp = s.desk.inspected w := congrArg Desk.insp hdesk
  have hlog : t.history = (s.desk.handle w).log := congrArg Desk.log hdesk
  refine ⟨_, file, hpass, ?_, hustart.trans hstart, huround.trans hround⟩
  rw [desk_quiet _ rfl, desk_event u rfl, hudesk, hdesk, hopens, hround, hinsp, hlog]
  rfl

namespace Line
variable {w : World} {pin : Pin → Bool} {found : MotorId → Bool}
  {files : Nat → Option Camera.Gray} {l : Line w}

-- The camera goes on, and what it puts on its lines waits there.
theorem reach_path {p q : Camera.Statement} {s t : Session} (h : Session.Path (p, s) (q, t))
    (port3 : List Char) (port1 : List UInt8) (b : Config w) :
    ∃ es, t.acts = s.acts ++ es ∧
      Reach ⟨p, s, port3, port1, b⟩ ⟨q, t, port3 ++ typed es, port1 ++ wired es, b⟩ := by
  generalize ha : (q, t) = a at h
  induction h generalizing q t with
  | refl =>
    cases ha
    refine ⟨[], (List.append_nil _).symm, ?_⟩
    simp only [typed, wired, List.filterMap_nil, List.flatten_nil, List.append_nil]
    exact .refl
  | @tail m _ _ hs ih =>
    subst ha
    obtain ⟨e, hs⟩ := hs
    obtain ⟨es, hes, hreach⟩ := ih rfl
    have hstep := Step.camera (w := w)
      (l := ⟨m.1, m.2, port3 ++ typed es, port1 ++ wired es, b⟩) hs
    obtain ⟨ds, hds⟩ := Session.acts_mono hs
    have hdrop : t.acts.drop m.2.acts.length = ds := by
      rw [← hds]
      exact List.drop_left
    refine ⟨es ++ ds, ?_, hreach.tail ?_⟩
    · rw [← hds, hes, List.append_assoc]
    · rw [Camera.typed_append, Camera.wired_append, ← List.append_assoc, ← List.append_assoc,
        ← hdrop]
      exact hstep

theorem reach_run {i : Task} {p : Prog Unit} {s : Board} (hp : l.board.thread i = p)
    (h : p.run l.board.state = .ok ((), s)) :
    Reach l { l with board := { l.board.enter i (.ret ()) with state := s } } := by
  induction p generalizing l with
  | ret a =>
    cases h
    rw [Platform.enter_same (P := inspector w) l.board hp]
  | fail e => cases h
  | act f k ih =>
    have hs := Platform.step_run (P := inspector w) hp
    have hself : (l.board.enter i (k l.board.state)).thread i = k l.board.state :=
      Platform.enter_self ..
    have hnext := ih l.board.state
      (l := { l with board := { l.board.enter i (k l.board.state) with state := f l.board.state } })
      hself h
    have htwice : (l.board.enter i (k l.board.state)).enter i (.ret ()) = l.board.enter i (.ret ()) :=
      Platform.enter_enter ..
    refine .head (.run i hs) ?_
    exact (congrArg (fun b : Config w => Reach _ { l with board := { b with state := s } }) htwice).mp
      hnext

theorem reach_entered {m : Line w} {i : Task} {p : Prog Unit} {s : Board}
    (hs : Step l { m with board := m.board.enter i p }) (hb : m.board.blocked i)
    (h : p.run m.board.state = .ok ((), s)) :
    Reach l { m with board := { m.board with state := s } } := by
  have hself : (m.board.enter i p).thread i = p := Platform.enter_self ..
  have hrun := reach_run (l := { m with board := m.board.enter i p }) hself h
  have hsame : (m.board.enter i p).enter i (.ret ()) = m.board :=
    (Platform.enter_enter ..).trans (Platform.enter_same (P := inspector w) m.board hb)
  refine .head hs ?_
  exact (congrArg (fun b : Config w => Reach _ { m with board := { b with state := s } }) hsame).mp
    hrun

theorem reach_pass {s : Board} (hb : l.board.blocked Task.recv)
    (h : (uartRecvThread w).run l.board.state = .ok ((), s)) :
    Reach l { l with board := { l.board with state := s } } :=
  reach_entered (.poll (Platform.step_start (P := inspector w) (i := Task.recv) () hb)) hb h

-- The control thread gets through whatever waits for it.
theorem reach_hears (hl : Reach (boot w pin found files) l) (hb : l.board.blocked Task.ctrl) :
    ∃ s : Board, Reach l { l with port3 := [], board := { l.board with state := s } } ∧
      s.rx = l.board.state.rx ∧ s.ear = l.port3.foldl hear l.board.state.ear := by
  obtain ⟨phase, camera, port3, port1, board⟩ := l
  induction port3 generalizing board with
  | nil => exact ⟨board.state, .refl, rfl, rfl⟩
  | cons ch cs ih =>
    cases hr : (uartCtrlThread (some ch)).run board.state with
    | error f =>
      obtain ⟨d, hd, hf⟩ := Platform.Reach.of_entry_fault (P := inspector w) (i := Task.ctrl)
        (x := some ch) hb hr
      exact absurd hf (ctrl_never_faults ((carried hl).board.trans hd) f)
    | ok q =>
      obtain ⟨⟨⟩, t⟩ := q
      have hstart := Platform.step_start (P := inspector w) (i := Task.ctrl) (some ch) hb
      have hone : Reach ⟨phase, camera, ch :: cs, port1, board⟩
          ⟨phase, camera, cs, port1, { board with state := t }⟩ :=
        reach_entered (m := ⟨phase, camera, cs, port1, board⟩) (.dispatch rfl hstart) hb hr
      obtain ⟨hrx, hear⟩ := uartCtrlThread_heard hr
      obtain ⟨s, hs, hsrx, hsear⟩ := ih { board with state := t } (hl.trans hone) hb
      exact ⟨s, hone.trans hs, hsrx.trans hrx, hsear.trans (by rw [hear]; rfl)⟩

-- And the decoder reads whatever waits for it.
theorem reach_reads {rx : Receiver} {images : List Image}
    (h : l.board.state.rx.uartRxBytes l.port1 = .ok (rx, images)) :
    Reach l { l with
      port1 := []
      board := { l.board with
        state := { l.board.state with
          rx := rx
          log := l.board.state.log ++ images.map .committed } } } := by
  obtain ⟨phase, camera, port3, port1, board⟩ := l
  induction port1 generalizing board images with
  | nil =>
    cases h
    simpa using Relation.ReflTransGen.refl
  | cons d ds ih =>
    cases hd : board.state.rx.uartRxByte d with
    | error f => simp [Receiver.uartRxBytes, hd, bind, Except.bind] at h
    | ok p =>
      obtain ⟨rx₁, image⟩ := p
      simp only at h
      rw [Receiver.uartRxBytes_cons hd] at h
      cases hs : rx₁.uartRxBytes ds with
      | error f => simp [hs, Except.map] at h
      | ok q =>
        simp only [hs, Except.map, Except.ok.injEq, Prod.mk.injEq] at h
        obtain ⟨rfl, rfl⟩ := h
        have hstep : Platform.step board (.interrupt (Irq.uart3 d)) =
            some { board with state := board.state.received rx₁ image } := by
          simp [Platform.step, inspector, Board.interrupt, hd, Except.map]
        have hrx : (board.state.received rx₁ image).rx = rx₁ := by cases image <;> rfl
        refine .head (.receive rfl hstep) ?_
        have hrest := ih { board with state := board.state.received rx₁ image }
          (by rw [hrx]; exact hs)
        cases image with
        | none => exact hrest
        | some image => simpa [Board.received, List.append_assoc] using hrest

end Line
end FabricInspection
