import FabricInspection.Line.Runs
import FabricInspection.Line.Schedule

namespace FabricInspection

open Camera (Complete Streams brackets reel typed wired)
open Concurrency (Platform)
open Concurrency.Trace (Every every_nil every_snoc)
open Receiver (reference scaled wire)

namespace Line
variable {w : World}

-- The rounds the camera has announced, each image as it is after the way over the wire.
def rounds (l : Line w) : List (List Image) := (reel l.acts).rounds.map (List.map scaled)

-- Whole frames, rounds of ten images at most, each step in its time, and every open succeeds.
structure Served (l : Line w) : Prop where
  complete : Complete l.acts
  sizes : ∀ shots ∈ (reel l.acts).rounds, shots.length ≤ defaultDetectionRoundCnt
  timely : Every Timely l.events
  handed : NoOverwrite l.events
  opened : .opened false ∉ l.events

-- No image is under way any more.
structure Drained (l : Line w) : Prop where
  sent : (reel l.acts).left = []
  port1 : l.port1 = []
  recv : l.board.blocked Task.recv
  ready : l.board.state.rx.frameReady = false

variable {pin : Pin → Bool} {found : MotorId → Bool} {files : Nat → Option Camera.Gray} {l : Line w}

theorem rounds_lengths (l : Line w) :
    l.rounds.map List.length = (reel l.acts).rounds.map List.length := by
  simp [rounds]

theorem flatten_rounds (l : Line w) : l.rounds.flatten = (reel l.acts).rounds.flatten.map scaled :=
  List.map_flatten.symm

theorem Served.roundSizes (h : l.Served) (hs : Streams l.acts) : RoundSizes l.rounds := by
  intro images hi
  obtain ⟨shots, hshots, rfl⟩ := List.mem_map.mp hi
  rw [List.length_map]
  exact ⟨List.length_pos_iff.mpr (hs.full shots hshots), h.sizes shots hshots⟩

namespace Carried

theorem brackets_stream (h : Carried pin found files l) (hs : Streams l.acts) :
    told l.events <+: Batching.stream '(' ')' (l.rounds.map List.length) := by
  obtain ⟨given, hgiven, hg⟩ := h.given
  rw [rounds_lengths, ← hs.announced, ← hgiven, events, told_history]
  refine (told_heard h.board).trans (List.IsPrefix.trans ?_ (List.prefix_append _ _))
  rcases hg with ⟨ch, q, -, -, hg⟩ | ⟨-, hg⟩
  · exact ⟨_, hg⟩
  · exact hg ▸ List.prefix_rfl

theorem commits_rounds (h : Carried pin found files l) (hs : Streams l.acts) :
    commits l.events <+: l.rounds.flatten := by
  obtain ⟨read, hread, hd⟩ := h.read
  obtain ⟨imgs, hwired, hsent⟩ := hs.sent
  have hall : (reference (wire imgs)).1 = imgs.map scaled := by
    have := Receiver.reference_wire imgs []
    rw [List.append_nil, Receiver.reference_nil, List.append_nil] at this
    rw [this]
  have hprefix : (reference read).1 <+: imgs.map scaled := by
    rw [← hall, ← hwired, ← hread]
    exact Receiver.reference_mono (List.prefix_append _ _)
  rw [events, hd.commits, flatten_rounds, ← hsent, List.map_append]
  exact hprefix.trans (List.prefix_append _ _)

theorem scheduled (h : Carried pin found files l) (hs : l.Served) :
    Every (Scheduled l.rounds) l.events := by
  have hstreams := h.streams hs.complete
  obtain ⟨p, hp⟩ := reach_desk h.board
  exact FabricInspection.scheduled (hs.roundSizes hstreams) (h.brackets_stream hstreams)
    (h.commits_rounds hstreams) (tracked hp).tallied hs.timely

end Carried

theorem Served.orderly (h : l.Served) (hc : Carried pin found files l) :
    Every (Orderly l.rounds) l.events :=
  FabricInspection.orderly (hc.scheduled h) h.handed h.opened

-- Every image of an announced round has been committed.
theorem Drained.commits (h : l.Drained) (hc : Carried pin found files l) (hs : Streams l.acts) :
    commits l.events = l.rounds.flatten := by
  obtain ⟨read, hread, hd⟩ := hc.read
  obtain ⟨imgs, hwired, hsent⟩ := hs.sent
  rw [h.port1, List.append_nil, hwired] at hread
  rw [h.sent, List.append_nil] at hsent
  have hall := Receiver.reference_wire imgs []
  rw [List.append_nil, Receiver.reference_nil, List.append_nil] at hall
  rw [events, hd.commits, hread, hall, flatten_rounds, hsent]

end Line

section
variable {x y : Desk}

theorem timely_follows (h : x.Follows y) (hx : Every Timely x.log) : Every Timely y.log := by
  refine h.every (fun _ e he => ?_) hx
  cases e with
  | counted | announced | committed => cases he
  | _ => trivial

theorem timely_announce (h : Every Timely x.log) (hc : announcements x.log ≤ closings x.log) :
    Every Timely (x.announce 1).log := by
  have hlog : (x.announce 1).log = x.log ++ [.counted] ++ [.announced 1] := rfl
  rw [hlog]
  refine every_snoc.mpr ⟨every_snoc.mpr ⟨h, hc⟩, ?_⟩
  rw [Timely, announcements_quiet rfl, closings_quiet rfl]
  exact hc

theorem timely_receive (h : Every Timely x.log)
    (hc : (commits x.log).length < (totals x.log).sum) (image : Image) :
    Every Timely (x.receive image).log :=
  every_snoc.mpr ⟨h, hc⟩

end

-- Two rounds of one image.
def twoImages (f g : List Text) : Desk :=
  (Desk.init.round shadeWorld [] 1 f).round shadeWorld [] 3 g

theorem timely_twoImages (f g : List Text) : Every Timely (twoImages f g).log := by
  have h₁ := timely_announce (x := Desk.init) every_nil le_rfl
  have h₂ := timely_receive h₁ (by decide : 0 < 1) (plain 1)
  have h₃ := timely_follows (Desk.report_follows shadeWorld _ f) h₂
  have h₄ := timely_announce h₃ (le_refl 1)
  have h₅ := timely_receive h₄ (by decide : 1 < 2) (plain 3)
  exact timely_follows (Desk.report_follows shadeWorld _ g) h₅

theorem noOverwrite_twoImages (f g : List Text) : NoOverwrite (twoImages f g).log := by
  have h₁ := noOverwrite_receive (noOverwrite_announce (x := Desk.init) every_nil 1) rfl (plain 1)
  have h₂ := noOverwrite_follows (Desk.report_follows shadeWorld _ f) h₁
  have h₃ := noOverwrite_receive (noOverwrite_announce h₂ 1) rfl (plain 3)
  exact noOverwrite_follows (Desk.report_follows shadeWorld _ g) h₃

-- The pixels of a camera image of one shade all become the same byte.
theorem scaled_shade {v b : UInt8} (h : Camera.mapped v = (b.toNat : Int)) :
    scaled (Camera.shade v) = plain b := by
  have hpayload : Camera.payload (Camera.shade v) = List.replicate 1024 b := by
    refine List.eq_replicate_iff.mpr ⟨Camera.payload_length _, fun d hd => ?_⟩
    have hm := List.mem_map_of_mem (f := fun b : UInt8 => (b.toNat : Int)) hd
    rw [Camera.payload_toNat] at hm
    obtain ⟨p, hp, hd⟩ := List.mem_map.mp hm
    obtain ⟨y, -, hp⟩ := List.mem_flatMap.mp hp
    obtain ⟨x, -, rfl⟩ := List.mem_map.mp hp
    exact UInt8.toNat_inj.mp (Int.natCast_inj.mp (hd.symm.trans h))
  rw [scaled, hpayload]
  rfl

theorem mapped_dark : Camera.mapped 2 = ((1 : UInt8).toNat : Int) := by
  decide +kernel

theorem mapped_light : Camera.mapped 6 = ((3 : UInt8).toNat : Int) := by
  decide +kernel

theorem scaled_dark : scaled (Camera.shade 2) = plain 1 := scaled_shade mapped_dark

theorem scaled_light : scaled (Camera.shade 6) = plain 3 := scaled_shade mapped_light

-- The only image of a round has arrived.
theorem uartRecvThread_round {x : Desk} {b : UInt8} {s : Board} (hready : s.rx.frameReady = true)
    (hdesk : s.desk = (x.announce 1).receive (plain b)) (hr : x.insp.detectRound = 0)
    (hopen : w.openOk x.opens = true) :
    ∃ u file, (uartRecvThread w).run s = .ok ((), u) ∧ u.desk = x.round w [] b file ∧
      u.rx.frameStart = s.rx.frameStart ∧ u.round = s.round := by
  have hzero : s.insp.detectRound = 0 := (congrArg (fun y => y.insp.detectRound) hdesk).trans hr
  have htotal : s.round.detectionRoundCnt = 1 := congrArg Desk.total hdesk
  have hopens : s.opens = x.opens := congrArg Desk.opens hdesk
  have hdue : s.insp.detectRound + 1 ≥ s.round.detectionRoundCnt := by
    rw [hzero, htotal]
    decide
  obtain ⟨u, file, hu, hudesk, hstart, hround⟩ := uartRecvThread_reports (w := w) (s := s) hready
    (fun _ => by rw [hzero]; decide) hdue (hopens ▸ hopen) (by rw [htotal]; decide)
  exact ⟨u, file, hu, by rw [hudesk, hdesk]; rfl, hstart, hround⟩

namespace Line

-- Camera and board are between two rounds, and nothing is on the wires.
structure Waiting (l : Line w) (x : Desk) : Prop where
  phase : l.phase = .count
  port3 : l.port3 = []
  port1 : l.port1 = []
  board : Resting l.board x

theorem reach_round {x : Desk} (hl : Reach (boot w pin found files) l) (h : l.Waiting x)
    (hr : x.insp.detectRound = 0) (hopen : w.openOk x.opens = true) {v b : UInt8}
    (hv : Camera.mapped v = (b.toNat : Int)) :
    ∃ file m, Reach l m ∧ m.Waiting (x.round w [] b file) ∧
      m.acts = l.acts ++ Camera.Session.roundActs v := by
  obtain ⟨phase, s, port3, port1, board⟩ := l
  obtain ⟨rfl, rfl, rfl, hrest⟩ := h
  obtain ⟨t, hround, hacts⟩ := Camera.Session.path_round s v
  obtain ⟨es, hes, hcamera⟩ := reach_path hround [] [] board
  obtain rfl : es = Camera.Session.roundActs v := List.append_cancel_left (hes.symm.trans hacts)
  obtain ⟨s₁, hhears, hrx, hear⟩ := reach_hears (hl.trans hcamera) hrest.ctrl
  have hannounced : s₁.ear = (0, x.announce 1) := by
    have hbrackets : (typed (Camera.Session.roundActs v)).filter isBracket = ['(', ')'] := rfl
    rw [hear, foldl_hear, List.nil_append, hbrackets, Board.ear, hrest.count, hrest.desk]
    rfl
  have hidle : s₁.rx.frameStart = false := (congrArg Receiver.frameStart hrx).trans hrest.between
  obtain ⟨rx, hread, hstart, hready, himage⟩ :=
    Receiver.uartRxBytes_frame hidle (Camera.payload_length (Camera.shade v))
  have hwire : [] ++ wired (Camera.Session.roundActs v) =
      frameBytes (Camera.payload (Camera.shade v)) := by
    rw [List.nil_append]
    exact List.append_nil _
  have hreads := reach_reads (l := ⟨.count, t, [], [] ++ wired (Camera.Session.roundActs v),
    { board with state := s₁ }⟩) (by rw [hwire]; exact hread)
  let s₂ : Board := { s₁ with rx := rx, log := s₁.log ++ [.committed (plain b)] }
  have himage : rx.imageBuffer = plain b := himage.trans (scaled_shade hv)
  have hdesk : s₂.desk = (x.announce 1).receive (plain b) := by
    have hs₁ : s₁.desk = x.announce 1 := congrArg Prod.snd hannounced
    rw [← hs₁]
    exact desk_received s₁ hready himage
  obtain ⟨u, file, hu, hudesk, hustart, huround⟩ := uartRecvThread_round hready hdesk hr hopen
  have hpass := reach_pass (l := ⟨.count, t, [], [], { board with state := s₂ }⟩) hrest.recv hu
  refine ⟨file, ⟨.count, t, [], [], { board with state := u }⟩, ?_, ⟨rfl, rfl, rfl, ?_⟩, hacts⟩
  · have hcommitted : [Receiver.clampImage (Camera.payload (Camera.shade v))] = [plain b] :=
      congrArg (fun image => [image]) (scaled_shade hv)
    rw [hcommitted] at hreads
    exact hcamera.trans (hhears.trans (hreads.trans hpass))
  · refine ⟨hrest.ctrl, hrest.recv, hustart.trans hstart, ?_, hudesk⟩
    rw [huround]
    exact congrArg Prod.fst hannounced

-- The camera sends a dark image and, in the next round, a lighter one.
theorem reach_twoImages : ∃ f g l,
    Reach (boot shadeWorld (fun _ => true) (fun _ => true) fun _ => none) l ∧
      l.Waiting (twoImages f g) ∧
      l.acts = Camera.Session.roundActs 2 ++ Camera.Session.roundActs 6 := by
  have hboot : (boot shadeWorld (fun _ => true) (fun _ => true) fun _ => none).Waiting Desk.init :=
    ⟨rfl, rfl, rfl, resting_start ..⟩
  obtain ⟨f, l, hl, hfirst, hacts⟩ := reach_round .refl hboot rfl rfl mapped_dark
  obtain ⟨g, m, hm, hsecond, hmore⟩ := reach_round hl hfirst rfl rfl mapped_light
  refine ⟨f, g, m, hl.trans hm, hsecond, ?_⟩
  rw [hmore, hacts]
  rfl

end Line

theorem twoImages_rounds {l : Line shadeWorld}
    (hacts : l.acts = Camera.Session.roundActs 2 ++ Camera.Session.roundActs 6) :
    l.rounds = [[scaled (Camera.shade 2)], [scaled (Camera.shade 6)]] := by
  rw [Line.rounds, hacts]
  rfl

theorem served_twoImages {l : Line shadeWorld} {f g : List Text} (h : l.Waiting (twoImages f g))
    (hacts : l.acts = Camera.Session.roundActs 2 ++ Camera.Session.roundActs 6) : l.Served := by
  have hlog : l.events = (twoImages f g).log := congrArg Desk.log h.board.desk
  refine ⟨fun bs hbs => ?_, fun shots hm => ?_, hlog ▸ timely_twoImages f g,
    hlog ▸ noOverwrite_twoImages f g, ?_⟩
  · rw [hacts] at hbs
    have hsent : bs = Camera.frame (Camera.shade 2) ∨ bs = Camera.frame (Camera.shade 6) := by
      simpa [Camera.Session.roundActs, Camera.Session.shotActs, Camera.Session.sentActs] using hbs
    rcases hsent with rfl | rfl <;> simp [Camera.frame]
  · rw [hacts] at hm
    have hrounds : (reel (Camera.Session.roundActs 2 ++ Camera.Session.roundActs 6)).rounds =
        [[Camera.shade 2], [Camera.shade 6]] := rfl
    rw [hrounds] at hm
    rcases List.mem_pair.mp hm with rfl | rfl <;> exact (by decide : 1 ≤ 10)
  · rw [hlog]
    simp [twoImages, Desk.round, Desk.frames, Desk.init]

theorem line_reports_captures (w : World) (pin : Pin → Bool) (found : MotorId → Bool)
    (files : Nat → Option Camera.Gray) (l : Line w)
    (h : Line.Reach (Line.boot w pin found files) l) (hs : l.Served) :
    (∀ f, l.board.thread Task.recv ≠ .fail f) ∧ verdicts l.events <+: transcript w l.rounds := by
  have hc := Line.carried h
  have hsizes := hs.roundSizes (hc.streams hs.complete)
  have horderly := hs.orderly hc
  obtain ⟨p, hp⟩ := reach_desk hc.board
  have hrun := running hsizes hp horderly
  refine ⟨fun f hf => ?_, verdicts_prefix hrun.progress (inputs_commits hp horderly)⟩
  have hcrash := reach_desk_fault hc.board hf
  exact (balanced hcrash hrun.regular).shape

theorem line_reports_captures_two_rounds : ∃ l : Line shadeWorld,
    l.rounds = [[scaled (Camera.shade 2)], [scaled (Camera.shade 6)]] ∧
      verdicts l.events <+: transcript shadeWorld [[plain 1], [plain 3]] := by
  obtain ⟨f, g, l, h, hwaits, hacts⟩ := Line.reach_twoImages
  have hrounds := twoImages_rounds hacts
  obtain ⟨-, hprefix⟩ := line_reports_captures _ _ _ _ l h (served_twoImages hwaits hacts)
  rw [hrounds, scaled_dark, scaled_light] at hprefix
  exact ⟨l, hrounds, hprefix⟩

theorem drained_line_reported (w : World) (pin : Pin → Bool) (found : MotorId → Bool)
    (files : Nat → Option Camera.Gray) (l : Line w)
    (h : Line.Reach (Line.boot w pin found files) l) (hs : l.Served) (hd : l.Drained) :
    verdicts l.events = transcript w l.rounds ∧ l.board.state.insp.detectRound = 0 := by
  have hc := Line.carried h
  have hstreams := hc.streams hs.complete
  have hsizes := hs.roundSizes hstreams
  have horderly := hs.orderly hc
  have hidle := reach_desk_idle hc.board hd.recv
  have hrun := running hsizes hidle horderly
  have hin := inputs_commits hidle horderly
  have hbalanced := balanced hidle hrun.regular
  -- The thread has classified whatever was committed.
  have hall : (inputs l.events).length = (l.rounds.take l.rounds.length).flatten.length := by
    have hcount := (inStep hidle hs.handed).count
    have hwaits : Phase.idle.waits l.board.state.desk = false := hd.ready
    rw [hwaits] at hcount
    have hinputs : inputs l.events ++ [] = copies l.events := (inputs_pending hidle).2 rfl
    rw [List.append_nil] at hinputs
    rw [List.take_length, ← hd.commits hc hstreams, hinputs]
    exact (length_copies hidle).trans hcount.symm
  obtain ⟨hclosed, hnil⟩ := rounds_closed hsizes hrun.progress hin hbalanced.shape le_rfl hall
  have hsaid := hrun.progress.said
  have howed : (ledger l.board.state.desk.log).owed = false := hbalanced.owed
  rw [howed, hnil, hclosed, List.take_length, verdictsOf, List.map_nil, List.append_nil] at hsaid
  have hgathered : Gathered w l.board.state.insp (ledger l.board.state.desk.log).batch :=
    hbalanced.stage (ledger_clean hs.opened).1
  rw [hnil] at hgathered
  exact ⟨(List.append_nil _).symm.trans hsaid, (gathered_cleared hgathered).1⟩

theorem drained_line_reported_two_rounds : ∃ l : Line shadeWorld,
    l.rounds = [[scaled (Camera.shade 2)], [scaled (Camera.shade 6)]] ∧
      verdicts l.events =
        [.classified (plain 1) 1, .report 1 ["dirt"],
          .count [("crack", 0), ("dirt", 1), ("glue", 0), ("line", 0), ("oil", 0),
            ("no defect", 0), ("wear", 0)],
          .classified (plain 3) 3, .report 1 ["line"],
          .count [("crack", 0), ("dirt", 0), ("glue", 0), ("line", 1), ("oil", 0),
            ("no defect", 0), ("wear", 0)]] := by
  obtain ⟨f, g, l, h, hwaits, hacts⟩ := Line.reach_twoImages
  have hrounds := twoImages_rounds hacts
  have hdrained : l.Drained := ⟨by rw [hacts]; rfl, hwaits.port1, hwaits.board.recv,
    congrArg Desk.ready hwaits.board.desk⟩
  obtain ⟨hall, -⟩ :=
    drained_line_reported _ _ _ _ l h (served_twoImages hwaits hacts) hdrained
  rw [hrounds, scaled_dark, scaled_light] at hall
  have h₁ : classOf shadeWorld (plain 1) = 1 := classOf_plain 1
  have h₃ : classOf shadeWorld (plain 3) = 3 := classOf_plain 3
  simp only [transcript, List.flatMap_cons, List.flatMap_nil, roundOf, verdictsOf, reportOf,
    countOf, countsOf, classes, List.map_cons, List.map_nil, h₁, h₃] at hall
  exact ⟨l, hrounds, hall⟩

end FabricInspection
