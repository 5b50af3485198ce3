import FabricInspection.Camera.Detection
import FabricInspection.Camera.Transmission
import FabricInspection.Batching.Announcements

namespace FabricInspection.Camera

open Concurrency (Machine)
open Concurrency.Trace (Every every_nil every_snoc)

-- What the camera does to the world around it, oldest first in a log.
inductive Act where
  | restarted
  | put (o : Output)
  | servo (angle : Int)
  | saved (num : Nat) (img : Gray)

-- How the calls inside one send_frame go: whether the file loads, the drain loop, the writes.
structure Transfer where
  reads : Bool
  drainRaises : Bool
  head : Write
  data : Write
  tail : Write

def Transfer.attempt (t : Transfer) (file : Option Gray) : Attempt :=
  ⟨if t.reads then file else none, t.drainRaises, t.head, t.data, t.tail⟩

def Transfer.succeeds (t : Transfer) : Bool :=
  t.reads && !t.drainRaises && (t.head.full 1 && !t.head.raises) &&
    (t.data.full 1024 && !t.data.raises) && (t.tail.full 2 && !t.tail.raises)

-- What the outside answers to a statement, the captured window and the transfer included.
structure Scene extends Sense where
  window : Window
  transfer : Transfer

-- The program with its files: `compressed k` is compressed/{k}.pgm, `i` the variable of that name.
structure Session where
  vars : Detection
  i : Nat
  compressed : Nat → Option Gray
  acts : List Act

namespace Session

def act (s : Session) (es : List Act) : Session := { s with acts := s.acts ++ es }

-- What a statement does besides its variables. A capture whose window cannot be scaled ends the
-- program.
def effect (e : Scene) (s : Session) : Statement → Option Session
  | .numbers => some { s.act [.restarted] with i := 0 }
  | .callback => some (s.act [.servo 0])
  | .waiting => some (if e.serial then s.act [.put (.uart3 'u')] else s)
  | .capture => do
    let scaled ← scale e.window
    let num := s.vars.imageNum + 1
    some { s.act [.put (.uart3 's'), .servo (-70), .servo 90, .servo 0, .saved num scaled.image] with
      compressed := Function.update s.compressed num (some scaled.image) }
  | .disarm => some (s.act [.put (.uart3 'u')])
  | .door =>
    some (if e.low ∧ 2 ≤ s.vars.stableLow + 1 then s.act [.put (.uart3 's')] else s)
  | .leave => some (s.act [.put (.uart3 's')])
  | .transmit =>
    if s.vars.imageTransNum ≤ s.vars.imageNum then
      let announcement := announceLoop s.vars.imageNum s.i
      let attempt := e.transfer.attempt (s.compressed s.vars.imageTransNum)
      let out := Output.uart3 's' :: announcement.2 ++ [Output.uart1 (sendFrame attempt)]
      some { s.act (out.map Act.put) with i := announcement.1 }
    else some (s.act [.put (.uart3 's')])
  | _ => some s

def statement (e : Scene) (s : Session) (p : Statement) : Option (Statement × Session) := do
  let u ← s.effect e p
  let next := s.vars.statement e.toSense p
  some (next.1, { u with vars := next.2 })

end Session

-- `files` is what an earlier run of the program has left on the card.
def session (files : Nat → Option Gray) : Machine Statement Session where
  start := .count
  init := ⟨.init, 0, files, []⟩
  own p s q t := ∃ e, s.statement e p = some (q, t)
  env s t := s.vars.installed = true ∧ t = { s with vars := s.vars.tick }

-- What the log says: the last motor command, the images of this round and how many of them went
-- out, the announcement of this round, and the rounds that were announced.
structure Reel where
  moving : Bool
  shots : List Gray
  sent : Nat
  brackets : List Char
  rounds : List (List Gray)

namespace Reel

def init : Reel := ⟨false, [], 0, [], []⟩

def step (r : Reel) : Act → Reel
  | .restarted => { r with shots := [], sent := 0, brackets := [] }
  | .put (.uart3 c) =>
    if c = 'u' then { r with moving := true }
    else if c = 's' then { r with moving := false }
    else if c = ')' then { r with brackets := r.brackets ++ [c], rounds := r.rounds ++ [r.shots] }
    else { r with brackets := r.brackets ++ [c] }
  | .put (.uart1 _) => { r with sent := r.sent + 1 }
  | .servo _ => r
  | .saved _ img => { r with shots := r.shots ++ [img] }

end Reel

def reel (acts : List Act) : Reel := acts.foldl Reel.step .init

def announcement (n : Nat) : List Char := Batching.announce '(' ')' n

-- The fabric is handled and images are sent only while the last command was to stop.
def Still (pre : List Act) : Act → Prop
  | .servo _ | .saved _ _ | .put (.uart1 _) => (reel pre).moving = false
  | _ => True

-- The images of a round go out in their order, each once and after their announcement.
def Faithful (pre : List Act) : Act → Prop
  | .saved num _ => num = (reel pre).shots.length + 1
  | .put (.uart1 bs) => (reel pre).brackets = announcement (reel pre).shots.length ∧
      ∃ img t, (reel pre).shots[(reel pre).sent]? = some img ∧
        bs = sendFrame (Transfer.attempt t (some img))
  | .restarted => (reel pre).sent = (reel pre).shots.length
  | _ => True

-- A pass of the transmission in this scene puts the next image of the round on uart1.
def SendsNext (pre : List Act) (e : Scene) (es : List Act) : Prop :=
  ∃ img quiet, (reel pre).shots[(reel pre).sent]? = some img ∧ (∀ bs, .put (.uart1 bs) ∉ quiet) ∧
    es = quiet ++ [.put (.uart1 (sendFrame (e.transfer.attempt (some img))))] ∧
    (e.transfer.succeeds = true → sendFrame (e.transfer.attempt (some img)) = frame img)

theorem Transfer.sendFrame_succeeds {t : Transfer} (h : t.succeeds = true) (img : Gray) :
    sendFrame (t.attempt (some img)) = frame img := by
  simp only [succeeds, Bool.and_eq_true, Bool.not_eq_true'] at h
  obtain ⟨⟨⟨⟨hreads, hdrain⟩, hhead⟩, hdata⟩, htail⟩ := h
  have hframe : (t.attempt (some img)).frame? = some (frame img) := by
    simp [Attempt.frame?, Transfer.attempt, hreads, hdrain, hhead, hdata, htail]
  exact ((sendFrame_frame? _).1 _ hframe).1

theorem reel_append (acts es : List Act) : reel (acts ++ es) = es.foldl Reel.step (reel acts) :=
  List.foldl_append

theorem reel_snoc (acts : List Act) (e : Act) : reel (acts ++ [e]) = (reel acts).step e :=
  reel_append acts [e]

namespace Session

-- The image files of this round hold its images.
def Filed (s : Session) : Prop :=
  ∀ k img, (reel s.acts).shots[k]? = some img → s.compressed (k + 1) = some img

structure Looking (s : Session) : Prop where
  num : s.vars.imageNum = (reel s.acts).shots.length
  trans : s.vars.imageTransNum = 1
  sent : (reel s.acts).sent = 0
  brackets : (reel s.acts).brackets = []
  i : s.i = 0
  filed : s.Filed

structure Sending (s : Session) : Prop where
  num : s.vars.imageNum = (reel s.acts).shots.length
  trans : s.vars.imageTransNum = (reel s.acts).sent + 1
  sent : (reel s.acts).sent ≤ (reel s.acts).shots.length
  first : (reel s.acts).sent = 0 → (reel s.acts).brackets = [] ∧ s.i = 0
  later : 0 < (reel s.acts).sent →
    (reel s.acts).brackets = announcement (reel s.acts).shots.length ∧ s.i = s.vars.imageNum
  filed : s.Filed

def Rests (s : Session) : Prop := (reel s.acts).moving = false

def Stage : Statement → Session → Prop
  | .count, s | .flag, s | .numbers, s =>
    s.Rests ∧ (reel s.acts).sent = (reel s.acts).shots.length
  | .callback, s | .waiting, s | .disarm, s => s.Rests ∧ s.Looking
  | .transmit, s => s.Rests ∧ s.Sending
  | _, s => s.Looking

variable {s t u : Session} {e : Scene} {p q : Statement}

theorem statement_cases (h : s.statement e p = some (q, t)) :
    ∃ u, s.effect e p = some u ∧ q = (s.vars.statement e.toSense p).1 ∧
      t = { u with vars := (s.vars.statement e.toSense p).2 } := by
  rw [statement, Option.bind_eq_bind, Option.bind_eq_some_iff] at h
  obtain ⟨u, hu, hn⟩ := h
  obtain ⟨rfl, rfl⟩ := Prod.mk.inj (Option.some.inj hn)
  exact ⟨u, hu, rfl, rfl⟩

theorem foldl_open (r : Reel) (n : Nat) :
    ((List.replicate n (Output.uart3 '(')).map Act.put).foldl Reel.step r =
      { r with brackets := r.brackets ++ List.replicate n '(' } := by
  induction n generalizing r with
  | zero => simp
  | succ n ih =>
    rw [List.replicate_succ, List.map_cons, List.foldl_cons, ih]
    simp [Reel.step, List.replicate_succ]

-- The first pass of the transmission announces the round, the later ones announce nothing.
theorem Sending.announceLoop_eq (h : s.Sending) (hn : s.vars.imageTransNum ≤ s.vars.imageNum) :
    announceLoop s.vars.imageNum s.i = (s.vars.imageNum,
      (if (reel s.acts).sent = 0 then announcement (reel s.acts).shots.length else []).map
        Output.uart3) := by
  rcases Nat.eq_zero_or_pos (reel s.acts).sent with h0 | hpos
  · obtain ⟨-, hi⟩ := h.first h0
    have hnum : 0 < s.vars.imageNum := by
      have := h.trans
      omega
    rw [hi, Camera.announceLoop_eq hnum, if_pos h0, ← h.num]
    simp [announcement, Batching.announce]
  · obtain ⟨-, hi⟩ := h.later hpos
    rw [hi, announceLoop_done le_rfl, if_neg hpos.ne']
    rfl

theorem foldl_announcement (r : Reel) (n : Nat) :
    (((announcement n).map Output.uart3).map Act.put).foldl Reel.step r =
      { r with brackets := r.brackets ++ announcement n, rounds := r.rounds ++ [r.shots] } := by
  rw [announcement, Batching.announce, List.map_append, List.map_append, List.foldl_append,
    List.map_replicate, foldl_open]
  simp [Reel.step]

theorem Sending.reel_announced (h : s.Sending) (hn : s.vars.imageTransNum ≤ s.vars.imageNum) :
    reel (s.acts ++ (Output.uart3 's' :: (announceLoop s.vars.imageNum s.i).2).map Act.put) =
      { reel s.acts with
        moving := false
        brackets := announcement (reel s.acts).shots.length
        rounds := (reel s.acts).rounds ++
          if (reel s.acts).sent = 0 then [(reel s.acts).shots] else [] } := by
  rw [reel_append, h.announceLoop_eq hn, List.map_cons, List.foldl_cons]
  rcases Nat.eq_zero_or_pos (reel s.acts).sent with h0 | hpos
  · rw [if_pos h0, if_pos h0, foldl_announcement]
    simp [Reel.step, (h.first h0).1]
  · rw [if_neg hpos.ne', if_neg hpos.ne']
    simp [Reel.step, (h.later hpos).1]

theorem Looking.fresh (h : (reel t.acts).shots = []) (hs : (reel t.acts).sent = 0)
    (hb : (reel t.acts).brackets = []) (hn : t.vars.imageNum = 0) (ht : t.vars.imageTransNum = 1)
    (hi : t.i = 0) : t.Looking := by
  refine ⟨by rw [hn, h]; rfl, ht, hs, hb, hi, fun k img hk => ?_⟩
  rw [h] at hk
  simp at hk

theorem Looking.sending (h : s.Looking) : s.Sending :=
  ⟨h.num, by rw [h.trans, h.sent], by rw [h.sent]; exact Nat.zero_le _, fun _ => ⟨h.brackets, h.i⟩,
    fun hp => absurd h.sent hp.ne', h.filed⟩

-- A command to the motor changes nothing else.
theorem reel_command {c : Char} (hc : c = 'u' ∨ c = 's') (acts : List Act) :
    reel (acts ++ [Act.put (.uart3 c)]) = { reel acts with moving := c = 'u' } := by
  rw [reel_snoc]
  rcases hc with rfl | rfl <;> rfl

theorem Looking.command (h : s.Looking) {c : Char} (hc : c = 'u' ∨ c = 's') {vars : Detection}
    (hn : vars.imageNum = s.vars.imageNum) (ht : vars.imageTransNum = s.vars.imageTransNum) :
    Looking { s.act [.put (.uart3 c)] with vars := vars } := by
  have hr := reel_command hc s.acts
  refine ⟨?_, ht.trans h.trans, ?_, ?_, h.i, fun k img hk => h.filed k img ?_⟩
  · exact (hn.trans h.num).trans (congrArg (List.length ∘ Reel.shots) hr).symm
  · exact (congrArg Reel.sent hr).trans h.sent
  · exact (congrArg Reel.brackets hr).trans h.brackets
  · exact (congrArg (fun r : Reel => r.shots[k]?) hr).symm.trans hk

theorem Looking.vars (h : s.Looking) {vars : Detection} (hn : vars.imageNum = s.vars.imageNum)
    (ht : vars.imageTransNum = s.vars.imageTransNum) : Looking { s with vars := vars } :=
  ⟨hn.trans h.num, ht.trans h.trans, h.sent, h.brackets, h.i, h.filed⟩

theorem Looking.capture (h : s.Looking) (img : Gray) {vars : Detection}
    (hn : vars.imageNum = s.vars.imageNum + 1) (ht : vars.imageTransNum = s.vars.imageTransNum) :
    let t := { s.act [.put (.uart3 's'), .servo (-70), .servo 90, .servo 0,
        .saved (s.vars.imageNum + 1) img] with
      compressed := Function.update s.compressed (s.vars.imageNum + 1) (some img)
      vars := vars }
    t.Rests ∧ t.Looking := by
  have hr : reel (s.acts ++ [Act.put (.uart3 's'), .servo (-70), .servo 90, .servo 0,
      .saved (s.vars.imageNum + 1) img]) =
        { reel s.acts with moving := false, shots := (reel s.acts).shots ++ [img] } := by
    rw [reel_append]
    rfl
  refine ⟨congrArg Reel.moving hr, ?_, ht.trans h.trans, (congrArg Reel.sent hr).trans h.sent,
    (congrArg Reel.brackets hr).trans h.brackets, h.i, fun k image hk => ?_⟩
  · have hlen := congrArg (List.length ∘ Reel.shots) hr
    simp only [Function.comp_apply, List.length_append, List.length_singleton, ← h.num] at hlen
    exact hn.trans hlen.symm
  · have hshots : ((reel s.acts).shots ++ [img])[k]? = some image :=
      (congrArg (fun r : Reel => r.shots[k]?) hr).symm.trans hk
    change Function.update s.compressed (s.vars.imageNum + 1) (some img) (k + 1) = some image
    rcases Nat.lt_trichotomy k (reel s.acts).shots.length with hlt | heq | hgt
    · rw [List.getElem?_append_left hlt] at hshots
      have hne : k + 1 ≠ s.vars.imageNum + 1 := by
        rw [h.num]
        omega
      rw [Function.update_of_ne hne]
      exact h.filed k image hshots
    · rw [heq, ← h.num, Function.update_self]
      rw [heq, List.getElem?_append_right le_rfl, Nat.sub_self] at hshots
      exact hshots
    · have hbound := (List.getElem?_eq_some_iff.mp hshots).1
      rw [List.length_append, List.length_singleton] at hbound
      omega

def passed (s : Session) (bs : List UInt8) : List Act :=
  (Output.uart3 's' :: (announceLoop s.vars.imageNum s.i).2 ++ [Output.uart1 bs]).map Act.put

theorem passed_eq (s : Session) (bs : List UInt8) : s.acts ++ s.passed bs =
    s.acts ++ (Output.uart3 's' :: (announceLoop s.vars.imageNum s.i).2).map Act.put ++
      [.put (.uart1 bs)] := by
  rw [passed, List.map_append, List.append_assoc]
  rfl

theorem Sending.reel_pass (h : s.Sending) (hn : s.vars.imageTransNum ≤ s.vars.imageNum)
    (bs : List UInt8) : reel (s.acts ++ s.passed bs) = { reel s.acts with
      moving := false
      sent := (reel s.acts).sent + 1
      brackets := announcement (reel s.acts).shots.length
      rounds := (reel s.acts).rounds ++
        if (reel s.acts).sent = 0 then [(reel s.acts).shots] else [] } := by
  rw [passed_eq, reel_snoc, h.reel_announced hn]
  rfl

theorem Sending.pass (h : s.Sending) (hn : s.vars.imageTransNum ≤ s.vars.imageNum)
    (bs : List UInt8) {vars : Detection} (hnum : vars.imageNum = s.vars.imageNum)
    (htrans : vars.imageTransNum = s.vars.imageTransNum + 1) :
    let t := { s.act (s.passed bs) with
      i := (announceLoop s.vars.imageNum s.i).1
      vars := vars }
    t.Rests ∧ t.Sending := by
  have hr := h.reel_pass hn bs
  have hsent := congrArg Reel.sent hr
  have hshots := congrArg Reel.shots hr
  refine ⟨congrArg Reel.moving hr, ?_, ?_, ?_, ?_, ?_, fun k img hk => h.filed k img ?_⟩
  · exact (hnum.trans h.num).trans (congrArg List.length hshots).symm
  · exact (htrans.trans (congrArg (· + 1) h.trans)).trans (congrArg (· + 1) hsent).symm
  · refine hsent.trans_le (le_trans ?_ (congrArg List.length hshots).symm.le)
    have := h.trans
    have := h.num
    simp only
    omega
  · exact fun h0 => absurd (hsent.symm.trans h0) (Nat.succ_ne_zero _)
  · intro _
    refine ⟨(congrArg Reel.brackets hr).trans ?_, ?_⟩
    · exact congrArg (announcement ∘ List.length) hshots.symm
    · exact (congrArg Prod.fst (h.announceLoop_eq hn)).trans hnum.symm
  · exact (congrArg (·[k]?) hshots).symm.trans hk

theorem Sending.over (h : s.Sending) (hn : ¬s.vars.imageTransNum ≤ s.vars.imageNum) :
    (reel s.acts).sent = (reel s.acts).shots.length := by
  have := h.trans
  have := h.num
  have := h.sent
  omega

theorem stage_statement (h : Stage p s) (hs : s.statement e p = some (q, t)) : Stage q t := by
  obtain ⟨u, hu, rfl, rfl⟩ := statement_cases hs
  cases p with
  | count | flag =>
    cases hu
    exact h
  | numbers =>
    cases hu
    have hr := reel_snoc s.acts .restarted
    exact ⟨(congrArg Reel.moving hr).trans h.1, .fresh (congrArg Reel.shots hr)
      (congrArg Reel.sent hr) (congrArg Reel.brackets hr) rfl rfl rfl⟩
  | callback =>
    cases hu
    have hr := reel_snoc s.acts (.servo 0)
    refine ⟨(congrArg Reel.moving hr).trans h.1, ?_, h.2.trans, ?_, ?_, h.2.i, fun k img hk => ?_⟩
    · exact h.2.num.trans (congrArg (List.length ∘ Reel.shots) hr).symm
    · exact (congrArg Reel.sent hr).trans h.2.sent
    · exact (congrArg Reel.brackets hr).trans h.2.brackets
    · exact h.2.filed k img ((congrArg (fun r : Reel => r.shots[k]?) hr).symm.trans hk)
  | waiting =>
    cases hu
    cases he : e.serial with
    | true =>
      simp only [Detection.statement, he, if_true]
      exact h.2.command (.inl rfl) rfl rfl
    | false =>
      simp only [Detection.statement, he, Bool.false_eq_true, if_false]
      exact h
  | look =>
    cases hu
    simp only [Detection.statement]
    split <;> exact h.vars rfl rfl
  | capture =>
    obtain ⟨scaled, -, hu⟩ := Option.bind_eq_some_iff.mp hu
    cases hu
    exact Looking.capture h scaled.image rfl rfl
  | disarm =>
    cases hu
    exact h.2.command (.inl rfl) rfl rfl
  | install | zero | arm | announce | remove | print =>
    cases hu
    exact Looking.vars h rfl rfl
  | check =>
    cases hu
    simp only [Detection.statement]
    split <;> exact Looking.vars h rfl rfl
  | door =>
    cases hu
    simp only [Detection.statement]
    by_cases hl : e.low
    · by_cases hd : 2 ≤ s.vars.stableLow + 1
      · simp only [hl, hd, and_self, if_true]
        exact Looking.command h (.inr rfl) rfl rfl
      · simp only [hl, hd, and_false, if_true, if_false]
        exact Looking.vars h rfl rfl
    · simp only [hl]
      exact Looking.vars h rfl rfl
  | leave =>
    cases hu
    have hr := reel_command (.inr rfl) s.acts
    refine ⟨congrArg Reel.moving hr, Looking.sending ?_⟩
    exact Looking.command h (.inr rfl) rfl rfl
  | transmit =>
    by_cases hn : s.vars.imageTransNum ≤ s.vars.imageNum
    · simp only [effect, if_pos hn] at hu
      cases hu
      simp only [Detection.statement, if_pos hn]
      exact h.2.pass hn _ rfl rfl
    · simp only [effect, if_neg hn] at hu
      cases hu
      have hr := reel_command (.inr rfl) s.acts
      simp only [Detection.statement, if_neg hn]
      refine ⟨congrArg Reel.moving hr, ?_⟩
      exact (congrArg Reel.sent hr).trans
        ((h.2.over hn).trans (congrArg (List.length ∘ Reel.shots) hr).symm)

theorem stage_tick (h : Stage p s) : Stage p { s with vars := s.vars.tick } := by
  cases p with
  | count | flag | numbers => exact h
  | callback | waiting | disarm => exact ⟨h.1, h.2.vars rfl rfl⟩
  | transmit => exact ⟨h.1, h.2.num, h.2.trans, h.2.sent, h.2.first, h.2.later, h.2.filed⟩
  | look | capture | install | check | zero | arm | announce | remove | door | print | leave =>
    exact Looking.vars h rfl rfl

end Session

def Allowed (pre : List Act) (e : Act) : Prop := Still pre e ∧ Faithful pre e

namespace Session
variable {s t : Session} {e : Scene} {p q : Statement}

theorem allowed_command {c : Char} (h : Every Allowed s.acts) :
    Every Allowed (s.acts ++ [Act.put (.uart3 c)]) :=
  every_snoc.mpr ⟨h, trivial, trivial⟩

theorem Looking.allowed_capture (h : s.Looking) (ha : Every Allowed s.acts) (img : Gray) :
    Every Allowed (s.acts ++ [Act.put (.uart3 's'), .servo (-70), .servo 90, .servo 0,
      .saved (s.vars.imageNum + 1) img]) := by
  have hstop := allowed_command (c := 's') ha
  have hr := reel_command (.inr rfl) s.acts
  have hleft : Every Allowed (s.acts ++ [Act.put (.uart3 's')] ++ [Act.servo (-70)]) :=
    every_snoc.mpr ⟨hstop, congrArg Reel.moving hr, trivial⟩
  have hright : Every Allowed
      (s.acts ++ [Act.put (.uart3 's')] ++ [Act.servo (-70)] ++ [Act.servo 90]) :=
    every_snoc.mpr ⟨hleft, by rw [Still, reel_snoc]; exact congrArg Reel.moving hr, trivial⟩
  have hback : Every Allowed (s.acts ++ [Act.put (.uart3 's')] ++ [Act.servo (-70)] ++
      [Act.servo 90] ++ [Act.servo 0]) := by
    refine every_snoc.mpr ⟨hright, ?_, trivial⟩
    rw [Still, reel_snoc, reel_snoc]
    exact congrArg Reel.moving hr
  have hsaved : Every Allowed (s.acts ++ [Act.put (.uart3 's')] ++ [Act.servo (-70)] ++
      [Act.servo 90] ++ [Act.servo 0] ++ [Act.saved (s.vars.imageNum + 1) img]) := by
    refine every_snoc.mpr ⟨hback, ?_, ?_⟩
    · rw [Still, reel_snoc, reel_snoc, reel_snoc]
      exact congrArg Reel.moving hr
    · rw [Faithful, reel_snoc, reel_snoc, reel_snoc]
      exact (congrArg (· + 1) h.num).trans (congrArg (fun r : Reel => r.shots.length + 1) hr).symm
  simpa using hsaved

theorem Sending.quiet (h : s.Sending) (hn : s.vars.imageTransNum ≤ s.vars.imageNum) :
    ∀ a ∈ (Output.uart3 's' :: (announceLoop s.vars.imageNum s.i).2).map Act.put,
      ∃ c, a = .put (.uart3 c) := by
  intro a hm
  obtain ⟨o, ho, rfl⟩ := List.mem_map.mp hm
  rw [h.announceLoop_eq hn] at ho
  rcases List.mem_cons.mp ho with rfl | ho
  · exact ⟨_, rfl⟩
  · obtain ⟨c, -, rfl⟩ := List.mem_map.mp ho
    exact ⟨c, rfl⟩

-- The next image of the round, and the file that send_frame opens.
theorem Sending.next (h : s.Sending) (hn : s.vars.imageTransNum ≤ s.vars.imageNum) :
    ∃ img, (reel s.acts).shots[(reel s.acts).sent]? = some img ∧
      s.compressed s.vars.imageTransNum = some img := by
  have hlt : (reel s.acts).sent < (reel s.acts).shots.length := by
    have := h.trans
    have := h.num
    omega
  have himg := List.getElem?_eq_getElem hlt
  exact ⟨_, himg, h.trans ▸ h.filed _ _ himg⟩

theorem Sending.allowed_pass (h : s.Sending) (ha : Every Allowed s.acts)
    (hn : s.vars.imageTransNum ≤ s.vars.imageNum) (f : Transfer) : Every Allowed (s.acts ++
      s.passed (sendFrame (f.attempt (s.compressed s.vars.imageTransNum)))) := by
  have hr := h.reel_announced hn
  have hquiet : Every Allowed
      (s.acts ++ (Output.uart3 's' :: (announceLoop s.vars.imageNum s.i).2).map Act.put) := by
    refine ha.append fun a hm pre => ?_
    obtain ⟨c, rfl⟩ := h.quiet hn a hm
    exact ⟨trivial, trivial⟩
  obtain ⟨img, himg, hfile⟩ := h.next hn
  rw [passed_eq]
  refine every_snoc.mpr ⟨hquiet, ?_, ?_⟩
  · rw [Still, hr]
  · rw [Faithful, hr]
    exact ⟨rfl, img, f, himg, by rw [hfile]⟩

theorem sends_next (h : s.Sending) (hn : s.vars.imageTransNum ≤ s.vars.imageNum) (e : Scene) :
    SendsNext s.acts e
      (s.passed (sendFrame (e.transfer.attempt (s.compressed s.vars.imageTransNum)))) := by
  obtain ⟨img, himg, hfile⟩ := h.next hn
  refine ⟨img, (Output.uart3 's' :: (announceLoop s.vars.imageNum s.i).2).map Act.put, himg,
    fun bs hbs => ?_, ?_, fun hok => Transfer.sendFrame_succeeds hok img⟩
  · obtain ⟨c, hc⟩ := h.quiet hn _ hbs
    cases hc
  · rw [passed, List.map_append, hfile]
    rfl

theorem statement_sends (h : Stage p s) (hs : s.statement e p = some (q, t)) :
    ∃ es, t.acts = s.acts ++ es ∧
      (p = .transmit → (reel s.acts).sent < (reel s.acts).shots.length → SendsNext s.acts e es) ∧
      (¬(p = .transmit ∧ (reel s.acts).sent < (reel s.acts).shots.length) →
        ∀ bs, .put (.uart1 bs) ∉ es) := by
  obtain ⟨u, hu, rfl, rfl⟩ := statement_cases hs
  cases p with
  | count | flag | look | install | check | zero | arm | announce | remove | print =>
    cases hu
    exact ⟨[], (List.append_nil _).symm, by simp, by simp⟩
  | numbers | callback | disarm | leave =>
    cases hu
    exact ⟨_, rfl, by simp, by simp⟩
  | waiting =>
    cases hu
    split
    · exact ⟨_, rfl, by simp, by simp⟩
    · exact ⟨[], (List.append_nil _).symm, by simp, by simp⟩
  | capture =>
    obtain ⟨scaled, -, hu⟩ := Option.bind_eq_some_iff.mp hu
    cases hu
    exact ⟨_, rfl, by simp, by simp⟩
  | door =>
    cases hu
    split
    · exact ⟨_, rfl, by simp, by simp⟩
    · exact ⟨[], (List.append_nil _).symm, by simp, by simp⟩
  | transmit =>
    by_cases hn : s.vars.imageTransNum ≤ s.vars.imageNum
    · simp only [effect, if_pos hn] at hu
      cases hu
      obtain ⟨img, himg, -⟩ := h.2.next hn
      have hlt := (List.getElem?_eq_some_iff.mp himg).1
      exact ⟨_, rfl, fun _ _ => sends_next h.2 hn e, fun hno => (hno ⟨rfl, hlt⟩).elim⟩
    · simp only [effect, if_neg hn] at hu
      cases hu
      have hover := h.2.over hn
      exact ⟨_, rfl, fun _ hlt => (hlt.ne hover).elim, by simp⟩

theorem allowed_statement (h : Stage p s) (ha : Every Allowed s.acts)
    (hs : s.statement e p = some (q, t)) : Every Allowed t.acts := by
  obtain ⟨u, hu, rfl, rfl⟩ := statement_cases hs
  cases p with
  | count | flag | look | install | check | zero | arm | announce | remove | print =>
    cases hu
    exact ha
  | numbers =>
    cases hu
    exact every_snoc.mpr ⟨ha, trivial, h.2⟩
  | callback =>
    cases hu
    exact every_snoc.mpr ⟨ha, h.1, trivial⟩
  | waiting =>
    cases hu
    split
    · exact allowed_command ha
    · exact ha
  | capture =>
    obtain ⟨scaled, -, hu⟩ := Option.bind_eq_some_iff.mp hu
    cases hu
    exact Looking.allowed_capture h ha scaled.image
  | disarm | leave =>
    cases hu
    exact allowed_command ha
  | door =>
    cases hu
    split
    · exact allowed_command ha
    · exact ha
  | transmit =>
    by_cases hn : s.vars.imageTransNum ≤ s.vars.imageNum
    · simp only [effect, if_pos hn] at hu
      cases hu
      exact h.2.allowed_pass ha hn e.transfer
    · simp only [effect, if_neg hn] at hu
      cases hu
      exact allowed_command ha

end Session

section
variable {files : Nat → Option Gray} {p : Statement} {s : Session}

theorem stage_reach (h : (session files).Reach p s) :
    Session.Stage p s ∧ Every Allowed s.acts := by
  induction h with
  | init => exact ⟨⟨rfl, rfl⟩, every_nil⟩
  | own h hs ih =>
    obtain ⟨e, hs⟩ := hs
    exact ⟨Session.stage_statement ih.1 hs, Session.allowed_statement ih.1 ih.2 hs⟩
  | env h hs ih =>
    obtain ⟨-, rfl⟩ := hs
    exact ⟨Session.stage_tick ih.1, ih.2⟩

end

theorem images_sent_faithfully (files : Nat → Option Gray) (p : Statement) (s : Session)
    (h : (session files).Reach p s) :
    Every Faithful s.acts ∧ ∀ e q t, s.statement e p = some (q, t) → ∃ es,
      t.acts = s.acts ++ es ∧
        (p = .transmit → (reel s.acts).sent < (reel s.acts).shots.length →
          SendsNext s.acts e es) ∧
        (¬(p = .transmit ∧ (reel s.acts).sent < (reel s.acts).shots.length) →
          ∀ bs, .put (.uart1 bs) ∉ es) :=
  ⟨(stage_reach h).2.mono fun _ _ ha => ha.2, fun _ _ _ hs =>
    Session.statement_sends (stage_reach h).1 hs⟩

-- Fabric of one shade: it is captured, the photo gate closes and the image is sent.
def shot (v : UInt8) : Scene where
  serial := true
  blobs := [(30, 70)]
  low := true
  window := ⟨64, 96, fun _ _ => v⟩
  transfer := ⟨true, false, .ok, .ok, .ok⟩

def shade (v : UInt8) : Gray := fun _ _ => v

theorem scale_shot (v : UInt8) : ∃ s, scale (shot v).window = some s ∧ s.image = shade v := by
  have hw : W ≤ (shot v).window.width := (by decide : W ≤ 64)
  have hh : H ≤ (shot v).window.height := (by decide : H ≤ 96)
  obtain ⟨s, hs, -, himage⟩ := scale_reads hw hh
  refine ⟨s, hs, funext fun x => funext fun y => Option.some.inj ?_⟩
  exact (himage x y).trans (dif_pos (sample_inside hw hh (x, y)))

namespace Session

-- The program alone, without ticks.
abbrev Path : Statement × Session → Statement × Session → Prop :=
  Relation.ReflTransGen fun a b => ∃ e, a.2.statement e a.1 = some b

theorem reach_path {files : Nat → Option Gray} {a b : Statement × Session}
    (h : (session files).Reach a.1 a.2) (hp : Path a b) : (session files).Reach b.1 b.2 := by
  induction hp with
  | refl => exact h
  | tail _ hs ih => exact ih.own hs

-- What a round of one image leaves in the log before its announcement.
def shotActs (v : UInt8) : List Act :=
  [.restarted, .servo 0, .put (.uart3 'u'), .put (.uart3 's'), .servo (-70), .servo 90, .servo 0,
    .saved 1 (shade v), .put (.uart3 'u'), .put (.uart3 's'), .put (.uart3 's')]

theorem path_look (s : Session) (v : UInt8) : Path (.count, s) (.look,
    ⟨⟨0, true, 0, 1, 0, false, s.vars.log ++ [Event.restarted]⟩, 0, s.compressed,
      s.acts ++ [Act.restarted] ++ [Act.servo 0] ++ [Act.put (.uart3 'u')]⟩) :=
  .head ⟨shot v, rfl⟩ (.head ⟨shot v, rfl⟩ (.head ⟨shot v, rfl⟩ (.head ⟨shot v, rfl⟩
    (.single ⟨shot v, rfl⟩))))

theorem path_capture (s : Session) (v : UInt8) (log : List Event)
    (hs : s.vars = ⟨0, true, 0, 1, 0, false, log⟩) : Path (.look, s) (.disarm,
      ⟨⟨0, true, 1, 1, 0, false, log⟩, s.i, Function.update s.compressed 1 (some (shade v)),
        s.acts ++ [Act.put (.uart3 's'), .servo (-70), .servo 90, .servo 0,
          .saved 1 (shade v)]⟩) := by
  obtain ⟨scaled, hscaled, himage⟩ := scale_shot v
  have hblob : s.vars.statement (shot v).toSense .look = (.capture, s.vars) := by
    rw [hs]
    simp [Detection.statement, shot, triggers]
  refine .head (b := (.capture, s)) ⟨shot v, ?_⟩ (.single ⟨shot v, ?_⟩)
  · rw [statement, hblob]
    rfl
  · rw [statement, effect, hscaled, hs, ← himage]
    rfl

-- The flag is down when the loop comes to the fabric again.
theorem path_again (s : Session) (v : UInt8) (log : List Event)
    (hs : s.vars = ⟨0, true, 1, 1, 0, false, log⟩) : Path (.disarm, s) (.look,
      ⟨⟨0, false, 1, 1, 1, true, log ++ [Event.captured]⟩, s.i, s.compressed,
        s.acts ++ [Act.put (.uart3 'u')]⟩) := by
  obtain ⟨vars, i, compressed, acts⟩ := s
  subst hs
  exact .head ⟨shot v, rfl⟩ (.head ⟨shot v, rfl⟩ (.head ⟨shot v, rfl⟩ (.head ⟨shot v, rfl⟩
    (.single ⟨shot v, rfl⟩))))

-- The photo gate is found closed for the second time.
theorem path_gate (s : Session) (v : UInt8) (log : List Event)
    (hs : s.vars = ⟨0, false, 1, 1, 1, true, log⟩) : Path (.look, s) (.leave,
      ⟨⟨0, false, 1, 1, 2, true, log⟩, s.i, s.compressed, s.acts ++ [Act.put (.uart3 's')]⟩) := by
  obtain ⟨vars, i, compressed, acts⟩ := s
  subst hs
  exact .head ⟨shot v, rfl⟩ (.head ⟨shot v, rfl⟩ (.single ⟨shot v, rfl⟩))

-- The camera has left its loop with one image, and has yet to announce and to send it.
theorem path_captured (s : Session) (v : UInt8) : ∃ t, Path (.count, s) (.transmit, t) ∧
    t.vars.imageNum = 1 ∧ t.vars.imageTransNum = 1 ∧ t.i = 0 ∧
      t.compressed 1 = some (shade v) ∧ t.acts = s.acts ++ shotActs v := by
  have hlook := (path_look s v).trans (path_capture _ v _ rfl)
  have hleave := (hlook.trans (path_again _ v _ rfl)).trans (path_gate _ v _ rfl)
  have hfile : Function.update s.compressed 1 (some (shade v)) 1 = some (shade v) :=
    Function.update_self ..
  refine ⟨_, hleave.tail ⟨shot v, rfl⟩, rfl, rfl, rfl, hfile, ?_⟩
  simp only [act, List.append_assoc]
  rfl

theorem statement_pass (s : Session) (e : Scene) (hn : s.vars.imageTransNum ≤ s.vars.imageNum) :
    ∃ t, s.statement e .transmit = some (.transmit, t) ∧ t.acts = s.acts ++
        s.passed (sendFrame (e.transfer.attempt (s.compressed s.vars.imageTransNum))) ∧
      t.vars.imageNum = s.vars.imageNum ∧ t.vars.imageTransNum = s.vars.imageTransNum + 1 := by
  refine ⟨{ s.act (s.passed (sendFrame (e.transfer.attempt (s.compressed s.vars.imageTransNum))))
    with
    i := (announceLoop s.vars.imageNum s.i).1
    vars := (s.vars.statement e.toSense .transmit).2 }, ?_, rfl, ?_, ?_⟩
  · simp only [statement, effect, Detection.statement, if_pos hn]
    rfl
  · simp only [Detection.statement, if_pos hn]
  · simp only [Detection.statement, if_pos hn]

def sentActs (v : UInt8) : List Act :=
  [.put (.uart3 's'), .put (.uart3 '('), .put (.uart3 ')'), .put (.uart1 (frame (shade v)))]

theorem path_sent (s : Session) (v : UInt8) : ∃ t, Path (.count, s) (.transmit, t) ∧
    t.vars.imageNum = 1 ∧ t.vars.imageTransNum = 2 ∧
      t.acts = s.acts ++ shotActs v ++ sentActs v := by
  obtain ⟨u, hu, hnum, htrans, hi, hfile, hacts⟩ := path_captured s v
  obtain ⟨t, hpass, hsent, hnum', htrans'⟩ := statement_pass u (shot v) (by rw [hnum, htrans])
  refine ⟨t, hu.tail ⟨shot v, hpass⟩, hnum'.trans hnum, by rw [htrans', htrans], ?_⟩
  have hloop : announceLoop 1 0 = (1, [.uart3 '(', .uart3 ')']) := by
    simp [announceLoop]
  have hframe : sendFrame ((shot v).transfer.attempt (some (shade v))) = frame (shade v) :=
    Transfer.sendFrame_succeeds rfl _
  rw [hsent, hacts, passed, hnum, htrans, hi, hfile, hframe, hloop]
  rfl

-- A whole round of one image.
def roundActs (v : UInt8) : List Act := shotActs v ++ sentActs v ++ [Act.put (.uart3 's')]

theorem path_round (s : Session) (v : UInt8) :
    ∃ t, Path (.count, s) (.count, t) ∧ t.acts = s.acts ++ roundActs v := by
  obtain ⟨t, ht, hnum, htrans, hacts⟩ := path_sent s v
  have hover : ¬t.vars.imageTransNum ≤ t.vars.imageNum := by
    rw [hnum, htrans]
    decide
  refine ⟨{ t with acts := t.acts ++ [Act.put (.uart3 's')] }, ht.tail ⟨shot v, ?_⟩, ?_⟩
  · simp only [statement, effect, Detection.statement, if_neg hover]
    rfl
  · rw [hacts, roundActs, List.append_assoc, List.append_assoc, List.append_assoc]

end Session

-- The second round of the program, which is about to send its image.
theorem images_sent_faithfully_second_round : ∃ s t quiet,
    (session fun _ => none).Reach .transmit s ∧ (reel s.acts).rounds = [[shade 2]] ∧
      (reel s.acts).shots = [shade 6] ∧ s.statement (shot 6) .transmit = some (.transmit, t) ∧
      t.acts = s.acts ++ (quiet ++ [Act.put (.uart1 (frame (shade 6)))]) := by
  obtain ⟨r, hround, hrest⟩ := Session.path_round ⟨.init, 0, fun _ => none, []⟩ 2
  obtain ⟨s, hcaptured, hnum, htrans, -, -, hacts⟩ := Session.path_captured r 6
  have h : (session fun _ => none).Reach .transmit s :=
    Session.reach_path (Session.reach_path Machine.Reach.init hround) hcaptured
  obtain ⟨t, hpass, -⟩ := Session.statement_pass s (shot 6) (by rw [hnum, htrans])
  obtain ⟨-, hsteps⟩ := images_sent_faithfully _ _ s h
  obtain ⟨es, hes, hnext, -⟩ := hsteps (shot 6) _ t hpass
  have hreel : reel s.acts = ⟨false, [shade 6], 0, [], [[shade 2]]⟩ := by
    rw [hacts, hrest, reel_append, reel_append]
    rfl
  obtain ⟨image, quiet, himage, -, heq, hframe⟩ := hnext rfl (by rw [hreel]; exact Nat.zero_lt_one)
  obtain rfl : shade 6 = image := by
    rw [hreel] at himage
    exact Option.some.inj himage
  exact ⟨s, t, quiet, h, by rw [hreel], by rw [hreel], hpass, by rw [hes, heq, hframe rfl]⟩

theorem handled_at_rest (files : Nat → Option Gray) (p : Statement) (s : Session)
    (h : (session files).Reach p s) : Every Still s.acts :=
  (stage_reach h).2.mono fun _ _ ha => ha.1

theorem handled_at_rest_one_image : ∃ s pre, (session fun _ => none).Reach .transmit s ∧
    s.acts = pre ++ [Act.put (.uart1 (frame (shade 2)))] ∧ (reel pre).moving = false := by
  obtain ⟨s, hsent, -, -, hacts⟩ := Session.path_sent ⟨.init, 0, fun _ => none, []⟩ 2
  have h : (session fun _ => none).Reach .transmit s := Session.reach_path Machine.Reach.init hsent
  have hlast : s.acts = (Session.shotActs 2 ++ [Act.put (.uart3 's'), .put (.uart3 '('),
      .put (.uart3 ')')]) ++ [Act.put (.uart1 (frame (shade 2)))] := hacts
  exact ⟨s, _, h, hlast, handled_at_rest _ _ s h _ _ [] hlast⟩

end FabricInspection.Camera
