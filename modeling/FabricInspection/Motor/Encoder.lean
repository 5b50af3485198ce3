import FabricInspection.Board.System

namespace FabricInspection

-- TIM3 with ARR = 0xFFFF, for the true position of the fabric in counts.
def tim3 (pos : Int) : UInt16 := UInt16.ofInt pos

theorem tim3_toNat (pos : Int) : ((tim3 pos).toNat : Int) = pos % 65536 := by
  simp only [tim3, UInt16.ofInt, UInt16.toNat_ofNat']
  omega

namespace Pid

def delta (p : Pid) (cnt : UInt16) : Int := wrap (cnt.toNat - p.lastCount)

-- get_line_speed_mmps returns before it looks at the counter when no tick has passed.
def samples (p : Pid) (now : UInt32) : Bool := 0 < (now - p.lastTimeMs).toNat

def rawSpeed (delta : Int) (dt : ℚ) : ℚ := delta * wheelCircumMm / encoder4x / dt

def lowPass (filteredSpeed rawSpeed : ℚ) : ℚ :=
  if filteredSpeed = 0 then rawSpeed
  else filterAlpha * rawSpeed + (1 - filterAlpha) * filteredSpeed

section
variable {p : Pid} {now : UInt32}

theorem getLineSpeedMmps_sample (h : p.samples now) (cnt : UInt16) :
    p.getLineSpeedMmps cnt now =
      (let filtered := lowPass p.filteredSpeed
        (rawSpeed (p.delta cnt) ((now - p.lastTimeMs).toNat / rtTickPerSecond))
      ({ p with filteredSpeed := filtered, lastCount := cnt.toNat, lastTimeMs := now },
        filtered)) := by
  have hticks : (0 : ℚ) < (now - p.lastTimeMs).toNat := Nat.cast_pos.mpr (of_decide_eq_true h)
  have hdt : ¬((now - p.lastTimeMs).toNat / rtTickPerSecond : ℚ) ≤ 0 := by
    rw [not_le]
    exact div_pos hticks (by norm_num [rtTickPerSecond])
  rw [getLineSpeedMmps, if_neg hdt]
  rfl

theorem getLineSpeedMmps_idle (h : p.samples now = false) (cnt : UInt16) :
    p.getLineSpeedMmps cnt now = (p, p.filteredSpeed) := by
  have hticks : (now - p.lastTimeMs).toNat = 0 := Nat.eq_zero_of_not_pos (of_decide_eq_false h)
  rw [getLineSpeedMmps, hticks]
  simp

end

-- Exactly when the wrap correction gives back the displacement `d`.
theorem wrap_displacement {last d : Int} (h0 : 0 ≤ last) (h1 : last < 65536) :
    wrap ((last + d) % 65536 - last) = d ↔
      (-32767 ≤ d ∧ d ≤ 32767) ∨ (d = 32768 ∧ 32768 ≤ last) ∨ (d = -32768 ∧ last < 32768) := by
  rw [wrap]
  split
  · omega
  · split <;> omega

theorem delta_displacement {p : Pid} {pos : Int} (hp : p.lastCount = (tim3 pos).toNat) (d : Int) :
    p.delta (tim3 (pos + d)) = d ↔ (-32767 ≤ d ∧ d ≤ 32767) ∨
      (d = 32768 ∧ 32768 ≤ p.lastCount) ∨ (d = -32768 ∧ p.lastCount < 32768) := by
  have hlast : p.lastCount = pos % 65536 := hp.trans (tim3_toNat pos)
  have hcnt : ((tim3 (pos + d)).toNat : Int) = (p.lastCount + d) % 65536 := by
    rw [tim3_toNat, hlast, Int.emod_add_emod]
  rw [delta, hcnt]
  exact wrap_displacement (by omega) (by omega)

theorem control_lastCount (p : Pid) (target : ℚ) (cnt : UInt16) (now : UInt32) :
    (p.control target cnt now).1.lastCount =
      if p.samples now then (cnt.toNat : Int) else p.lastCount := by
  have hclear : (if p.wasEnabled then p else p.clear true).lastCount = p.lastCount ∧
      (if p.wasEnabled then p else p.clear true).samples now = p.samples now := by
    split
    · exact ⟨rfl, rfl⟩
    · exact ⟨rfl, rfl⟩
  obtain ⟨hlast, hsamples⟩ := hclear
  cases h : p.samples now with
  | true =>
    rw [h] at hsamples
    simp only [control, getLineSpeedMmps_sample hsamples, if_true]
  | false =>
    rw [h] at hsamples
    simp [control, getLineSpeedMmps_idle hsamples, hlast]

end Pid

theorem pid_motorSetActiveSpeedRpm (s : Board) (rpm : UInt16) :
    (s.motorSetActiveSpeedRpm rpm).motor.pid = s.motor.pid := by
  rw [Board.motorSetActiveSpeedRpm]
  split
  · rfl
  · rfl

def Board.takesSample (s : Board) (now : UInt32) : Bool :=
  s.motor.closedLoopEnable && s.motor.pid.samples now

theorem lastCount_speedPidIteration (s : Board) (cnt : UInt16) (now : UInt32) :
    (s.speedPidIteration cnt now).motor.pid.lastCount =
      if s.takesSample now then (cnt.toNat : Int) else s.motor.pid.lastCount := by
  cases hc : s.motor.closedLoopEnable with
  | true =>
    simp only [Board.speedPidIteration, Board.emit_motor, hc, if_true, pid_motorSetActiveSpeedRpm]
    rw [Pid.control_lastCount, Board.takesSample, hc, Bool.true_and]
  | false =>
    simp [Board.speedPidIteration, Board.takesSample, hc, Pid.clear]

structure Sample where
  lastCount : Int
  delta : Int
  displacement : Int
  deriving DecidableEq, Repr

-- The fabric has not moved too far for a 16-bit counter since the sample before.
def Sample.Near (x : Sample) : Prop :=
  (-32767 ≤ x.displacement ∧ x.displacement ≤ 32767) ∨
    (x.displacement = 32768 ∧ 32768 ≤ x.lastCount) ∨
    (x.displacement = -32768 ∧ x.lastCount < 32768)

-- The board with the position of the fabric, that of the latest sample, and all samples.
structure Rig where
  board : Board
  pos : Int
  sampled : Int
  samples : List Sample

def Rig.after (r : Rig) (s : Board) (move : Int) (now : UInt32) : Rig :=
  let pos := r.pos + move
  let board := s.speedPidIteration (tim3 pos) now
  if s.takesSample now then
    ⟨board, pos, pos, r.samples ++
      [⟨s.motor.pid.lastCount, s.motor.pid.delta (tim3 pos), pos - r.sampled⟩]⟩
  else ⟨board, pos, r.sampled, r.samples⟩

-- Between two iterations of speed_pid_thread anything may happen but to its own variables.
inductive Rig.Run : Rig → Prop
  | start (s : Board) (h : s.motor.pid = Pid.init) : Run ⟨s, 0, 0, []⟩
  | next {r : Rig} (h : Run r) (s : Board) (hs : s.motor.pid = r.board.motor.pid) (move : Int)
      (hm : -32767 ≤ move ∧ move ≤ 32767) (now : UInt32) : Run (r.after s move now)

-- An iteration with closed_loop_enable at the value `on`.
def Rig.tick (r : Rig) (on : Bool) (move : Int) (now : UInt32) : Rig :=
  r.after { r.board with motor := { r.board.motor with closedLoopEnable := on } } move now

theorem Rig.Run.tick {r : Rig} (h : r.Run) (on : Bool) (move : Int)
    (hm : -32767 ≤ move ∧ move ≤ 32767) (now : UInt32) : (r.tick on move now).Run :=
  h.next { r.board with motor := { r.board.motor with closedLoopEnable := on } } rfl move hm now

theorem Rig.Run.lastCount {r : Rig} (h : r.Run) :
    r.board.motor.pid.lastCount = (tim3 r.sampled).toNat := by
  induction h with
  | start s h =>
    rw [h]
    rfl
  | @next r h s hs move hm now ih =>
    rw [Rig.after]
    split
    · rename_i ht
      rw [lastCount_speedPidIteration, if_pos ht]
    · rename_i ht
      rw [lastCount_speedPidIteration, if_neg ht, hs, ih]

theorem samples_true_iff (r : Rig) (h : r.Run) :
    ∀ x ∈ r.samples, x.delta = x.displacement ↔ x.Near := by
  induction h with
  | start s h => exact fun x hx => absurd hx List.not_mem_nil
  | @next r h s hs move hm now ih =>
    rw [Rig.after]
    split
    · intro x hx
      rcases List.mem_append.mp hx with hx | hx
      · exact ih x hx
      · rw [List.mem_singleton.mp hx, Sample.Near, ← Pid.delta_displacement]
        · have hpos : r.sampled + (r.pos + move - r.sampled) = r.pos + move := by omega
          rw [hpos]
        · rw [hs, h.lastCount]
    · exact ih

-- The counter wraps before the third sample, and the loop is off for one iteration after it.
theorem samples_true_iff_wrapped :
    ∃ r : Rig, r.Run ∧
      r.samples.map (fun x => (x.lastCount, x.displacement)) =
        [(0, 30000), (30000, 30000), (60000, 10000), (4464, 30000)] ∧
      ∀ x ∈ r.samples, x.delta = x.displacement := by
  have hstart := Rig.Run.start (Board.initial (fun _ => false) fun _ => true) rfl
  have hbefore := (hstart.tick true 30000 (by decide) 20).tick true 30000 (by decide) 40
  have hwrap := hbefore.tick true 10000 (by decide) 60
  have hrun := (hwrap.tick false 20000 (by decide) 80).tick true 10000 (by decide) 100
  generalize hr : ((_ : Rig).tick true 10000 100) = r at hrun
  have hsamples : r.samples.map (fun x => (x.lastCount, x.displacement)) =
      [(0, 30000), (30000, 30000), (60000, 10000), (4464, 30000)] := by
    rw [← hr]
    decide +kernel
  refine ⟨r, hrun, hsamples, fun x hx => (samples_true_iff r hrun x hx).mpr (.inl ?_)⟩
  have hmem := List.mem_map_of_mem (f := fun x => (x.lastCount, x.displacement)) hx
  rw [hsamples] at hmem
  simp only [List.mem_cons, Prod.mk.injEq, List.not_mem_nil, or_false] at hmem
  omega

-- The loop is off for two iterations while the fabric moves on.
theorem idle_period_aliases :
    ∃ r : Rig, r.Run ∧ ∃ x ∈ r.samples, x.delta = -25536 ∧ x.displacement = 40000 := by
  have hstart := Rig.Run.start (Board.initial (fun _ => false) fun _ => true) rfl
  have hfirst := hstart.tick true 0 (by decide) 20
  have hoff := (hfirst.tick false 20000 (by decide) 40).tick false 20000 (by decide) 60
  have hrun := hoff.tick true 0 (by decide) 80
  exact ⟨_, hrun, ⟨0, -25536, 40000⟩, by decide +kernel, rfl, rfl⟩

end FabricInspection
