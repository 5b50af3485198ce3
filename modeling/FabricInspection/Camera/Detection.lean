import FabricInspection.Concurrency.Machine
import FabricInspection.Concurrency.Elapsed
import FabricInspection.Camera.Scaling

namespace FabricInspection.Camera

open Concurrency (Machine)
open Concurrency.Trace (Every Interval every_snoc)

inductive Event where
  | tick | restarted | captured | zeroed | armed | removed
  deriving DecidableEq, Repr

-- The statement the main loop comes to next.
inductive Statement where
  | count | flag | numbers | callback | waiting
  | look | capture | disarm | install
  | check | zero | arm | announce | remove
  | door | print | leave | transmit
  deriving DecidableEq, Repr

-- The variables of the main loop and the callback of `tim`, with a log of what became of them.
structure Detection where
  count : Nat
  flag : Bool
  imageNum : Nat
  imageTransNum : Nat
  stableLow : Nat
  installed : Bool
  log : List Event

-- What the outside answers: a start byte, the blobs by their centres, the photo gate.
structure Sense where
  serial : Bool
  blobs : List (Nat × Nat)
  low : Bool

instance (cx cy : Nat) : Decidable (triggers cx cy) := inferInstanceAs (Decidable (_ ∧ _))

namespace Detection

def record (s : Detection) (e : Event) : Detection := { s with log := s.log ++ [e] }

def tick (s : Detection) : Detection := { s.record .tick with count := s.count + 1 }

def init : Detection := ⟨0, false, 0, 0, 0, false, []⟩

def statement (i : Sense) (s : Detection) : Statement → Statement × Detection
  | .count => (.flag, { s with count := 0 })
  | .flag => (.numbers, { s.record .restarted with flag := true })
  | .numbers => (.callback, { s with imageNum := 0, imageTransNum := 1, stableLow := 0 })
  | .callback => (.waiting, { s with installed := false })
  | .waiting => (if i.serial then .look else .waiting, s)
  | .look => (if s.flag ∧ ∃ b ∈ i.blobs, triggers b.1 b.2 then .capture else .check, s)
  | .capture => (.disarm, { s with imageNum := s.imageNum + 1 })
  | .disarm => (.install, { s with flag := false })
  | .install => (.check, { s.record .captured with installed := true })
  | .check => (if 80 ≤ s.count then .zero else .door, s)
  | .zero => (.arm, { s.record .zeroed with count := 0 })
  | .arm => (.announce, { s.record .armed with flag := true })
  | .announce => (.remove, s)
  | .remove => (.door, { s.record .removed with installed := false })
  | .door =>
    if i.low then
      (if 2 ≤ s.stableLow + 1 then .leave else .print, { s with stableLow := s.stableLow + 1 })
    else (.print, { s with stableLow := 0 })
  | .print => (.look, s)
  | .leave => (.transmit, { s with installed := false })
  | .transmit =>
    if s.imageTransNum ≤ s.imageNum then
      (.transmit, { s with installed := false, imageTransNum := s.imageTransNum + 1 })
    else (.count, s)

end Detection

-- The timer may call tick before any statement, as long as it is installed.
def detection : Machine Statement Detection where
  start := .count
  init := .init
  own p s q t := ∃ i, s.statement i p = (q, t)
  env s t := s.installed = true ∧ t = s.tick

-- The ticks since the capture, until the flag is set again.
def skip : Interval Event where
  opens e := e = .captured
  closes e := e = .armed ∨ e = .restarted
  counts e := e = .tick

-- From count = 0 to the removal of the callback.
def rearm : Interval Event where
  opens e := e = .zeroed
  closes e := e = .removed
  counts e := e = .tick

-- No tick comes between count = 0 and tim.callback(None).
def Quiet (pre : List Event) (e : Event) : Prop := e = .tick → rearm.elapsed pre = none

def Full (pre : List Event) (e : Event) : Prop :=
  e = .armed → ∃ n, 80 ≤ n ∧ skip.elapsed pre = some n

section
variable (log : List Event)

@[simp] theorem skip_captured : skip.elapsed (log ++ [.captured]) = some 0 :=
  Interval.elapsed_snoc log .captured

@[simp] theorem skip_tick : skip.elapsed (log ++ [.tick]) = (skip.elapsed log).map (· + 1) :=
  Interval.elapsed_snoc log .tick

@[simp] theorem skip_zeroed : skip.elapsed (log ++ [.zeroed]) = skip.elapsed log :=
  Interval.elapsed_snoc log .zeroed

@[simp] theorem rearm_tick : rearm.elapsed (log ++ [.tick]) = (rearm.elapsed log).map (· + 1) :=
  Interval.elapsed_snoc log .tick

@[simp] theorem rearm_restarted : rearm.elapsed (log ++ [.restarted]) = rearm.elapsed log :=
  Interval.elapsed_snoc log .restarted

@[simp] theorem rearm_captured : rearm.elapsed (log ++ [.captured]) = rearm.elapsed log :=
  Interval.elapsed_snoc log .captured

@[simp] theorem rearm_removed : rearm.elapsed (log ++ [.removed]) = none :=
  Interval.elapsed_snoc log .removed

@[simp] theorem rearm_zeroed : rearm.elapsed (log ++ [.zeroed]) = some 0 :=
  Interval.elapsed_snoc log .zeroed

@[simp] theorem rearm_armed : rearm.elapsed (log ++ [.armed]) = rearm.elapsed log :=
  Interval.elapsed_snoc log .armed

end

-- The flag is not set in between.
def Unarmed (es : List Event) : Prop := ∀ e ∈ es, e ≠ .armed ∧ e ≠ .restarted

namespace Detection

def Idle (s : Detection) : Prop := s.installed = false ∧ s.count = 0

def Skipping (s : Detection) : Prop := skip.elapsed s.log = some s.count

def Scanning (s : Detection) : Prop :=
  (s.flag = true ∧ s.Idle) ∨ (s.flag = false ∧ s.Skipping)

def Rearming (s : Detection) : Prop := s.count = 0 ∧ rearm.elapsed s.log ≠ none

def At : Statement → Detection → Prop
  | .count, s | .transmit, s => s.installed = false
  | .flag, s | .capture, s | .disarm, s => s.Idle
  | .numbers, s | .callback, s | .waiting, s => s.flag = true ∧ s.Idle
  | .install, s => s.flag = false ∧ s.Idle
  | .look, s | .check, s | .door, s | .print, s => s.Scanning
  | .zero, s => 80 ≤ s.count ∧ s.Skipping
  | .arm, s => s.Rearming ∧ ∃ n, 80 ≤ n ∧ skip.elapsed s.log = some n
  | .announce, s | .remove, s => s.flag = true ∧ s.Rearming
  | .leave, _ => True

variable {s : Detection} {e : Event}

@[simp] theorem record_log : (s.record e).log = s.log ++ [e] := rfl

@[simp] theorem tick_log : s.tick.log = s.log ++ [.tick] := rfl

theorem Idle.scanning (hf : s.flag = true) (h : s.Idle) : s.Scanning := .inl ⟨hf, h⟩

-- Only an installed callback counts up to 80.
theorem Scanning.skipping (h : s.Scanning) (hc : 80 ≤ s.count) : s.Skipping := by
  rcases h with ⟨-, hi⟩ | ⟨-, hs⟩
  · have hz : s.count = 0 := hi.2
    omega
  · exact hs

theorem Scanning.idle (h : s.Scanning) (hf : s.flag = true) : s.Idle := by
  rcases h with ⟨-, hi⟩ | ⟨hf', -⟩
  · exact hi
  · simp [hf] at hf'

theorem at_statement (i : Sense) (p : Statement) (h : At p s) :
    At (s.statement i p).1 (s.statement i p).2 := by
  cases p with
  | count => exact ⟨h, rfl⟩
  | flag => exact ⟨rfl, h⟩
  | numbers | capture | announce | print => exact h
  | callback => exact ⟨h.1, rfl, h.2.2⟩
  | waiting =>
    cases hi : i.serial with
    | true =>
      rw [statement, if_pos hi]
      exact h.2.scanning h.1
    | false =>
      rw [statement, if_neg (ne_true_of_eq_false hi)]
      exact h
  | look =>
    by_cases hb : s.flag ∧ ∃ b ∈ i.blobs, triggers b.1 b.2
    · rw [statement, if_pos hb]
      exact Scanning.idle h hb.1
    · rw [statement, if_neg hb]
      exact h
  | disarm => exact ⟨rfl, h⟩
  | install =>
    have hz : s.count = 0 := h.2.2
    exact .inr ⟨h.1, (skip_captured s.log).trans (congrArg some hz.symm)⟩
  | check =>
    by_cases hc : 80 ≤ s.count
    · rw [statement, if_pos hc]
      exact ⟨hc, Scanning.skipping h hc⟩
    · rw [statement, if_neg hc]
      exact h
  | zero =>
    have hn : skip.elapsed s.log = some s.count := h.2
    refine ⟨⟨rfl, ?_⟩, s.count, h.1, (skip_zeroed s.log).trans hn⟩
    exact (rearm_zeroed s.log).trans_ne (Option.some_ne_none 0)
  | arm =>
    obtain ⟨⟨hz, hr⟩, -⟩ := h
    exact ⟨rfl, hz, (rearm_armed s.log).trans_ne hr⟩
  | remove => exact .inl ⟨h.1, rfl, h.2.1⟩
  | door =>
    cases hi : i.low with
    | true =>
      rw [statement, if_pos hi]
      by_cases hl : 2 ≤ s.stableLow + 1
      · rw [if_pos hl]
        trivial
      · rw [if_neg hl]
        exact h
    | false =>
      rw [statement, if_neg (ne_true_of_eq_false hi)]
      exact h
  | leave => exact rfl
  | transmit =>
    by_cases hn : s.imageTransNum ≤ s.imageNum
    · rw [statement, if_pos hn]
      exact rfl
    · rw [statement, if_neg hn]
      exact h

theorem full_statement (i : Sense) (p : Statement) (h : At p s) (hf : Every Full s.log) :
    Every Full (s.statement i p).2.log := by
  cases p with
  | arm => exact every_snoc.mpr ⟨hf, fun _ => h.2⟩
  | flag | install | zero | remove => exact every_snoc.mpr ⟨hf, nofun⟩
  | count | numbers | callback | waiting | look | capture | disarm | check | announce | print
  | leave => exact hf
  | door | transmit =>
    rw [statement]
    split <;> exact hf

theorem at_tick (p : Statement) (h : At p s) (hs : s.installed = true)
    (hq : Quiet s.log .tick) : At p s.tick := by
  have idle : ¬s.Idle := fun hi => by simp [hi.1] at hs
  have rearming : ¬s.Rearming := fun hr => hr.2 (hq rfl)
  have skipping (hc : s.Skipping) : s.tick.Skipping := by
    have hn : skip.elapsed s.log = some s.count := hc
    exact (skip_tick s.log).trans (congrArg (Option.map (· + 1)) hn)
  cases p with
  | count | transmit => exact h
  | flag | capture | disarm => exact absurd h idle
  | numbers | callback | waiting | install => exact absurd h.2 idle
  | look | check | door | print =>
    rcases h with ⟨-, hi⟩ | ⟨hf, hc⟩
    · exact absurd hi idle
    · exact .inr ⟨hf, skipping hc⟩
  | zero => exact ⟨h.1.trans (Nat.le_succ _), skipping h.2⟩
  | arm => exact absurd h.1 rearming
  | announce | remove => exact absurd h.2 rearming
  | leave => trivial

theorem statement_log (i : Sense) (p : Statement) : s.log <+: (s.statement i p).2.log := by
  cases p with
  | flag | install | zero | arm | remove => exact List.prefix_append _ _
  | count | numbers | callback | waiting | look | capture | disarm | check | announce | print
  | leave => exact List.prefix_rfl
  | door | transmit =>
    rw [statement]
    split <;> exact List.prefix_rfl

end Detection

theorem at_reach {p : Statement} {s : Detection} (h : detection.Reach p s)
    (hq : Every Quiet s.log) : Detection.At p s ∧ Every Full s.log := by
  refine Machine.Reach.every (I := fun p s => Detection.At p s ∧ Every Full s.log) ?_ ?_ ?_ ?_ ?_ h hq
  · rintro p s q t ⟨i, hs⟩
    have hl := Detection.statement_log (s := s) i p
    rwa [hs] at hl
  · rintro s t ⟨-, rfl⟩
    exact List.prefix_append _ _
  · exact ⟨rfl, Concurrency.Trace.every_nil⟩
  · rintro p s q t - ⟨ha, hf⟩ ⟨i, hs⟩ -
    have ht := And.intro (Detection.at_statement i p ha) (Detection.full_statement i p ha hf)
    rwa [hs] at ht
  · rintro p s t - ⟨ha, hf⟩ ⟨hi, rfl⟩ hq
    exact ⟨Detection.at_tick p ha hi (every_snoc.mp hq).2, every_snoc.mpr ⟨hf, nofun⟩⟩

-- The condition in terms of where the main loop stands.
def Statement.rearming : Statement → Bool
  | .arm | .announce | .remove => true
  | _ => false

theorem rearming_statement (i : Sense) (p : Statement) (s : Detection)
    (h : (rearm.elapsed s.log).isSome = p.rearming) :
    (rearm.elapsed (s.statement i p).2.log).isSome = (s.statement i p).1.rearming := by
  cases p with
  | waiting | look | check | transmit =>
    rw [Detection.statement]
    split <;> exact h
  | door =>
    rw [Detection.statement]
    split
    · split <;> exact h
    · exact h
  | flag => exact (congrArg Option.isSome (rearm_restarted s.log)).trans h
  | install => exact (congrArg Option.isSome (rearm_captured s.log)).trans h
  | zero => exact congrArg Option.isSome (rearm_zeroed s.log)
  | arm => exact (congrArg Option.isSome (rearm_armed s.log)).trans h
  | remove => exact congrArg Option.isSome (rearm_removed s.log)
  | count | numbers | callback | capture | disarm | announce | print | leave => exact h

theorem rearming_reach {p : Statement} {s : Detection} (h : detection.Reach p s) :
    (rearm.elapsed s.log).isSome = p.rearming := by
  induction h with
  | init => rfl
  | own hp hs ih =>
    obtain ⟨i, hs⟩ := hs
    have hnext := rearming_statement i _ _ ih
    rwa [hs] at hnext
  | env hp hs ih =>
    obtain ⟨-, rfl⟩ := hs
    simpa using ih

section
variable {p : Statement} {s : Detection}

theorem tick_iterate (s : Detection) (n : Nat) :
    Detection.tick^[n] s =
      { s with count := s.count + n, log := s.log ++ List.replicate n Event.tick } := by
  induction n with
  | zero => simp
  | succ n ih =>
    rw [Function.iterate_succ_apply', ih, List.replicate_succ', ← List.append_assoc]
    rfl

theorem reach_ticks (h : detection.Reach p s) (hs : s.installed = true) (n : Nat) :
    detection.Reach p
      { s with count := s.count + n, log := s.log ++ List.replicate n Event.tick } := by
  rw [← tick_iterate]
  induction n with
  | zero => exact h
  | succ n ih =>
    rw [Function.iterate_succ_apply']
    refine ih.env ⟨?_, rfl⟩
    rw [tick_iterate]
    exact hs

def Sense.clear : Sense := ⟨true, [], false⟩

def Sense.blob : Sense := ⟨true, [(30, 70)], false⟩

theorem reach_install (h : detection.Reach .look s) (hf : s.flag = true) :
    detection.Reach .install { s with imageNum := s.imageNum + 1, flag := false } := by
  have hl : s.statement .blob .look = (.capture, s) := by
    simp [Detection.statement, hf, Sense.blob, triggers]
  have hc : detection.Reach .capture s := h.own ⟨.blob, hl⟩
  have hd : detection.Reach .disarm { s with imageNum := s.imageNum + 1 } := hc.own ⟨.clear, rfl⟩
  exact hd.own ⟨.clear, rfl⟩

theorem first_install :
    ∃ s, detection.Reach .install s ∧ s.count = 0 ∧ s.log = [Event.restarted] := by
  have hflag : detection.Reach .flag .init := Machine.Reach.init.own ⟨.clear, rfl⟩
  have hnumbers : detection.Reach .numbers ⟨0, true, 0, 0, 0, false, [Event.restarted]⟩ :=
    hflag.own ⟨.clear, rfl⟩
  have hcallback : detection.Reach .callback ⟨0, true, 0, 1, 0, false, [Event.restarted]⟩ :=
    hnumbers.own ⟨.clear, rfl⟩
  have hwaiting : detection.Reach .waiting ⟨0, true, 0, 1, 0, false, [Event.restarted]⟩ :=
    hcallback.own ⟨.clear, rfl⟩
  exact ⟨_, reach_install (hwaiting.own ⟨.clear, rfl⟩) rfl, rfl, rfl⟩

theorem reach_announce (h : detection.Reach .check s) (hc : 80 ≤ s.count) :
    detection.Reach .announce
      { s with count := 0, flag := true, log := s.log ++ [Event.zeroed] ++ [Event.armed] } := by
  have hz : detection.Reach .zero s := h.own ⟨.clear, by simp [Detection.statement, hc]⟩
  have ha : detection.Reach .arm { s with count := 0, log := s.log ++ [Event.zeroed] } :=
    hz.own ⟨.clear, rfl⟩
  exact ha.own ⟨.clear, rfl⟩

-- The ticks that the skip starts with are missing from it.
theorem skip_from (h : detection.Reach .install s) (hr : s.count ≤ 80) :
    ∃ t, detection.Reach .announce t ∧ t.flag = true ∧ t.installed = true ∧ t.count = 0 ∧
      t.log = s.log ++ Event.captured ::
        (List.replicate (80 - s.count) Event.tick ++ [Event.zeroed]) ++ [Event.armed] := by
  have hi : detection.Reach .check
      { s with log := s.log ++ [Event.captured], installed := true } := h.own ⟨.clear, rfl⟩
  have hc : 80 ≤ s.count + (80 - s.count) := (Nat.add_sub_of_le hr).ge
  refine ⟨_, reach_announce (reach_ticks hi rfl (80 - s.count)) hc, rfl, rfl, rfl, ?_⟩
  simp

-- Ticks that come before the callback is removed are still counted at the next capture.
theorem residue_from (h : detection.Reach .announce s) (hf : s.flag = true)
    (hi : s.installed = true) (hz : s.count = 0) (r : Nat) :
    ∃ t, detection.Reach .install t ∧ t.count = r := by
  let late : Detection :=
    { s with count := s.count + r, log := s.log ++ List.replicate r Event.tick }
  have hremove : detection.Reach .remove late := (reach_ticks h hi r).own ⟨.clear, rfl⟩
  have hdoor : detection.Reach .door { late.record .removed with installed := false } :=
    hremove.own ⟨.clear, rfl⟩
  have hprint : detection.Reach .print
      { late.record .removed with installed := false, stableLow := 0 } := hdoor.own ⟨.clear, rfl⟩
  have hlook := hprint.own ⟨.clear, rfl⟩
  refine ⟨_, reach_install hlook hf, ?_⟩
  exact (congrArg (· + r) hz).trans (Nat.zero_add r)

theorem replicate_zeroed (n : Nat) :
    Unarmed (List.replicate n Event.tick ++ [Event.zeroed]) := by
  intro e he
  rcases List.mem_append.mp he with ht | hz
  · simp [List.eq_of_mem_replicate ht]
  · simp [List.mem_singleton.mp hz]

theorem short_skip (r : Nat) (hr : r ≤ 80) : ∃ p s a b, detection.Reach p s ∧
    s.log = a ++ Event.captured :: b ++ [Event.armed] ∧ Unarmed b ∧
    b.count Event.tick = 80 - r := by
  obtain ⟨s, hs, hc, -⟩ := first_install
  obtain ⟨t, ht, hf, hi, hz, -⟩ := skip_from hs (hc ▸ Nat.zero_le 80)
  obtain ⟨u, hu, rfl⟩ := residue_from ht hf hi hz r
  obtain ⟨v, hv, -, -, -, hlog⟩ := skip_from hu hr
  refine ⟨_, v, _, _, hv, hlog, replicate_zeroed _, ?_⟩
  simp [List.count_append]

end

theorem quiet_ticks {log : List Event} (h : Every Quiet log) (hr : rearm.elapsed log = none)
    (n : Nat) : Every Quiet (log ++ List.replicate n Event.tick) ∧
      rearm.elapsed (log ++ List.replicate n Event.tick) = none := by
  induction n with
  | zero => exact ⟨by rwa [List.replicate_zero, List.append_nil],
      by rwa [List.replicate_zero, List.append_nil]⟩
  | succ n ih =>
    rw [List.replicate_succ', ← List.append_assoc]
    exact ⟨every_snoc.mpr ⟨ih.1, fun _ => ih.2⟩, by rw [rearm_tick, ih.2]; rfl⟩

theorem quiet_first_skip (n : Nat) :
    Every Quiet ([Event.restarted] ++ Event.captured ::
      (List.replicate n Event.tick ++ [Event.zeroed]) ++ [Event.armed]) := by
  have hstart : Every Quiet [Event.restarted, Event.captured] :=
    (Concurrency.Trace.every_of_mem (P := (· ≠ Event.tick)) (by simp)).mono fun _ _ hne he =>
      absurd he hne
  have hticks := (quiet_ticks hstart rfl n).1
  have hend : Every Quiet ([Event.restarted, Event.captured] ++ List.replicate n Event.tick ++
      [Event.zeroed] ++ [Event.armed]) :=
    every_snoc.mpr ⟨every_snoc.mpr ⟨hticks, fun h => by cases h⟩, fun h => by cases h⟩
  simpa using hend

theorem full_skip_of_quiet {p : Statement} {s : Detection} (h : detection.Reach p s)
    (hq : Every Quiet s.log) (a b c : List Event)
    (hlog : s.log = a ++ Event.captured :: b ++ Event.armed :: c)
    (hb : Unarmed b) : 80 ≤ b.count Event.tick := by
  obtain ⟨n, hn, heq⟩ := (at_reach h hq).2 (a ++ Event.captured :: b) Event.armed c hlog rfl
  have hopen (e : Event) (he : e ∈ b) : skip.closes e = false := by
    simpa [skip] using hb e he
  obtain ⟨m, hm, heq'⟩ : ∃ m ≤ b.countP skip.counts,
      skip.elapsed (a ++ Event.captured :: b) = some m := Interval.elapsed_le rfl hopen
  have hnm : n = m := Option.some.inj (heq.symm.trans heq')
  calc 80 ≤ n := hn
    _ ≤ b.countP skip.counts := hnm ▸ hm
    _ = b.count Event.tick := rfl

theorem first_skip_full : ∃ s b, detection.Reach .announce s ∧ Every Quiet s.log ∧
    s.log = [Event.restarted] ++ Event.captured :: b ++ Event.armed :: [] ∧
    80 ≤ b.count Event.tick := by
  obtain ⟨s, hs, hc, hlog⟩ := first_install
  obtain ⟨t, ht, -, -, -, htlog⟩ := skip_from hs (hc ▸ Nat.zero_le 80)
  rw [hc, hlog] at htlog
  have hq : Every Quiet t.log := htlog ▸ quiet_first_skip 80
  refine ⟨t, _, ht, hq, htlog, full_skip_of_quiet ht hq _ _ _ htlog ?_⟩
  exact replicate_zeroed 80

theorem residual_tick_shortens : ∃ p s a b, detection.Reach p s ∧
    s.log = a ++ Event.captured :: b ++ [Event.armed] ∧ Unarmed b ∧
    b.count Event.tick = 79 :=
  short_skip 1 (by decide)

end FabricInspection.Camera
