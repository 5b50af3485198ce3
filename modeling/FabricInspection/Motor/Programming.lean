import FabricInspection.Motor.Regulation
import FabricInspection.Motor.Stop
import FabricInspection.Concurrency.Observer
import Mathlib.Data.List.DropRight

namespace FabricInspection

open Concurrency (Platform)

def Event.isCommand : Event → Bool
  | .command _ => true
  | _ => false

-- What has happened since the command at hand was taken up.
def sinceCommand (log : List Event) : List Event := log.rtakeWhile fun e => !e.isCommand

def SetSince (log : List Event) (i : MotorId) : Prop :=
  ∃ who period pulse, .call who (.pwmSet i period pulse) ∈ sinceCommand log

@[simp] theorem sinceCommand_nil : sinceCommand [] = [] := by simp [sinceCommand]

theorem sinceCommand_command (log : List Event) (ch : Char) :
    sinceCommand (log ++ [.command ch]) = [] :=
  List.rtakeWhile_concat_neg _ _ _ (by simp [Event.isCommand])

theorem sinceCommand_snoc (log : List Event) {e : Event} (he : e.isCommand = false) :
    sinceCommand (log ++ [e]) = sinceCommand log ++ [e] :=
  List.rtakeWhile_concat_pos _ _ _ (by simp [he])

theorem sinceCommand_append (log : List Event) {es : List Event}
    (h : ∀ e ∈ es, e.isCommand = false) : sinceCommand (log ++ es) = sinceCommand log ++ es := by
  induction es using List.reverseRecOn with
  | nil => simp
  | append_singleton es e ih =>
    rw [← List.append_assoc, sinceCommand_snoc _ (h e (by simp)),
      ih fun x hx => h x (by simp [hx]), List.append_assoc]

theorem sinceCommand_filter (log : List Event) :
    (sinceCommand log).filter Event.byCtrl = sinceCommand (log.filter Event.byCtrl) := by
  induction log using List.reverseRecOn with
  | nil => simp
  | append_singleton log e ih =>
    cases he : e.isCommand with
    | true =>
      obtain ⟨ch, rfl⟩ : ∃ ch, e = .command ch := by
        cases e with
        | command ch => exact ⟨ch, rfl⟩
        | _ => cases he
      rw [sinceCommand_command, List.filter_append]
      exact (sinceCommand_command _ ch).symm
    | false =>
      rw [sinceCommand_snoc _ he, List.filter_append, List.filter_append, ih]
      cases hb : e.byCtrl with
      | true => simp [hb, sinceCommand_snoc _ he]
      | false => simp [hb]

theorem Handles.sinceCommand_eq {log : List Event} {ch : Char} {made : List Call}
    (h : Handles log ch made) : sinceCommand log = made.map (.call .ctrl) := by
  obtain ⟨pre, rfl⟩ := h
  rw [← List.singleton_append, ← List.append_assoc, sinceCommand_append, sinceCommand_command]
  · rfl
  · intro e he
    obtain ⟨c, -, rfl⟩ := List.mem_map.mp he
    rfl

-- What an iteration of the speed controller writes to the active motor.
def Motor.controls (m : Motor) (rpm : UInt16) : List Event :=
  if m.closedLoopEnable && !m.missing then
    [.call .pid (.pwmSet m.active (Motor.periodNs rpm) (Motor.periodNs rpm / 2))]
  else []

theorem motorSetActiveSpeedRpm_log (s : Board) (rpm : UInt16)
    (h : s.motor.closedLoopEnable = true) :
    (s.motorSetActiveSpeedRpm rpm).log = s.log ++ s.motor.controls rpm := by
  unfold Board.motorSetActiveSpeedRpm Motor.controls
  rw [h, Bool.true_and]
  cases s.motor.missing with
  | true => exact (List.append_nil _).symm
  | false => rfl

theorem speedPidIteration_log (s : Board) (cnt : UInt16) (now : UInt32) :
    ∃ rpm, (s.speedPidIteration cnt now).log = s.log ++ .iteration :: s.motor.controls rpm := by
  simp only [Board.speedPidIteration]
  split
  · rename_i hc
    refine ⟨UInt16.ofNat ⌊(s.motor.pid.control s.motor.targetSpeedMmps cnt now).2⌋₊, ?_⟩
    rw [motorSetActiveSpeedRpm_log]
    · exact List.append_assoc s.log [.iteration] (s.motor.controls _)
    · exact hc
  · rename_i hc
    refine ⟨0, ?_⟩
    have hclosed : s.motor.closedLoopEnable = false := Bool.eq_false_iff.mpr hc
    simp [Motor.controls, hclosed]

theorem mem_controls {m : Motor} {rpm : UInt16} {e : Event} (h : e ∈ m.controls rpm) :
    (m.closedLoopEnable = true ∧ m.missing = false) ∧
      e = .call .pid (.pwmSet m.active (Motor.periodNs rpm) (Motor.periodNs rpm / 2)) := by
  unfold Motor.controls at h
  split at h
  · rename_i hc
    exact ⟨by simpa using hc, List.mem_singleton.mp h⟩
  · cases h

section
variable {w : World} {pin : Pin → Bool} {found : MotorId → Bool}

-- An iteration that programs the motor of the reverse direction.
def refreshes (c : Config w) : (inspector w).Action → Bool
  | .interrupt (Irq.pid _ _) => c.state.motor.closedLoopEnable && c.state.motor.gDirectionReverse
  | _ => false

-- An observer that remembers such an iteration until the next command.
def refreshed (fresh : Bool) (c : Config w) (a : (inspector w).Action) (d : Config w) : Bool :=
  !(sinceCommand d.state.log).isEmpty && (fresh || refreshes c a)

def Fresh (w : World) (pin : Pin → Bool) (found : MotorId → Bool) (fresh : Bool)
    (c : Config w) : Prop :=
  Platform.Observed refreshed (fun _ _ _ _ => True) false (start w pin found) fresh c

theorem sinceCommand_same {c d : Config w} (h : d.state.log = c.state.log) :
    ∃ es, sinceCommand d.state.log = sinceCommand c.state.log ++ es ∧
      ∀ who i period pulse, .call who (.pwmSet i period pulse) ∈ es → who = .ctrl :=
  ⟨[], by rw [h, List.append_nil], nofun⟩

-- The events a step adds since the command: its own, or none when it takes a command up.
theorem sinceCommand_step {c d : Config w} {a : (inspector w).Action}
    (h : Platform.Reach (start w pin found) c) (hs : Platform.step c a = some d) :
    sinceCommand d.state.log = [] ∨
      (refreshes c a = false ∧
        ∃ es, sinceCommand d.state.log = sinceCommand c.state.log ++ es ∧
          ∀ who i period pulse, .call who (.pwmSet i period pulse) ∈ es → who = .ctrl) ∨
      ∃ cnt now rpm, a = .interrupt (.pid cnt now) ∧ sinceCommand d.state.log =
        sinceCommand c.state.log ++ .iteration :: c.state.motor.controls rpm := by
  rcases step_effect h hs with ⟨hne, he⟩ | ⟨e, rfl, he⟩
  · have hno : refreshes c a = false := by
      cases a with
      | interrupt e => exact (hne e rfl).elim
      | start | run => rfl
    rcases he with he | ⟨-, he⟩ | he
    · exact .inr (.inl ⟨hno, sinceCommand_same (by rw [he])⟩)
    · rcases he.log with hl | ⟨e, hl, ho⟩
      · exact .inr (.inl ⟨hno, sinceCommand_same hl⟩)
      · cases hc : e.isCommand with
        | true =>
          cases e with
          | command ch => exact .inl (by rw [hl, sinceCommand_command])
          | _ => cases hc
        | false =>
          refine .inr (.inl ⟨hno, [e], by rw [hl, sinceCommand_snoc _ hc], ?_⟩)
          intro who i period pulse hm
          rw [← List.mem_singleton.mp hm] at ho
          cases who with
          | ctrl => rfl
          | pid | recv => cases ho
    · obtain ⟨es, hl, hr⟩ := he.log
      refine .inr (.inl ⟨hno, es, ?_, ?_⟩)
      · rw [hl, sinceCommand_append]
        intro e hm
        cases e with
        | command ch => cases hr _ hm
        | _ => rfl
      · intro who i period pulse hm
        cases who with
        | ctrl => rfl
        | pid | recv => cases hr _ hm
  · cases e with
    | uart3 b =>
      obtain ⟨-, hl | ⟨image, hl⟩⟩ := uart3_effect he
      · exact .inr (.inl ⟨rfl, sinceCommand_same hl⟩)
      · exact .inr (.inl ⟨rfl, [.committed image], by rw [hl, sinceCommand_snoc _ rfl], by simp⟩)
    | pid cnt now =>
      simp only [Board.interrupt, Except.ok.injEq] at he
      obtain ⟨rpm, hl⟩ := speedPidIteration_log c.state cnt now
      refine .inr (.inr ⟨cnt, now, rpm, rfl, ?_⟩)
      rw [← he, hl, sinceCommand_append]
      intro e hm
      rcases List.mem_cons.mp hm with rfl | hm
      · rfl
      · rw [(mem_controls hm).2]
        rfl

theorem missing_iff {c : Config w} (h : Platform.Reach (start w pin found) c) :
    c.state.motor.missing = false ↔ ∀ j, found j = true := by
  have h1 := reach_present h .motor1
  have h2 := reach_present h .motor2
  simp only [Motor.missing, ← Option.not_isSome, h1, h2]
  constructor
  · intro hm j
    cases j <;> simp_all
  · intro hf
    simp [hf]

theorem refreshed_nil {fresh : Bool} {c d : Config w} {a : (inspector w).Action}
    (h : sinceCommand d.state.log = []) : refreshed fresh c a d = false := by
  simp [refreshed, h]

theorem refreshed_cons {fresh : Bool} {c d : Config w} {a : (inspector w).Action}
    (h : sinceCommand d.state.log ≠ []) : refreshed fresh c a d = (fresh || refreshes c a) := by
  simp [refreshed, h]

-- Only the speed controller programs an output behind the back of the control thread.
theorem sets_by_others {fresh : Bool} {c : Config w} (h : Fresh w pin found fresh c) {who : Party}
    {i : MotorId} {period pulse : Nat}
    (hm : .call who (.pwmSet i period pulse) ∈ sinceCommand c.state.log) :
    who = .ctrl ∨ who = .pid ∧ ∀ j, found j = true := by
  induction h with
  | start => simp [start, Platform.boot, Board.initial] at hm
  | step h hs hok ih =>
    rcases sinceCommand_step h.reach hs with hn | ⟨-, es, hl, hes⟩ | ⟨cnt, now, rpm, -, hl⟩
    · simp [hn] at hm
    · rw [hl] at hm
      rcases List.mem_append.mp hm with hm | hm
      · exact ih hm
      · exact .inl (hes _ _ _ _ hm)
    · rw [hl] at hm
      rcases List.mem_append.mp hm with hm | hm
      · exact ih hm
      · rcases List.mem_cons.mp hm with he | hm
        · cases he
        · obtain ⟨⟨-, hmiss⟩, he⟩ := mem_controls hm
          cases he
          exact .inr ⟨rfl, (missing_iff h.reach).mp hmiss⟩

theorem fresh_iff {fresh : Bool} {c : Config w} (h : Fresh w pin found fresh c) :
    (∃ period pulse, .call .pid (.pwmSet .motor2 period pulse) ∈ sinceCommand c.state.log) ↔
      fresh = true ∧ ∀ j, found j = true := by
  induction h with
  | start => simp [start, Platform.boot, Board.initial]
  | @step fresh c d a h hs hok ih =>
    by_cases hn : sinceCommand d.state.log = []
    · simp [refreshed_nil hn, hn]
    rw [refreshed_cons hn]
    rcases sinceCommand_step h.reach hs with hn' | ⟨hno, es, hl, hes⟩ | ⟨cnt, now, rpm, rfl, hl⟩
    · exact (hn hn').elim
    · rw [hno, Bool.or_false, ← ih, hl]
      constructor
      · rintro ⟨period, pulse, hm⟩
        rcases List.mem_append.mp hm with hm | hm
        · exact ⟨period, pulse, hm⟩
        · cases hes _ _ _ _ hm
      · rintro ⟨period, pulse, hm⟩
        exact ⟨period, pulse, List.mem_append_left _ hm⟩
    · rw [hl]
      have hctl : (∃ period pulse, Event.call .pid (.pwmSet .motor2 period pulse) ∈
          c.state.motor.controls rpm) ↔
          refreshes c (.interrupt (.pid cnt now)) = true ∧ ∀ j, found j = true := by
        rw [← missing_iff h.reach]
        simp only [Motor.controls, refreshes, Motor.active]
        cases c.state.motor.closedLoopEnable <;> cases c.state.motor.gDirectionReverse <;>
          cases c.state.motor.missing <;> simp
      simp only [List.mem_append, List.mem_cons, reduceCtorEq, false_or, exists_or, ih, hctl,
        Bool.or_eq_true, or_and_right]

end

namespace CtrlStep

theorem switches_on {v w : View} (h : CtrlStep v w) {i : MotorId} (hoff : v.drive.on i = false)
    (hon : w.drive.on i = true) :
    ∃ ch made, v.Handling ch made ∧ Permits v.drive ch made (.pwmEnable i) := by
  cases h with
  | silent | assign | command | handled => exact (Bool.false_ne_true (hoff.symm.trans hon)).elim
  | call ch made c handling permitted =>
    cases c with
    | pwmEnable j =>
      by_cases hj : i = j
      · subst hj
        exact ⟨ch, made, handling, permitted⟩
      · simp [View.call, Drive.apply, hj, hoff] at hon
    | pwmDisable j =>
      by_cases hj : i = j
      · simp [View.call, Drive.apply, hj] at hon
      · simp [View.call, Drive.apply, hj, hoff] at hon
    | pinWrite p level =>
      cases p <;> exact (Bool.false_ne_true (hoff.symm.trans hon)).elim
    | pwmSet | uart4Write | sleep | wake =>
      exact (Bool.false_ne_true (hoff.symm.trans hon)).elim

theorem programs {v w : View}
    (hv : ∀ ch made i period pulse, Handles v.trace ch made → .pwmSet i period pulse ∈ made →
      Programs v.drive ch)
    (h : CtrlStep v w) {ch : Char} {made : List Call} {i : MotorId} {period pulse : Nat}
    (hw : Handles w.trace ch made) (hm : .pwmSet i period pulse ∈ made) : Programs w.drive ch := by
  have hpresent := h.present_eq
  rw [Programs, hpresent]
  cases h with
  | silent => exact hv ch made i period pulse hw hm
  | assign => exact hv ch made i period pulse hw hm
  | call ch' made' c handling permitted =>
    rcases handles_snoc hw with ⟨-, he⟩ | ⟨before, c', rfl, he, hb⟩
    · cases he
    · cases he
      obtain ⟨rfl, rfl⟩ := Handles.unique handling hb
      rcases List.mem_append.mp hm with hm | hm
      · exact hv ch' made' i period pulse handling hm
      · rw [← List.mem_singleton.mp hm] at permitted
        exact permitted
  | command ch' =>
    rcases handles_snoc hw with ⟨rfl, -⟩ | ⟨before, c', -, he, -⟩
    · simp at hm
    · cases he
  | handled ch' =>
    rcases handles_snoc hw with ⟨-, he⟩ | ⟨before, c', -, he, -⟩
    · cases he
    · cases he

end CtrlStep

section
variable {w : World} {pin : Pin → Bool} {found : MotorId → Bool}

theorem reach_programs {c : Config w} (h : Platform.Reach (start w pin found) c) {ch : Char}
    {made : List Call} {i : MotorId} {period pulse : Nat} (hh : Handles c.state.ctrlTrace ch made)
    (hm : .pwmSet i period pulse ∈ made) : Programs c.state.view.drive ch := by
  refine view_invariant (I := fun v => ∀ ch made i period pulse, Handles v.trace ch made →
    .pwmSet i period pulse ∈ made → Programs v.drive ch) ?_
    (fun _ _ hv hstep _ _ _ _ _ => hstep.programs hv) h ch made i period pulse hh hm
  rintro _ _ _ _ _ ⟨pre, hp⟩
  rw [initial_trace] at hp
  simp at hp

theorem mem_sinceCommand {log : List Event} {ch : Char} {made : List Call}
    (h : Handles (log.filter Event.byCtrl) ch made) (c : Call) :
    .call .ctrl c ∈ sinceCommand log ↔ c ∈ made := by
  have hl : (sinceCommand log).filter Event.byCtrl = made.map (.call .ctrl) :=
    (sinceCommand_filter log).trans h.sinceCommand_eq
  constructor
  · intro hm
    have hm' : Event.call .ctrl c ∈ (sinceCommand log).filter Event.byCtrl :=
      List.mem_filter.mpr ⟨hm, rfl⟩
    rw [hl] at hm'
    simpa using hm'
  · intro hm
    have hm' : Event.call .ctrl c ∈ (sinceCommand log).filter Event.byCtrl := by
      rw [hl]
      exact List.mem_map_of_mem hm
    exact (List.mem_filter.mp hm').1

end

-- The commands that start a motor at a speed of their own. The reverse closed loop needs an
-- iteration of the speed controller to do it.
def Ready (found : MotorId → Bool) (fresh : Bool) (ch : Char) : Prop :=
  (jogs ch).isSome ∨ (∀ j, found j = true) ∧ (ch = 'o' → fresh = true)

theorem output_starts_programmed_iff (w : World) (pin : Pin → Bool) (found : MotorId → Bool)
    (fresh : Bool) (c d : Config w) (h : Fresh w pin found fresh c) (a : (inspector w).Action)
    (hs : Platform.step c a = some d) (i : MotorId) (hoff : c.state.motor.pwmOn i = false)
    (hon : d.state.motor.pwmOn i = true) :
    ∃ ch made, Handles c.state.ctrlTrace ch made ∧
      (SetSince c.state.log i ↔ Ready found fresh ch) := by
  obtain ⟨ch, made, handling, -, -, -, honly, hset⟩ :=
    (ctrlStep_of_step h.reach hs).switches_on hoff hon
  have hh : Handles c.state.ctrlTrace ch made := handling
  have hpresent : (∀ j, c.state.view.drive.present j = true) ↔ ∀ j, found j = true := by
    refine forall_congr' fun j => ?_
    have hj : c.state.view.drive.present j = found j := reach_present h.reach j
    rw [hj]
  refine ⟨ch, made, hh, ?_, ?_⟩
  · rintro ⟨who, period, pulse, hm⟩
    rcases sets_by_others h hm with rfl | ⟨rfl, hf⟩
    · obtain ⟨hno, hp⟩ := reach_programs h.reach hh ((mem_sinceCommand hh _).mp hm)
      rw [hpresent] at hp
      exact hp.imp_right fun hf => ⟨hf, fun ho => (hno ho).elim⟩
    · refine .inr ⟨hf, fun ho => ?_⟩
      rw [honly ho] at hm
      exact ((fresh_iff h).mp ⟨period, pulse, hm⟩).1
  · intro hready
    by_cases ho : ch = 'o'
    · subst ho
      obtain ⟨hf, hfresh⟩ := hready.resolve_left (by decide)
      obtain ⟨period, pulse, hm⟩ := (fresh_iff h).mpr ⟨hfresh rfl, hf⟩
      rw [honly rfl]
      exact ⟨.pid, period, pulse, hm⟩
    · obtain ⟨period, pulse, hm⟩ :=
        hset ⟨ho, hready.imp_right fun hf => hpresent.mpr hf.1⟩
      exact ⟨.ctrl, period, pulse, (mem_sinceCommand hh _).mpr hm⟩

-- The first reverse closed loop after boot, up to its rt_pwm_enable.
theorem output_starts_programmed_boot :
    ∃ (fresh : Bool) (c d : Config blindWorld),
      Fresh blindWorld (fun _ => true) (fun _ => true) fresh c ∧
      Platform.step c (.run Task.ctrl) = some d ∧ c.state.motor.pwmOn .motor2 = false ∧
      d.state.motor.pwmOn .motor2 = true ∧ ∃ ch made, Handles c.state.ctrlTrace ch made ∧
        (SetSince c.state.log .motor2 ↔ Ready (fun _ => true) fresh ch) := by
  obtain ⟨fresh, h⟩ := Platform.Observed.of_reach (P := inspector blindWorld) refreshed false
    (c := start blindWorld (fun _ => true) fun _ => true)
    ⟨.start Task.ctrl (some 'o') :: List.replicate 11 (.run Task.ctrl), rfl⟩
  exact ⟨fresh, _, _, h, rfl, rfl, rfl,
    output_starts_programmed_iff _ _ _ _ _ _ h (.run Task.ctrl) rfl _ rfl rfl⟩

theorem reverse_starts_unset :
    ∃ c d : Config blindWorld,
      Platform.Reach (start blindWorld (fun _ => true) fun _ => true) c ∧
      Platform.step c (.run Task.ctrl) = some d ∧ c.state.motor.pwmOn .motor2 = false ∧
      d.state.motor.pwmOn .motor2 = true ∧ ¬SetSince c.state.log .motor2 := by
  refine ⟨_, _, ⟨.start Task.ctrl (some 'o') :: List.replicate 11 (.run Task.ctrl), rfl⟩, rfl, rfl,
    rfl, ?_⟩
  rintro ⟨who, period, pulse, hm⟩
  have hlog : .call who (.pwmSet .motor2 period pulse) ∈
      [Event.command 'o', .call .ctrl (.pwmDisable .motor1), .call .ctrl (.pwmDisable .motor2),
        .call .ctrl (.pinWrite (.dirPlus .motor1) true),
        .call .ctrl (.pinWrite (.dirPlus .motor2) true),
        .call .ctrl (.pinWrite (.ena .motor1) false),
        .call .ctrl (.pinWrite (.ena .motor2) true)] := (List.rtakeWhile_suffix _ _).subset hm
  simp at hlog

end FabricInspection
