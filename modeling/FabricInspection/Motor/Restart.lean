import FabricInspection.Motor.Programming
import FabricInspection.Motor.Feedback

namespace FabricInspection

open Concurrency (Platform)
open Concurrency.Trace (Every every_nil every_snoc every_of_mem)

-- The branch of speed_pid_thread that clears its state, if the next iteration takes it.
def Restarts (s : Board) : Prop :=
  s.motor.closedLoopEnable = true ∧ s.motor.pid.wasEnabled = false

-- At least one iteration runs during every rt_thread_mdelay of 20 ms or more.
def Fair (pre : List Event) (e : Event) : Prop :=
  e = .call .ctrl .wake → ∀ before ms mid, pre = before ++ .call .ctrl (.sleep ms) :: mid →
    (∀ c, .call .ctrl c ∉ mid) → 20 ≤ ms → .iteration ∈ mid

-- The command `ch` is the last thing that the control thread has done, and no iteration has run
-- since.
def Finished (log : List Event) (ch : Char) : Prop :=
  ∃ pre post, log = pre ++ .handled ch :: post ∧ ∀ e ∈ post, e.byCtrl = false ∧ e ≠ .iteration

def sinceCtrl (log : List Event) : List Event := log.rtakeWhile fun e => !e.byCtrl

theorem sinceCtrl_snoc {log : List Event} {e : Event} (he : e.byCtrl = true) :
    sinceCtrl (log ++ [e]) = [] :=
  List.rtakeWhile_concat_neg _ _ _ (by simp [he])

theorem sinceCtrl_append {log es : List Event} (h : ∀ e ∈ es, e.byCtrl = false) :
    sinceCtrl (log ++ es) = sinceCtrl log ++ es := by
  induction es using List.reverseRecOn with
  | nil => simp
  | append_singleton es e ih =>
    rw [← List.append_assoc, sinceCtrl, List.rtakeWhile_concat_pos _ _ _ (by simp [h e]),
      ← sinceCtrl, ih fun x hx => h x (by simp [hx]), List.append_assoc]

-- The last event of the control thread, and what the others have done since.
theorem split_sinceCtrl {log tr : List Event} {e : Event}
    (h : log.filter Event.byCtrl = tr ++ [e]) : ∃ pre, log = pre ++ e :: sinceCtrl log := by
  induction log using List.reverseRecOn with
  | nil => simp at h
  | append_singleton log x ih =>
    cases hx : x.byCtrl with
    | true =>
      rw [List.filter_append, List.filter_singleton, hx] at h
      obtain ⟨-, rfl⟩ := List.append_singleton_inj.mp h
      exact ⟨log, by rw [sinceCtrl_snoc hx]⟩
    | false =>
      rw [List.filter_append, List.filter_singleton, hx] at h
      obtain ⟨pre, hp⟩ := ih (by simpa using h)
      refine ⟨pre, ?_⟩
      rw [sinceCtrl_append (by simpa using hx), ← List.cons_append, ← List.append_assoc, ← hp]

theorem not_byCtrl_of_mem {log : List Event} {e : Event} (h : e ∈ sinceCtrl log) :
    e.byCtrl = false := by
  simpa using List.mem_rtakeWhile_imp h

theorem Finished.trace {log : List Event} {ch : Char} (h : Finished log ch) :
    (∃ pre, log.filter Event.byCtrl = pre ++ [Event.handled ch]) ∧
      Event.iteration ∉ sinceCtrl log := by
  obtain ⟨pre, post, rfl, hpost⟩ := h
  have hnil : post.filter Event.byCtrl = [] :=
    List.filter_eq_nil_iff.mpr fun e he => by simp [(hpost e he).1]
  refine ⟨⟨pre.filter Event.byCtrl, ?_⟩, ?_⟩
  · rw [List.filter_append, List.filter_cons_of_pos rfl, hnil]
  · rw [← List.singleton_append, ← List.append_assoc, sinceCtrl_append fun e he => (hpost e he).1,
      sinceCtrl_snoc rfl]
    exact fun he => (hpost _ he).2 rfl

theorem getLineSpeed_wasEnabled (p : Pid) (cnt : UInt16) (now : UInt32) :
    (p.getLineSpeedMmps cnt now).1.wasEnabled = p.wasEnabled := by
  simp only [Pid.getLineSpeedMmps]
  split
  · rfl
  · rfl

theorem control_wasEnabled (p : Pid) (target : ℚ) (cnt : UInt16) (now : UInt32) :
    (p.control target cnt now).1.wasEnabled = true := by
  have hp : p.restarted.wasEnabled = true := by
    rw [Pid.restarted]
    split
    · assumption
    · rfl
  exact (getLineSpeed_wasEnabled p.restarted cnt now).trans hp

-- An iteration remembers whether it found the loop closed.
theorem iteration_wasEnabled (s : Board) (cnt : UInt16) (now : UInt32) :
    (s.speedPidIteration cnt now).motor.pid.wasEnabled = s.motor.closedLoopEnable := by
  cases hc : s.motor.closedLoopEnable with
  | true =>
    simp only [Board.speedPidIteration, Board.emit_motor, hc, if_true, pid_motorSetActiveSpeedRpm]
    exact control_wasEnabled _ _ _ _
  | false =>
    simp only [Board.speedPidIteration, Board.emit_motor, hc]
    rfl

-- What a step of nobody but the control thread and the speed controller can do.
structure Quiet (s t : Board) : Prop where
  view : SameView s t
  pid : t.motor.pid = s.motor.pid
  log : ∃ es, t.log = s.log ++ es ∧ ∀ e ∈ es, e.byCtrl = false ∧ e ≠ .iteration

theorem CtrlOnly.log_of_trace {s t : Board} (h : CtrlOnly s t) {e : Event}
    (ht : t.view.trace = s.view.trace ++ [e]) : t.log = s.log ++ [e] := by
  have hf : t.log.filter Event.byCtrl = s.log.filter Event.byCtrl ++ [e] := ht
  rcases h.log with hl | ⟨x, hl, -⟩
  · rw [hl] at hf
    simp at hf
  · rw [hl, List.filter_append] at hf
    have hx : [x].filter Event.byCtrl = [e] := List.append_cancel_left hf
    cases hb : x.byCtrl with
    | true =>
      rw [List.filter_cons_of_pos hb] at hx
      rw [hl, (List.cons.inj hx).1]
    | false =>
      rw [List.filter_cons_of_neg (by simp [hb])] at hx
      cases hx

theorem CtrlOnly.log_of_same {s t : Board} (h : CtrlOnly s t)
    (ht : t.view.trace = s.view.trace) :
    ∃ es, t.log = s.log ++ es ∧ ∀ e ∈ es, e.byCtrl = false ∧ e ≠ .iteration := by
  rcases h.log with hl | ⟨x, hl, ho⟩
  · exact ⟨[], by rw [hl, List.append_nil], nofun⟩
  · refine ⟨[x], hl, ?_⟩
    have hf : t.log.filter Event.byCtrl = s.log.filter Event.byCtrl := ht
    rw [hl, List.filter_append] at hf
    rintro e he
    obtain rfl := List.mem_singleton.mp he
    refine ⟨?_, by rintro rfl; cases ho⟩
    by_contra hb
    rw [List.filter_cons_of_pos (by simpa using hb)] at hf
    simp at hf

section
variable {w : World} {pin : Pin → Bool} {found : MotorId → Bool}

theorem step_kinds {c d : Config w} {a : (inspector w).Action}
    (h : Platform.Reach (start w pin found) c) (hs : Platform.step c a = some d) :
    (∃ cnt now, a = .interrupt (Irq.pid cnt now) ∧ d.state = c.state.speedPidIteration cnt now) ∨
      (∀ cnt now, a ≠ .interrupt (Irq.pid cnt now)) ∧
        (Quiet c.state d.state ∨ CtrlStep c.state.view d.state.view ∧ CtrlOnly c.state d.state) := by
  rcases step_effect h hs with ⟨hne, he | he | he⟩ | ⟨e, rfl, he⟩
  · refine .inr ⟨fun _ _ => hne _, .inl ?_⟩
    rw [he]
    exact ⟨rfl, rfl, [], by simp, nofun⟩
  · exact .inr ⟨fun _ _ => hne _, .inr he⟩
  · refine .inr ⟨fun _ _ => hne _, .inl ⟨he.view, he.pid, ?_⟩⟩
    obtain ⟨es, hl, hr⟩ := he.log
    refine ⟨es, hl, fun e hm => ?_⟩
    have hrecv := hr e hm
    constructor
    · cases e with
      | call who c => cases who with
        | ctrl => cases hrecv
        | pid | recv => rfl
      | command | handled => cases hrecv
      | _ => rfl
    · rintro rfl
      cases hrecv
  · cases e with
    | uart3 b =>
      refine .inr ⟨nofun, .inl ⟨view_interrupt he, ?_, ?_⟩⟩
      · rw [(uart3_effect he).1]
      · rcases (uart3_effect he).2 with hl | ⟨image, hl⟩
        · exact ⟨[], by rw [hl, List.append_nil], nofun⟩
        · exact ⟨[.committed image], hl, by simp [Event.byCtrl]⟩
    | pid cnt now =>
      simp only [Board.interrupt, Except.ok.injEq] at he
      exact .inl ⟨cnt, now, rfl, he.symm⟩

theorem step_log_grows {c d : Config w} {a : (inspector w).Action}
    (h : Platform.Reach (start w pin found) c)
    (hs : Platform.step c a = some d) : c.state.log <+: d.state.log := by
  rcases step_kinds h hs with ⟨cnt, now, -, hd⟩ | ⟨-, hq | ⟨-, ho⟩⟩
  · obtain ⟨rpm, hl⟩ := speedPidIteration_log c.state cnt now
    rw [hd, hl]
    exact List.prefix_append _ _
  · obtain ⟨es, hl, -⟩ := hq.log
    exact hl ▸ List.prefix_append _ _
  · rcases ho.log with hl | ⟨e, hl, -⟩
    · exact hl ▸ List.prefix_rfl
    · exact hl ▸ List.prefix_append _ _

-- An observer that remembers whether the last iteration found the loop closed.
def saw (on : Bool) (c : Config w) (a : (inspector w).Action) (_ : Config w) : Bool :=
  match a with
  | .interrupt (Irq.pid _ _) => c.state.motor.closedLoopEnable
  | _ => on

-- No iteration falls between the last statement of 'u' and its end, and 'o' does not finish before
-- an iteration has found the loop open.
def Unhurried (on : Bool) (c : Config w) (a : (inspector w).Action) (d : Config w) : Prop :=
  (∀ cnt now made, a = .interrupt (Irq.pid cnt now) → Handles c.state.ctrlTrace 'u' made →
    .wake ∈ made → c.state.motor.closedLoopEnable = false) ∧
  (d.state.log = c.state.log ++ [.handled 'o'] → on = false)

end

theorem not_handles_of_handled {log : List Event} {ch ch' : Char} {made : List Call} :
    ¬Handles (log ++ [.handled ch]) ch' made := by
  intro h
  rcases handles_snoc h with ⟨-, he⟩ | ⟨_, _, -, he, -⟩
  · cases he
  · cases he

-- What is known of the last iteration while 'u' is handled, and after 'u' and 'o'.
structure Known (on : Bool) (v : View) (log : List Event) : Prop where
  asleep : ∀ before ms, Handles v.trace 'u' (before ++ [.sleep ms]) → .wake ∉ before →
    v.drive.closed = false ∧ 20 ≤ ms ∧ (.iteration ∈ sinceCtrl log → on = false)
  awake : ∀ made, Handles v.trace 'u' made → .wake ∈ made → on = false
  finished : ∀ pre ch, v.trace = pre ++ [.handled ch] → ch = 'u' ∨ ch = 'o' →
    .iteration ∉ sinceCtrl log → on = false

namespace Known
variable {on : Bool} {v x : View} {log more : List Event}

theorem others (h : Known on v log) {es : List Event}
    (hes : ∀ e ∈ es, e.byCtrl = false ∧ e ≠ .iteration) : Known on v (log ++ es) := by
  have hmem : .iteration ∈ sinceCtrl (log ++ es) ↔ .iteration ∈ sinceCtrl log := by
    rw [sinceCtrl_append fun e he => (hes e he).1, List.mem_append]
    exact or_iff_left fun he => (hes _ he).2 rfl
  refine ⟨?_, h.awake, ?_⟩
  · rw [hmem]
    exact h.asleep
  · rw [hmem]
    exact h.finished

theorem iteration (h : Known on v log) {es : List Event} (hes : ∀ e ∈ es, e.byCtrl = false)
    (hw : ∀ made, Handles v.trace 'u' made → .wake ∈ made → v.drive.closed = false) :
    Known v.drive.closed v (log ++ .iteration :: es) := by
  refine ⟨?_, hw, ?_⟩
  · intro before ms hh hn
    obtain ⟨hc, hms, -⟩ := h.asleep before ms hh hn
    exact ⟨hc, hms, fun _ => hc⟩
  · intro pre ch _ _ hno
    refine (hno ?_).elim
    rw [sinceCtrl_append]
    · simp
    · intro e he
      rcases List.mem_cons.mp he with rfl | he
      · rfl
      · exact hes e he

theorem assign (h : Known on v log) {ch : Char} {made : List Call} {run reverse closed : Bool}
    (handling : v.Handling ch made)
    (closes : closed = true → v.drive.closed = true ∨ moves ch = true ∧ (ch = 'u' → .wake ∈ made)) :
    Known on { v with drive := { v.drive with run := run, reverse := reverse, closed := closed } }
      log := by
  refine ⟨?_, h.awake, h.finished⟩
  intro before ms hh hn
  obtain ⟨hc, hms, hi⟩ := h.asleep before ms hh hn
  refine ⟨Bool.eq_false_iff.mpr fun ht => ?_, hms, hi⟩
  rcases closes ht with hd | ⟨-, hw⟩
  · exact Bool.false_ne_true (hc.symm.trans hd)
  · obtain ⟨rfl, rfl⟩ := Handles.unique handling hh
    simpa [hn] using hw rfl

-- The wake-up from the first sleep of 'u' comes after an iteration that found the loop open.
theorem wake (h : Known on v log) (ht : v.trace = log.filter Event.byCtrl)
    (hfair : Every Fair (log ++ [Event.call .ctrl .wake])) {before : List Call} {ms : Nat}
    (hh : Handles v.trace 'u' (before ++ [.sleep ms])) (hn : .wake ∉ before) : on = false := by
  obtain ⟨-, hms, hi⟩ := h.asleep before ms hh hn
  obtain ⟨pre, hp⟩ := hh
  have hlast : log.filter Event.byCtrl =
      (pre ++ Event.command 'u' :: before.map (.call .ctrl)) ++
        [Event.call .ctrl (.sleep ms)] := by
    rw [← ht, hp]
    simp
  obtain ⟨start, hl⟩ := split_sinceCtrl hlast
  refine hi ((every_snoc.mp hfair).2 rfl start ms _ hl ?_ hms)
  intro c hc
  cases not_byCtrl_of_mem hc

theorem call (h : Known on v log) (ht : v.trace = log.filter Event.byCtrl) {ch : Char}
    {made : List Call} {c : Call} (handling : v.Handling ch made)
    (permitted : Permits v.drive ch made c) (hfair : Every Fair (log ++ [Event.call .ctrl c])) :
    Known on (v.call c) (log ++ [Event.call .ctrl c]) := by
  refine ⟨?_, ?_, ?_⟩
  · intro before ms hh hn
    rcases handles_snoc hh with ⟨hnil, -⟩ | ⟨before', c', hm, he, hb⟩
    · simp at hnil
    · obtain ⟨rfl, rfl⟩ := List.append_singleton_inj.mp hm
      cases he
      obtain ⟨rfl, rfl⟩ := Handles.unique handling hb
      obtain ⟨-, hu⟩ := permitted
      refine ⟨(hu rfl).1, (hu rfl).2, fun hi => ?_⟩
      rw [sinceCtrl_snoc rfl] at hi
      cases hi
  · intro made' hh hw
    rcases handles_snoc hh with ⟨rfl, -⟩ | ⟨before, c', rfl, he, hb⟩
    · cases hw
    · cases he
      obtain ⟨rfl, rfl⟩ := Handles.unique handling hb
      by_cases hbefore : .wake ∈ made
      · exact h.awake made hb hbefore
      · have hc : c = .wake := by simpa [hbefore, eq_comm] using hw
        subst hc
        obtain ⟨-, before, ms, rfl⟩ := permitted
        exact h.wake ht hfair hb fun hm => hbefore (List.mem_append_left _ hm)
  · intro pre ch' hp
    simp [View.call] at hp

theorem command (ch : Char) : Known on (v.note (.command ch)) more := by
  refine ⟨?_, ?_, ?_⟩
  · intro before ms hh
    rcases handles_snoc hh with ⟨hnil, -⟩ | ⟨_, _, -, he, -⟩
    · simp at hnil
    · cases he
  · intro made hh hw
    rcases handles_snoc hh with ⟨rfl, -⟩ | ⟨_, _, -, he, -⟩
    · cases hw
    · cases he
  · intro pre ch' hp
    simp [View.note] at hp

theorem handled (h : Known on v log) {ch : Char}
    (woken : ch = 'u' → ∃ made, v.Handling ch made ∧ .wake ∈ made)
    (hend : ch = 'o' → on = false) : Known on (v.note (Event.handled ch)) more := by
  refine ⟨fun _ _ hh => (not_handles_of_handled hh).elim,
    fun _ hh => (not_handles_of_handled hh).elim, ?_⟩
  intro pre ch' hp huo _
  obtain ⟨-, he⟩ := List.append_singleton_inj.mp hp
  obtain rfl := Event.handled.inj he
  rcases huo with rfl | rfl
  · obtain ⟨made, hh, hw⟩ := woken rfl
    exact h.awake made hh hw
  · exact hend rfl

end Known

section
variable {w : World} {pin : Pin → Bool} {found : MotorId → Bool}

theorem initial_wasEnabled :
    (start w pin found).state.motor.pid.wasEnabled = false := by
  simp only [start, Platform.boot, Board.initial, motorHwInit]
  split
  · rfl
  · rfl

theorem initial_handles {ch : Char} {made : List Call} :
    ¬Handles (start w pin found).state.view.trace ch made := by
  rintro ⟨pre, hp⟩
  have hnil : [] = pre ++ Event.command ch :: made.map (Event.call .ctrl) := hp
  simp at hnil

theorem Known.ctrl {on : Bool} {s t : Board} (h : Known on s.view s.log)
    (hs : CtrlStep s.view t.view) (ho : CtrlOnly s t) (hfair : Every Fair t.log)
    (hend : t.log = s.log ++ [Event.handled 'o'] → on = false) : Known on t.view t.log := by
  have hlog (e : Event) (ht : t.view.trace = s.view.trace ++ [e]) := ho.log_of_trace ht
  have hsame (ht : t.view.trace = s.view.trace) := ho.log_of_same ht
  have htrace : s.view.trace = s.log.filter Event.byCtrl := rfl
  generalize s.view = v at *
  generalize t.view = x at *
  cases hs with
  | silent =>
    obtain ⟨es, hl, hes⟩ := hsame rfl
    rw [hl]
    exact h.others hes
  | assign ch made run reverse closed handling runs closes =>
    obtain ⟨es, hl, hes⟩ := hsame rfl
    rw [hl]
    exact (h.assign handling closes).others hes
  | call ch made c handling permitted =>
    have hl := hlog _ rfl
    rw [hl] at hfair ⊢
    exact h.call htrace handling permitted hfair
  | command ch => exact command ch
  | handled ch halted released hclosed woken =>
    have hl := hlog _ rfl
    exact h.handled woken fun ho => hend (ho ▸ hl)

theorem saw_quiet {on : Bool} {c d : Config w} {a : (inspector w).Action}
    (h : ∀ cnt now, a ≠ .interrupt (Irq.pid cnt now)) : saw on c a d = on := by
  cases a with
  | interrupt e => cases e with
    | pid cnt now => exact (h cnt now rfl).elim
    | uart3 b => rfl
  | start | run => rfl

theorem known_of_run {on : Bool} {c : Config w}
    (h : Platform.Observed saw Unhurried false (start w pin found) on c)
    (hfair : Every Fair c.state.log) : Known on c.state.view c.state.log := by
  induction h with
  | start => exact ⟨fun _ _ hh => (initial_handles hh).elim,
      fun _ hh => (initial_handles hh).elim, fun _ _ _ _ _ => rfl⟩
  | @step on c d a h hs hok ih =>
    have hknown := ih (hfair.of_prefix (step_log_grows h.reach hs))
    rcases step_kinds h.reach hs with ⟨cnt, now, rfl, hd⟩ | ⟨hne, hd⟩
    · obtain ⟨rpm, hl⟩ := speedPidIteration_log c.state cnt now
      rw [hd, view_speedPidIteration, hl]
      refine hknown.iteration ?_ fun made hh hw => hok.1 cnt now made rfl hh hw
      intro e he
      rw [(mem_controls he).2]
      rfl
    · rw [saw_quiet hne]
      rcases hd with ⟨hv, hp, es, hl, hes⟩ | ⟨hstep, ho⟩
      · have hview : d.state.view = c.state.view := hv
        rw [hview, hl]
        exact hknown.others hes
      · exact hknown.ctrl hstep ho hfair hok.2

theorem CtrlStep.closed {v x : View}
    (hv : ∀ pre ch, v.trace = pre ++ [Event.handled ch] → ch = 'u' ∨ ch = 'o' →
      v.drive.closed = true)
    (h : CtrlStep v x) {pre : List Event} {ch : Char} (hx : x.trace = pre ++ [Event.handled ch])
    (hch : ch = 'u' ∨ ch = 'o') : x.drive.closed = true := by
  cases h with
  | silent => exact hv pre ch hx hch
  | assign ch' made run reverse closed handling =>
    have hh : Handles (pre ++ [Event.handled ch]) ch' made := hx ▸ handling
    rcases handles_snoc hh with ⟨-, he⟩ | ⟨before, c, -, he, -⟩
    · cases he
    · cases he
  | call ch' made c handling permitted => simp [View.call] at hx
  | command ch' => simp [View.note] at hx
  | handled ch' halted released hclosed woken =>
    simp only [View.note, List.append_singleton_inj, Event.handled.injEq] at hx
    exact hclosed (hx.2 ▸ hch)

theorem reach_closed {c : Config w} (h : Platform.Reach (start w pin found) c) {pre : List Event}
    {ch : Char} (hp : c.state.view.trace = pre ++ [Event.handled ch]) (hch : ch = 'u' ∨ ch = 'o') :
    c.state.view.drive.closed = true := by
  refine view_invariant (I := fun v => ∀ pre ch, v.trace = pre ++ [Event.handled ch] →
    ch = 'u' ∨ ch = 'o' → v.drive.closed = true) ?_
    (fun _ _ hv hstep _ _ => hstep.closed hv) h pre ch hp hch
  intro pre ch hp
  rw [initial_trace] at hp
  simp at hp

theorem seen_of_run {ok : Bool → Config w → (inspector w).Action → Config w → Prop} {on : Bool}
    {c : Config w} (h : Platform.Observed saw ok false (start w pin found) on c) :
    c.state.motor.pid.wasEnabled = on := by
  induction h with
  | start => exact initial_wasEnabled
  | @step on c d a h hs hok ih =>
    rcases step_kinds h.reach hs with ⟨cnt, now, rfl, hd⟩ | ⟨hne, hd⟩
    · rw [hd]
      exact iteration_wasEnabled _ _ _
    · have hpid : d.state.motor.pid = c.state.motor.pid := by
        rcases hd with hq | ⟨-, ho⟩
        · exact hq.pid
        · exact ho.pid
      rw [hpid, ih, saw_quiet hne]

-- Nothing is carried over into the iteration that takes the restart branch.
theorem Restarts.control_eq {s : Board} (h : Restarts s) (target : ℚ) (cnt : UInt16)
    (now : UInt32) : s.motor.pid.control target cnt now =
      Pid.control { s.motor.pid with
        integral := 0, prevError := 0, filteredSpeed := 0, wasEnabled := true } target cnt now := by
  simp [Pid.control, Pid.clear, h.2]

end

section
variable {w : World} {pin : Pin → Bool} {found : MotorId → Bool} {c d : Config w}

theorem exec_log_grows (as : List (inspector w).Action)
    (h : Platform.Reach (start w pin found) c) (he : Platform.exec c as = some d) :
    c.state.log <+: d.state.log := by
  induction as generalizing c with
  | nil => exact Option.some.inj he ▸ List.prefix_rfl
  | cons a as ih =>
    rw [Platform.exec_cons, Option.bind_eq_some_iff] at he
    obtain ⟨b, hb, hd⟩ := he
    exact (step_log_grows h hb).trans (ih (h.tail hb) hd)

-- A stretch without iterations is unhurried, as long as 'o' does not finish too early.
theorem unhurried_exec {on : Bool} (as : List (inspector w).Action)
    (hne : ∀ a ∈ as, ∀ e, a ≠ .interrupt e)
    (h : Platform.Observed saw Unhurried false (start w pin found) on c)
    (he : Platform.exec c as = some d)
    (ho : on = true → ∀ es, d.state.log = c.state.log ++ es → .handled 'o' ∉ es) :
    Platform.Observed saw Unhurried false (start w pin found) on d := by
  induction as generalizing c with
  | nil => exact Option.some.inj he ▸ h
  | cons a as ih =>
    rw [Platform.exec_cons, Option.bind_eq_some_iff] at he
    obtain ⟨b, hb, hd⟩ := he
    have ha := hne a List.mem_cons_self
    have hreach := h.reach.tail hb
    obtain ⟨es, hes⟩ := exec_log_grows as hreach hd
    have hstep := h.step hb ⟨fun _ _ _ hi => (ha _ hi).elim, fun hl => by
      by_contra hon
      rw [Bool.not_eq_false] at hon
      refine ho hon (.handled 'o' :: es) ?_ List.mem_cons_self
      rw [← hes, hl, List.append_assoc, List.singleton_append]⟩
    rw [saw_quiet fun cnt now => ha _] at hstep
    refine ih (fun x hx => hne x (List.mem_cons_of_mem _ hx)) hstep hd fun hon fs hfs hmem => ?_
    obtain ⟨front, hfront⟩ := step_log_grows h.reach hb
    refine ho hon (front ++ fs) ?_ (List.mem_append_right _ hmem)
    rw [hfs, ← hfront, List.append_assoc]

theorem unhurried_iteration {on : Bool} (cnt : UInt16) (now : UInt32)
    (h : Platform.Observed saw Unhurried false (start w pin found) on c)
    (hw : ∀ made, Handles c.state.ctrlTrace 'u' made → .wake ∈ made →
      c.state.motor.closedLoopEnable = false) :
    Platform.Observed saw Unhurried false (start w pin found) c.state.motor.closedLoopEnable
      { c with state := c.state.speedPidIteration cnt now } := by
  refine h.step (a := .interrupt (Irq.pid cnt now)) rfl ⟨fun _ _ made _ => hw made, fun hl => ?_⟩
  obtain ⟨rpm, hlog⟩ := speedPidIteration_log c.state cnt now
  cases List.append_cancel_left (hlog.symm.trans hl)

end

theorem fair_of_awake {log : List Event} (h : .call .ctrl .wake ∉ log) : Every Fair log := by
  have hne : ∀ e ∈ log, e ≠ .call .ctrl .wake := by
    rintro _ he rfl
    exact h he
  exact (every_of_mem hne).mono fun _ _ hne hw => (hne hw).elim

-- An iteration has run since the thread went to sleep.
theorem fair_wake {log : List Event} (h : Every Fair (log ++ [Event.iteration])) :
    Every Fair (log ++ [Event.iteration] ++ [Event.call .ctrl .wake]) := by
  refine every_snoc.mpr ⟨h, fun _ before ms mid hlog _ _ => ?_⟩
  rcases Concurrency.Trace.snoc_split hlog with ⟨-, -, he⟩ | ⟨rest, rfl, -⟩
  · cases he
  · exact List.mem_append_right _ (.head _)

-- What the reverse closed loop does before it ends.
def reverseCalls : List Event :=
  [Event.command 'o', .call .ctrl (.pwmDisable .motor1), .call .ctrl (.pwmDisable .motor2),
    .call .ctrl (.pinWrite (.dirPlus .motor1) true),
    .call .ctrl (.pinWrite (.dirPlus .motor2) true),
    .call .ctrl (.pinWrite (.ena .motor1) false), .call .ctrl (.pinWrite (.ena .motor2) true),
    .call .ctrl (.pwmEnable .motor2), .call .ctrl (.pwmDisable .motor1)]

-- What 'u' has left to do when its first rt_thread_mdelay ends.
def forward : Prog Unit := do
  call .ctrl .wake
  setDirectionReverse false
  let reverse ← Concurrency.Program.read fun s => s.motor.gDirectionReverse
  motorSetDirection reverse
  let target ← Concurrency.Program.read fun s => targetRpm s.motor.targetSpeedMmps
  motorAccel 50 target 5 80
  setClosedLoop true

def forwardPins : List Event :=
  [Event.call .ctrl (.pinWrite (.dirPlus .motor1) false),
    .call .ctrl (.pinWrite (.dirPlus .motor2) false),
    .call .ctrl (.pinWrite (.ena .motor1) true), .call .ctrl (.pinWrite (.ena .motor2) false)]

-- 100 mm/s are 31 rpm, which is below the 50 rpm that the soft start would begin with.
def forwardCalls : List Event :=
  forwardPins ++ [Event.call .ctrl (.pwmSet .motor1 (Motor.periodNs 31) (Motor.periodNs 31 / 2)),
    .call .ctrl (.pwmSet .motor2 (Motor.periodNs 31) (Motor.periodNs 31 / 2))] ++
  forwardPins ++ [Event.call .ctrl (.pwmEnable .motor1), .call .ctrl (.pwmEnable .motor2)]

theorem motorAccel_low {s : Board} (hmissing : s.motor.missing = false)
    (hrun : s.motor.gMotorRun = false) (hdir : s.motor.gDirectionReverse = false) :
    ∃ t, (motorAccel 50 31 5 80).run s = .ok ((), t) ∧ t.log = s.log ++
      ([Event.call .ctrl (.pwmSet .motor1 (Motor.periodNs 31) (Motor.periodNs 31 / 2)),
        .call .ctrl (.pwmSet .motor2 (Motor.periodNs 31) (Motor.periodNs 31 / 2))] ++
        forwardPins ++
        [Event.call .ctrl (.pwmEnable .motor1), .call .ctrl (.pwmEnable .motor2)]) := by
  have hset (m : Motor) (i : MotorId) (a b : Nat) : (m.setPwm i a b).gMotorRun = m.gMotorRun ∧
      (m.setPwm i a b).gDirectionReverse = m.gDirectionReverse := ⟨rfl, rfl⟩
  simp [motorAccel, motorSetSpeedRpmBoth, motorAccelStart, setMotorRun, motorSetDirection, rtPwmSet,
    rtPwmEnable, rtPinWrite, forwardPins, Concurrency.Program.read, Concurrency.Program.write,
    Concurrency.Program.run, Concurrency.Program.when, hmissing, hrun, hdir, hset]

theorem forward_run {s : Board} (htarget : s.motor.targetSpeedMmps = 100)
    (hmissing : s.motor.missing = false) (hrun : s.motor.gMotorRun = false) :
    ∃ t, (forward >>= fun _ => emit (.handled 'u')).run s = .ok ((), t) ∧
      t.log = s.log ++ [Event.call .ctrl .wake] ++ forwardCalls ++ [Event.handled 'u'] := by
  have hrpm : targetRpm s.motor.targetSpeedMmps = 31 := by
    rw [htarget]
    decide +kernel
  obtain ⟨u, hu, htarget', hmissing', hrun', hdir, hulog⟩ : ∃ u : Board,
      (call .ctrl .wake >>= fun _ => setDirectionReverse false >>= fun _ =>
        motorSetDirection false).run s = .ok ((), u) ∧
      u.motor.targetSpeedMmps = s.motor.targetSpeedMmps ∧ u.motor.missing = s.motor.missing ∧
      u.motor.gMotorRun = s.motor.gMotorRun ∧ u.motor.gDirectionReverse = false ∧
      u.log = s.log ++ [Event.call .ctrl .wake] ++ forwardPins :=
    ⟨_, rfl, rfl, rfl, rfl, rfl, by simp [forwardPins]⟩
  obtain ⟨v, hv, hvlog⟩ := motorAccel_low (hmissing'.trans hmissing) (hrun'.trans hrun) hdir
  let finish (target : Nat) : Prog Unit :=
    motorAccel 50 target 5 80 >>= fun _ => setClosedLoop true >>= fun _ => emit (.handled 'u')
  have hrest : (forward >>= fun _ => emit (.handled 'u')).run s =
      ((Concurrency.Program.read fun s => targetRpm s.motor.targetSpeedMmps) >>= finish).run u := by
    refine Eq.trans ?_ (Concurrency.Program.run_bind_ok hu fun _ =>
      (Concurrency.Program.read fun s => targetRpm s.motor.targetSpeedMmps) >>= finish)
    rw [forward]
    simp only [bind_assoc]
    rfl
  refine ⟨Board.emit { v with motor := { v.motor with closedLoopEnable := true } } (.handled 'u'),
    ?_, ?_⟩
  · rw [hrest, Concurrency.Program.run_bind_ok (a := 31) (t := u) (by rw [← hrpm, ← htarget']; rfl),
      Concurrency.Program.run_bind_ok hv]
    rfl
  · rw [Board.emit_log, hvlog, hulog, forwardCalls]
    simp only [List.append_assoc]

-- What 'u' does before it goes to sleep.
def stopCalls : List Event :=
  [Event.command 'u', .call .ctrl (.pwmDisable .motor1), .call .ctrl (.pwmDisable .motor2),
    .call .ctrl (.sleep 20)]

def halt : Prog Unit := do
  emit (.command 'u')
  stopClosedLoop
  motorContinuousStop
  call .ctrl (.sleep 20)

theorem uartCtrlThread_forward : uartCtrlThread (some 'u') =
    halt >>= fun _ => forward >>= fun _ => emit (.handled 'u') := by
  simp only [uartCtrlThread, uartCtrlSwitch, halt, forward, rtThreadMdelay, bind_assoc]

theorem halt_run {s : Board} (hclosed : s.motor.closedLoopEnable = true)
    (hrun : s.motor.gMotorRun = false) :
    ∃ t, halt.run s = .ok ((), t) ∧ t.log = s.log ++ stopCalls ∧
      t.motor.targetSpeedMmps = s.motor.targetSpeedMmps ∧ t.motor.gMotorRun = false ∧
      t.motor.closedLoopEnable = false := by
  simp [halt, stopClosedLoop, motorContinuousStop, setClosedLoop, rtPwmDisable, call, emit,
    stopCalls, Concurrency.Program.read, Concurrency.Program.write, Concurrency.Program.run,
    Concurrency.Program.when, hclosed, hrun]
  exact ⟨rfl, rfl, rfl⟩

theorem iteration_keeps (s : Board) (cnt : UInt16) (now : UInt32) :
    (s.speedPidIteration cnt now).motor.targetSpeedMmps = s.motor.targetSpeedMmps ∧
      (s.speedPidIteration cnt now).motor.gMotorRun = s.motor.gMotorRun ∧
      (s.speedPidIteration cnt now).motor.closedLoopEnable = s.motor.closedLoopEnable := by
  simp only [Board.speedPidIteration, Board.motorSetActiveSpeedRpm]
  split
  · split <;> exact ⟨rfl, rfl, rfl⟩
  · exact ⟨rfl, rfl, rfl⟩

-- 'l' and 'o' have been handled from the boot, and the speed controller has run.
theorem observe_reverse :
    ∃ (s : Board) (busy : List Event),
      Platform.Observed saw Unhurried false (start blindWorld (fun _ => true) fun _ => true) true
        { start blindWorld (fun _ => true) (fun _ => true) with state := s } ∧
      s.log = [Event.command 'l', .handled 'l'] ++ reverseCalls ++ [Event.handled 'o'] ++
        Event.iteration :: busy ∧ (∀ e ∈ busy, e.byCtrl = false) ∧
      s.motor.targetSpeedMmps = 100 ∧ s.motor.gMotorRun = false ∧
      s.motor.closedLoopEnable = true := by
  obtain ⟨s, t, hs, ht, hlog, htarget, hrunning, hclosed⟩ : ∃ s t : Board,
      (uartCtrlThread (some 'l')).run (Board.initial (fun _ => true) fun _ => true) = .ok ((), s) ∧
      (uartCtrlThread (some 'o')).run s = .ok ((), t) ∧
      t.log = [Event.command 'l', .handled 'l'] ++ reverseCalls ++ [Event.handled 'o'] ∧
      t.motor.targetSpeedMmps = 100 ∧ t.motor.gMotorRun = false ∧
      t.motor.closedLoopEnable = true := ⟨_, _, rfl, rfl, rfl, rfl, rfl, rfl⟩
  let b : Config blindWorld := start blindWorld (fun _ => true) fun _ => true
  obtain ⟨n, hn⟩ := Platform.exec_entry (c := b) (i := Task.ctrl) (x := some 'l') rfl hs
  have hl := unhurried_exec _ (by simp) .start hn nofun
  obtain ⟨m, hm⟩ := Platform.exec_entry (c := { b with state := s }) (i := Task.ctrl)
    (x := some 'o') rfl ht
  have ho := unhurried_exec _ (by simp) hl hm nofun
  obtain ⟨rpm, hbusy⟩ := speedPidIteration_log t 0 0
  obtain ⟨htarget', hrunning', hclosed'⟩ := iteration_keeps t 0 0
  have hi := unhurried_iteration 0 0 ho fun made hh => by
    have htrace : t.ctrlTrace =
        [Event.command 'l', .handled 'l'] ++ reverseCalls ++ [Event.handled 'o'] := by
      rw [Board.ctrlTrace, hlog]
      rfl
    exact (not_handles_of_handled (htrace ▸ hh)).elim
  rw [hclosed] at hi
  refine ⟨_, t.motor.controls rpm, hi, by rw [hbusy, hlog], fun e he => ?_, htarget'.trans htarget,
    hrunning'.trans hrunning, hclosed'.trans hclosed⟩
  rw [(mem_controls he).2]
  rfl

-- Then 'u' is handled, and an iteration finds the loop open while the thread sleeps.
theorem observe_forward :
    ∃ (c : Config blindWorld) (busy : List Event),
      Platform.Observed saw Unhurried false (start blindWorld (fun _ => true) fun _ => true)
        false c ∧ (∀ e ∈ busy, e.byCtrl = false) ∧
      c.state.log = [Event.command 'l', .handled 'l'] ++ reverseCalls ++ [Event.handled 'o'] ++
        Event.iteration :: busy ++ stopCalls ++ [Event.iteration] ++ [Event.call .ctrl .wake] ++
        forwardCalls ++ [Event.handled 'u'] := by
  obtain ⟨s, busy, h, hlog, hbusy, htarget, hrunning, hclosed⟩ := observe_reverse
  obtain ⟨t, ht, htlog, htarget', hrunning', hopen⟩ := halt_run hclosed hrunning
  obtain ⟨n, hn⟩ := Platform.exec_entry_bind
    (c := { start blindWorld (fun _ => true) (fun _ => true) with state := s }) (i := Task.ctrl)
    (x := some 'u') rfl uartCtrlThread_forward ht
  have hu := unhurried_exec _ (by simp) h hn fun _ es hes => by
    rw [List.append_cancel_left (hes.symm.trans htlog)]
    simp [stopCalls]
  obtain ⟨rpm, hidle⟩ := speedPidIteration_log t 0 0
  obtain ⟨htarget'', hrunning'', -⟩ := iteration_keeps t 0 0
  have hi := unhurried_iteration 0 0 hu fun _ _ _ => hopen
  obtain ⟨x, hx, hxlog⟩ := forward_run (htarget''.trans (htarget'.trans htarget))
    ((missing_iff hi.reach).mpr fun _ => rfl) (hrunning''.trans hrunning')
  rw [hopen] at hi
  let c : Config blindWorld :=
    { start blindWorld (fun _ => true) (fun _ => true) with state := t.speedPidIteration 0 0 }
  obtain ⟨m, hm⟩ := Platform.exec_run_bind
    (c := c.enter Task.ctrl (forward >>= fun _ => emit (.handled 'u'))) (q := .ret)
    ((Platform.enter_self ..).trans (Concurrency.Program.bind_ret _).symm) hx
  refine ⟨_, busy, unhurried_exec _ (by simp) hi hm nofun, hbusy, ?_⟩
  rw [hxlog, hidle, Motor.controls, hopen, htlog, hlog]
  rfl

theorem closed_loop_restarts (w : World) (pin : Pin → Bool) (found : MotorId → Bool) :
    (∀ on c, Platform.Observed saw Unhurried false (start w pin found) on c →
      Every Fair c.state.log → ∀ ch, ch = 'u' ∨ ch = 'o' → Finished c.state.log ch →
        Restarts c.state ∧ ∀ target cnt now, c.state.motor.pid.control target cnt now =
          Pid.control { c.state.motor.pid with
            integral := 0, prevError := 0, filteredSpeed := 0, wasEnabled := true }
            target cnt now) ∧
      ∀ on c, Platform.Observed saw (fun _ _ _ _ => True) false (start w pin found) on c →
        ∀ ch, ch = 'u' ∨ ch = 'o' → Finished c.state.log ch → (Restarts c.state ↔ on = false) := by
  constructor
  · intro on c h hfair ch hch hfin
    obtain ⟨⟨pre, hp⟩, hno⟩ := hfin.trace
    have hoff : on = false := (known_of_run h hfair).finished pre ch hp hch hno
    have hr : Restarts c.state := ⟨reach_closed h.reach hp hch, (seen_of_run h).trans hoff⟩
    exact ⟨hr, hr.control_eq⟩
  · intro on c h ch hch hfin
    obtain ⟨⟨pre, hp⟩, -⟩ := hfin.trace
    have hseen := seen_of_run h
    exact ⟨fun hr => hseen.symm.trans hr.2, fun hon =>
      ⟨reach_closed h.reach hp hch, hseen.trans hon⟩⟩

-- The loop starts clean, although it has run since the board booted.
theorem closed_loop_restarts_forward :
    ∃ c : Config blindWorld, Platform.Observed saw Unhurried false
      (start blindWorld (fun _ => true) fun _ => true) false c ∧
      Every Fair c.state.log ∧ Finished c.state.log 'u' ∧ Restarts c.state := by
  obtain ⟨c, busy, h, hbusy, hlog⟩ := observe_forward
  have hfair : Every Fair c.state.log := by
    have hawake : .call .ctrl .wake ∉ [Event.command 'l', .handled 'l'] ++ reverseCalls ++
        [Event.handled 'o'] ++ Event.iteration :: busy ++ stopCalls ++ [Event.iteration] := by
      have hno : .call .ctrl .wake ∉ busy := fun he => Bool.noConfusion (hbusy _ he)
      simp [reverseCalls, stopCalls, hno]
    rw [hlog, List.append_assoc _ forwardCalls]
    refine (fair_wake (fair_of_awake hawake)).append fun e he _ hw => ?_
    subst hw
    simp [forwardCalls, forwardPins] at he
  have hfin : Finished c.state.log 'u' := ⟨_, [], hlog, nofun⟩
  exact ⟨c, h, hfair, hfin,
    ((closed_loop_restarts _ _ _).1 false c h hfair 'u' (.inl rfl) hfin).1⟩

theorem pid_of_run {α : Type} {p : Prog α} (h : Concurrency.Program.Keeps CtrlOnly p)
    {s t : Board} {a : α} (hr : p.run s = .ok (a, t)) : t.motor.pid = s.motor.pid := by
  induction p generalizing s with
  | ret b =>
    simp only [Concurrency.Program.run, Except.ok.injEq, Prod.mk.injEq] at hr
    rw [hr.2]
  | fail e => simp [Concurrency.Program.run] at hr
  | act f k ih => exact (ih s (h s).2 hr).trans (h s).1.pid

theorem reverse_keeps_controller :
    ∃ c : Config blindWorld, Platform.Reach (start blindWorld (fun _ => true) fun _ => true) c ∧
      Every Fair c.state.log ∧ Finished c.state.log 'o' ∧ ¬Restarts c.state := by
  obtain ⟨s, t, period, pulse, hs, ht, hclosed, hlog⟩ : ∃ s t period pulse,
      (uartCtrlThread (some 'o')).run (Board.initial (fun _ => true) fun _ => true) = .ok ((), s) ∧
      (uartCtrlThread (some 'o')).run (s.speedPidIteration 0 0) = .ok ((), t) ∧
      s.motor.closedLoopEnable = true ∧ t.log = reverseCalls ++
        [Event.handled 'o', .iteration, .call .pid (.pwmSet .motor2 period pulse)] ++
          reverseCalls ++ [Event.handled 'o'] :=
    ⟨_, _, _, _, rfl, rfl, rfl, rfl⟩
  have ho := Platform.Reach.of_entry (P := inspector blindWorld) (i := Task.ctrl) (x := some 'o')
    (c := start blindWorld (fun _ => true) fun _ => true) rfl hs
  have hi := ho.tail (a := .interrupt (Irq.pid 0 0)) rfl
  have h := hi.trans (Platform.Reach.of_entry (i := Task.ctrl) (x := some 'o') rfl (by exact ht))
  refine ⟨_, h, ?_, ?_, ?_⟩
  · refine fair_of_awake ?_
    rw [hlog]
    simp [reverseCalls]
  · exact ⟨_, [], by rw [hlog], nofun⟩
  · rintro ⟨-, hw⟩
    rw [pid_of_run (CtrlOnly.keeps_uartCtrlThread _) ht, iteration_wasEnabled, hclosed] at hw
    cases hw

end FabricInspection
