import FabricInspection.Motor.Safety
import FabricInspection.Concurrency.Trace

namespace FabricInspection

open Concurrency (Platform)
open Concurrency.Trace (Every every_nil every_snoc snoc_split)

-- A stop has been handled and no motion command has come since.
def Stopped (log : List Event) : Prop :=
  ∃ pre ch post, log = pre ++ .handled ch :: post ∧ stops ch = true ∧
    ∀ x, .command x ∈ post → moves x = false

def Handles (log : List Event) (ch : Char) (made : List Call) : Prop :=
  ∃ pre, log = pre ++ .command ch :: made.map (.call .ctrl)

-- A jog switches on its own output only, and not before its initial stop.
def JogEnables (pre : List Event) (e : Event) : Prop :=
  ∀ i ch made j, e = .call .ctrl (.pwmEnable i) → Handles pre ch made → jogs ch = some j →
    i = j ∧ initialStop ⊆ made

theorem handles_snoc {log : List Event} {e : Event} {ch : Char} {made : List Call}
    (h : Handles (log ++ [e]) ch made) :
    (made = [] ∧ e = .command ch) ∨
      ∃ before c, made = before ++ [c] ∧ e = .call .ctrl c ∧ Handles log ch before := by
  obtain ⟨pre, hp⟩ := h
  rcases snoc_split hp with ⟨hm, -, rfl⟩ | ⟨rest, hm, hl⟩
  · exact .inl ⟨List.map_eq_nil_iff.mp hm, rfl⟩
  · obtain ⟨before, last, rfl, rfl, hlast⟩ := List.map_eq_append_iff.mp hm
    obtain ⟨c, rfl, rfl⟩ : ∃ c, last = [c] ∧ .call .ctrl c = e := by
      obtain ⟨c, tail, rfl, hc, ht⟩ := List.map_eq_cons_iff.mp hlast
      exact ⟨c, by rw [List.map_eq_nil_iff.mp ht], hc⟩
    exact .inr ⟨before, c, rfl, rfl, pre, hl⟩

theorem Handles.unique {log : List Event} {ch ch' : Char} {made made' : List Call}
    (h : Handles log ch made) (h' : Handles log ch' made') : ch = ch' ∧ made = made' := by
  induction log using List.reverseRecOn generalizing made made' with
  | nil =>
    obtain ⟨pre, hp⟩ := h
    simp at hp
  | append_singleton log e ih =>
    rcases handles_snoc h with ⟨rfl, rfl⟩ | ⟨before, c, rfl, rfl, hb⟩
    · rcases handles_snoc h' with ⟨rfl, he⟩ | ⟨before, c, -, he, -⟩
      · exact ⟨Event.command.inj he, rfl⟩
      · cases he
    · rcases handles_snoc h' with ⟨-, he⟩ | ⟨before', c', rfl, he, hb'⟩
      · cases he
      · obtain ⟨hch, hm⟩ := ih hb hb'
        cases he
        exact ⟨hch, by rw [hm]⟩

theorem stopped_snoc {log : List Event} {e : Event} (h : Stopped (log ++ [e])) :
    (Stopped log ∧ ∀ x, e = .command x → moves x = false) ∨ ∃ ch, e = .handled ch ∧ stops ch = true := by
  obtain ⟨pre, ch, post, hl, hs, hm⟩ := h
  rcases snoc_split hl with ⟨-, -, rfl⟩ | ⟨rest, rfl, rfl⟩
  · exact .inr ⟨ch, rfl, hs⟩
  · refine .inl ⟨⟨pre, ch, rest, rfl, hs, fun x hx => hm x (by simp [hx])⟩, ?_⟩
    rintro x rfl
    exact hm x (by simp)

theorem not_stopped_of_moving {log : List Event} {ch : Char} {made : List Call}
    (h : Handles log ch made) (hm : moves ch = true) : ¬Stopped log := by
  induction log using List.reverseRecOn generalizing made with
  | nil =>
    rintro ⟨pre, x, post, hp, -⟩
    simp at hp
  | append_singleton log e ih =>
    intro hs
    rcases stopped_snoc hs with ⟨hlog, hc⟩ | ⟨x, rfl, -⟩
    · rcases handles_snoc h with ⟨-, rfl⟩ | ⟨before, c, -, rfl, hb⟩
      · exact Bool.false_ne_true ((hc ch rfl).symm.trans hm)
      · exact ih hb hlog
    · rcases handles_snoc h with ⟨-, he⟩ | ⟨before, c, -, he, -⟩
      · cases he
      · cases he

theorem Drive.off_apply {d : Drive} (h : d.Off) {c : Call} (hc : ∀ i, c ≠ .pwmEnable i) :
    (d.apply c).Off := by
  intro i
  cases c with
  | pinWrite p level => cases p <;> exact h i
  | pwmEnable j => exact (hc j rfl).elim
  | pwmDisable j =>
    by_cases hi : i = j
    · simp [Drive.apply, hi]
    · simpa [Drive.apply, hi] using h i
  | pwmSet | uart4Write | sleep | wake => exact h i

namespace CtrlStep

theorem halted {v w : View} (hv : Stopped v.trace → v.drive.Halted) (h : CtrlStep v w)
    (hw : Stopped w.trace) : w.drive.Halted := by
  cases h with
  | silent => exact hv hw
  | assign ch made run reverse closed handling runs closes =>
    obtain ⟨h1, h2, h3⟩ := hv hw
    have hm : moves ch = false := by
      by_contra h
      exact not_stopped_of_moving handling (Bool.eq_true_of_not_eq_false h) hw
    refine ⟨Bool.eq_false_iff.mpr fun h => ?_, Bool.eq_false_iff.mpr fun h => ?_, h3⟩
    · rcases closes h with hc | ⟨hc, -⟩
      · exact Bool.false_ne_true (h1.symm.trans hc)
      · exact Bool.false_ne_true (hm.symm.trans hc)
    · rcases runs h with hr | hr
      · exact Bool.false_ne_true (h2.symm.trans hr)
      · exact Bool.false_ne_true (hm.symm.trans hr)
  | call ch made c handling permitted =>
    rcases stopped_snoc hw with ⟨hs, -⟩ | ⟨x, hx, -⟩
    · obtain ⟨h1, h2, h3⟩ := hv hs
      have hc : ∀ i, c ≠ .pwmEnable i := by
        rintro i rfl
        exact not_stopped_of_moving handling permitted.1 hs
      refine ⟨?_, ?_, Drive.off_apply h3 hc⟩
      · rw [← h1]
        cases c with
        | pinWrite p level => cases p <;> rfl
        | _ => rfl
      · rw [← h2]
        cases c with
        | pinWrite p level => cases p <;> rfl
        | _ => rfl
    · cases hx
  | command ch regulated =>
    rcases stopped_snoc hw with ⟨hs, -⟩ | ⟨x, hx, -⟩
    · exact hv hs
    · cases hx
  | handled ch halted released =>
    rcases stopped_snoc hw with ⟨hs, -⟩ | ⟨x, hx, hs⟩
    · exact hv hs
    · cases hx
      exact halted hs

theorem jogEnables {v w : View} (hv : Every JogEnables v.trace) (h : CtrlStep v w) :
    Every JogEnables w.trace := by
  cases h with
  | silent => exact hv
  | assign => exact hv
  | call ch made c handling permitted =>
    refine every_snoc.mpr ⟨hv, ?_⟩
    rintro i ch' made' j he hh hj
    cases he
    obtain ⟨rfl, rfl⟩ := Handles.unique handling hh
    exact permitted.2.2.1 j hj
  | command ch => exact every_snoc.mpr ⟨hv, nofun⟩
  | handled ch => exact every_snoc.mpr ⟨hv, nofun⟩

-- From the moment a jog has switched an output off, the output of the other motor stays off.
theorem other_off {v w : View}
    (hv : ∀ ch made i k, Handles v.trace ch made → jogs ch = some i → .pwmDisable k ∈ made →
      k ≠ i → v.drive.on k = false)
    (h : CtrlStep v w) {ch : Char} {made : List Call} {i k : MotorId}
    (hw : Handles w.trace ch made) (hj : jogs ch = some i) (hk : .pwmDisable k ∈ made)
    (hki : k ≠ i) : w.drive.on k = false := by
  cases h with
  | silent => exact hv ch made i k hw hj hk hki
  | assign => exact hv ch made i k hw hj hk hki
  | call ch' made' c handling permitted =>
    rcases handles_snoc hw with ⟨-, he⟩ | ⟨before, c', rfl, he, hb⟩
    · cases he
    · cases he
      obtain ⟨rfl, rfl⟩ := Handles.unique handling hb
      have hbefore (h : .pwmDisable k ∈ made') : v.drive.on k = false :=
        hv ch' made' i k handling hj h hki
      cases c with
      | pinWrite p level => cases p <;> exact hbefore (by simpa using hk)
      | pwmEnable n =>
        obtain ⟨rfl, -⟩ := permitted.2.2.1 i hj
        simpa [View.call, Drive.apply, hki] using hbefore (by simpa using hk)
      | pwmDisable n =>
        by_cases hn : k = n
        · simp [View.call, Drive.apply, hn]
        · simpa [View.call, Drive.apply, hn] using hbefore (by simpa [hn] using hk)
      | pwmSet | uart4Write | sleep | wake => exact hbefore (by simpa using hk)
  | command ch' =>
    rcases handles_snoc hw with ⟨rfl, -⟩ | ⟨before, c', -, he, -⟩
    · simp at hk
    · cases he
  | handled ch' =>
    rcases handles_snoc hw with ⟨-, he⟩ | ⟨before, c', -, he, -⟩
    · cases he
    · cases he

theorem released {v w : View}
    (hv : ∀ pre ch, v.trace = pre ++ [Event.handled ch] → (jogs ch).isSome → v.drive.Released)
    (h : CtrlStep v w) {pre : List Event} {ch : Char} (hw : w.trace = pre ++ [Event.handled ch])
    (hj : (jogs ch).isSome) : w.drive.Released := by
  cases h with
  | silent => exact hv pre ch hw hj
  | assign ch' made run reverse closed handling =>
    have hh : Handles (pre ++ [Event.handled ch]) ch' made := hw ▸ handling
    rcases handles_snoc hh with ⟨-, he⟩ | ⟨before, c, -, he, -⟩
    · cases he
    · cases he
  | call ch' made c handling permitted => simp [View.call] at hw
  | command ch' => simp [View.note] at hw
  | handled ch' halted hreleased =>
    simp only [View.note, List.append_singleton_inj, Event.handled.injEq] at hw
    exact hreleased (hw.2 ▸ hj)

end CtrlStep

theorem Stopped.filter {log : List Event} (h : Stopped log) : Stopped (log.filter Event.byCtrl) := by
  obtain ⟨pre, ch, post, rfl, hs, hm⟩ := h
  refine ⟨pre.filter Event.byCtrl, ch, post.filter Event.byCtrl, ?_, hs, ?_⟩
  · rw [List.filter_append, List.filter_cons_of_pos rfl]
  · intro x hx
    exact hm x (List.mem_filter.mp hx).1

section
variable {w : World} {pin : Pin → Bool} {found : MotorId → Bool}

theorem initial_trace : (Board.initial pin found).view.trace = [] := rfl

theorem stopped_halted {c : Config w} (h : Platform.Reach (start w pin found) c)
    (hs : Stopped c.state.log) : c.state.view.drive.Halted := by
  refine view_invariant (I := fun v => Stopped v.trace → v.drive.Halted) ?_
    (fun _ _ hv hstep hw => hstep.halted hv hw) h hs.filter
  rintro ⟨pre, ch, post, hp, -⟩
  rw [initial_trace] at hp
  simp at hp

theorem reach_jogEnables {c : Config w} (h : Platform.Reach (start w pin found) c) :
    Every JogEnables c.state.view.trace :=
  view_invariant (I := fun v => Every JogEnables v.trace) every_nil
    (fun _ _ hv hstep => hstep.jogEnables hv) h

theorem reach_other_off {c : Config w} (h : Platform.Reach (start w pin found) c) {ch : Char}
    {made : List Call} {i k : MotorId} (hm : Handles c.state.view.trace ch made)
    (hj : jogs ch = some i) (hk : .pwmDisable k ∈ made) (hki : k ≠ i) :
    c.state.view.drive.on k = false := by
  refine view_invariant (I := fun v => ∀ ch made i k, Handles v.trace ch made →
    jogs ch = some i → .pwmDisable k ∈ made → k ≠ i → v.drive.on k = false) ?_
    (fun _ _ hv hstep _ _ _ _ => hstep.other_off hv) h ch made i k hm hj hk hki
  rintro _ _ _ _ ⟨pre, hp⟩
  rw [initial_trace] at hp
  simp at hp

theorem reach_released {c : Config w} (h : Platform.Reach (start w pin found) c)
    {pre : List Event} {ch : Char} (hp : c.state.view.trace = pre ++ [Event.handled ch])
    (hj : (jogs ch).isSome) : c.state.view.drive.Released := by
  refine view_invariant (I := fun v => ∀ pre ch, v.trace = pre ++ [Event.handled ch] →
    (jogs ch).isSome → v.drive.Released) ?_
    (fun _ _ hv hstep _ _ => hstep.released hv) h pre ch hp hj
  intro pre ch hp
  rw [initial_trace] at hp
  simp at hp

end
def Board.ctrlTrace (s : Board) : List Event := s.log.filter Event.byCtrl

theorem stop_means_stopped (w : World) (pin : Pin → Bool) (found : MotorId → Bool)
    (c : Config w) (h : Platform.Reach (start w pin found) c) :
    (Stopped c.state.log → c.state.motor.closedLoopEnable = false ∧
      c.state.motor.gMotorRun = false ∧ ∀ i, c.state.motor.pwmOn i = false) ∧
    Every JogEnables c.state.ctrlTrace ∧
    (∀ ch made i, Handles c.state.ctrlTrace ch made → jogs ch = some i →
      .pwmDisable i.other ∈ made → c.state.motor.pwmOn i.other = false) ∧
    (∀ pre ch, c.state.ctrlTrace = pre ++ [.handled ch] → (jogs ch).isSome →
      c.state.motor.closedLoopEnable = false ∧ c.state.motor.gMotorRun = false ∧
        ∀ i, c.state.motor.pwmOn i = false ∧ c.state.motor.pin (.ena i) = false) ∧
    ∀ e, c.thread Task.ctrl ≠ .fail e := by
  refine ⟨stopped_halted h, reach_jogEnables h, ?_, ?_, ctrl_never_faults h⟩
  · intro ch made i hm hj hk
    exact reach_other_off h hm hj hk (by cases i <;> decide)
  · intro pre ch hp hj
    obtain ⟨⟨hc, hr, ho⟩, he⟩ := reach_released h hp hj
    exact ⟨hc, hr, fun i => ⟨ho i, he i⟩⟩

theorem stop_means_stopped_reverse :
    ∃ c : Config blindWorld, Platform.Reach (start blindWorld (fun _ => true) fun _ => true) c ∧
      Event.command 'o' ∈ c.state.log ∧ Stopped c.state.log ∧
      c.state.motor.closedLoopEnable = false ∧ c.state.motor.gMotorRun = false ∧
      ∀ i, c.state.motor.pwmOn i = false := by
  have ho := Platform.Reach.of_entry (P := inspector blindWorld) (i := Task.ctrl) (x := some 'o')
    (c := start blindWorld (fun _ => true) fun _ => true) rfl rfl
  have h := ho.trans (Platform.Reach.of_entry (i := Task.ctrl) (x := some 's') rfl rfl)
  have hs := (stop_means_stopped _ _ _ _ h).1 ⟨_, 's', [], rfl, rfl, nofun⟩
  exact ⟨_, h, by simp, ⟨_, 's', [], rfl, rfl, nofun⟩, hs⟩

end FabricInspection
