import FabricInspection.Motor.Drive

namespace FabricInspection

open Concurrency (Program Rely)
open Concurrency.Program (Triple read write when)

abbrev Spec (A : View → Prop) (p : Prog Unit) (B : View → Prop) : Prop :=
  Triple Board.view CtrlStep A p fun _ => B

-- The command `ch` is being handled, the calls of `made` are among those it has made, and the
-- drive is `d`.
structure At (ch : Char) (made : List Call) (d : Drive) (v : View) : Prop where
  drive : v.drive = d
  handling : ∃ all, v.Handling ch all ∧ made ⊆ all

namespace Drive

def halt (d : Drive) : Drive := { d with run := false, on := fun _ => false }

def unlock (d : Drive) : Drive := { d with closed := false }

def direct (d : Drive) (reverse : Bool) : Drive :=
  { d with
    dir := fun _ => reverse
    ena := fun i => match i with
      | .motor1 => !reverse
      | .motor2 => reverse }

def launch (d : Drive) : Drive :=
  { d.direct d.reverse with run := true, on := d.present }

def jog (d : Drive) (i : MotorId) (reverse : Bool) : Drive :=
  { d.unlock.halt with dir := Function.update d.dir i reverse, ena := fun _ => false }

-- What each command makes of the drive.
def after (d : Drive) : Char → Drive
  | 'b' | 's' => d.unlock.halt
  | 'u' => { ({ d.unlock.halt with reverse := false }.direct false).launch with closed := true }
  | 'o' =>
    { d.halt.direct true with
      closed := true
      reverse := true
      on := fun i => match i with
        | .motor1 => false
        | .motor2 => d.present .motor2 }
  | 't' => ({ d.unlock.halt with reverse := false }.direct false).launch
  | 'h' | 'a' => d.jog .motor1 false
  | 'y' | 'z' => d.jog .motor1 true
  | 'd' | 'x' => d.jog .motor2 false
  | 'p' | 'q' => d.jog .motor2 true
  | _ => d

theorem after_regulated {d : Drive} (h : d.Regulated) (ch : Char) : (d.after ch).Regulated := by
  unfold after
  split
  case h_3 => simp [Regulated, launch, direct, active, MotorId.other]
  case h_4 => simp [Regulated, direct, halt, active, MotorId.other]
  case h_14 => exact h
  all_goals exact regulated_of_not_closed rfl

theorem after_halted {ch : Char} (h : stops ch = true) (d : Drive) : (d.after ch).Halted := by
  have hch : ch = 's' ∨ ch = 'b' := by simpa [stops] using h
  rcases hch with rfl | rfl
  · exact ⟨rfl, rfl, fun _ => rfl⟩
  · exact ⟨rfl, rfl, fun _ => rfl⟩

theorem jog_released (d : Drive) (i : MotorId) (reverse : Bool) : (d.jog i reverse).Released :=
  ⟨⟨rfl, rfl, fun _ => rfl⟩, fun _ => rfl⟩

theorem after_closed {ch : Char} (h : ch = 'u' ∨ ch = 'o') (d : Drive) :
    (d.after ch).closed = true := by
  rcases h with rfl | rfl <;> rfl

theorem after_released {ch : Char} (h : (jogs ch).isSome) (d : Drive) : (d.after ch).Released := by
  unfold jogs at h
  split at h
  case h_9 => cases h
  all_goals exact jog_released d _ _

end Drive

theorem update_both {α : Type} {f g : MotorId → α} {a b : α} (h1 : g .motor1 = a)
    (h2 : g .motor2 = b) : Function.update (Function.update f .motor1 a) .motor2 b = g := by
  funext i
  cases i with
  | motor1 => simp [h1]
  | motor2 => simp [h2]

section
variable {ch : Char} {made more : List Call} {d : Drive}

theorem At.forget {v : View} (h : At ch more d v) (hm : made ⊆ more) : At ch made d v := by
  obtain ⟨all, ha, hs⟩ := h.handling
  exact ⟨h.drive, all, ha, List.Subset.trans hm hs⟩

theorem Spec.forget {A : View → Prop} {p : Prog Unit} (h : Spec A p (At ch more d))
    (hm : made ⊆ more) : Spec A p (At ch made d) :=
  h.post fun _ _ hv => hv.forget hm

theorem At.call {v : View} (h : At ch made d v) (c : Call) :
    At ch (c :: made) (d.apply c) (v.call c) := by
  obtain ⟨all, ⟨pre, hp⟩, hs⟩ := h.handling
  refine ⟨congrArg (·.apply c) h.drive, all ++ [c], ⟨pre, ?_⟩, ?_⟩
  · simp [View.call, hp]
  · intro x hx
    rcases List.mem_cons.mp hx with rfl | hx
    · simp
    · exact List.mem_append_left _ (hs hx)

theorem call_step {v : View} {c : Call} (h : At ch made d v) (hc : Permits d ch made c)
    (hw : c ≠ .wake) : CtrlStep v (v.call c) := by
  obtain ⟨all, ha, hs⟩ := h.handling
  exact .call v ch all c ha (h.drive ▸ hc.mono hs hw)

theorem write_spec {f : Board → Board} {c : Call} (hf : ∀ s, (f s).view = s.view.call c)
    (hc : Permits d ch made c) (hw : c ≠ .wake) :
    Spec (At ch made d) (write f) (At ch (c :: made) (d.apply c)) :=
  Triple.write (k := fun v => v.call c) hf fun _ hv => ⟨call_step hv hc hw, hv.call c⟩

theorem Permits.pins (h : d.Off) {p : Pin} {level : Bool} :
    Permits d ch made (.pinWrite p level) := by
  cases p with
  | ena i => exact h
  | dirPlus i => exact h
  | dirMinus | pulseNeg | buzzer => trivial

theorem ena_spec (i : MotorId) (level : Bool) (h : d.Off) :
    Spec (At ch made d) (rtPinWrite .ctrl (.ena i) level)
      (At ch made { d with ena := Function.update d.ena i level }) := by
  refine Spec.forget (write_spec (c := .pinWrite (.ena i) level) ?_ (Permits.pins h) nofun) (by simp)
  intro s
  simp [Board.view, View.call, Event.byCtrl]

theorem dirPlus_spec (i : MotorId) (level : Bool) (h : d.Off) :
    Spec (At ch made d) (rtPinWrite .ctrl (.dirPlus i) level)
      (At ch made { d with dir := Function.update d.dir i level }) := by
  refine Spec.forget (write_spec (c := .pinWrite (.dirPlus i) level) ?_ (Permits.pins h) nofun) (by simp)
  intro s
  simp [Board.view, View.call, Event.byCtrl]

theorem buzzer_spec (level : Bool) :
    Spec (At ch made d) (rtPinWrite .ctrl .buzzer level) (At ch made d) := by
  refine Spec.forget (write_spec (c := .pinWrite .buzzer level) ?_ trivial nofun) (by simp)
  intro s
  simp [Board.view, View.call, Event.byCtrl, Drive.apply]

theorem rtPwmSet_spec (i : MotorId) (period pulse : Nat) (h : Programs d ch) :
    Spec (At ch made d) (rtPwmSet .ctrl i period pulse)
      (At ch (.pwmSet i period pulse :: made) d) := by
  refine write_spec (c := .pwmSet i period pulse) ?_ h nofun
  intro s
  simp [Board.view, View.call, Event.byCtrl, Drive.apply]

theorem rtPwmEnable_spec (i : MotorId) (h : Permits d ch made (.pwmEnable i)) :
    Spec (At ch made d) (rtPwmEnable .ctrl i)
      (At ch made { d with on := Function.update d.on i (d.present i) }) := by
  refine Spec.forget (write_spec (c := .pwmEnable i) ?_ h nofun) (by simp)
  intro s
  simp [Board.view, View.call, Event.byCtrl]

theorem rtPwmDisable_spec (i : MotorId) :
    Spec (At ch made d) (rtPwmDisable .ctrl i)
      (At ch (.pwmDisable i :: made) { d with on := Function.update d.on i false }) := by
  refine write_spec (c := .pwmDisable i) ?_ trivial nofun
  intro s
  simp [Board.view, View.call, Event.byCtrl]

theorem call_spec {c : Call} (hc : Permits d ch made c) (hw : c ≠ .wake)
    (hd : ∀ e : Drive, e.apply c = e) :
    Spec (At ch made d) (FabricInspection.call .ctrl c) (At ch made d) := by
  have h : Spec (At ch made d) (FabricInspection.call .ctrl c) (At ch (c :: made) (d.apply c)) :=
    write_spec (by intro s; simp [Board.view, View.call, Event.byCtrl, hd]) hc hw
  rw [hd d] at h
  exact Spec.forget h (by simp)

-- What a sleep needs of the drive.
def Rests (d : Drive) (ch : Char) (ms : Nat) : Prop :=
  d.Regulated ∧ (ch = 'u' → d.closed = false ∧ 20 ≤ ms)

theorem rtThreadMdelay_spec {ms : Nat} (h : Rests d ch ms) :
    Spec (At ch made d) (rtThreadMdelay .ctrl ms) (At ch (.wake :: made) d) := by
  refine Triple.seq (M := fun v => v.drive = d ∧
    ∃ all, v.Handling ch (all ++ [.sleep ms]) ∧ made ⊆ all ++ [.sleep ms]) ?_ ?_
  · refine Triple.write (k := fun v => v.call (.sleep ms)) ?_ ?_
    · intro s
      simp [Board.view, View.call, Event.byCtrl, Drive.apply]
    · rintro v hv
      refine ⟨call_step hv h (by simp), (congrArg (·.apply (.sleep ms)) hv.drive), ?_⟩
      obtain ⟨all, ⟨pre, hp⟩, hs⟩ := hv.handling
      exact ⟨all, ⟨pre, by simp [View.call, hp]⟩, List.subset_append_of_subset_left _ hs⟩
  · refine Triple.write (k := fun v => v.call .wake) ?_ ?_
    · intro s
      simp [Board.view, View.call, Event.byCtrl, Drive.apply]
    · rintro v ⟨rfl, all, ha, hs⟩
      exact ⟨.call v ch _ .wake ha ⟨h.1, all, ms, rfl⟩, At.call ⟨rfl, _, ha, hs⟩ .wake⟩

theorem delay_spec {ms : Nat} (h : Rests d ch ms) :
    Spec (At ch made d) (rtThreadMdelay .ctrl ms) (At ch made d) :=
  (rtThreadMdelay_spec h).forget (by simp)

theorem beep_spec {ms : Nat} (h : Rests d ch ms) :
    Spec (At ch made d) (beep .ctrl ms) (At ch made d) :=
  Triple.seq (buzzer_spec true) (Triple.seq (delay_spec h) (buzzer_spec false))

theorem assign_spec {f : Board → Board} {g : Drive → Drive} (run reverse closed : Bool)
    (hf : ∀ s, (f s).view = ⟨g s.view.drive, s.view.trace⟩)
    (hg : g d = { d with run := run, reverse := reverse, closed := closed })
    (runs : run = true → d.run = true ∨ moves ch = true)
    (closes : closed = true → d.closed = true ∨ moves ch = true ∧ (ch = 'u' → .wake ∈ made)) :
    Spec (At ch made d) (write f) (At ch made (g d)) := by
  refine Triple.write (k := fun v => ⟨g v.drive, v.trace⟩) hf ?_
  rintro v ⟨rfl, all, ha, hs⟩
  refine ⟨?_, rfl, all, ha, hs⟩
  rw [hg]
  refine .assign v ch all run reverse closed ha runs fun hc => ?_
  exact (closes hc).imp_right fun h => ⟨h.1, fun hu => hs (h.2 hu)⟩

theorem setMotorRun_spec (b : Bool) (h : b = true → moves ch = true) :
    Spec (At ch made d) (setMotorRun b) (At ch made { d with run := b }) :=
  assign_spec (g := fun d => { d with run := b }) b d.reverse d.closed (fun _ => rfl) rfl
    (fun hb => .inr (h hb)) .inl

theorem setClosedLoop_spec (b : Bool)
    (h : b = true → moves ch = true ∧ (ch = 'u' → .wake ∈ made)) :
    Spec (At ch made d) (setClosedLoop b) (At ch made { d with closed := b }) :=
  assign_spec (g := fun d => { d with closed := b }) d.run d.reverse b (fun _ => rfl) rfl .inl
    fun hb => .inr (h hb)

theorem setDirectionReverse_spec (b : Bool) :
    Spec (At ch made d) (setDirectionReverse b) (At ch made { d with reverse := b }) :=
  assign_spec (g := fun d => { d with reverse := b }) d.run b d.closed (fun _ => rfl) rfl .inl .inl

theorem quiet_spec {f : Board → Board} (hf : ∀ s, (f s).view = s.view) {A : View → Prop} :
    Spec A (write f) A :=
  Triple.write (k := id) hf fun v hv => ⟨.silent v, hv⟩

theorem setTargetSpeed_spec (x : ℚ) {A : View → Prop} : Spec A (setTargetSpeed x) A :=
  quiet_spec fun _ => rfl

theorem bind_read {α β : Type} {g : Board → α} {k : Drive → α} {q : α → Prog β}
    {B : β → View → Prop} (hg : ∀ s, g s = k s.view.drive)
    (hq : ∀ a, a = k d → Triple Board.view CtrlStep (At ch made d) (q a) B) :
    Triple Board.view CtrlStep (At ch made d) (read g >>= q) B := by
  refine Triple.bind_read (k := fun v => k v.drive) hg .silent ?_
  intro a
  refine (Triple.and_pure (P := a = k d) (hq a)).conseq ?_ fun _ _ h => h
  rintro v ⟨hv, rfl⟩
  exact ⟨hv, by rw [hv.drive]⟩

theorem bind_any {α β : Type} {g : Board → α} {q : α → Prog β} {A : View → Prop}
    {B : β → View → Prop} (hq : ∀ a, Triple Board.view CtrlStep A (q a) B) :
    Triple Board.view CtrlStep A (read g >>= q) B :=
  Triple.bind_any .silent hq

theorem Spec.of_eq {e : Drive} {A : View → Prop} {p : Prog Unit} (h : Spec A p (At ch made d))
    (he : d = e) : Spec A p (At ch made e) := he ▸ h

theorem motorContinuousStop_spec :
    Spec (At ch made d) motorContinuousStop (At ch (initialStop ++ made) d.halt) := by
  refine bind_read (k := Drive.run) (fun _ => rfl) ?_
  rintro run rfl
  have hrun : Spec (At ch made d) (when d.run (setMotorRun false))
      (At ch made { d with run := false }) := by
    refine Triple.when (fun _ => setMotorRun_spec false nofun) ?_
    intro v hr hv
    exact ⟨by rw [hv.drive]; simp only [← hr], hv.handling⟩
  refine Triple.seq hrun (Triple.seq (rtPwmDisable_spec .motor1) ?_)
  refine ((rtPwmDisable_spec .motor2).forget ?_).of_eq ?_
  · simp [initialStop]
  · exact Drive.ext rfl rfl (update_both rfl rfl) rfl rfl rfl rfl

theorem stopClosedLoop_spec : Spec (At ch made d) stopClosedLoop (At ch made d.unlock) := by
  refine bind_read (k := Drive.closed) (fun _ => rfl) ?_
  rintro closed rfl
  refine Triple.when (fun _ => setClosedLoop_spec false nofun) ?_
  intro v hc hv
  exact ⟨by rw [hv.drive, Drive.unlock]; simp only [← hc], hv.handling⟩

theorem motorSetDirection_spec (reverse : Bool) (h : d.Off) :
    Spec (At ch made d) (motorSetDirection reverse) (At ch made (d.direct reverse)) := by
  cases reverse with
  | false =>
    refine Triple.seq (dirPlus_spec .motor1 false h) ?_
    refine Triple.seq (dirPlus_spec .motor2 false (by exact h)) ?_
    refine Triple.seq (ena_spec .motor1 true (by exact h)) ?_
    refine (ena_spec .motor2 false (by exact h)).of_eq ?_
    exact Drive.ext (update_both rfl rfl) (update_both rfl rfl) rfl rfl rfl rfl rfl
  | true =>
    refine Triple.seq (dirPlus_spec .motor1 true h) ?_
    refine Triple.seq (dirPlus_spec .motor2 true (by exact h)) ?_
    refine Triple.seq (ena_spec .motor1 false (by exact h)) ?_
    refine (ena_spec .motor2 true (by exact h)).of_eq ?_
    exact Drive.ext (update_both rfl rfl) (update_both rfl rfl) rfl rfl rfl rfl rfl

-- The calls of motor_set_speed_rpm_both, which does nothing when a device is missing.
def bothSet (d : Drive) (rpm : UInt16) : List Call :=
  if d.present .motor1 && d.present .motor2 then
    [.pwmSet .motor2 (Motor.periodNs rpm) (Motor.periodNs rpm / 2),
      .pwmSet .motor1 (Motor.periodNs rpm) (Motor.periodNs rpm / 2)]
  else []

theorem bothSet_pwmSet {rpm : UInt16} (h : ∀ j, d.present j = true) (i : MotorId) :
    ∃ period pulse, .pwmSet i period pulse ∈ bothSet d rpm := by
  refine ⟨Motor.periodNs rpm, Motor.periodNs rpm / 2, ?_⟩
  cases i <;> simp [bothSet, h]

theorem motorSetSpeedRpmBoth_spec (rpm : UInt16) (hno : ch ≠ 'o') :
    Spec (At ch made d) (motorSetSpeedRpmBoth rpm) (At ch (bothSet d rpm ++ made) d) := by
  refine bind_read (k := fun d => !(d.present .motor1 && d.present .motor2)) (fun s => ?_) ?_
  · cases h1 : s.motor.pwm .motor1 <;> cases h2 : s.motor.pwm .motor2 <;>
      simp [Motor.missing, Board.view, Motor.drive, h1, h2]
  · rintro missing rfl
    rw [bothSet]
    rcases hp : d.present .motor1 && d.present .motor2 with _ | _
    · exact Triple.ret fun _ hv => hv
    · have hboth : Programs d ch := by
        refine ⟨hno, .inr fun j => ?_⟩
        cases j <;> simp_all
      exact Triple.seq (rtPwmSet_spec _ _ _ hboth) (rtPwmSet_spec _ _ _ hboth)

theorem speed_spec (rpm : UInt16) (hno : ch ≠ 'o') :
    Spec (At ch made d) (motorSetSpeedRpmBoth rpm) (At ch made d) :=
  (motorSetSpeedRpmBoth_spec rpm hno).forget (by simp)

theorem motorSetSpeedLevel_spec (periodUs : Nat) (h : Programs d ch) :
    Spec (At ch made d) (motorSetSpeedLevel periodUs) (At ch made d) := by
  refine Triple.seq (quiet_spec fun _ => rfl) (bind_any fun openLoop => ?_)
  refine Triple.when (fun _ => ?_) fun _ _ hv => hv
  exact Triple.seq (rtPwmSet_spec _ _ _ h) ((rtPwmSet_spec _ _ _ h).forget (by simp))

theorem motorAccelStart_spec (hm : moves ch = true) (hj : jogs ch = none) (hr : d.run = false)
    (ho : d.Off) (hset : ∀ i, Programmed d ch made i) :
    Spec (At ch made d) motorAccelStart (At ch made d.launch) := by
  refine bind_read (k := Drive.run) (fun _ => rfl) ?_
  rintro run rfl
  rw [hr]
  have hopp (e : Drive) (reverse : Bool) :
      ¬((e.direct reverse).ena .motor1 = true ∧ (e.direct reverse).ena .motor2 = true) := by
    cases reverse <;> simp [Drive.direct]
  have hnone : ∀ i j, jogs ch = some j → i = j ∧ initialStop ⊆ made := by simp [hj]
  refine Triple.seq (setMotorRun_spec true fun _ => hm) (bind_read (k := Drive.reverse)
    (fun _ => rfl) ?_)
  rintro reverse rfl
  refine Triple.seq (motorSetDirection_spec d.reverse ho) ?_
  refine Triple.seq (rtPwmEnable_spec .motor1
    ⟨hm, by exact hopp d d.reverse, hnone .motor1, by exact hset .motor1⟩) ?_
  refine (rtPwmEnable_spec .motor2
    ⟨hm, by exact hopp d d.reverse, hnone .motor2, by exact hset .motor2⟩).of_eq ?_
  exact Drive.ext rfl rfl (update_both rfl rfl) rfl rfl rfl rfl

theorem motorAccelLoop_spec {delay : Nat} (target step rpm : Nat) (h : Rests d ch delay)
    (hno : ch ≠ 'o') :
    Spec (At ch made d) (motorAccelLoop target step delay rpm) (At ch made d) := by
  induction rpm using motorAccelLoop.induct target step with
  | case1 rpm hrpm ih =>
    rw [motorAccelLoop, dif_pos hrpm]
    exact Triple.seq (speed_spec _ hno) (Triple.seq (delay_spec h) ih)
  | case2 rpm hrpm =>
    rw [motorAccelLoop, dif_neg hrpm]
    exact Triple.ret fun _ hv => hv

-- An open loop may rest at any time, 'u' for no less than 20 ms.
theorem rests_open {ms : Nat} (hc : d.closed = false) (hu : ch = 'u' → 20 ≤ ms) : Rests d ch ms :=
  ⟨Drive.regulated_of_not_closed hc, fun h => ⟨hc, hu h⟩⟩

theorem motorAccel_spec (start target step delay : Nat) (hm : moves ch = true)
    (hj : jogs ch = none) (hno : ch ≠ 'o') (hu : ch = 'u' → 20 ≤ delay) (hr : d.run = false)
    (hc : d.closed = false) (ho : d.Off) :
    Spec (At ch made d) (motorAccel start target step delay) (At ch made d.launch) := by
  have hlaunch : Rests d.launch ch delay := rests_open hc hu
  have hstart (rpm : UInt16) :
      Spec (At ch (bothSet d rpm ++ made) d) motorAccelStart (At ch made d.launch) := by
    refine (motorAccelStart_spec hm hj hr ho fun i => ?_).forget (by simp)
    refine ⟨fun ho => (hno ho).elim, fun h => ?_⟩
    obtain ⟨period, pulse, hp⟩ := bothSet_pwmSet (h.2.resolve_left (by simp [hj])) i
    exact ⟨period, pulse, List.mem_append_left _ hp⟩
  rw [motorAccel]
  split
  · exact Triple.seq (motorSetSpeedRpmBoth_spec _ hno) (hstart _)
  · refine Triple.seq (motorSetSpeedRpmBoth_spec _ hno) (Triple.seq (hstart _) ?_)
    refine Triple.seq (delay_spec hlaunch) ?_
    exact Triple.seq (motorAccelLoop_spec _ _ _ hlaunch hno) (speed_spec _ hno)

theorem jog_enable_permitted {i : MotorId} (hm : moves ch = true) (hj : jogs ch = some i)
    (hno : ch ≠ 'o') {e : Drive} (he : e.ena i.other = false) (hs : initialStop ⊆ made)
    {period pulse : Nat} : Permits e ch (.pwmSet i period pulse :: made) (.pwmEnable i) := by
  refine ⟨hm, ?_, fun j h => ⟨Option.some.inj (hj.symm.trans h), ?_⟩, ?_⟩
  · rintro ⟨h1, h2⟩
    cases i with
    | motor1 => exact Bool.false_ne_true (he.symm.trans h2)
    | motor2 => exact Bool.false_ne_true (he.symm.trans h1)
  · exact List.Subset.trans hs (by simp)
  · exact ⟨fun ho => (hno ho).elim, fun _ => ⟨period, pulse, by simp⟩⟩

-- Whether or not it leaves the closed loop first, a jog stops both outputs before it moves.
theorem motorMoveSteps_spec (i : MotorId) (steps : Nat) (reverse : Bool) (hm : moves ch = true)
    (hj : jogs ch = some i) (hu : ch ≠ 'u') (hno : ch ≠ 'o') :
    Spec (At ch made d) (motorMoveSteps i steps reverse) (At ch [] (d.jog i reverse)) := by
  have hrests {e : Drive} {ms : Nat} (hc : e.closed = false) : Rests e ch ms :=
    rests_open hc fun h => (hu h).elim
  have hjog {e : Drive} : Programs e ch := ⟨hno, .inl (by simp [hj])⟩
  refine bind_read (k := Drive.closed) (fun _ => rfl) ?_
  rintro closed rfl
  have hleave : Spec (At ch made d) (when d.closed do
      setClosedLoop false
      motorContinuousStop
      rtThreadMdelay .ctrl 10)
      (fun v => At ch [] d.unlock v ∨ At ch [] d.unlock.halt v) := by
    refine Triple.when (fun _ => ?_) fun v hc hv => ?_
    · refine Triple.post (Triple.seq (setClosedLoop_spec false nofun) (Triple.seq
        motorContinuousStop_spec (delay_spec (hrests rfl)))) ?_
      exact fun _ v hv => .inr (hv.forget (by simp))
    · have hd : d.unlock = d := Drive.ext rfl rfl rfl rfl rfl rfl hc.symm
      have hv' : At ch [] d v := hv.forget (by simp)
      exact .inl (hd.symm ▸ hv')
  have hstop : Spec (fun v => At ch [] d.unlock v ∨ At ch [] d.unlock.halt v)
      motorContinuousStop (At ch initialStop d.unlock.halt) :=
    Triple.cases motorContinuousStop_spec motorContinuousStop_spec
  have hoff : d.unlock.halt.Off := fun _ => rfl
  refine Triple.seq hleave (Triple.seq hstop ?_)
  refine Triple.seq (delay_spec (hrests rfl)) ?_
  refine Triple.seq (dirPlus_spec i reverse hoff) ?_
  refine Triple.seq (ena_spec i true (by exact hoff)) ?_
  refine Triple.seq (ena_spec i.other false (by exact hoff)) ?_
  refine Triple.seq (rtPwmSet_spec i _ _ (by exact hjog)) ?_
  refine Triple.seq (rtPwmEnable_spec i
    (by exact jog_enable_permitted hm hj hno (by simp) (List.Subset.refl _))) ?_
  refine Triple.seq (delay_spec (hrests (by rfl))) ?_
  refine Triple.seq (rtPwmDisable_spec i) ?_
  have hoff' (b : Bool) :
      Function.update (Function.update d.unlock.halt.on i b) i false = fun _ => false := by
    funext j
    by_cases h : j = i <;> simp [h, Drive.halt]
  refine Triple.seq (ena_spec .motor1 false (by exact fun j => congrFun (hoff' _) j)) ?_
  refine Triple.seq (ena_spec .motor2 false (by exact fun j => congrFun (hoff' _) j)) ?_
  refine bind_any fun speedUs => ?_
  refine Spec.forget ((motorSetSpeedLevel_spec speedUs (by exact hjog)).of_eq ?_) (by simp)
  exact Drive.ext (update_both rfl rfl) rfl (hoff' _) rfl rfl rfl rfl

theorem halt_spec : Spec (At ch made d) motorContinuousStop (At ch made d.halt) :=
  motorContinuousStop_spec.forget (by simp)

theorem bind_direction {q : Bool → Prog Unit} {B : View → Prop} {reverse : Bool}
    (hq : Spec (At ch made { d with reverse := reverse }) (q reverse) B) :
    Spec (At ch made d) (do
      setDirectionReverse reverse
      let reverse ← read fun s => s.motor.gDirectionReverse
      q reverse) B := by
  refine Triple.seq (setDirectionReverse_spec reverse) (bind_read (k := Drive.reverse)
    (fun _ => rfl) ?_)
  rintro _ rfl
  exact hq

theorem closedLoopForward_spec :
    Spec (At 'u' made d) (uartCtrlSwitch 'u') (At 'u' (.wake :: made) (d.after 'u')) := by
  have hoff : d.unlock.halt.Off := fun _ => rfl
  refine Triple.seq stopClosedLoop_spec (Triple.seq halt_spec ?_)
  refine Triple.seq (rtThreadMdelay_spec (rests_open rfl fun _ => le_rfl)) (bind_direction ?_)
  refine Triple.seq (motorSetDirection_spec false hoff) (bind_any fun target => ?_)
  refine Triple.seq (motorAccel_spec 50 target 5 80 rfl rfl (by decide) (fun _ => by decide) rfl rfl
    hoff) ?_
  exact setClosedLoop_spec true fun _ => ⟨rfl, fun _ => by simp⟩

theorem openLoopForward_spec :
    Spec (At 't' made d) (uartCtrlSwitch 't') (At 't' made (d.after 't')) := by
  have hoff : d.unlock.halt.Off := fun _ => rfl
  refine Triple.seq stopClosedLoop_spec (Triple.seq halt_spec (bind_direction ?_))
  refine Triple.seq (motorSetDirection_spec false hoff) ?_
  exact motorAccel_spec 100 200 20 50 rfl rfl (by decide) (by decide) rfl rfl hoff

theorem closedLoopReverse_spec :
    Spec (At 'o' made d) (uartCtrlSwitch 'o') (At 'o' made (d.after 'o')) := by
  refine Triple.seq halt_spec (Triple.seq (setClosedLoop_spec true fun _ => ⟨rfl, by simp⟩)
    (bind_direction ?_))
  refine Triple.seq (motorSetDirection_spec true (fun _ => rfl)) ?_
  refine Triple.seq (rtPwmEnable_spec .motor2
    ⟨rfl, by simp [Drive.direct], by simp [jogs], fun _ => rfl, fun h => (h.1 rfl).elim⟩) ?_
  refine Spec.of_eq (Spec.forget (rtPwmDisable_spec .motor1) (by simp)) ?_
  refine Drive.ext rfl rfl ?_ rfl rfl rfl rfl
  funext i
  cases i <;> simp [Drive.after, Drive.direct, Drive.halt]

theorem announce_spec (h : d.Regulated) :
    Spec (At ')' made d) (uartCtrlSwitch ')') (At ')' made d) := by
  have hrests {ms : Nat} : Rests d ')' ms := ⟨h, by simp⟩
  refine Triple.seq (beep_spec hrests) (Triple.seq (delay_spec hrests) ?_)
  refine Triple.seq (beep_spec hrests) (Triple.seq (quiet_spec ?_) (quiet_spec fun _ => rfl))
  intro s
  simp [Board.view, Event.byCtrl]

theorem uartCtrlSwitch_spec (ch : Char) (h : d.Regulated) :
    Spec (At ch [] d) (uartCtrlSwitch ch)
      (At ch (if ch = 'u' then [.wake] else []) (d.after ch)) := by
  unfold uartCtrlSwitch
  split
  · refine Triple.seq stopClosedLoop_spec (Triple.seq halt_spec ?_)
    refine Triple.seq (call_spec trivial nofun fun _ => rfl) (beep_spec (rests_open rfl (by decide)))
  · exact Triple.seq stopClosedLoop_spec halt_spec
  · exact closedLoopForward_spec
  · exact closedLoopReverse_spec
  · exact motorMoveSteps_spec .motor1 _ _ rfl rfl (by decide) (by decide)
  · exact motorMoveSteps_spec .motor1 _ _ rfl rfl (by decide) (by decide)
  · exact motorMoveSteps_spec .motor1 _ _ rfl rfl (by decide) (by decide)
  · exact motorMoveSteps_spec .motor1 _ _ rfl rfl (by decide) (by decide)
  · exact motorMoveSteps_spec .motor2 _ _ rfl rfl (by decide) (by decide)
  · exact motorMoveSteps_spec .motor2 _ _ rfl rfl (by decide) (by decide)
  · exact motorMoveSteps_spec .motor2 _ _ rfl rfl (by decide) (by decide)
  · exact motorMoveSteps_spec .motor2 _ _ rfl rfl (by decide) (by decide)
  · exact setTargetSpeed_spec 300
  · exact setTargetSpeed_spec 200
  · exact setTargetSpeed_spec 100
  · exact openLoopForward_spec
  · refine quiet_spec fun s => ?_
    simp [Board.view, Event.byCtrl]
  · exact announce_spec h
  · refine Triple.ret fun v hv => ?_
    have hd : d.after ch = d := by rw [Drive.after] <;> assumption
    rw [hd, if_neg (by assumption)]
    exact hv

theorem uartCtrlThread_spec (x : Option Char) :
    Spec (fun v => v.drive.Regulated) (uartCtrlThread x) fun v => v.drive.Regulated := by
  cases x with
  | none => exact Triple.ret fun _ hv => hv
  | some ch =>
    intro s hs
    have hcommand : Spec (fun v => v.drive = s.view.drive) (emit (.command ch))
        (At ch [] s.view.drive) := by
      refine Triple.write (k := fun v => v.note (.command ch)) ?_ ?_
      · intro t
        simp [Board.view, View.note, Event.byCtrl]
      · rintro v hv
        exact ⟨.command v ch (hv ▸ hs), hv, [], ⟨v.trace, rfl⟩, List.Subset.refl _⟩
    have hhandled : Spec (At ch (if ch = 'u' then [.wake] else []) (s.view.drive.after ch))
        (emit (.handled ch)) fun v => v.drive.Regulated := by
      refine Triple.write (k := fun v => v.note (.handled ch)) ?_ ?_
      · intro t
        simp [Board.view, View.note, Event.byCtrl]
      · rintro v ⟨hv, all, ha, hall⟩
        have hwake : ch = 'u' → ∃ made, v.Handling ch made ∧ .wake ∈ made := fun h =>
          ⟨all, ha, hall (by simp [h])⟩
        exact ⟨.handled v ch (fun h => hv ▸ Drive.after_halted h _)
          (fun h => hv ▸ Drive.after_released h _) (fun h => hv ▸ Drive.after_closed h _) hwake, by
            rw [View.note, hv]; exact Drive.after_regulated hs ch⟩
    have h : Spec (fun v => v.drive = s.view.drive) (uartCtrlThread (some ch))
        fun v => v.drive.Regulated :=
      Triple.seq hcommand (Triple.seq (uartCtrlSwitch_spec ch hs) hhandled)
    exact h s rfl

end
end FabricInspection
