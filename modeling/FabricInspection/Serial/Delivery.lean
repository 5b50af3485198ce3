import FabricInspection.Serial.Link
import FabricInspection.Motor.Safety

namespace FabricInspection

open Concurrency (Platform)
open Queues (Ring)

def ofUart (u : Uart) (xs : List (Uart × UInt8)) : List UInt8 :=
  (xs.filter fun x => x.1 = u).map (·.2)

-- The bytes that came without a release of their own.
def excess (bursts : List Nat) : Nat := (bursts.map (· - 1)).sum

-- The unit that a wake-up has taken and not yet spent.
def RxStage.claim : RxStage → Nat
  | .read4 | .read2 => 1
  | _ => 0

@[simp] theorem ofUart_append (u : Uart) (xs ys : List (Uart × UInt8)) :
    ofUart u (xs ++ ys) = ofUart u xs ++ ofUart u ys := by
  simp [ofUart]

@[simp] theorem ofUart_burst_self (u : Uart) (bs : List UInt8) :
    ofUart u (bs.map (u, ·)) = bs := by
  simp [ofUart, List.filter_map, Function.comp_def]

theorem ofUart_burst_other {u v : Uart} (h : v ≠ u) (bs : List UInt8) :
    ofUart v (bs.map (u, ·)) = [] := by
  simp [ofUart, List.filter_map, Function.comp_def, h.symm]

theorem excess_snoc (bursts : List Nat) (k : Nat) :
    excess (bursts ++ [k]) = excess bursts + (k - 1) := by
  simp [excess]

theorem excess_eq_zero {bursts : List Nat} (h : ∀ k ∈ bursts, 1 ≤ k) :
    excess bursts = 0 ↔ ∀ k ∈ bursts, k = 1 := by
  rw [excess, List.sum_eq_zero_iff_forall_eq_nat]
  simp only [List.mem_map, forall_exists_index, and_imp, forall_apply_eq_imp_iff₂]
  refine forall₂_congr fun k hk => ?_
  have := h k hk
  omega

namespace Link
variable {w : World} {l m : Link w}

-- Every unit of the semaphore stands for a byte, and the first byte of a burst for a unit.
structure Counted (l : Link w) (pending : Uart → List UInt8) : Prop where
  holds : ∀ u, (l.fifo u).Holds (pending u)
  order : ∀ u, ofUart u l.arrived = ofUart u l.dispatched ++ pending u
  count : (pending .uart4).length + (pending .uart2).length =
    l.sem + l.stage.claim + excess l.bursts
  brought : ∀ k ∈ l.bursts, 1 ≤ k
  second : l.stage = .read2 → pending .uart2 ≠ []
  asleep : l.stage = .suspended → l.sem = 0
  idle : l.stage ≠ .handle → l.config.blocked Task.ctrl

theorem blocked_of_step {c d : Config w} {a : (inspector w).Action}
    (ha : ∀ x, a ≠ .start Task.ctrl x) (hs : Platform.step c a = some d)
    (hb : c.blocked Task.ctrl) : d.blocked Task.ctrl := by
  have hne : Task.ctrl ≠ Task.recv := nofun
  obtain ⟨i, x, rfl, -, rfl⟩ | ⟨i, f, k, rfl, hk, rfl⟩ | ⟨e, s, rfl, -, rfl⟩ :=
    Platform.step_cases hs
  · cases i with
    | ctrl => exact (ha x rfl).elim
    | recv => exact (Platform.enter_other c hne _).trans hb
  · cases i with
    | ctrl => exact nomatch hk.symm.trans hb
    | recv => exact (Platform.enter_other c hne (k c.state)).trans hb
  · exact hb

namespace Counted
variable {pending : Uart → List UInt8}

theorem init {pin : Pin → Bool} {found : MotorId → Bool} :
    Counted (Link.init w pin found) fun _ => [] :=
  ⟨fun _ => Ring.Holds.empty rfl rfl, fun _ => rfl, rfl, nofun, nofun, nofun, fun _ => rfl⟩

-- The FIFOs are too short for the semaphore to reach its maximum.
theorem sem_lt (h : l.Counted pending) : l.sem < rtSemValueMax := by
  have h4 : (pending .uart4).length < 64 := (h.holds .uart4).short
  have h2 : (pending .uart2).length < 64 := (h.holds .uart2).short
  have := h.count
  rw [rtSemValueMax]
  omega

-- The bytes of an interrupt, before its callback.
theorem append (h : l.Counted pending) (u : Uart) (bs : List UInt8)
    (hf : ((l.fifo u).pushAll bs).full = false) (v : Uart) :
    (Function.update l.fifo u ((l.fifo u).pushAll bs) v).Holds
        (Function.update pending u (pending u ++ bs) v) ∧
      ofUart v (l.arrived ++ bs.map (u, ·)) =
        ofUart v l.dispatched ++ Function.update pending u (pending u ++ bs) v := by
  by_cases hv : v = u
  · subst hv
    simp only [Function.update_self, ofUart_append, ofUart_burst_self, h.order, List.append_assoc,
      and_true]
    exact (h.holds v).pushAll hf
  · simp only [Function.update_of_ne hv, ofUart_append, ofUart_burst_other hv, List.append_nil]
    exact ⟨h.holds v, h.order v⟩

theorem total_append (pending : Uart → List UInt8) (u : Uart) (bs : List UInt8) :
    (Function.update pending u (pending u ++ bs) .uart4).length +
        (Function.update pending u (pending u ++ bs) .uart2).length =
      (pending .uart4).length + (pending .uart2).length + bs.length := by
  cases u <;> simp <;> omega

theorem interrupt (h : l.Counted pending) (u : Uart) {bs : List UInt8} (hbs : bs ≠ [])
    (hf : ((l.fifo u).pushAll bs).full = false) :
    (l.rtHwSerialIsr u bs).Counted (Function.update pending u (pending u ++ bs)) := by
  have happend := h.append u bs hf
  have hlen : 1 ≤ bs.length := List.length_pos_iff.mpr hbs
  have hspan : ((l.fifo u).pushAll bs).span ≠ 0 := by
    rw [((h.holds u).pushAll hf).span_eq, List.length_append]
    omega
  have hcount := total_append pending u bs
  have hbrought : ∀ k ∈ l.bursts ++ [bs.length], 1 ≤ k := by
    intro k hk
    rcases List.mem_append.mp hk with hk | hk
    · exact h.brought k hk
    · exact List.mem_singleton.mp hk ▸ hlen
  have hold := h.count
  by_cases hs : l.stage = .suspended
  · have hl : l.rtHwSerialIsr u bs = { l with
        fifo := Function.update l.fifo u ((l.fifo u).pushAll bs)
        stage := .read4
        arrived := l.arrived ++ bs.map (u, ·)
        bursts := l.bursts ++ [bs.length] } := by
      simp [rtHwSerialIsr, hspan, uartRxCb, rtSemRelease, hs]
    have hsem := h.asleep hs
    rw [hl]
    refine ⟨fun v => (happend v).1, fun v => (happend v).2, ?_, hbrought, nofun, nofun,
      fun _ => h.idle (by simp [hs])⟩
    rw [hs] at hold
    simp only [RxStage.claim, excess_snoc] at hold ⊢
    omega
  · have hl : l.rtHwSerialIsr u bs = { l with
        fifo := Function.update l.fifo u ((l.fifo u).pushAll bs)
        sem := l.sem + 1
        arrived := l.arrived ++ bs.map (u, ·)
        bursts := l.bursts ++ [bs.length] } := by
      simp [rtHwSerialIsr, hspan, uartRxCb, rtSemRelease, hs, h.sem_lt]
    rw [hl]
    refine ⟨fun v => (happend v).1, fun v => (happend v).2, ?_, hbrought, ?_,
      fun h' => (hs h').elim, h.idle⟩
    · simp only [excess_snoc]
      omega
    · intro h2
      have hne := h.second h2
      cases u <;> simp [hne]

theorem isr_fifo (l : Link w) (u : Uart) (bs : List UInt8) :
    (l.rtHwSerialIsr u bs).fifo u = (l.fifo u).pushAll bs := by
  simp only [rtHwSerialIsr, uartRxCb, rtSemRelease]
  split
  · split
    · simp
    · split <;> simp
  · simp

theorem take (h : l.Counted pending) (hs : l.stage = .take) : l.rtSemTake.Counted pending := by
  have hcount := h.count
  have hidle := h.idle (by simp [hs])
  rw [hs] at hcount
  unfold rtSemTake
  split
  · refine ⟨h.holds, h.order, ?_, h.brought, nofun, nofun, fun _ => hidle⟩
    simp only [RxStage.claim] at hcount ⊢
    omega
  · refine ⟨h.holds, h.order, hcount, h.brought, nofun, fun _ => ?_, fun _ => hidle⟩
    simp only
    omega

-- A read that finds a byte hands it over.
theorem read (h : l.Counted pending) {u : Uart} {b : UInt8} {rest : List UInt8}
    (hp : pending u = b :: rest) (hs : l.stage.claim = 1) (other : RxStage) :
    (l.rtDeviceRead u other).Counted (Function.update pending u rest) := by
  obtain ⟨fifo, hpop, hrest⟩ := (hp ▸ h.holds u).pop_cons
  have hl : l.rtDeviceRead u other = { l with
      fifo := Function.update l.fifo u fifo
      stage := .handle
      config := l.config.enter Task.ctrl (uartCtrlThread (some (Char.ofNat b.toNat)))
      dispatched := l.dispatched ++ [(u, b)] } := by
    simp [rtDeviceRead, hpop]
  rw [hl]
  refine ⟨?_, ?_, ?_, h.brought, nofun, nofun, fun hne => (hne rfl).elim⟩
  · intro v
    by_cases hv : v = u
    · subst hv
      simpa using hrest
    · simpa [Function.update_of_ne hv] using h.holds v
  · intro v
    have horder := h.order v
    have hone : [(u, b)] = [b].map (u, ·) := rfl
    by_cases hv : v = u
    · subst hv
      simp [horder, hp, hone, -List.map_cons]
    · simp [horder, Function.update_of_ne hv, hone, ofUart_burst_other hv, -List.map_cons]
  · have hcount := h.count
    rw [hs] at hcount
    cases u <;> simp [hp, RxStage.claim] at hcount ⊢ <;> omega

theorem read4_empty (h : l.Counted pending) (hs : l.stage = .read4) (hp : pending .uart4 = []) :
    (l.rtDeviceRead .uart4 .read2).Counted pending := by
  have hpop : (l.fifo .uart4).pop = none := (h.holds .uart4).pop_eq_none.mpr hp
  have hcount := h.count
  rw [hs] at hcount
  have hl : l.rtDeviceRead .uart4 .read2 = { l with stage := .read2 } := by
    simp [rtDeviceRead, hpop]
  rw [hl]
  refine ⟨h.holds, h.order, hcount, h.brought, fun _ h2 => ?_, nofun, fun _ => h.idle (by simp [hs])⟩
  simp only [hp, h2, RxStage.claim, List.length_nil] at hcount
  omega

theorem step (h : l.Counted pending) (hs : Step l m) (hfull : ∀ u, (m.fifo u).full = false) :
    ∃ pending', m.Counted pending' := by
  cases hs with
  | interrupt u bs hbs =>
    refine ⟨_, h.interrupt u hbs ?_⟩
    have hu := hfull u
    rwa [isr_fifo] at hu
  | take hs => exact ⟨_, h.take hs⟩
  | read4 hs =>
    rcases hp : pending .uart4 with _ | ⟨b, rest⟩
    · exact ⟨_, h.read4_empty hs hp⟩
    · exact ⟨_, h.read hp (by rw [hs]; rfl) _⟩
  | read2 hs =>
    rcases hp : pending .uart2 with _ | ⟨b, rest⟩
    · exact (h.second hs hp).elim
    · exact ⟨_, h.read hp (by rw [hs]; rfl) _⟩
  | handled hs hb =>
    have hcount := h.count
    rw [hs] at hcount
    exact ⟨_, h.holds, h.order, hcount, h.brought, nofun, nofun, fun _ => hb⟩
  | board a d ha hs =>
    exact ⟨_, h.holds, h.order, h.count, h.brought, h.second, h.asleep, fun hne =>
      blocked_of_step ha hs (h.idle hne)⟩

end Counted
theorem Run.counted {pin : Pin → Bool} {found : MotorId → Bool} (h : Run w pin found l) :
    ∃ pending, l.Counted pending := by
  induction h with
  | init => exact ⟨_, .init⟩
  | step h hs hfull ih =>
    obtain ⟨pending, hc⟩ := ih
    exact hc.step hs hfull

theorem isr_config (l : Link w) (u : Uart) (bs : List UInt8) :
    (l.rtHwSerialIsr u bs).config = l.config := by
  simp only [rtHwSerialIsr, uartRxCb, rtSemRelease]
  split
  · split
    · rfl
    · split <;> rfl
  · rfl

theorem read_reach (l : Link w) (u : Uart) (other : RxStage) (hb : l.config.blocked Task.ctrl) :
    Platform.Reach l.config (l.rtDeviceRead u other).config := by
  unfold rtDeviceRead
  split
  · exact .refl _
  · rename_i b fifo hpop
    exact .of_step (a := .start Task.ctrl (some (Char.ofNat b.toNat))) (Platform.step_start _ hb)

-- What the UARTs hand over are runs of the board.
theorem Run.reach {pin : Pin → Bool} {found : MotorId → Bool} (h : Run w pin found l) :
    Platform.Reach (start w pin found) l.config := by
  induction h with
  | init => exact .refl _
  | step h hs hfull ih =>
    obtain ⟨pending, hc⟩ := h.counted
    refine ih.trans ?_
    cases hs with
    | interrupt u bs hbs => exact isr_config _ u bs ▸ .refl _
    | take hs =>
      unfold rtSemTake
      split
      · exact .refl _
      · exact .refl _
    | read4 hs => exact read_reach _ _ _ (hc.idle (by simp [hs]))
    | read2 hs => exact read_reach _ _ _ (hc.idle (by simp [hs]))
    | handled hs hb => exact .refl _
    | board a d ha hs => exact .of_step hs

end Link

theorem commands_delivered_iff (w : World) (pin : Pin → Bool) (found : MotorId → Bool) (l : Link w)
    (h : Link.Run w pin found l) :
    Platform.Reach (start w pin found) l.config ∧
      (∀ u, ∃ pending, (l.fifo u).Holds pending ∧
        ofUart u l.arrived = ofUart u l.dispatched ++ pending) ∧
      (l.stage = .suspended →
        l.sem = 0 ∧ ((∀ u, (l.fifo u).pop = none) ↔ ∀ k ∈ l.bursts, k = 1)) := by
  obtain ⟨pending, hc⟩ := h.counted
  refine ⟨h.reach, fun u => ⟨pending u, hc.holds u, hc.order u⟩, fun hs => ⟨hc.asleep hs, ?_⟩⟩
  have hcount := hc.count
  rw [hs, hc.asleep hs] at hcount
  have hempty : (∀ u, (l.fifo u).pop = none) ↔ excess l.bursts = 0 := by
    simp only [fun u => (hc.holds u).pop_eq_none]
    constructor
    · intro hp
      simpa [hp, RxStage.claim] using hcount.symm
    · intro he u
      simp only [he, RxStage.claim] at hcount
      apply List.eq_nil_of_length_eq_zero
      cases u <;> omega
  exact hempty.trans (excess_eq_zero hc.brought)

-- The thread waits on the semaphore when one interrupt brings 'w' and 's'. It handles the 'w' and
-- waits again.
theorem run_burst : ∃ l : Link blindWorld,
    Link.Run blindWorld (fun _ => true) (fun _ => true) l ∧ l.stage = .suspended ∧ l.sem = 0 ∧
      l.arrived = [(.uart4, 119), (.uart4, 115)] ∧ l.dispatched = [(.uart4, 119)] ∧
      (l.fifo .uart4).pop ≠ none := by
  have hinit : Link.Run blindWorld (fun _ => true) (fun _ => true) _ := .init
  have hwait := hinit.step (.take _ rfl) fun u => rfl
  have hirq := hwait.step (.interrupt _ .uart4 [119, 115] (by simp)) fun u => by cases u <;> rfl
  have hread := hirq.step (.read4 _ rfl) fun u => by cases u <;> rfl
  have hcommand := hread.step (.board _ (.run Task.ctrl) _ nofun rfl) fun u => by cases u <;> rfl
  have hspeed := hcommand.step (.board _ (.run Task.ctrl) _ nofun rfl) fun u => by cases u <;> rfl
  have hdone := hspeed.step (.board _ (.run Task.ctrl) _ nofun rfl) fun u => by cases u <;> rfl
  have hloop := hdone.step (.handled _ rfl rfl) fun u => by cases u <;> rfl
  have hagain := hloop.step (.take _ rfl) fun u => by cases u <;> rfl
  exact ⟨_, hagain, rfl, rfl, rfl, rfl, by decide⟩

theorem commands_delivered_burst : ∃ l : Link blindWorld,
    Link.Run blindWorld (fun _ => true) (fun _ => true) l ∧ l.stage = .suspended ∧
      ((∀ u, (l.fifo u).pop = none) ↔ ∀ k ∈ l.bursts, k = 1) := by
  obtain ⟨l, h, hs, -⟩ := run_burst
  exact ⟨l, h, hs, ((commands_delivered_iff _ _ _ l h).2.2 hs).2⟩

theorem stop_left_waiting : ∃ l : Link blindWorld,
    Link.Run blindWorld (fun _ => true) (fun _ => true) l ∧ l.stage = .suspended ∧ l.sem = 0 ∧
      l.arrived = [(.uart4, 119), (.uart4, 115)] ∧ l.dispatched = [(.uart4, 119)] ∧
      ¬∀ u, (l.fifo u).pop = none := by
  obtain ⟨l, h, hs, h0, ha, hd, hp⟩ := run_burst
  exact ⟨l, h, hs, h0, ha, hd, fun hall => hp (hall .uart4)⟩

end FabricInspection
