import FabricInspection.Serial.Delivery

namespace FabricInspection

open Concurrency (Platform)
open Queues (Ring)
open Queues.Ring (newest newest_short newest_suffix)

-- What one port has done with its bytes: those before the unread ones were handed over in order,
-- or given up, which takes a full buffer.
structure Passed (fifo : RxFifo) (arrived dispatched pending : List UInt8) : Prop where
  unread : fifo.Unread pending
  order : ∃ front, arrived = front ++ pending ∧ dispatched.Sublist front ∧
    (arrived.length < rtSerialRbBufsz → front = dispatched)

namespace Passed
variable {fifo : RxFifo} {arrived dispatched pending : List UInt8}

theorem init : Passed rxFifoInit [] [] [] :=
  ⟨.empty rfl rfl, [], rfl, .slnil, fun _ => rfl⟩

theorem short (h : Passed fifo arrived dispatched pending) : pending.length < 64 :=
  h.unread.holds.short

theorem bring (h : Passed fifo arrived dispatched pending) (bs : List UInt8) :
    Passed (fifo.pushAll bs) (arrived ++ bs) dispatched
      (newest rtSerialRbBufsz (pending ++ bs)) := by
  obtain ⟨hunread, front, rfl, hsub, hwhole⟩ := h
  obtain ⟨gone, hgone⟩ := newest_suffix rtSerialRbBufsz (pending ++ bs)
  refine ⟨hunread.pushAll (by decide), front ++ gone, ?_, ?_, fun hlt => ?_⟩
  · rw [List.append_assoc, List.append_assoc, hgone]
  · exact hsub.trans (List.sublist_append_left _ _)
  · simp only [List.length_append] at hlt hwhole
    have hroom : (pending ++ bs).length < rtSerialRbBufsz := by
      rw [List.length_append]
      omega
    rw [newest_short hroom] at hgone
    rw [List.self_eq_append_left.mp hgone.symm, List.append_nil]
    exact hwhole (by omega)

theorem read {b : UInt8} {rest : List UInt8} (h : Passed fifo arrived dispatched (b :: rest)) :
    ∃ fifo', fifo.pop = some (b, fifo') ∧ Passed fifo' arrived (dispatched ++ [b]) rest := by
  obtain ⟨hunread, front, horder, hsub, hwhole⟩ := h
  obtain ⟨fifo', hpop, hrest⟩ := hunread.pop_cons
  refine ⟨fifo', hpop, hrest, front ++ [b], ?_, hsub.append (.refl _), fun hlt => ?_⟩
  · rw [horder, List.append_assoc, List.singleton_append]
  · rw [hwhole hlt]

end Passed

namespace Link
variable {w : World} {l m : Link w}

-- A run in which the FIFOs may overflow.
def Reach (l m : Link w) : Prop := Relation.ReflTransGen Step l m

structure Kept (l : Link w) (pending : Uart → List UInt8) : Prop where
  port : ∀ u, Passed (l.fifo u) (ofUart u l.arrived) (ofUart u l.dispatched) (pending u)
  count : (pending .uart4).length + (pending .uart2).length ≤
    l.sem + l.stage.claim + excess l.bursts
  spare : l.stage = .read2 → pending .uart2 = [] →
    (pending .uart4).length ≤ l.sem + excess l.bursts
  asleep : l.stage = .suspended → l.sem = 0
  idle : l.stage ≠ .handle → l.config.blocked Task.ctrl

namespace Kept
variable {pending : Uart → List UInt8}

theorem init {pin : Pin → Bool} {found : MotorId → Bool} :
    Kept (Link.init w pin found) fun _ => [] :=
  ⟨fun _ => Passed.init, Nat.zero_le _, by simp [Link.init], by simp [Link.init], fun _ => rfl⟩

theorem newest_ne_nil {xs : List UInt8} (h : xs ≠ []) : newest rtSerialRbBufsz xs ≠ [] := by
  intro hnil
  have hlen := congrArg List.length hnil
  have hpos := List.length_pos_iff.mpr h
  rw [newest, List.length_drop, List.length_nil, rtSerialRbBufsz] at hlen
  omega

-- The unread bytes after an interrupt.
def refill (pending : Uart → List UInt8) (u : Uart) (bs : List UInt8) : Uart → List UInt8 :=
  Function.update pending u (newest rtSerialRbBufsz (pending u ++ bs))

@[simp] theorem refill_self (pending : Uart → List UInt8) (u : Uart) (bs : List UInt8) :
    refill pending u bs u = newest rtSerialRbBufsz (pending u ++ bs) :=
  Function.update_self _ _ _

theorem refill_of_ne {u v : Uart} (h : v ≠ u) (pending : Uart → List UInt8) (bs : List UInt8) :
    refill pending u bs v = pending v :=
  Function.update_of_ne h _ _

theorem refill_total (pending : Uart → List UInt8) (u : Uart) (bs : List UInt8) :
    (refill pending u bs .uart4).length + (refill pending u bs .uart2).length ≤
      (pending .uart4).length + (pending .uart2).length + bs.length := by
  have hnewest : (newest rtSerialRbBufsz (pending u ++ bs)).length ≤
      (pending u).length + bs.length := by
    rw [← List.length_append]
    exact (newest_suffix _ _).length_le
  cases u with
  | uart4 =>
    have hother := refill_of_ne (show Uart.uart2 ≠ .uart4 by decide) pending bs
    rw [refill_self, hother]
    omega
  | uart2 =>
    have hother := refill_of_ne (show Uart.uart4 ≠ .uart2 by decide) pending bs
    rw [refill_self, hother]
    omega

-- The bytes of an interrupt, before its callback.
theorem bring (h : l.Kept pending) (u : Uart) (bs : List UInt8) (v : Uart) :
    Passed (Function.update l.fifo u ((l.fifo u).pushAll bs) v)
      (ofUart v (l.arrived ++ bs.map (u, ·))) (ofUart v l.dispatched) (refill pending u bs v) := by
  by_cases hv : v = u
  · subst hv
    simp only [Function.update_self, refill_self, ofUart_append, ofUart_burst_self]
    exact (h.port v).bring bs
  · simp only [Function.update_of_ne hv, refill_of_ne hv, ofUart_append, ofUart_burst_other hv,
      List.append_nil]
    exact h.port v

theorem span_ne_zero (h : l.Kept pending) (u : Uart) {bs : List UInt8} (hbs : bs ≠ []) :
    ((l.fifo u).pushAll bs).span ≠ 0 := by
  have hself := (h.bring u bs u).unread.span_eq
  rw [Function.update_self, refill_self] at hself
  rw [hself]
  exact (List.length_pos_iff.mpr (newest_ne_nil (by simp [hbs]))).ne'

-- An interrupt adds a unit, or the semaphore has more of them than the two buffers have room for
-- bytes.
theorem spare_bring (h : l.Kept pending) (u : Uart) {bs : List UInt8} (hbs : bs ≠ []) {sem : Nat}
    (hsem : l.sem + 1 ≤ sem ∨ rtSemValueMax ≤ sem) (hread : l.stage = .read2)
    (hempty : refill pending u bs .uart2 = []) :
    (refill pending u bs .uart4).length ≤ sem + excess (l.bursts ++ [bs.length]) := by
  rw [excess_snoc]
  rw [rtSemValueMax] at hsem
  cases u with
  | uart4 =>
    have h4 := (h.bring .uart4 bs .uart4).short
    have htotal := refill_total pending .uart4 bs
    have hlen := List.length_pos_iff.mpr hbs
    have hother := refill_of_ne (show Uart.uart2 ≠ .uart4 by decide) pending bs
    have hspare := h.spare hread (hother.symm.trans hempty)
    rw [hempty, ← hother, hempty] at htotal
    omega
  | uart2 =>
    rw [refill_self] at hempty
    exact (newest_ne_nil (by simp [hbs]) hempty).elim

theorem interrupt (h : l.Kept pending) (u : Uart) {bs : List UInt8} (hbs : bs ≠ []) :
    (l.rtHwSerialIsr u bs).Kept (refill pending u bs) := by
  have hport := h.bring u bs
  have hspan := h.span_ne_zero u hbs
  have hlen : 1 ≤ bs.length := List.length_pos_iff.mpr hbs
  have htotal := refill_total pending u bs
  have hold := h.count
  by_cases hs : l.stage = .suspended
  · have hl : l.rtHwSerialIsr u bs = { l with
        fifo := Function.update l.fifo u ((l.fifo u).pushAll bs)
        stage := .read4
        arrived := l.arrived ++ bs.map (u, ·)
        bursts := l.bursts ++ [bs.length] } := by
      simp [rtHwSerialIsr, hspan, uartRxCb, rtSemRelease, hs]
    have hsem := h.asleep hs
    rw [hl]
    refine ⟨hport, ?_, by simp, by simp, fun _ => h.idle (by simp [hs])⟩
    rw [hs] at hold
    simp only [RxStage.claim, excess_snoc] at hold ⊢
    omega
  by_cases hmax : l.sem < rtSemValueMax
  · have hl : l.rtHwSerialIsr u bs = { l with
        fifo := Function.update l.fifo u ((l.fifo u).pushAll bs)
        sem := l.sem + 1
        arrived := l.arrived ++ bs.map (u, ·)
        bursts := l.bursts ++ [bs.length] } := by
      simp [rtHwSerialIsr, hspan, uartRxCb, rtSemRelease, hs, hmax]
    rw [hl]
    refine ⟨hport, ?_, h.spare_bring u hbs (.inl le_rfl), fun h' => (hs h').elim, h.idle⟩
    simp only [excess_snoc]
    omega
  · have hl : l.rtHwSerialIsr u bs = { l with
        fifo := Function.update l.fifo u ((l.fifo u).pushAll bs)
        arrived := l.arrived ++ bs.map (u, ·)
        bursts := l.bursts ++ [bs.length] } := by
      simp [rtHwSerialIsr, hspan, uartRxCb, rtSemRelease, hs, hmax]
    have hmax := Nat.le_of_not_lt hmax
    have h4 := (hport .uart4).short
    have h2 := (hport .uart2).short
    rw [hl]
    refine ⟨hport, ?_, h.spare_bring u hbs (.inr hmax), fun h' => (hs h').elim, h.idle⟩
    rw [rtSemValueMax] at hmax
    simp only [excess_snoc]
    omega

theorem take (h : l.Kept pending) (hs : l.stage = .take) : l.rtSemTake.Kept pending := by
  have hcount := h.count
  have hidle := h.idle (by simp [hs])
  rw [hs] at hcount
  unfold rtSemTake
  split
  · refine ⟨h.port, ?_, by simp, by simp, fun _ => hidle⟩
    simp only [RxStage.claim] at hcount ⊢
    omega
  · refine ⟨h.port, hcount, by simp, fun _ => ?_, fun _ => hidle⟩
    simp only
    omega

theorem read (h : l.Kept pending) {u : Uart} {b : UInt8} {rest : List UInt8}
    (hp : pending u = b :: rest) (hs : l.stage.claim = 1) (other : RxStage) :
    (l.rtDeviceRead u other).Kept (Function.update pending u rest) := by
  obtain ⟨fifo, hpop, hrest⟩ := (hp ▸ h.port u).read
  have hl : l.rtDeviceRead u other = { l with
      fifo := Function.update l.fifo u fifo
      stage := .handle
      config := l.config.enter Task.ctrl (uartCtrlThread (some (Char.ofNat b.toNat)))
      dispatched := l.dispatched ++ [(u, b)] } := by
    simp [rtDeviceRead, hpop]
  rw [hl]
  refine ⟨fun v => ?_, ?_, by simp, by simp, fun hne => (hne rfl).elim⟩
  · have hone : [(u, b)] = [b].map (u, ·) := rfl
    by_cases hv : v = u
    · subst hv
      simpa [hone, -List.map_cons] using hrest
    · simpa [Function.update_of_ne hv, hone, ofUart_burst_other hv, -List.map_cons] using h.port v
  · have hcount := h.count
    rw [hs] at hcount
    cases u <;> simp [hp, RxStage.claim] at hcount ⊢ <;> omega

theorem read_empty (h : l.Kept pending) {u : Uart} (hp : pending u = []) {other : RxStage}
    (hidle : l.config.blocked Task.ctrl)
    (hcount : (pending .uart4).length + (pending .uart2).length ≤
      l.sem + other.claim + excess l.bursts)
    (hspare : other = .read2 → pending .uart2 = [] →
      (pending .uart4).length ≤ l.sem + excess l.bursts) (hother : other ≠ .suspended) :
    (l.rtDeviceRead u other).Kept pending := by
  have hpop : (l.fifo u).pop = none := (h.port u).unread.pop_eq_none.mpr hp
  have hl : l.rtDeviceRead u other = { l with stage := other } := by
    simp [rtDeviceRead, hpop]
  rw [hl]
  exact ⟨h.port, hcount, hspare, fun hs => (hother hs).elim, fun _ => hidle⟩

theorem step (h : l.Kept pending) (hs : Step l m) : ∃ pending', m.Kept pending' := by
  have hcount := h.count
  cases hs with
  | interrupt u bs hbs => exact ⟨_, h.interrupt u hbs⟩
  | take hs => exact ⟨_, h.take hs⟩
  | read4 hs =>
    rw [hs] at hcount
    rcases hp : pending .uart4 with _ | ⟨b, rest⟩
    · exact ⟨_, h.read_empty hp (h.idle (by simp [hs])) hcount (fun _ _ => by simp [hp]) (by simp)⟩
    · exact ⟨_, h.read hp (by rw [hs]; rfl) _⟩
  | read2 hs =>
    rcases hp : pending .uart2 with _ | ⟨b, rest⟩
    · have hspare := h.spare hs hp
      refine ⟨_, h.read_empty hp (h.idle (by simp [hs])) ?_ (by simp) (by simp)⟩
      simp only [hp, RxStage.claim, List.length_nil]
      omega
    · exact ⟨_, h.read hp (by rw [hs]; rfl) _⟩
  | handled hs hb =>
    rw [hs] at hcount
    exact ⟨_, h.port, hcount, by simp, by simp, fun _ => hb⟩
  | board a d ha hs =>
    exact ⟨_, h.port, h.count, h.spare, h.asleep, fun hne => blocked_of_step ha hs (h.idle hne)⟩

end Kept

theorem Reach.kept {pin : Pin → Bool} {found : MotorId → Bool}
    (h : Reach (Link.init w pin found) l) : ∃ pending, l.Kept pending := by
  induction h with
  | refl => exact ⟨_, .init⟩
  | tail _ hs ih =>
    obtain ⟨pending, hk⟩ := ih
    exact hk.step hs

theorem isr_arrived (l : Link w) (u : Uart) (bs : List UInt8) :
    (l.rtHwSerialIsr u bs).arrived = l.arrived ++ bs.map (u, ·) := by
  simp only [rtHwSerialIsr, uartRxCb, rtSemRelease]
  split
  · split
    · rfl
    · split <;> rfl
  · rfl

theorem Reach.board {pin : Pin → Bool} {found : MotorId → Bool}
    (h : Reach (Link.init w pin found) l) : Platform.Reach (start w pin found) l.config := by
  induction h with
  | refl => exact .refl _
  | tail h hs ih =>
    obtain ⟨pending, hk⟩ := Reach.kept h
    refine ih.trans ?_
    cases hs with
    | interrupt u bs hbs => exact isr_config _ u bs ▸ .refl _
    | take hs =>
      unfold rtSemTake
      split
      · exact .refl _
      · exact .refl _
    | read4 hs => exact read_reach _ _ _ (hk.idle (by simp [hs]))
    | read2 hs => exact read_reach _ _ _ (hk.idle (by simp [hs]))
    | handled hs hb => exact .refl _
    | board a d ha hs => exact .of_step hs

end Link

-- With overflows too, commands are handled in the order they came, and the thread does not wait
-- for longer than bytes without a release of their own are left.
theorem commands_ordered_despite_overflow (w : World) (pin : Pin → Bool) (found : MotorId → Bool)
    (l : Link w) (h : Link.Reach (Link.init w pin found) l) :
    Platform.Reach (start w pin found) l.config ∧ ∃ pending : Uart → List UInt8,
      (∀ u, (l.fifo u).Unread (pending u) ∧ (pending u).length < rtSerialRbBufsz ∧
        ∃ front, ofUart u l.arrived = front ++ pending u ∧
          (ofUart u l.dispatched).Sublist front ∧
          ((ofUart u l.arrived).length < rtSerialRbBufsz → front = ofUart u l.dispatched)) ∧
      (l.stage = .suspended → l.sem = 0 ∧
        (pending .uart4).length + (pending .uart2).length ≤ excess l.bursts) ∧
      (l.stage = .suspended → (∀ k ∈ l.bursts, k ≤ 1) → ∀ u, (l.fifo u).pop = none) := by
  obtain ⟨pending, hk⟩ := h.kept
  have hcount := hk.count
  have hwaiting (hs : l.stage = .suspended) :
      l.sem = 0 ∧ (pending .uart4).length + (pending .uart2).length ≤ excess l.bursts := by
    have hsem := hk.asleep hs
    rw [hs, hsem] at hcount
    simp only [RxStage.claim] at hcount
    exact ⟨hsem, by omega⟩
  refine ⟨h.board, pending, fun u => ⟨(hk.port u).unread, (hk.port u).short, (hk.port u).order⟩,
    hwaiting, fun hs hone u => ?_⟩
  have hzero : excess l.bursts = 0 := by
    rw [excess, List.sum_eq_zero_iff_forall_eq_nat]
    intro k hk
    obtain ⟨n, hn, rfl⟩ := List.mem_map.mp hk
    exact Nat.sub_eq_zero_of_le (hone n hn)
  have hsum := (hwaiting hs).2
  rw [hzero] at hsum
  refine (hk.port u).unread.pop_eq_none.mpr (List.eq_nil_of_length_eq_zero ?_)
  cases u <;> omega

set_option maxRecDepth 8192 in
-- One interrupt brings more bytes than the buffer has room for.
theorem commands_ordered_despite_overflow_flood : ∃ l : Link blindWorld,
    Link.Reach (Link.init blindWorld (fun _ => true) fun _ => true) l ∧
      (l.fifo .uart4).full = true ∧ ∃ front pending : List UInt8,
        List.replicate 70 115 = front ++ pending ∧ pending.length < rtSerialRbBufsz := by
  have hreach : Link.Reach (Link.init blindWorld (fun _ => true) fun _ => true) _ :=
    .single (.interrupt _ .uart4 (List.replicate 70 115) (List.cons_ne_nil _ _))
  obtain ⟨-, pending, hport, -⟩ := commands_ordered_despite_overflow _ _ _ _ hreach
  obtain ⟨-, hshort, front, horder, -⟩ := hport .uart4
  rw [Link.isr_arrived, ofUart_append, ofUart_burst_self] at horder
  refine ⟨_, hreach, ?_, front, pending .uart4, horder, hshort⟩
  rw [Link.Counted.isr_fifo]
  decide

end FabricInspection
