import FabricInspection.Inspection.Refinement
import FabricInspection.Receiver.Mailbox

namespace FabricInspection

open Concurrency (Contract Machine Platform Program Rely)
open Concurrency.Program (Keeps keeps_write keeps_seq read write wp_keeps)

-- image_count next to what it counts.
def Board.counts (s : Board) : UInt8 × UInt8 := (s.round.imageCount, tally s.history)

inductive CtrlEffect (s : Board) : Board → Prop
  | motor {t : Board} (h : MotorOnly s t) : CtrlEffect s t
  | counted : CtrlEffect s
      { s.emit .counted with round := { s.round with imageCount := s.round.imageCount + 1 } }
  | announced : CtrlEffect s
      { s.emit (.announced s.round.imageCount) with
        round := { s.round with detectionRoundCnt := s.round.imageCount } }
  | zeroed : CtrlEffect s { s with round := { s.round with imageCount := 0 } }

-- Only right after an announcement does image_count differ from the count it stands for.
def CountStep (v v' : UInt8 × UInt8) : Prop := v.1 = v.2 ∨ v.2 = 0 ∧ v' = (0, 0)

theorem tally_append {log es : List Event} (h : ∀ e ∈ es, e.byRecv = true) :
    tally (log ++ es) = tally log := by
  induction es using List.reverseRecOn with
  | nil => rw [List.append_nil]
  | append_singleton es e ih =>
    rw [← List.append_assoc, tally_snoc, ih fun x hx => h x (by simp [hx])]
    have he := h e (by simp)
    cases e with
    | counted | announced => cases he
    | _ => rfl

namespace MotorOnly

theorem history {s t : Board} (h : MotorOnly s t) : t.history = s.history := by
  refine h.log.filter fun e he => ?_
  cases e with
  | call who c => cases who with
    | recv => cases he
    | ctrl | pid => cases c <;> rfl
  | command | handled | iteration => rfl
  | _ => cases he

theorem desk {s t : Board} (h : MotorOnly s t) : t.desk = s.desk := by
  simp only [Board.desk, h.rx, h.round, h.insp, h.opens, h.history]

theorem counts {s t : Board} (h : MotorOnly s t) : t.counts = s.counts := by
  rw [Board.counts, Board.counts, h.round, h.history]

end MotorOnly

theorem RecvOnly.counts {s t : Board} (h : RecvOnly s t) : t.counts = s.counts := by
  obtain ⟨es, hl, he⟩ := h.log
  have ht : tally t.history = tally s.history := by
    rw [Board.history, hl, List.filter_append]
    exact tally_append fun e hm => he e (List.mem_filter.mp hm).1
  rw [Board.counts, Board.counts, h.round, ht]

theorem keeps_uartCtrlThread (x : Option Char) : Keeps CtrlEffect (uartCtrlThread x) := by
  have hmotor {p : Prog Unit} (h : Keeps MotorOnly p) : Keeps CtrlEffect p :=
    Program.keeps_mono (fun _ _ => .motor) h
  cases x with
  | none => trivial
  | some ch =>
    refine keeps_seq (hmotor (MotorOnly.keeps_emit rfl)) (keeps_seq ?_
      (hmotor (MotorOnly.keeps_emit rfl)))
    by_cases ho : ch = '('
    · subst ho
      exact keeps_write fun _ => .counted
    by_cases hc : ch = ')'
    · subst hc
      refine keeps_seq (hmotor (MotorOnly.frame.keeps_beep 80)) (keeps_seq
        (hmotor (MotorOnly.frame.keeps_delay 80)) (keeps_seq (hmotor (MotorOnly.frame.keeps_beep 80)) ?_))
      exact keeps_seq (keeps_write fun _ => .announced) (keeps_write fun _ => .zeroed)
    exact hmotor (MotorOnly.frame.keeps_uartCtrlSwitch ho hc)

abbrev CountSpec (A : UInt8 × UInt8 → Prop) (p : Prog Unit) (B : UInt8 × UInt8 → Prop) : Prop :=
  ∀ s, A s.counts → p.wp (Rely.ofView Board.counts) (fun s t => CountStep s.counts t.counts)
    (fun _ _ => True) (fun _ t => B t.counts) s

abbrev Agreed (v : UInt8 × UInt8) : Prop := v.1 = v.2

theorem agreed_of_motorOnly {p : Prog Unit} (h : Keeps MotorOnly p) : CountSpec Agreed p Agreed := by
  intro s hs
  refine Program.wp_of_keeps (Rely.stable_ofView Board.counts Agreed) ?_ h hs
  intro t u ht hu
  exact ⟨.inl ht, by rw [hu.counts]; exact ht⟩

theorem CountSpec.seq {A B C : UInt8 × UInt8 → Prop} {p : Prog Unit} {q : Unit → Prog Unit}
    (hp : CountSpec A p B) (hq : CountSpec B (q ()) C) : CountSpec A (p >>= q) C :=
  fun s hs => Program.wp_seq (hp s hs) hq

theorem CountSpec.write {A B : UInt8 × UInt8 → Prop} {f : Board → Board}
    (h : ∀ s, A s.counts → CountStep s.counts (f s).counts ∧ B (f s).counts) :
    CountSpec A (write f) B :=
  fun _ hs => Program.wp_write (Rely.stable_ofView Board.counts A)
    (Rely.stable_ofView Board.counts B) hs h

theorem counts_counted (s : Board) : Board.counts
    { s.emit .counted with round := { s.round with imageCount := s.round.imageCount + 1 } } =
      (s.round.imageCount + 1, tally s.history + 1) := by
  rw [Board.counts, history_log (s := s) (e := .counted) rfl rfl, tally_snoc]
  rfl

theorem counts_announced (s : Board) : Board.counts
    { s.emit (.announced s.round.imageCount) with
      round := { s.round with detectionRoundCnt := s.round.imageCount } } =
      (s.round.imageCount, 0) := by
  rw [Board.counts, history_log (s := s) (e := .announced s.round.imageCount) rfl rfl, tally_snoc]
  rfl

theorem uartCtrlThread_counts (x : Option Char) : CountSpec Agreed (uartCtrlThread x) Agreed := by
  cases x with
  | none => exact agreed_of_motorOnly trivial
  | some ch =>
    have hemit {e : Event} (he : e.byMotor = true) : CountSpec Agreed (emit e) Agreed :=
      agreed_of_motorOnly (MotorOnly.keeps_emit he)
    refine CountSpec.seq (hemit rfl) (CountSpec.seq ?_ (hemit rfl))
    by_cases ho : ch = '('
    · subst ho
      refine CountSpec.write fun s hs => ⟨.inl hs, ?_⟩
      rw [counts_counted]
      exact congrArg (· + 1) hs
    by_cases hc : ch = ')'
    · subst hc
      refine CountSpec.seq (agreed_of_motorOnly (MotorOnly.frame.keeps_beep 80)) (CountSpec.seq
        (agreed_of_motorOnly (MotorOnly.frame.keeps_delay 80)) (CountSpec.seq
          (agreed_of_motorOnly (MotorOnly.frame.keeps_beep 80)) ?_))
      refine CountSpec.seq (B := fun v => v.2 = 0) (CountSpec.write fun s hs => ⟨.inl hs, ?_⟩) ?_
      · rw [counts_announced]
      · refine CountSpec.write fun s hs => ?_
        have hz : Board.counts { s with round := { s.round with imageCount := 0 } } = (0, 0) :=
          Prod.ext rfl hs
        exact ⟨.inr ⟨hs, hz⟩, by rw [hz]⟩
    exact agreed_of_motorOnly (MotorOnly.frame.keeps_uartCtrlSwitch ho hc)

theorem CtrlEffect.rely {w : World} {s t : Board} (h : CtrlEffect s t)
    (hc : CountStep s.counts t.counts) : ((desk w).rely Board.desk).rel s t := by
  cases h with
  | motor h =>
    have hd : t.desk = s.desk := h.desk
    have hr := ((desk w).rely Board.desk).refl s
    exact (congrArg (Relation.ReflTransGen EnvStep s.desk) hd).mpr hr
  | counted =>
    have ht := desk_log (s := s) (e := .counted)
      (t := { s.emit .counted with
        round := { s.round with imageCount := s.round.imageCount + 1 } }) rfl rfl
    exact Relation.ReflTransGen.single (ht ▸ EnvStep.counted s.desk)
  | announced =>
    have ha : s.round.imageCount = tally s.history := by
      rcases hc with hc | ⟨hz, hc⟩
      · exact hc
      · rw [counts_announced] at hc
        exact (congrArg Prod.fst hc).trans hz.symm
    have ht := desk_log (s := s) (e := .announced s.round.imageCount)
      (t := { s.emit (.announced s.round.imageCount) with
        round := { s.round with detectionRoundCnt := s.round.imageCount } }) rfl rfl
    have hs := EnvStep.announced s.desk
    have htally : tally s.desk.log = s.round.imageCount := ha.symm
    rw [htally] at hs
    exact Relation.ReflTransGen.single (ht ▸ hs)
  | zeroed => exact ((desk w).rely Board.desk).refl s

theorem interrupt_desk {w : World} {s t : Board} {e : Irq} (h : s.interrupt e = .ok t) :
    ((desk w).rely Board.desk).rel s t ∧ t.counts = s.counts := by
  cases e with
  | uart3 d =>
    rw [Board.interrupt] at h
    cases hd : s.rx.uartRxByte d with
    | error f => simp [hd, Except.map] at h
    | ok p =>
      simp only [hd, Except.map, Except.ok.injEq] at h
      obtain ⟨rx, image⟩ := p
      obtain ⟨hr, hb⟩ := Receiver.uartRxByte_mail hd
      cases image with
      | none =>
        have ht : t.desk = s.desk := by
          rw [← h]
          simp only [Board.received, Board.desk, hr, hb, Option.isSome_none, Bool.or_false]
          rfl
        refine ⟨?_, by rw [← h]; rfl⟩
        exact (congrArg (Relation.ReflTransGen EnvStep s.desk) ht).mpr .refl
      | some image =>
        have hl : t.log = s.log ++ [.committed image] := by rw [← h]; rfl
        refine ⟨Relation.ReflTransGen.single ?_, ?_⟩
        · rw [desk_log rfl hl, ← h]
          simp only [Board.received, hr, hb, Option.isSome_some, Bool.or_true]
          exact .committed s.desk image
        · rw [Board.counts, Board.counts, history_log rfl hl, tally_snoc, ← h]
          rfl
  | pid cnt now =>
    simp only [Board.interrupt, Except.ok.injEq] at h
    have hm : MotorOnly s t := h ▸ MotorOnly.speedPidIteration s cnt now
    refine ⟨?_, hm.counts⟩
    exact (congrArg (Relation.ReflTransGen EnvStep s.desk) hm.desk).mpr .refl

def deskContract (w : World) : Contract (inspector w) where
  rely
    | .ctrl => Rely.ofView Board.counts
    | .recv => (desk w).rely Board.desk
  guar
    | .ctrl => fun s t => CountStep s.counts t.counts ∧ CtrlEffect s t
    | .recv => fun s t => (∃ p, (desk w).Reach p t.desk) ∧ RecvOnly s t
  fault
    | .ctrl => fun _ _ => True
    | .recv => fun f s => (desk w).Reach (.crashed f) s.desk
  idle
    | .ctrl => fun s => Agreed s.counts
    | .recv => fun s => (desk w).Reach .idle s.desk
  entry
    | .ctrl, x, s, hs => wp_keeps (keeps_uartCtrlThread x) (uartCtrlThread_counts x s hs)
    | .recv, (), s, hs => wp_keeps (RecvOnly.keeps_uartRecvThread w) (uartRecvThread_runs s hs)
  others := by
    rintro (_ | _) (_ | _) s t hij h
    · exact (hij rfl).elim
    · exact h.2.rely h.1
    · exact h.2.counts
    · exact (hij rfl).elim
  interrupts := by
    rintro (_ | _) e s t h
    · exact (interrupt_desk (w := w) h).2
    · exact (interrupt_desk h).1

section
variable {w : World} {pin : Pin → Bool} {found : MotorId → Bool}

theorem deskContract_holds : (deskContract w).Holds (start w pin found) := by
  refine (deskContract w).holds_boot ?_
  rintro (_ | _) t h
  · have hv : t.counts = (Board.initial pin found).counts := h
    have ha : Agreed t.counts := by
      rw [hv]
      rfl
    exact ha
  · have hinit : (desk w).Reach .idle (Board.initial pin found).desk := .init
    exact ((desk w).inPhase .idle).stable_rely Board.desk _ t hinit h

theorem desk_of_rely {s t : Board} (hs : ∃ p, (desk w).Reach p s.desk)
    (h : ((desk w).rely Board.desk).rel s t) : ∃ p, (desk w).Reach p t.desk := by
  obtain ⟨p, hp⟩ := hs
  exact ⟨p, ((desk w).inPhase p).stable_rely Board.desk s t hp h⟩

-- The system refines the automaton of the inspection thread.
theorem reach_desk {c : Config w} (h : Platform.Reach (start w pin found) c) :
    ∃ p, (desk w).Reach p c.state.desk := by
  refine (deskContract w).invariant (J := fun s => ∃ p, (desk w).Reach p s.desk)
    deskContract_holds ⟨.idle, .init⟩ ?_ (fun e s t hs he => desk_of_rely hs (interrupt_desk he).1) h
  rintro (_ | _) s t hs hg
  · exact desk_of_rely hs (hg.2.rely hg.1)
  · exact hg.1

theorem reach_desk_idle {c : Config w} (h : Platform.Reach (start w pin found) c)
    (hi : c.blocked Task.recv) : (desk w).Reach .idle c.state.desk :=
  (deskContract w).idle_of_blocked ((deskContract w).holds_reach deskContract_holds h) hi

theorem reach_desk_fault {c : Config w} (h : Platform.Reach (start w pin found) c) {f : Fault}
    (hf : c.thread Task.recv = .fail f) : (desk w).Reach (.crashed f) c.state.desk :=
  (deskContract w).fault_of_fail ((deskContract w).holds_reach deskContract_holds h) hf

end
end FabricInspection
