import FabricInspection.Inspection.Contract
import FabricInspection.Motor.Safety

namespace FabricInspection

open Concurrency (Contract Platform Program Rely)
open Concurrency.Program (Keeps keeps_seq keeps_write write)

def isBracket (c : Char) : Bool := c = '(' || c = ')'

-- The brackets that the control thread was given, and those it has acted on.
def Event.heard? : Event → Option Char
  | .command c => if isBracket c then some c else none
  | _ => none

def Event.told? : Event → Option Char
  | .counted => some '('
  | .announced _ => some ')'
  | _ => none

def heard (log : List Event) : List Char := log.filterMap Event.heard?

def told (log : List Event) : List Char := log.filterMap Event.told?

def Board.hearing (s : Board) : List Char × List Char := (heard s.log, told s.log)

abbrev SameHearing (s t : Board) : Prop := t.hearing = s.hearing

section
variable {log : List Event} {e : Event}

theorem heard_snoc (log : List Event) (e : Event) :
    heard (log ++ [e]) = heard log ++ e.heard?.toList := by
  cases h : e.heard? <;> simp [heard, h]

theorem told_snoc (log : List Event) (e : Event) :
    told (log ++ [e]) = told log ++ e.told?.toList := by
  cases h : e.told? <;> simp [told, h]

theorem heard_quiet (h : e.heard? = none) : heard (log ++ [e]) = heard log := by
  rw [heard_snoc, h, Option.toList_none, List.append_nil]

theorem told_quiet (h : e.told? = none) : told (log ++ [e]) = told log := by
  rw [told_snoc, h, Option.toList_none, List.append_nil]

theorem told_history (s : Board) : told s.history = told s.log := by
  rw [told, told, Board.history, List.filterMap_filter]
  refine List.filterMap_congr fun e _ => ?_
  cases e with
  | call => exact ite_self _
  | _ => rfl

end

theorem hearing_event {s t : Board} {e : Event} (hh : e.heard? = none) (ht : e.told? = none)
    (hl : t.log = s.log ++ [e]) : SameHearing s t := by
  rw [SameHearing, Board.hearing, Board.hearing, hl, heard_quiet hh, told_quiet ht]

theorem hearing_appends {own : Event → Bool} {s t : Board} (h : Appends own s t)
    (hown : ∀ e, own e = true → e.heard? = none ∧ e.told? = none) : SameHearing s t := by
  obtain ⟨es, hl, hes⟩ := h
  have hheard : heard es = [] := List.filterMap_eq_nil_iff.mpr fun e he => (hown e (hes e he)).1
  have htold : told es = [] := List.filterMap_eq_nil_iff.mpr fun e he => (hown e (hes e he)).2
  have hh : heard t.log = heard s.log ++ heard es := hl ▸ List.filterMap_append
  have ht : told t.log = told s.log ++ told es := hl ▸ List.filterMap_append
  rw [SameHearing, Board.hearing, Board.hearing, hh, ht, hheard, htold, List.append_nil,
    List.append_nil]

theorem RecvOnly.hearing {s t : Board} (h : RecvOnly s t) : SameHearing s t := by
  refine hearing_appends h.log fun e he => ?_
  cases e with
  | command | counted | announced => cases he
  | _ => exact ⟨rfl, rfl⟩

theorem hearing_motorSetActiveSpeedRpm (s : Board) (rpm : UInt16) :
    SameHearing s (s.motorSetActiveSpeedRpm rpm) := by
  unfold Board.motorSetActiveSpeedRpm
  split
  · rfl
  · exact hearing_event rfl rfl rfl

theorem hearing_interrupt {s t : Board} {e : Irq} (h : s.interrupt e = .ok t) :
    SameHearing s t := by
  cases e with
  | uart3 d =>
    obtain ⟨-, hl | ⟨image, hl⟩⟩ := uart3_effect h
    · rw [SameHearing, Board.hearing, Board.hearing, hl]
    · exact hearing_event rfl rfl hl
  | pid cnt now =>
    simp only [Board.interrupt, Except.ok.injEq] at h
    have he : SameHearing s (s.emit .iteration) := hearing_event rfl rfl rfl
    rw [← h, Board.speedPidIteration]
    split
    · exact (hearing_motorSetActiveSpeedRpm _ _).trans he
    · exact he

theorem sameHearing_frame : Frame SameHearing :=
  ⟨fun _ _ _ => rfl, fun _ _ _ _ => hearing_event rfl rfl rfl⟩

abbrev HearSpec (A : List Char × List Char → Prop) (p : Prog Unit)
    (B : List Char × List Char → Prop) : Prop :=
  ∀ s, A s.hearing → p.wp (Rely.ofView Board.hearing) (fun _ t => t.hearing.2 <+: t.hearing.1)
    (fun _ _ => True) (fun _ t => B t.hearing) s

-- What the control thread has not acted on yet of what it was given.
abbrev Owes (cs : List Char) (v : List Char × List Char) : Prop := v.1 = v.2 ++ cs

theorem Owes.told {cs : List Char} {v : List Char × List Char} (h : Owes cs v) : v.2 <+: v.1 :=
  ⟨cs, h.symm⟩

theorem HearSpec.seq {A B C : List Char × List Char → Prop} {p : Prog Unit} {q : Unit → Prog Unit}
    (hp : HearSpec A p B) (hq : HearSpec B (q ()) C) : HearSpec A (p >>= q) C :=
  fun s hs => Program.wp_seq (hp s hs) hq

theorem HearSpec.write {A : List Char × List Char → Prop} {cs : List Char} {f : Board → Board}
    (h : ∀ s, A s.hearing → Owes cs (f s).hearing) : HearSpec A (write f) (Owes cs) :=
  fun _ hs => Program.wp_write (Rely.stable_ofView Board.hearing A)
    (Rely.stable_ofView Board.hearing (Owes cs)) hs fun t ht => ⟨(h t ht).told, h t ht⟩

theorem HearSpec.of_keeps {cs : List Char} {p : Prog Unit} (h : Keeps SameHearing p) :
    HearSpec (Owes cs) p (Owes cs) := by
  intro s hs
  refine Program.wp_of_keeps (Rely.stable_ofView Board.hearing (Owes cs)) ?_ h hs
  intro t u ht hu
  rw [hu]
  exact ⟨ht.told, ht⟩

theorem HearSpec.tell {c : Char} {f : Board → Board}
    (hf : ∀ s, ∃ e, (f s).log = s.log ++ [e] ∧ e.heard? = none ∧ e.told? = some c) :
    HearSpec (Owes [c]) (Program.write f) (Owes []) := by
  refine HearSpec.write fun s hs => ?_
  obtain ⟨e, hl, hh, ht⟩ := hf s
  rw [Owes, Board.hearing, hl, heard_quiet hh, told_snoc, ht]
  exact (show heard s.log = told s.log ++ [c] from hs).trans (List.append_nil _).symm

theorem uartCtrlThread_hears (x : Option Char) :
    HearSpec (Owes []) (uartCtrlThread x) (Owes []) := by
  have hemit {cs : List Char} {e : Event} (hh : e.heard? = none) (ht : e.told? = none) :
      HearSpec (Owes cs) (emit e) (Owes cs) :=
    HearSpec.of_keeps (keeps_write fun _ => hearing_event hh ht rfl)
  cases x with
  | none => exact HearSpec.of_keeps trivial
  | some ch =>
    have hcommand : HearSpec (Owes []) (emit (.command ch))
        (Owes (Event.heard? (.command ch)).toList) := by
      refine HearSpec.write fun s hs => ?_
      rw [Owes, Board.hearing, Board.emit_log, heard_snoc, told_quiet rfl]
      have hs' : heard s.log = told s.log ++ [] := hs
      rw [hs', List.append_nil]
    refine HearSpec.seq hcommand (HearSpec.seq ?_ (hemit rfl rfl))
    by_cases ho : ch = '('
    · subst ho
      refine HearSpec.tell fun s => ?_
      exact ⟨.counted, rfl, rfl, rfl⟩
    by_cases hc : ch = ')'
    · subst hc
      have hr := sameHearing_frame
      refine HearSpec.seq (HearSpec.of_keeps (hr.keeps_beep 80)) (HearSpec.seq
        (HearSpec.of_keeps (hr.keeps_delay 80)) (HearSpec.seq
          (HearSpec.of_keeps (hr.keeps_beep 80)) (HearSpec.seq (HearSpec.tell fun s => ?_) ?_)))
      · exact ⟨.announced s.round.imageCount, rfl, rfl, rfl⟩
      · exact HearSpec.of_keeps (keeps_write fun _ => rfl)
    have hnone : Event.heard? (.command ch) = none := by simp [Event.heard?, isBracket, ho, hc]
    rw [hnone]
    exact HearSpec.of_keeps (sameHearing_frame.keeps_uartCtrlSwitch ho hc)

def hearingContract (w : World) : Contract (inspector w) where
  rely
    | .ctrl => Rely.ofView Board.hearing
    | .recv => .any
  guar
    | .ctrl => fun _ t => t.hearing.2 <+: t.hearing.1
    | .recv => RecvOnly
  fault _ _ _ := True
  idle
    | .ctrl => fun s => Owes [] s.hearing
    | .recv => fun _ => True
  entry
    | .ctrl, x, s, hs => uartCtrlThread_hears x s hs
    | .recv, (), s, _ => Program.wp_of_keeps (fun _ _ h _ => h) (fun _ _ _ h => ⟨h, trivial⟩)
        (RecvOnly.keeps_uartRecvThread w) trivial
  others := by
    rintro (_ | _) (_ | _) s t hij h
    · exact (hij rfl).elim
    · trivial
    · exact h.hearing
    · exact (hij rfl).elim
  interrupts := by
    rintro (_ | _) e s t h
    · exact hearing_interrupt h
    · trivial

section
variable {w : World} {pin : Pin → Bool} {found : MotorId → Bool} {c : Config w}

theorem hearingContract_holds : (hearingContract w).Holds (start w pin found) := by
  refine (hearingContract w).holds_boot ?_
  rintro (_ | _) t h
  · have hv : t.hearing = (Board.initial pin found).hearing := h
    have hidle : Owes [] t.hearing := by
      rw [hv]
      rfl
    exact hidle
  · trivial

theorem told_heard (h : Platform.Reach (start w pin found) c) :
    told c.state.log <+: heard c.state.log := by
  refine (hearingContract w).invariant (J := fun s => s.hearing.2 <+: s.hearing.1)
    hearingContract_holds List.prefix_rfl ?_ ?_ h
  · rintro (_ | _) s t hs hg
    · exact hg
    · have ht : t.hearing = s.hearing := RecvOnly.hearing hg
      rwa [ht]
  · intro e s t hs he
    have ht : t.hearing = s.hearing := hearing_interrupt he
    rwa [ht]

end

-- After it has logged its command a pass of the control thread is given nothing more.
abbrev SameHeard (s t : Board) : Prop := heard t.log = heard s.log

theorem sameHeard_frame : Frame SameHeard :=
  ⟨fun _ _ _ => rfl, fun _ _ _ _ => heard_quiet rfl⟩

theorem keeps_heard (ch : Char) :
    Keeps SameHeard (uartCtrlSwitch ch >>= fun _ => emit (.handled ch)) := by
  have hr := sameHeard_frame
  refine keeps_seq ?_ (keeps_write fun _ => heard_quiet rfl)
  by_cases ho : ch = '('
  · subst ho
    exact keeps_write fun _ => heard_quiet rfl
  by_cases hc : ch = ')'
  · subst hc
    refine keeps_seq (hr.keeps_beep 80) (keeps_seq (hr.keeps_delay 80) (keeps_seq (hr.keeps_beep 80)
      (keeps_seq (keeps_write fun _ => heard_quiet rfl) (keeps_write fun _ => rfl))))
  exact hr.keeps_uartCtrlSwitch ho hc

end FabricInspection
