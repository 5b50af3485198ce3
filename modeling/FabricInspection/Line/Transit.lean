import FabricInspection.Concurrency.Effects
import FabricInspection.Inspection.Reporting
import FabricInspection.Line.System

namespace FabricInspection

open Concurrency (Platform Program)
open Concurrency.Platform (Keeping)
open Concurrency.Program (Keeps)
open Receiver (reference resume)

-- What the steps of each thread leave alone on the way from the wires to the log.
def OffWire : Task → Board → Board → Prop
  | .ctrl => fun s t => CtrlOnly s t ∧ SameDecoder s t
  | .recv => fun s t => RecvOnly s t ∧ SameDecoder s t

theorem offWire_entry {w : World} (i : Task) (x : (inspector w).Input i) :
    Keeps (OffWire i) ((inspector w).entry i x) := by
  cases i with
  | ctrl => exact (CtrlOnly.keeps_uartCtrlThread x).and (SameDecoder.keeps_uartCtrlThread x)
  | recv => exact (RecvOnly.keeps_uartRecvThread w).and (SameDecoder.keeps_uartRecvThread w)

theorem commits_history (s : Board) : commits s.history = commits s.log := by
  rw [commits, commits, Board.history, List.filterMap_filter]
  refine List.filterMap_congr fun e _ => ?_
  cases e with
  | call => exact ite_self _
  | _ => rfl

theorem commits_appends {own : Event → Bool} {s t : Board} (h : Appends own s t)
    (hown : ∀ e, own e = true → e.commit? = none) : commits t.log = commits s.log := by
  obtain ⟨es, hl, hes⟩ := h
  have hnil : commits es = [] := List.filterMap_eq_nil_iff.mpr fun e he => hown e (hes e he)
  have happ : commits t.log = commits s.log ++ commits es := hl ▸ List.filterMap_append
  rw [happ, hnil, List.append_nil]

theorem OffWire.commits {i : Task} {s t : Board} (h : OffWire i s t) :
    commits t.log = commits s.log := by
  cases i with
  | ctrl =>
    rcases h.1.log with hl | ⟨e, hl, he⟩
    · rw [hl]
    · rw [hl, commits_quiet]
      cases e with
      | committed => cases he
      | _ => rfl
  | recv =>
    refine commits_appends h.1.log fun e he => ?_
    cases e with
    | committed => cases he
    | _ => rfl

theorem OffWire.decoder {i : Task} {s t : Board} (h : OffWire i s t) : SameDecoder s t := by
  cases i with
  | ctrl | recv => exact h.2

section
variable {w : World} {c d : Config w} {given : List Char} {read : List UInt8}

-- The control thread was given these brackets, the last of them perhaps not logged yet.
def Given (c : Config w) (given : List Char) : Prop :=
  (∃ ch q, c.thread Task.ctrl = (emit (.command ch) >>= fun _ => q) ∧ Keeps SameHeard q ∧
    heard c.state.log ++ [ch].filter isBracket = given) ∨
  Keeps SameHeard (c.thread Task.ctrl) ∧ heard c.state.log = given

-- The decoder has read these bytes.
def Decoded (c : Config w) (read : List UInt8) : Prop :=
  ∃ b, resume none read = (commits c.state.history, b) ∧ c.state.rx.Tracks b

theorem enter_ctrl (c : Config w) (p : Program Board Fault Unit) :
    (c.enter Task.ctrl p).thread Task.ctrl = p := Platform.enter_self ..

theorem enter_recv (c : Config w) (p : Program Board Fault Unit) :
    (c.enter Task.recv p).thread Task.ctrl = c.thread Task.ctrl :=
  Platform.enter_other c (P := inspector w) (i := Task.recv) (j := Task.ctrl) nofun p

theorem Given.of_blocked (h : Given c given) (hb : c.blocked Task.ctrl) :
    heard c.state.log = given := by
  rcases h with ⟨ch, q, ht, -⟩ | ⟨-, h⟩
  · cases hb.symm.trans ht
  · exact h

theorem Given.dispatch {ch : Char} (h : Given c given)
    (hs : Platform.step c (.start Task.ctrl (some ch)) = some d) :
    Given d (given ++ [ch].filter isBracket) := by
  obtain ⟨i, x, ha, hb, rfl⟩ | ⟨i, f, k, ha, -⟩ | ⟨e, s, ha, -⟩ := Platform.step_cases hs
  · cases ha
    rw [← h.of_blocked hb]
    exact .inl ⟨ch, _, enter_ctrl c _, keeps_heard ch, rfl⟩
  · cases ha
  · cases ha

theorem Given.state {s : Board} (h : Given c given) (hs : heard s.log = heard c.state.log) :
    Given { c with state := s } given := by
  rcases h with ⟨ch, q, ht, hq, hh⟩ | ⟨ht, hh⟩
  · exact .inl ⟨ch, q, ht, hq, by rw [← hh, ← hs]⟩
  · exact .inr ⟨ht, hs.trans hh⟩

theorem Given.enter (h : Given c given) (p : Program Board Fault Unit) :
    Given (c.enter Task.recv p) given := by
  have ht := enter_recv c p
  rcases h with ⟨ch, q, hq, h⟩ | ⟨hk, h⟩
  · exact .inl ⟨ch, q, ht.trans hq, h⟩
  · exact .inr ⟨ht ▸ hk, h⟩

theorem Given.run (h : Given c given) {f : Board → Board} {k : Board → Program Board Fault Unit}
    (hi : c.thread Task.ctrl = .act f k) :
    Given { c.enter Task.ctrl (k c.state) with state := f c.state } given := by
  rcases h with ⟨ch, q, ht, hq, rfl⟩ | ⟨ht, rfl⟩
  · cases hi.symm.trans ht
    refine .inr ⟨?_, ?_⟩
    · exact (enter_ctrl c q).symm ▸ hq
    · rw [Board.emit_log, heard_snoc]
      congr 1
      cases hb : isBracket ch <;> simp [Event.heard?, hb]
  · rw [hi] at ht
    obtain ⟨hf, hk⟩ := ht c.state
    exact .inr ⟨(enter_ctrl c _).symm ▸ hk, hf⟩

theorem Given.step {a : (inspector w).Action} (h : Given c given) (hq : Keeping OffWire c)
    (hs : Platform.step c a = some d) (ha : ∀ ch, a ≠ .start Task.ctrl (some ch)) :
    Given d given := by
  obtain ⟨i, x, rfl, hb, rfl⟩ | ⟨i, f, k, -, hi, rfl⟩ | ⟨e, s, -, he, rfl⟩ := Platform.step_cases hs
  · cases i with
    | recv => exact h.enter _
    | ctrl => cases x with
      | some ch => exact absurd rfl (ha ch)
      | none => exact .inr ⟨(enter_ctrl c _).symm ▸ trivial, h.of_blocked hb⟩
  · cases i with
    | ctrl => exact h.run hi
    | recv =>
      have hrecv := RecvOnly.hearing (hq.run hi).1
      exact (h.enter _).state (congrArg Prod.fst hrecv)
  · exact h.state (congrArg Prod.fst (hearing_interrupt he))

theorem Decoded.commits (h : Decoded c read) : commits c.state.history = (reference read).1 := by
  obtain ⟨b, hb, -⟩ := h
  exact (congrArg Prod.fst hb).symm

theorem Decoded.state {s : Board} (h : Decoded c read)
    (hc : FabricInspection.commits s.log = FabricInspection.commits c.state.log)
    (hd : SameDecoder c.state s) : Decoded { c with state := s } read := by
  obtain ⟨b, hb, ht⟩ := h
  refine ⟨b, ?_, Receiver.tracks_decoder hd ht⟩
  rw [hb, commits_history, commits_history, hc]

theorem Decoded.receive {x : UInt8} (h : Decoded c read)
    (hs : Platform.step c (.interrupt (Irq.uart3 x)) = some d) : Decoded d (read ++ [x]) := by
  obtain ⟨i, y, ha, -⟩ | ⟨i, f, k, ha, -⟩ | ⟨e, s, ha, he, rfl⟩ := Platform.step_cases hs
  · cases ha
  · cases ha
  · cases ha
    obtain ⟨b, hb, ht⟩ := h
    have hsnoc := Receiver.resume_snoc (h := none) trivial read x
    rw [hb] at hsnoc
    obtain ⟨r, hr, htracks, -⟩ := Receiver.uartRxByte_step ht x
    have hstate : s = c.state.received r (Receiver.historyStep b x).2 := by
      have hok : (Except.ok (c.state.received r (Receiver.historyStep b x).2) : Except Fault Board) =
          .ok s := by
        rw [← he]
        simp [inspector, Board.interrupt, hr, Except.map]
      exact (Except.ok.inj hok).symm
    have hcommits : FabricInspection.commits s.log =
        FabricInspection.commits c.state.log ++ (Receiver.historyStep b x).2.toList := by
      rw [hstate]
      cases (Receiver.historyStep b x).2 with
      | none => exact (List.append_nil _).symm
      | some image => exact commits_snoc c.state.log _
    have hrx : s.rx = r := by
      rw [hstate]
      cases (Receiver.historyStep b x).2 <;> rfl
    refine ⟨(Receiver.historyStep b x).1, ?_, hrx ▸ htracks⟩
    rw [hsnoc, commits_history, commits_history, hcommits]

theorem Decoded.step {a : (inspector w).Action} (h : Decoded c read) (hq : Keeping OffWire c)
    (hs : Platform.step c a = some d) (ha : ∀ x, a ≠ .interrupt (Irq.uart3 x)) :
    Decoded d read := by
  obtain ⟨i, x, -, -, rfl⟩ | ⟨i, f, k, -, hi, rfl⟩ | ⟨e, s, rfl, he, rfl⟩ := Platform.step_cases hs
  · exact h
  · have hoff := hq.run hi
    exact Decoded.state (c := c.enter i (k c.state)) h hoff.commits hoff.decoder
  · cases e with
    | uart3 x => exact absurd rfl (ha x)
    | pid cnt now =>
      have hok : Except.ok (c.state.speedPidIteration cnt now) = Except.ok s := he
      have hm := MotorOnly.speedPidIteration c.state cnt now
      rw [Except.ok.inj hok] at hm
      refine h.state (commits_appends hm.log fun e he => ?_) (congrArg Receiver.decoder hm.rx)
      cases e with
      | committed => cases he
      | _ => rfl

end
end FabricInspection
