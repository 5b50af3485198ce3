import FabricInspection.Inspection.Handover

namespace FabricInspection

open Concurrency (Machine Platform)
open Concurrency.Trace (Every every_nil every_snoc)

-- Every ')' follows at most ten '(' since the one before, as the 8-bit image_count counts them.
def TotalsFit : List Event → Prop :=
  Every fun pre e => ∀ n, e = .announced n → (tally pre).toNat ≤ defaultDetectionRoundCnt

def Phase.total? : Phase → Option UInt8
  | .parsing t | .compared t | .saving t | .saved t => some t
  | _ => none

-- Neither the announced total nor a copy of it that the thread has read is above ten.
structure InBounds (p : Phase) (x : Desk) : Prop where
  alive : p.alive = true
  total : x.total.toNat ≤ defaultDetectionRoundCnt
  read : ∀ t, p.total? = some t → t.toNat ≤ defaultDetectionRoundCnt

namespace InBounds
variable {w : World} {p q : Phase} {x y : Desk}

theorem recvStep (h : InBounds p x) (hs : RecvStep w p x q y) : InBounds q y := by
  cases hs with
  | readTotal | readAgain | readLast =>
    refine ⟨rfl, h.total, fun t ht => ?_⟩
    cases ht
    exact h.total
  | save ok => exact ⟨rfl, h.total, h.read⟩
  | overrun below beyond =>
    have hten := h.read _ rfl
    exact (beyond ((UInt8.lt_iff_toNat_lt.mp below).trans_le hten)).elim
  | saveFault err =>
    obtain ⟨file, hfile⟩ := csvFile_ok (h.read _ rfl) x.insp.lastDetect
    rw [hfile] at err
    cases err
  | reportFault err =>
    rw [defectReport_eq (h.read _ rfl) x.insp.lastDetect] at err
    cases err
  | poll | skip | take | copy | modelRun | store | pass | classify | advance | wait | openFails
  | opens | report | upload | clearCounter | clearLast | clearRound | rest =>
    exact ⟨rfl, h.total, nofun⟩

theorem envStep (h : InBounds p x) (hs : EnvStep x y) (hy : TotalsFit y.log) : InBounds p y := by
  cases hs with
  | counted => exact ⟨h.alive, h.total, h.read⟩
  | announced => exact ⟨h.alive, (every_snoc.mp hy).2 _ rfl, h.read⟩
  | committed => exact ⟨h.alive, h.total, h.read⟩

end InBounds

theorem inBounds {w : World} {p : Phase} {x : Desk} (h : (desk w).Reach p x)
    (hx : TotalsFit x.log) : InBounds p x := by
  refine Machine.Reach.every (fun _ _ _ _ => RecvStep.log_prefix) (fun _ _ => EnvStep.log_prefix)
    ⟨rfl, (by decide : (UInt8.ofNat 10).toNat ≤ 10), nofun⟩ ?_ ?_ h hx
  · rintro p x q y - ih hs -
    exact ih.recvStep hs
  · rintro p x y - ih hs hy
    exact ih.envStep hs hy

theorem bookkeeping_in_bounds (w : World) (pin : Pin → Bool) (found : MotorId → Bool)
    (c : Config w) (h : Platform.Reach (start w pin found) c) (hx : TotalsFit c.state.history)
    (f : Fault) : c.thread Task.recv ≠ .fail f := by
  intro hf
  have hcrash := inBounds (reach_desk_fault h hf) hx
  exact Bool.false_ne_true hcrash.alive

theorem tally_counted (log : List Event) (n : Nat) :
    tally (log ++ List.replicate n .counted) = tally log + UInt8.ofNat n := by
  induction n with
  | zero => simp
  | succ n ih =>
    rw [List.replicate_succ', ← List.append_assoc, tally_snoc, tallyStep, ih, UInt8.ofNat_add,
      UInt8.add_assoc]
    rfl

section
variable {x y : Desk}

theorem totalsFit_announce (h : TotalsFit x.log) (ht : tally x.log = 0) {n : Nat} (hn : n ≤ 10) :
    TotalsFit (x.announce n).log := by
  refine every_snoc.mpr ⟨Every.append h fun e he pre m heq => ?_, fun _ _ => ?_⟩
  · cases (List.eq_of_mem_replicate he).symm.trans heq
  · rw [tally_counted, ht, UInt8.zero_add, UInt8.toNat_ofNat']
    exact (Nat.mod_le _ _).trans hn

theorem totalsFit_receive (h : TotalsFit x.log) (image : Image) : TotalsFit (x.receive image).log :=
  every_snoc.mpr ⟨h, nofun⟩

theorem totalsFit_follows (h : x.Follows y) (hx : TotalsFit x.log) : TotalsFit y.log :=
  h.every (fun _ e he n heq => by
    rw [heq] at he
    cases he) hx

theorem totalsFit_frames {w : World} (h : TotalsFit x.log) (vs : List UInt8) :
    TotalsFit (x.frames w vs).log := by
  induction vs generalizing x with
  | nil => exact h
  | cons v vs ih => exact ih (totalsFit_follows (Desk.handle_follows w _) (totalsFit_receive h _))

end

-- The largest round, before the thread looks at its last image: that one goes to last_detect[9],
-- and the file gets ten columns.
def tenthArrived : Desk :=
  ((Desk.init.announce 10).frames shadeWorld [0, 1, 2, 3, 4, 5, 6, 7, 8]).receive (plain 9)

theorem totalsFit_tenthArrived : TotalsFit tenthArrived.log :=
  totalsFit_receive
    (totalsFit_frames (totalsFit_announce (x := Desk.init) every_nil rfl le_rfl) _) _

theorem bookkeeping_in_bounds_ten_images :
    ∃ c : Config shadeWorld, Platform.Reach (start shadeWorld (fun _ => true) fun _ => true) c ∧
      inputs c.state.history = [plain 0, plain 1, plain 2, plain 3, plain 4, plain 5, plain 6,
        plain 7, plain 8, plain 9] ∧
      .report 10 (tenthArrived.results shadeWorld) ∈ c.state.history ∧
      ∀ f, c.thread Task.recv ≠ .fail f := by
  obtain ⟨file, c, h, hrest⟩ := (resting_start shadeWorld (fun _ => true) fun _ => true).round rfl
    [0, 1, 2, 3, 4, 5, 6, 7, 8] 9 (by decide) rfl
  have hlog : c.state.history = (tenthArrived.report shadeWorld file).rest.log :=
    congrArg Desk.log hrest.desk
  have hfits : TotalsFit (tenthArrived.report shadeWorld file).rest.log :=
    totalsFit_follows (Desk.report_follows shadeWorld _ file) totalsFit_tenthArrived
  refine ⟨c, h, ?_, ?_, bookkeeping_in_bounds _ _ _ c h (hlog ▸ hfits)⟩
  · rw [hlog]
    rfl
  · rw [hlog, Desk.report_split]
    exact List.mem_append_right _ (.head _)

theorem eleven_images_overrun :
    ∃ c : Config blindWorld, Platform.Reach (start blindWorld (fun _ => true) fun _ => true) c ∧
      c.thread Task.recv = .fail (.lastDetect 10) := by
  obtain ⟨c, hc, hannounced⟩ :=
    (resting_start blindWorld (fun _ => true) fun _ => true).announce 11
  obtain ⟨d, hd, hframes⟩ := hannounced.frames (List.replicate 10 0) (by decide) (by decide)
  obtain ⟨e, he, hlast⟩ := hframes.commit 0
  obtain ⟨f, hf, hfault⟩ := hlast.overruns rfl (by decide) (by decide)
  exact ⟨f, hc.trans (hd.trans (he.trans hf)), hfault⟩

end FabricInspection
