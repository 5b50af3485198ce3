import FabricInspection.Inspection.Reporting

namespace FabricInspection

open Concurrency (Machine Platform)
open Concurrency.Trace (Every every_nil every_snoc snoc_split)

-- detect_round between two passes of the thread; a failed open does not reset it.
def Ledger.round (l : Ledger) : UInt8 := UInt8.ofNat l.batch.length

-- An announcement of one to ten images, between two rounds.
def BetweenRounds (pre : List Event) : Event → Prop
  | .announced n => 1 ≤ n.toNat ∧ n.toNat ≤ defaultDetectionRoundCnt ∧
      (ledger pre).handling = false ∧ (ledger pre).round = 0
  | _ => True

-- A frame of a round that is not complete is picked up.
structure PickedUp (pre : List Event) : Prop where
  earlier : Every BetweenRounds pre
  due : (ledger pre).round < (ledger pre).total

-- One announcement at most while this frame is being processed.
structure OneUpdate (mid : List Event) : Prop where
  same : .taken ∉ mid
  once : announcements mid ≤ 1
  sizes : ∀ n, .announced n ∈ mid → 1 ≤ n.toNat ∧ n.toNat ≤ defaultDetectionRoundCnt

structure Midframe (pre mid log : List Event) : Prop where
  log : log = pre ++ .taken :: mid
  picked : PickedUp pre
  update : OneUpdate mid

-- The total as it is at a point of the frame after the file was opened.
structure TotalRead (pre upto : List Event) (t : UInt8) : Prop where
  opened : .opened true ∈ upto
  value : t = (ledger (pre ++ .taken :: upto)).total

section
variable {pre mid log : List Event} {e : Event}

theorem OneUpdate.of_snoc (h : OneUpdate (mid ++ [e])) : OneUpdate mid := by
  have hcount : announcements mid ≤ announcements (mid ++ [e]) := by
    simp [announcements, List.countP_append]
  exact ⟨fun hm => h.same (List.mem_append_left _ hm), hcount.trans h.once,
    fun n hn => h.sizes n (List.mem_append_left _ hn)⟩

theorem Midframe.snoc (h : Midframe pre mid (log ++ [e])) (he : e ≠ .taken) :
    ∃ before, mid = before ++ [e] ∧ Midframe pre before log := by
  rcases snoc_split h.log with ⟨-, -, heq⟩ | ⟨before, rfl, hlog⟩
  · exact absurd heq he
  · exact ⟨before, rfl, hlog, h.picked, h.update.of_snoc⟩

theorem Midframe.taken (h : Midframe pre mid (log ++ [.taken])) : mid = [] ∧ pre = log := by
  rcases snoc_split h.log with ⟨hmid, hlog, -⟩ | ⟨before, rfl, -⟩
  · exact ⟨hmid, hlog.symm⟩
  · exact absurd (List.mem_append_right before (List.mem_singleton_self _)) h.update.same

theorem ledger_total_append (log : List Event) {es : List Event} (h : ∀ n, .announced n ∉ es) :
    (ledger (log ++ es)).total = (ledger log).total := by
  induction es using List.reverseRecOn with
  | nil => rw [List.append_nil]
  | append_singleton es e ih =>
    rw [← List.append_assoc, ledger_snoc, ← ih fun n hn => h n (List.mem_append_left _ hn)]
    cases e with
    | announced n => exact absurd (List.mem_append_right es (List.mem_singleton_self _)) (h n)
    | opened ok => cases ok <;> rfl
    | call who c =>
      rcases eq_or_ne (Event.call who c) (.call .recv (.sleep 10)) with heq | hne
      · rw [heq]
        rfl
      · rw [ledger_call hne]
    | _ => rfl

theorem Midframe.total (h : Midframe pre mid log) (hno : ∀ n, .announced n ∉ mid) :
    (ledger log).total = (ledger pre).total := by
  rw [h.log]
  refine ledger_total_append pre fun n hn => ?_
  rcases List.mem_cons.mp hn with heq | hn
  · cases heq
  · exact hno n hn

-- Until the update the total is the one at the pick-up.
theorem Midframe.announced {n : UInt8} (h : Midframe pre mid (log ++ [.announced n])) :
    (ledger log).total = (ledger pre).total := by
  obtain ⟨before, rfl, hf⟩ := h.snoc nofun
  refine hf.total fun m hm => ?_
  have honce := h.update.once
  rw [announcements_announced] at honce
  have hpos : 0 < announcements before := List.countP_pos_iff.mpr ⟨_, hm, rfl⟩
  omega

end

-- What a phase says of detect_round and of the output of the model, on every run.
def Form (w : World) (i : Inspection) (l : Ledger) : Phase → Prop
  | .ran | .parsing _ | .stored =>
    i.detectRound = l.round ∧ i.nnomOutputData = w.modelRun i.nnomInputData
  | .classified => i.detectRound + 1 = l.round
  | .reported | .uploaded | .clearedCounter | .clearedLast => l.batch = []
  | .crashed _ => True
  | _ => i.detectRound = l.round

structure Tracked (w : World) (p : Phase) (x : Desk) : Prop where
  total : x.total = (ledger x.log).total
  owed : (∀ f, p ≠ .crashed f) → (ledger x.log).owed = p.owes
  form : Form w x.insp (ledger x.log) p
  tallied : Every (fun pre e => ∀ n, e = .announced n → n = tally pre) x.log

namespace Tracked
variable {w : World} {p q : Phase} {x y : Desk}

theorem quiet (h : Tracked w p x) (ht : y.total = x.total) (hl : y.log = x.log)
    (ho : q.owes = p.owes) (hp : ∀ f, p ≠ .crashed f) (hf : Form w y.insp (ledger x.log) q) :
    Tracked w q y := by
  refine ⟨?_, fun _ => ?_, ?_, ?_⟩
  · rw [ht, hl, h.total]
  · rw [hl, h.owed hp, ho]
  · rw [hl]
    exact hf
  · rw [hl]
    exact h.tallied

theorem event (h : Tracked w p x) {e : Event} (hl : y.log = x.log ++ [e])
    (ht : y.total = ((ledger x.log).step e).total)
    (ho : (∀ f, q ≠ .crashed f) → ((ledger x.log).step e).owed = q.owes)
    (he : ∀ n, e = .announced n → n = tally x.log)
    (hf : Form w y.insp ((ledger x.log).step e) q) : Tracked w q y := by
  refine ⟨?_, ?_, ?_, ?_⟩
  · rw [hl, ledger_snoc, ht]
  · rw [hl, ledger_snoc]
    exact ho
  · rw [hl, ledger_snoc]
    exact hf
  · rw [hl]
    exact every_snoc.mpr ⟨h.tallied, he⟩

theorem round_snoc (l : Ledger) (image : Image) (c : DefectClass) :
    (l.step (.classified image c)).round = l.round + 1 := by
  simp [Ledger.round, Ledger.step, UInt8.ofNat_add]

theorem recvStep (h : Tracked w p x) (hs : RecvStep w p x q y) : Tracked w q y := by
  have hform := h.form
  have howed := h.owed
  cases hs with
  | poll | skip | readAgain | wait | readLast =>
    exact h.quiet rfl rfl rfl nofun hform
  | modelRun => exact h.quiet rfl rfl rfl nofun ⟨hform, rfl⟩
  | readTotal => exact h.quiet rfl rfl rfl nofun hform
  | store | pass => exact h.quiet rfl rfl rfl nofun hform
  | overrun | saveFault | reportFault =>
    exact ⟨h.total, fun hno => absurd rfl (hno _), trivial, h.tallied⟩
  | advance => exact h.quiet rfl rfl rfl nofun hform
  | clearCounter | clearLast => exact h.quiet rfl rfl rfl nofun hform
  | clearRound =>
    refine h.quiet rfl rfl rfl nofun ?_
    have hnil : (ledger x.log).batch = [] := hform
    have hzero : (0 : UInt8) = (ledger x.log).round := by
      rw [Ledger.round, hnil]
      rfl
    exact hzero
  | take | copy | openFails | opens | save =>
    exact h.event rfl h.total (fun _ => howed nofun) nofun hform
  | rest => exact h.event rfl h.total (fun _ => howed nofun) nofun hform
  | classify =>
    refine h.event rfl h.total (fun _ => howed nofun) nofun ?_
    have hnext : x.insp.detectRound + 1 = (ledger x.log).round + 1 := by rw [hform.1]
    exact hnext.trans (round_snoc _ _ _).symm
  | report => exact h.event rfl h.total (fun _ => rfl) nofun rfl
  | upload => exact h.event rfl h.total (fun _ => rfl) nofun hform

theorem envStep (h : Tracked w p x) (hs : EnvStep x y) : Tracked w p y := by
  cases hs with
  | counted => exact h.event rfl h.total h.owed nofun h.form
  | committed => exact h.event rfl h.total h.owed nofun h.form
  | announced =>
    refine h.event rfl rfl h.owed (fun n hn => (Event.announced.inj hn).symm) ?_
    have hform := h.form
    cases p <;> exact hform

end Tracked

theorem tracked {w : World} {p : Phase} {x : Desk} (h : (desk w).Reach p x) : Tracked w p x := by
  induction h with
  | init => exact ⟨rfl, fun _ => rfl, rfl, every_nil⟩
  | own _ hs ih => exact ih.recvStep hs
  | env _ hs ih => exact ih.envStep hs

-- Between two passes the history tells detect_round and detection_round_cnt.
theorem history_round {w : World} {pin : Pin → Bool} {found : MotorId → Bool} {c : Config w}
    (h : Platform.Reach (start w pin found) c) (hb : c.blocked Task.recv) :
    c.state.insp.detectRound = (ledger c.state.history).round ∧
      c.state.round.detectionRoundCnt = (ledger c.state.history).total := by
  have ht := tracked (reach_desk_idle h hb)
  exact ⟨ht.form, ht.total⟩

section
variable {w : World} {p q : Phase} {x y : Desk} {pre mid : List Event}

theorem Tracked.regular (h : Tracked w p x) (hx : Every BetweenRounds x.log) :
    Every Regular x.log := by
  refine (hx.and h.tallied).mono ?_
  rintro pre e ⟨he, htally⟩
  cases e with
  | announced n =>
    obtain rfl := htally n rfl
    exact ⟨he.2.1, he.2.2.1⟩
  | _ => trivial

theorem Midframe.totalsFit (h : Midframe pre mid x.log) (ht : Tracked w p x) :
    TotalsFit x.log := by
  have hsmall (n : UInt8) (hn : .announced n ∈ x.log) : n.toNat ≤ defaultDetectionRoundCnt := by
    rw [h.log] at hn
    rcases List.mem_append.mp hn with hn | hn
    · obtain ⟨before, after, hpre⟩ := List.append_of_mem hn
      exact (h.picked.earlier before _ after hpre).2.1
    · rcases List.mem_cons.mp hn with heq | hn
      · cases heq
      · exact (h.update.sizes n hn).2
  intro before e after hlog n he
  rw [← ht.tallied before e after hlog n he]
  refine hsmall n ?_
  rw [hlog, he]
  exact List.mem_append_right before (List.mem_cons_self ..)

-- After a failed open no frame is picked up for this round, until detect_round wraps around.
def Lapse (l : Ledger) : Prop :=
  l.clean = false → l.batch ≠ [] ∧ (l.total.toNat ≤ l.batch.length ∨ 256 ≤ l.batch.length)

theorem Lapse.step {l : Ledger} (h : Lapse l) {e : Event} (ho : e ≠ .opened false)
    (ha : ∀ n, e ≠ .announced n) : Lapse (l.step e) := by
  cases e with
  | announced n => exact absurd rfl (ha n)
  | opened ok =>
    cases ok with
    | true => exact h
    | false => exact absurd rfl ho
  | classified image c =>
    intro hc
    obtain ⟨-, hlong⟩ := h hc
    refine ⟨by simp [Ledger.step], ?_⟩
    have hgrows : l.batch.length ≤ (l.step (.classified image c)).batch.length := by
      simp [Ledger.step]
    exact hlong.imp (fun hle => hle.trans hgrows) fun hle => hle.trans hgrows
  | report =>
    intro hc
    cases hc
  | call who c =>
    rcases eq_or_ne (Event.call who c) (.call .recv (.sleep 10)) with heq | hne
    · rw [heq]
      exact h
    · rw [ledger_call hne]
      exact h
  | _ => exact h

theorem round_toNat (l : Ledger) : l.round.toNat = l.batch.length % 256 := UInt8.toNat_ofNat'

theorem round_short {l : Ledger} (h : l.batch.length < 256) :
    l.round.toNat = l.batch.length := by
  rw [round_toNat]
  exact Nat.mod_eq_of_lt h

theorem lapse_own (h : (desk w).Reach p x) (hl : Lapse (ledger x.log)) (hs : RecvStep w p x q y)
    (hx : Every BetweenRounds x.log) : Lapse (ledger y.log) := by
  cases hs with
  | take | copy | classify | opens | save | report | upload | rest =>
    rw [Desk.note_log, ledger_snoc]
    exact hl.step nofun nofun
  | @openFails x t due fails =>
    have ht := tracked h
    obtain ⟨-, hsome, htotal⟩ := (balanced h (ht.regular hx)).shape
    have hle : t.toNat ≤ x.insp.detectRound.toNat := UInt8.le_iff_toNat_le.mp due
    have hround : x.insp.detectRound = (ledger x.log).round := ht.form
    rw [hround, round_toNat, htotal, ht.total] at hle
    rw [Desk.note_log, ledger_snoc]
    exact fun _ => ⟨hsome, .inl (hle.trans (Nat.mod_le _ _))⟩
  | _ => exact hl

theorem lapse_env (hl : Lapse (ledger x.log)) (hs : EnvStep x y)
    (hy : Every BetweenRounds y.log) : Lapse (ledger y.log) := by
  cases hs with
  | counted | committed =>
    rw [Desk.note_log, ledger_snoc]
    exact hl.step nofun nofun
  | announced =>
    obtain ⟨-, -, -, hzero⟩ := (every_snoc.mp hy).2
    rw [Desk.note_log, ledger_snoc]
    intro hc
    obtain ⟨hsome, -⟩ := hl hc
    have hwraps : (ledger x.log).batch.length % 256 = 0 := by
      rw [← round_toNat, hzero]
      rfl
    refine ⟨hsome, .inr ?_⟩
    exact Nat.le_of_dvd (List.length_pos_iff.mpr hsome) (Nat.dvd_of_mod_eq_zero hwraps)

theorem lapse (h : (desk w).Reach p x) (hx : Every BetweenRounds x.log) :
    Lapse (ledger x.log) := by
  have hinit : Lapse (ledger Desk.init.log) := nofun
  refine Machine.Reach.every (I := fun _ x => Lapse (ledger x.log))
    (fun _ _ _ _ => RecvStep.log_prefix) (fun _ _ => EnvStep.log_prefix) hinit ?_ ?_ h hx
  · intro p x q y hr ih hs hy
    exact lapse_own hr ih hs (hy.of_prefix (RecvStep.log_prefix hs))
  · rintro p x y - ih hs hy
    exact lapse_env ih hs hy

end

end FabricInspection
