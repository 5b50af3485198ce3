import FabricInspection.Inspection.Reporting

namespace FabricInspection

open Concurrency (Machine Platform)
open Concurrency.Trace (Every every_nil every_snoc)

def Event.isReport : Event → Bool
  | .report _ _ => true
  | _ => false

def Event.isCount : Event → Bool
  | .count _ => true
  | _ => false

def reports (log : List Event) : List Event := log.filter Event.isReport

def counts (log : List Event) : List Event := log.filter Event.isCount

theorem filter_verdicts {f : Event → Bool} (hf : ∀ e, f e = true → e.verdict = true)
    (log : List Event) : (verdicts log).filter f = log.filter f := by
  rw [verdicts, List.filter_filter]
  refine List.filter_congr fun e _ => ?_
  cases he : f e with
  | true => rw [hf e he, Bool.and_true]
  | false => exact Bool.false_and _

theorem filter_transcript {w : World} {f : Event → Bool} {g : List Image → Event}
    (hf : ∀ image c, f (.classified image c) = false)
    (hg : ∀ images, [reportOf w images, countOf w images].filter f = [g images])
    (rounds : List (List Image)) : (transcript w rounds).filter f = rounds.map g := by
  induction rounds with
  | nil => rfl
  | cons images rounds ih =>
    have hverdicts : (verdictsOf w images).filter f = [] := by
      simp [verdictsOf, hf]
    have hround : (roundOf w images).filter f = [g images] := by
      rw [roundOf, List.filter_append, hverdicts, hg, List.nil_append]
    rw [transcript, List.flatMap_cons, List.filter_append, hround, List.map_cons, ← ih]
    rfl

section
variable {w : World} {rounds : List (List Image)} {p : Phase} {x : Desk} {i : Inspection}
  {images : List Image} {total : UInt8}

theorem Weighed.not_cleared (h : Weighed w i images total) :
    i.detectRound ≠ 0 ∧ i.defectCounter ≠ Vector.replicate defectClassCnt 0 := by
  obtain ⟨image, hmem⟩ := List.exists_mem_of_ne_nil images h.some
  refine ⟨fun hz => ?_, fun hz => ?_⟩
  · have hround := h.round
    rw [hz] at hround
    exact h.some (List.length_eq_zero_iff.mp hround.symm)
  · have hcount := h.counter (classOf w image)
    simp only [hz, Fin.getElem_fin, Vector.getElem_replicate] at hcount
    have hpos : 0 < (classes w images).count (classOf w image) :=
      List.count_pos_iff.mpr (List.mem_map_of_mem hmem)
    exact hpos.ne hcount

-- Right after the first failed open the round is still there.
theorem failed_open (hsizes : RoundSizes rounds) (h : (desk w).Reach p x)
    (hs : Every (Scheduled rounds) x.log) (hp : NoOverwrite x.log) {pre : List Event}
    (hl : x.log = pre ++ [.opened false]) (hpre : .opened false ∉ pre) :
    p = .done ∧ x.insp.detectRound ≠ 0 ∧
      x.insp.defectCounter ≠ Vector.replicate defectClassCnt 0 := by
  induction h with
  | init => simp [desk, Desk.init] at hl
  | @own p q x y hx hstep ih =>
    have hstep' : RecvStep w p x q y := hstep
    cases hstep' with
    | openFails due fails =>
      obtain ⟨hlog, -⟩ := List.append_inj' hl rfl
      have hpast : Every (Orderly rounds) x.log :=
        orderly (every_snoc.mp hs).1 (every_snoc.mp hp).1 (hlog ▸ hpre)
      have hb := balanced hx (running hsizes hx hpast).regular
      exact ⟨rfl, (hb.stage (ledger_clean (hlog ▸ hpre)).1).not_cleared⟩
    | take | copy | classify | opens | save | report | upload | rest =>
      obtain ⟨-, he⟩ := List.append_inj' hl rfl
      cases he
    | _ =>
      obtain ⟨hdone, -⟩ := ih hs hp hl
      cases hdone
  | env hx hstep ih =>
    have hstep' : EnvStep _ _ := hstep
    cases hstep' with
    | counted | announced | committed =>
      obtain ⟨-, he⟩ := List.append_inj' hl rfl
      cases he

end

theorem saved_rounds_reported_alone (w : World) (pin : Pin → Bool) (found : MotorId → Bool)
    (rounds : List (List Image)) (hsizes : RoundSizes rounds) (c : Config w)
    (h : Platform.Reach (start w pin found) c) (hs : Every (Scheduled rounds) c.state.history)
    (hp : NoOverwrite c.state.history) :
    (.opened false ∉ c.state.history →
      reports c.state.history <+: rounds.map (reportOf w) ∧
      counts c.state.history <+: rounds.map (countOf w)) ∧
    ∀ pre, c.state.history = pre ++ [.opened false] → .opened false ∉ pre →
      c.state.insp.detectRound ≠ 0 ∧
      c.state.insp.defectCounter ≠ Vector.replicate defectClassCnt 0 := by
  obtain ⟨p, hreach⟩ := reach_desk h
  refine ⟨fun ho => ?_, fun pre hl hpre => (failed_open hsizes hreach hs hp hl hpre).2⟩
  have hx : Every (Orderly rounds) c.state.history := orderly hs hp ho
  have hprefix := verdicts_prefix (running hsizes hreach hx).progress (inputs_commits hreach hx)
  refine ⟨?_, ?_⟩
  · have hreports := hprefix.filter Event.isReport
    rwa [filter_transcript (fun _ _ => rfl) (fun _ => rfl), filter_verdicts] at hreports
    intro e he
    cases e with
    | report => rfl
    | _ => cases he
  · have hcounts := hprefix.filter Event.isCount
    rwa [filter_transcript (fun _ _ => rfl) (fun _ => rfl), filter_verdicts] at hcounts
    intro e he
    cases e with
    | count => rfl
    | _ => cases he

theorem saved_rounds_reported_alone_two_rounds :
    ∃ c : Config shadeWorld, Platform.Reach (start shadeWorld (fun _ => true) fun _ => true) c ∧
      reports c.state.history = [[plain 1, plain 3], [plain 6]].map (reportOf shadeWorld) ∧
      counts c.state.history = [[plain 1, plain 3], [plain 6]].map (countOf shadeWorld) := by
  obtain ⟨f, g, c, h, hrest⟩ := reach_twoRounds
  have hlog : c.state.history = (twoRounds f g).log := congrArg Desk.log hrest.desk
  have hsizes : RoundSizes [[plain 1, plain 3], [plain 6]] := by
    simp [RoundSizes, defaultDetectionRoundCnt]
  obtain ⟨halone, -⟩ := saved_rounds_reported_alone shadeWorld _ _ [[plain 1, plain 3], [plain 6]]
    hsizes c h (hlog ▸ scheduled_twoRounds f g) (hlog ▸ noOverwrite_twoRounds f g)
  obtain ⟨hreports, hcounts⟩ := halone (hlog ▸ opened_twoRounds f g)
  have htwo : (reports (twoRounds f g).log).length = 2 ∧ (counts (twoRounds f g).log).length = 2 :=
    ⟨rfl, rfl⟩
  rw [← hlog] at htwo
  exact ⟨c, h, hreports.eq_of_length htwo.1, hcounts.eq_of_length htwo.2⟩

-- The SD card is not ready the first time.
def jammedWorld : World := ⟨fun _ => Vector.replicate defectClassCnt 0, fun k => k ≠ 0⟩

-- A round of one image whose file is not saved, then one more.
def jammedRounds (file : List Text) : Desk :=
  (((((Desk.init.announce 1).receive (plain 0)).fail jammedWorld).rest.announce 1).receive
    (plain 1)).report jammedWorld file |>.rest

theorem reach_jammedRounds :
    ∃ file c, Platform.Reach (start jammedWorld (fun _ => true) fun _ => true) c ∧
      Resting c (jammedRounds file) := by
  obtain ⟨c₁, h₁, hannounced⟩ :=
    (resting_start jammedWorld (fun _ => true) fun _ => true).announce 1
  obtain ⟨c₂, h₂, hframe⟩ := hannounced.commit 0
  obtain ⟨c₃, h₃, hfailed⟩ := hframe.fails rfl (fun _ => by decide) (by decide) rfl
  obtain ⟨c₄, h₄, hagain⟩ := hfailed.announce 1
  obtain ⟨c₅, h₅, hnext⟩ := hagain.commit 1
  obtain ⟨file, c, h₆, hrest⟩ :=
    hnext.reports rfl (fun _ => by decide) (by decide) rfl (by decide)
  exact ⟨file, c, h₁.trans (h₂.trans (h₃.trans (h₄.trans (h₅.trans h₆)))), hrest⟩

theorem scheduled_jammedRounds (file : List Text) :
    Every (Scheduled [[plain 0], [plain 1]]) (jammedRounds file).log := by
  have h₀ : Every (Scheduled [[plain 0], [plain 1]]) Desk.init.log := every_nil
  have h₁ := scheduled_announce h₀ (n := 1) rfl le_rfl rfl rfl rfl (by decide)
  have h₂ := scheduled_receive h₁ (plain 0) rfl
  have h₃ := scheduled_follows (Desk.fail_follows jammedWorld _) h₂
  have h₄ := scheduled_announce h₃ (k := 1) (n := 1) rfl le_rfl rfl rfl rfl (by decide)
  have h₅ := scheduled_receive h₄ (plain 1) rfl
  exact scheduled_follows (Desk.report_follows jammedWorld _ file) h₅

theorem noOverwrite_jammedRounds (file : List Text) : NoOverwrite (jammedRounds file).log := by
  have h₁ := noOverwrite_announce (x := Desk.init) every_nil 1
  have h₂ := noOverwrite_receive h₁ rfl (plain 0)
  have h₃ := noOverwrite_follows (Desk.fail_follows jammedWorld _) h₂
  have h₄ := noOverwrite_receive (noOverwrite_announce h₃ 1) rfl (plain 1)
  exact noOverwrite_follows (Desk.report_follows jammedWorld _ file) h₄

theorem failed_save_reaches_next_round :
    ∃ c : Config jammedWorld, Platform.Reach (start jammedWorld (fun _ => true) fun _ => true) c ∧
      Every (Scheduled [[plain 0], [plain 1]]) c.state.history ∧ NoOverwrite c.state.history ∧
      ∃ e ∈ counts c.state.history,
        ∀ images ∈ [[plain 0], [plain 1]], e ≠ countOf jammedWorld images := by
  obtain ⟨file, c, h, hrest⟩ := reach_jammedRounds
  have hlog : c.state.history = (jammedRounds file).log := congrArg Desk.log hrest.desk
  have hmem : Event.count [("crack", 2), ("dirt", 0), ("glue", 0), ("line", 0), ("oil", 0),
      ("no defect", 0), ("wear", 0)] ∈ counts c.state.history := by
    rw [hlog, jammedRounds]
    refine List.mem_filter.mpr ⟨?_, rfl⟩
    rw [Desk.rest_log, Desk.report_log]
    refine List.mem_append_left _ (List.mem_append_right _ ?_)
    exact .tail _ (.tail _ (.tail _ (.head _)))
  refine ⟨c, h, hlog ▸ scheduled_jammedRounds file, hlog ▸ noOverwrite_jammedRounds file, _, hmem,
    fun images hi => ?_⟩
  rcases List.mem_pair.mp hi with rfl | rfl
  · exact fun heq => absurd (Event.count.inj heq) (by decide)
  · exact fun heq => absurd (Event.count.inj heq) (by decide)

end FabricInspection
