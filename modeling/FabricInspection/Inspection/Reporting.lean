import FabricInspection.Inspection.Rounds

namespace FabricInspection

open Concurrency (Machine Platform)
open Concurrency.Trace (Every every_nil every_of_mem every_snoc)

-- The steps of a run in which the rounds are delivered without loss and every open succeeds.
def Orderly (rounds : List (List Image)) (pre : List Event) (e : Event) : Prop :=
  Scheduled rounds pre e ∧
    (∀ image, e = .committed image → ∀ i < (commits pre).length, i ∈ sources pre) ∧
    e ≠ .opened false

theorem orderly {rounds : List (List Image)} {log : List Event} (hs : Every (Scheduled rounds) log)
    (hp : NoOverwrite log) (ho : .opened false ∉ log) : Every (Orderly rounds) log :=
  hs.and (hp.and (every_of_mem fun _ he heq => ho (heq ▸ he)))

section
variable {w : World} {rounds : List (List Image)} {p q : Phase} {x y : Desk}

theorem inputs_commits (h : (desk w).Reach p x) (hx : Every (Orderly rounds) x.log) :
    inputs x.log <+: commits x.log :=
  (inputs_pending h).1.trans (copies_commits h (hx.mono fun _ _ he => he.2.1))

-- After a round is closed the thread takes up nothing until the next one is announced.
theorem not_handling (h : (desk w).Reach p x) (hx : Every (Orderly rounds) x.log)
    (hb : Balanced w p x) (hp : progress w rounds x.log)
    (ha : announcements x.log ≤ closings x.log) : (ledger x.log).handling = false := by
  have hno : NoOverwrite x.log := hx.mono fun _ _ he => he.2.1
  have heq : announcements x.log = closings x.log := le_antisymm ha hp.order.1
  have hnil := hp.batch_nil (inputs_commits h hx) heq
  have htaken : (commits x.log).length ≤ (inputs x.log).length := by
    have hle := hp.inOrder.length_le
    rwa [heq, ← List.append_nil (List.flatten _), ← hnil, ← hp.taken] at hle
  have hcopies : (copies x.log).length ≤ (commits x.log).length :=
    (copies_commits h hno).length_le
  have hshape := hb.shape
  by_contra hbusy
  rw [Bool.not_eq_false] at hbusy
  cases p with
  | idle | taking => exact absurd (hbusy.symm.trans hshape) nofun
  | reported | uploaded | clearedCounter | clearedLast =>
    exact absurd (hbusy.symm.trans hshape.1) nofun
  | took =>
    have hcount := (inStep h hno).count
    have hsources := length_copies h
    have hinputs := (inputs_pending h).1.length_le
    simp only [Phase.waits, Phase.beforeCopy, Bool.true_or, if_true] at hcount
    omega
  | copied | ran | parsing | stored =>
    have hpending := congrArg List.length ((inputs_pending h).2 rfl)
    simp only [pending, List.length_append, List.length_singleton] at hpending
    omega
  | classified | advanced | opened => exact hshape.2 hnil
  | compared | saving | saved => exact hshape.2.1 hnil
  | done => exact hshape hbusy hnil
  | crashed => exact hshape

theorem opened_orderly {log : List Event} (h : Every (Orderly rounds) log) :
    .opened false ∉ log := by
  intro hmem
  obtain ⟨pre, post, hlog⟩ := List.append_of_mem hmem
  exact (h pre _ post hlog).2.2 rfl

structure Running (w : World) (rounds : List (List Image)) (x : Desk) : Prop where
  regular : Every Regular x.log
  progress : progress w rounds x.log

theorem Running.recvStep (hsizes : RoundSizes rounds) (h : (desk w).Reach p x)
    (hrun : Running w rounds x) (hs : RecvStep w p x q y) (hy : Every (Orderly rounds) y.log) :
    Running w rounds y := by
  have hreach : (desk w).Reach q y := h.own hs
  rcases hs.log_step with hl | ⟨e, hl, he⟩
  · exact ⟨hl ▸ hrun.regular, hl ▸ hrun.progress⟩
  rw [hl] at hy
  obtain ⟨hx, hsched, -, hopen⟩ := every_snoc.mp hy
  have hregular : Every Regular y.log := by
    rw [hl]
    refine every_snoc.mpr ⟨hrun.regular, ?_⟩
    cases e with
    | announced => cases he
    | _ => trivial
  have hacc := (balanced hreach hregular).accounted
  rw [hl] at hacc
  refine ⟨hregular, ?_⟩
  rw [hl]
  refine progress_snoc hsizes hrun.progress (inputs_commits h hx) hsched (every_snoc.mp hacc).2
    ?_ (opened_orderly hx) hopen
  rintro n rfl
  cases he

theorem Running.envStep (hsizes : RoundSizes rounds) (h : (desk w).Reach p x)
    (hrun : Running w rounds x) (hs : EnvStep x y) (hy : Every (Orderly rounds) y.log) :
    Running w rounds y := by
  cases hs with
  | counted =>
    obtain ⟨hx, hsched, -⟩ := every_snoc.mp hy
    exact ⟨every_snoc.mpr ⟨hrun.regular, trivial⟩,
      progress_snoc hsizes hrun.progress (inputs_commits h hx) hsched trivial nofun
        (opened_orderly hx) nofun⟩
  | committed =>
    obtain ⟨hx, hsched, -⟩ := every_snoc.mp hy
    exact ⟨every_snoc.mpr ⟨hrun.regular, trivial⟩,
      progress_snoc hsizes hrun.progress (inputs_commits h hx) hsched trivial nofun
        (opened_orderly hx) nofun⟩
  | announced =>
    obtain ⟨hx, hsched, -⟩ := every_snoc.mp hy
    have hdue : Scheduled rounds x.log (.announced (tally x.log)) := hsched
    obtain ⟨hclosed, images, hr, htotal⟩ := hsched
    have hten := (hsizes images (List.mem_of_getElem? hr)).2
    have hfree := not_handling h hx (balanced h hrun.regular) hrun.progress hclosed
    refine ⟨every_snoc.mpr ⟨hrun.regular, htotal ▸ hten, hfree⟩, ?_⟩
    refine progress_snoc hsizes hrun.progress (inputs_commits h hx) hdue trivial ?_
      (opened_orderly hx) nofun
    intro n hn
    cases hn
    rfl

theorem running (hsizes : RoundSizes rounds) (h : (desk w).Reach p x)
    (hx : Every (Orderly rounds) x.log) : Running w rounds x := by
  have hinit : Running w rounds Desk.init := ⟨every_nil, Progress.init⟩
  refine Machine.Reach.every (I := fun _ => Running w rounds)
    (fun _ _ _ _ => RecvStep.log_prefix) (fun _ _ => EnvStep.log_prefix) hinit ?_ ?_ h hx
  · intro p x q y hr ih hs hy
    exact ih.recvStep hsizes hr hs hy
  · intro p x y hr ih hs hy
    exact ih.envStep hsizes hr hs hy

theorem verdicts_prefix (hp : progress w rounds x.log) (hin : inputs x.log <+: commits x.log) :
    verdicts x.log <+: transcript w rounds := by
  have hsaid : verdicts x.log <+:
      transcript w (rounds.take (closings x.log)) ++ verdictsOf w (ledger x.log).batch :=
    ⟨_, hp.said⟩
  refine hsaid.trans ?_
  rcases hp.order.1.eq_or_lt with heq | hlt
  · rw [hp.batch_nil hin heq.symm, verdictsOf, List.map_nil, List.append_nil]
    exact transcript_take rounds _
  · have ha := le_antisymm hp.order.2 hlt
    obtain ⟨images, hr⟩ := hp.open_round ha
    obtain ⟨rest, hrest⟩ := hp.batch_prefix hin ha hr
    have hround : verdictsOf w (ledger x.log).batch <+: roundOf w images := by
      rw [← hrest]
      simp only [roundOf, verdictsOf, List.map_append, List.append_assoc]
      exact List.prefix_append _ _
    refine List.IsPrefix.trans ?_ (transcript_take rounds (closings x.log + 1))
    rw [transcript_take_succ hr]
    exact (List.prefix_append_right_inj _).mpr hround

-- Once the images of the first rounds have been classified, these rounds are closed.
theorem rounds_closed (hsizes : RoundSizes rounds) (hp : progress w rounds x.log)
    (hin : inputs x.log <+: commits x.log) (hfree : (ledger x.log).handling = false) {r : Nat}
    (hr : r ≤ rounds.length) (hlen : (inputs x.log).length = (rounds.take r).flatten.length) :
    closings x.log = r ∧ (ledger x.log).batch = [] := by
  have hne : ∀ images ∈ rounds, images ≠ [] := fun images hi hnil => by
    have hpos := (hsizes images hi).1
    simp [hnil] at hpos
  have hclosed : closings x.log ≤ rounds.length := hp.order.1.trans hp.known
  rw [hp.taken, List.length_append] at hlen
  rcases hp.order.1.eq_or_lt with heq | hlt
  · have hnil := hp.batch_nil hin heq.symm
    rw [hnil, List.length_nil, Nat.add_zero] at hlen
    exact ⟨Batching.eq_of_length_flatten_take hne hclosed hr hlen, hnil⟩
  · have ha := le_antisymm hp.order.2 hlt
    obtain ⟨images, hi⟩ := hp.open_round ha
    have hbatch := hp.unfinished hfree images hi ha
    have hsucc := congrArg List.length (Batching.flatten_take_succ hi)
    rw [List.length_append] at hsucc
    have hnext : closings x.log + 1 ≤ rounds.length := ha ▸ hp.known
    have heq : closings x.log = r := by
      rcases Nat.lt_trichotomy (closings x.log) r with hlt | heq | hgt
      · have hmono := (Batching.flatten_take_mono rounds hlt).length_le
        rw [hsucc] at hmono
        omega
      · exact heq
      · have hless := Batching.length_flatten_take_lt hne hgt hclosed
        omega
    rw [heq] at hlen
    exact ⟨heq, List.length_eq_zero_iff.mp (by omega)⟩

theorem gathered_cleared {i : Inspection} (h : Gathered w i []) :
    i.detectRound = 0 ∧ i.defectCounter = Vector.replicate defectClassCnt 0 ∧
      i.lastDetect = Vector.replicate defaultDetectionRoundCnt 0 := by
  refine ⟨UInt8.toNat_inj.mp h.round, ?_, ?_⟩
  · refine Vector.ext fun c hc => ?_
    rw [Vector.getElem_replicate]
    exact UInt16.toNat_inj.mp (h.counter ⟨c, hc⟩)
  · refine Vector.toList_inj.mp ?_
    rw [h.last, Vector.toList_replicate]
    rfl

end

theorem round_reports_exact (w : World) (pin : Pin → Bool) (found : MotorId → Bool)
    (rounds : List (List Image)) (hsizes : RoundSizes rounds) (c : Config w)
    (h : Platform.Reach (start w pin found) c) (hs : Every (Scheduled rounds) c.state.history)
    (hp : NoOverwrite c.state.history) (ho : .opened false ∉ c.state.history) :
    (∀ f, c.thread Task.recv ≠ .fail f) ∧
    verdicts c.state.history <+: transcript w rounds ∧
    (c.blocked Task.recv → c.state.rx.frameReady = false →
      copies c.state.history = commits c.state.history) ∧
    (c.blocked Task.recv → ∀ r ≤ rounds.length,
      (copies c.state.history).length = (rounds.take r).flatten.length →
      verdicts c.state.history = transcript w (rounds.take r) ∧
      c.state.insp.detectRound = 0 ∧
      c.state.insp.defectCounter = Vector.replicate defectClassCnt 0 ∧
      c.state.insp.lastDetect = Vector.replicate defaultDetectionRoundCnt 0) ∧
    (∀ image, IsLeast {i : DefectClass | ∀ j : DefectClass,
      getElem (w.modelRun image) j j.isLt ≤ getElem (w.modelRun image) i i.isLt}
      (classOf w image)) ∧
    ∀ images, ((countsOf w images).map Prod.snd).sum = images.length := by
  have hx : Every (Orderly rounds) c.state.history := orderly hs hp ho
  obtain ⟨p, hreach⟩ := reach_desk h
  have hrun := running hsizes hreach hx
  have hin := inputs_commits hreach hx
  refine ⟨fun f hf => ?_, verdicts_prefix hrun.progress hin, fun hb hready => ?_,
    fun hb r hr hlen => ?_, fun image => maxIdx_isLeast _, sum_countsOf w⟩
  · have hcrash := reach_desk_fault h hf
    exact (balanced hcrash hrun.regular).shape
  · have hidle := reach_desk_idle h hb
    have hcount := (inStep hidle hp).count
    have hwaits : Phase.idle.waits c.state.desk = false := hready
    rw [hwaits] at hcount
    exact (copies_commits hidle hp).eq_of_length ((length_copies hidle).trans hcount.symm)
  · have hidle := reach_desk_idle h hb
    have hinputs : inputs c.state.history ++ [] = copies c.state.history :=
      (inputs_pending hidle).2 rfl
    rw [List.append_nil] at hinputs
    have hb := balanced hidle hrun.regular
    have hgathered : Gathered w c.state.insp (ledger c.state.desk.log).batch :=
      hb.stage (ledger_clean ho).1
    obtain ⟨hclosed, hnil⟩ := rounds_closed hsizes hrun.progress hin hb.shape hr
      ((congrArg List.length hinputs).trans hlen)
    rw [hnil] at hgathered
    refine ⟨?_, gathered_cleared hgathered⟩
    have hsaid := hrun.progress.said
    have howed : (ledger c.state.desk.log).owed = false := hb.owed
    rw [howed, hnil, hclosed, verdictsOf, List.map_nil, List.append_nil] at hsaid
    exact (List.append_nil _).symm.trans hsaid

section
variable {rounds : List (List Image)} {x y : Desk}

theorem scheduled_follows (h : x.Follows y) (hx : Every (Scheduled rounds) x.log) :
    Every (Scheduled rounds) y.log := by
  refine h.every (fun _ e he => ?_) hx
  cases e with
  | counted | announced | committed => cases he
  | _ => trivial

theorem scheduled_announce (h : Every (Scheduled rounds) x.log) {k : Nat}
    (ha : announcements x.log = k) (hc : k ≤ closings x.log) (ht : tally x.log = 0)
    {images : List Image} (hr : rounds[k]? = some images) {n : Nat} (hlen : images.length = n)
    (h10 : n ≤ 10) : Every (Scheduled rounds) (x.announce n).log := by
  subst ha hlen
  have hcounted (n : Nat) (hn : n ≤ images.length) :
      Every (Scheduled rounds) (x.log ++ List.replicate n .counted) ∧
        announcements (x.log ++ List.replicate n .counted) = announcements x.log ∧
        closings (x.log ++ List.replicate n .counted) = closings x.log ∧
        (tally (x.log ++ List.replicate n .counted)).toNat = n := by
    induction n with
    | zero => simp [h, ht]
    | succ n ih =>
      obtain ⟨hx, ha', hc', ht'⟩ := ih (Nat.le_of_succ_le hn)
      rw [List.replicate_succ', ← List.append_assoc, announcements_quiet rfl, closings_quiet rfl,
        tally_snoc, tallyStep, UInt8.toNat_add, ha', hc', ht']
      refine ⟨every_snoc.mpr ⟨hx, ?_, images, ?_, ht'.trans_lt hn⟩, rfl, rfl, ?_⟩
      · rw [ha', hc']
        exact hc
      · rw [ha']
        exact hr
      · exact Nat.mod_eq_of_lt (by simp; omega)
  obtain ⟨hx, ha', hc', ht'⟩ := hcounted images.length le_rfl
  refine every_snoc.mpr ⟨hx, ?_, images, ?_, ht'⟩
  · rw [ha', hc']
    exact hc
  · rw [ha']
    exact hr

theorem scheduled_receive (h : Every (Scheduled rounds) x.log) (image : Image)
    (hi : (rounds.take (announcements x.log)).flatten[(commits x.log).length]? = some image) :
    Every (Scheduled rounds) (x.receive image).log :=
  every_snoc.mpr ⟨h, hi⟩

theorem noOverwrite_follows (h : x.Follows y) (hx : NoOverwrite x.log) : NoOverwrite y.log :=
  h.every (fun _ e he image heq => by
    rw [heq] at he
    cases he) hx

theorem noOverwrite_announce (h : NoOverwrite x.log) (n : Nat) : NoOverwrite (x.announce n).log := by
  refine every_snoc.mpr ⟨Every.append h fun e he pre image heq => ?_, nofun⟩
  cases (List.eq_of_mem_replicate he).symm.trans heq

theorem noOverwrite_receive (h : NoOverwrite x.log)
    (hs : sources x.log = List.range (commits x.log).length) (image : Image) :
    NoOverwrite (x.receive image).log :=
  every_snoc.mpr ⟨h, fun _ _ _ hi => hs ▸ List.mem_range.mpr hi⟩

end

-- A round of two images and one of one.
def twoRounds (f g : List Text) : Desk := (Desk.init.round shadeWorld [1] 3 f).round shadeWorld [] 6 g

theorem reach_twoRounds :
    ∃ f g c, Platform.Reach (start shadeWorld (fun _ => true) fun _ => true) c ∧
      Resting c (twoRounds f g) := by
  obtain ⟨f, b, hb, hfirst⟩ := (resting_start shadeWorld (fun _ => true) fun _ => true).round rfl
    [1] 3 (by decide) rfl
  obtain ⟨g, c, hc, hsecond⟩ := hfirst.round rfl [] 6 (by decide) rfl
  exact ⟨f, g, c, hb.trans hc, hsecond⟩

theorem scheduled_twoRounds (f g : List Text) :
    Every (Scheduled [[plain 1, plain 3], [plain 6]]) (twoRounds f g).log := by
  have h₀ : Every (Scheduled [[plain 1, plain 3], [plain 6]]) Desk.init.log := every_nil
  have h₁ := scheduled_announce h₀ (n := 2) rfl le_rfl rfl rfl rfl (by decide)
  have h₂ := scheduled_receive h₁ (plain 1) rfl
  have h₃ := scheduled_follows (Desk.handle_follows shadeWorld _) h₂
  have h₄ := scheduled_receive h₃ (plain 3) rfl
  have h₅ := scheduled_follows (Desk.report_follows shadeWorld _ f) h₄
  have h₆ := scheduled_announce h₅ (k := 1) (n := 1) rfl le_rfl rfl rfl rfl (by decide)
  have h₇ := scheduled_receive h₆ (plain 6) rfl
  exact scheduled_follows (Desk.report_follows shadeWorld _ g) h₇

theorem noOverwrite_twoRounds (f g : List Text) : NoOverwrite (twoRounds f g).log := by
  have h₁ := noOverwrite_announce (x := Desk.init) every_nil 2
  have h₂ := noOverwrite_receive h₁ rfl (plain 1)
  have h₃ := noOverwrite_follows (Desk.handle_follows shadeWorld _) h₂
  have h₄ := noOverwrite_receive h₃ rfl (plain 3)
  have h₅ := noOverwrite_follows (Desk.report_follows shadeWorld _ f) h₄
  have h₆ := noOverwrite_announce h₅ 1
  have h₇ := noOverwrite_receive h₆ rfl (plain 6)
  exact noOverwrite_follows (Desk.report_follows shadeWorld _ g) h₇

theorem opened_twoRounds (f g : List Text) : .opened false ∉ (twoRounds f g).log := by
  simp [twoRounds, Desk.round, Desk.frames, Desk.init]

theorem transcript_twoRounds : transcript shadeWorld [[plain 1, plain 3], [plain 6]] =
    [.classified (plain 1) 1, .classified (plain 3) 3, .report 2 ["dirt", "line"],
      .count [("crack", 0), ("dirt", 1), ("glue", 0), ("line", 1), ("oil", 0), ("no defect", 0),
        ("wear", 0)],
      .classified (plain 6) 6, .report 1 ["wear"],
      .count [("crack", 0), ("dirt", 0), ("glue", 0), ("line", 0), ("oil", 0), ("no defect", 0),
        ("wear", 1)]] := by
  have h₁ : classOf shadeWorld (plain 1) = 1 := classOf_plain 1
  have h₃ : classOf shadeWorld (plain 3) = 3 := classOf_plain 3
  have h₆ : classOf shadeWorld (plain 6) = 6 := classOf_plain 6
  simp only [transcript, List.flatMap_cons, List.flatMap_nil, roundOf, verdictsOf, reportOf,
    countOf, countsOf, classes, List.map_cons, List.map_nil, h₁, h₃, h₆]
  rfl

theorem round_reports_exact_two_rounds :
    ∃ c : Config shadeWorld, Platform.Reach (start shadeWorld (fun _ => true) fun _ => true) c ∧
      verdicts c.state.history =
        [.classified (plain 1) 1, .classified (plain 3) 3, .report 2 ["dirt", "line"],
          .count [("crack", 0), ("dirt", 1), ("glue", 0), ("line", 1), ("oil", 0),
            ("no defect", 0), ("wear", 0)],
          .classified (plain 6) 6, .report 1 ["wear"],
          .count [("crack", 0), ("dirt", 0), ("glue", 0), ("line", 0), ("oil", 0),
            ("no defect", 0), ("wear", 1)]] ∧
      c.state.insp.detectRound = 0 := by
  obtain ⟨f, g, c, h, hrest⟩ := reach_twoRounds
  have hlog : c.state.history = (twoRounds f g).log := congrArg Desk.log hrest.desk
  have hsizes : RoundSizes [[plain 1, plain 3], [plain 6]] := by
    simp [RoundSizes, defaultDetectionRoundCnt]
  have hexact := round_reports_exact shadeWorld _ _ [[plain 1, plain 3], [plain 6]] hsizes c h
    (hlog ▸ scheduled_twoRounds f g) (hlog ▸ noOverwrite_twoRounds f g)
    (hlog ▸ opened_twoRounds f g)
  have hcopies : (copies c.state.history).length = 3 := by
    rw [hlog]
    rfl
  obtain ⟨hverdicts, hround, -⟩ := hexact.2.2.2.1 hrest.recv 2 le_rfl hcopies
  exact ⟨c, h, hverdicts.trans transcript_twoRounds, hround⟩

end FabricInspection
