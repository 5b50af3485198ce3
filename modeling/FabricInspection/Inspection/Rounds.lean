import FabricInspection.Inspection.Ledger
import FabricInspection.Batching.Rounds

namespace FabricInspection

open Concurrency (Machine Platform)
open Concurrency.Trace (Every every_nil every_snoc)

def Event.announces : Event → Bool
  | .announced _ => true
  | _ => false

-- A round is over when it is reported, or when its file cannot be opened.
def Event.closes : Event → Bool
  | .report _ _ | .opened false => true
  | _ => false

def Event.verdict : Event → Bool
  | .classified _ _ | .report _ _ | .count _ => true
  | _ => false

def announcements (log : List Event) : Nat := log.countP Event.announces

def closings (log : List Event) : Nat := log.countP Event.closes

def verdicts (log : List Event) : List Event := log.filter Event.verdict

-- Each round is announced after the end of the one before, with as many '(' as it has images,
-- and then its images are committed in their order.
def Scheduled (rounds : List (List Image)) (pre : List Event) : Event → Prop
  | .counted => announcements pre ≤ closings pre ∧
      ∃ images, rounds[announcements pre]? = some images ∧ (tally pre).toNat < images.length
  | .announced _ => announcements pre ≤ closings pre ∧
      ∃ images, rounds[announcements pre]? = some images ∧ (tally pre).toNat = images.length
  | .committed image =>
      (rounds.take (announcements pre)).flatten[(commits pre).length]? = some image
  | _ => True

def RoundSizes (rounds : List (List Image)) : Prop :=
  ∀ images ∈ rounds, 1 ≤ images.length ∧ images.length ≤ defaultDetectionRoundCnt

section
variable (w : World)

def verdictsOf (images : List Image) : List Event :=
  images.map fun image => .classified image (classOf w image)

def reportOf (images : List Image) : Event :=
  .report (UInt8.ofNat images.length)
    ((classes w images).map fun c => getElem defectNames c c.isLt)

def countOf (images : List Image) : Event := .count (countsOf w images)

def roundOf (images : List Image) : List Event :=
  verdictsOf w images ++ [reportOf w images, countOf w images]

-- What the thread is to do with the rounds.
def transcript (rounds : List (List Image)) : List Event := rounds.flatMap (roundOf w)

end

section
variable {log : List Event} {e : Event}

theorem announcements_quiet (h : e.announces = false) :
    announcements (log ++ [e]) = announcements log := by
  simp [announcements, h]

theorem announcements_announced (log : List Event) (n : UInt8) :
    announcements (log ++ [Event.announced n]) = announcements log + 1 := by
  simp [announcements, Event.announces]

theorem closings_quiet (h : e.closes = false) : closings (log ++ [e]) = closings log := by
  simp [closings, h]

theorem closings_report (log : List Event) (n : UInt8) (results : List String) :
    closings (log ++ [Event.report n results]) = closings log + 1 := by
  simp [closings, Event.closes]

theorem verdicts_quiet (h : e.verdict = false) : verdicts (log ++ [e]) = verdicts log := by
  simp [verdicts, h]

theorem verdicts_snoc (h : e.verdict = true) : verdicts (log ++ [e]) = verdicts log ++ [e] := by
  simp [verdicts, h]

end

section
variable {w : World} {rounds : List (List Image)} {r : Nat} {images : List Image}

theorem verdictsOf_snoc (images : List Image) (image : Image) :
    verdictsOf w (images ++ [image]) =
      verdictsOf w images ++ [Event.classified image (classOf w image)] := by
  simp [verdictsOf]

theorem transcript_take_succ (h : rounds[r]? = some images) :
    transcript w (rounds.take (r + 1)) = transcript w (rounds.take r) ++ roundOf w images := by
  simp [transcript, List.take_add_one, h]

theorem transcript_take (rounds : List (List Image)) (r : Nat) :
    transcript w (rounds.take r) <+: transcript w rounds := by
  refine ⟨transcript w (rounds.drop r), ?_⟩
  rw [transcript, transcript, ← List.flatMap_append, List.take_append_drop]
  rfl

end

-- How far the rounds have come: `a` of them announced, `r` of them closed.
structure Progress (w : World) (rounds : List (List Image)) (a r : Nat)
    (committed taken : List Image) (said : List Event) (l : Ledger) : Prop where
  order : r ≤ a ∧ a ≤ r + 1
  known : a ≤ rounds.length
  total : ∀ images, a = r + 1 → rounds[r]? = some images → l.total.toNat = images.length
  inOrder : committed <+: (rounds.take a).flatten
  taken : taken = (rounds.take r).flatten ++ l.batch
  unfinished : l.handling = false → ∀ images, rounds[r]? = some images → a = r + 1 →
    l.batch.length < images.length
  said : said ++ (if l.owed then [.count (countsOf w l.reported)] else []) =
    transcript w (rounds.take r) ++ verdictsOf w l.batch

def progress (w : World) (rounds : List (List Image)) (log : List Event) : Prop :=
  Progress w rounds (announcements log) (closings log) (commits log) (inputs log) (verdicts log)
    (ledger log)

namespace Progress
variable {w : World} {rounds : List (List Image)} {a r : Nat} {committed taken : List Image}
  {said : List Event} {l : Ledger}

theorem init : Progress w rounds 0 0 [] [] [] Ledger.init := by
  refine ⟨⟨le_rfl, Nat.zero_le _⟩, Nat.zero_le _, nofun, List.nil_prefix, rfl, ?_, rfl⟩
  intro _ images _ h
  cases h

-- Before its announcement nothing of a round has been taken.
theorem batch_nil (h : Progress w rounds a r committed taken said l) (hin : taken <+: committed)
    (ha : a = r) : l.batch = [] := by
  have hle := hin.trans h.inOrder
  rw [h.taken, ha] at hle
  exact Batching.batch_nil hle

theorem batch_prefix (h : Progress w rounds a r committed taken said l)
    (hin : taken <+: committed) (ha : a = r + 1) {images : List Image}
    (hr : rounds[r]? = some images) : l.batch <+: images := by
  have hle := hin.trans h.inOrder
  rw [h.taken, ha] at hle
  exact Batching.batch_prefix hr hle

theorem open_round (h : Progress w rounds a r committed taken said l) (ha : a = r + 1) :
    ∃ images, rounds[r]? = some images := by
  have hlt : r < rounds.length := by
    have := h.known
    omega
  exact ⟨rounds[r], List.getElem?_eq_getElem hlt⟩

theorem announce (h : Progress w rounds a r committed taken said l) (hin : taken <+: committed)
    (hsizes : RoundSizes rounds) (hclosed : a ≤ r) {images : List Image}
    (hr : rounds[a]? = some images) {n : UInt8} (hn : n.toNat = images.length) :
    Progress w rounds (a + 1) r committed taken said { l with total := n } := by
  obtain rfl : a = r := le_antisymm hclosed h.order.1
  have hnil := h.batch_nil hin rfl
  obtain ⟨hlt, hget⟩ := List.getElem?_eq_some_iff.mp hr
  refine ⟨⟨Nat.le_succ a, le_rfl⟩, hlt, ?_, ?_, h.taken, ?_, h.said⟩
  · intro items _ hi
    rw [hr] at hi
    exact hn.trans (congrArg List.length (Option.some.inj hi))
  · exact h.inOrder.trans (Batching.flatten_take_mono rounds (Nat.le_succ a))
  · intro _ items hi _
    have hmem : items ∈ rounds := List.mem_of_getElem? hi
    rw [hnil]
    exact (hsizes items hmem).1

theorem commit (h : Progress w rounds a r committed taken said l) {image : Image}
    (hi : (rounds.take a).flatten[committed.length]? = some image) :
    Progress w rounds a r (committed ++ [image]) taken said l := by
  refine ⟨h.order, h.known, h.total, ?_, h.taken, h.unfinished, h.said⟩
  obtain ⟨rest, hrest⟩ := h.inOrder
  rw [← hrest, List.getElem?_append_right le_rfl, Nat.sub_self] at hi
  cases rest with
  | nil => cases hi
  | cons next rest =>
    cases hi
    exact ⟨rest, by rw [← hrest]; simp⟩

theorem take (h : Progress w rounds a r committed taken said l) :
    Progress w rounds a r committed taken said { l with handling := true } :=
  ⟨h.order, h.known, h.total, h.inOrder, h.taken, nofun, h.said⟩

theorem classify (h : Progress w rounds a r committed taken said l) (hbusy : l.handling = true)
    (howed : l.owed = false) (image : Image) :
    Progress w rounds a r committed (taken ++ [image])
      (said ++ [.classified image (classOf w image)]) { l with batch := l.batch ++ [image] } := by
  refine ⟨h.order, h.known, h.total, h.inOrder, ?_, fun hfree => ?_, ?_⟩
  · rw [h.taken, List.append_assoc]
  · exact absurd (hbusy.symm.trans hfree) nofun
  · have hsaid := h.said
    simp only [howed, Bool.false_eq_true, if_false, List.append_nil] at hsaid ⊢
    rw [hsaid, verdictsOf_snoc, List.append_assoc]

-- A report is due exactly when the batch is the whole round.
theorem batch_full (h : Progress w rounds a r committed taken said l) (hin : taken <+: committed)
    (hsome : l.batch ≠ []) (hdue : l.total.toNat ≤ l.batch.length) :
    a = r + 1 ∧ rounds[r]? = some l.batch := by
  have ha : a = r + 1 := by
    rcases h.order.1.eq_or_lt with heq | hlt
    · exact absurd (h.batch_nil hin heq.symm) hsome
    · exact le_antisymm h.order.2 hlt
  obtain ⟨images, hr⟩ := h.open_round ha
  have hprefix := h.batch_prefix hin ha hr
  have htotal := h.total images ha hr
  have hfull : l.batch = images := hprefix.eq_of_length_le (htotal ▸ hdue)
  exact ⟨ha, by rw [hr, hfull]⟩

theorem report (h : Progress w rounds a r committed taken said l) (hin : taken <+: committed)
    (hsizes : RoundSizes rounds) (hsome : l.batch ≠ []) (hdue : l.total.toNat ≤ l.batch.length)
    (howed : l.owed = false) :
    Progress w rounds a (r + 1) committed taken
      (said ++ [.report l.total (resultsOf w l.total l.batch)])
      { l with batch := [], reported := l.batch, owed := true, handling := false, clean := true,
               sound := l.clean } := by
  obtain ⟨ha, hr⟩ := h.batch_full hin hsome hdue
  have htotal := h.total l.batch ha hr
  have hten := (hsizes l.batch (List.mem_of_getElem? hr)).2
  have hevent : Event.report l.total (resultsOf w l.total l.batch) = reportOf w l.batch := by
    have hall : (classes w l.batch).take l.total.toNat = classes w l.batch :=
      List.take_of_length_le (by rw [length_classes, htotal])
    rw [reportOf, resultsOf, hall, ← htotal, UInt8.ofNat_toNat]
  refine ⟨⟨ha.ge, by omega⟩, h.known, by omega, h.inOrder, ?_, by omega, ?_⟩
  · rw [h.taken, Batching.flatten_take_succ hr, List.append_nil]
  · have hsaid := h.said
    simp only [howed, Bool.false_eq_true, if_false, List.append_nil] at hsaid
    rw [hevent, hsaid, transcript_take_succ hr]
    simp [roundOf, countOf, verdictsOf]

theorem count (h : Progress w rounds a r committed taken said l) (howed : l.owed = true) :
    Progress w rounds a r committed taken (said ++ [.count (countsOf w l.reported)])
      { l with owed := false } := by
  refine ⟨h.order, h.known, h.total, h.inOrder, h.taken, h.unfinished, ?_⟩
  have hsaid := h.said
  rw [howed] at hsaid
  simpa using hsaid

theorem rest (h : Progress w rounds a r committed taken said l)
    (hwaits : l.handling = true → l.batch.length < l.total.toNat) :
    Progress w rounds a r committed taken said { l with handling := false } := by
  refine ⟨h.order, h.known, h.total, h.inOrder, h.taken, fun _ images hr ha => ?_, h.said⟩
  cases hbusy : l.handling with
  | true => exact (hwaits hbusy).trans_eq (h.total images ha hr)
  | false => exact h.unfinished hbusy images hr ha

end Progress

theorem RecvStep.log_step {w : World} {p q : Phase} {x y : Desk} (h : RecvStep w p x q y) :
    y.log = x.log ∨ ∃ e, y.log = x.log ++ [e] ∧ e.byRecv = true := by
  cases h with
  | take | copy | classify | openFails | opens | save | report | upload | rest =>
    exact .inr ⟨_, rfl, rfl⟩
  | _ => exact .inl rfl

section
variable {w : World} {rounds : List (List Image)} {log : List Event} {e : Event}

theorem progress_quiet (h : progress w rounds log) (ha : e.announces = false)
    (hr : e.closes = false) (hc : e.commit? = none) (hi : e.input? = none)
    (hv : e.verdict = false) (hl : (ledger log).step e = ledger log) :
    progress w rounds (log ++ [e]) := by
  rw [progress, announcements_quiet ha, closings_quiet hr, commits_quiet hc, inputs_quiet hi,
    verdicts_quiet hv, ledger_snoc, hl]
  exact h

theorem progress_snoc (hsizes : RoundSizes rounds) (h : progress w rounds log)
    (hin : inputs log <+: commits log) (hs : Scheduled rounds log e)
    (hacc : Accounted w (ledger log) e) (htally : ∀ n, e = .announced n → n = tally log)
    (hpast : .opened false ∉ log) (hopen : e ≠ .opened false) :
    progress w rounds (log ++ [e]) := by
  obtain ⟨hclean, hsound⟩ := ledger_clean hpast
  cases e with
  | command | handled | iteration | counted | copied | saved =>
    exact progress_quiet h rfl rfl rfl rfl rfl rfl
  | opened ok =>
    cases ok with
    | true => exact progress_quiet h rfl rfl rfl rfl rfl rfl
    | false => exact absurd rfl hopen
  | call who c =>
    by_cases hrest : Event.call who c = .call .recv (.sleep 10)
    · rw [hrest] at hacc ⊢
      rw [progress, announcements_quiet rfl, closings_quiet rfl, commits_quiet rfl,
        inputs_quiet rfl, verdicts_quiet rfl, ledger_snoc]
      exact Progress.rest h (hacc.2 hclean)
    · exact progress_quiet h rfl rfl rfl rfl rfl (ledger_call hrest _)
  | announced n =>
    obtain ⟨hclosed, images, hr, htotal⟩ := hs
    obtain rfl := htally n rfl
    rw [progress, announcements_announced, closings_quiet rfl, commits_quiet rfl,
      inputs_quiet rfl, verdicts_quiet rfl, ledger_snoc]
    exact Progress.announce h hin hsizes hclosed hr htotal
  | committed image =>
    rw [progress, announcements_quiet rfl, closings_quiet rfl, commits_snoc, inputs_quiet rfl,
      verdicts_quiet rfl, ledger_snoc]
    exact Progress.commit h hs
  | taken =>
    rw [progress, announcements_quiet rfl, closings_quiet rfl, commits_quiet rfl,
      inputs_quiet rfl, verdicts_quiet rfl, ledger_snoc]
    exact Progress.take h
  | classified image c =>
    obtain ⟨rfl, hbusy, howed⟩ := hacc
    rw [progress, announcements_quiet rfl, closings_quiet rfl, commits_quiet rfl, inputs_snoc,
      verdicts_snoc rfl, ledger_snoc]
    exact Progress.classify h hbusy howed image
  | report total results =>
    obtain ⟨rfl, hsome, howed, hvalue⟩ := hacc
    obtain ⟨rfl, hdue⟩ := hvalue hclean
    rw [progress, announcements_quiet rfl, closings_report, commits_quiet rfl, inputs_quiet rfl,
      verdicts_snoc rfl, ledger_snoc]
    exact Progress.report h hin hsizes hsome hdue howed
  | count counts =>
    obtain ⟨howed, hvalue⟩ := hacc
    obtain rfl := hvalue hsound
    rw [progress, announcements_quiet rfl, closings_quiet rfl, commits_quiet rfl,
      inputs_quiet rfl, verdicts_snoc rfl, ledger_snoc]
    exact Progress.count h howed

end
end FabricInspection
