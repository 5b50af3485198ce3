import FabricInspection.Inspection.Bounds
import FabricInspection.Inspection.Verdict

namespace FabricInspection

open Concurrency (Machine)
open Concurrency.Trace (Every every_nil every_snoc)

-- What a history says about rounds: the images classified since the last report, those of that
-- report, whether their count is still owed, whether a frame is being handled, and the total.
-- After a failed open the ledger is not clean until the next report, and that report not sound.
structure Ledger where
  batch : List Image
  reported : List Image
  owed : Bool
  handling : Bool
  clean : Bool
  sound : Bool
  total : UInt8

namespace Ledger

def init : Ledger where
  batch := []
  reported := []
  owed := false
  handling := false
  clean := true
  sound := true
  total := UInt8.ofNat defaultDetectionRoundCnt

def step (l : Ledger) : Event → Ledger
  | .announced total => { l with total := total }
  | .taken => { l with handling := true }
  | .classified image _ => { l with batch := l.batch ++ [image] }
  | .opened false => { l with clean := false }
  | .report _ _ =>
    { l with batch := [], reported := l.batch, owed := true, handling := false, clean := true,
             sound := l.clean }
  | .count _ => { l with owed := false }
  | .call .recv (.sleep ms) => if ms = 10 then { l with handling := false } else l
  | _ => l

end Ledger

def ledger (log : List Event) : Ledger := log.foldl Ledger.step Ledger.init

theorem ledger_snoc (log : List Event) (e : Event) :
    ledger (log ++ [e]) = (ledger log).step e := by
  simp only [ledger, List.foldl_append, List.foldl_cons, List.foldl_nil]

theorem ledger_call {who : Party} {c : Call} (h : Event.call who c ≠ .call .recv (.sleep 10))
    (l : Ledger) : l.step (.call who c) = l := by
  cases who with
  | recv =>
    cases c with
    | sleep ms =>
      refine if_neg fun hms => h ?_
      rw [hms]
    | _ => rfl
  | _ => rfl

theorem ledger_clean {log : List Event} (h : .opened false ∉ log) :
    (ledger log).clean = true ∧ (ledger log).sound = true := by
  induction log using List.reverseRecOn with
  | nil => exact ⟨rfl, rfl⟩
  | append_singleton log e ih =>
    rw [List.mem_append, List.mem_singleton, not_or] at h
    obtain ⟨hclean, hsound⟩ := ih h.1
    rw [ledger_snoc]
    cases e with
    | opened ok =>
      cases ok with
      | true => exact ⟨hclean, hsound⟩
      | false => exact absurd rfl h.2
    | report => exact ⟨rfl, hclean⟩
    | call who c =>
      rcases eq_or_ne (Event.call who c) (.call .recv (.sleep 10)) with heq | hne
      · rw [heq]
        exact ⟨hclean, hsound⟩
      · rw [ledger_call hne]
        exact ⟨hclean, hsound⟩
    | _ => exact ⟨hclean, hsound⟩

-- The runs on which the ledger is kept: no total above ten, no announcement while a frame is
-- being handled.
def Regular (pre : List Event) : Event → Prop
  | .announced _ => (tally pre).toNat ≤ defaultDetectionRoundCnt ∧ (ledger pre).handling = false
  | _ => True

-- What every event of the thread says, given the ledger before it.
def Accounted (w : World) (l : Ledger) : Event → Prop
  | .classified image c => c = classOf w image ∧ l.handling = true ∧ l.owed = false
  | .report total results => total = l.total ∧ l.batch ≠ [] ∧ l.owed = false ∧
      (l.clean = true → results = resultsOf w total l.batch ∧ total.toNat ≤ l.batch.length)
  | .count counts => l.owed = true ∧ (l.sound = true → counts = countsOf w l.reported)
  | .call .recv (.sleep 10) => l.owed = false ∧
      (l.clean = true → l.handling = true → l.batch.length < l.total.toNat)
  | _ => True

section
variable (w : World) (i : Inspection) (images : List Image)

def Counted : Prop :=
  ∀ c : DefectClass, (getElem i.defectCounter c c.isLt).toNat = (classes w images).count c

def Stored : Prop :=
  i.lastDetect.toList = classes w images ++ List.replicate (10 - images.length) 0

-- The last image of a round that has become too short is not stored.
structure StoredTo (total : UInt8) : Prop where
  results : total.toNat ≤ images.length →
    i.lastDetect.toList.take total.toNat = (classes w images).take total.toNat
  all : images.length ≤ total.toNat → Stored w i images

-- The variables of the thread between two frames.
structure Gathered : Prop where
  counter : Counted w i images
  last : Stored w i images
  round : i.detectRound.toNat = images.length
  room : images.length < 10

-- The same from the moment a frame is classified until its round is reported.
structure Weighed (total : UInt8) : Prop where
  counter : Counted w i images
  last : StoredTo w i images total
  round : i.detectRound.toNat = images.length
  room : images.length ≤ 10
  some : images ≠ []

end

section
variable {w : World} {i : Inspection} {images : List Image} {image : Image} {total : UInt8}

theorem stored_nil : Stored w Inspection.init [] := by
  simp only [Stored, classes, Inspection.init, Vector.toList_replicate]
  rfl

theorem counted_nil : Counted w Inspection.init [] := by
  intro c
  simp [classes, Inspection.init]

theorem gathered_init : Gathered w Inspection.init [] :=
  ⟨counted_nil, stored_nil, rfl, Nat.zero_lt_succ 9⟩

theorem Counted.countOne (h : Counted w i images) (hroom : images.length < 10) (image : Image) :
    Counted w (i.countOne (classOf w image)) (images ++ [image]) := by
  intro c
  have hle : (classes w images).count c ≤ images.length :=
    List.count_le_length.trans (length_classes w images).le
  have hc := h c
  rw [classes_snoc, List.count_append]
  by_cases hcls : classOf w image = c
  · subst hcls
    have hlt : i.defectCounter[classOf w image].toNat + 1 < 2 ^ 16 := by omega
    simp only [Inspection.countOne, Fin.getElem_fin, Vector.getElem_set_self, UInt16.toNat_add,
      List.count_singleton_self]
    rw [← hc]
    exact Nat.mod_eq_of_lt hlt
  · have hne : (classOf w image : Nat) ≠ c := fun he => hcls (Fin.ext he)
    simp only [Inspection.countOne, Fin.getElem_fin, Vector.getElem_set_ne _ _ hne]
    rw [List.count_singleton, beq_false_of_ne hcls]
    exact hc

theorem Stored.storeAt (h : Stored w i images) (hroom : images.length < 10) (image : Image)
    {j : Nat} (hj : j = images.length) (hlt : j < defaultDetectionRoundCnt) :
    Stored w (i.storeAt j hlt (classOf w image)) (images ++ [image]) := by
  subst hj
  have hpad : 10 - images.length = (10 - (images.length + 1)) + 1 := by omega
  rw [Stored, Inspection.storeAt, Vector.toList_set, h, classes_snoc, hpad, List.replicate_succ,
    List.set_append_right _ _ (length_classes w images).le]
  simp

theorem Stored.to (h : Stored w i images) : StoredTo w i images total := by
  refine ⟨fun ht => ?_, fun _ => h⟩
  rw [h, List.take_append_of_le_length (ht.trans (length_classes w images).ge)]

theorem Stored.passes (h : Stored w i images) (ht : total.toNat ≤ images.length) :
    StoredTo w i (images ++ [image]) total := by
  refine ⟨fun _ => ?_, fun hlong => ?_⟩
  · have hle := ht.trans (length_classes w images).ge
    rw [h, List.take_append_of_le_length hle, classes_snoc, List.take_append_of_le_length hle]
  · simp only [List.length_append, List.length_singleton] at hlong
    omega

theorem StoredTo.report (h : StoredTo w i images total) (hten : total.toNat ≤ 10)
    (ht : total.toNat ≤ images.length) {results : List String}
    (hr : defectReport i.lastDetect total = .ok results) : results = resultsOf w total images := by
  rw [defectReport_eq hten, h.results ht] at hr
  exact (Except.ok.inj hr).symm

theorem Counted.count (h : Counted w i images) :
    defectCount i.defectCounter = countsOf w images := by
  rw [defectCount, countsOf]
  refine List.map_congr_left fun c _ => ?_
  rw [h c]

end

-- What a phase says of the ledger, whatever the files did.
def Shape (w : World) (i : Inspection) (total : UInt8) (l : Ledger) : Phase → Prop
  | .idle | .taking => l.handling = false
  | .took | .copied => l.handling = true
  | .ran | .stored => l.handling = true ∧ i.nnomOutputData = w.modelRun i.nnomInputData
  | .parsing t => l.handling = true ∧ i.nnomOutputData = w.modelRun i.nnomInputData ∧ t = total
  | .classified | .advanced | .opened => l.handling = true ∧ l.batch ≠ []
  | .compared t | .saving t | .saved t => l.handling = true ∧ l.batch ≠ [] ∧ t = total
  | .reported | .uploaded | .clearedCounter | .clearedLast =>
    l.handling = false ∧ l.batch = [] ∧ l.clean = true
  | .done => l.handling = true → l.batch ≠ []
  | .crashed _ => False

-- What it says of the variables of the thread while the ledger is clean.
def Stage (w : World) (i : Inspection) (total : UInt8) (l : Ledger) : Phase → Prop
  | .idle | .taking | .took | .copied | .ran | .parsing _ => Gathered w i l.batch
  | .stored => Counted w i l.batch ∧ StoredTo w i (l.batch ++ [i.nnomInputData]) total ∧
      i.detectRound.toNat = l.batch.length ∧ l.batch.length < 10
  | .classified => Counted w i l.batch ∧ StoredTo w i l.batch total ∧
      i.detectRound.toNat + 1 = l.batch.length ∧ l.batch.length ≤ 10
  | .advanced | .compared _ => Weighed w i l.batch total
  | .opened | .saving _ | .saved _ => Weighed w i l.batch total ∧ total.toNat ≤ l.batch.length
  | .reported => l.sound = true → Counted w i l.reported
  | .uploaded => True
  | .clearedCounter => Counted w i []
  | .clearedLast => Counted w i [] ∧ Stored w i []
  | .done => Gathered w i l.batch ∧ (l.handling = true → l.batch.length < total.toNat)
  | .crashed _ => False

def Phase.owes : Phase → Bool
  | .reported => true
  | _ => false

structure Balanced (w : World) (p : Phase) (x : Desk) : Prop where
  total : x.total = (ledger x.log).total
  bound : x.total.toNat ≤ defaultDetectionRoundCnt
  owed : (ledger x.log).owed = p.owes
  shape : Shape w x.insp x.total (ledger x.log) p
  stage : (ledger x.log).clean = true → Stage w x.insp x.total (ledger x.log) p
  accounted : Every (fun pre => Accounted w (ledger pre)) x.log

namespace Balanced
variable {w : World} {p q : Phase} {x y : Desk}

theorem init : Balanced w .idle Desk.init :=
  ⟨rfl, (by decide : (UInt8.ofNat 10).toNat ≤ 10), rfl, rfl, fun _ => gathered_init, every_nil⟩

-- A step that leaves the history alone.
theorem quiet (h : Balanced w p x) (ht : y.total = x.total) (hl : y.log = x.log)
    (ho : q.owes = p.owes) (hs : Shape w y.insp x.total (ledger x.log) q)
    (hd : (ledger x.log).clean = true → Stage w y.insp x.total (ledger x.log) q) :
    Balanced w q y := by
  refine ⟨?_, ?_, ?_, ?_, ?_, ?_⟩
  · rw [ht, hl, h.total]
  · rw [ht]
    exact h.bound
  · rw [hl, h.owed, ho]
  · rw [ht, hl]
    exact hs
  · rw [ht, hl]
    exact hd
  · rw [hl]
    exact h.accounted

-- A step that adds an event.
theorem event (h : Balanced w p x) {e : Event} (hl : y.log = x.log ++ [e])
    (ht : y.total = ((ledger x.log).step e).total)
    (hb : y.total.toNat ≤ defaultDetectionRoundCnt)
    (ho : ((ledger x.log).step e).owed = q.owes) (he : Accounted w (ledger x.log) e)
    (hs : Shape w y.insp y.total ((ledger x.log).step e) q)
    (hd : ((ledger x.log).step e).clean = true →
      Stage w y.insp y.total ((ledger x.log).step e) q) : Balanced w q y := by
  refine ⟨?_, hb, ?_, ?_, ?_, ?_⟩
  · rw [hl, ledger_snoc, ht]
  · rw [hl, ledger_snoc, ho]
  · rw [hl, ledger_snoc]
    exact hs
  · rw [hl, ledger_snoc]
    exact hd
  · rw [hl]
    exact every_snoc.mpr ⟨h.accounted, he⟩

theorem recvStep (h : Balanced w p x) (hs : RecvStep w p x q y) : Balanced w q y := by
  have hshape := h.shape
  have hstage := h.stage
  have howed := h.owed
  cases hs with
  | poll => exact h.quiet rfl rfl rfl hshape hstage
  | skip =>
    have hfree (hh : (ledger x.log).handling = true) : False :=
      Bool.false_ne_true (hshape.symm.trans hh)
    exact h.quiet rfl rfl rfl (fun hh => (hfree hh).elim)
      fun hc => ⟨hstage hc, fun hh => (hfree hh).elim⟩
  | take => exact h.event rfl h.total h.bound howed trivial rfl hstage
  | copy =>
    refine h.event rfl h.total h.bound howed trivial hshape fun hc => ?_
    have hg := hstage hc
    exact ⟨hg.counter, hg.last, hg.round, hg.room⟩
  | modelRun =>
    refine h.quiet rfl rfl rfl ⟨hshape, rfl⟩ fun hc => ?_
    have hg := hstage hc
    exact ⟨hg.counter, hg.last, hg.round, hg.room⟩
  | readTotal => exact h.quiet rfl rfl rfl ⟨hshape.1, hshape.2, rfl⟩ hstage
  | store below fits =>
    obtain ⟨hbusy, hout, rfl⟩ := hshape
    have hcls : x.insp.verdict = classOf w x.insp.nnomInputData := by
      rw [Inspection.verdict, hout]
      rfl
    refine h.quiet rfl rfl rfl ⟨hbusy, hout⟩ fun hc => ?_
    have hg := hstage hc
    have hstored := hg.last.storeAt hg.room x.insp.nnomInputData hg.round fits
    rw [← hcls] at hstored
    exact ⟨hg.counter, hstored.to, hg.round, hg.room⟩
  | overrun below beyond =>
    obtain ⟨-, -, rfl⟩ := hshape
    exact (beyond ((UInt8.lt_iff_toNat_lt.mp below).trans_le h.bound)).elim
  | pass above =>
    obtain ⟨hbusy, hout, rfl⟩ := hshape
    refine h.quiet rfl rfl rfl ⟨hbusy, hout⟩ fun hc => ?_
    have hg := hstage hc
    have hle : x.total.toNat ≤ (ledger x.log).batch.length := by
      rw [← hg.round]
      exact UInt8.le_iff_toNat_le.mp (UInt8.not_lt.mp above)
    exact ⟨hg.counter, hg.last.passes hle, hg.round, hg.room⟩
  | classify =>
    obtain ⟨hbusy, hout⟩ := hshape
    have hcls : x.insp.verdict = classOf w x.insp.nnomInputData := by
      rw [Inspection.verdict, hout]
      rfl
    refine h.event rfl h.total h.bound howed ⟨hcls, hbusy, howed⟩
      ⟨hbusy, by simp [Ledger.step]⟩ fun hc => ?_
    obtain ⟨hcounter, hlast, hround, hroom⟩ := hstage hc
    have hcounted := hcounter.countOne hroom x.insp.nnomInputData
    rw [← hcls] at hcounted
    refine ⟨hcounted, ⟨hlast.results, hlast.all⟩, ?_, ?_⟩
    · simpa [Ledger.step, Inspection.countOne] using hround
    · exact (List.length_append ..).trans_le hroom
  | advance =>
    refine h.quiet rfl rfl rfl hshape fun hc => ?_
    obtain ⟨hcounter, hlast, hround, hroom⟩ := hstage hc
    have hnext : (x.insp.detectRound + 1).toNat = (ledger x.log).batch.length := by
      rw [UInt8.toNat_add, ← hround]
      exact Nat.mod_eq_of_lt (by simp; omega)
    exact ⟨hcounter, ⟨hlast.results, hlast.all⟩, hnext, hroom, hshape.2⟩
  | readAgain => exact h.quiet rfl rfl rfl ⟨hshape.1, hshape.2, rfl⟩ hstage
  | wait below =>
    obtain ⟨hbusy, hsome, rfl⟩ := hshape
    refine h.quiet rfl rfl rfl (fun _ => hsome) fun hc => ?_
    have hw := hstage hc
    have hlt : (ledger x.log).batch.length < x.total.toNat := by
      rw [← hw.round]
      exact UInt8.lt_iff_toNat_lt.mp (UInt8.not_le.mp below)
    have hten : x.total.toNat ≤ 10 := h.bound
    exact ⟨⟨hw.counter, hw.last.all hlt.le, hw.round, hlt.trans_le hten⟩, fun _ => hlt⟩
  | openFails =>
    exact h.event rfl h.total h.bound howed trivial (fun _ => hshape.2.1) fun hc => (by cases hc)
  | opens due succeeds =>
    obtain ⟨hbusy, hsome, rfl⟩ := hshape
    refine h.event rfl h.total h.bound howed trivial ⟨hbusy, hsome⟩ fun hc => ?_
    have hw := hstage hc
    have hle : x.total.toNat ≤ (ledger x.log).batch.length := by
      rw [← hw.round]
      exact UInt8.le_iff_toNat_le.mp due
    exact ⟨hw, hle⟩
  | readLast => exact h.quiet rfl rfl rfl ⟨hshape.1, hshape.2, rfl⟩ hstage
  | save => exact h.event rfl h.total h.bound howed trivial hshape hstage
  | saveFault err =>
    obtain ⟨-, -, rfl⟩ := hshape
    obtain ⟨file, hfile⟩ := csvFile_ok h.bound x.insp.lastDetect
    rw [hfile] at err
    cases err
  | report ok =>
    obtain ⟨-, hsome, rfl⟩ := hshape
    refine h.event rfl h.total h.bound rfl ?_ ⟨rfl, rfl, rfl⟩ fun _ hc => (hstage hc).1.counter
    refine ⟨h.total, hsome, howed, fun hc => ?_⟩
    obtain ⟨hw, hle⟩ := hstage hc
    exact ⟨hw.last.report h.bound hle ok, hle⟩
  | reportFault err =>
    obtain ⟨-, -, rfl⟩ := hshape
    rw [defectReport_eq h.bound x.insp.lastDetect] at err
    cases err
  | upload =>
    have hcounter := hstage hshape.2.2
    exact h.event rfl h.total h.bound rfl ⟨howed, fun hc => (hcounter hc).count⟩ hshape
      fun _ => trivial
  | clearCounter => exact h.quiet rfl rfl rfl hshape fun _ => counted_nil
  | clearLast => exact h.quiet rfl rfl rfl hshape fun hc => ⟨hstage hc, stored_nil⟩
  | clearRound =>
    obtain ⟨hfree, hnil, -⟩ := hshape
    have hbusy (hh : (ledger x.log).handling = true) : False :=
      Bool.false_ne_true (hfree.symm.trans hh)
    refine h.quiet rfl rfl rfl (fun hh => (hbusy hh).elim) fun hc => ?_
    obtain ⟨hcounter, hlast⟩ := hstage hc
    refine ⟨?_, fun hh => (hbusy hh).elim⟩
    rw [hnil]
    exact ⟨hcounter, hlast, rfl, Nat.zero_lt_succ 9⟩
  | rest =>
    exact h.event rfl h.total h.bound howed
      ⟨howed, fun hc hh => h.total ▸ (hstage hc).2 hh⟩ rfl fun hc => (hstage hc).1

theorem envStep (h : Balanced w p x) (hs : EnvStep x y) (hy : Every Regular y.log) :
    Balanced w p y := by
  cases hs with
  | counted => exact h.event rfl h.total h.bound h.owed trivial h.shape h.stage
  | committed => exact h.event rfl h.total h.bound h.owed trivial h.shape h.stage
  | announced =>
    obtain ⟨hten, hfree⟩ := (every_snoc.mp hy).2
    have hshape := h.shape
    have hstage := h.stage
    cases p with
    | idle | taking | reported | uploaded | clearedCounter | clearedLast | crashed =>
      exact h.event rfl rfl hten h.owed trivial hshape hstage
    | done =>
      exact h.event rfl rfl hten h.owed trivial hshape
        fun hc => ⟨(hstage hc).1, fun hh => absurd (hfree.symm.trans hh) nofun⟩
    | took | copied => exact absurd (hfree.symm.trans hshape) nofun
    | _ => exact absurd (hfree.symm.trans hshape.1) nofun

end Balanced

theorem balanced {w : World} {p : Phase} {x : Desk} (h : (desk w).Reach p x)
    (hx : Every Regular x.log) : Balanced w p x := by
  refine Machine.Reach.every (fun _ _ _ _ => RecvStep.log_prefix) (fun _ _ => EnvStep.log_prefix)
    Balanced.init ?_ ?_ h hx
  · rintro p x q y - ih hs -
    exact ih.recvStep hs
  · rintro p x y - ih hs hy
    exact ih.envStep hs hy

end FabricInspection
