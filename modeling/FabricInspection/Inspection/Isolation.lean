import FabricInspection.Inspection.SaveFailure

namespace FabricInspection

open Concurrency (Machine Platform)
open Concurrency.Trace (Every every_nil every_snoc)

-- What a history says about frames, by their numbers: how many are committed, which one was
-- copied last, those classified since the last report and those of that report; of the latest
-- ')' how many were committed before it, which of these were unreported, how many images it
-- announced, how many have been taken since. It is fresh while no unreported frame is older.
structure Roll where
  committed : Nat
  waiting : Bool
  source : Nat
  batch : List Nat
  reported : List Nat
  mark : Nat
  left : List Nat
  quota : Nat
  taken : Nat
  fresh : Bool

namespace Roll

def init : Roll where
  committed := 0
  waiting := false
  source := 0
  batch := []
  reported := []
  mark := 0
  left := []
  quota := 0
  taken := 0
  fresh := true

def step (r : Roll) : Event → Roll
  | .announced total =>
    { r with mark := r.committed, left := r.batch, quota := total.toNat, taken := 0,
             fresh := r.batch.isEmpty }
  | .committed _ => { r with committed := r.committed + 1, waiting := true }
  | .taken => { r with taken := r.taken + 1, waiting := false }
  | .copied _ => { r with source := r.committed - 1 }
  | .classified _ _ => { r with batch := r.batch ++ [r.source] }
  | .report _ _ => { r with batch := [], reported := r.batch, fresh := true }
  | _ => r

end Roll

def roll (log : List Event) : Roll := log.foldl Roll.step Roll.init

theorem roll_snoc (log : List Event) (e : Event) : roll (log ++ [e]) = (roll log).step e := by
  simp only [roll, List.foldl_append, List.foldl_cons, List.foldl_nil]

-- Every frame that was committed has been classified, and reported if it completed a round.
def Settled (pre : List Event) : Prop :=
  (roll pre).waiting = false ∧ (ledger pre).handling = false ∧ (ledger pre).owed = false

-- Each round is announced when the frames of earlier rounds are settled; then at most as many
-- frames are committed as it has images.
def Lossy (pre : List Event) : Event → Prop
  | .counted => Settled pre
  | .announced _ => Settled pre ∧ 1 ≤ (tally pre).toNat ∧ (tally pre).toNat ≤ 10
  | .committed _ => (roll pre).committed < (roll pre).mark + (roll pre).quota
  | _ => True

def imagesOf (log : List Event) (frames : List Nat) (images : List Image) : Prop :=
  frames.map (fun i => (commits log)[i]?) = images.map some

-- A report is about frames committed after the latest ')' exactly when that ')' left no
-- classified frame unreported. Then it is about as many frames as were announced; a report that
-- follows unreported frames may leave out the last of those it counts.
def Isolated (w : World) (pre : List Event) : Event → Prop
  | .report total results =>
    ((∀ i ∈ (roll pre).batch, (roll pre).mark ≤ i) ↔ (roll pre).left = []) ∧
    ((roll pre).left = [] → (roll pre).batch.length = total.toNat) ∧
    ((roll pre).left = [] ∨ .opened false ∉ pre → ∃ images,
      imagesOf pre (roll pre).batch images ∧ results = resultsOf w total images)
  | .count counts =>
    ((∀ i ∈ (roll pre).reported, (roll pre).mark ≤ i) ↔ (roll pre).left = []) ∧
    ((roll pre).left = [] ∨ .opened false ∉ pre → ∃ images,
      imagesOf pre (roll pre).reported images ∧ counts = countsOf w images)
  | _ => True

def Phase.holding : Phase → Bool
  | .copied | .ran | .parsing _ | .stored => true
  | _ => false

-- A frame is taken and not yet classified.
def Phase.inHand : Phase → Bool
  | .took => true
  | p => p.holding

def Phase.busy : Phase → Bool
  | .classified | .advanced | .compared _ | .opened | .saving _ | .saved _ => true
  | p => p.inHand

theorem busy_of_inHand {p : Phase} (h : p.inHand = true) : p.busy = true := by
  cases p with
  | took | copied | ran | parsing | stored => rfl
  | _ => cases h

theorem busy_of_holding {p : Phase} (h : p.holding = true) : p.busy = true := by
  cases p with
  | copied | ran | parsing | stored => rfl
  | _ => cases h

theorem not_inHand {p : Phase} (h : p.busy = false) : p.inHand = false := by
  by_contra hh
  rw [Bool.not_eq_false] at hh
  exact absurd (h.symm.trans (busy_of_inHand hh)) nofun

structure Rolled (p : Phase) (ready : Bool) (total : UInt8) (input : Image) (cm : List Image)
    (l : Ledger) (r : Roll) : Prop where
  waiting : r.waiting = ready
  poll : p = .taking → ready = true
  committed : r.committed = cm.length
  batch : r.batch.map (fun i => cm[i]?) = l.batch.map some
  reported : r.reported.map (fun i => cm[i]?) = l.reported.map some
  source : p.holding = true → cm[r.source]? = some input ∧ r.mark ≤ r.source
  quota : r.committed ≤ r.mark + r.quota ∧ r.quota ≤ total.toNat
  taken : r.mark + r.taken + ready.toNat ≤ r.committed
  busy : p.busy = true → 1 ≤ r.taken
  fresh : r.fresh = true → ∀ i ∈ r.batch, r.mark ≤ i
  stale : r.fresh = false → r.left ≠ [] ∧ ∃ i ∈ r.batch, i < r.mark
  used : r.fresh = true → r.batch.length + p.inHand.toNat ≤ r.taken
  again : r.fresh = true → r.left ≠ [] → r.batch.length + p.inHand.toNat < r.taken
  clean : r.fresh = true → l.clean = false → total.toNat ≤ r.batch.length ∧ p.busy = false
  dirty : l.clean = false → l.batch ≠ []
  owed : l.owed = true → ((∀ i ∈ r.reported, r.mark ≤ i) ↔ r.left = []) ∧
    (r.left = [] → l.sound = true)

namespace Rolled
variable {p q : Phase} {ready : Bool} {total : UInt8} {input : Image} {cm : List Image}
  {l : Ledger} {r : Roll}

theorem init : Rolled .idle false (UInt8.ofNat 10) Desk.init.insp.nnomInputData [] Ledger.init
    Roll.init where
  waiting := rfl
  poll := nofun
  committed := rfl
  batch := rfl
  reported := rfl
  source := nofun
  quota := ⟨le_rfl, Nat.zero_le _⟩
  taken := le_rfl
  busy := nofun
  fresh := fun _ _ hi => absurd hi List.not_mem_nil
  stale := nofun
  used := fun _ => le_rfl
  again := fun _ hne => absurd rfl hne
  clean := nofun
  dirty := nofun
  owed := nofun

-- A step between two phases that both hold the frame, or both do not.
theorem quiet (h : Rolled p ready total input cm l r) (hp : q = .taking → ready = true)
    (hh : q.holding = p.holding) (hi : q.inHand = p.inHand)
    (hb : q.busy = true → p.busy = true) : Rolled q ready total input cm l r where
  waiting := h.waiting
  poll := hp
  committed := h.committed
  batch := h.batch
  reported := h.reported
  source := fun hq => h.source (hh ▸ hq)
  quota := h.quota
  taken := h.taken
  busy := fun hq => h.busy (hb hq)
  fresh := h.fresh
  stale := h.stale
  used := fun hf => hi ▸ h.used hf
  again := fun hf => hi ▸ h.again hf
  clean := fun hf hc => by
    obtain ⟨hle, hidle⟩ := h.clean hf hc
    refine ⟨hle, ?_⟩
    by_contra hq
    rw [Bool.not_eq_false] at hq
    exact absurd ((hb hq).symm.trans hidle) nofun
  dirty := h.dirty
  owed := h.owed

theorem length_batch (h : Rolled p ready total input cm l r) :
    r.batch.length = l.batch.length := by
  simpa using congrArg List.length h.batch

theorem lt_of_mem (h : Rolled p ready total input cm l r) {i : Nat} (hi : i ∈ r.batch) :
    i < r.committed := by
  have hm : cm[i]? ∈ l.batch.map some := by
    rw [← h.batch]
    exact List.mem_map_of_mem hi
  obtain ⟨image, -, hget⟩ := List.mem_map.mp hm
  rw [h.committed]
  exact (List.getElem?_eq_some_iff.mp hget.symm).1

theorem announce (h : Rolled p ready total input cm l r) (hw : r.waiting = false)
    (hidle : p.busy = false) (howed : l.owed = false) (n : UInt8) :
    Rolled p ready n input cm { l with total := n } (r.step (.announced n)) where
  waiting := h.waiting
  poll := h.poll
  committed := h.committed
  batch := h.batch
  reported := h.reported
  source := fun hh => absurd (hidle.symm.trans (busy_of_holding hh)) nofun
  quota := ⟨Nat.le_add_right .., le_rfl⟩
  taken := by
    have hready : ready = false := h.waiting.symm.trans hw
    rw [hready]
    exact le_rfl
  busy := fun hb => absurd (hidle.symm.trans hb) nofun
  fresh := fun hf i hi => by
    have hnil : r.batch = [] := List.isEmpty_iff.mp hf
    have hmem : i ∈ r.batch := hi
    rw [hnil] at hmem
    exact absurd hmem List.not_mem_nil
  stale := fun hf => by
    have hne : r.batch ≠ [] := fun hnil => by
      have hempty : r.batch.isEmpty = false := hf
      rw [hnil] at hempty
      cases hempty
    obtain ⟨i, hi⟩ := List.exists_mem_of_ne_nil _ hne
    exact ⟨hne, i, hi, h.lt_of_mem hi⟩
  used := fun hf => by
    have hnil : r.batch = [] := List.isEmpty_iff.mp hf
    have hhand : p.inHand = false := not_inHand hidle
    have hlen : r.batch.length + p.inHand.toNat ≤ 0 := by
      rw [hnil, hhand]
      exact le_rfl
    exact hlen
  again := fun hf hne => absurd (List.isEmpty_iff.mp hf) hne
  clean := fun hf hc => by
    have hnil : r.batch = [] := List.isEmpty_iff.mp hf
    have hlen := h.length_batch
    rw [hnil] at hlen
    exact absurd (List.length_eq_zero_iff.mp hlen.symm) (h.dirty hc)
  dirty := h.dirty
  owed := fun ho => absurd (howed.symm.trans ho) nofun

theorem commit (h : Rolled p ready total input cm l r)
    (hq : r.committed < r.mark + r.quota) (image : Image) :
    Rolled p true total input (cm ++ [image]) l (r.step (.committed image)) where
  waiting := rfl
  poll := fun _ => rfl
  committed := by
    rw [List.length_append, ← h.committed]
    rfl
  batch := frames_append h.batch image
  reported := frames_append h.reported image
  source := fun hh => by
    obtain ⟨hget, hle⟩ := h.source hh
    refine ⟨?_, hle⟩
    have hlt : r.source < cm.length := (List.getElem?_eq_some_iff.mp hget).1
    exact (List.getElem?_append_left hlt).trans hget
  quota := ⟨hq, h.quota.2⟩
  taken := by
    have hle := h.taken
    have hstep : r.mark + r.taken + 1 ≤ r.committed + 1 := by omega
    exact hstep
  busy := h.busy
  fresh := h.fresh
  stale := h.stale
  used := h.used
  again := h.again
  clean := h.clean
  dirty := h.dirty
  owed := h.owed

theorem take (h : Rolled .taking ready total input cm l r) :
    Rolled .took false total input cm { l with handling := true } (r.step .taken) where
  waiting := rfl
  poll := nofun
  committed := h.committed
  batch := h.batch
  reported := h.reported
  source := nofun
  quota := h.quota
  taken := by
    have hle := h.taken
    rw [h.poll rfl] at hle
    exact hle
  busy := fun _ => Nat.le_add_left ..
  fresh := h.fresh
  stale := h.stale
  used := fun hf => Nat.succ_le_succ (h.used hf)
  again := fun hf hne => Nat.succ_lt_succ (h.again hf hne)
  clean := fun hf hc => by
    -- A round whose file could not be opened has no frame left to take.
    have hle := h.taken
    rw [h.poll rfl, Bool.toNat_true] at hle
    have hfull : total.toNat ≤ r.batch.length := (h.clean hf hc).1
    have hused : r.batch.length + 0 ≤ r.taken := h.used hf
    have hquota := h.quota
    omega
  dirty := h.dirty
  owed := h.owed

theorem copy (h : Rolled .took ready total input cm l r) {image : Image}
    (hl : cm.getLast? = some image) :
    Rolled .copied ready total image cm l (r.step (.copied image)) where
  waiting := h.waiting
  poll := nofun
  committed := h.committed
  batch := h.batch
  reported := h.reported
  source := fun _ => by
    have hle := h.taken
    have htaken := h.busy rfl
    have hmark : r.mark ≤ r.committed - 1 := by omega
    refine ⟨?_, hmark⟩
    rw [← hl, List.getLast?_eq_getElem?, ← h.committed]
    rfl
  quota := h.quota
  taken := h.taken
  busy := h.busy
  fresh := h.fresh
  stale := h.stale
  used := h.used
  again := h.again
  clean := h.clean
  dirty := h.dirty
  owed := h.owed

theorem classify (h : Rolled .stored ready total input cm l r) (c : DefectClass) :
    Rolled .classified ready total input cm { l with batch := l.batch ++ [input] }
      (r.step (.classified input c)) where
  waiting := h.waiting
  poll := nofun
  committed := h.committed
  batch := by
    obtain ⟨hget, -⟩ := h.source rfl
    have hstep : (r.step (.classified input c)).batch = r.batch ++ [r.source] := rfl
    rw [hstep, List.map_append, List.map_append, h.batch, List.map_singleton, hget]
    rfl
  reported := h.reported
  source := nofun
  quota := h.quota
  taken := h.taken
  busy := h.busy
  fresh := fun hf i hi => by
    rcases List.mem_append.mp hi with hi | hi
    · exact h.fresh hf i hi
    · rw [List.mem_singleton.mp hi]
      exact (h.source rfl).2
  stale := fun hf => by
    obtain ⟨hne, i, hi, hlt⟩ := h.stale hf
    exact ⟨hne, i, List.mem_append_left _ hi, hlt⟩
  used := fun hf => by
    have hle := h.used hf
    simpa [Roll.step, Phase.inHand, Phase.holding] using hle
  again := fun hf hne => by
    have hlt := h.again hf hne
    simpa [Roll.step, Phase.inHand, Phase.holding] using hlt
  clean := fun hf hc => absurd (h.clean hf hc).2 nofun
  dirty := fun _ => by simp
  owed := h.owed

-- While a frame of a fresh batch is handled, no open has failed since the last report.
theorem clean_of_busy (h : Rolled p ready total input cm l r) (hb : p.busy = true)
    (hf : r.fresh = true) : l.clean = true := by
  by_contra hc
  rw [Bool.not_eq_true] at hc
  exact absurd (hb.symm.trans (h.clean hf hc).2) nofun

theorem openFails {t : UInt8} (h : Rolled (.compared t) ready total input cm l r)
    (hdue : l.clean = true → total.toNat ≤ l.batch.length) (hsome : l.batch ≠ []) :
    Rolled .done ready total input cm { l with clean := false } r where
  waiting := h.waiting
  poll := nofun
  committed := h.committed
  batch := h.batch
  reported := h.reported
  source := nofun
  quota := h.quota
  taken := h.taken
  busy := nofun
  fresh := h.fresh
  stale := h.stale
  used := h.used
  again := h.again
  clean := fun hf _ => ⟨h.length_batch ▸ hdue (h.clean_of_busy rfl hf), rfl⟩
  dirty := fun _ => hsome
  owed := h.owed

-- A second report between two ')' would need more frames than were announced.
theorem isolated (h : Rolled p ready total input cm l r) (hb : p.busy = true)
    (hdue : l.clean = true → total.toNat ≤ l.batch.length) :
    (∀ i ∈ r.batch, r.mark ≤ i) ↔ r.left = [] := by
  constructor
  · intro hall
    by_contra hne
    cases hf : r.fresh with
    | true =>
      have hmore := h.again hf hne
      have hfull := hdue (h.clean_of_busy hb hf)
      rw [← h.length_batch] at hfull
      have htaken := h.taken
      have hquota := h.quota
      omega
    | false =>
      obtain ⟨-, i, hi, hlt⟩ := h.stale hf
      exact absurd (hall i hi) (Nat.not_le.mpr hlt)
  · intro hnil
    cases hf : r.fresh with
    | true => exact h.fresh hf
    | false => exact absurd hnil (h.stale hf).1

theorem fresh_of_left (h : Rolled p ready total input cm l r) (hnil : r.left = []) :
    r.fresh = true := by
  by_contra hf
  rw [Bool.not_eq_true] at hf
  exact (h.stale hf).1 hnil

theorem full (h : Rolled p ready total input cm l r) (hnil : r.left = [])
    (hdue : total.toNat ≤ l.batch.length) : r.batch.length = total.toNat := by
  have hused := h.used (h.fresh_of_left hnil)
  have htaken := h.taken
  have hquota := h.quota
  rw [← h.length_batch] at hdue
  omega

theorem report {t : UInt8} (h : Rolled (.saved t) ready total input cm l r)
    (hdue : l.clean = true → total.toNat ≤ l.batch.length) (results : List String) :
    Rolled .reported ready total input cm
      { l with batch := [], reported := l.batch, owed := true, handling := false, clean := true,
               sound := l.clean } (r.step (.report total results)) where
  waiting := h.waiting
  poll := nofun
  committed := h.committed
  batch := rfl
  reported := h.batch
  source := nofun
  quota := h.quota
  taken := h.taken
  busy := nofun
  fresh := fun _ _ hi => absurd hi List.not_mem_nil
  stale := nofun
  used := fun _ => Nat.zero_le _
  again := fun _ _ => h.busy rfl
  clean := nofun
  dirty := nofun
  owed := fun _ => ⟨h.isolated rfl hdue,
    fun hnil => h.clean_of_busy rfl (h.fresh_of_left hnil)⟩

theorem count (h : Rolled .reported ready total input cm l r) :
    Rolled .uploaded ready total input cm { l with owed := false } r where
  waiting := h.waiting
  poll := nofun
  committed := h.committed
  batch := h.batch
  reported := h.reported
  source := nofun
  quota := h.quota
  taken := h.taken
  busy := nofun
  fresh := h.fresh
  stale := h.stale
  used := h.used
  again := h.again
  clean := h.clean
  dirty := h.dirty
  owed := nofun

theorem rest (h : Rolled .done ready total input cm l r) :
    Rolled .idle ready total input cm { l with handling := false } r where
  waiting := h.waiting
  poll := nofun
  committed := h.committed
  batch := h.batch
  reported := h.reported
  source := nofun
  quota := h.quota
  taken := h.taken
  busy := nofun
  fresh := h.fresh
  stale := h.stale
  used := h.used
  again := h.again
  clean := h.clean
  dirty := h.dirty
  owed := h.owed

end Rolled

theorem Balanced.busy_handling {w : World} {p : Phase} {x : Desk} (h : Balanced w p x)
    (hb : p.busy = true) : (ledger x.log).handling = true := by
  have hshape := h.shape
  cases p with
  | took | copied => exact hshape
  | ran | parsing | stored | classified | advanced | compared | opened | saving | saved =>
    exact hshape.1
  | _ => cases hb

-- A due report has classified as many images as the total, unless an open failed before.
theorem Balanced.due {w : World} {x : Desk} {t : UInt8} (h : Balanced w (.compared t) x)
    (hdue : x.insp.detectRound ≥ t) (hc : (ledger x.log).clean = true) :
    x.total.toNat ≤ (ledger x.log).batch.length := by
  obtain ⟨-, -, rfl⟩ := h.shape
  have hweighed : Weighed w x.insp (ledger x.log).batch x.total := h.stage hc
  rw [← hweighed.round]
  exact UInt8.le_iff_toNat_le.mp hdue

structure Traced (w : World) (p : Phase) (x : Desk) : Prop where
  regular : Every Regular x.log
  rolled : Rolled p x.ready x.total x.insp.nnomInputData (commits x.log) (ledger x.log)
    (roll x.log)
  isolated : Every (Isolated w) x.log

namespace Traced
variable {w : World} {p q : Phase} {x y : Desk}

theorem init : Traced w .idle Desk.init := ⟨every_nil, Rolled.init, every_nil⟩

theorem quiet (h : Traced w p x) (hl : y.log = x.log)
    (hr : Rolled q y.ready y.total y.insp.nnomInputData (commits x.log) (ledger x.log)
      (roll x.log)) : Traced w q y := by
  refine ⟨hl ▸ h.regular, ?_, hl ▸ h.isolated⟩
  rw [hl]
  exact hr

theorem event (h : Traced w p x) {e : Event} (hl : y.log = x.log ++ [e])
    (hreg : Regular x.log e) {cm : List Image} (hcm : commits x.log ++ e.commit?.toList = cm)
    (hr : Rolled q y.ready y.total y.insp.nnomInputData cm ((ledger x.log).step e)
      ((roll x.log).step e)) (he : Isolated w x.log e) : Traced w q y := by
  rw [← hcm, ← commits_snoc, ← ledger_snoc, ← roll_snoc, ← hl] at hr
  refine ⟨?_, hr, ?_⟩
  · rw [hl]
    exact every_snoc.mpr ⟨h.regular, hreg⟩
  · rw [hl]
    exact every_snoc.mpr ⟨h.isolated, he⟩

theorem recvStep (h : Traced w p x) (hx : (desk w).Reach p x) (hs : RecvStep w p x q y) :
    Traced w q y := by
  have hb := balanced hx h.regular
  have hafter := hb.recvStep hs
  have hr := h.rolled
  have hsame : commits x.log ++ [] = commits x.log := List.append_nil _
  cases hs with
  | poll ready => exact h.quiet rfl (hr.quiet (fun _ => ready) rfl rfl nofun)
  | skip | wait | clearRound => exact h.quiet rfl (hr.quiet nofun rfl rfl nofun)
  | modelRun | readTotal | store | pass | advance | readAgain | readLast | clearCounter
  | clearLast => exact h.quiet rfl (hr.quiet nofun rfl rfl id)
  | overrun | saveFault | reportFault => exact hafter.shape.elim
  | take => exact h.event rfl trivial hsame hr.take trivial
  | copy => exact h.event rfl trivial hsame (hr.copy (bufferIsLast hx (.inr rfl))) trivial
  | classify => exact h.event rfl trivial hsame (hr.classify _) trivial
  | openFails due =>
    exact h.event rfl trivial hsame (hr.openFails (hb.due due) hb.shape.2.1) trivial
  | opens => exact h.event rfl trivial hsame (hr.quiet nofun rfl rfl id) trivial
  | save => exact h.event rfl trivial hsame (hr.quiet nofun rfl rfl id) trivial
  | @report x t results ok =>
    obtain ⟨-, -, rfl⟩ := hb.shape
    have hacc := (every_snoc.mp hafter.accounted).2
    obtain ⟨-, -, -, hresults⟩ := hacc
    have hdue : (ledger x.log).clean = true → x.total.toNat ≤ (ledger x.log).batch.length :=
      fun hc => (hresults hc).2
    have hclean (hnil : (roll x.log).left = []) : (ledger x.log).clean = true :=
      hr.clean_of_busy rfl (hr.fresh_of_left hnil)
    refine h.event rfl trivial hsame (hr.report hdue results) ⟨hr.isolated rfl hdue,
      fun hnil => hr.full hnil (hdue (hclean hnil)), fun hcause => ⟨_, hr.batch, ?_⟩⟩
    rcases hcause with hnil | hopen
    · exact (hresults (hclean hnil)).1
    · exact (hresults (ledger_clean hopen).1).1
  | upload =>
    obtain ⟨howed, hcounts⟩ := (every_snoc.mp hafter.accounted).2
    obtain ⟨hiff, hsound⟩ := hr.owed howed
    refine h.event rfl trivial hsame hr.count ⟨hiff, fun hcause => ?_⟩
    have hs : (ledger x.log).sound = true := by
      rcases hcause with hnil | hopen
      · exact hsound hnil
      · exact (ledger_clean hopen).2
    exact ⟨_, hr.reported, hcounts hs⟩
  | rest => exact h.event rfl trivial hsame hr.rest trivial

theorem envStep (h : Traced w p x) (hx : (desk w).Reach p x) (hs : EnvStep x y)
    (hy : Every Lossy y.log) : Traced w p y := by
  have hb := balanced hx h.regular
  have hr := h.rolled
  have hsame : commits x.log ++ [] = commits x.log := List.append_nil _
  cases hs with
  | counted => exact h.event rfl trivial hsame hr trivial
  | announced =>
    obtain ⟨⟨hwaiting, hfree, howed⟩, -, hten⟩ := (every_snoc.mp hy).2
    have hidle : p.busy = false := by
      by_contra hbusy
      rw [Bool.not_eq_false] at hbusy
      exact absurd (hfree.symm.trans (hb.busy_handling hbusy)) nofun
    exact h.event rfl ⟨hten, hfree⟩ hsame (hr.announce hwaiting hidle howed _) trivial
  | committed image =>
    exact h.event rfl trivial rfl (hr.commit (every_snoc.mp hy).2 image) trivial

end Traced

theorem traced {w : World} {p : Phase} {x : Desk} (h : (desk w).Reach p x)
    (hx : Every Lossy x.log) : Traced w p x := by
  refine Machine.Reach.every (fun _ _ _ _ => RecvStep.log_prefix) (fun _ _ => EnvStep.log_prefix)
    Traced.init ?_ ?_ h hx
  · rintro p x q y hr ih hs -
    exact ih.recvStep hr hs
  · rintro p x y hr ih hs hy
    exact ih.envStep hr hs hy

theorem rounds_isolated (w : World) (pin : Pin → Bool) (found : MotorId → Bool) (c : Config w)
    (h : Platform.Reach (start w pin found) c) (hx : Every Lossy c.state.history) :
    Every (Isolated w) c.state.history := by
  obtain ⟨p, hp⟩ := reach_desk h
  exact (traced hp hx).isolated

theorem lossy_counted {log : List Event} (h : Every Lossy log) (hs : Settled log) (n : Nat) :
    Every Lossy (log ++ List.replicate n Event.counted) ∧
      Settled (log ++ List.replicate n Event.counted) := by
  induction n with
  | zero => simp [h, hs]
  | succ n ih =>
    obtain ⟨hlossy, hsettled⟩ := ih
    rw [List.replicate_succ', ← List.append_assoc]
    refine ⟨every_snoc.mpr ⟨hlossy, hsettled⟩, ?_⟩
    rw [Settled, roll_snoc, ledger_snoc]
    exact hsettled

theorem lossy_announce {x : Desk} (h : Every Lossy x.log) (hs : Settled x.log)
    (ht : tally x.log = 0) {n : Nat} (h1 : 1 ≤ n) (h10 : n ≤ 10) :
    Every Lossy (x.announce n).log := by
  obtain ⟨hlossy, hsettled⟩ := lossy_counted h hs n
  have hn : (tally (x.log ++ List.replicate n .counted)).toNat = n := by
    rw [tally_counted, ht, UInt8.zero_add, UInt8.toNat_ofNat']
    exact Nat.mod_eq_of_lt (by omega)
  refine every_snoc.mpr ⟨hlossy, hsettled, ?_, ?_⟩
  · rw [hn]
    exact h1
  · rw [hn]
    exact h10

theorem lossy_receive {x : Desk} (h : Every Lossy x.log)
    (hq : (roll x.log).committed < (roll x.log).mark + (roll x.log).quota) (image : Image) :
    Every Lossy (x.receive image).log :=
  every_snoc.mpr ⟨h, hq⟩

theorem lossy_follows {x y : Desk} (h : x.Follows y) (hx : Every Lossy x.log) :
    Every Lossy y.log := by
  refine h.every (fun _ e he => ?_) hx
  cases e with
  | counted | announced | committed => cases he
  | _ => trivial

theorem lossy_twoRounds (f g : List Text) : Every Lossy (twoRounds f g).log := by
  have h₁ := lossy_announce (x := Desk.init) (n := 2) every_nil ⟨rfl, rfl, rfl⟩ rfl (by decide)
    (by decide)
  have h₂ := lossy_receive h₁ (by decide : 0 < 0 + 2) (plain 1)
  have h₃ := lossy_follows (Desk.handle_follows shadeWorld _) h₂
  have h₄ := lossy_receive h₃ (by decide : 1 < 0 + 2) (plain 3)
  have h₅ := lossy_follows (Desk.report_follows shadeWorld _ f) h₄
  have h₆ := lossy_announce (n := 1) h₅ ⟨rfl, rfl, rfl⟩ rfl le_rfl (by decide)
  have h₇ := lossy_receive h₆ (by decide : 2 < 2 + 1) (plain 6)
  exact lossy_follows (Desk.report_follows shadeWorld _ g) h₇

theorem rounds_isolated_two_rounds :
    ∃ c : Config shadeWorld, Platform.Reach (start shadeWorld (fun _ => true) fun _ => true) c ∧
      (reports c.state.history).length = 2 ∧ Every (Isolated shadeWorld) c.state.history := by
  obtain ⟨f, g, c, h, hrest⟩ := reach_twoRounds
  have hlog : c.state.history = (twoRounds f g).log := congrArg Desk.log hrest.desk
  have hisolated := rounds_isolated shadeWorld _ _ c h (hlog ▸ lossy_twoRounds f g)
  refine ⟨c, h, ?_, hisolated⟩
  rw [hlog]
  rfl

-- Of two announced images the second is lost; the next round has one image.
theorem lost_frame_mixes_rounds :
    ∃ c : Config blindWorld, Platform.Reach (start blindWorld (fun _ => true) fun _ => true) c ∧
      Every Lossy c.state.history ∧
      ∃ pre total results post, c.state.history = pre ++ .report total results :: post ∧
        (roll pre).mark = 1 ∧ (roll pre).batch = [0, 1] ∧
        .count [("crack", 2), ("dirt", 0), ("glue", 0), ("line", 0), ("oil", 0),
          ("no defect", 0), ("wear", 0)] ∈ post := by
  obtain ⟨c₁, h₁, hfirst⟩ :=
    (resting_start blindWorld (fun _ => true) fun _ => true).announce 2
  obtain ⟨c₂, h₂, hframe⟩ := hfirst.commit 0
  obtain ⟨c₃, h₃, hwaits⟩ := hframe.waits rfl (fun _ => by decide) (by decide)
  obtain ⟨c₄, h₄, hsecond⟩ := hwaits.announce 1
  obtain ⟨c₅, h₅, hnext⟩ := hsecond.commit 1
  obtain ⟨file, c, h₆, hrest⟩ :=
    hnext.reports rfl (fun _ => by decide) (by decide) rfl (by decide)
  have h := h₁.trans (h₂.trans (h₃.trans (h₄.trans (h₅.trans h₆))))
  have hlog : c.state.history = _ := congrArg Desk.log hrest.desk
  have hl₁ : Every Lossy (Desk.init.announce 2).log :=
    lossy_announce every_nil ⟨rfl, rfl, rfl⟩ rfl (by decide) (by decide)
  have hl₂ := lossy_receive hl₁ Nat.zero_lt_two (plain 0)
  have hl₃ := lossy_follows (Desk.handle_follows blindWorld _) hl₂
  have hl₄ := lossy_announce (n := 1) hl₃ ⟨rfl, rfl, rfl⟩ rfl le_rfl (by decide)
  have hl₅ := lossy_receive hl₄ (by decide : 1 < 1 + 1) (plain 1)
  have hl₆ := lossy_follows (Desk.report_follows blindWorld _ file) hl₅
  refine ⟨c, h, hlog ▸ hl₆, ?_⟩
  rw [hlog, Desk.report_split]
  exact ⟨_, _, _, _, rfl, rfl, rfl, .head _⟩

end FabricInspection
