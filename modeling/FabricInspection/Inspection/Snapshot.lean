import FabricInspection.Inspection.Midframe

namespace FabricInspection

open Concurrency (Machine Platform)
open Concurrency.Trace (Every every_nil every_snoc snoc_split)

-- The counts and the results from the moment a frame is classified. The result of the frame is
-- missing when a smaller total was read before it was stored.
structure Kept (w : World) (i : Inspection) (images : List Image) (old total : UInt8) :
    Prop where
  counter : Counted w i images
  within : images.length ≤ old.toNat
  last : Stored w i images ∨ total ≠ old ∧ total.toNat < images.length

-- What a phase says while the total goes from `old`, at the pick-up, to `total`.
def Midway (w : World) (i : Inspection) (images : List Image) (old total : UInt8) :
    Phase → Prop
  | .took | .copied | .ran => Gathered w i images ∧ images.length < old.toNat
  | .parsing t => Gathered w i images ∧ images.length < old.toNat ∧ (t = old ∨ t = total)
  | .stored => Counted w i images ∧ images.length < 10 ∧ images.length < old.toNat ∧
      (Stored w i (images ++ [i.nnomInputData]) ∨ total ≠ old ∧ total.toNat ≤ images.length)
  | .classified | .advanced => Kept w i images old total
  | .compared t => Kept w i images old total ∧ (t = old ∨ t = total)
  | .opened => Kept w i images old total ∧ (old.toNat = images.length ∨ total ≠ old)
  | .saving t | .saved t => Counted w i images ∧
      (Stored w i images ∨ t.toNat < images.length) ∧ (t = old → t.toNat = images.length)
  | _ => True

section
variable {w : World} {p q : Phase} {x y : Desk} {i : Inspection} {images : List Image}
  {old : UInt8} {pre mid : List Event}

theorem Midway.update (h : Midway w i images old old p) (n : UInt8) :
    Midway w i images old n p := by
  have hkept (hk : Kept w i images old old) : Kept w i images old n :=
    ⟨hk.counter, hk.within, .inl (hk.last.resolve_right fun hne => hne.1 rfl)⟩
  cases p with
  | parsing t =>
    obtain ⟨hg, hlt, hread⟩ := h
    exact ⟨hg, hlt, .inl (hread.elim id id)⟩
  | stored =>
    obtain ⟨hcounter, hten, hlt, hlast⟩ := h
    exact ⟨hcounter, hten, hlt, .inl (hlast.resolve_right fun hne => hne.1 rfl)⟩
  | classified | advanced => exact hkept h
  | compared t => exact ⟨hkept h.1, .inl (h.2.elim id id)⟩
  | opened => exact ⟨hkept h.1, .inl (h.2.resolve_right fun hne => hne rfl)⟩
  | _ => exact h

-- At its pick-up nothing of the round is missing.
theorem midway_take (h : (desk w).Reach .taking x) (hp : PickedUp x.log)
    (hshort : (ledger x.log).batch.length < 256) :
    Gathered w x.insp (ledger x.log).batch ∧
      (ledger x.log).batch.length < (ledger x.log).total.toNat := by
  have hlt := UInt8.lt_iff_toNat_lt.mp hp.due
  rw [round_short hshort] at hlt
  have hb := balanced h ((tracked h).regular hp.earlier)
  have hclean : (ledger x.log).clean = true := by
    by_contra hc
    rw [Bool.not_eq_true] at hc
    rcases (lapse h hp.earlier hc).2 with hle | hle
    · exact absurd hlt (Nat.not_lt.mpr hle)
    · exact absurd hshort (Nat.not_lt.mpr hle)
  exact ⟨hb.stage hclean, hlt⟩

theorem midway_own (h : (desk w).Reach p x) (hs : RecvStep w p x q y)
    (ih : ∀ pre mid, Midframe pre mid x.log → (ledger x.log).batch.length < 256 →
      Midway w x.insp (ledger x.log).batch (ledger pre).total x.total p)
    (hf : Midframe pre mid y.log) (hshort : (ledger y.log).batch.length < 256) :
    Midway w y.insp (ledger y.log).batch (ledger pre).total y.total q := by
  have ht := tracked h
  have hform := ht.form
  cases hs with
  | take =>
    obtain ⟨rfl, rfl⟩ := hf.taken
    rw [Desk.note_log, ledger_snoc] at hshort ⊢
    exact midway_take h hf.picked hshort
  | copy =>
    obtain ⟨before, rfl, hprev⟩ := hf.snoc (by simp)
    rw [Desk.note_log, ledger_snoc] at hshort ⊢
    obtain ⟨hg, hlt⟩ := ih pre before hprev hshort
    exact ⟨⟨hg.counter, hg.last, hg.round, hg.room⟩, hlt⟩
  | modelRun =>
    obtain ⟨hg, hlt⟩ := ih pre mid hf hshort
    exact ⟨⟨hg.counter, hg.last, hg.round, hg.room⟩, hlt⟩
  | readTotal =>
    obtain ⟨hg, hlt⟩ := ih pre mid hf hshort
    exact ⟨hg, hlt, .inr rfl⟩
  | store below fits =>
    obtain ⟨hg, hlt, -⟩ := ih pre mid hf hshort
    have hcls : x.insp.verdict = classOf w x.insp.nnomInputData := by
      rw [Inspection.verdict, hform.2]
      rfl
    have hstored := hg.last.storeAt hg.room x.insp.nnomInputData hg.round fits
    rw [← hcls] at hstored
    exact ⟨hg.counter, hg.room, hlt, .inl hstored⟩
  | @pass x t above =>
    obtain ⟨hg, hlt, hread⟩ := ih pre mid hf hshort
    have hle : t.toNat ≤ (ledger x.log).batch.length := by
      rw [← hg.round]
      exact UInt8.le_iff_toNat_le.mp (UInt8.not_lt.mp above)
    have hne : t ≠ (ledger pre).total := fun heq => absurd hlt (Nat.not_lt.mpr (heq ▸ hle))
    obtain rfl := hread.resolve_left hne
    exact ⟨hg.counter, hg.room, hlt, .inr ⟨hne, hle⟩⟩
  | classify =>
    obtain ⟨before, rfl, hprev⟩ := hf.snoc (by simp)
    rw [Desk.note_log, ledger_snoc] at hshort ⊢
    have hlen : ((ledger x.log).step (.classified x.insp.nnomInputData x.insp.verdict)).batch =
        (ledger x.log).batch ++ [x.insp.nnomInputData] := rfl
    rw [hlen] at hshort ⊢
    rw [List.length_append, List.length_singleton] at hshort
    obtain ⟨hcounter, hten, hlt, hlast⟩ := ih pre before hprev (Nat.lt_of_succ_lt hshort)
    have hcls : x.insp.verdict = classOf w x.insp.nnomInputData := by
      rw [Inspection.verdict, hform.2]
      rfl
    have hcounted := hcounter.countOne hten x.insp.nnomInputData
    rw [← hcls] at hcounted
    refine ⟨hcounted, ?_, hlast.imp id fun hmissing => ⟨hmissing.1, ?_⟩⟩
    · rw [List.length_append, List.length_singleton]
      exact hlt
    · rw [List.length_append, List.length_singleton]
      exact Nat.lt_succ_of_le hmissing.2
  | advance =>
    have hk := ih pre mid hf hshort
    exact ⟨hk.counter, hk.within, hk.last⟩
  | readAgain => exact ⟨ih pre mid hf hshort, .inr rfl⟩
  | @opens x t due succeeds =>
    obtain ⟨before, rfl, hprev⟩ := hf.snoc (by simp)
    rw [Desk.note_log, ledger_snoc] at hshort ⊢
    have hshort : (ledger x.log).batch.length < 256 := hshort
    obtain ⟨hk, hread⟩ := ih pre before hprev hshort
    have hround : x.insp.detectRound = (ledger x.log).round := hform
    have hle : t.toNat ≤ (ledger x.log).batch.length := by
      rw [← round_short hshort, ← hround]
      exact UInt8.le_iff_toNat_le.mp due
    refine ⟨hk, ?_⟩
    rcases eq_or_ne x.total (ledger pre).total with heq | hne
    · have htold : t = (ledger pre).total := hread.elim id fun ht => ht.trans heq
      exact .inl (le_antisymm (htold ▸ hle) hk.within)
    · exact .inr hne
  | readLast =>
    obtain ⟨hk, hdue⟩ := ih pre mid hf hshort
    refine ⟨hk.counter, hk.last.imp id And.right, fun heq => ?_⟩
    exact (congrArg UInt8.toNat heq).trans (hdue.resolve_right fun hne => hne heq)
  | save =>
    obtain ⟨before, rfl, hprev⟩ := hf.snoc (by simp)
    rw [Desk.note_log, ledger_snoc] at hshort ⊢
    exact ih pre before hprev hshort
  | _ => trivial

theorem midway_env (hs : EnvStep x y) (htotal : x.total = (ledger x.log).total)
    (ih : ∀ pre mid, Midframe pre mid x.log → (ledger x.log).batch.length < 256 →
      Midway w x.insp (ledger x.log).batch (ledger pre).total x.total p)
    (hf : Midframe pre mid y.log) (hshort : (ledger y.log).batch.length < 256) :
    Midway w y.insp (ledger y.log).batch (ledger pre).total y.total p := by
  cases hs with
  | counted | committed =>
    obtain ⟨before, rfl, hprev⟩ := hf.snoc nofun
    rw [Desk.note_log, ledger_snoc] at hshort ⊢
    exact ih pre before hprev hshort
  | announced =>
    have hold := htotal.trans hf.announced
    obtain ⟨before, rfl, hprev⟩ := hf.snoc nofun
    rw [Desk.note_log, ledger_snoc] at hshort ⊢
    have hm := ih pre before hprev hshort
    rw [hold] at hm
    exact hm.update _

theorem midway (h : (desk w).Reach p x) : ∀ pre mid, Midframe pre mid x.log →
    (ledger x.log).batch.length < 256 →
      Midway w x.insp (ledger x.log).batch (ledger pre).total x.total p := by
  induction h with
  | init => exact fun _ _ _ _ => trivial
  | own hx hs ih => exact fun pre mid hf hshort => midway_own hx hs ih hf hshort
  | env hx hs ih => exact fun pre mid hf hshort => midway_env hs (tracked hx).total ih hf hshort

-- Where in the frame generate_defect_stat_csv has read the total.
def Reading (pre mid : List Event) : Phase → Prop
  | .opened => .opened true ∈ mid
  | .saving t => ∃ upto after, mid = upto ++ after ∧ TotalRead pre upto t
  | .saved t => ∃ upto after, mid = upto ++ after ∧ TotalRead pre upto t ∧
      ∃ file, .saved file ∈ after
  | _ => True

theorem Reading.snoc (h : Reading pre mid p) (e : Event) : Reading pre (mid ++ [e]) p := by
  cases p with
  | opened => exact List.mem_append_left _ h
  | saving t =>
    obtain ⟨upto, after, rfl, hread⟩ := h
    exact ⟨upto, after ++ [e], List.append_assoc .., hread⟩
  | saved t =>
    obtain ⟨upto, after, rfl, hread, file, hfile⟩ := h
    exact ⟨upto, after ++ [e], List.append_assoc .., hread, file, List.mem_append_left _ hfile⟩
  | _ => trivial

theorem reading (h : (desk w).Reach p x) :
    ∀ pre mid, Midframe pre mid x.log → Reading pre mid p := by
  induction h with
  | init => exact fun _ _ _ => trivial
  | own hx hs ih =>
    intro pre mid hf
    have hs' : RecvStep w _ _ _ _ := hs
    cases hs' with
    | opens =>
      obtain ⟨before, rfl, -⟩ := hf.snoc nofun
      exact List.mem_append_right _ (List.mem_singleton_self _)
    | readLast =>
      refine ⟨mid, [], (List.append_nil _).symm, ih pre mid hf, ?_⟩
      rw [← hf.log]
      exact (tracked hx).total
    | save =>
      obtain ⟨before, rfl, hprev⟩ := hf.snoc nofun
      obtain ⟨upto, after, rfl, hread⟩ := ih pre before hprev
      exact ⟨upto, after ++ [_], List.append_assoc .., hread, _,
        List.mem_append_right _ (List.mem_singleton_self _)⟩
    | _ => trivial
  | env hx hs ih =>
    intro pre mid hf
    have hs' : EnvStep _ _ := hs
    cases hs' with
    | counted | announced | committed =>
      obtain ⟨before, rfl, hprev⟩ := hf.snoc nofun
      exact (ih pre before hprev).snoc _

end

def namesOf (w : World) (images : List Image) : List String :=
  (classes w images).map fun c => getElem defectNames c c.isLt

def countsIn (results : List String) : List (String × Nat) :=
  (List.finRange defectClassCnt).map fun c =>
    (getElem defectNames c c.isLt, results.count (getElem defectNames c c.isLt))

-- A report of exactly these images, and the first count uploaded after it.
structure Snapshot (w : World) (images : List Image) (results : List String)
    (post : List Event) : Prop where
  number : results.length = images.length
  written : ∀ i < results.length, ∃ image,
    images[i]? = some image ∧ results[i]? = some defectNames[classOf w image]
  counted : ∀ during counts rest, post = during ++ .count counts :: rest →
    (∀ n, .count n ∉ during) → counts = countsIn results

theorem defectNames_injective :
    Function.Injective fun c : DefectClass => getElem defectNames c c.isLt := by
  decide

theorem countsIn_namesOf (w : World) (images : List Image) :
    countsIn (namesOf w images) = countsOf w images := by
  refine List.map_congr_left fun c _ => ?_
  rw [namesOf, List.count_map_of_injective _ _ defectNames_injective]

theorem namesOf_getElem? (w : World) (images : List Image) (i : Nat)
    (hi : i < (namesOf w images).length) : ∃ image,
      images[i]? = some image ∧ (namesOf w images)[i]? = some defectNames[classOf w image] := by
  have hlt : i < images.length := by simpa [namesOf] using hi
  exact ⟨images[i], List.getElem?_eq_getElem hlt, by simp [namesOf, classes, hlt]⟩

-- What a report says of its frame, and the count uploaded after it.
def Attested (w : World) (log : List Event) : Event → Prop
  | .report t results => ∀ pre mid, Midframe pre mid log →
      results.length = t.toNat ∧ Reading pre mid (.saved t) ∧
      ((ledger log).batch.length < 256 →
        (t.toNat = (ledger log).batch.length → results = namesOf w (ledger log).batch) ∧
        (t = (ledger pre).total → t.toNat = (ledger log).batch.length))
  | .count counts => ∀ front t results during pre mid, log = front ++ .report t results :: during →
      (∀ n, .count n ∉ during) → Midframe pre mid front → (ledger front).batch.length < 256 →
      counts = countsOf w (ledger front).batch
  | _ => True

-- The counters from the report until they are uploaded.
def Owing (w : World) (x : Desk) : Prop :=
  ∀ front t results during pre mid, x.log = front ++ .report t results :: during →
    (∀ n, .count n ∉ during) → Midframe pre mid front → (ledger front).batch.length < 256 →
    Counted w x.insp (ledger front).batch

theorem ledger_owed (front : List Event) (t : UInt8) (results : List String) {during : List Event}
    (h : ∀ n, .count n ∉ during) : (ledger (front ++ .report t results :: during)).owed = true := by
  induction during using List.reverseRecOn with
  | nil =>
    rw [ledger_snoc]
    rfl
  | append_singleton during e ih =>
    have howed := ih fun n hn => h n (List.mem_append_left _ hn)
    have hlog : front ++ .report t results :: (during ++ [e]) =
        (front ++ .report t results :: during) ++ [e] := by simp
    rw [hlog, ledger_snoc]
    cases e with
    | count n => exact absurd (List.mem_append_right during (List.mem_singleton_self _)) (h n)
    | report => rfl
    | opened ok => cases ok <;> exact howed
    | call who c =>
      rcases eq_or_ne (Event.call who c) (.call .recv (.sleep 10)) with heq | hne
      · rw [heq]
        exact howed
      · rw [ledger_call hne]
        exact howed
    | _ => exact howed

section
variable {w : World} {p : Phase} {x : Desk} {t : UInt8}

theorem Stored.take {i : Inspection} {images : List Image} (h : Stored w i images) :
    i.lastDetect.toList.take images.length = classes w images := by
  rw [h, ← length_classes w images]
  exact List.take_left

theorem report_attested (h : (desk w).Reach (.saved t) x) {results : List String}
    (ok : defectReport x.insp.lastDetect t = .ok results) :
    Attested w x.log (.report t results) := by
  intro pre mid hf
  have hten : t.toNat ≤ 10 := (inBounds h (hf.totalsFit (tracked h))).read t rfl
  rw [defectReport_eq hten] at ok
  obtain rfl := Except.ok.inj ok
  refine ⟨by simpa using hten, reading h pre mid hf, fun hshort => ?_⟩
  obtain ⟨-, hlast, hold⟩ := midway h pre mid hf hshort
  refine ⟨fun hall => ?_, hold⟩
  have hstored := hlast.resolve_right hall.ge.not_gt
  rw [hall, hstored.take]
  rfl

theorem owing_report (h : (desk w).Reach (.saved t) x) (results : List String) :
    Owing w (x.note (.report t results)) := by
  intro front t' results' during pre mid hlog hno hf hshort
  rcases snoc_split hlog with ⟨-, rfl, -⟩ | ⟨rest, rfl, hx⟩
  · exact (midway h pre mid hf hshort).1
  · have howed : (ledger x.log).owed = false := (tracked h).owed nofun
    rw [hx, ledger_owed front t' results' fun n hn => hno n (List.mem_append_left _ hn)] at howed
    cases howed

theorem attested (h : (desk w).Reach p x) :
    (p = .reported → Owing w x) ∧ Every (Attested w) x.log := by
  induction h with
  | init => exact ⟨nofun, every_nil⟩
  | own hx hs ih =>
    obtain ⟨howing, hatt⟩ := ih
    have hs' : RecvStep w _ _ _ _ := hs
    cases hs' with
    | report ok =>
      exact ⟨fun _ => owing_report hx _, every_snoc.mpr ⟨hatt, report_attested hx ok⟩⟩
    | upload =>
      refine ⟨nofun, every_snoc.mpr ⟨hatt, ?_⟩⟩
      intro front t results during pre mid hlog hno hf hshort
      exact (howing rfl front t results during pre mid hlog hno hf hshort).count
    | take | copy | classify | openFails | opens | save | rest =>
      exact ⟨nofun, every_snoc.mpr ⟨hatt, trivial⟩⟩
    | _ => exact ⟨nofun, hatt⟩
  | env hx hs ih =>
    obtain ⟨howing, hatt⟩ := ih
    have hs' : EnvStep _ _ := hs
    cases hs' with
    | counted | announced | committed =>
      refine ⟨fun hp => ?_, every_snoc.mpr ⟨hatt, trivial⟩⟩
      intro front t results during pre mid hlog hno hf hshort
      rcases snoc_split hlog with ⟨-, -, heq⟩ | ⟨rest, rfl, hx⟩
      · cases heq
      · exact howing hp front t results rest pre mid hx
          (fun n hn => hno n (List.mem_append_left _ hn)) hf hshort

end

theorem report_snapshot_iff (w : World) (pin : Pin → Bool) (found : MotorId → Bool)
    (c : Config w) (h : Platform.Reach (start w pin found) c) (pre mid post : List Event)
    (total : UInt8) (results : List String)
    (hlog : c.state.history = pre ++ .taken :: (mid ++ .report total results :: post))
    (hp : PickedUp pre) (hu : OneUpdate mid) :
    (∃ upto after, mid = upto ++ after ∧ TotalRead pre upto total ∧ ∃ file, .saved file ∈ after) ∧
    results.length = total.toNat ∧
    (Snapshot w (ledger (pre ++ .taken :: mid)).batch results post ↔
      total.toNat = (ledger (pre ++ .taken :: mid)).batch.length) ∧
    ((ledger (pre ++ .taken :: mid)).batch.length < 256 → total = (ledger pre).total →
      total.toNat = (ledger (pre ++ .taken :: mid)).batch.length) := by
  obtain ⟨p, hreach⟩ := reach_desk h
  obtain ⟨-, hatt⟩ := attested hreach
  have hf : Midframe pre mid (pre ++ .taken :: mid) := ⟨rfl, hp, hu⟩
  have hsplit : c.state.desk.log = (pre ++ .taken :: mid) ++ .report total results :: post := by
    rw [List.append_assoc]
    exact hlog
  obtain ⟨hlen, hread, hshort⟩ := hatt _ _ _ hsplit pre mid hf
  refine ⟨hread, hlen, ⟨fun hs => hlen.symm.trans hs.number, fun hall => ?_⟩,
    fun hfew hold => (hshort hfew).2 hold⟩
  have hfew : (ledger (pre ++ .taken :: mid)).batch.length < 256 := hall ▸ total.toNat_lt
  obtain rfl := (hshort hfew).1 hall
  refine ⟨hlen.trans hall, namesOf_getElem? w _, fun during counts rest hpost hno => ?_⟩
  rw [hpost, ← List.cons_append, ← List.append_assoc] at hsplit
  rw [countsIn_namesOf]
  exact hatt _ _ rest hsplit _ _ _ during pre mid rfl hno hf hfew

theorem betweenRounds_follows {x y : Desk} (h : x.Follows y) (hx : Every BetweenRounds x.log) :
    Every BetweenRounds y.log := by
  refine h.every (fun _ e he => ?_) hx
  cases e with
  | announced => cases he
  | _ => trivial

theorem betweenRounds_receive {x : Desk} (hx : Every BetweenRounds x.log) (image : Image) :
    Every BetweenRounds (x.receive image).log := every_snoc.mpr ⟨hx, trivial⟩

theorem ledger_counted (n : Nat) : ledger (List.replicate n .counted) = Ledger.init := by
  induction n with
  | zero => rfl
  | succ n ih =>
    rw [List.replicate_succ', ledger_snoc, ih]
    rfl

theorem betweenRounds_announce {n : Nat} (h1 : 1 ≤ (UInt8.ofNat n).toNat)
    (h10 : (UInt8.ofNat n).toNat ≤ defaultDetectionRoundCnt) :
    Every BetweenRounds (Desk.init.announce n).log := by
  have hcounted : Every BetweenRounds ([] ++ List.replicate n Event.counted) := by
    refine every_nil.append fun e he _ => ?_
    obtain rfl := List.eq_of_mem_replicate he
    trivial
  refine every_snoc.mpr ⟨hcounted, h1, h10, ?_⟩
  rw [Desk.init, List.nil_append, ledger_counted]
  exact ⟨rfl, rfl⟩

-- Three images are announced. While the second one is processed, an update to two images comes.
theorem report_snapshot_iff_updated : ∃ c : Config shadeWorld,
    Platform.Reach (start shadeWorld (fun _ => true) fun _ => true) c ∧
    ∃ pre mid post results, c.state.history = pre ++ .taken :: (mid ++ .report 2 results :: post) ∧
      (ledger pre).total = 3 ∧ .announced 2 ∈ mid ∧
      (ledger (pre ++ .taken :: mid)).batch = [plain 1, plain 3] ∧
      Snapshot shadeWorld (ledger (pre ++ .taken :: mid)).batch results post := by
  obtain ⟨c₁, h₁, hannounced⟩ :=
    (resting_start shadeWorld (fun _ => true) fun _ => true).announce 3
  obtain ⟨c₂, h₂, hframes⟩ := hannounced.frames [1] (by decide) (by decide)
  obtain ⟨c₃, h₃, hnext⟩ := hframes.commit 3
  obtain ⟨file, c, h₄, hlog⟩ :=
    hnext.reports_updated rfl 2 rfl (fun _ => by decide) (by decide) rfl (by decide)
  have h := h₁.trans (h₂.trans (h₃.trans h₄))
  have hsplit : c.state.history = (((Desk.init.announce 3).frames shadeWorld [1]).receive
      (plain 3)).log ++ Event.taken :: ([.counted, .counted, .announced 2, .copied (plain 3),
      .classified (plain 3) (classOf shadeWorld (plain 3)), .opened true, .saved file] ++
      Event.report 2 _ :: [.count _, .call .recv (.sleep 10)]) := hlog
  have hbetween := betweenRounds_receive (betweenRounds_follows
    (Desk.handle_follows shadeWorld ((Desk.init.announce 3).receive (plain 1)))
    (betweenRounds_receive (betweenRounds_announce (by decide) (by decide)) _)) (plain 3)
  have hiff := report_snapshot_iff shadeWorld _ _ c h _ _ _ _ _ hsplit ⟨hbetween, by decide⟩
    ⟨by simp, le_rfl, by simp [defaultDetectionRoundCnt]⟩
  exact ⟨c, h, _, _, _, _, hsplit, rfl, by simp, rfl, hiff.2.2.1.mpr rfl⟩

-- Two images are announced. While the second one is processed, an update to one image comes
-- before the thread has looked at the total.
theorem updated_report_inconsistent : ∃ c : Config blindWorld,
    Platform.Reach (start blindWorld (fun _ => true) fun _ => true) c ∧
    ∃ pre mid post results, c.state.history = pre ++ .taken :: (mid ++ .report 1 results :: post) ∧
      PickedUp pre ∧ OneUpdate mid ∧ (ledger pre).total = 2 ∧ .announced 1 ∈ mid ∧
      (ledger (pre ++ .taken :: mid)).batch = [plain 0, plain 1] ∧
      ¬Snapshot blindWorld (ledger (pre ++ .taken :: mid)).batch results post := by
  obtain ⟨c₁, h₁, hannounced⟩ :=
    (resting_start blindWorld (fun _ => true) fun _ => true).announce 2
  obtain ⟨c₂, h₂, hframe⟩ := hannounced.commit 0
  obtain ⟨c₃, h₃, hwaits⟩ := hframe.waits rfl (fun _ => by decide) (by decide)
  obtain ⟨c₄, h₄, hnext⟩ := hwaits.commit 1
  obtain ⟨file, c, h₅, hlog⟩ :=
    hnext.reports_updated rfl 1 rfl (fun _ => by decide) (by decide) rfl (by decide)
  have h := h₁.trans (h₂.trans (h₃.trans (h₄.trans h₅)))
  have hbetween := betweenRounds_receive (betweenRounds_follows
    (Desk.handle_follows blindWorld ((Desk.init.announce 2).receive (plain 0)))
    (betweenRounds_receive (betweenRounds_announce (by decide) (by decide)) _)) (plain 1)
  refine ⟨c, h, (((((Desk.init.announce 2).receive (plain 0)).handle blindWorld).rest).receive
    (plain 1)).log, [.counted, .announced 1, .copied (plain 1),
      .classified (plain 1) (classOf blindWorld (plain 1)), .opened true, .saved file],
    [.count _, .call .recv (.sleep 10)], _, hlog, ⟨hbetween, by decide⟩, ⟨by simp, le_rfl, by simp⟩,
    rfl, by simp, rfl, fun hs => ?_⟩
  have hnumber := hs.number
  rw [Desk.results, List.length_map, List.length_take] at hnumber
  have hle : 2 ≤ 1 := hnumber.ge.trans (Nat.min_le_left _ _)
  exact absurd hle (by decide)

end FabricInspection
