import FabricInspection.Inspection.Contract
import FabricInspection.Inspection.Passes
import FabricInspection.Motor.Safety

namespace FabricInspection

open Concurrency (Machine Platform)
open Concurrency.Trace (Every every_nil every_snoc)

def Event.commit? : Event → Option Image
  | .committed image => some image
  | _ => none

def Event.copy? : Event → Option Image
  | .copied image => some image
  | _ => none

def Event.input? : Event → Option Image
  | .classified image _ => some image
  | _ => none

def commits (log : List Event) : List Image := log.filterMap Event.commit?

def copies (log : List Event) : List Image := log.filterMap Event.copy?

def inputs (log : List Event) : List Image := log.filterMap Event.input?

-- For each copy of image_buffer, the number of the frame that was committed last.
def sourcesStep (p : Nat × List Nat) : Event → Nat × List Nat
  | .committed _ => (p.1 + 1, p.2)
  | .copied _ => (p.1, p.2 ++ [p.1 - 1])
  | _ => p

def sources (log : List Event) : List Nat := (log.foldl sourcesStep (0, [])).2

-- No frame is committed before the thread has copied every earlier one.
def NoOverwrite : List Event → Prop :=
  Every fun pre e => ∀ image, e = .committed image → ∀ i < (commits pre).length, i ∈ sources pre

section
variable {log : List Event} {e : Event}

theorem commits_snoc (log : List Event) (e : Event) :
    commits (log ++ [e]) = commits log ++ e.commit?.toList := by
  cases h : e.commit? <;> simp [commits, h]

theorem copies_snoc (log : List Event) (e : Event) :
    copies (log ++ [e]) = copies log ++ e.copy?.toList := by
  cases h : e.copy? <;> simp [copies, h]

theorem inputs_snoc (log : List Event) (e : Event) :
    inputs (log ++ [e]) = inputs log ++ e.input?.toList := by
  cases h : e.input? <;> simp [inputs, h]

theorem sources_fold (log : List Event) :
    log.foldl sourcesStep (0, []) = ((commits log).length, sources log) := by
  induction log using List.reverseRecOn with
  | nil => rfl
  | append_singleton log e ih =>
    have hs : sources (log ++ [e]) = (sourcesStep ((commits log).length, sources log) e).2 := by
      rw [sources, List.foldl_append, ih, List.foldl_cons, List.foldl_nil]
    rw [List.foldl_append, ih, hs, commits_snoc]
    cases e <;> simp [sourcesStep, Event.commit?]

theorem sources_snoc (log : List Event) (e : Event) :
    sources (log ++ [e]) = (sourcesStep ((commits log).length, sources log) e).2 := by
  rw [sources, List.foldl_append, sources_fold, List.foldl_cons, List.foldl_nil]

theorem commits_quiet (h : e.commit? = none) : commits (log ++ [e]) = commits log := by
  rw [commits_snoc, h, Option.toList_none, List.append_nil]

theorem copies_quiet (h : e.copy? = none) : copies (log ++ [e]) = copies log := by
  rw [copies_snoc, h, Option.toList_none, List.append_nil]

theorem inputs_quiet (h : e.input? = none) : inputs (log ++ [e]) = inputs log := by
  rw [inputs_snoc, h, Option.toList_none, List.append_nil]

theorem sources_quiet (h : e.copy? = none) : sources (log ++ [e]) = sources log := by
  rw [sources_snoc]
  cases e with
  | copied => cases h
  | _ => rfl

-- A frame that is overwritten before it is copied is never copied.
theorem lost_of_overwrite (h : ¬NoOverwrite log) :
    ∃ i, i + 1 < (commits log).length ∧ i ∉ sources log := by
  induction log using List.reverseRecOn with
  | nil => exact (h every_nil).elim
  | append_singleton log e ih =>
    by_cases hlog : NoOverwrite log
    · have he : ¬∀ image, e = .committed image → ∀ i < (commits log).length, i ∈ sources log :=
        fun hlast => h (every_snoc.mpr ⟨hlog, hlast⟩)
      push Not at he
      obtain ⟨image, rfl, i, hi, hs⟩ := he
      refine ⟨i, ?_, ?_⟩
      · simpa [commits_snoc, Event.commit?] using hi
      · rwa [sources_quiet rfl]
    · obtain ⟨i, hi, hs⟩ := ih hlog
      refine ⟨i, ?_, ?_⟩
      · rw [commits_snoc, List.length_append]
        exact Nat.lt_add_right _ hi
      · rw [sources_snoc]
        cases e with
        | copied image =>
          have hne : i ≠ (commits log).length - 1 := by
            intro he
            rw [he] at hi
            omega
          simpa [sourcesStep, hs] using hne
        | _ => exact hs

end

section
variable {w : World} {p q : Phase} {x y : Desk}

-- Between poll and copy, and while the flag is up, image_buffer is the frame committed last.
def Phase.beforeCopy : Phase → Bool
  | .taking | .took => true
  | _ => false

def BufferIsLast (p : Phase) (x : Desk) : Prop :=
  x.ready = true ∨ p.beforeCopy = true → (commits x.log).getLast? = some x.buffer

theorem bufferIsLast (h : (desk w).Reach p x) : BufferIsLast p x := by
  induction h with
  | init => simp [BufferIsLast, desk, Desk.init, Phase.beforeCopy]
  | own _ hs ih =>
    intro hy
    have hs' : RecvStep w _ _ _ _ := hs
    cases hs' with
    | poll ready => exact ih (.inl ready)
    | take => simpa [commits_snoc, Event.commit?] using ih (.inr rfl)
    | _ =>
      refine Eq.trans ?_ (ih (.inl (hy.resolve_right (by simp [Phase.beforeCopy]))))
      simp [commits_snoc, Event.commit?]
  | env _ hs ih =>
    intro hy
    have hs' : EnvStep _ _ := hs
    cases hs' with
    | counted => simpa [commits_snoc, Event.commit?] using ih hy
    | announced => simpa [commits_snoc, Event.commit?] using ih hy
    | committed image => simp [commits_snoc, Event.commit?]

-- Every copy is the frame whose number it has.
def Sourced (log : List Event) : Prop :=
  (copies log).map some = (sources log).map fun i => (commits log)[i]?

-- Frames keep their numbers when another one is committed.
theorem frames_append {frames : List Nat} {cm images : List Image}
    (h : frames.map (fun i => cm[i]?) = images.map some) (image : Image) :
    frames.map (fun i => (cm ++ [image])[i]?) = images.map some := by
  rw [← h]
  refine List.map_congr_left fun i hi => ?_
  have hm : cm[i]? ∈ images.map some := by
    rw [← h]
    exact List.mem_map_of_mem hi
  obtain ⟨other, -, hget⟩ := List.mem_map.mp hm
  exact List.getElem?_append_left (List.getElem?_eq_some_iff.mp hget.symm).1

theorem sourced_commit {log : List Event} (h : Sourced log) (image : Image) :
    Sourced (log ++ [Event.committed image]) := by
  rw [Sourced, copies_quiet rfl, sources_quiet rfl, commits_snoc]
  exact (frames_append h.symm image).symm

theorem sourced_copy {log : List Event} {image : Image} (h : Sourced log)
    (hl : (commits log).getLast? = some image) : Sourced (log ++ [Event.copied image]) := by
  rw [Sourced, copies_snoc, sources_snoc, commits_quiet rfl]
  simp only [sourcesStep, Event.copy?, Option.toList_some, List.map_append, List.map_cons,
    List.map_nil]
  rw [h, ← hl, List.getLast?_eq_getElem?]

theorem sourced_quiet {log : List Event} {e : Event} (h : Sourced log) (hc : e.commit? = none)
    (he : e.copy? = none) : Sourced (log ++ [e]) := by
  rw [Sourced, copies_quiet he, sources_quiet he, commits_quiet hc]
  exact h

theorem sourced (h : (desk w).Reach p x) : Sourced x.log := by
  induction h with
  | init => rfl
  | own hx hs ih =>
    have hs' : RecvStep w _ _ _ _ := hs
    cases hs' with
    | copy => exact sourced_copy ih (bufferIsLast hx (.inr rfl))
    | take | classify | openFails | opens | save | report | upload | rest =>
      exact sourced_quiet ih rfl rfl
    | _ => exact ih
  | env _ hs ih =>
    have hs' : EnvStep _ _ := hs
    cases hs' with
    | counted | announced => exact sourced_quiet ih rfl rfl
    | committed image => exact sourced_commit ih image

theorem length_copies (h : (desk w).Reach p x) : (copies x.log).length = (sources x.log).length := by
  simpa using congrArg List.length (sourced h)

-- What has been copied and not yet classified.
def pending (p : Phase) (i : Inspection) : List Image :=
  match p with
  | .copied | .ran | .parsing _ | .stored => [i.nnomInputData]
  | _ => []

def Phase.alive : Phase → Bool
  | .crashed _ => false
  | _ => true

theorem inputs_pending (h : (desk w).Reach p x) :
    inputs x.log <+: copies x.log ∧
      (p.alive = true → inputs x.log ++ pending p x.insp = copies x.log) := by
  induction h with
  | init => exact ⟨List.prefix_rfl, fun _ => rfl⟩
  | own _ hs ih =>
    have hs' : RecvStep w _ _ _ _ := hs
    cases hs' with
    | copy =>
      have he := ih.2 rfl
      simp only [pending, List.append_nil] at he
      simp [copies_snoc, inputs_snoc, Event.copy?, Event.input?, pending, he]
    | classify =>
      have he := ih.2 rfl
      simp only [pending] at he
      simp [copies_snoc, inputs_snoc, Event.copy?, Event.input?, pending, he]
    | overrun | saveFault | reportFault => exact ⟨ih.1, nofun⟩
    | poll | skip | modelRun | readTotal | store | pass | advance | readAgain | wait | readLast
    | clearCounter | clearLast | clearRound => exact ⟨ih.1, fun _ => ih.2 rfl⟩
    | take | openFails | opens | save | report | upload | rest =>
      rw [Desk.note_log, inputs_quiet rfl, copies_quiet rfl]
      exact ⟨ih.1, fun _ => ih.2 rfl⟩
  | env _ hs ih =>
    have hs' : EnvStep _ _ := hs
    cases hs' with
    | counted | announced | committed =>
      rw [Desk.note_log, inputs_quiet rfl, copies_quiet rfl]
      exact ⟨ih.1, fun ha => ih.2 ha⟩

-- Without an overwrite at most one frame waits, and it is the last one committed.
def Phase.waits (p : Phase) (x : Desk) : Bool := p.beforeCopy || x.ready

structure InStep (p : Phase) (x : Desk) : Prop where
  count : (commits x.log).length = (sources x.log).length + if p.waits x then 1 else 0
  order : sources x.log = List.range (sources x.log).length
  took : p.beforeCopy = true → (x.ready = true ↔ p = .taking)

theorem inStep_quiet {p q : Phase} {x y : Desk} (h : InStep p x) (hp : q.beforeCopy = p.beforeCopy)
    (hr : y.ready = x.ready) (hq : q = .taking ↔ p = .taking)
    (hc : commits y.log = commits x.log) (hs : sources y.log = sources x.log) : InStep q y := by
  refine ⟨?_, ?_, ?_⟩
  · rw [hc, hs, h.count, Phase.waits, Phase.waits, hp, hr]
  · rw [hs]
    exact h.order
  · rw [hp, hr, hq]
    exact h.took

theorem inStep (h : (desk w).Reach p x) (hx : NoOverwrite x.log) : InStep p x := by
  refine Machine.Reach.every (fun _ _ _ _ => RecvStep.log_prefix) (fun _ _ => EnvStep.log_prefix)
    ⟨rfl, rfl, nofun⟩ ?_ ?_ h hx
  · rintro p x q y - ih hs -
    have hs' : RecvStep w p x q y := hs
    cases hs' with
    | poll ready =>
      exact ⟨by simpa [Phase.waits, Phase.beforeCopy, ready] using ih.count, ih.order,
        fun _ => by simp [ready]⟩
    | take =>
      refine ⟨?_, ?_, fun _ => by simp⟩
      · simpa [Phase.waits, Phase.beforeCopy, commits_snoc, sources_snoc, sourcesStep,
          Event.commit?] using ih.count
      · simpa [sources_snoc, sourcesStep] using ih.order
    | copy =>
      have hready : x.ready = false := by simpa using ih.took rfl
      have hcount : (commits x.log).length = (sources x.log).length + 1 := by
        simpa [Phase.waits, Phase.beforeCopy] using ih.count
      refine ⟨?_, ?_, nofun⟩
      · simp [Phase.waits, Phase.beforeCopy, hready, commits_snoc, Event.commit?, sources_snoc,
          sourcesStep, hcount]
      · simp only [Desk.note_log, sources_snoc, sourcesStep, hcount, List.length_append,
          List.length_singleton, List.range_succ, ← ih.order, Nat.add_sub_cancel]
    | skip | modelRun | readTotal | store | overrun | pass | advance | readAgain | wait | readLast
    | saveFault | reportFault | clearCounter | clearLast | clearRound =>
      exact inStep_quiet ih rfl rfl (by simp) rfl rfl
    | classify | openFails | opens | save | report | upload | rest =>
      exact inStep_quiet ih rfl rfl (by simp) (commits_quiet rfl) (sources_quiet rfl)
  · rintro p x y - ih hs hy
    have hs' : EnvStep x y := hs
    cases hs' with
    | counted | announced =>
      exact inStep_quiet ih rfl rfl Iff.rfl (commits_quiet rfl) (sources_quiet rfl)
    | committed image =>
      have hall := (every_snoc.mp hy).2 image rfl
      have hwaits : p.waits x = false := by
        by_contra hw
        have hcount := ih.count
        rw [if_pos (by simpa using hw)] at hcount
        have hmem := hall (sources x.log).length (by omega)
        rw [ih.order, List.mem_range] at hmem
        simp at hmem
      have hcount : (commits x.log).length = (sources x.log).length := by
        simpa [hwaits] using ih.count
      obtain ⟨hb, -⟩ := Bool.or_eq_false_iff.mp hwaits
      refine ⟨?_, ?_, fun h => absurd (hb.symm.trans h) Bool.false_ne_true⟩
      · simp [Phase.waits, commits_snoc, Event.commit?, sources_snoc, sourcesStep, hcount]
      · simpa [sources_snoc, sourcesStep] using ih.order

theorem copies_commits (h : (desk w).Reach p x) (hx : NoOverwrite x.log) :
    copies x.log <+: commits x.log := by
  have hs : Sourced x.log := sourced h
  rw [Sourced, (inStep h hx).order, ← length_copies h] at hs
  refine List.prefix_iff_getElem?.mpr fun i hi => ?_
  have hget := congrArg (fun l => l[i]?) hs
  simpa [hi] using hget.symm

end

theorem handover_exactly_once (w : World) (pin : Pin → Bool) (found : MotorId → Bool)
    (c : Config w) (h : Platform.Reach (start w pin found) c) :
    (∀ (k : Nat) (image : Image), (inputs c.state.history)[k]? = some image →
      ∃ i, (sources c.state.history)[k]? = some i ∧ (commits c.state.history)[i]? = some image) ∧
    (c.blocked Task.recv → c.state.rx.frameReady = false →
      (inputs c.state.history).length = (sources c.state.history).length ∧
      (sources c.state.history = List.range (commits c.state.history).length ↔
        NoOverwrite c.state.history)) := by
  obtain ⟨p, hp⟩ := reach_desk h
  have hsourced : Sourced c.state.history := sourced hp
  have hlength : (copies c.state.history).length = (sources c.state.history).length :=
    length_copies hp
  refine ⟨?_, ?_⟩
  · intro k image hk
    obtain ⟨rest, hrest⟩ := (inputs_pending hp).1
    have hcopy : (copies c.state.history)[k]? = some image := by
      have hlt := (List.getElem?_eq_some_iff.mp hk).1
      have hcopies : copies c.state.history = inputs c.state.history ++ rest := hrest.symm
      rw [hcopies, List.getElem?_append_left hlt, hk]
    have hmap := congrArg (fun l => l[k]?) hsourced
    simp only [List.getElem?_map, hcopy, Option.map_some] at hmap
    obtain ⟨i, hi, hc⟩ := Option.map_eq_some_iff.mp hmap.symm
    exact ⟨i, hi, hc⟩
  · intro hb hr
    have hidle := reach_desk_idle h hb
    have hinputs : inputs c.state.history ++ [] = copies c.state.history :=
      (inputs_pending hidle).2 rfl
    refine ⟨by rw [← hlength, ← hinputs, List.append_nil], ?_, ?_⟩
    · intro hs
      by_contra hover
      obtain ⟨i, hi, hmem⟩ := lost_of_overwrite hover
      rw [hs, List.mem_range] at hmem
      omega
    · intro hover
      have hin := inStep hidle hover
      have hready : c.state.desk.ready = false := hr
      have hcount : (commits c.state.history).length = (sources c.state.history).length := by
        have hc := hin.count
        rwa [Phase.waits, hready] at hc
      rw [hcount]
      exact hin.order

theorem handover_exactly_once_two_frames :
    ∃ c : Config shadeWorld, Platform.Reach (start shadeWorld (fun _ => true) fun _ => true) c ∧
      inputs c.state.history = [plain 1, plain 3] ∧ sources c.state.history = [0, 1] ∧
      NoOverwrite c.state.history := by
  obtain ⟨c, h, hrest⟩ :=
    (resting_start shadeWorld (fun _ => true) fun _ => true).frames [1, 3] (by decide) (by decide)
  have hlog : c.state.history = (Desk.init.frames shadeWorld [1, 3]).log :=
    congrArg Desk.log hrest.desk
  have hready : c.state.rx.frameReady = false := congrArg Desk.ready hrest.desk
  have hsources : sources c.state.history = [0, 1] := by
    rw [hlog]
    rfl
  obtain ⟨-, hiff⟩ := (handover_exactly_once _ _ _ c h).2 hrest.recv hready
  have hall : sources c.state.history = List.range (commits c.state.history).length := by
    rw [hlog]
    rfl
  exact ⟨c, h, by rw [hlog]; rfl, hsources, hiff.mp hall⟩

theorem handover_loses_frame :
    ∃ c : Config blindWorld, Platform.Reach (start blindWorld (fun _ => true) fun _ => true) c ∧
      c.blocked Task.recv ∧ c.state.rx.frameReady = false ∧
      commits c.state.history = [plain 0, plain 1] ∧ inputs c.state.history = [plain 1] ∧
      sources c.state.history ≠ List.range (commits c.state.history).length := by
  obtain ⟨buf, cnt, hfirst⟩ := reach_frame (p := List.replicate 1024 0)
    (Platform.Reach.refl (start blindWorld (fun _ => true) fun _ => true)) rfl
    List.length_replicate
  obtain ⟨buf', cnt', hsecond⟩ := reach_frame (p := List.replicate 1024 1) hfirst rfl
    List.length_replicate
  have h := hsecond.trans (Platform.Reach.of_entry (i := Task.recv) (x := ()) rfl rfl)
  have hne : [1] ≠ [0, 1] := by decide
  exact ⟨_, h, rfl, rfl, rfl, rfl, hne⟩

end FabricInspection
