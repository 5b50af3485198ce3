import FabricInspection.Camera.SendFrame
import FabricInspection.Sampling.Grid
import Mathlib.Data.List.Induction

namespace FabricInspection.Camera

open Sampling (Near Spans)

-- A grayscale snapshot of the sensor window.
structure Window where
  width : Nat
  height : Nat
  pixel : Fin width → Fin height → UInt8

namespace Window

def getPixel (img : Window) (x y : Nat) : Option UInt8 :=
  if h : x < img.width ∧ y < img.height then some (img.pixel ⟨x, h.1⟩ ⟨y, h.2⟩) else none

def stepX (img : Window) : Nat := img.width / W

def stepY (img : Window) : Nat := img.height / H

end Window

def setPixel (img : Gray) (p : Fin W × Fin H) (v : UInt8) : Gray :=
  fun x y => if (x, y) = p then v else img x y

theorem setPixel_self (img : Gray) (p : Fin W × Fin H) (v : UInt8) :
    setPixel img p v p.1 p.2 = v := if_pos rfl

theorem setPixel_of_ne (img : Gray) {p q : Fin W × Fin H} (v : UInt8) (h : q ≠ p) :
    setPixel img p v q.1 q.2 = img q.1 q.2 := if_neg h

-- scaled_img next to the pixels of the window it was made from.
structure Scaled where
  image : Gray
  reads : List (Nat × Nat)

def loopOrder : List (Fin W × Fin H) :=
  (List.finRange H).flatMap fun y => (List.finRange W).map fun x => (x, y)

def Window.sample (img : Window) (p : Fin W × Fin H) : Nat × Nat :=
  (p.1 * img.stepX, p.2 * img.stepY)

-- The body of the two loops; set_pixel takes no None.
def scaleStep (img : Window) (s : Scaled) (p : Fin W × Fin H) : Option Scaled := do
  let v ← img.getPixel (img.sample p).1 (img.sample p).2
  some ⟨setPixel s.image p v, s.reads ++ [img.sample p]⟩

def scale (img : Window) : Option Scaled :=
  loopOrder.foldlM (scaleStep img) ⟨fun _ _ => 0, []⟩

-- The blobs, by their centre, that stop the motor for a capture.
def triggers (cx cy : Nat) : Prop := 5 < cx ∧ cx < 53 ∧ 13 < cy ∧ cy < 157

-- A pixel of the window within one step of one the loops read, in both directions.
def Window.NearRead (img : Window) (reads : List (Nat × Nat)) (px py : Nat) : Prop :=
  ∃ r ∈ reads, Near img.stepX px r.1 ∧ Near img.stepY py r.2

def Window.Represented (img : Window) (reads : List (Nat × Nat)) : Prop :=
  ∀ px < img.width, ∀ py < img.height, img.NearRead reads px py

theorem mem_loopOrder (p : Fin W × Fin H) : p ∈ loopOrder := by
  refine List.mem_flatMap.mpr ⟨p.2, List.mem_finRange _, ?_⟩
  exact List.mem_map.mpr ⟨p.1, List.mem_finRange _, rfl⟩

section
variable {img : Window}

theorem sample_inside (hw : W ≤ img.width) (hh : H ≤ img.height) (p : Fin W × Fin H) :
    (img.sample p).1 < img.width ∧ (img.sample p).2 < img.height :=
  ⟨Sampling.sample_lt (by decide) hw p.1.isLt, Sampling.sample_lt (by decide) hh p.2.isLt⟩

theorem scale_fold (hw : W ≤ img.width) (hh : H ≤ img.height) (ps : List (Fin W × Fin H))
    (s : Scaled) : ∃ t, ps.foldlM (scaleStep img) s = some t ∧
      t.reads = s.reads ++ ps.map img.sample ∧
      ∀ p ∈ ps, some (t.image p.1 p.2) = img.getPixel (img.sample p).1 (img.sample p).2 := by
  induction ps using List.reverseRecOn with
  | nil => exact ⟨s, rfl, (List.append_nil _).symm, nofun⟩
  | append_singleton ps p ih =>
    obtain ⟨t, ht, hreads, himage⟩ := ih
    have hin := sample_inside hw hh p
    have hv : img.getPixel (img.sample p).1 (img.sample p).2 =
        some (img.pixel ⟨_, hin.1⟩ ⟨_, hin.2⟩) := dif_pos hin
    refine ⟨⟨setPixel t.image p (img.pixel ⟨_, hin.1⟩ ⟨_, hin.2⟩), t.reads ++ [img.sample p]⟩,
      ?_, ?_, fun q hq => ?_⟩
    · rw [List.foldlM_append, ht]
      simp [scaleStep, hv]
    · rw [hreads, List.map_append, List.append_assoc]
      rfl
    · rcases eq_or_ne q p with rfl | hne
      · rw [hv]
        exact congrArg some (setPixel_self t.image q _)
      · have hold : q ∈ ps := (List.mem_append.mp hq).resolve_right fun h =>
          hne (List.mem_singleton.mp h)
        exact (congrArg some (setPixel_of_ne t.image _ hne)).trans (himage q hold)

theorem scale_reads (hw : W ≤ img.width) (hh : H ≤ img.height) :
    ∃ s, scale img = some s ∧ s.reads = loopOrder.map img.sample ∧
      ∀ x y, some (s.image x y) = img.getPixel (x * img.stepX) (y * img.stepY) := by
  obtain ⟨s, hs, hreads, himage⟩ := scale_fold hw hh loopOrder ⟨fun _ _ => 0, []⟩
  exact ⟨s, hs, hreads, fun x y => himage (x, y) (mem_loopOrder _)⟩

theorem nearRead_iff {px py : Nat} : img.NearRead (loopOrder.map img.sample) px py ↔
    px ≤ W * img.stepX ∧ py ≤ H * img.stepY := by
  rw [← Sampling.near_iff (by decide), ← Sampling.near_iff (by decide)]
  constructor
  · rintro ⟨r, hr, hx, hy⟩
    obtain ⟨p, -, rfl⟩ := List.mem_map.mp hr
    exact ⟨⟨p.1, p.1.isLt, hx⟩, ⟨p.2, p.2.isLt, hy⟩⟩
  · rintro ⟨⟨x, hx, hnx⟩, ⟨y, hy, hny⟩⟩
    exact ⟨_, List.mem_map.mpr ⟨(⟨x, hx⟩, ⟨y, hy⟩), mem_loopOrder _, rfl⟩, hnx, hny⟩

theorem represented_iff (hw : W ≤ img.width) (hh : H ≤ img.height) :
    img.Represented (loopOrder.map img.sample) ↔ img.width % W ≤ 1 ∧ img.height % H ≤ 1 := by
  rw [← Sampling.spans_iff (by decide) hw, ← Sampling.spans_iff (by decide) hh]
  have hw0 : 0 < img.width := lt_of_lt_of_le (by decide) hw
  have hh0 : 0 < img.height := lt_of_lt_of_le (by decide) hh
  constructor
  · intro h
    exact ⟨fun px hx => (Sampling.near_iff (by decide)).mpr (nearRead_iff.mp (h px hx 0 hh0)).1,
      fun py hy => (Sampling.near_iff (by decide)).mpr (nearRead_iff.mp (h 0 hw0 py hy)).2⟩
  · rintro ⟨hx, hy⟩ px hpx py hpy
    exact nearRead_iff.mpr ⟨(Sampling.near_iff (by decide)).mp (hx px hpx),
      (Sampling.near_iff (by decide)).mp (hy py hpy)⟩

end

theorem window_represented_iff (img : Window) (hw : 32 ≤ img.width) (hh : 32 ≤ img.height) :
    ∃ s, scale img = some s ∧
      (∀ x y, some (s.image x y) = img.getPixel (x * img.stepX) (y * img.stepY)) ∧
      (∀ r ∈ s.reads, r.1 < img.width ∧ r.2 < img.height) ∧
      (img.Represented s.reads ↔ img.width % 32 ≤ 1 ∧ img.height % 32 ≤ 1) := by
  obtain ⟨s, hs, hreads, himage⟩ := scale_reads hw hh
  refine ⟨s, hs, himage, fun r hr => ?_, ?_⟩
  · rw [hreads] at hr
    obtain ⟨p, -, rfl⟩ := List.mem_map.mp hr
    exact sample_inside hw hh p
  · rw [hreads]
    exact represented_iff hw hh

theorem window_represented_multiple : ∃ s, scale ⟨64, 96, fun _ _ => 0⟩ = some s ∧
    Window.Represented ⟨64, 96, fun _ _ => 0⟩ s.reads := by
  obtain ⟨s, hs, -, -, hiff⟩ :=
    window_represented_iff ⟨64, 96, fun _ _ => 0⟩ (by decide) (by decide)
  exact ⟨s, hs, hiff.mpr (by decide)⟩

-- The window of init_sensor_detection, where a blob can be centred on pixel (45, 70).
def detectionWindow : Window := ⟨50, 140, fun _ _ => 0⟩

theorem detection_window_left_out : ∃ s, scale detectionWindow = some s ∧
    triggers 45 70 ∧ 45 < detectionWindow.width ∧ 70 < detectionWindow.height ∧
    ¬detectionWindow.NearRead s.reads 45 70 ∧ ¬detectionWindow.Represented s.reads := by
  obtain ⟨s, hs, hreads, -⟩ := scale_reads (show W ≤ detectionWindow.width by decide)
    (show H ≤ detectionWindow.height by decide)
  have hout : ¬detectionWindow.NearRead s.reads 45 70 := by
    rw [hreads, nearRead_iff]
    decide
  refine ⟨s, hs, by simp [triggers], by decide, by decide, hout, fun h => ?_⟩
  exact hout (h 45 (by decide) 70 (by decide))

end FabricInspection.Camera
