import FabricInspection.Board.System
import FabricInspection.Receiver.Mailbox
import FabricInspection.Receiver.RoundTrip

namespace FabricInspection

open Concurrency (Platform)

def frameBytes (p : List UInt8) : List UInt8 := frameHead :: (p ++ frameTailSeq)

namespace Receiver

theorem uartRxBytes_frame {r : Receiver} (hr : r.frameStart = false) {p : List UInt8}
    (hp : p.length = 1024) :
    ∃ r', r.uartRxBytes (frameBytes p) = .ok (r', [clampImage p]) ∧ r'.frameStart = false ∧
      r'.frameReady = true ∧ r'.imageBuffer = clampImage p := by
  obtain ⟨r', h, ht, -⟩ := uartRxBytes_idle hr (frameBytes p)
  have href : reference (frameBytes p) = ([clampImage p], none) := by
    have hf := reference_payload hp []
    rw [reference_nil] at hf
    exact hf
  rw [href] at h ht
  obtain ⟨hready, hbuf⟩ := uartRxBytes_mail h
  refine ⟨r', h, ht, ?_, ?_⟩
  · rw [hready]
    exact Bool.or_true _
  · rw [hbuf]
    rfl

end Receiver

section
variable {w : World}

theorem reach_bytes (c : Config w) {ds : List UInt8} {rx : Receiver} {images : List Image}
    (h : c.state.rx.uartRxBytes ds = .ok (rx, images)) :
    Platform.Reach c { c with
      state := { c.state with rx := rx, log := c.state.log ++ images.map .committed } } := by
  induction ds generalizing c images with
  | nil =>
    cases h
    simpa using Platform.Reach.refl c
  | cons d ds ih =>
    cases hd : c.state.rx.uartRxByte d with
    | error f => simp [Receiver.uartRxBytes, hd, bind, Except.bind] at h
    | ok p =>
      obtain ⟨rx₁, image⟩ := p
      rw [Receiver.uartRxBytes_cons hd] at h
      cases hs : rx₁.uartRxBytes ds with
      | error f => simp [hs, Except.map] at h
      | ok q =>
        simp only [hs, Except.map, Except.ok.injEq, Prod.mk.injEq] at h
        obtain ⟨rfl, rfl⟩ := h
        have hstep : Platform.step c (.interrupt (.uart3 d)) =
            some { c with state := c.state.received rx₁ image } := by
          simp [Platform.step, inspector, Board.interrupt, hd, Except.map]
        have hrx : (c.state.received rx₁ image).rx = rx₁ := by cases image <;> rfl
        refine (Platform.Reach.of_step hstep).trans ?_
        have hrest := ih { c with state := c.state.received rx₁ image } (by rw [hrx]; exact hs)
        cases image with
        | none => exact hrest
        | some image => simpa [Board.received, List.append_assoc] using hrest

theorem reach_frame {b c : Config w} (hc : Platform.Reach b c) (hr : c.state.rx.frameStart = false)
    {p : List UInt8} (hp : p.length = 1024) :
    ∃ buf cnt, Platform.Reach b { c with
      state := { c.state with
        rx := ⟨buf, cnt, false, Receiver.clampImage p, true⟩
        log := c.state.log ++ [.committed (Receiver.clampImage p)] } } := by
  obtain ⟨⟨buf, cnt, start, image, ready⟩, h, hs, hready, himage⟩ :=
    Receiver.uartRxBytes_frame hr hp
  simp only at hs hready himage
  subst hs hready himage
  have hreach := reach_bytes c h
  rw [List.map_singleton] at hreach
  exact ⟨buf, cnt, hc.trans hreach⟩

end

-- An image of one colour.
def plain (v : UInt8) : Image := Receiver.clampImage (List.replicate 1024 v)

-- The class of a plain image is its colour.
def shadeWorld : World where
  modelRun image := Vector.ofFn fun c => if image[0].toNat = c.val then 1 else 0
  openOk _ := true

theorem plain_getElem (v : UInt8) {i : Nat} (hi : i < imageSize) : (plain v)[i] = min v 127 := by
  have hv : (List.replicate 1024 v).getD i 0 = v := by
    rw [List.getD_eq_getElem _ _ (hi.trans_eq List.length_replicate.symm), List.getElem_replicate]
  simp only [plain, Receiver.clampImage, Vector.getElem_ofFn, hv]

theorem modelRun_plain (v : UInt8) : shadeWorld.modelRun (plain v) =
    Vector.ofFn fun c : DefectClass => if (min v 127).toNat = c.val then 1 else 0 := by
  simp only [shadeWorld, plain_getElem]

end FabricInspection
