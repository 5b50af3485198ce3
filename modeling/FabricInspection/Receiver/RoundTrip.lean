import FabricInspection.Receiver.Refinement
import FabricInspection.Camera.SendFrame

namespace FabricInspection.Receiver
open Camera

def clampImage (p : List UInt8) : Image := Vector.ofFn fun j => min (p.getD j.val 0) 127

theorem windowImage_eq (b : List UInt8) (n : Nat) :
    windowImage b n = clampImage ((b.drop (n - 1026)).take 1024) := by
  apply Vector.ext
  intro i hi
  simp only [windowImage, clampImage, Vector.getElem_ofFn]
  rw [List.getD_eq_getElem?_getD, List.getD_eq_getElem?_getD, List.getElem?_take_of_lt hi,
    List.getElem?_drop]

theorem clampImage_map {p : List UInt8} (hp : p.length = 1024) :
    (clampImage p).toList = p.map (min · 127) := by
  apply List.ext_getElem
  · simp [hp]
  · intro i h₁ h₂
    have hi : i < p.length := by simpa using h₂
    simp only [clampImage, Vector.toList_ofFn, List.getElem_ofFn, List.getElem_map]
    rw [List.getD_eq_getElem?_getD, List.getElem?_eq_getElem hi, Option.getD_some]

theorem map_clamped {p : List UInt8} (hle : ∀ b ∈ p, b ≤ 127) : p.map (min · 127) = p :=
  have hid (b : UInt8) (hb : b ∈ p) : min b 127 = id b := by
    rw [← clampVal_eq, clampVal, valMax, if_neg (UInt8.not_lt.mpr (hle b hb)), id]
  (List.map_congr_left hid).trans (List.map_id p)

theorem clampImage_toList {p : List UInt8} (hp : p.length = 1024) (hle : ∀ b ∈ p, b ≤ 127) :
    (clampImage p).toList = p := by
  rw [clampImage_map hp, map_clamped hle]

-- The tail of a whole frame is found at its own place and at no earlier one.
theorem firstTail_payload {p : List UInt8} (hp : p.length = 1024) (rest : List UInt8) :
    firstTail (p ++ 0x5D :: 0x5B :: rest) = some 1026 := by
  rw [firstTail_some_iff]
  refine ⟨⟨Nat.le_refl _, ?_, ?_⟩, fun m hm h => absurd h.1 (by omega)⟩
  · rw [List.getElem?_append_right (by omega)]
    simp [hp]
  · rw [List.getElem?_append_right (by omega)]
    simp [hp]

theorem reference_payload {p : List UInt8} (hp : p.length = 1024) (rest : List UInt8) :
    reference (0xA6 :: (p ++ 0x5D :: 0x5B :: rest)) =
      (clampImage p :: (reference rest).1, (reference rest).2) := by
  have himage : windowImage (p ++ 0x5D :: 0x5B :: rest) 1026 = clampImage p := by
    rw [windowImage_eq, Nat.sub_self, List.drop_zero, List.take_left' hp]
  have hdrop : (p ++ 0x5D :: 0x5B :: rest).drop 1026 = rest := by
    rw [List.drop_append, hp, List.drop_of_length_le (by omega)]
    rfl
  rw [reference_head, frame, firstTail_payload hp]
  simp only [himage, hdrop]

-- The bytes of the frames as one stream, and the images they carry.
def wire (imgs : List Gray) : List UInt8 := (imgs.map fun img => sendFrame (.clean img)).flatten

def scaled (img : Gray) : Image := clampImage (payload img)

theorem wire_cons (img : Gray) (imgs : List Gray) (rest : List UInt8) :
    wire (img :: imgs) ++ rest = 0xA6 :: (payload img ++ 0x5D :: 0x5B :: (wire imgs ++ rest)) := by
  simp [wire, sendFrame_clean]

theorem reference_wire (imgs : List Gray) (rest : List UInt8) :
    reference (wire imgs ++ rest) = (imgs.map scaled ++ (reference rest).1, (reference rest).2) := by
  induction imgs with
  | nil => simp [wire]
  | cons img imgs ih =>
    rw [wire_cons, reference_payload (payload_length img), ih]
    simp [scaled]

theorem scaled_toList (img : Gray) : (scaled img).toList = payload img :=
  clampImage_toList (payload_length img) fun _ => payload_le

theorem decode_encode (r : Receiver) (hr : r.frameStart = false) (imgs : List Gray)
    (chunks : List (List UInt8)) (hc : ∀ c ∈ chunks, c.length ≤ 64)
    (hs : chunks.flatten = (imgs.map fun img => sendFrame (.clean img)).flatten) :
    ∃ r' images, r.uartRxCallbacks chunks = .ok (r', images) ∧
      Mailed r chunks.flatten r' images ∧ r'.frameStart = false ∧
      (images.map fun image => image.toList.map fun b => (b.toNat : Int)) =
        imgs.map fun img => (rowMajor img).map fun p =>
          max 0 (min 127 (pyRound ((p.toNat : ℚ) * 127 / 255))) := by
  obtain ⟨r', hr', ht, -⟩ := uartRxBytes_idle hr chunks.flatten
  have href : reference chunks.flatten = (imgs.map scaled, none) := by
    have := reference_wire imgs []
    rw [List.append_nil, reference_nil, List.append_nil] at this
    rw [hs]
    exact this
  rw [href] at hr' ht
  refine ⟨r', imgs.map scaled, by rw [uartRxCallbacks_eq hc, hr'], mailed hr', ht, ?_⟩
  rw [List.map_map]
  apply List.map_congr_left
  intro img _
  rw [Function.comp_apply, scaled_toList, payload_toNat]
  rfl

theorem bytewise_small (s : List UInt8) : ∀ c ∈ s.map (fun b => [b]), c.length ≤ 64 := by
  intro c hc
  obtain ⟨b, -, rfl⟩ := List.mem_map.mp hc
  simp

theorem bytewise_flatten (s : List UInt8) : (s.map fun b => [b]).flatten = s := by
  rw [← List.flatMap_def, List.flatMap_singleton']

def slopeImage : Gray := fun x y => UInt8.ofNat (x.val * y.val)

theorem decode_encode_bytewise :
    ∃ r' image, init.uartRxCallbacks ((sendFrame (.clean slopeImage)).map fun b => [b]) =
        .ok (r', [image]) ∧ r'.frameReady = true ∧
      (r'.imageBuffer.toList.map fun b => (b.toNat : Int)) =
        (rowMajor slopeImage).map fun p =>
          max 0 (min 127 (pyRound ((p.toNat : ℚ) * 127 / 255))) := by
  have hs : ((sendFrame (.clean slopeImage)).map fun b => [b]).flatten =
      ([slopeImage].map fun img => sendFrame (.clean img)).flatten := by
    rw [bytewise_flatten]
    simp
  obtain ⟨r', images, hr, hmail, -, himages⟩ :=
    decode_encode init rfl [slopeImage] _ (bytewise_small _) hs
  obtain ⟨image, rfl⟩ : ∃ image, images = [image] :=
    List.length_eq_one_iff.mp (by simpa using congrArg List.length himages)
  have hbuffer : r'.imageBuffer = image := hmail.buffer
  refine ⟨r', image, hr, hmail.ready, ?_⟩
  rw [hbuffer]
  exact (List.cons.inj himages).1

end FabricInspection.Receiver
