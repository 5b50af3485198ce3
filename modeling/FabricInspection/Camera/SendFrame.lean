import FabricInspection.Receiver.Callback
import Mathlib.Data.Rat.Floor
import Mathlib.Data.List.FinRange

namespace FabricInspection.Camera

abbrev W : Nat := 32
abbrev H : Nat := 32
def frameTail1 : UInt8 := 0x5D
def frameTail2 : UInt8 := 0x5B

-- img.get_pixel(x, y) of the 32 by 32 grayscale file.
abbrev Gray := Fin W → Fin H → UInt8

-- Ties go to the even neighbour.
def pyRound (q : ℚ) : Int :=
  if q - ⌊q⌋ < 1 / 2 then ⌊q⌋
  else if 1 / 2 < q - ⌊q⌋ then ⌊q⌋ + 1
  else if ⌊q⌋ % 2 = 0 then ⌊q⌋ else ⌊q⌋ + 1

def mapped (p : UInt8) : Int := max 0 (min 127 (pyRound ((p.toNat : ℚ) * 127 / 255)))

def rowMajor (img : Gray) : List UInt8 :=
  (List.finRange H).flatMap fun y => (List.finRange W).map fun x => img x y

def frameData (img : Gray) : List Int :=
  (List.finRange H).flatMap fun y => (List.finRange W).map fun x => mapped (img x y)

def bytes (data : List Int) : List UInt8 := data.map fun v => UInt8.ofNat v.toNat

-- One uart1.write: how many bytes left the port (`none`: all of them) and whether it raised.
structure Write where
  sent : Option Nat
  raises : Bool

-- What the calls inside send_frame do: the image load, the drain loop, the three writes.
structure Attempt where
  load : Option Gray
  drainRaises : Bool
  head : Write
  data : Write
  tail : Write

def Write.ok : Write := ⟨none, false⟩

def Attempt.clean (img : Gray) : Attempt := ⟨some img, false, .ok, .ok, .ok⟩

def Write.put (w : Write) (bs next : List UInt8) : List UInt8 :=
  let out := match w.sent with
    | none => bs
    | some k => bs.take k
  if w.raises then out else out ++ next

def sendFrame (a : Attempt) : List UInt8 :=
  match a.load with
  | none => []
  | some img =>
    let data := frameData img
    if data.length ≠ imageSize then []
    else if a.drainRaises then []
    else a.head.put [frameHead] (a.data.put (bytes data) (a.tail.put [frameTail1, frameTail2] []))

theorem frameData_eq (img : Gray) : frameData img = (rowMajor img).map mapped := by
  simp only [frameData, rowMajor, List.map_flatMap, List.map_map, Function.comp_def]

@[simp] theorem rowMajor_length (img : Gray) : (rowMajor img).length = 1024 := by
  simp [rowMajor, List.length_flatMap, W, H]

@[simp] theorem frameData_length (img : Gray) : (frameData img).length = 1024 := by
  simp [frameData_eq]

theorem mapped_bounds (p : UInt8) : 0 ≤ mapped p ∧ mapped p ≤ 127 := by
  unfold mapped
  omega

def payload (img : Gray) : List UInt8 := bytes (frameData img)

@[simp] theorem payload_length (img : Gray) : (payload img).length = 1024 := by
  simp [payload, bytes]

theorem payload_toNat (img : Gray) :
    (payload img).map (fun b => (b.toNat : Int)) = (rowMajor img).map mapped := by
  simp only [payload, bytes, frameData_eq, List.map_map]
  apply List.map_congr_left
  intro p _
  have hb := mapped_bounds p
  simp only [Function.comp_apply, UInt8.toNat_ofNat']
  omega

theorem payload_le {img : Gray} {b : UInt8} (hb : b ∈ payload img) : b ≤ 127 := by
  have hm : (b.toNat : Int) ∈ (rowMajor img).map mapped := by
    rw [← payload_toNat]
    exact List.mem_map.mpr ⟨b, hb, rfl⟩
  obtain ⟨p, -, hp⟩ := List.mem_map.mp hm
  have := mapped_bounds p
  rw [UInt8.le_iff_toNat_le]
  change b.toNat ≤ 127
  omega

theorem sendFrame_clean (img : Gray) :
    sendFrame (.clean img) = 0xA6 :: (payload img ++ [0x5D, 0x5B]) := by
  simp [sendFrame, Attempt.clean, Write.put, Write.ok, payload, frameHead, frameTail1, frameTail2]

end FabricInspection.Camera
