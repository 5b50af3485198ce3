import FabricInspection.Receiver.Mailbox
import FabricInspection.Receiver.Reference
import Mathlib.Data.List.DropRight

namespace FabricInspection.Receiver

-- What the static variables hold between two bytes.
def Tracks (r : Receiver) : Option (List UInt8) → Prop
  | none => r.frameStart = false
  | some b => r.frameStart = true ∧ r.recvCnt = min b.length 1025 ∧
      ∀ i < r.recvCnt, r.recvBuf.toList[i]? = b[b.length - r.recvCnt + i]?

theorem tracks_init : init.Tracks none := rfl

theorem tracks_start (r : Receiver) : r.start.Tracks (some []) :=
  ⟨rfl, rfl, fun i hi => absurd hi (Nat.not_lt_zero i)⟩

-- Before the tail check the buffer holds one byte more than between two bytes.
structure Filled (r : Receiver) (b : List UInt8) : Prop where
  start : r.frameStart = true
  cnt : r.recvCnt = min b.length 1026
  buf : ∀ i < r.recvCnt, r.recvBuf.toList[i]? = b[b.length - r.recvCnt + i]?

theorem filled_append {r : Receiver} {b : List UInt8} (h : r.Tracks (some b)) (d : UInt8) :
    (r.append d).Filled (b ++ [d]) := by
  obtain ⟨hs, hc, hb⟩ := h
  have hlt : r.recvCnt < recvBufSize := by simp only [recvBufSize]; omega
  have hlen : (b ++ [d]).length = b.length + 1 := by simp
  simp only [append, dif_pos hlt]
  refine ⟨hs, by simp only [hlen, hc]; omega, ?_⟩
  intro i hi
  have hi₁ : i < r.recvCnt + 1 := hi
  simp only [Vector.toList_set, List.getElem?_set, Vector.length_toList, hlen]
  by_cases hi' : r.recvCnt = i
  · subst hi'
    rw [if_pos rfl, if_pos hlt, List.getElem?_append_right (by omega)]
    have : b.length + 1 - (r.recvCnt + 1) + r.recvCnt - b.length = 0 := by omega
    rw [this]
    rfl
  · rw [if_neg hi', hb i (by omega), List.getElem?_append_left (by omega)]
    congr 1
    omega

theorem Filled.byte {r : Receiver} {b : List UInt8} (h : r.Filled b) {i : Nat}
    (hi : i < r.recvCnt) (hi' : i < recvBufSize) :
    b[b.length - r.recvCnt + i]? = some r.recvBuf[i] := by
  rw [← h.buf i hi, List.getElem?_eq_getElem (by simpa using hi')]
  simp

theorem Filled.tailMatch {r : Receiver} {b : List UInt8} (h : r.Filled b)
    (hc : r.recvCnt = 1026) :
    r.tailMatch (r.recvCnt - frameTailSeqLen) frameTailSeq =
      .ok (decide (TailAt b b.length)) := by
  have hb : 1026 ≤ b.length := by have := h.cnt; omega
  have h0 := h.byte (i := 1024) (by omega) (by decide)
  have h1 := h.byte (i := 1025) (by omega) (by decide)
  rw [show b.length - r.recvCnt + 1024 = b.length - 2 by omega] at h0
  rw [show b.length - r.recvCnt + 1025 = b.length - 1 by omega] at h1
  have ht : TailAt b b.length ↔ r.recvBuf[1024] = 0x5D ∧ r.recvBuf[1025] = 0x5B := by
    simp only [TailAt, hb, h0, h1, Option.some.injEq, true_and]
  simp only [hc, frameTailSeqLen, frameTailSeq, Receiver.tailMatch, recvBufSize,
    Nat.reduceSub, Nat.reduceAdd, Nat.reduceLT, dif_pos]
  by_cases ha : r.recvBuf[1024] = 0x5D <;> by_cases hb' : r.recvBuf[1025] = 0x5B <;>
    simp [ht, ha, hb']

theorem clampVal_eq (val : UInt8) : clampVal val = min val 127 := by
  change (if val > 127 then 127 else val) = if val ≤ 127 then val else 127
  by_cases h : val ≤ 127
  · rw [if_pos h, if_neg (UInt8.not_lt.mpr h)]
  · rw [if_neg h, if_pos (UInt8.not_le.mp h)]

theorem Filled.image {r : Receiver} {b : List UInt8} (h : r.Filled b) (hc : r.recvCnt = 1026) :
    r.image = windowImage b b.length := by
  have hb : 1026 ≤ b.length := by have := h.cnt; omega
  unfold Receiver.image windowImage
  congr 1
  funext j
  have hj : j.val < 1024 := j.isLt
  have hbyte := h.byte (i := j.val) (by omega) (by simp only [recvBufSize]; omega)
  rw [hc] at hbyte
  rw [clampVal_eq, List.getD_eq_getElem?_getD, hbyte, Option.getD_some]

theorem slide_byte (r : Receiver) {i : Nat} (h : i + 1 < recvBufSize) :
    r.slide.recvBuf.toList[i]? = some r.recvBuf[i + 1] := by
  have hi : i < recvBufSize := by omega
  simp only [Receiver.slide, Vector.toList_ofFn]
  rw [List.getElem?_ofFn, dif_pos hi, dif_pos h]

theorem Filled.slide {r : Receiver} {b : List UInt8} (h : r.Filled b) (hc : r.recvCnt = 1026) :
    r.slide.Tracks (some b) := by
  have hb : 1026 ≤ b.length := by have := h.cnt; omega
  have hs : r.slide.frameStart = true := by simp only [Receiver.slide, h.start]
  have hcnt : r.slide.recvCnt = 1025 := by simp only [Receiver.slide, hc]
  refine ⟨hs, by omega, ?_⟩
  intro i hi
  have hlt : i + 1 < recvBufSize := by simp only [recvBufSize]; omega
  have hbyte := h.byte (i := i + 1) (by omega) hlt
  have hidx : b.length - r.slide.recvCnt + i = b.length - r.recvCnt + (i + 1) := by omega
  rw [slide_byte r hlt, hidx, hbyte]

theorem Filled.tracks {r : Receiver} {b : List UInt8} (h : r.Filled b) (hc : r.recvCnt < 1026) :
    r.Tracks (some b) := ⟨h.start, by have := h.cnt; omega, h.buf⟩

theorem uartRxByte_step {r : Receiver} {h : Option (List UInt8)} (ht : r.Tracks h) (d : UInt8) :
    ∃ r', r.uartRxByte d = .ok (r', (historyStep h d).2) ∧ r'.Tracks (historyStep h d).1 ∧
      (r.recvCnt ≤ 1025 → r'.recvCnt ≤ 1025) := by
  cases h with
  | none =>
    have hs : r.frameStart = false := ht
    by_cases hd : d = 0xA6
    · exact ⟨r.start, by simp [uartRxByte, hs, historyStep, hd, frameHead],
        by simpa [historyStep, hd] using r.tracks_start, fun _ => Nat.zero_le _⟩
    · exact ⟨r, by simp [uartRxByte, hs, historyStep, hd, frameHead],
        by simpa [historyStep, hd] using ht, id⟩
  | some b =>
    have hf := filled_append ht d
    have hlen : (b ++ [d]).length = b.length + 1 := by simp
    simp only [uartRxByte, ht.1, Bool.true_eq_false, if_false]
    by_cases hc : (r.append d).recvCnt = 1026
    · rw [if_pos (by simp only [imageSize, frameTailSeqLen, hc]; omega), hf.tailMatch hc]
      by_cases htail : TailAt (b ++ [d]) (b.length + 1)
      · refine ⟨(r.append d).commit, ?_, by simp only [historyStep, if_pos htail]; rfl,
          fun _ => Nat.zero_le _⟩
        simp [historyStep, htail, hf.image hc, bind, Except.bind]
      · refine ⟨(r.append d).slide, ?_, by simpa only [historyStep, if_neg htail] using hf.slide hc,
          fun _ => by simp only [slide, hc]; omega⟩
        simp [historyStep, htail, bind, Except.bind]
    · have hlt : (r.append d).recvCnt < 1026 := by have := hf.cnt; omega
      have hno : ¬ TailAt (b ++ [d]) (b.length + 1) := by
        intro hx
        have := hf.cnt
        have := hx.1
        omega
      refine ⟨r.append d, ?_, by simpa only [historyStep, if_neg hno] using hf.tracks hlt,
        fun _ => by omega⟩
      rw [if_neg (by simp only [imageSize, frameTailSeqLen]; omega)]
      simp [historyStep, hno]

theorem uartRxBytes_resume {r : Receiver} {h : Option (List UInt8)} (ht : r.Tracks h)
    (hn : NoTail h) (s : List UInt8) :
    ∃ r', r.uartRxBytes s = .ok (r', (resume h s).1) ∧ r'.Tracks (resume h s).2 ∧
      (r.recvCnt ≤ 1025 → r'.recvCnt ≤ 1025) := by
  induction s generalizing r h with
  | nil => exact ⟨r, by simp [uartRxBytes, resume_nil hn], by simpa [resume_nil hn] using ht, id⟩
  | cons d s ih =>
    obtain ⟨r₁, h₁, ht₁, hb₁⟩ := uartRxByte_step ht d
    obtain ⟨r₂, h₂, ht₂, hb₂⟩ := ih ht₁ (historyStep_noTail hn d)
    refine ⟨r₂, ?_, by simpa only [resume_cons hn] using ht₂, hb₂ ∘ hb₁⟩
    rw [uartRxBytes_cons h₁, h₂, resume_cons hn]
    rfl

theorem uartRxBytes_idle {r : Receiver} (ht : r.frameStart = false) (s : List UInt8) :
    ∃ r', r.uartRxBytes s = .ok (r', (reference s).1) ∧ r'.Tracks (reference s).2 ∧
      (r.recvCnt ≤ 1025 → r'.recvCnt ≤ 1025) :=
  uartRxBytes_resume (h := none) ht trivial s

theorem Tracks.window {r : Receiver} {b : List UInt8} (h : r.Tracks (some b)) :
    r.recvBuf.toList.take r.recvCnt = b.drop (b.length - r.recvCnt) := by
  apply List.ext_getElem?
  intro i
  have hc := h.2.1
  by_cases hi : i < r.recvCnt
  · rw [List.getElem?_take_of_lt hi, List.getElem?_drop, h.2.2 i hi]
  · rw [List.getElem?_eq_none (by simp; omega), List.getElem?_eq_none (by simp; omega)]

theorem decoder_refines_reference (chunks : List (List UInt8))
    (hc : ∀ c ∈ chunks, c.length ≤ 64) :
    (∃ r, init.uartRxCallbacks chunks = .ok (r, (reference chunks.flatten).1) ∧
      Mailed init chunks.flatten r (reference chunks.flatten).1) ∧
    ∀ s, s <+: chunks.flatten → ∃ r, init.uartRxBytes s = .ok (r, (reference s).1) ∧
      Mailed init s r (reference s).1 ∧ r.recvCnt ≤ 1025 ∧ r.recvCnt < recvBufSize ∧
      match (reference s).2 with
      | none => r.frameStart = false
      | some b => r.frameStart = true ∧ r.recvCnt = min b.length 1025 ∧
          r.recvBuf.toList.take r.recvCnt = b.drop (b.length - min b.length 1025) := by
  refine ⟨?_, ?_⟩
  · obtain ⟨r, hr, -⟩ := uartRxBytes_idle tracks_init chunks.flatten
    exact ⟨r, by rw [uartRxCallbacks_eq hc, hr], mailed hr⟩
  · intro s _
    obtain ⟨r, hr, ht, hb⟩ := uartRxBytes_idle tracks_init s
    have hle : r.recvCnt ≤ 1025 := hb (Nat.zero_le _)
    refine ⟨r, hr, mailed hr, hle, by simp only [recvBufSize]; omega, ?_⟩
    cases hs : (reference s).2 with
    | none =>
      rw [hs] at ht
      exact ht
    | some b =>
      rw [hs] at ht
      exact ⟨ht.1, ht.2.1, ht.2.1 ▸ ht.window⟩

-- The tail pair stands in the data, one byte too many comes before the tail, and the tail itself is
-- split between two callbacks.
def slid : List UInt8 := 0x5D :: 0x5B :: (List.replicate 1023 0 ++ [0x5D, 0x5B])

theorem slid_append (rest : List UInt8) :
    slid ++ rest = (0x5D :: 0x5B :: List.replicate 1023 0) ++ 0x5D :: 0x5B :: rest := by
  rw [slid, List.cons_append, List.cons_append, List.append_assoc]
  rfl

theorem firstTail_slid (rest : List UInt8) : firstTail (slid ++ rest) = some 1027 := by
  have hlen : (0x5D :: 0x5B :: List.replicate 1023 (0 : UInt8)).length = 1025 := by
    rw [List.length_cons, List.length_cons, List.length_replicate]
  rw [slid_append, firstTail_some_iff]
  refine ⟨⟨by decide, ?_, ?_⟩, ?_⟩
  · rw [List.getElem?_append_right (by rw [hlen]), hlen]
    rfl
  · rw [List.getElem?_append_right (by rw [hlen]; decide), hlen]
    rfl
  · rintro m hm ⟨hn, h0, -⟩
    obtain rfl : m = 1024 + 2 := by omega
    rw [Nat.add_sub_cancel, List.getElem?_append_left (by rw [hlen]; decide),
      List.getElem?_cons_succ, List.getElem?_cons_succ,
      List.getElem?_replicate_of_lt (by decide)] at h0
    exact absurd (Option.some.inj h0) (by decide)

theorem decoder_refines_reference_slid :
    ∃ r, init.uartRxCallbacks ([[0x00, 0xA6, 0x5D, 0x5B]] ++
        List.replicate 31 (List.replicate 33 0) ++ [[0x5D], [0x5B, 0x00]]) =
          .ok (r, [windowImage slid 1027]) ∧
      r.imageBuffer = windowImage slid 1027 ∧ r.frameReady = true ∧ r.imageBuffer[0] = 0x5B := by
  have hflat : ([[0x00, 0xA6, 0x5D, 0x5B]] ++ List.replicate 31 (List.replicate 33 (0 : UInt8)) ++
      [[0x5D], [0x5B, 0x00]]).flatten = 0x00 :: 0xA6 :: (slid ++ [0x00]) := by
    simp [slid, -List.reduceReplicate]
  have href : (reference (0x00 :: 0xA6 :: (slid ++ [0x00]))).1 = [windowImage slid 1027] := by
    have hdrop : (slid ++ [0x00]).drop 1027 = [0x00] :=
      List.drop_left' (by simp [slid, -List.reduceReplicate])
    rw [reference_skip (by decide), reference_head, frame, firstTail_slid]
    simp only [hdrop, reference_skip (show (0x00 : UInt8) ≠ 0xA6 by decide), reference_nil]
    rw [windowImage_append (by decide) (by simp [slid, -List.reduceReplicate])]
  obtain ⟨⟨r, hr, hmail⟩, -⟩ := decoder_refines_reference
    ([[0x00, 0xA6, 0x5D, 0x5B]] ++ List.replicate 31 (List.replicate 33 0) ++ [[0x5D], [0x5B, 0x00]])
    (by decide)
  rw [hflat, href] at hmail
  rw [hflat, href] at hr
  have hbuffer : r.imageBuffer = windowImage slid 1027 := hmail.buffer
  have hfirst : (windowImage slid 1027)[0] = min 0x5B 127 := by
    simp [windowImage, slid, -List.reduceReplicate]
  refine ⟨r, hr, hbuffer, hmail.ready, ?_⟩
  rw [hbuffer, hfirst]
  decide

end FabricInspection.Receiver
