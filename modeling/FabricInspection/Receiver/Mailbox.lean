import FabricInspection.Receiver.Callback

namespace FabricInspection.Receiver

theorem uartRxByte_mail {r r' : Receiver} {d : UInt8} {image : Option Image}
    (h : r.uartRxByte d = .ok (r', image)) :
    r'.frameReady = (r.frameReady || image.isSome) ∧
      r'.imageBuffer = image.getD r.imageBuffer := by
  have happend : (r.append d).frameReady = r.frameReady ∧
      (r.append d).imageBuffer = r.imageBuffer := by
    unfold append
    split <;> exact ⟨rfl, rfl⟩
  unfold uartRxByte at h
  split at h
  · split at h
    · cases h
      exact ⟨(Bool.or_false _).symm, rfl⟩
    · cases h
      exact ⟨(Bool.or_false _).symm, rfl⟩
  · simp only at h
    split at h
    · cases ht : (r.append d).tailMatch ((r.append d).recvCnt - frameTailSeqLen) frameTailSeq with
      | error f => simp [ht, bind, Except.bind] at h
      | ok found =>
        cases found with
        | true =>
          simp only [ht, bind, Except.bind, if_true, Except.ok.injEq, Prod.mk.injEq] at h
          obtain ⟨rfl, rfl⟩ := h
          simp [commit]
        | false =>
          simp only [ht, bind, Except.bind, Bool.false_eq_true, if_false, Except.ok.injEq,
            Prod.mk.injEq] at h
          obtain ⟨rfl, rfl⟩ := h
          simpa [slide] using happend
    · cases h
      simpa using happend

theorem uartRxBytes_mail {r r' : Receiver} {ds : List UInt8} {images : List Image}
    (h : r.uartRxBytes ds = .ok (r', images)) :
    r'.frameReady = (r.frameReady || !images.isEmpty) ∧
      r'.imageBuffer = images.getLast?.getD r.imageBuffer := by
  induction ds generalizing r images with
  | nil =>
    cases h
    simp
  | cons d ds ih =>
    cases hd : r.uartRxByte d with
    | error f => simp [uartRxBytes, hd, bind, Except.bind] at h
    | ok p =>
      obtain ⟨r₁, image⟩ := p
      rw [uartRxBytes_cons hd] at h
      cases hs : r₁.uartRxBytes ds with
      | error f => simp [hs, Except.map] at h
      | ok q =>
        obtain ⟨r₂, later⟩ := q
        simp only [hs, Except.map, Except.ok.injEq, Prod.mk.injEq] at h
        obtain ⟨rfl, rfl⟩ := h
        obtain ⟨hr, hb⟩ := ih hs
        obtain ⟨hr₁, hb₁⟩ := uartRxByte_mail hd
        rw [hr, hb, hr₁, hb₁, List.getLast?_append]
        cases image <;> cases later.getLast? <;> simp

-- What a reader finds in image_buffer that clears frame_ready before every byte.
def takenImages : Receiver → List UInt8 → Except Fault (List Image)
  | _, [] => .ok []
  | r, d :: ds => do
    let (r, _) ← ({ r with frameReady := false } : Receiver).uartRxByte d
    let images ← r.takenImages ds
    .ok (if r.frameReady then r.imageBuffer :: images else images)

theorem tailMatch_flag (r : Receiver) (ready : Bool) (pos : Nat) (ts : List UInt8) :
    ({ r with frameReady := ready } : Receiver).tailMatch pos ts = r.tailMatch pos ts := by
  induction ts generalizing pos with
  | nil => rfl
  | cons t ts ih => simp only [tailMatch, ih]

theorem append_flag (r : Receiver) (ready : Bool) (d : UInt8) :
    ({ r with frameReady := ready } : Receiver).append d =
      { r.append d with frameReady := ready } := by
  unfold append
  split <;> rfl

-- The flag only goes along.
theorem uartRxByte_flag {r r' : Receiver} {d : UInt8} {image : Option Image}
    (h : r.uartRxByte d = .ok (r', image)) (ready : Bool) :
    ({ r with frameReady := ready } : Receiver).uartRxByte d =
      .ok ({ r' with frameReady := ready || image.isSome }, image) := by
  unfold uartRxByte at h ⊢
  simp only [append_flag, tailMatch_flag] at h ⊢
  split at h
  · rename_i hs
    rw [if_pos hs]
    split at h
    · rename_i hd
      cases h
      rw [if_pos hd]
      simp [start]
    · rename_i hd
      cases h
      rw [if_neg hd]
      simp
  · rename_i hs
    rw [if_neg hs]
    split at h
    · rename_i hc
      rw [if_pos hc]
      cases ht : (r.append d).tailMatch ((r.append d).recvCnt - frameTailSeqLen) frameTailSeq with
      | error f => simp [ht, bind, Except.bind] at h
      | ok found =>
        rw [ht] at h
        cases found with
        | true =>
          simp only [bind, Except.bind, if_true, Except.ok.injEq, Prod.mk.injEq] at h
          obtain ⟨rfl, rfl⟩ := h
          simp [bind, Except.bind, commit, image]
        | false =>
          simp only [bind, Except.bind, Bool.false_eq_true, if_false, Except.ok.injEq,
            Prod.mk.injEq] at h
          obtain ⟨rfl, rfl⟩ := h
          simp [bind, Except.bind, slide]
    · rename_i hc
      cases h
      rw [if_neg hc]
      simp

theorem takenImages_flag (r : Receiver) (ready : Bool) (ds : List UInt8) :
    ({ r with frameReady := ready } : Receiver).takenImages ds = r.takenImages ds := by
  cases ds <;> rfl

theorem takenImages_eq {r r' : Receiver} {ds : List UInt8} {images : List Image}
    (h : r.uartRxBytes ds = .ok (r', images)) : r.takenImages ds = .ok images := by
  induction ds generalizing r images with
  | nil =>
    cases h
    rfl
  | cons d ds ih =>
    cases hd : r.uartRxByte d with
    | error f => simp [uartRxBytes, hd, bind, Except.bind] at h
    | ok p =>
      obtain ⟨r₁, image⟩ := p
      rw [uartRxBytes_cons hd] at h
      cases hs : r₁.uartRxBytes ds with
      | error f => simp [hs, Except.map] at h
      | ok q =>
        obtain ⟨r₂, later⟩ := q
        simp only [hs, Except.map, Except.ok.injEq, Prod.mk.injEq] at h
        obtain ⟨rfl, rfl⟩ := h
        have hbuffer := (uartRxByte_mail hd).2
        simp only [takenImages, uartRxByte_flag hd false, bind, Except.bind, takenImages_flag, ih hs]
        cases image <;> simp [hbuffer]

-- The images are handed over as they are committed: each stands in image_buffer when frame_ready
-- is set, and the last one stays there.
structure Mailed (r : Receiver) (ds : List UInt8) (r' : Receiver) (images : List Image) : Prop where
  taken : r.takenImages ds = .ok images
  ready : r'.frameReady = (r.frameReady || !images.isEmpty)
  buffer : r'.imageBuffer = images.getLast?.getD r.imageBuffer

theorem mailed {r r' : Receiver} {ds : List UInt8} {images : List Image}
    (h : r.uartRxBytes ds = .ok (r', images)) : Mailed r ds r' images :=
  ⟨takenImages_eq h, (uartRxBytes_mail h).1, (uartRxBytes_mail h).2⟩

end FabricInspection.Receiver
