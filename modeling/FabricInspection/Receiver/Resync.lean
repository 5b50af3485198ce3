import FabricInspection.Receiver.ByteLoss

namespace FabricInspection.Receiver
open Camera

theorem noTail_resume (s : List UInt8) : NoTail (reference s).2 :=
  (resume_append (h := none) trivial s []).1

-- Inside a frame the tail of the next whole frame ends the search at the latest.
theorem firstTail_clean {b : List UInt8} (hb : NoTail (some b)) (img : Gray) (rest : List UInt8) :
    ∃ k < 1027, firstTail (b ++ sendFrame (.clean img) ++ rest) = some (b.length + k + 1) := by
  have hl := payload_length img
  rw [sendFrame_clean, List.append_assoc]
  have hlast : TailAt (b ++ ((0xA6 :: (payload img ++ [0x5D, 0x5B])) ++ rest))
      (b.length + 1027) := by
    refine ⟨by omega, ?_, ?_⟩
    · rw [List.getElem?_append_right (by omega), show b.length + 1027 - 2 - b.length = 1025 by omega,
        List.cons_append, List.getElem?_cons_succ, List.append_assoc,
        List.getElem?_append_right (by omega), hl]
      rfl
    · rw [List.getElem?_append_right (by omega), show b.length + 1027 - 1 - b.length = 1026 by omega,
        List.cons_append, List.getElem?_cons_succ, List.append_assoc,
        List.getElem?_append_right (by omega), hl]
      rfl
  cases hf : firstTail (b ++ ((0xA6 :: (payload img ++ [0x5D, 0x5B])) ++ rest)) with
  | none => exact absurd hlast (firstTail_none_iff.mp hf _)
  | some n =>
    obtain ⟨ht, hmin⟩ := firstTail_some_iff.mp hf
    have hlate : b.length < n := by
      by_contra hle
      exact hb n ((tailAt_append (Nat.not_lt.mp hle) _).mp ht)
    have hearly : n ≤ b.length + 1027 := by
      by_contra hgt
      exact hmin _ (Nat.lt_of_not_le hgt) hlast
    exact ⟨n - b.length - 1, by omega, congrArg some (by omega)⟩

theorem resume_clean {b : List UInt8} (hb : NoTail (some b)) (img : Gray) (rest : List UInt8) :
    ∃ image, resume (some b) (sendFrame (.clean img) ++ rest) =
      (image :: (reference rest).1, (reference rest).2) := by
  obtain ⟨k, hk, hf⟩ := firstTail_clean hb img rest
  have hdrop : (b ++ sendFrame (.clean img) ++ rest).drop (b.length + k + 1) =
      (payload img ++ [0x5D, 0x5B]).drop k ++ rest := by
    have hbody : k ≤ (payload img ++ [0x5D, 0x5B]).length := by
      rw [List.length_append, payload_length]
      exact Nat.le_of_lt_succ hk
    rw [List.append_assoc, Nat.add_assoc, List.drop_append, List.drop_of_length_le (by omega),
      Nat.add_sub_cancel_left, List.nil_append, sendFrame_clean, List.cons_append,
      List.drop_succ_cons, List.drop_append_of_le_length hbody]
  -- What is left of the frame holds no header.
  have hskip : reference ((payload img ++ [0x5D, 0x5B]).drop k ++ rest) = reference rest :=
    reference_skips (fun d hd => body_ne_head (List.mem_of_mem_drop hd)) rest
  refine ⟨windowImage (b ++ sendFrame (.clean img) ++ rest) (b.length + k + 1), ?_⟩
  rw [resume, frame, ← List.append_assoc, hf]
  simp only [hdrop, hskip]

theorem resume_wire (h : Option (List UInt8)) (hn : NoTail h) (img : Gray) (imgs : List Gray) :
    ∃ image, resume h (wire (img :: imgs)) = (image :: imgs.map scaled, none) ∧
      (h = none → image = scaled img) := by
  have hrest : reference (wire imgs) = (imgs.map scaled, none) := by
    have hwire := reference_wire imgs []
    rw [List.append_nil, reference_nil, List.append_nil] at hwire
    exact hwire
  have hcons : wire (img :: imgs) = sendFrame (.clean img) ++ wire imgs := by
    rw [wire, List.map_cons, List.flatten_cons]
    rfl
  cases h with
  | none =>
    have hwire := reference_wire [img] (wire imgs)
    have hone : wire [img] ++ wire imgs = wire (img :: imgs) := by simp [wire]
    rw [hone, hrest] at hwire
    exact ⟨scaled img, hwire, fun _ => rfl⟩
  | some b =>
    obtain ⟨image, himage⟩ := resume_clean hn img (wire imgs)
    rw [hcons, himage, hrest]
    exact ⟨image, rfl, fun hnone => absurd hnone (Option.some_ne_none b)⟩

-- Whatever came before, the first whole frame makes the decoder commit one image, and all later
-- frames are decoded exactly.
theorem decoder_resynchronises (noise : List UInt8) (img : Gray) (imgs : List Gray)
    (chunks : List (List UInt8)) (hc : ∀ c ∈ chunks, c.length ≤ 64)
    (hs : chunks.flatten = noise ++ wire (img :: imgs)) :
    ∃ r₀ before r image, init.uartRxBytes noise = .ok (r₀, before) ∧
      init.uartRxCallbacks chunks = .ok (r, before ++ image :: imgs.map scaled) ∧
      Mailed init chunks.flatten r (before ++ image :: imgs.map scaled) ∧
      r.frameStart = false ∧ (r₀.frameStart = false → image = scaled img) ∧
      (imgs.map scaled).map Vector.toList = imgs.map payload := by
  obtain ⟨r₀, h₀, ht₀, -⟩ := uartRxBytes_idle tracks_init noise
  obtain ⟨r, hr, ht, -⟩ := uartRxBytes_resume ht₀ (noTail_resume noise) (wire (img :: imgs))
  obtain ⟨image, himage, hexact⟩ := resume_wire _ (noTail_resume noise) img imgs
  rw [himage] at hr ht
  have hall : init.uartRxBytes chunks.flatten =
      .ok (r, (reference noise).1 ++ image :: imgs.map scaled) := by
    rw [hs, uartRxBytes_append, h₀, Except.bind, hr]
    rfl
  refine ⟨r₀, _, r, image, h₀, ?_, mailed hall, ht, fun hidle => hexact ?_,
    map_scaled_toList imgs⟩
  · rw [uartRxCallbacks_eq hc, hall]
  · cases hb : (reference noise).2 with
    | none => rfl
    | some b =>
      rw [hb] at ht₀
      exact absurd (ht₀.1.symm.trans hidle) nofun

-- A header that no frame follows, then two frames.
theorem decoder_resynchronises_lone_header :
    ∃ r image, init.uartRxCallbacks
        (([0xA6, 0x00] ++ wire [blackImage, pairImage]).map fun b => [b]) =
          .ok (r, [image, scaled pairImage]) ∧ r.frameStart = false ∧ r.frameReady = true ∧
      r.imageBuffer = scaled pairImage := by
  obtain ⟨r₀, before, r, image, h₀, h, hmail, hidle, -⟩ :=
    decoder_resynchronises [0xA6, 0x00] blackImage [pairImage] _
      (bytewise_small ([0xA6, 0x00] ++ wire [blackImage, pairImage])) (bytewise_flatten _)
  have hbefore : before = [] := by
    have hquiet : init.uartRxBytes [0xA6, 0x00] = .ok (init.start.append 0x00, []) := rfl
    rw [hquiet] at h₀
    cases h₀
    rfl
  rw [hbefore] at h hmail
  exact ⟨r, image, h, hidle, hmail.ready, hmail.buffer⟩

end FabricInspection.Receiver
