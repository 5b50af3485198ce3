import FabricInspection.Receiver.RoundTrip

namespace FabricInspection.Receiver
open Camera

theorem reference_skips {s : List UInt8} (h : ∀ d ∈ s, d ≠ 0xA6) (t : List UInt8) :
    reference (s ++ t) = reference t := by
  induction s with
  | nil => rfl
  | cons d s ih =>
    rw [List.cons_append, reference_skip (h d (by simp))]
    exact ih fun e he => h e (by simp [he])

theorem payload_ne_head {img : Gray} {d : UInt8} (hd : d ∈ payload img) : d ≠ 0xA6 := by
  rintro rfl
  exact absurd (payload_le hd) (by decide)

theorem body_ne_head {img : Gray} {d : UInt8} (hd : d ∈ payload img ++ [0x5D, 0x5B]) :
    d ≠ 0xA6 := by
  simp only [List.mem_append, List.mem_cons, List.not_mem_nil, or_false] at hd
  rcases hd with hd | rfl | rfl
  · exact payload_ne_head hd
  · decide
  · decide

-- The two tail bytes stand at `j`, `j + 1` in the bytes that follow the next header.
def PairAt (q : List UInt8) (j : Nat) : Prop := q[j]? = some 0x5D ∧ q[j + 1]? = some 0x5B

theorem pairAt_payload {img : Gray} {t : List UInt8} {j : Nat}
    (h : PairAt (payload img ++ 0x5D :: 0x5B :: t) j) (hj : j < 1024) :
    PairAt (payload img) j := by
  have hl := payload_length img
  obtain ⟨h0, h1⟩ := h
  rw [List.getElem?_append_left (by omega)] at h0
  by_cases hj' : j + 1 < 1024
  · rw [List.getElem?_append_left (by omega)] at h1
    exact ⟨h0, h1⟩
  · rw [List.getElem?_append_right (by omega), show j + 1 - (payload img).length = 0 by omega] at h1
    simp at h1

-- `d` is what is left of a frame after its header, `q` what follows the next header.
theorem tailAt_next {d q : List UInt8} (hd : d.length < 1026) {n : Nat} :
    TailAt (d ++ 0xA6 :: q) n ↔ 1026 ≤ n ∧ ∃ j, n = d.length + j + 3 ∧ PairAt q j := by
  constructor
  · rintro ⟨hn, h0, h1⟩
    rw [List.getElem?_append_right (by omega)] at h1
    have h1' : n - 1 - d.length ≠ 0 := by
      intro hz
      rw [hz] at h1
      simp at h1
    rw [List.getElem?_append_right (by omega)] at h0
    have h0' : n - 2 - d.length ≠ 0 := by
      intro hz
      rw [hz] at h0
      simp at h0
    refine ⟨hn, n - d.length - 3, by omega, ?_, ?_⟩
    · rw [show n - 2 - d.length = (n - d.length - 3) + 1 by omega, List.getElem?_cons_succ] at h0
      exact h0
    · rw [show n - 1 - d.length = (n - d.length - 3 + 1) + 1 by omega,
        List.getElem?_cons_succ] at h1
      exact h1
  · rintro ⟨hn, j, rfl, h0, h1⟩
    refine ⟨hn, ?_, ?_⟩
    · rw [List.getElem?_append_right (by omega),
        show d.length + j + 3 - 2 - d.length = j + 1 by omega, List.getElem?_cons_succ, h0]
    · rw [List.getElem?_append_right (by omega),
        show d.length + j + 3 - 1 - d.length = j + 1 + 1 by omega, List.getElem?_cons_succ, h1]

-- The part of the damaged frame that arrived, and the next image: the pair of tail bytes inside
-- the next payload comes when the decoder already looks for a tail.
def StraddlesAt (damaged : List UInt8) (next : Gray) (j : Nat) : Prop :=
  1024 ≤ damaged.length + j ∧ PairAt (payload next) j

def Straddles (damaged : List UInt8) (next : Gray) : Prop := ∃ j, StraddlesAt damaged next j

-- What is committed then: the end of what arrived, the next header and the payload after it up to
-- the pair.
def straddling (damaged : List UInt8) (next : Gray) (j : Nat) : List UInt8 :=
  damaged.drop (damaged.length + j - 1023) ++ clampVal frameHead :: (payload next).take j

theorem frame_not_straddled {d : List UInt8} (hd : d.length < 1026) {next : Gray}
    (hs : ¬ Straddles (0xA6 :: d) next) (rest : List UInt8) :
    frame (d ++ 0xA6 :: (payload next ++ 0x5D :: 0x5B :: rest)) =
      (scaled next :: (reference rest).1, (reference rest).2) := by
  have hl := payload_length next
  have hfirst : firstTail (d ++ 0xA6 :: (payload next ++ 0x5D :: 0x5B :: rest)) =
      some (d.length + 1027) := by
    rw [firstTail_some_iff]
    refine ⟨(tailAt_next hd).mpr ⟨by omega, 1024, by omega, ?_, ?_⟩, ?_⟩
    · rw [List.getElem?_append_right (by omega)]
      simp [hl]
    · rw [List.getElem?_append_right (by omega)]
      simp [hl]
    · intro m hm hm'
      obtain ⟨hn, j, rfl, hp⟩ := (tailAt_next hd).mp hm'
      exact hs ⟨j, by simp only [List.length_cons]; omega, pairAt_payload hp (by omega)⟩
  have himage : windowImage (d ++ 0xA6 :: (payload next ++ 0x5D :: 0x5B :: rest))
      (d.length + 1027) = scaled next := by
    rw [windowImage_eq, show d.length + 1027 - 1026 = d.length + 1 by omega, List.drop_append,
      List.drop_of_length_le (by omega), show d.length + 1 - d.length = 1 by omega]
    simp only [List.nil_append, List.drop_succ_cons, List.drop_zero]
    rw [List.take_left' hl]
    rfl
  have hdrop : (d ++ 0xA6 :: (payload next ++ 0x5D :: 0x5B :: rest)).drop (d.length + 1027) =
      rest := by
    rw [List.drop_append, List.drop_of_length_le (by omega),
      show d.length + 1027 - d.length = 1026 + 1 by omega, List.nil_append, List.drop_succ_cons,
      List.drop_append, List.drop_of_length_le (by omega), hl]
    rfl
  simp only [frame, hfirst, himage, hdrop]

theorem window_straddling {d : List UInt8} (hd : ∀ b ∈ d, b ≤ 127) {next : Gray} {j : Nat}
    (hj : j + 1 < 1024) (hlen : 1023 ≤ d.length + j) (rest : List UInt8) :
    (windowImage (d ++ 0xA6 :: (payload next ++ rest)) (d.length + j + 3)).toList =
      straddling (0xA6 :: d) next j := by
  have hl := payload_length next
  have hcut : ((d ++ 0xA6 :: (payload next ++ rest)).drop (d.length + j + 3 - 1026)).take 1024 =
      d.drop (d.length + j - 1023) ++ 0xA6 :: (payload next).take j := by
    have hback : 1024 - (d.drop (d.length + j - 1023)).length = j + 1 := by
      rw [List.length_drop]
      omega
    rw [show d.length + j + 3 - 1026 = d.length + j - 1023 by omega,
      List.drop_append_of_le_length (by omega), List.take_append, hback, List.take_succ_cons,
      List.take_append_of_le_length (by omega), List.take_of_length_le]
    rw [List.length_drop]
    omega
  have hdamaged : straddling (0xA6 :: d) next j =
      d.drop (d.length + j - 1023) ++ 127 :: (payload next).take j := by
    rw [straddling, List.length_cons, show d.length + 1 + j - 1023 = d.length + j - 1023 + 1 by omega,
      List.drop_succ_cons]
    rfl
  have hfront : ∀ b ∈ d.drop (d.length + j - 1023), b ≤ 127 := fun b hb =>
    hd b (List.mem_of_mem_drop hb)
  have hback : ∀ b ∈ (payload next).take j, b ≤ 127 := fun b hb =>
    payload_le (List.mem_of_mem_take hb)
  rw [windowImage_eq, hcut, clampImage_map, hdamaged, List.map_append, List.map_cons,
    map_clamped hfront, map_clamped hback]
  · rfl
  · simp only [List.length_append, List.length_drop, List.length_cons, List.length_take, hl]
    omega

theorem frame_straddled {d : List UInt8} (hd : d.length < 1026) (hbytes : ∀ b ∈ d, b ≤ 127)
    {next : Gray} (hs : Straddles (0xA6 :: d) next) (rest : List UInt8) :
    ∃ j, StraddlesAt (0xA6 :: d) next j ∧ (∀ i < j, ¬ StraddlesAt (0xA6 :: d) next i) ∧
      ∃ image : Image, image.toList = straddling (0xA6 :: d) next j ∧
        frame (d ++ 0xA6 :: (payload next ++ 0x5D :: 0x5B :: rest)) =
          (image :: (reference rest).1, (reference rest).2) := by
  have hl := payload_length next
  -- A place where the window straddles is one where the decoder would find its tail.
  have htail {i : Nat} (hi : StraddlesAt (0xA6 :: d) next i) :
      TailAt (d ++ 0xA6 :: (payload next ++ 0x5D :: 0x5B :: rest)) (d.length + i + 3) := by
    obtain ⟨hlen, h0, h1⟩ := hi
    have hlt := (List.getElem?_eq_some_iff.mp h1).1
    rw [List.length_cons] at hlen
    refine (tailAt_next hd).mpr ⟨by omega, i, rfl, ?_, ?_⟩
    · rw [List.getElem?_append_left (by omega)]
      exact h0
    · rw [List.getElem?_append_left (by omega)]
      exact h1
  obtain ⟨j₀, hs₀⟩ := hs
  have hj₀ : j₀ + 1 < 1024 := by
    have := (List.getElem?_eq_some_iff.mp hs₀.2.2).1
    omega
  cases hf : firstTail (d ++ 0xA6 :: (payload next ++ 0x5D :: 0x5B :: rest)) with
  | none => exact absurd (htail hs₀) (firstTail_none_iff.mp hf _)
  | some n =>
    obtain ⟨ht, hmin⟩ := firstTail_some_iff.mp hf
    have hle : n ≤ d.length + j₀ + 3 := by
      by_contra hlt
      exact hmin _ (Nat.lt_of_not_le hlt) (htail hs₀)
    obtain ⟨hn, j, rfl, hp⟩ := (tailAt_next hd).mp ht
    have hpair : PairAt (payload next) j := pairAt_payload hp (by omega)
    have hdrop : (d ++ 0xA6 :: (payload next ++ 0x5D :: 0x5B :: rest)).drop
        (d.length + j + 3) = ((payload next).drop (j + 2) ++ [0x5D, 0x5B]) ++ rest := by
      rw [List.drop_append, List.drop_of_length_le (by omega),
        show d.length + j + 3 - d.length = (j + 2) + 1 by omega, List.nil_append,
        List.drop_succ_cons, List.drop_append_of_le_length (by omega)]
      simp
    have hskip : reference (((payload next).drop (j + 2) ++ [0x5D, 0x5B]) ++ rest) =
        reference rest := by
      refine reference_skips ?_ rest
      intro e he
      refine @body_ne_head next e ?_
      simp only [List.mem_append] at he ⊢
      exact he.imp List.mem_of_mem_drop id
    refine ⟨j, ⟨by simp only [List.length_cons]; omega, hpair⟩, fun i hi hsi => ?_, _,
      window_straddling hbytes (by omega) (by omega) (0x5D :: 0x5B :: rest), ?_⟩
    · exact hmin _ (by omega) (htail hsi)
    · simp only [frame, hf, hdrop, hskip]

-- The header arrives and some other byte is missing: the decoder slides on over the next frame,
-- whose payload shows it the tail pair too early.
def Runaway (img : Gray) (damaged : List UInt8) (after : List Gray) : Prop :=
  damaged ≠ sendFrame (.clean img) ∧ damaged.head? = some 0xA6 ∧
    ∃ next ∈ after.head?, Straddles damaged next

theorem sublist_frame {img : Gray} {damaged : List UInt8}
    (h : damaged.Sublist (sendFrame (.clean img))) :
    (damaged.head? ≠ some 0xA6 ∧ damaged.Sublist (payload img ++ [0x5D, 0x5B])) ∨
    damaged = sendFrame (.clean img) ∨ ∃ d, damaged = 0xA6 :: d ∧ d.length < 1026 ∧
      damaged ≠ sendFrame (.clean img) := by
  rw [sendFrame_clean] at h ⊢
  have hlen : (payload img ++ [0x5D, 0x5B]).length = 1026 := by simp
  rcases List.sublist_cons_iff.mp h with hs | ⟨d, rfl, hs⟩
  · refine .inl ⟨?_, hs⟩
    intro hh
    have hm : (0xA6 : UInt8) ∈ damaged := List.mem_of_mem_head? (by simp [hh])
    exact body_ne_head (hs.subset hm) rfl
  · by_cases hd : d.length = 1026
    · exact .inr (.inl (by rw [hs.eq_of_length (hd.trans hlen.symm)]))
    · have hle := hs.length_le
      refine .inr (.inr ⟨d, rfl, by omega, ?_⟩)
      intro he
      rw [List.cons.injEq] at he
      exact hd (by rw [he.2, hlen])

theorem reference_damaged {img : Gray} {damaged : List UInt8} {after : List Gray}
    (h : damaged.Sublist (sendFrame (.clean img))) (hr : ¬ Runaway img damaged after) :
    (reference (damaged ++ wire after)).1 =
      (if damaged = sendFrame (.clean img) then [scaled img] else []) ++ after.map scaled := by
  have hafter : reference (wire after) = (after.map scaled, none) := by
    simpa [reference_nil] using reference_wire after []
  rcases sublist_frame h with ⟨hh, hs⟩ | hfull | ⟨d, rfl, hd, hne⟩
  · have hne : damaged ≠ sendFrame (.clean img) := by
      intro he
      exact hh (by rw [he, sendFrame_clean, List.head?_cons])
    rw [reference_skips (fun e he => body_ne_head (hs.subset he)), hafter, if_neg hne,
      List.nil_append]
  · have hcons := reference_payload (payload_length img) (wire after)
    rw [if_pos hfull, hfull, sendFrame_clean]
    simp only [List.cons_append, List.append_assoc, List.nil_append, hcons, hafter]
    rfl
  · rw [if_neg hne, List.cons_append, reference_head]
    cases after with
    | nil =>
      have hn : firstTail d = none :=
        firstTail_none_iff.mpr fun n hn => by have := tailAt_le hn; have := hn.1; omega
      simp [wire, frame, hn]
    | cons next rest =>
      have hs : ¬ Straddles (0xA6 :: d) next := fun hs => hr ⟨hne, rfl, next, rfl, hs⟩
      have hw := wire_cons next rest []
      rw [List.append_nil, List.append_nil] at hw
      have hrest : reference (wire rest) = (rest.map scaled, none) := by
        simpa [reference_nil] using reference_wire rest []
      rw [hw, frame_not_straddled hd hs, hrest]
      simp

theorem reference_runaway {img : Gray} {damaged : List UInt8} {after : List Gray}
    (h : damaged.Sublist (sendFrame (.clean img))) (hr : Runaway img damaged after) :
    ∃ next ∈ after.head?, ∃ j, StraddlesAt damaged next j ∧
      (∀ i < j, ¬ StraddlesAt damaged next i) ∧
      ∃ image : Image, image.toList = straddling damaged next j ∧
        (reference (damaged ++ wire after)).1 = image :: (after.drop 1).map scaled := by
  obtain ⟨hne, hhead, next, hnext, hs⟩ := hr
  rcases sublist_frame h with ⟨hh, -⟩ | hfull | ⟨d, rfl, hd, -⟩
  · exact absurd hhead hh
  · exact absurd hfull hne
  · cases after with
    | nil => simp at hnext
    | cons g rest =>
      obtain rfl : g = next := by simpa using hnext
      have hbytes : ∀ b ∈ d, b ≤ 127 := by
        intro b hb
        rw [sendFrame_clean] at h
        have hmem := (List.cons_sublist_cons.mp h).subset hb
        simp only [List.mem_append, List.mem_cons, List.not_mem_nil, or_false] at hmem
        rcases hmem with hmem | rfl | rfl
        · exact payload_le hmem
        · decide
        · decide
      have hw := wire_cons g rest []
      rw [List.append_nil, List.append_nil] at hw
      obtain ⟨j, hj, hfirst, image, himage, hf⟩ := frame_straddled hd hbytes hs (wire rest)
      have hrest : reference (wire rest) = (rest.map scaled, none) := by
        simpa [reference_nil] using reference_wire rest []
      refine ⟨g, rfl, j, hj, hfirst, image, himage, ?_⟩
      rw [List.cons_append, reference_head, hw, hf, hrest]
      rfl

theorem uartRxCallbacks_damaged {r : Receiver} (hr : r.frameStart = false) (before : List Gray)
    {damaged : List UInt8} {after : List Gray} {chunks : List (List UInt8)}
    (hc : ∀ c ∈ chunks, c.length ≤ 64)
    (hs : chunks.flatten = wire before ++ damaged ++ wire after) :
    ∃ r', r.uartRxCallbacks chunks =
        .ok (r', before.map scaled ++ (reference (damaged ++ wire after)).1) ∧
      Mailed r chunks.flatten r' (before.map scaled ++ (reference (damaged ++ wire after)).1) := by
  obtain ⟨r', hr', -⟩ := uartRxBytes_idle hr chunks.flatten
  have hmail := mailed hr'
  have href : (reference chunks.flatten).1 =
      before.map scaled ++ (reference (damaged ++ wire after)).1 := by
    rw [hs, List.append_assoc, reference_wire]
  rw [href] at hr' hmail
  exact ⟨r', by rw [uartRxCallbacks_eq hc, hr'], hmail⟩

theorem map_scaled_toList (imgs : List Gray) :
    (imgs.map scaled).map Vector.toList = imgs.map payload := by
  rw [List.map_map]
  exact List.map_congr_left fun img _ => scaled_toList img

theorem damage_reaches_next_frame (r : Receiver) (hr : r.frameStart = false)
    (before : List Gray) (img : Gray) (after : List Gray) (damaged : List UInt8)
    (hd : damaged.Sublist (sendFrame (.clean img))) (chunks : List (List UInt8))
    (hc : ∀ c ∈ chunks, c.length ≤ 64)
    (hs : chunks.flatten = wire before ++ damaged ++ wire after) :
    ∃ r' images, r.uartRxCallbacks chunks = .ok (r', images) ∧
      Mailed r chunks.flatten r' images ∧
      (¬ Runaway img damaged after → images.map Vector.toList = before.map payload ++
        (if damaged = sendFrame (.clean img) then [payload img] else []) ++ after.map payload) ∧
      (Runaway img damaged after → ∃ next ∈ after.head?, ∃ j, StraddlesAt damaged next j ∧
        (∀ i < j, ¬ StraddlesAt damaged next i) ∧
        images.map Vector.toList =
          before.map payload ++ [straddling damaged next j] ++ (after.drop 1).map payload) := by
  obtain ⟨r', hr', hmail⟩ := uartRxCallbacks_damaged hr before hc hs
  refine ⟨r', _, hr', hmail, fun hw => ?_, fun hw => ?_⟩
  · rw [reference_damaged hd hw, List.map_append, List.map_append, map_scaled_toList,
      map_scaled_toList, List.append_assoc]
    split <;> simp [scaled_toList]
  · obtain ⟨next, hnext, j, hj, hfirst, image, himage, hi⟩ := reference_runaway hd hw
    refine ⟨next, hnext, j, hj, hfirst, ?_⟩
    rw [hi, List.map_append, map_scaled_toList, List.map_cons, map_scaled_toList, himage]
    simp

def Confined (before : List Gray) (img : Gray) (after : List Gray) (images : List Image) : Prop :=
  (∀ image ∈ images, ∃ g ∈ before ++ img :: after, image.toList = payload g) ∧
    ∃ mid, images.map Vector.toList = before.map payload ++ mid ++ after.map payload

def blackImage : Gray := fun _ _ => 0

-- 187 and 183 are sent as the two tail bytes.
def pairImage : Gray := fun x y => if y = 0 then (if x = 0 then 187 else if x = 1 then 183 else 0) else 0

def clipped : List UInt8 := 0xA6 :: ((payload blackImage).drop 1 ++ [0x5D, 0x5B])

theorem clipped_sublist : clipped.Sublist (sendFrame (.clean blackImage)) := by
  rw [sendFrame_clean]
  exact (List.Sublist.append (List.drop_sublist 1 _) (List.Sublist.refl _)).cons_cons _

theorem clipped_length : clipped.length = 1026 := by simp [clipped]

theorem pairImage_pair : PairAt (payload pairImage) 0 := by
  have hrow : ∃ rest, rowMajor pairImage = 187 :: 183 :: rest := ⟨_, rfl⟩
  obtain ⟨rest, hrow⟩ := hrow
  have h0 : mapped 187 = 93 := by decide +kernel
  have h1 : mapped 183 = 91 := by decide +kernel
  constructor <;> simp [payload, bytes, frameData_eq, hrow, h0, h1]

theorem pairImage_dark : (127 : UInt8) ∉ payload pairImage := by
  intro hm
  have hm' : (127 : Int) ∈ (rowMajor pairImage).map mapped := by
    rw [← payload_toNat]
    exact List.mem_map.mpr ⟨127, hm, rfl⟩
  obtain ⟨p, hp, hp'⟩ := List.mem_map.mp hm'
  have hcases : p = 187 ∨ p = 183 ∨ p = 0 := by
    simp only [rowMajor, List.mem_flatMap, List.mem_map, pairImage] at hp
    obtain ⟨y, -, x, -, rfl⟩ := hp
    split
    · split
      · exact .inl rfl
      · split
        · exact .inr (.inl rfl)
        · exact .inr (.inr rfl)
    · exact .inr (.inr rfl)
  rcases hcases with rfl | rfl | rfl <;> exact absurd hp' (by decide +kernel)

theorem clipped_straddles : StraddlesAt clipped pairImage 0 :=
  ⟨by simp [clipped_length], pairImage_pair⟩

theorem clipped_runaway : Runaway blackImage clipped [pairImage] := by
  refine ⟨?_, rfl, pairImage, rfl, 0, clipped_straddles⟩
  intro he
  have hl := congrArg List.length he
  rw [clipped_length, sendFrame_clean] at hl
  simp at hl

-- The frame that lost one byte and the one after it give way to one image.
theorem damage_reaches_next_frame_clipped :
    ∃ r' image, init.uartRxCallbacks ((clipped ++ wire [pairImage]).map fun b => [b]) =
        .ok (r', [image]) ∧ r'.frameReady = true ∧ r'.imageBuffer = image ∧
      image.toList = clipped.drop 3 ++ [127] := by
  obtain ⟨r', images, hr, hmail, -, hrun⟩ := damage_reaches_next_frame init rfl [] blackImage
    [pairImage] clipped clipped_sublist _ (bytewise_small _) (bytewise_flatten _)
  obtain ⟨next, hnext, j, -, hfirst, himages⟩ := hrun clipped_runaway
  obtain rfl : pairImage = next := by simpa using hnext
  obtain rfl : j = 0 := by
    by_contra hj
    exact hfirst 0 (Nat.pos_of_ne_zero hj) clipped_straddles
  obtain ⟨image, rfl⟩ : ∃ image, images = [image] :=
    List.length_eq_one_iff.mp (by simpa using congrArg List.length himages)
  have hwindow : [image.toList] = [straddling clipped pairImage 0] := himages
  refine ⟨r', image, hr, hmail.ready, hmail.buffer, ?_⟩
  rw [(List.cons.inj hwindow).1, straddling, clipped_length, List.take_zero]
  rfl

theorem damage_not_confined :
    ¬ ∀ (r : Receiver) (before : List Gray) (img : Gray) (after : List Gray)
      (damaged : List UInt8) (chunks : List (List UInt8)), r.frameStart = false →
      damaged.Sublist (sendFrame (.clean img)) → (∀ c ∈ chunks, c.length ≤ 64) →
      chunks.flatten = wire before ++ damaged ++ wire after →
      ∃ r' images, r.uartRxCallbacks chunks = .ok (r', images) ∧
        Confined before img after images := by
  intro h
  have hc := bytewise_small (clipped ++ wire [pairImage])
  have hs : ((clipped ++ wire [pairImage]).map fun b => [b]).flatten =
      wire [] ++ clipped ++ wire [pairImage] := bytewise_flatten _
  obtain ⟨next, hnext, j, -, hfirst, image, himage, hi⟩ :=
    reference_runaway clipped_sublist clipped_runaway
  have hm : (127 : UInt8) ∈ image.toList := by
    rw [himage, straddling]
    exact List.mem_append_right _ List.mem_cons_self
  obtain ⟨r₁, h₁, -⟩ := uartRxCallbacks_damaged (r := init) rfl [] hc hs
  obtain ⟨r₂, images, h₂, -, mid, hmid⟩ :=
    h init [] blackImage [pairImage] clipped _ rfl clipped_sublist hc hs
  rw [h₁, hi] at h₂
  simp only [Except.ok.injEq, Prod.mk.injEq] at h₂
  rw [← h₂.2] at hmid
  have hlast := congrArg List.getLast? hmid
  simp at hlast
  exact pairImage_dark (hlast ▸ hm)

end FabricInspection.Receiver
