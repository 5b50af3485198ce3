import FabricInspection.Camera.SendFrame

namespace FabricInspection.Camera

-- What the camera puts on its two ports.
inductive Output where
  | uart3 (c : Char)
  | uart1 (bs : List UInt8)
  deriving DecidableEq

-- The inner loop, with the value it leaves in i.
def announceLoop (imageNum i : Nat) : Nat × List Output :=
  if _h : i < imageNum then
    let i := i + 1
    let rest := announceLoop imageNum i
    (rest.1, .uart3 '(' :: (if i = imageNum then [.uart3 ')'] else []) ++ rest.2)
  else (i, [])
termination_by imageNum - i

def transmitLoop (attempts : Nat → Attempt) (imageNum imageTransNum i : Nat) : List Output :=
  if _h : imageTransNum ≤ imageNum then
    let announcement := announceLoop imageNum i
    .uart3 's' :: announcement.2 ++ .uart1 (sendFrame (attempts imageTransNum)) ::
      transmitLoop attempts imageNum (imageTransNum + 1) announcement.1
  else []
termination_by imageNum + 1 - imageTransNum

-- `attempts k` is how the call send_frame(k) goes.
def transmission (attempts : Nat → Attempt) (imageNum : Nat) : List Output :=
  .uart3 's' :: transmitLoop attempts imageNum 1 0 ++ [.uart3 's']

def Output.char? : Output → Option Char
  | .uart3 c => some c
  | .uart1 _ => none

def Output.bytes? : Output → Option (List UInt8)
  | .uart3 _ => none
  | .uart1 bs => some bs

-- The announcement apart from the stops.
def announced (out : List Output) : List Char := (out.filterMap Output.char?).filter (· ≠ 's')

def sent (out : List Output) : List (List UInt8) := out.filterMap Output.bytes?

def frame (img : Gray) : List UInt8 := frameHead :: (payload img ++ [frameTail1, frameTail2])

def Write.full (w : Write) (n : Nat) : Bool := w.sent.all fun k => n ≤ k

-- The calls of send_frame that put the whole frame on the wire.
def Attempt.frame? (a : Attempt) : Option (List UInt8) :=
  if !a.drainRaises && (a.head.full 1 && !a.head.raises) && (a.data.full 1024 && !a.data.raises) &&
      a.tail.full 2 then
    a.load.map frame
  else none

def isFrame (bs : List UInt8) : Bool :=
  bs.length = 1027 && bs.take 1 = [frameHead] && bs.drop 1025 = [frameTail1, frameTail2]

section
variable {w : Write} (bs : List UInt8) {next : List UInt8} {n : Nat}

theorem put_full (h : (w.full bs.length && !w.raises) = true) : w.put bs next = bs ++ next := by
  obtain ⟨sent, raises⟩ := w
  obtain ⟨hf, hr⟩ : Write.full ⟨sent, raises⟩ bs.length = true ∧ raises = false := by
    simpa using h
  subst hr
  cases sent with
  | none => rfl
  | some k =>
    have hk : bs.length ≤ k := of_decide_eq_true hf
    simp [Write.put, List.take_of_length_le hk]

theorem put_tail (hf : w.full bs.length = true) : w.put bs [] = bs := by
  obtain ⟨sent, raises⟩ := w
  cases sent with
  | none => simp [Write.put]
  | some k =>
    have hk : bs.length ≤ k := of_decide_eq_true hf
    simp [Write.put, List.take_of_length_le hk]

theorem put_length_le (hn : next.length ≤ n) : (w.put bs next).length ≤ bs.length + n := by
  obtain ⟨sent, raises⟩ := w
  cases sent with
  | none => cases raises <;> simp [Write.put, hn]
  | some k =>
    cases raises with
    | true => simp [Write.put]
    | false => simpa [Write.put] using Nat.add_le_add (Nat.min_le_right k bs.length) hn

-- A write that stops early leaves the frame short, whatever follows.
theorem put_length_lt (hn : next.length ≤ n) (h0 : 0 < n)
    (h : (w.full bs.length && !w.raises) = false) : (w.put bs next).length < bs.length + n := by
  obtain ⟨sent, raises⟩ := w
  cases sent with
  | none =>
    have hr : raises = true := by simpa [Write.full] using h
    subst hr
    simpa [Write.put] using h0
  | some k =>
    cases raises with
    | true => simp [Write.put]; omega
    | false =>
      have hk : k < bs.length := by simpa [Write.full] using h
      simp [Write.put]
      omega

theorem put_tail_lt (h : w.full bs.length = false) : (w.put bs []).length < bs.length := by
  obtain ⟨sent, raises⟩ := w
  cases sent with
  | none => cases h
  | some k =>
    have hk : k < bs.length := Nat.lt_of_not_le (of_decide_eq_false h)
    cases raises <;> simp [Write.put] <;> omega

end

theorem isFrame_frame (img : Gray) : isFrame (frame img) = true := by
  simp [isFrame, frame]

theorem isFrame_short {bs : List UInt8} (h : bs.length < 1027) : isFrame bs = false := by
  simp [isFrame, h.ne]

-- A call of send_frame writes one whole frame, or something shorter.
theorem sendFrame_frame? (a : Attempt) :
    (∀ bs, a.frame? = some bs → sendFrame a = bs ∧ isFrame bs = true) ∧
      (a.frame? = none → (sendFrame a).length < 1027) := by
  obtain ⟨load, drainRaises, head, data, tail⟩ := a
  cases load with
  | none => simp [Attempt.frame?, sendFrame]
  | some img =>
    cases drainRaises with
    | true => simp [Attempt.frame?, sendFrame]
    | false =>
      have hsend : sendFrame ⟨some img, false, head, data, tail⟩ =
          head.put [frameHead] (data.put (payload img) (tail.put [frameTail1, frameTail2] [])) := by
        simp [sendFrame, payload]
      have htail : (tail.put [frameTail1, frameTail2] []).length ≤ 2 := put_length_le _ le_rfl
      have hdata : (data.put (payload img) (tail.put [frameTail1, frameTail2] [])).length ≤
          1024 + 2 := payload_length img ▸ put_length_le _ htail
      rw [hsend]
      rcases hh : head.full 1 && !head.raises with _ | _
      · have hlt := put_length_lt [frameHead] hdata (by decide) hh
        exact ⟨by simp [Attempt.frame?, hh], fun _ => hlt⟩
      rw [put_full [frameHead] hh]
      rcases hd : data.full 1024 && !data.raises with _ | _
      · have hlt := put_length_lt (payload img) htail (by decide)
          (by rwa [payload_length])
        rw [payload_length] at hlt
        exact ⟨by simp [Attempt.frame?, hd], fun _ => Nat.succ_lt_succ hlt⟩
      rw [put_full _ (by rwa [payload_length])]
      rcases ht : tail.full 2 with _ | _
      · have hlt := put_tail_lt [frameTail1, frameTail2] ht
        refine ⟨by simp [Attempt.frame?, ht], fun _ => ?_⟩
        simp only [List.length_cons, List.length_append, payload_length, List.length_nil] at hlt ⊢
        omega
      · rw [put_tail [frameTail1, frameTail2] ht]
        have hframe : Attempt.frame? ⟨some img, false, head, data, tail⟩ = some (frame img) := by
          simp [Attempt.frame?, hh, hd, ht]
        refine ⟨fun bs hbs => ?_, fun hnone => by simp [hframe] at hnone⟩
        rw [hframe] at hbs
        exact Option.some.inj hbs ▸ ⟨rfl, isFrame_frame img⟩

theorem announceLoop_done {imageNum i : Nat} (h : imageNum ≤ i) :
    announceLoop imageNum i = (i, []) := by
  rw [announceLoop, dif_neg (Nat.not_lt.mpr h)]

theorem announceLoop_succ {imageNum i : Nat} (h : i < imageNum) :
    announceLoop imageNum i = ((announceLoop imageNum (i + 1)).1,
      Output.uart3 '(' :: (if i + 1 = imageNum then [Output.uart3 ')'] else []) ++
        (announceLoop imageNum (i + 1)).2) := by
  rw [announceLoop, dif_pos h]

theorem announceLoop_eq {imageNum i : Nat} (h : i < imageNum) :
    announceLoop imageNum i =
      (imageNum, List.replicate (imageNum - i) (.uart3 '(') ++ [.uart3 ')']) := by
  induction i using announceLoop.induct imageNum with
  | case1 i hi j ih =>
    rw [announceLoop_succ hi]
    rcases (Nat.succ_le_of_lt hi).eq_or_lt with heq | hlt
    · have hone : imageNum - i = 1 := by omega
      rw [announceLoop_done heq.ge, hone, if_pos heq]
      simp [← heq]
    · have hsucc : imageNum - i = (imageNum - (i + 1)) + 1 := by omega
      rw [ih hlt, if_neg hlt.ne, hsucc, List.replicate_succ]
      rfl
  | case2 i hi => exact absurd h hi

-- Once the first pass has counted i up, the later ones announce nothing.
theorem transmitLoop_announced (attempts : Nat → Attempt) (imageNum imageTransNum : Nat) :
    transmitLoop attempts imageNum imageTransNum imageNum =
      (List.range' imageTransNum (imageNum + 1 - imageTransNum)).flatMap fun k =>
        [.uart3 's', .uart1 (sendFrame (attempts k))] := by
  generalize hm : imageNum + 1 - imageTransNum = m
  induction m generalizing imageTransNum with
  | zero => rw [transmitLoop, dif_neg (by omega), List.range'_zero, List.flatMap_nil]
  | succ m ih =>
    rw [transmitLoop, dif_pos (by omega)]
    simp [announceLoop_done le_rfl, ih (imageTransNum + 1) (by omega), List.range'_succ]

theorem transmission_eq (attempts : Nat → Attempt) {imageNum : Nat} (h : 0 < imageNum) :
    transmission attempts imageNum =
      [Output.uart3 's', .uart3 's'] ++ List.replicate imageNum (Output.uart3 '(') ++
        [Output.uart3 ')'] ++ (Output.uart1 (sendFrame (attempts 1)) ::
          ((List.range' 2 (imageNum - 1)).flatMap fun k =>
            [Output.uart3 's', .uart1 (sendFrame (attempts k))]) ++ [Output.uart3 's']) := by
  rw [transmission, transmitLoop, dif_pos (Nat.succ_le_of_lt h)]
  simp [announceLoop_eq h, transmitLoop_announced]

@[simp] theorem announced_append (xs ys : List Output) :
    announced (xs ++ ys) = announced xs ++ announced ys := by
  simp [announced]

@[simp] theorem sent_append (xs ys : List Output) : sent (xs ++ ys) = sent xs ++ sent ys :=
  List.filterMap_append

@[simp] theorem sent_nil : sent [] = [] := rfl

@[simp] theorem sent_uart3 (c : Char) (out : List Output) : sent (.uart3 c :: out) = sent out := rfl

@[simp] theorem sent_uart1 (bs : List UInt8) (out : List Output) :
    sent (.uart1 bs :: out) = bs :: sent out := rfl

theorem passes_announced (attempts : Nat → Attempt) (ks : List Nat) :
    announced (ks.flatMap fun k => [.uart3 's', .uart1 (sendFrame (attempts k))]) = [] := by
  induction ks with
  | nil => rfl
  | cons k ks ih => rw [List.flatMap_cons, announced_append, ih]; rfl

theorem passes_sent (attempts : Nat → Attempt) (ks : List Nat) :
    sent (ks.flatMap fun k => [.uart3 's', .uart1 (sendFrame (attempts k))]) =
      ks.map fun k => sendFrame (attempts k) := by
  induction ks with
  | nil => rfl
  | cons k ks ih => rw [List.flatMap_cons, sent_append, ih, List.map_cons]; rfl

theorem parentheses_announced (n : Nat) :
    announced (List.replicate n (.uart3 '(')) = List.replicate n '(' := by
  induction n with
  | zero => rfl
  | succ n ih =>
    rw [List.replicate_succ, ← List.singleton_append, announced_append, ih]
    rfl

theorem parentheses_sent (n : Nat) : sent (List.replicate n (.uart3 '(')) = [] := by
  induction n with
  | zero => rfl
  | succ n ih => rw [List.replicate_succ, sent_uart3, ih]

theorem transmission_sent (attempts : Nat → Attempt) (n : Nat) :
    sent (transmission attempts n) = (List.range' 1 n).map fun k => sendFrame (attempts k) := by
  cases n with
  | zero => simp [transmission, transmitLoop]
  | succ n =>
    rw [transmission_eq attempts n.succ_pos, List.range'_succ, List.map_cons, ← passes_sent]
    simp [parentheses_sent]

theorem frames_filterMap (attempts : Nat → Attempt) (ks : List Nat) :
    (ks.map fun k => sendFrame (attempts k)).filter isFrame =
      ks.filterMap fun k => (attempts k).frame? := by
  induction ks with
  | nil => rfl
  | cons k ks ih =>
    have hk := sendFrame_frame? (attempts k)
    rw [List.map_cons]
    rcases hf : (attempts k).frame? with _ | bs
    · rw [List.filter_cons_of_neg (by simp [isFrame_short (hk.2 hf)]), ih, List.filterMap_cons, hf]
    · rw [(hk.1 bs hf).1, List.filter_cons_of_pos (hk.1 bs hf).2, ih, List.filterMap_cons, hf]

theorem announced_images_attempted (attempts : Nat → Attempt) (n : Nat) :
    (∃ pre post, transmission attempts n = pre ++ post ∧ sent pre = [] ∧ announced post = [] ∧
        announced pre = List.replicate n '(' ++ (if 1 ≤ n then [')'] else [])) ∧
      sent (transmission attempts n) = (List.range' 1 n).map (fun k => sendFrame (attempts k)) ∧
      (sent (transmission attempts n)).filter isFrame =
        (List.range' 1 n).filterMap (fun k => (attempts k).frame?) ∧
      (((sent (transmission attempts n)).filter isFrame).length = n ↔
        ∀ k, 1 ≤ k → k ≤ n → (attempts k).frame?.isSome) := by
  have hsent := transmission_sent attempts n
  have hframes : (sent (transmission attempts n)).filter isFrame =
      (List.range' 1 n).filterMap (fun k => (attempts k).frame?) :=
    hsent ▸ frames_filterMap attempts _
  refine ⟨?_, hsent, hframes, ?_⟩
  · cases n with
    | zero => exact ⟨[], transmission attempts 0, rfl, rfl, by simp [transmission, transmitLoop,
        announced, Output.char?], rfl⟩
    | succ n =>
      refine ⟨_, _, transmission_eq attempts n.succ_pos, ?_, ?_, ?_⟩
      · simp [parentheses_sent]
      · rw [announced_append, ← List.singleton_append, announced_append, passes_announced]
        rfl
      · simp only [announced_append, parentheses_announced]
        rfl
  · have hlength : (List.range' 1 n).length = n := List.length_range'
    rw [hframes]
    conv => lhs; rhs; rw [← hlength]
    rw [List.length_filterMap_eq_countP, List.countP_eq_length]
    constructor
    · intro h k h1 hn
      exact h k (by simp; omega)
    · intro h k hk
      have hrange : 1 ≤ k ∧ k < 1 + n := by simpa using hk
      exact h k hrange.1 (by omega)

-- A file that does not load is announced all the same.
def unreadable : Attempt := ⟨none, false, .ok, .ok, .ok⟩

theorem unreadable_image_announced :
    announced (transmission (fun _ => unreadable) 1) = ['(', ')'] ∧
      ((sent (transmission (fun _ => unreadable) 1)).filter isFrame).length ≠ 1 := by
  constructor
  · simp [transmission, transmitLoop, announceLoop, announced, Output.char?]
  · simp [transmission, transmitLoop, announceLoop, sendFrame, unreadable, isFrame]

end FabricInspection.Camera
