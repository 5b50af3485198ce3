import Mathlib.Tactic.Common

namespace FabricInspection

abbrev imageSize : Nat := 1024
abbrev frameTailSeqLen : Nat := 2
abbrev uartRxBufSize : Nat := 64
abbrev recvBufSize : Nat := 1032
def valMax : UInt8 := 127
def frameHead : UInt8 := 0xA6
def frameTailSeq : List UInt8 := [0x5D, 0x5B]

abbrev Image := Vector UInt8 imageSize

-- An access the C program leaves undefined: the index or the length it uses.
inductive Fault where
  | recvBuf (i : Nat)
  | lastDetect (i : Nat)
  | names (i : Nat)
  | header (len : Nat)
  | line (len : Nat)
  deriving DecidableEq, Repr

structure Receiver where
  recvBuf : Vector UInt8 recvBufSize
  recvCnt : Nat
  frameStart : Bool
  imageBuffer : Image
  frameReady : Bool

namespace Receiver

def init : Receiver where
  recvBuf := Vector.replicate recvBufSize 0
  recvCnt := 0
  frameStart := false
  imageBuffer := Vector.replicate imageSize 0
  frameReady := false

def clampVal (val : UInt8) : UInt8 := if val > valMax then valMax else val

def start (r : Receiver) : Receiver :=
  { r with frameStart := true, recvCnt := 0, recvBuf := Vector.replicate recvBufSize 0 }

def append (r : Receiver) (d : UInt8) : Receiver :=
  if h : r.recvCnt < recvBufSize then
    { r with recvBuf := r.recvBuf.set r.recvCnt d, recvCnt := r.recvCnt + 1 }
  else r

def tailMatch (r : Receiver) : Nat → List UInt8 → Except Fault Bool
  | _, [] => .ok true
  | pos, t :: ts =>
    if h : pos < recvBufSize then
      if r.recvBuf[pos] ≠ t then .ok false else r.tailMatch (pos + 1) ts
    else .error (.recvBuf pos)

def image (r : Receiver) : Image :=
  Vector.ofFn fun j =>
    have h : j.val < recvBufSize := Nat.lt_of_lt_of_le j.isLt (by decide)
    clampVal r.recvBuf[j.val]

def commit (r : Receiver) : Receiver :=
  { r with imageBuffer := r.image, frameReady := true, frameStart := false, recvCnt := 0 }

-- memmove(recv_buf, recv_buf + 1, sizeof(recv_buf) - 1) leaves the last byte where it was.
def slide (r : Receiver) : Receiver :=
  { r with
    recvBuf := Vector.ofFn fun i =>
      if h : i.val + 1 < recvBufSize then r.recvBuf[i.val + 1] else r.recvBuf[i]
    recvCnt := r.recvCnt - 1 }

def uartRxByte (r : Receiver) (d : UInt8) : Except Fault (Receiver × Option Image) :=
  if r.frameStart = false then
    if d = frameHead then .ok (r.start, none) else .ok (r, none)
  else
    let r := r.append d
    if r.recvCnt ≥ imageSize + frameTailSeqLen then do
      let found ← r.tailMatch (r.recvCnt - frameTailSeqLen) frameTailSeq
      if found then .ok (r.commit, some r.image) else .ok (r.slide, none)
    else .ok (r, none)

def uartRxBytes : Receiver → List UInt8 → Except Fault (Receiver × List Image)
  | r, [] => .ok (r, [])
  | r, d :: ds => do
    let (r, image) ← r.uartRxByte d
    let (r, images) ← r.uartRxBytes ds
    .ok (r, image.toList ++ images)

-- rt_device_read hands over at most sizeof(uart_rx_buf) of the bytes that wait in the FIFO.
def uartRxCallback (r : Receiver) (fifo : List UInt8) : Except Fault (Receiver × List Image) :=
  r.uartRxBytes (fifo.take uartRxBufSize)

def uartRxCallbacks : Receiver → List (List UInt8) → Except Fault (Receiver × List Image)
  | r, [] => .ok (r, [])
  | r, fifo :: rest => do
    let (r, images) ← r.uartRxCallback fifo
    let (r, later) ← r.uartRxCallbacks rest
    .ok (r, images ++ later)

theorem uartRxBytes_cons {r r' : Receiver} {d : UInt8} {image : Option Image}
    (h : r.uartRxByte d = .ok (r', image)) (ds : List UInt8) :
    r.uartRxBytes (d :: ds) =
      (r'.uartRxBytes ds).map fun p => (p.1, image.toList ++ p.2) := by
  simp only [uartRxBytes, h, bind, Except.bind]
  cases r'.uartRxBytes ds <;> rfl

theorem uartRxBytes_append (r : Receiver) (ds es : List UInt8) :
    r.uartRxBytes (ds ++ es) = (r.uartRxBytes ds).bind fun p =>
      (p.1.uartRxBytes es).map fun q => (q.1, p.2 ++ q.2) := by
  induction ds generalizing r with
  | nil => cases h : r.uartRxBytes es <;> simp [uartRxBytes, Except.bind, Except.map, h]
  | cons d ds ih =>
    cases hd : r.uartRxByte d with
    | error e => simp [uartRxBytes, hd, bind, Except.bind]
    | ok p =>
      rw [List.cons_append, uartRxBytes_cons hd, uartRxBytes_cons hd, ih]
      cases hp : p.1.uartRxBytes ds with
      | error e => rfl
      | ok q =>
        cases hq : q.1.uartRxBytes es <;> simp [Except.bind, Except.map, hq]

-- How the line cuts the stream into callbacks does not matter.
theorem uartRxCallbacks_eq {r : Receiver} {chunks : List (List UInt8)}
    (h : ∀ c ∈ chunks, c.length ≤ uartRxBufSize) :
    r.uartRxCallbacks chunks = r.uartRxBytes chunks.flatten := by
  induction chunks generalizing r with
  | nil => rfl
  | cons c rest ih =>
    have hc : c.take uartRxBufSize = c := List.take_of_length_le (h c (by simp))
    rw [List.flatten_cons, uartRxBytes_append, uartRxCallbacks, uartRxCallback, hc]
    cases hd : r.uartRxBytes c with
    | error e => rfl
    | ok p =>
      have hr := ih (r := p.1) (fun d hd => h d (by simp [hd]))
      simp only [bind, Except.bind, hr]
      cases p.1.uartRxBytes rest.flatten <;> rfl

end Receiver
end FabricInspection
