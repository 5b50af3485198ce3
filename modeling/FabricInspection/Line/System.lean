import FabricInspection.Line.Streams

namespace FabricInspection

open Camera (Act Complete Scene Session Statement Streams brackets reel typed wired)
open Concurrency (Machine Platform Program)
open Concurrency.Program (Keeps keeps_bind keeps_lift keeps_read keeps_seq keeps_when keeps_write)
open Receiver (NoTail Tracks historyStep reference resume resume_snoc)

-- Camera and board, with what is on the two wires between them: uart3 of the camera ends at uart4
-- of the board, uart1 at uart3.
structure Line (w : World) where
  phase : Statement
  camera : Session
  port3 : List Char
  port1 : List UInt8
  board : Config w

namespace Line
variable {w : World}

def boot (w : World) (pin : Pin → Bool) (found : MotorId → Bool) (files : Nat → Option Camera.Gray) :
    Line w :=
  ⟨.count, (Camera.session files).init, [], [], start w pin found⟩

def acts (l : Line w) : List Act := l.camera.acts

def events (l : Line w) : List Event := l.board.state.history

inductive Step (l : Line w) : Line w → Prop
  | camera {e : Scene} {q : Statement} {s : Session}
      (hs : l.camera.statement e l.phase = some (q, s)) : Step l
        ⟨q, s, l.port3 ++ typed (s.acts.drop l.acts.length),
          l.port1 ++ wired (s.acts.drop l.acts.length), l.board⟩
  | tick (hi : l.camera.vars.installed = true) :
      Step l { l with camera := { l.camera with vars := l.camera.vars.tick } }
  | dispatch {c : Char} {cs : List Char} {b : Config w} (hp : l.port3 = c :: cs)
      (hs : Platform.step l.board (.start Task.ctrl (some c)) = some b) :
      Step l { l with port3 := cs, board := b }
  -- Only motor commands come from the panel on uart2.
  | panel {c : Char} {b : Config w} (hc : isBracket c = false)
      (hs : Platform.step l.board (.start Task.ctrl (some c)) = some b) :
      Step l { l with board := b }
  | wake {b : Config w} (hs : Platform.step l.board (.start Task.ctrl none) = some b) :
      Step l { l with board := b }
  | receive {d : UInt8} {ds : List UInt8} {b : Config w} (hp : l.port1 = d :: ds)
      (hs : Platform.step l.board (.interrupt (Irq.uart3 d)) = some b) :
      Step l { l with port1 := ds, board := b }
  | poll {b : Config w} (hs : Platform.step l.board (.start Task.recv ()) = some b) :
      Step l { l with board := b }
  | run (i : Task) {b : Config w} (hs : Platform.step l.board (.run i) = some b) :
      Step l { l with board := b }
  | pid {cnt : UInt16} {now : UInt32} {b : Config w}
      (hs : Platform.step l.board (.interrupt (Irq.pid cnt now)) = some b) :
      Step l { l with board := b }

abbrev Reach : Line w → Line w → Prop := Relation.ReflTransGen Step

end Line

-- The bytes that belong to a frame the decoder has not finished.
def Receiver.decoder (r : Receiver) : Vector UInt8 recvBufSize × Nat × Bool :=
  (r.recvBuf, r.recvCnt, r.frameStart)

abbrev SameDecoder (s t : Board) : Prop := t.rx.decoder = s.rx.decoder

theorem Receiver.tracks_decoder {r r' : Receiver} (h : r'.decoder = r.decoder)
    {b : Option (List UInt8)} (ht : r.Tracks b) : r'.Tracks b := by
  obtain ⟨buf, cnt, start, image, ready⟩ := r
  obtain ⟨buf', cnt', start', image', ready'⟩ := r'
  simp only [decoder, Prod.mk.injEq] at h
  obtain ⟨rfl, rfl, rfl⟩ := h
  cases b with
  | none => exact ht
  | some b => exact ht

namespace SameDecoder

theorem frame : Frame SameDecoder := ⟨fun _ _ _ => rfl, fun _ _ _ _ => rfl⟩

theorem keeps_uartCtrlThread (x : Option Char) : Keeps SameDecoder (uartCtrlThread x) := by
  cases x with
  | none => trivial
  | some ch =>
    refine keeps_seq (keeps_write fun _ => rfl) (keeps_seq ?_ (keeps_write fun _ => rfl))
    by_cases ho : ch = '('
    · subst ho
      exact keeps_write fun _ => rfl
    by_cases hc : ch = ')'
    · subst hc
      exact keeps_seq (frame.keeps_beep 80) (keeps_seq (frame.keeps_delay 80) (keeps_seq
        (frame.keeps_beep 80) (keeps_seq (keeps_write fun _ => rfl) (keeps_write fun _ => rfl))))
    exact frame.keeps_uartCtrlSwitch ho hc

theorem keeps_bind_read {α β : Type} (g : Board → α) {q : α → Prog β}
    (hq : ∀ a, Keeps SameDecoder (q a)) : Keeps SameDecoder (Program.read g >>= q) :=
  keeps_bind (keeps_read fun _ => rfl) hq

theorem keeps_delay (ms : Nat) : Keeps SameDecoder (rtThreadMdelay .recv ms) :=
  keeps_seq (keeps_write fun _ => rfl) (keeps_write fun _ => rfl)

theorem keeps_beep (ms : Nat) : Keeps SameDecoder (beep .recv ms) :=
  keeps_seq (keeps_write fun _ => rfl) (keeps_seq (keeps_delay ms) (keeps_write fun _ => rfl))

theorem keeps_defectInspectMain (w : World) : Keeps SameDecoder (defectInspectMain w) := by
  refine keeps_seq (keeps_write fun _ => rfl) (keeps_seq (keeps_write fun _ => rfl) ?_)
  refine keeps_bind_read _ fun c => keeps_bind_read _ fun total => keeps_bind_read _ fun round => ?_
  refine keeps_seq (keeps_when fun _ => ?_) (keeps_write fun _ => rfl)
  unfold storeLast
  split
  · exact keeps_write fun _ => rfl
  · trivial

theorem keeps_generateDefectStatCsv (w : World) : Keeps SameDecoder (generateDefectStatCsv w) := by
  refine keeps_bind (fun _ => ⟨rfl, trivial⟩) fun ok => keeps_when fun _ => ?_
  refine keeps_bind_read _ fun total => keeps_bind_read _ fun last => ?_
  refine keeps_bind (keeps_lift _) fun file => keeps_seq (keeps_write fun _ => rfl) ?_
  refine keeps_bind (keeps_lift _) fun results => keeps_seq (keeps_write fun _ => rfl) ?_
  refine keeps_seq (keeps_delay 300) (keeps_seq (keeps_write fun _ => rfl) ?_)
  refine keeps_seq (keeps_delay 200) (keeps_seq (keeps_beep 80) (keeps_seq (keeps_delay 80) ?_))
  exact keeps_seq (keeps_write fun _ => rfl) (keeps_seq (keeps_write fun _ => rfl)
    (keeps_write fun _ => rfl))

theorem keeps_uartRecvThread (w : World) : Keeps SameDecoder (uartRecvThread w) := by
  refine keeps_bind_read _ fun ready => keeps_seq (keeps_when fun _ => ?_) (keeps_delay 10)
  refine keeps_seq (keeps_write fun _ => rfl) ?_
  refine keeps_seq (keeps_defectInspectMain w) (keeps_seq (keeps_write fun _ => rfl) ?_)
  refine keeps_bind_read _ fun total => keeps_bind_read _ fun round => ?_
  exact keeps_when fun _ => keeps_generateDefectStatCsv w

end SameDecoder
end FabricInspection
