import FabricInspection.Line.Transit

namespace FabricInspection

open Camera (Complete Session Streams brackets typed wired)
open Concurrency (Machine Platform)
open Concurrency.Platform (Keeping)

namespace Line
variable {w : World} {pin : Pin → Bool} {found : MotorId → Bool}
  {files : Nat → Option Camera.Gray} {l m : Line w}

-- What the camera has put on a wire is what the board has got so far and what is under way.
structure Carried (pin : Pin → Bool) (found : MotorId → Bool) (files : Nat → Option Camera.Gray)
    (l : Line w) : Prop where
  camera : (Camera.session files).Reach l.phase l.camera
  board : Platform.Reach (start w pin found) l.board
  keeping : Keeping OffWire l.board
  given : ∃ given, given ++ l.port3.filter isBracket = brackets l.acts ∧ Given l.board given
  read : ∃ read, read ++ l.port1 = wired l.acts ∧ Decoded l.board read
  streams : Complete l.acts → Streams l.acts

namespace Carried

theorem boot : Carried pin found files (boot w pin found files) where
  camera := .init
  board := .refl _
  keeping := Platform.keeping_boot _
  given := ⟨[], rfl, .inr ⟨trivial, rfl⟩⟩
  read := ⟨[], rfl, none, Receiver.reference_nil, rfl⟩
  streams := fun _ => Streams.init

-- A step of the board that takes nothing from the wires.
theorem inside {a : (inspector w).Action} {b : Config w} (h : Carried pin found files l)
    (hs : Platform.step l.board a = some b) (hc : ∀ ch, a ≠ .start Task.ctrl (some ch))
    (hx : ∀ x, a ≠ .interrupt (Irq.uart3 x)) : Carried pin found files { l with board := b } := by
  obtain ⟨given, hgiven, hg⟩ := h.given
  obtain ⟨read, hread, hd⟩ := h.read
  exact ⟨h.camera, h.board.tail hs, h.keeping.step offWire_entry hs,
    ⟨given, hgiven, hg.step h.keeping hs hc⟩, ⟨read, hread, hd.step h.keeping hs hx⟩, h.streams⟩

theorem dispatch {ch : Char} {cs : List Char} {b : Config w} (h : Carried pin found files l)
    (hs : Platform.step l.board (.start Task.ctrl (some ch)) = some b)
    (hp : l.port3.filter isBracket = [ch].filter isBracket ++ cs.filter isBracket) :
    Carried pin found files { l with port3 := cs, board := b } := by
  obtain ⟨given, hgiven, hg⟩ := h.given
  obtain ⟨read, hread, hd⟩ := h.read
  refine ⟨h.camera, h.board.tail hs, h.keeping.step offWire_entry hs,
    ⟨given ++ [ch].filter isBracket, ?_, hg.dispatch hs⟩,
    ⟨read, hread, hd.step h.keeping hs nofun⟩, h.streams⟩
  rw [List.append_assoc, ← hp]
  exact hgiven

theorem receive {x : UInt8} {xs : List UInt8} {b : Config w} (h : Carried pin found files l)
    (hs : Platform.step l.board (.interrupt (Irq.uart3 x)) = some b) (hp : l.port1 = x :: xs) :
    Carried pin found files { l with port1 := xs, board := b } := by
  obtain ⟨given, hgiven, hg⟩ := h.given
  obtain ⟨read, hread, hd⟩ := h.read
  refine ⟨h.camera, h.board.tail hs, h.keeping.step offWire_entry hs,
    ⟨given, hgiven, hg.step h.keeping hs nofun⟩, ⟨read ++ [x], ?_, hd.receive hs⟩, h.streams⟩
  rw [List.append_assoc, List.singleton_append, ← hp]
  exact hread

theorem statement {e : Camera.Scene} {q : Camera.Statement} {s : Session}
    (h : Carried pin found files l) (hs : l.camera.statement e l.phase = some (q, s)) :
    Carried pin found files ⟨q, s, l.port3 ++ typed (s.acts.drop l.acts.length),
      l.port1 ++ wired (s.acts.drop l.acts.length), l.board⟩ := by
  have hprefix := Session.acts_mono hs
  obtain ⟨es, hes⟩ := hprefix
  have hdrop : s.acts.drop l.acts.length = es := by
    rw [← hes]
    exact List.drop_left
  obtain ⟨given, hgiven, hg⟩ := h.given
  obtain ⟨read, hread, hd⟩ := h.read
  rw [hdrop]
  refine ⟨h.camera.own ⟨e, hs⟩, h.board, h.keeping, ⟨given, ?_, hg⟩, ⟨read, ?_, hd⟩, fun hc => ?_⟩
  · have hsent : brackets s.acts = brackets l.acts ++ brackets es := by
      rw [← hes]
      exact Camera.brackets_append _ es
    rw [List.filter_append, ← List.append_assoc, hgiven]
    exact hsent.symm
  · have hsent : wired s.acts = wired l.acts ++ wired es := by
      rw [← hes]
      exact Camera.wired_append _ es
    rw [← List.append_assoc, hread]
    exact hsent.symm
  · have hpast : Complete l.acts := Complete.of_prefix hc ⟨es, hes⟩
    exact Camera.streams_statement (Camera.stage_reach h.camera).1 (h.streams hpast) hs hc

theorem step (h : Carried pin found files l) (hs : Step l m) : Carried pin found files m := by
  cases hs with
  | camera hs => exact h.statement hs
  | tick hi => exact ⟨h.camera.env ⟨hi, rfl⟩, h.board, h.keeping, h.given, h.read, h.streams⟩
  | dispatch hp hs => exact h.dispatch hs (by rw [hp, ← List.filter_append]; rfl)
  | panel hc hs => exact h.dispatch hs (by simp [hc])
  | wake hs | poll hs | run i hs | pid hs => exact h.inside hs nofun nofun
  | receive hp hs => exact h.receive hs hp

end Carried

theorem carried (h : Reach (boot w pin found files) l) : Carried pin found files l := by
  induction h with
  | refl => exact .boot
  | tail _ hs ih => exact ih.step hs

end Line
end FabricInspection
