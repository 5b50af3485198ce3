import FabricInspection.Camera.Session
import FabricInspection.Receiver.RoundTrip
import FabricInspection.Line.Brackets

namespace FabricInspection.Camera

open Receiver (wire)

def Act.char? : Act → Option Char
  | .put (.uart3 c) => some c
  | _ => none

def Act.bytes? : Act → Option (List UInt8)
  | .put (.uart1 bs) => some bs
  | _ => none

-- What the camera has put on its two ports.
def typed (acts : List Act) : List Char := acts.filterMap Act.char?

def wired (acts : List Act) : List UInt8 := (acts.filterMap Act.bytes?).flatten

def brackets (acts : List Act) : List Char := (typed acts).filter isBracket

-- Every call of send_frame has put the whole frame on the wire.
def Complete (acts : List Act) : Prop := ∀ bs, .put (.uart1 bs) ∈ acts → bs.length = 1027

-- The images of the announced round that are still to be sent.
def Reel.left (r : Reel) : List Gray := if r.brackets = [] then [] else r.shots.drop r.sent

-- The announcements count the rounds, and the frames are their images in order.
structure Streams (acts : List Act) : Prop where
  announced : brackets acts = Batching.stream '(' ')' ((reel acts).rounds.map List.length)
  sent : ∃ imgs, wired acts = wire imgs ∧ imgs ++ (reel acts).left = (reel acts).rounds.flatten
  full : ∀ shots ∈ (reel acts).rounds, shots ≠ []

@[simp] theorem typed_append (as bs : List Act) : typed (as ++ bs) = typed as ++ typed bs :=
  List.filterMap_append

@[simp] theorem wired_append (as bs : List Act) : wired (as ++ bs) = wired as ++ wired bs := by
  simp [wired]

@[simp] theorem brackets_append (as bs : List Act) :
    brackets (as ++ bs) = brackets as ++ brackets bs := by
  simp [brackets]

theorem wire_snoc (imgs : List Gray) (img : Gray) :
    wire (imgs ++ [img]) = wire imgs ++ sendFrame (.clean img) := by
  simp [wire]

theorem typed_cons (c : Char) (acts : List Act) : typed (.put (.uart3 c) :: acts) = c :: typed acts :=
  rfl

theorem typed_uart3 (cs : List Char) : typed ((cs.map Output.uart3).map Act.put) = cs := by
  induction cs with
  | nil => rfl
  | cons c cs ih => rw [List.map_cons, List.map_cons, typed_cons, ih]

theorem wired_uart3 (cs : List Char) : wired ((cs.map Output.uart3).map Act.put) = [] := by
  induction cs with
  | nil => rfl
  | cons c cs ih => exact ih

theorem Complete.of_prefix {acts more : List Act} (h : Complete more) (hp : acts <+: more) :
    Complete acts :=
  fun bs hbs => h bs (hp.subset hbs)

theorem sendFrame_complete {t : Transfer} {img : Gray}
    (h : (sendFrame (t.attempt (some img))).length = 1027) :
    sendFrame (t.attempt (some img)) = sendFrame (.clean img) := by
  obtain ⟨hsome, hnone⟩ := sendFrame_frame? (t.attempt (some img))
  cases hf : (t.attempt (some img)).frame? with
  | none => exact absurd h (hnone hf).ne
  | some bs =>
    obtain ⟨rfl, -⟩ := hsome bs hf
    have hload : (t.attempt (some img)).load.map frame = some (sendFrame (t.attempt (some img))) := by
      rw [← hf, Attempt.frame?]
      refine (if_pos ?_).symm
      by_contra hno
      rw [Attempt.frame?, if_neg hno] at hf
      cases hf
    obtain ⟨image, hi, hframe⟩ := Option.map_eq_some_iff.mp hload
    have himg : img = image := by
      rw [Transfer.attempt] at hi
      split at hi
      · exact Option.some.inj hi
      · cases hi
    rw [← hframe, ← himg, sendFrame_clean]
    rfl

theorem filter_announcement (n : Nat) : (announcement n).filter isBracket = announcement n := by
  simp [announcement, Batching.announce, isBracket]

namespace Streams
variable {acts es : List Act}

theorem init : Streams [] := ⟨rfl, ⟨[], rfl, rfl⟩, nofun⟩

theorem quiet (h : Streams acts) (hb : brackets es = []) (hw : wired es = [])
    (hr : (reel (acts ++ es)).rounds = (reel acts).rounds)
    (hl : (reel (acts ++ es)).left = (reel acts).left) : Streams (acts ++ es) := by
  refine ⟨?_, ?_, ?_⟩
  · rw [brackets_append, hb, List.append_nil, hr]
    exact h.announced
  · rw [wired_append, hw, List.append_nil, hr, hl]
    exact h.sent
  · rw [hr]
    exact h.full

theorem command (h : Streams acts) {c : Char} (hc : c = 'u' ∨ c = 's') :
    Streams (acts ++ [.put (.uart3 c)]) := by
  have hr := Session.reel_command hc acts
  refine h.quiet ?_ rfl ((congrArg Reel.rounds hr).trans rfl) ((congrArg Reel.left hr).trans rfl)
  rcases hc with rfl | rfl <;> rfl

theorem pass {s : Session} (h : Streams s.acts) (hs : s.Sending)
    (hn : s.vars.imageTransNum ≤ s.vars.imageNum) {img : Gray}
    (himg : (reel s.acts).shots[(reel s.acts).sent]? = some img) :
    Streams (s.acts ++ s.passed (sendFrame (.clean img))) := by
  have hr := hs.reel_pass hn (sendFrame (.clean img))
  have hrounds := congrArg Reel.rounds hr
  have hleft : (reel (s.acts ++ s.passed (sendFrame (.clean img)))).left =
      (reel s.acts).shots.drop ((reel s.acts).sent + 1) := by
    rw [hr]
    exact if_neg (by simp [announcement, Batching.announce])
  have hdrop : img :: (reel s.acts).shots.drop ((reel s.acts).sent + 1) =
      (reel s.acts).shots.drop (reel s.acts).sent := by
    obtain ⟨hlt, rfl⟩ := List.getElem?_eq_some_iff.mp himg
    exact List.getElem_cons_drop hlt
  have htyped : brackets (s.passed (sendFrame (.clean img))) =
      if (reel s.acts).sent = 0 then announcement (reel s.acts).shots.length else [] := by
    rw [Session.passed, hs.announceLoop_eq hn, List.map_append, List.map_cons, brackets_append,
      brackets, typed_cons, typed_uart3]
    split
    · exact (List.append_nil _).trans (filter_announcement _)
    · rfl
  have hwired : wired (s.passed (sendFrame (.clean img))) = sendFrame (.clean img) := by
    rw [Session.passed, hs.announceLoop_eq hn, List.map_append, List.map_cons, wired_append, wired,
      List.filterMap_cons_none rfl, ← wired, wired_uart3]
    simp [wired, Act.bytes?]
  obtain ⟨imgs, hw, himgs⟩ := h.sent
  rcases Nat.eq_zero_or_pos (reel s.acts).sent with h0 | hpos
  · have hold : (reel s.acts).left = [] := if_pos (hs.first h0).1
    rw [hold, List.append_nil] at himgs
    rw [if_pos h0] at hrounds htyped
    refine ⟨?_, ⟨imgs ++ [img], ?_, ?_⟩, ?_⟩
    · rw [brackets_append, h.announced, htyped, hrounds, List.map_append]
      simp [Batching.stream, announcement]
    · rw [wired_append, hw, hwired, wire_snoc]
    · rw [hleft, hrounds, List.append_assoc, List.singleton_append, hdrop, h0, List.drop_zero,
        himgs, List.flatten_append, List.flatten_singleton]
    · intro shots hm
      rw [hrounds] at hm
      rcases List.mem_append.mp hm with hm | hm
      · exact h.full shots hm
      · rw [List.mem_singleton.mp hm]
        rintro hnil
        simp [hnil] at himg
  · have hold : (reel s.acts).left = (reel s.acts).shots.drop (reel s.acts).sent := by
      rw [Reel.left, (hs.later hpos).1]
      exact if_neg (by simp [announcement, Batching.announce])
    rw [if_neg hpos.ne', List.append_nil] at hrounds
    rw [if_neg hpos.ne'] at htyped
    refine ⟨?_, ⟨imgs ++ [img], ?_, ?_⟩, ?_⟩
    · rw [brackets_append, htyped, List.append_nil, hrounds]
      exact h.announced
    · rw [wired_append, hw, hwired, wire_snoc]
    · rw [hleft, hrounds, List.append_assoc, List.singleton_append, hdrop, ← hold]
      exact himgs
    · rw [hrounds]
      exact h.full

end Streams

theorem Session.acts_mono {s t : Session} {e : Scene} {p q : Statement}
    (h : s.statement e p = some (q, t)) : s.acts <+: t.acts := by
  obtain ⟨u, hu, -, rfl⟩ := Session.statement_cases h
  cases p with
  | count | flag | look | install | check | zero | arm | announce | remove | print =>
    cases hu
    exact List.prefix_rfl
  | numbers | callback | disarm | leave =>
    cases hu
    exact List.prefix_append _ _
  | waiting | door =>
    cases hu
    split
    · exact List.prefix_append _ _
    · exact List.prefix_rfl
  | capture =>
    obtain ⟨scaled, -, hu⟩ := Option.bind_eq_some_iff.mp hu
    cases hu
    exact List.prefix_append _ _
  | transmit =>
    simp only [Session.effect] at hu
    split at hu
    · cases hu
      exact List.prefix_append _ _
    · cases hu
      exact List.prefix_append _ _

theorem Session.mem_passed (s : Session) (bs : List UInt8) :
    .put (.uart1 bs) ∈ s.acts ++ s.passed bs := by
  simp [passed]

theorem Session.Looking.left {s : Session} (h : s.Looking) : (reel s.acts).left = [] :=
  if_pos h.brackets

theorem streams_statement {s t : Session} {e : Scene} {p q : Statement} (h : s.Stage p)
    (hs : Streams s.acts) (ht : s.statement e p = some (q, t)) (hc : Complete t.acts) :
    Streams t.acts := by
  obtain ⟨u, hu, rfl, rfl⟩ := Session.statement_cases ht
  cases p with
  | count | flag | look | install | check | zero | arm | announce | remove | print =>
    cases hu
    exact hs
  | numbers =>
    cases hu
    refine hs.quiet rfl rfl (by rw [reel_snoc]; rfl) ?_
    have hleft : (reel s.acts).left = [] := by
      rw [Reel.left, h.2, List.drop_length]
      exact ite_self _
    rw [hleft, reel_snoc]
    rfl
  | callback =>
    cases hu
    exact hs.quiet rfl rfl (by rw [reel_snoc]; rfl) (by rw [reel_snoc]; rfl)
  | waiting =>
    cases hu
    split
    · exact hs.command (.inl rfl)
    · exact hs
  | capture =>
    obtain ⟨scaled, -, hu⟩ := Option.bind_eq_some_iff.mp hu
    cases hu
    have hlooking : s.Looking := h
    refine hs.quiet rfl rfl ?_ ?_
    · rw [reel_append]
      rfl
    · rw [hlooking.left, reel_append]
      exact if_pos hlooking.brackets
  | disarm =>
    cases hu
    exact hs.command (.inl rfl)
  | leave =>
    cases hu
    exact hs.command (.inr rfl)
  | door =>
    cases hu
    split
    · exact hs.command (.inr rfl)
    · exact hs
  | transmit =>
    by_cases hn : s.vars.imageTransNum ≤ s.vars.imageNum
    · simp only [Session.effect, if_pos hn] at hu
      cases hu
      have hlt : (reel s.acts).sent < (reel s.acts).shots.length := by
        have := h.2.trans
        have := h.2.num
        omega
      obtain ⟨img, himg⟩ : ∃ img, (reel s.acts).shots[(reel s.acts).sent]? = some img :=
        ⟨_, List.getElem?_eq_getElem hlt⟩
      have hfile : s.compressed s.vars.imageTransNum = some img := by
        rw [h.2.trans]
        exact h.2.filed _ _ himg
      have hwhole : sendFrame (e.transfer.attempt (some img)) = sendFrame (.clean img) := by
        refine sendFrame_complete ?_
        rw [← hfile]
        exact hc _ (s.mem_passed _)
      rw [hfile, hwhole]
      exact hs.pass h.2 hn himg
    · simp only [Session.effect, if_neg hn] at hu
      cases hu
      exact hs.command (.inr rfl)

end FabricInspection.Camera
