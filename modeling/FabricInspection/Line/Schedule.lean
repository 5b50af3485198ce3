import FabricInspection.Batching.Announcements
import FabricInspection.Inspection.Midframe
import FabricInspection.Line.Brackets

namespace FabricInspection

open Batching (place place_next place_snoc placeStep stream)
open Concurrency.Trace (Every every_snoc)

def Event.total? : Event → Option UInt8
  | .announced n => some n
  | _ => none

def totals (log : List Event) : List Nat := (log.filterMap Event.total?).map UInt8.toNat

-- What the schedule of the rounds asks of time alone: a round is announced after the end of the
-- one before, and its images come after its announcement.
def Timely (pre : List Event) : Event → Prop
  | .counted | .announced _ => announcements pre ≤ closings pre
  | .committed _ => (commits pre).length < (totals pre).sum
  | _ => True

def Tallied (pre : List Event) (e : Event) : Prop := ∀ n, e = .announced n → n = tally pre

section
variable {log : List Event} {e : Event} {sizes : List Nat} {rounds : List (List Image)}

theorem totals_quiet (h : e.announces = false) : totals (log ++ [e]) = totals log := by
  cases e with
  | announced => cases h
  | _ => simp [totals, Event.total?]

theorem totals_announced (log : List Event) (n : UInt8) :
    totals (log ++ [Event.announced n]) = totals log ++ [n.toNat] := by
  simp [totals, Event.total?]

theorem told_mono {more : List Event} (h : log <+: more) : told log <+: told more := by
  obtain ⟨rest, rfl⟩ := h
  exact ⟨told rest, (List.filterMap_append ..).symm⟩

theorem commits_mono {more : List Event} (h : log <+: more) : commits log <+: commits more := by
  obtain ⟨rest, rfl⟩ := h
  exact ⟨commits rest, (List.filterMap_append ..).symm⟩

-- The brackets told so far stand where the log says the rounds are.
theorem place_told (log : List Event) :
    (place '(' (told log)).1 = announcements log ∧
      UInt8.ofNat (place '(' (told log)).2 = tally log := by
  induction log using List.reverseRecOn with
  | nil => exact ⟨rfl, rfl⟩
  | append_singleton log e ih =>
    have hplace {c : Char} (h : e.told? = some c) :
        place '(' (told (log ++ [e])) = placeStep '(' (place '(' (told log)) c := by
      rw [told_snoc, h, Option.toList_some, place_snoc]
    cases e with
    | counted =>
      rw [hplace rfl, announcements_quiet rfl, tally_snoc]
      refine ⟨ih.1, ?_⟩
      have hnext : UInt8.ofNat ((place '(' (told log)).2 + 1) = tally log + 1 := by
        rw [UInt8.ofNat_add, ih.2]
        rfl
      exact hnext
    | announced n =>
      rw [hplace rfl, announcements_announced, tally_snoc, ← ih.1]
      exact ⟨rfl, rfl⟩
    | _ =>
      rw [told_quiet rfl, announcements_quiet rfl, tally_snoc]
      exact ih

-- The next bracket is told while its round is open for it.
theorem told_next (hp : told (log ++ [e]) <+: stream '(' ')' sizes) (hfit : ∀ n ∈ sizes, n < 256)
    {c : Char} (hc : e.told? = some c) : ∃ n, sizes[announcements log]? = some n ∧
      (c = '(' ∧ (tally log).toNat < n ∨ c = ')' ∧ (tally log).toNat = n) := by
  rw [told_snoc, hc, Option.toList_some] at hp
  obtain ⟨n, hn, hor⟩ := place_next (by decide) hp
  obtain ⟨hround, hmarks⟩ := place_told log
  have hlt : n < 256 := hfit n (List.mem_of_getElem? hn)
  have htally : (place '(' (told log)).2 ≤ n → (tally log).toNat = (place '(' (told log)).2 := by
    intro hle
    rw [← hmarks, UInt8.toNat_ofNat_of_lt' (lt_of_le_of_lt hle hlt)]
  rw [hround] at hn
  refine ⟨n, hn, ?_⟩
  rcases hor with ⟨hc, hlt⟩ | ⟨hc, heq⟩
  · exact .inl ⟨hc, (htally hlt.le).trans_lt hlt⟩
  · exact .inr ⟨hc, (htally heq.le).trans heq⟩

theorem totals_sizes (hp : told log <+: stream '(' ')' sizes) (hfit : ∀ n ∈ sizes, n < 256)
    (ht : Every Tallied log) : totals log = sizes.take (announcements log) := by
  induction log using List.reverseRecOn with
  | nil => rfl
  | append_singleton log e ih =>
    obtain ⟨hpast, hlast⟩ := every_snoc.mp ht
    have ih := ih ((told_mono (List.prefix_append _ _)).trans hp) hpast
    cases e with
    | announced n =>
      obtain ⟨m, hm, hor⟩ := told_next hp hfit (c := ')') rfl
      have hn : n.toNat = m := by
        rcases hor with ⟨hc, -⟩ | ⟨-, heq⟩
        · exact absurd hc (by decide)
        · rw [hlast n rfl, heq]
      rw [totals_announced, announcements_announced, ih, hn, List.take_add_one, hm]
      rfl
    | _ =>
      rw [totals_quiet rfl, announcements_quiet rfl]
      exact ih

theorem sum_totals (rounds : List (List Image)) (a : Nat) :
    ((rounds.map List.length).take a).sum = (rounds.take a).flatten.length := by
  rw [← List.map_take, List.length_flatten]

theorem scheduled (hsizes : RoundSizes rounds)
    (htold : told log <+: stream '(' ')' (rounds.map List.length))
    (hcommits : commits log <+: rounds.flatten) (ht : Every Tallied log)
    (htime : Every Timely log) : Every (Scheduled rounds) log := by
  have hfit : ∀ n ∈ rounds.map List.length, n < 256 := by
    intro n hn
    obtain ⟨images, hi, rfl⟩ := List.mem_map.mp hn
    exact lt_of_le_of_lt (hsizes images hi).2 (by decide)
  intro pre e post hlog
  have hnext : pre ++ [e] <+: log := ⟨post, by rw [hlog, List.append_assoc]; rfl⟩
  have hpre : pre <+: log := ⟨e :: post, hlog.symm⟩
  have htoldNext := (told_mono hnext).trans htold
  have htime := htime pre e post hlog
  have hround {c : Char} (hc : e.told? = some c) : ∃ images, rounds[announcements pre]? = some images ∧
      (c = '(' ∧ (tally pre).toNat < images.length ∨
        c = ')' ∧ (tally pre).toNat = images.length) := by
    obtain ⟨n, hn, hor⟩ := told_next htoldNext hfit hc
    rw [List.getElem?_map, Option.map_eq_some_iff] at hn
    obtain ⟨images, hi, rfl⟩ := hn
    exact ⟨images, hi, hor⟩
  cases e with
  | counted =>
    obtain ⟨images, hi, ⟨-, hlt⟩ | ⟨hc, -⟩⟩ := hround rfl
    · exact ⟨htime, images, hi, hlt⟩
    · exact absurd hc (by decide)
  | announced n =>
    obtain ⟨images, hi, ⟨hc, -⟩ | ⟨-, heq⟩⟩ := hround rfl
    · exact absurd hc (by decide)
    · exact ⟨htime, images, hi, heq⟩
  | committed image =>
    have hlt : (commits pre).length < (rounds.take (announcements pre)).flatten.length := by
      have htotals := totals_sizes ((told_mono hpre).trans htold) hfit (ht.of_prefix hpre)
      rw [← sum_totals, ← htotals]
      exact htime
    obtain ⟨later, hlater⟩ := (commits_mono hnext).trans hcommits
    have hsplit : rounds.flatten = (rounds.take (announcements pre)).flatten ++
        (rounds.drop (announcements pre)).flatten := by
      rw [← List.flatten_append, List.take_append_drop]
    have hget : rounds.flatten[(commits pre).length]? = some image := by
      rw [← hlater, commits_snoc, List.append_assoc, List.getElem?_append_right le_rfl, Nat.sub_self]
      rfl
    rw [hsplit, List.getElem?_append_left hlt] at hget
    exact hget
  | _ => trivial

end
end FabricInspection
