import FabricInspection.Batching.Rounds

-- Rounds announced by counting: a mark for each item, and another one at the end of the round.
namespace Batching
variable {α : Type} {mark stop : α} {sizes : List Nat}

def announce (mark stop : α) (n : Nat) : List α := List.replicate n mark ++ [stop]

def stream (mark stop : α) (sizes : List Nat) : List α :=
  sizes.flatMap (announce mark stop)

-- The announcements that are complete, and the marks since the last of them.
def placeStep [DecidableEq α] (mark : α) (p : Nat × Nat) (c : α) : Nat × Nat :=
  if c = mark then (p.1, p.2 + 1) else (p.1 + 1, 0)

def place [DecidableEq α] (mark : α) (xs : List α) : Nat × Nat := xs.foldl (placeStep mark) (0, 0)

section
variable [DecidableEq α] {xs : List α}

theorem place_snoc (xs : List α) (c : α) : place mark (xs ++ [c]) = placeStep mark (place mark xs) c := by
  rw [place, List.foldl_append]
  rfl

theorem foldl_placeStep_add (xs : List α) (k : Nat) (p : Nat × Nat) :
    xs.foldl (placeStep mark) (p.1 + k, p.2) =
      ((xs.foldl (placeStep mark) p).1 + k, (xs.foldl (placeStep mark) p).2) := by
  induction xs generalizing p with
  | nil => rfl
  | cons c xs ih =>
    rw [List.foldl_cons, List.foldl_cons, ← ih]
    congr 1
    rw [placeStep, placeStep]
    split
    · rfl
    · rw [Nat.add_right_comm]

theorem foldl_replicate_mark (n : Nat) (p : Nat × Nat) :
    (List.replicate n mark).foldl (placeStep mark) p = (p.1, p.2 + n) := by
  induction n generalizing p with
  | zero => rfl
  | succ n ih =>
    rw [List.replicate_succ, List.foldl_cons, ih, placeStep, if_pos rfl, Nat.add_assoc,
      Nat.add_comm 1]

theorem place_replicate (n : Nat) : place mark (List.replicate n mark) = (0, n) := by
  rw [place, foldl_replicate_mark, Nat.zero_add]

theorem place_announced (h : stop ≠ mark) (n : Nat) (xs : List α) :
    place mark (announce mark stop n ++ xs) = ((place mark xs).1 + 1, (place mark xs).2) := by
  rw [place, announce, List.foldl_append, List.foldl_append, foldl_replicate_mark]
  have hstep : placeStep mark (0, 0 + n) stop = (0 + 1, 0) := if_neg h
  rw [List.foldl_cons, List.foldl_nil, hstep]
  exact foldl_placeStep_add xs 1 (0, 0)

-- The next character of a stream of announcements is told by the place in it.
theorem place_next (h : stop ≠ mark) {c : α} (hp : xs ++ [c] <+: stream mark stop sizes) :
    ∃ n, sizes[(place mark xs).1]? = some n ∧
      ((c = mark ∧ (place mark xs).2 < n) ∨ (c = stop ∧ (place mark xs).2 = n)) := by
  induction sizes generalizing xs with
  | nil => simp [stream] at hp
  | cons n sizes ih =>
    have hcons : stream mark stop (n :: sizes) =
        announce mark stop n ++ stream mark stop sizes := List.flatMap_cons
    rw [hcons] at hp
    rcases Nat.lt_or_ge n xs.length with hlt | hle
    · obtain ⟨ys, rfl⟩ : announce mark stop n <+: xs := by
        refine List.prefix_of_prefix_length_le (List.prefix_append _ (stream mark stop sizes))
          ((List.prefix_append xs [c]).trans hp) ?_
        rw [announce, List.length_append, List.length_replicate]
        exact hlt
      rw [List.append_assoc, List.prefix_append_right_inj] at hp
      obtain ⟨m, hm, hc⟩ := ih hp
      rw [place_announced h]
      exact ⟨m, hm, hc⟩
    · have hshort : xs ++ [c] <+: announce mark stop n := by
        refine List.prefix_of_prefix_length_le hp (List.prefix_append _ _) ?_
        rw [announce, List.length_append, List.length_append, List.length_replicate]
        exact Nat.succ_le_succ hle
      have hxs : xs = List.replicate xs.length mark := by
        refine List.eq_replicate_iff.mpr ⟨rfl, fun x hx => ?_⟩
        have hpre : xs <+: List.replicate n mark := by
          refine List.prefix_of_prefix_length_le ((List.prefix_append xs [c]).trans hshort)
            (List.prefix_append _ _) ?_
          rw [List.length_replicate]
          exact hle
        exact List.eq_of_mem_replicate (hpre.subset hx)
      have hplace : place mark xs = (0, xs.length) := by
        rw [hxs, place_replicate, List.length_replicate]
      have hget : (announce mark stop n)[xs.length]? = some c := by
        obtain ⟨rest, hrest⟩ := hshort
        rw [← hrest, List.append_assoc, List.getElem?_append_right (Nat.le_refl _), Nat.sub_self]
        rfl
      rw [hplace]
      refine ⟨n, rfl, ?_⟩
      rcases Nat.eq_or_lt_of_le hle with heq | hlt
      · rw [announce, heq, List.getElem?_append_right (Nat.le_of_eq List.length_replicate),
          List.length_replicate, Nat.sub_self] at hget
        exact .inr ⟨(Option.some.inj hget).symm, heq⟩
      · rw [announce, List.getElem?_append_left (by rw [List.length_replicate]; exact hlt),
          List.getElem?_replicate, if_pos hlt] at hget
        exact .inl ⟨(Option.some.inj hget).symm, hlt⟩

end
end Batching
