import FabricInspection.Receiver.Callback

namespace FabricInspection.Receiver

-- The bytes after a header are numbered from one: b(n) is b[n - 1].
def TailAt (b : List UInt8) (n : Nat) : Prop :=
  1026 ≤ n ∧ b[n - 2]? = some 0x5D ∧ b[n - 1]? = some 0x5B

instance (b : List UInt8) (n : Nat) : Decidable (TailAt b n) :=
  inferInstanceAs (Decidable (_ ∧ _ ∧ _))

def firstTail (b : List UInt8) : Option Nat :=
  (List.range (b.length + 1)).find? fun n => decide (TailAt b n)

def windowImage (b : List UInt8) (n : Nat) : Image :=
  Vector.ofFn fun j => min (b.getD (n - 1026 + j.val) 0) 127

-- The committed images, and the bytes since the header of a frame that is still open.
def reference : List UInt8 → List Image × Option (List UInt8)
  | [] => ([], none)
  | d :: b =>
    if d = 0xA6 then
      match firstTail b with
      | none => ([], some b)
      | some n => (windowImage b n :: (reference (b.drop n)).1, (reference (b.drop n)).2)
    else reference b
termination_by s => s.length
decreasing_by
  all_goals
    simp only [List.length_cons, List.length_drop]
    omega

def frame (b : List UInt8) : List Image × Option (List UInt8) :=
  match firstTail b with
  | none => ([], some b)
  | some n => (windowImage b n :: (reference (b.drop n)).1, (reference (b.drop n)).2)

theorem reference_nil : reference [] = ([], none) := by rw [reference]

theorem reference_skip {d : UInt8} (h : d ≠ 0xA6) (s : List UInt8) :
    reference (d :: s) = reference s := by rw [reference, if_neg h]

theorem reference_head (b : List UInt8) : reference (0xA6 :: b) = frame b := by
  rw [reference, if_pos rfl, frame]

theorem tailAt_le {b : List UInt8} {n : Nat} (h : TailAt b n) : n ≤ b.length := by
  obtain ⟨hn, -, h1⟩ := h
  have := (List.getElem?_eq_some_iff.mp h1).1
  omega

theorem tailAt_append {b : List UInt8} {n : Nat} (h : n ≤ b.length) (t : List UInt8) :
    TailAt (b ++ t) n ↔ TailAt b n := by
  unfold TailAt
  by_cases hn : 1026 ≤ n
  · rw [List.getElem?_append_left (by omega), List.getElem?_append_left (by omega)]
  · simp [hn]

theorem firstTail_some_iff {b : List UInt8} {n : Nat} :
    firstTail b = some n ↔ TailAt b n ∧ ∀ m < n, ¬ TailAt b m := by
  simp only [firstTail, List.find?_range_eq_some, decide_eq_true_eq, List.mem_range,
    Bool.not_eq_true', decide_eq_false_iff_not]
  constructor
  · rintro ⟨h, -, hm⟩
    exact ⟨h, hm⟩
  · rintro ⟨h, hm⟩
    have := tailAt_le h
    exact ⟨h, by omega, hm⟩

theorem firstTail_none_iff {b : List UInt8} : firstTail b = none ↔ ∀ n, ¬ TailAt b n := by
  simp only [firstTail, List.find?_eq_none, List.mem_range, decide_eq_true_eq]
  constructor
  · intro h n hn
    have := tailAt_le hn
    exact h n (by omega) hn
  · intro h n _
    exact h n

theorem windowImage_append {b : List UInt8} {n : Nat} (hn : 1026 ≤ n) (h : n ≤ b.length)
    (t : List UInt8) : windowImage (b ++ t) n = windowImage b n := by
  unfold windowImage
  congr 1
  funext j
  have hj : j.val < 1024 := j.isLt
  rw [List.getD_eq_getElem?_getD, List.getD_eq_getElem?_getD,
    List.getElem?_append_left (by omega)]

-- The same decoder read one byte at a time: `none` skips, `some b` holds the bytes since the
-- header.
def historyStep : Option (List UInt8) → UInt8 → Option (List UInt8) × Option Image
  | none, d => if d = 0xA6 then (some [], none) else (none, none)
  | some b, d =>
    if TailAt (b ++ [d]) (b.length + 1) then
      (none, some (windowImage (b ++ [d]) (b.length + 1)))
    else (some (b ++ [d]), none)

def resume : Option (List UInt8) → List UInt8 → List Image × Option (List UInt8)
  | none, s => reference s
  | some b, s => frame (b ++ s)

def NoTail : Option (List UInt8) → Prop
  | none => True
  | some b => ∀ n, ¬ TailAt b n

theorem noTail_nil : NoTail (some []) := fun n h => by
  have := tailAt_le h
  have := h.1
  simp at *
  omega

theorem tailAt_concat {b : List UInt8} (hb : NoTail (some b)) {d : UInt8} {n : Nat}
    (h : TailAt (b ++ [d]) n) : n = b.length + 1 := by
  have hn := tailAt_le h
  rw [List.length_append, List.length_singleton] at hn
  by_contra hne
  exact hb n ((tailAt_append (by omega) [d]).mp h)

theorem historyStep_noTail {h : Option (List UInt8)} (hn : NoTail h) (d : UInt8) :
    NoTail (historyStep h d).1 := by
  cases h with
  | none =>
    simp only [historyStep]
    split
    · exact noTail_nil
    · trivial
  | some b =>
    simp only [historyStep]
    split
    · trivial
    · rename_i hd
      intro n ht
      exact hd (tailAt_concat hn ht ▸ ht)

theorem resume_nil {h : Option (List UInt8)} (hn : NoTail h) : resume h [] = ([], h) := by
  cases h with
  | none => exact reference_nil
  | some b => simp [resume, frame, firstTail_none_iff.mpr hn]

theorem resume_cons {h : Option (List UInt8)} (hn : NoTail h) (d : UInt8) (s : List UInt8) :
    resume h (d :: s) =
      ((historyStep h d).2.toList ++ (resume (historyStep h d).1 s).1,
        (resume (historyStep h d).1 s).2) := by
  cases h with
  | none =>
    by_cases hd : d = 0xA6
    · subst hd
      simp [historyStep, resume, reference_head]
    · simp [historyStep, resume, hd, reference_skip hd]
  | some b =>
    have happ : b ++ d :: s = (b ++ [d]) ++ s := by simp
    by_cases ht : TailAt (b ++ [d]) (b.length + 1)
    · have hfirst : firstTail (b ++ d :: s) = some (b.length + 1) := by
        rw [firstTail_some_iff, happ]
        refine ⟨(tailAt_append (by simp) s).mpr ht, ?_⟩
        intro m hm hm'
        have hm'' := (tailAt_append (by simp; omega) s).mp hm'
        have := tailAt_concat hn hm''
        omega
      have hw : windowImage (b ++ d :: s) (b.length + 1) =
          windowImage (b ++ [d]) (b.length + 1) := by
        rw [happ]
        exact windowImage_append ht.1 (by simp) s
      have hdrop : (b ++ d :: s).drop (b.length + 1) = s := by
        rw [happ]
        exact List.drop_left' (by simp)
      simp only [historyStep, if_pos ht, resume, frame, hfirst, hw, hdrop, Option.toList_some,
        List.singleton_append]
    · simp [historyStep, if_neg ht, resume]

theorem resume_append {h : Option (List UInt8)} (hn : NoTail h) (s t : List UInt8) :
    NoTail (resume h s).2 ∧ resume h (s ++ t) =
      ((resume h s).1 ++ (resume (resume h s).2 t).1, (resume (resume h s).2 t).2) := by
  induction s generalizing h with
  | nil =>
    rw [List.nil_append, resume_nil hn]
    exact ⟨hn, rfl⟩
  | cons d s ih =>
    obtain ⟨hlast, happ⟩ := ih (historyStep_noTail hn d)
    rw [List.cons_append, resume_cons hn, resume_cons hn, happ, List.append_assoc]
    exact ⟨hlast, rfl⟩

theorem resume_snoc {h : Option (List UInt8)} (hn : NoTail h) (s : List UInt8) (d : UInt8) :
    resume h (s ++ [d]) = ((resume h s).1 ++ (historyStep (resume h s).2 d).2.toList,
      (historyStep (resume h s).2 d).1) := by
  obtain ⟨hlast, happ⟩ := resume_append hn s [d]
  rw [happ, resume_cons hlast, resume_nil (historyStep_noTail hlast d), List.append_nil]

theorem reference_mono {s t : List UInt8} (h : s <+: t) :
    (reference s).1 <+: (reference t).1 := by
  obtain ⟨rest, rfl⟩ := h
  have happ := (resume_append (h := none) trivial s rest).2
  have hfst : (reference (s ++ rest)).1 = _ := congrArg Prod.fst happ
  rw [hfst]
  exact List.prefix_append _ _

end FabricInspection.Receiver
