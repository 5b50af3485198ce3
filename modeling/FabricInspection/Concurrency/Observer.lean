import FabricInspection.Concurrency.Platform

namespace Concurrency.Platform
variable {σ φ γ : Type} {P : Platform σ φ}

-- A run of steps that `ok` lets through, with what an observer makes of them.
inductive Observed (see : γ → P.Config → P.Action → P.Config → γ)
    (ok : γ → P.Config → P.Action → P.Config → Prop) (g : γ) (c : P.Config) :
    γ → P.Config → Prop
  | start : Observed see ok g c g c
  | step {g' : γ} {d e : P.Config} {a : P.Action} (h : Observed see ok g c g' d)
      (hs : step d a = some e) (hok : ok g' d a e) : Observed see ok g c (see g' d a e) e

namespace Observed
variable {see : γ → P.Config → P.Action → P.Config → γ}
  {ok : γ → P.Config → P.Action → P.Config → Prop} {g g' : γ} {c d : P.Config}

theorem reach (h : Observed see ok g c g' d) : Reach c d := by
  induction h with
  | start => exact .refl c
  | step h hs hok ih => exact ih.tail hs

-- Every run can be watched.
theorem of_reach (see : γ → P.Config → P.Action → P.Config → γ) (g : γ) (h : Reach c d) :
    ∃ g', Observed see (fun _ _ _ _ => True) g c g' d := by
  refine Reach.induct (motive := fun d => ∃ g', Observed see (fun _ _ _ _ => True) g c g' d)
    ⟨g, .start⟩ ?_ d h
  rintro d a e - ⟨g', hd⟩ hs
  exact ⟨_, hd.step hs trivial⟩

end Observed
end Concurrency.Platform
