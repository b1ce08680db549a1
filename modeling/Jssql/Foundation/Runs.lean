import Mathlib.Data.List.Basic

/-!
Runs of a system whose steps carry labels. A simulation is a relation to the states of a
second system that every step keeps with a step of the same label; runs then keep it too.
-/
namespace Foundation

/-- The steps of a system: a label, the state before and the state after. -/
abbrev Steps (κ σ : Type) := κ → σ → σ → Prop

variable {κ σ τ : Type} {step : Steps κ σ} {k : κ} {ks ls : List κ} {s s' s'' : σ}

inductive Run (step : Steps κ σ) : List κ → σ → σ → Prop
  | refl {s : σ} : Run step [] s s
  | cons {k : κ} {ks : List κ} {s s' s'' : σ} (first : step k s s') (rest : Run step ks s' s'') :
      Run step (k :: ks) s s''

namespace Run

theorem append (h : Run step ks s s') (h' : Run step ls s' s'') : Run step (ks ++ ls) s s'' := by
  induction h with
  | refl => exact h'
  | cons first _ ih => exact .cons first (ih h')

/-- A simulation of the steps of the labels is one of runs. -/
theorem simulate {other : Steps κ τ} {R : σ → τ → Prop} (h : Run step ks s s') {t : τ} (related : R s t)
    (simulated : ∀ k ∈ ks, ∀ s s' t, R s t → step k s s' → ∃ t', other k t t' ∧ R s' t') :
    ∃ t', Run other ks t t' ∧ R s' t' := by
  induction h generalizing t with
  | refl => exact ⟨t, .refl, related⟩
  | cons first _ ih =>
      rw [List.forall_mem_cons] at simulated
      obtain ⟨u, taken, related⟩ := simulated.1 _ _ _ related first
      obtain ⟨t', run, final⟩ := ih related simulated.2
      exact ⟨t', .cons taken run, final⟩

end Run

end Foundation
