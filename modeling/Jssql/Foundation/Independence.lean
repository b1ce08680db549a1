import Jssql.Foundation.Runs

/-!
Systems whose steps each belong to one component. A step sees of the state what there is of its
component, and leaves what there is of the others. The steps of the others can then be left out
of a run, and steps of different components can be taken in any order.
-/
namespace Foundation

variable {κ σ ι ω : Type} [DecidableEq ι] {step : Steps κ σ} {owner : κ → ι} {view : ι → σ → ω}

structure Independent (step : Steps κ σ) (owner : κ → ι) (view : ι → σ → ω) : Prop where
  enabled {k : κ} {s s' t : σ} : step k s s' → view (owner k) t = view (owner k) s → ∃ t', step k t t'
  own {k : κ} {s s' t t' : σ} : step k s s' → step k t t' → view (owner k) t = view (owner k) s →
    view (owner k) t' = view (owner k) s'
  others {k : κ} {s s' : σ} {i : ι} : step k s s' → i ≠ owner k → view i s' = view i s

/-- The steps of a component. -/
def stepsOf (owner : κ → ι) (i : ι) (ks : List κ) : List κ := ks.filter fun k => owner k = i

theorem stepsOf_own {k : κ} {i : ι} (of : owner k = i) (ks : List κ) :
    stepsOf owner i (k :: ks) = k :: stepsOf owner i ks := List.filter_cons_of_pos (decide_eq_true of)

theorem stepsOf_other {k : κ} {i : ι} (other : owner k ≠ i) (ks : List κ) :
    stepsOf owner i (k :: ks) = stepsOf owner i ks :=
  List.filter_cons_of_neg fun of => other (of_decide_eq_true of)

namespace Independent

variable {ks ls : List κ} {s s' t t' : σ} {i : ι}

/-- The other steps left out, from a state that looks the same. -/
theorem project (ind : Independent step owner view) (run : Run step ks s s') (same : view i t = view i s) :
    ∃ t', Run step (stepsOf owner i ks) t t' ∧ view i t' = view i s' := by
  induction run generalizing t with
  | refl => exact ⟨t, .refl, same⟩
  | @cons k ks s s₁ s' first _ ih =>
      by_cases of : owner k = i
      · subst of
        obtain ⟨t₁, taken⟩ := ind.enabled first same
        obtain ⟨t', rest, final⟩ := ih (ind.own first taken same)
        rw [stepsOf_own rfl]
        exact ⟨t', .cons taken rest, final⟩
      · obtain ⟨t', rest, final⟩ := ih (same.trans (ind.others first (Ne.symm of)).symm)
        rw [stepsOf_other of]
        exact ⟨t', rest, final⟩

theorem stepsOf_stepsOf (ks : List κ) : stepsOf owner i (stepsOf owner i ks) = stepsOf owner i ks := by
  rw [stepsOf, stepsOf, List.filter_filter]
  simp only [Bool.and_self]

/-- Steps that each component can take by itself can be taken together. -/
theorem together (ind : Independent step owner view) (each : ∀ i, ∃ t, Run step (stepsOf owner i ks) s t) :
    ∃ s', Run step ks s s' := by
  induction ks generalizing s with
  | nil => exact ⟨s, .refl⟩
  | cons k ks ih =>
      obtain ⟨t, own⟩ := each (owner k)
      rw [stepsOf_own rfl] at own
      cases own with
      | @cons _ _ _ s₁ _ first rest =>
          suffices later : ∀ i, ∃ t, Run step (stepsOf owner i ks) s₁ t by
            obtain ⟨s', behind⟩ := ih later
            exact ⟨s', .cons first behind⟩
          intro i
          by_cases of : owner k = i
          · subst of
            exact ⟨t, rest⟩
          · obtain ⟨u, run⟩ := each i
            rw [stepsOf_other of] at run
            obtain ⟨u', run', -⟩ := ind.project run (ind.others first (Ne.symm of))
            rw [stepsOf_stepsOf] at run'
            exact ⟨u', run'⟩

/-- Two runs that look the same at the start do so at the end. -/
theorem agree (ind : Independent step owner view) (run : Run step ks s s') (run' : Run step ks t t')
    (same : view i t = view i s) : view i t' = view i s' := by
  induction run generalizing t with
  | refl =>
      cases run'
      exact same
  | @cons k _ _ _ _ first _ ih =>
      cases run' with
      | cons first' rest' =>
          refine ih rest' ?_
          by_cases of : i = owner k
          · subst of
            exact ind.own first first' same
          · rw [ind.others first of, ind.others first' of, same]

/-- Steps of different components can be taken in any order. -/
theorem reorder (ind : Independent step owner view) (run : Run step ks s s')
    (order : ∀ i, stepsOf owner i ls = stepsOf owner i ks) : ∃ t', Run step ls s t' ∧ ∀ i, view i t' = view i s' := by
  have each (i : ι) : ∃ t, Run step (stepsOf owner i ls) s t := by
    obtain ⟨t, own, -⟩ := ind.project (i := i) run rfl
    exact ⟨t, order i ▸ own⟩
  obtain ⟨t', run'⟩ := ind.together each
  refine ⟨t', run', fun i => ?_⟩
  obtain ⟨u, own, final⟩ := ind.project (i := i) run rfl
  obtain ⟨u', own', final'⟩ := ind.project (i := i) run' rfl
  rw [order i] at own'
  rw [← final', ← final]
  exact ind.agree own own' rfl

end Independent
end Foundation
