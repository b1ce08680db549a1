import Jssql.Foundation.Loop

/-!
Two programs that differ in whether a fault of some kind stops them. `q` shadows
`p` when it never stops so and does exactly what `p` does, unless `p` stops so;
then nothing is said of what `q` goes on to do. The two agree on a state if and
only if `p` does not stop with such a fault there.
-/
namespace Foundation

variable {ε σ α β ι : Type} {stop : ε → Prop}

def Shadows (stop : ε → Prop) (p q : EStateM ε σ α) : Prop :=
  ∀ s, (∀ e s', q.run s = .error e s' → ¬ stop e) ∧
    (p.run s = q.run s ∨ ∃ e s', p.run s = .error e s' ∧ stop e)

namespace Shadows

/-- A program that never stops so shadows itself. -/
theorem ofSame {p : EStateM ε σ α} (h : Keeps (fun _ => True) (fun e => ¬ stop e) p) :
    Shadows stop p p :=
  fun _ => ⟨fun _ _ stops => h.fault trivial stops, .inl rfl⟩

theorem ofPure (a : α) : Shadows stop (pure a : EStateM ε σ α) (pure a) := ofSame (.ofPure a)

theorem bind {p q : EStateM ε σ α} {f g : α → EStateM ε σ β} (hp : Shadows stop p q)
    (hf : ∀ a, Shadows stop (f a) (g a)) : Shadows stop (p >>= f) (q >>= g) := by
  intro s
  obtain ⟨never, same | ⟨e, s', stops, kind⟩⟩ := hp s
  · rw [EStateM.run_bind, EStateM.run_bind, same]
    cases ended : q.run s with
    | ok a s' => exact hf a s'
    | error e s' =>
        refine ⟨fun e' s'' stops => ?_, .inl rfl⟩
        cases stops
        exact never e s' ended
  · refine ⟨fun e' s'' stops' => ?_, .inr ⟨e, s', run_bind_error stops f, kind⟩⟩
    rw [EStateM.run_bind] at stops'
    cases ended : q.run s with
    | ok a v =>
        rw [ended] at stops'
        exact (hf a v).1 e' s'' stops'
    | error e v =>
        rw [ended] at stops'
        cases stops'
        exact never _ _ ended

/-- Both read the same state. -/
theorem bindGet {f g : σ → EStateM ε σ β} (hf : ∀ s, Shadows stop (f s) (g s)) :
    Shadows stop (get >>= f) (get >>= g) := fun s => hf s s

theorem ofIte {c : Prop} [Decidable c] {p q p' q' : EStateM ε σ α} (hp : Shadows stop p p')
    (hq : Shadows stop q q') : Shadows stop (if c then p else q) (if c then p' else q') := by
  split
  · exact hp
  · exact hq

theorem ofMapM {f g : ι → EStateM ε σ β} (items : List ι) (hf : ∀ i, Shadows stop (f i) (g i)) :
    Shadows stop (items.mapM f) (items.mapM g) := by
  induction items with
  | nil => exact ofPure _
  | cons i rest ih =>
      rw [List.mapM_cons, List.mapM_cons]
      exact (hf i).bind fun _ => ih.bind fun _ => ofPure _

theorem ofRepeatUntil {outOfRounds : ε} {body body' : β → EStateM ε σ (Bool × β)}
    (other : ¬ stop outOfRounds) (hb : ∀ b, Shadows stop (body b) (body' b)) (rounds : Nat) (b : β) :
    Shadows stop (repeatUntil outOfRounds body rounds b) (repeatUntil outOfRounds body' rounds b) := by
  induction rounds generalizing b with
  | zero => exact ofSame (.ofThrow other)
  | succ rounds ih => exact (hb b).bind fun r => ofIte (ofPure _) (ih r.2)

/-- A handler that passes on the faults of the kind. -/
theorem ofTryCatch {p q : EStateM ε σ α} {handler handler' : ε → EStateM ε σ α}
    (hp : Shadows stop p q) (passes : ∀ e, stop e → handler e = throw e)
    (hh : ∀ e, ¬ stop e → Shadows stop (handler e) (handler' e)) :
    Shadows stop (tryCatch p handler) (tryCatch q handler') := by
  intro s
  obtain ⟨never, same | ⟨e, s', stops, kind⟩⟩ := hp s
  · rw [run_tryCatch, run_tryCatch, same]
    cases ended : q.run s with
    | ok a s' => exact ⟨fun _ _ stops => (by cases stops), .inl rfl⟩
    | error e s' => exact hh e (never e s' ended) s'
  · refine ⟨fun e' s'' stops' => ?_, .inr ⟨e, s', ?_, kind⟩⟩
    · rw [run_tryCatch] at stops'
      cases ended : q.run s with
      | ok a v => rw [ended] at stops'; cases stops'
      | error e v =>
          rw [ended] at stops'
          exact (hh e (never e v ended) v).1 e' s'' stops'
    · rw [run_tryCatch, stops]
      dsimp only
      rw [passes e kind]
      rfl

end Shadows

end Foundation
