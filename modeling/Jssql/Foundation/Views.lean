import Jssql.Foundation.Loop

/-!
Programs that see a part of the state. From states of which they see the same, two programs
that are alike return the same, or stop with the same fault, and they leave states of which the
same is seen. There is one rule for each way to build a program.
-/
namespace Foundation

variable {ε σ α β ω ι : Type}

/-- The same ending, and the same to be seen of the states. -/
inductive SameEnd (view : σ → ω) : EStateM.Result ε σ α → EStateM.Result ε σ α → Prop
  | ok {a : α} {s t : σ} (same : view s = view t) : SameEnd view (.ok a s) (.ok a t)
  | error {e : ε} {s t : σ} (same : view s = view t) : SameEnd view (.error e s) (.error e t)

def Alike (view : σ → ω) (p q : EStateM ε σ α) : Prop :=
  ∀ s t, view s = view t → SameEnd view (p.run s) (q.run t)

theorem SameEnd.of_ok {view : σ → ω} {r : EStateM.Result ε σ α} {a : α} {s : σ} (h : SameEnd view (.ok a s) r) :
    ∃ t, r = .ok a t ∧ view s = view t := by
  cases h with
  | ok same => exact ⟨_, rfl, same⟩

namespace Alike

variable {view : σ → ω}

theorem ofPure (a : α) : Alike view (pure a : EStateM ε σ α) (pure a) := fun _ _ same => .ok same

theorem ofThrow (e : ε) : Alike view (throw e : EStateM ε σ α) (throw e) := fun _ _ same => .error same

theorem ofModify {f g : σ → σ} (h : ∀ s t, view s = view t → view (f s) = view (g t)) :
    Alike view (modify f : EStateM ε σ PUnit) (modify g) := fun s t same => .ok (h s t same)

theorem ofSet {s t : σ} (same : view s = view t) : Alike view (set s : EStateM ε σ PUnit) (set t) :=
  fun _ _ _ => .ok same

theorem bind {p q : EStateM ε σ α} {f g : α → EStateM ε σ β} (hp : Alike view p q)
    (hf : ∀ a, Alike view (f a) (g a)) : Alike view (p >>= f) (q >>= g) := by
  intro s t same
  have ended := hp s t same
  rw [EStateM.run_bind, EStateM.run_bind]
  generalize p.run s = r at ended ⊢
  generalize q.run t = r' at ended ⊢
  cases ended with
  | ok same' => exact hf _ _ _ same'
  | error same' => exact .error same'

/-- What is read is of states that look the same. -/
theorem bindGet {f g : σ → EStateM ε σ β} (hf : ∀ s t, view s = view t → Alike view (f s) (g t)) :
    Alike view (get >>= f) (get >>= g) := fun s t same => hf s t same s t same

/-- Equal values are used in the same way. -/
theorem bindLiftOk {x y : Except ε α} {f g : α → EStateM ε σ β} (h : x = y)
    (hf : ∀ a, x = .ok a → Alike view (f a) (g a)) : Alike view (lift x >>= f) (lift y >>= g) := by
  subst h
  cases x with
  | ok a => exact fun s t same => hf a rfl s t same
  | error e => exact fun _ _ same => .error same

theorem bindLift {x y : Except ε α} {f g : α → EStateM ε σ β} (h : x = y) (hf : ∀ a, Alike view (f a) (g a)) :
    Alike view (lift x >>= f) (lift y >>= g) := bindLiftOk h fun a _ => hf a

theorem ofIte {c d : Prop} [Decidable c] [Decidable d] {p q p' q' : EStateM ε σ α} (same : c ↔ d)
    (hp : Alike view p p') (hq : Alike view q q') : Alike view (if c then p else q) (if d then p' else q') := by
  by_cases h : c
  · rw [if_pos h, if_pos (same.mp h)]
    exact hp
  · rw [if_neg h, if_neg fun d => h (same.mpr d)]
    exact hq

theorem ofRepeatUntil {outOfRounds : ε} {body body' : β → EStateM ε σ (Bool × β)}
    (hb : ∀ b, Alike view (body b) (body' b)) (rounds : Nat) (b : β) :
    Alike view (repeatUntil outOfRounds body rounds b) (repeatUntil outOfRounds body' rounds b) := by
  induction rounds generalizing b with
  | zero => exact ofThrow _
  | succ rounds ih => exact (hb b).bind fun r => ofIte Iff.rfl (ofPure _) (ih r.2)

theorem ofTryCatch {p q : EStateM ε σ α} {handler handler' : ε → EStateM ε σ α} (hp : Alike view p q)
    (hh : ∀ e, Alike view (handler e) (handler' e)) : Alike view (tryCatch p handler) (tryCatch q handler') := by
  intro s t same
  have ended := hp s t same
  rw [run_tryCatch, run_tryCatch]
  generalize p.run s = r at ended ⊢
  generalize q.run t = r' at ended ⊢
  cases ended with
  | ok same' => exact .ok same'
  | error same' => exact hh _ _ _ same'

end Alike
end Foundation
