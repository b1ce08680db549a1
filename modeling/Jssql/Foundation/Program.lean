import Mathlib

/-!
Programs over a state that may stop abnormally and keep the state they had
reached. `EStateM` is this notion without rollback, so a stop in the middle of
a sequence of effects leaves the effects made before it.

`Keeps` is the invariant form of a triple: it speaks of every way to end. The
rules follow the program's structure, one for each way to build a program.
-/
namespace Foundation

variable {ε σ α β : Type}

/-- The state in which a run ends, normally or not. -/
def finalState : EStateM.Result ε σ α → σ
  | .ok _ s | .error _ s => s

@[simp] theorem finalState_ok (a : α) (s : σ) :
    finalState (.ok a s : EStateM.Result ε σ α) = s := rfl

@[simp] theorem finalState_error (e : ε) (s : σ) :
    finalState (.error e s : EStateM.Result ε σ α) = s := rfl

/-- A pure computation that may fail, as a program without effects. -/
def lift (x : Except ε α) : EStateM ε σ α := fun s =>
  match x with
  | .ok a => .ok a s
  | .error e => .error e s

@[simp] theorem run_lift_ok (a : α) (s : σ) :
    (lift (.ok a) : EStateM ε σ α).run s = .ok a s := rfl

@[simp] theorem run_lift_error (e : ε) (s : σ) :
    (lift (.error e) : EStateM ε σ α).run s = .error e s := rfl

theorem run_lift_eq_ok {x : Except ε α} {s s' : σ} {a : α} :
    (lift x : EStateM ε σ α).run s = .ok a s' ↔ x = .ok a ∧ s' = s := by
  cases x with
  | ok b =>
      constructor
      · rintro ⟨⟩
        exact ⟨rfl, rfl⟩
      · rintro ⟨⟨⟩, rfl⟩
        rfl
  | error e =>
      constructor
      · rintro ⟨⟩
      · rintro ⟨⟨⟩, _⟩

/-- A stop, at any result type. -/
@[simp] theorem run_throw_any (e : ε) (s : σ) :
    (throw e : EStateM ε σ α).run s = .error e s := rfl

theorem run_pure_eq_ok {s s' : σ} {a b : α} :
    (pure a : EStateM ε σ α).run s = .ok b s' ↔ a = b ∧ s = s' := by
  rw [EStateM.run_pure, EStateM.Result.ok.injEq]

theorem run_bind_ok {p : EStateM ε σ α} {s s' : σ} {a : α} (h : p.run s = .ok a s')
    (f : α → EStateM ε σ β) : (p >>= f).run s = (f a).run s' := by
  rw [EStateM.run_bind, h]

theorem run_bind_error {p : EStateM ε σ α} {s s' : σ} {e : ε} (h : p.run s = .error e s')
    (f : α → EStateM ε σ β) : (p >>= f).run s = .error e s' := by
  rw [EStateM.run_bind, h]

theorem run_bind_eq_ok {p : EStateM ε σ α} {f : α → EStateM ε σ β} {s t : σ} {b : β} :
    (p >>= f).run s = .ok b t ↔ ∃ a s', p.run s = .ok a s' ∧ (f a).run s' = .ok b t := by
  rw [EStateM.run_bind]
  cases h : p.run s with
  | ok a s' =>
      constructor
      · exact fun next => ⟨a, s', rfl, next⟩
      · rintro ⟨_, _, ⟨⟩, next⟩
        exact next
  | error e s' =>
      constructor
      · rintro ⟨⟩
      · rintro ⟨_, _, ⟨⟩, _⟩

theorem run_tryCatch (p : EStateM ε σ α) (handler : ε → EStateM ε σ α) (s : σ) :
    (tryCatch p handler : EStateM ε σ α).run s =
      match p.run s with
      | .ok a s' => .ok a s'
      | .error e s' => (handler e).run s' := by
  change EStateM.tryCatch p handler s = _
  unfold EStateM.tryCatch
  simp only [EStateM.run]
  cases p s <;> rfl

/-- What a run returns, whatever state it ends in. -/
def result : EStateM.Result ε σ α → Except ε α
  | .ok a _ => .ok a
  | .error e _ => .error e

@[simp] theorem result_ok (a : α) (s : σ) :
    result (.ok a s : EStateM.Result ε σ α) = .ok a := rfl

@[simp] theorem result_error (e : ε) (s : σ) :
    result (.error e s : EStateM.Result ε σ α) = .error e := rfl

/-- The result of a run; of the state a run stopped in only `obs` is kept. -/
def outcome {ω : Type} (obs : σ → ω) : EStateM.Result ε σ α → Except (ε × ω) (α × σ)
  | .ok a s => .ok (a, s)
  | .error e s => .error (e, obs s)

section Outcome

variable {ω : Type} {obs : σ → ω}

@[simp] theorem outcome_ok (a : α) (s : σ) :
    outcome obs (.ok a s : EStateM.Result ε σ α) = .ok (a, s) := rfl

@[simp] theorem outcome_error (e : ε) (s : σ) :
    outcome obs (.error e s : EStateM.Result ε σ α) = .error (e, obs s) := rfl

theorem outcome_bind (p : EStateM ε σ α) (f : α → EStateM ε σ β) (s : σ) :
    outcome obs ((p >>= f).run s) =
      outcome obs (p.run s) >>= fun r => outcome obs ((f r.1).run r.2) := by
  rw [EStateM.run_bind]
  cases p.run s <;> rfl

@[simp] theorem ok_bind (a : α) (f : α → Except ε β) : (Except.ok a >>= f) = f a := rfl

@[simp] theorem error_bind (e : ε) (f : α → Except ε β) :
    (Except.error e >>= f) = .error e := rfl

theorem bind_eq_ok {x : Except ε α} {f : α → Except ε β} {b : β} : x >>= f = .ok b ↔ ∃ a, x = .ok a ∧ f a = .ok b := by
  cases x with
  | ok a => simp
  | error e => simp

/-- A traversal that succeeds gives the results of the items, place by place. -/
theorem getElem?_of_mapM_ok {f : α → Except ε β} : ∀ {xs : List α} {ys : List β},
    xs.mapM f = .ok ys → ys.length = xs.length ∧
      ∀ (j : Nat) (x : α), xs[j]? = some x → ∃ y, ys[j]? = some y ∧ f x = .ok y := by
  intro xs
  induction xs with
  | nil =>
      intro ys h
      cases h
      simp
  | cons x rest ih =>
      intro ys h
      rw [List.mapM_cons] at h
      cases hx : f x with
      | error e => rw [hx] at h; cases h
      | ok y =>
          cases hr : rest.mapM f with
          | error e => rw [hx, hr] at h; cases h
          | ok ys' =>
              rw [hx, hr] at h
              cases h
              obtain ⟨len, places⟩ := ih hr
              refine ⟨by simp [len], ?_⟩
              intro j z hz
              cases j with
              | zero =>
                  cases hz
                  exact ⟨y, rfl, hx⟩
              | succ j => exact places j z hz

theorem mapM_ok_of_forall {f : α → Except ε β} : ∀ {xs : List α},
    (∀ x ∈ xs, ∃ y, f x = .ok y) → ∃ ys, xs.mapM f = .ok ys := by
  intro xs
  induction xs with
  | nil => intro _; exact ⟨[], rfl⟩
  | cons x rest ih =>
      intro h
      obtain ⟨y, hy⟩ := h x (by simp)
      obtain ⟨ys, hys⟩ := ih fun z hz => h z (by simp [hz])
      exact ⟨y :: ys, by rw [List.mapM_cons, hy, hys]; rfl⟩

/-- A pure result together with the state a run of it ends in, and with what is
seen of the state when it stops. -/
def settle (x : Except ε α) (s : σ) (o : ω) : Except (ε × ω) (α × σ) :=
  match x with
  | .ok a => .ok (a, s)
  | .error e => .error (e, o)

@[simp] theorem settle_ok (a : α) (s : σ) (o : ω) :
    settle (.ok a : Except ε α) s o = .ok (a, s) := rfl

@[simp] theorem settle_error (e : ε) (s : σ) (o : ω) :
    settle (.error e : Except ε α) s o = .error (e, o) := rfl

theorem outcome_lift (x : Except ε α) (s : σ) :
    outcome obs ((lift x).run s) = settle x s (obs s) := by
  cases x <;> rfl

/-- What a run returns does not depend on what is seen of the state it stops in. -/
theorem outcome_unit {r : EStateM.Result ε σ α} {x : Except ε α} {s : σ} {o : ω}
    (h : outcome obs r = settle x s o) : outcome (fun _ => ()) r = settle x s () := by
  cases r with
  | ok a s' =>
      cases x with
      | ok b => cases h; rfl
      | error e => cases h
  | error e s' =>
      cases x with
      | ok b => cases h
      | error e' => cases h; rfl

theorem result_of_outcome {r : EStateM.Result ε σ α} {x : Except ε α} {s : σ} {o : ω}
    (h : outcome obs r = settle x s o) : result r = x := by
  cases r with
  | ok a s' =>
      cases x with
      | ok b => cases h; rfl
      | error e => cases h
  | error e s' =>
      cases x with
      | ok b => cases h
      | error e' => cases h; rfl

theorem outcome_eq_ok {r : EStateM.Result ε σ α} {a : α} {s : σ} :
    outcome obs r = .ok (a, s) ↔ r = .ok a s := by
  cases r with
  | ok b t => simp [outcome]
  | error e t => simp [outcome]

end Outcome

/-- A pure computation fails only as `E` allows. -/
def Fails (E : ε → Prop) (x : Except ε α) : Prop := ∀ e, x = .error e → E e

namespace Fails

variable {E : ε → Prop}

theorem ofOk (a : α) : Fails E (.ok a) := fun _ h => by cases h

theorem ofError {e : ε} (allowed : E e) : Fails E (.error e : Except ε α) := by
  intro e' h
  cases h
  exact allowed

theorem bind {x : Except ε α} {f : α → Except ε β} (hx : Fails E x) (hf : ∀ a, Fails E (f a)) :
    Fails E (x >>= f) := by
  cases x with
  | ok a => exact hf a
  | error e => exact ofError (hx e rfl)

theorem map {x : Except ε α} (hx : Fails E x) (f : α → β) : Fails E (x.map f) := by
  cases x with
  | ok a => exact ofOk _
  | error e => exact ofError (hx e rfl)

theorem ofMapM {f : α → Except ε β} {xs : List α} (hf : ∀ x, Fails E (f x)) :
    Fails E (xs.mapM f) := by
  induction xs with
  | nil => exact ofOk _
  | cons x rest ih =>
      rw [List.mapM_cons]
      exact (hf x).bind fun _ => ih.bind fun _ => ofOk _

end Fails

/-- Every run from a state with `P` ends in a state with `P`, and if it stops, then
with a fault that `E` allows. -/
def Keeps (P : σ → Prop) (E : ε → Prop) (p : EStateM ε σ α) : Prop :=
  ∀ s, P s → match p.run s with
    | .ok _ s' => P s'
    | .error e s' => P s' ∧ E e

namespace Keeps

variable {P : σ → Prop} {E : ε → Prop}

theorem final {p : EStateM ε σ α} (h : Keeps P E p) {s : σ} (hs : P s) :
    P (finalState (p.run s)) := by
  have kept := h s hs
  cases hr : p.run s with
  | ok a s' => rw [hr] at kept; exact kept
  | error e s' => rw [hr] at kept; exact kept.1

theorem fault {p : EStateM ε σ α} (h : Keeps P E p) {s s' : σ} {e : ε} (hs : P s)
    (stops : p.run s = .error e s') : E e := by
  have kept := h s hs
  rw [stops] at kept
  exact kept.2

theorem ok {p : EStateM ε σ α} (h : Keeps P E p) {s s' : σ} {a : α} (hs : P s)
    (run : p.run s = .ok a s') : P s' := by
  have kept := h s hs
  rw [run] at kept
  exact kept

/-- A program that always returns. -/
theorem ofRun {p : EStateM ε σ α} (h : ∀ s, P s → ∃ a s', p.run s = .ok a s' ∧ P s') :
    Keeps P E p := by
  intro s hs
  obtain ⟨a, s', run, kept⟩ := h s hs
  rw [run]
  exact kept

theorem ofPure (a : α) : Keeps P E (pure a : EStateM ε σ α) := fun _ h => h

theorem ofThrow {e : ε} (allowed : E e) : Keeps P E (throw e : EStateM ε σ α) :=
  fun _ h => ⟨h, allowed⟩

theorem ofLift {x : Except ε α} (allowed : Fails E x) : Keeps P E (lift x : EStateM ε σ α) := by
  intro s h
  cases x with
  | ok a => exact h
  | error e => exact ⟨h, allowed e rfl⟩

theorem ofModify {f : σ → σ} (h : ∀ s, P s → P (f s)) :
    Keeps P E (modify f : EStateM ε σ PUnit) := fun s hs => h s hs

theorem ofSet {s' : σ} (h : P s') : Keeps P E (set s' : EStateM ε σ PUnit) := fun _ _ => h

theorem bind {p : EStateM ε σ α} {f : α → EStateM ε σ β} (hp : Keeps P E p)
    (hf : ∀ a, Keeps P E (f a)) : Keeps P E (p >>= f) := by
  intro s h
  have first := hp s h
  rw [EStateM.run_bind]
  cases hr : p.run s with
  | ok a s' =>
      rw [hr] at first
      exact hf a s' first
  | error e s' =>
      rw [hr] at first
      exact first

/-- Behind a `get` the state that was read is known to have `P`. -/
theorem bindGet {f : σ → EStateM ε σ β} (hf : ∀ s, P s → Keeps P E (f s)) :
    Keeps P E (get >>= f) := fun s h => hf s h s h

theorem ofIte {c : Prop} [Decidable c] {p q : EStateM ε σ α} (hp : c → Keeps P E p)
    (hq : ¬ c → Keeps P E q) : Keeps P E (if c then p else q) := by
  split
  · exact hp ‹_›
  · exact hq ‹_›

theorem ofTryCatch {p : EStateM ε σ α} {handler : ε → EStateM ε σ α} (hp : Keeps P E p)
    (hh : ∀ e, E e → Keeps P E (handler e)) : Keeps P E (tryCatch p handler) := by
  intro s h
  have first := hp s h
  rw [run_tryCatch]
  cases hr : p.run s with
  | ok a s' =>
      rw [hr] at first
      exact first
  | error e s' =>
      rw [hr] at first
      exact hh e first.2 s' first.1

theorem weaken {p : EStateM ε σ α} {E' : ε → Prop} (h : Keeps P E p) (weaker : ∀ e, E e → E' e) :
    Keeps P E' p := by
  intro s hs
  have kept := h s hs
  cases hr : p.run s with
  | ok a s' =>
      rw [hr] at kept
      exact kept
  | error e s' =>
      rw [hr] at kept
      exact ⟨kept.1, weaker e kept.2⟩

end Keeps

/-- Every run from a state with `P` that returns does so with `Q`; of one that stops
nothing is said. -/
def Ensures (P : σ → Prop) (Q : α → σ → Prop) (p : EStateM ε σ α) : Prop :=
  ∀ s, P s → ∀ a s', p.run s = .ok a s' → Q a s'

namespace Ensures

variable {P : σ → Prop} {Q : α → σ → Prop}

theorem ofPure {a : α} (h : ∀ s, P s → Q a s) : Ensures P Q (pure a : EStateM ε σ α) := by
  rintro s hs _ _ ⟨⟩
  exact h s hs

theorem bind {p : EStateM ε σ α} {f : α → EStateM ε σ β} {R : β → σ → Prop} (hp : Ensures P Q p)
    (hf : ∀ a, Ensures (Q a) R (f a)) : Ensures P R (p >>= f) := by
  intro s hs b t run
  obtain ⟨a, s', first, rest⟩ := run_bind_eq_ok.mp run
  exact hf a s' (hp s hs a s' first) b t rest

theorem ofIte {c : Prop} [Decidable c] {p q : EStateM ε σ α} (hp : c → Ensures P Q p)
    (hq : ¬ c → Ensures P Q q) : Ensures P Q (if c then p else q) := by
  split
  · exact hp ‹_›
  · exact hq ‹_›

theorem ofLift {x : Except ε α} (h : ∀ a s, x = .ok a → P s → Q a s) :
    Ensures P Q (lift x : EStateM ε σ α) := by
  intro s hs a s' run
  obtain ⟨value, rfl⟩ := run_lift_eq_ok.mp run
  exact h a s' value hs

theorem mono {p : EStateM ε σ α} {P' : σ → Prop} {Q' : α → σ → Prop} (h : Ensures P Q p)
    (pre : ∀ s, P' s → P s) (post : ∀ a s, Q a s → Q' a s) : Ensures P' Q' p :=
  fun s hs a s' run => post a s' (h s (pre s hs) a s' run)

end Ensures

end Foundation
