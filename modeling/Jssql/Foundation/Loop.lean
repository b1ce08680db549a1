import Jssql.Foundation.Program

/-!
A loop that calls its body until the body reports that nothing is left.

The loop has a bound on its rounds, and running out of it is a stop of its own,
so a statement about its result includes that the bound was not reached. The
rule below is for a body that consumes a list of items one by one: then the
loop is the monadic left fold of what the body does to one item.
-/
namespace Foundation

variable {ε σ β γ ι : Type}

/-- Repeat `body` from `b` until it returns `true`. -/
def repeatUntil (outOfRounds : ε) (body : β → EStateM ε σ (Bool × β)) : Nat → β → EStateM ε σ β
  | 0, _ => throw outOfRounds
  | rounds + 1, b => do
      let (finished, b') ← body b
      if finished then return b' else repeatUntil outOfRounds body rounds b'

theorem run_repeatUntil_succ (outOfRounds : ε) (body : β → EStateM ε σ (Bool × β)) (n : Nat)
    (b : β) : repeatUntil outOfRounds body (n + 1) b = (do
      let (finished, b') ← body b
      if finished then return b' else repeatUntil outOfRounds body n b') := rfl

/-- A loop that carries more than another one, and whose rounds do the same to the rest. -/
theorem map_repeatUntil (outOfRounds : ε) (view : γ → β) {body : γ → EStateM ε σ (Bool × γ)}
    {body' : β → EStateM ε σ (Bool × β)}
    (round : ∀ c, Prod.map id view <$> body c = body' (view c)) (rounds : Nat) : ∀ c,
      view <$> repeatUntil outOfRounds body rounds c = repeatUntil outOfRounds body' rounds (view c) := by
  induction rounds with
  | zero => intro c; rfl
  | succ rounds ih =>
      intro c
      rw [repeatUntil, repeatUntil, ← round, map_bind, bind_map_left]
      refine bind_congr fun r => ?_
      obtain ⟨finished, c'⟩ := r
      cases finished with
      | true => rfl
      | false => exact ih c'

/-- A body that treats one item a call makes the loop a fold over the items, and
then goes on from the configuration with no item left. -/
theorem outcome_repeatUntil {ω : Type} (obs : σ → ω) (outOfRounds : ε)
    (body : β → EStateM ε σ (Bool × β)) (config : List ι → γ → σ × β)
    (f : γ → ι → Except (ε × ω) γ)
    (step : ∀ i rest g, outcome obs ((body (config (i :: rest) g).2).run (config (i :: rest) g).1) =
      (f g i).map fun g' => ((false, (config rest g').2), (config rest g').1))
    (items : List ι) : ∀ (rounds : Nat) (g : γ),
      outcome obs ((repeatUntil outOfRounds body (items.length + rounds) (config items g).2).run
        (config items g).1) =
      items.foldlM f g >>= fun g' => outcome obs
        ((repeatUntil outOfRounds body rounds (config [] g').2).run (config [] g').1) := by
  induction items with
  | nil => intro rounds g; simp
  | cons i rest ih =>
      intro rounds g
      have shift : (i :: rest).length + rounds = (rest.length + rounds) + 1 := by
        simp only [List.length_cons]; omega
      rw [shift, run_repeatUntil_succ, outcome_bind, step i rest g, List.foldlM_cons]
      cases f g i with
      | error e => rfl
      | ok g' => exact ih rounds g'

/-- The round in which the body finds nothing left. -/
theorem outcome_repeatUntil_finish {ω : Type} {obs : σ → ω} {outOfRounds : ε}
    {body : β → EStateM ε σ (Bool × β)} {b b' : β} {s s' : σ}
    (finish : (body b).run s = .ok (true, b') s') (rounds : Nat) :
    outcome obs ((repeatUntil outOfRounds body (rounds + 1) b).run s) = .ok (b', s') := by
  rw [run_repeatUntil_succ, outcome_bind, finish]
  rfl

/-! Loops that end -/

section Ends

variable (body : β → EStateM ε σ (Bool × β))

/-- The loop, started in one configuration, comes to another. -/
inductive Reaches (b₀ : β) (s₀ : σ) : β → σ → Prop where
  | start : Reaches b₀ s₀ b₀ s₀
  | next {b b' : β} {s s' : σ} (before : Reaches b₀ s₀ b s)
      (round : (body b).run s = .ok (false, b') s') : Reaches b₀ s₀ b' s'

variable {body}

end Ends

/-! Loops over a list of items that have nothing to do with each other -/

section Items

variable {κ ν : Type} {f : ι → EStateM ε σ PUnit} {g : ι → σ → σ}

/-- A loop over distinct items succeeds when each item is good before the loop, if no
item makes another one good or bad. -/
theorem run_forM_ok_iff (good : ι → σ → Prop)
    (body : ∀ i s s', (f i).run s = .ok ⟨⟩ s' ↔ good i s ∧ s' = g i s)
    (apart : ∀ i j s, i ≠ j → (good j (g i s) ↔ good j s)) (items : List ι) :
    ∀ s s', items.Nodup → ((items.forM f).run s = .ok ⟨⟩ s' ↔
      (∀ i ∈ items, good i s) ∧ s' = items.foldl (fun s i => g i s) s) := by
  induction items with
  | nil =>
      intro s s' _
      constructor
      · rintro ⟨⟩
        exact ⟨by simp, rfl⟩
      · rintro ⟨_, rfl⟩
        rfl
  | cons i rest ih =>
      intro s s' distinct
      rw [List.nodup_cons] at distinct
      have others : (∀ j ∈ rest, good j (g i s)) ↔ ∀ j ∈ rest, good j s :=
        forall₂_congr fun j hj => apart i j s fun same => distinct.1 (same ▸ hj)
      have unroll : (i :: rest).forM f = f i >>= fun _ => rest.forM f := rfl
      rw [unroll, EStateM.run_bind, List.forall_mem_cons, List.foldl_cons]
      cases first : (f i).run s with
      | error e v =>
          refine ⟨by rintro ⟨⟩, fun ⟨⟨here, _⟩, _⟩ => ?_⟩
          rw [(body i s _).mpr ⟨here, rfl⟩] at first
          cases first
      | ok a v =>
          obtain ⟨here, rfl⟩ := (body i s v).mp first
          dsimp only
          rw [ih (g i s) s' distinct.2, others]
          exact ⟨fun h => ⟨⟨here, h.1⟩, h.2⟩, fun h => ⟨h.1.2, h.2⟩⟩

/-- What a loop that changes for each item only what is seen at its key leaves at a key. -/
theorem foldl_view (view : κ → σ → ν) (key : ι → κ) {change : ι → ν → ν}
    (here : ∀ i s, view (key i) (g i s) = change i (view (key i) s))
    (apart : ∀ i x s, key i ≠ x → view x (g i s) = view x s) (items : List ι) :
    ∀ s, (items.map key).Nodup →
      (∀ i ∈ items, view (key i) (items.foldl (fun s i => g i s) s) = change i (view (key i) s)) ∧
      ∀ x ∉ items.map key, view x (items.foldl (fun s i => g i s) s) = view x s := by
  induction items with
  | nil => intro s _; simp
  | cons i rest ih =>
      intro s distinct
      rw [List.map_cons, List.nodup_cons] at distinct
      obtain ⟨inside, outside⟩ := ih (g i s) distinct.2
      rw [List.foldl_cons]
      refine ⟨fun j hj => ?_, fun x hx => ?_⟩
      · rcases List.mem_cons.mp hj with rfl | hj
        · rw [outside _ distinct.1, here]
        · rw [inside j hj, apart i _ s fun same => distinct.1 (same ▸ List.mem_map_of_mem hj)]
      · rw [List.map_cons, List.mem_cons, not_or] at hx
        rw [outside x hx.2, apart i x s fun same => hx.1 same.symm]

theorem foldl_same (see : σ → ν) (same : ∀ i s, see (g i s) = see s) (items : List ι) :
    ∀ s, see (items.foldl (fun s i => g i s) s) = see s := by
  induction items with
  | nil => intro s; rfl
  | cons i rest ih =>
      intro s
      rw [List.foldl_cons, ih, same]

end Items

namespace Keeps

variable {P : σ → Prop} {E : ε → Prop}

theorem ofRepeatUntil {outOfRounds : ε} {body : β → EStateM ε σ (Bool × β)}
    (allowed : E outOfRounds) (hb : ∀ b, Keeps P E (body b)) (rounds : Nat) (b : β) :
    Keeps P E (repeatUntil outOfRounds body rounds b) := by
  induction rounds generalizing b with
  | zero => exact ofThrow allowed
  | succ rounds ih => exact bind (hb b) fun r => ofIte (fun _ => ofPure _) fun _ => ih r.2

end Keeps
end Foundation
