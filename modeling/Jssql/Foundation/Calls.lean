import Jssql.Foundation.Program

/-!
Runs of one program after another. Where each run treats one item of a list that the state
holds, what the runs return is known item by item, and then depends on what follows the
items alone.
-/
namespace Foundation

variable {ε σ α β ι : Type}

/-- What the program returns when it is run again and again; a stop is the last. -/
def calls (p : EStateM ε σ α) : Nat → σ → List (Except ε α)
  | 0, _ => []
  | rounds + 1, s =>
      match p.run s with
      | .ok a s' => .ok a :: calls p rounds s'
      | .error e _ => [.error e]

/-- Known results one after the other, and then the rest. -/
def replay : List (Except ε α) → (Nat → List (Except ε α)) → Nat → List (Except ε α)
  | _, _, 0 => []
  | [], rest, rounds + 1 => rest (rounds + 1)
  | .ok a :: results, rest, rounds + 1 => .ok a :: replay results rest rounds
  | .error e :: _, _, _ + 1 => [.error e]

theorem calls_succ_ok {p : EStateM ε σ α} {s s' : σ} {a : α} (run : p.run s = .ok a s') (rounds : Nat) :
    calls p (rounds + 1) s = .ok a :: calls p rounds s' := by
  rw [calls, run]

theorem calls_succ_error {p : EStateM ε σ α} {s s' : σ} {e : ε} (run : p.run s = .error e s') (rounds : Nat) :
    calls p (rounds + 1) s = [.error e] := by
  rw [calls, run]

theorem calls_succ_stopped {p : EStateM ε σ α} {s : σ} {e : ε} (run : outcome (fun _ => ()) (p.run s) = .error (e, ()))
    (rounds : Nat) : calls p (rounds + 1) s = [.error e] := by
  cases result : p.run s with
  | ok a s' =>
      rw [result] at run
      cases run
  | error e' s' =>
      rw [result] at run
      cases run
      exact calls_succ_error result rounds

/-- The runs over a list of items. -/
theorem calls_items {p : EStateM ε σ α} {treat : ι → Except ε α} (place : β → List ι → σ) (next : β → ι → β)
    (step : ∀ b i rest, outcome (fun _ => ()) (p.run (place b (i :: rest))) = settle (treat i) (place (next b i) rest) ())
    (items : List ι) : ∀ (b : β) (rounds : Nat), calls p rounds (place b items) =
      replay (items.map treat) (fun rounds => calls p rounds (place (items.foldl next b) [])) rounds := by
  induction items with
  | nil =>
      intro b rounds
      cases rounds with
      | zero => rfl
      | succ rounds => rfl
  | cons i rest ih =>
      intro b rounds
      have run := step b i rest
      cases rounds with
      | zero => rfl
      | succ rounds =>
          rw [List.map_cons, List.foldl_cons]
          cases treated : treat i with
          | ok a =>
              rw [treated, settle_ok] at run
              rw [calls_succ_ok (outcome_eq_ok.mp run), replay, ih]
          | error e =>
              rw [treated, settle_error] at run
              exact calls_succ_stopped run rounds

section Replay

variable {results : List (Except ε α)} {rest : Nat → List (Except ε α)} {call : Except ε α}

/-- Within the known results the rest is not asked. -/
theorem replay_length (rest rest' : Nat → List (Except ε α)) :
    replay results rest results.length = replay results rest' results.length := by
  induction results with
  | nil => rfl
  | cons result results ih =>
      cases result with
      | ok a => exact congrArg (Except.ok a :: ·) ih
      | error e => rfl

theorem mem_replay {rounds : Nat} (h : call ∈ replay results rest rounds) :
    call ∈ results ∨ ∃ rounds, call ∈ rest rounds := by
  induction results generalizing rounds with
  | nil =>
      cases rounds with
      | zero => cases h
      | succ rounds => exact .inr ⟨_, h⟩
  | cons result results ih =>
      cases rounds with
      | zero => cases h
      | succ rounds =>
          cases result with
          | ok a =>
              rcases List.mem_cons.mp h with rfl | h
              · exact .inl List.mem_cons_self
              · exact (ih h).imp_left (List.mem_cons_of_mem _)
          | error e => exact .inl (List.mem_singleton.mp h ▸ List.mem_cons_self)

/-- Behind the known results there is only the rest. -/
theorem mem_drop_replay {rounds : Nat} (h : call ∈ (replay results rest rounds).drop results.length) :
    ∃ rounds, call ∈ rest rounds := by
  induction results generalizing rounds with
  | nil =>
      cases rounds with
      | zero => cases h
      | succ rounds => exact ⟨_, h⟩
  | cons result results ih =>
      cases rounds with
      | zero => cases h
      | succ rounds =>
          cases result with
          | ok a => exact ih h
          | error e =>
              rw [replay, List.length_cons, List.drop_succ_cons, List.drop_nil] at h
              cases h

/-- Results without a stop are all there. -/
theorem replay_ok (answers : List α) (rest : Nat → List (Except ε α)) (rounds : Nat) :
    replay (answers.map Except.ok) rest (answers.length + (rounds + 1)) =
      answers.map Except.ok ++ rest (rounds + 1) := by
  induction answers with
  | nil =>
      rw [List.length_nil, Nat.zero_add]
      rfl
  | cons a answers ih =>
      rw [List.length_cons, Nat.add_right_comm, List.map_cons, replay, ih]
      rfl

end Replay

end Foundation
