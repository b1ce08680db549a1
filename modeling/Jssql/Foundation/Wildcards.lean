import Mathlib

/-!
Patterns of literals and wildcards. `Splits` says that a text can be cut along a pattern,
with a predicate on the elements that a wildcard may stand for. A text that can be cut at
all can be cut without letting a wildcard stand for certain elements if and only if the
pattern itself accounts for all of them.
-/
namespace Foundation.Wildcards

variable {α : Type}

/-- A wildcard for any number of elements, for one element, or an element. -/
inductive Piece (α : Type) where
  | many
  | single
  | lit (a : α)
deriving DecidableEq

def Piece.literal : Piece α → Option α
  | .lit a => some a
  | _ => none

/-- The elements that stand for themselves. -/
def literals (pattern : List (Piece α)) : List α := pattern.filterMap Piece.literal

@[simp] theorem literals_nil : literals ([] : List (Piece α)) = [] := rfl

@[simp] theorem literals_many (pattern : List (Piece α)) : literals (.many :: pattern) = literals pattern := rfl

@[simp] theorem literals_single (pattern : List (Piece α)) : literals (.single :: pattern) = literals pattern := rfl

@[simp] theorem literals_lit (a : α) (pattern : List (Piece α)) :
    literals (.lit a :: pattern) = a :: literals pattern := rfl

/-- The text can be cut along the pattern, the wildcards standing for allowed elements. -/
inductive Splits (stands : α → Prop) : List (Piece α) → List α → Prop where
  | nil : Splits stands [] []
  | many {pattern : List (Piece α)} {skipped rest : List α} (allowed : ∀ a ∈ skipped, stands a)
      (tail : Splits stands pattern rest) : Splits stands (.many :: pattern) (skipped ++ rest)
  | single {pattern : List (Piece α)} {a : α} {rest : List α} (allowed : stands a)
      (tail : Splits stands pattern rest) : Splits stands (.single :: pattern) (a :: rest)
  | lit {pattern : List (Piece α)} {a : α} {rest : List α}
      (tail : Splits stands pattern rest) : Splits stands (.lit a :: pattern) (a :: rest)

namespace Splits

variable {stands allowed : α → Prop} {pattern : List (Piece α)} {text : List α}

theorem mono (weaker : ∀ a, stands a → allowed a) (splits : Splits stands pattern text) :
    Splits allowed pattern text := by
  induction splits with
  | nil => exact .nil
  | many fits _ ih => exact .many (fun a mem => weaker a (fits a mem)) ih
  | single fits _ ih => exact .single (weaker _ fits) ih
  | lit _ ih => exact .lit ih

/-! The shape of a text by the pattern's first piece -/

theorem nil_iff : Splits stands [] text ↔ text = [] := by
  constructor
  · rintro ⟨⟩
    rfl
  · rintro rfl
    exact .nil

theorem many_iff : Splits stands (.many :: pattern) text ↔
    ∃ skipped rest, text = skipped ++ rest ∧ (∀ a ∈ skipped, stands a) ∧ Splits stands pattern rest := by
  constructor
  · intro splits
    cases splits with
    | many fits tail => exact ⟨_, _, rfl, fits, tail⟩
  · rintro ⟨skipped, rest, rfl, fits, tail⟩
    exact .many fits tail

theorem single_iff : Splits stands (.single :: pattern) text ↔
    ∃ a rest, text = a :: rest ∧ stands a ∧ Splits stands pattern rest := by
  constructor
  · intro splits
    cases splits with
    | single fits tail => exact ⟨_, _, rfl, fits, tail⟩
  · rintro ⟨a, rest, rfl, fits, tail⟩
    exact .single fits tail

theorem lit_iff {a : α} : Splits stands (.lit a :: pattern) text ↔
    ∃ rest, text = a :: rest ∧ Splits stands pattern rest := by
  constructor
  · intro splits
    cases splits with
    | lit tail => exact ⟨_, rfl, tail⟩
  · rintro ⟨rest, rfl, tail⟩
    exact .lit tail

/-! Elements that wildcards are to leave alone -/

variable (special : α → Bool)

/-- No literal is dropped. -/
theorem countP_literals_le (splits : Splits stands pattern text) :
    (literals pattern).countP special ≤ text.countP special := by
  induction splits with
  | nil => exact Nat.le_refl 0
  | many _ _ ih =>
      rw [List.countP_append, literals_many]
      exact Nat.le_trans ih (Nat.le_add_left _ _)
  | single _ _ ih =>
      rw [List.countP_cons, literals_single]
      exact Nat.le_trans ih (Nat.le_add_right _ _)
  | lit _ ih =>
      rw [literals_lit, List.countP_cons, List.countP_cons]
      exact Nat.add_le_add_right ih _

theorem countP_eq_literals (splits : Splits (fun a => special a = false) pattern text) :
    text.countP special = (literals pattern).countP special := by
  induction splits with
  | nil => rfl
  | many fits _ ih =>
      rw [List.countP_append, ih, List.countP_eq_zero.mpr (by simpa using fits), Nat.zero_add, literals_many]
  | single fits _ ih =>
      rw [List.countP_cons_of_neg (by simpa using fits), ih, literals_single]
  | lit _ ih =>
      rw [literals_lit, List.countP_cons, List.countP_cons, ih]

/-- A text with no more of the special elements than the pattern leaves none to a wildcard. -/
theorem avoid (splits : Splits stands pattern text)
    (same : text.countP special = (literals pattern).countP special) :
    Splits (fun a => special a = false) pattern text := by
  induction splits with
  | nil => exact .nil
  | @many pattern skipped rest _ tail ih =>
      have least := tail.countP_literals_le special
      rw [List.countP_append, literals_many] at same
      have none_ : skipped.countP special = 0 := by omega
      exact .many (fun a mem => by simpa using List.countP_eq_zero.mp none_ a mem) (ih (by omega))
  | @single pattern a rest _ tail ih =>
      have least := tail.countP_literals_le special
      rw [literals_single] at same
      cases wild : special a with
      | false =>
          rw [List.countP_cons_of_neg (by simp [wild])] at same
          exact .single wild (ih same)
      | true =>
          rw [List.countP_cons_of_pos wild] at same
          omega
  | lit _ ih =>
      rw [literals_lit, List.countP_cons, List.countP_cons] at same
      exact .lit (ih (Nat.add_right_cancel same))

end Splits

end Foundation.Wildcards
