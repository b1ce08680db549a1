import Mathlib

/-!
Regular patterns over classes of symbols. `Matches` says which words a pattern stands for;
`accepts` decides it by derivatives, one symbol after the other.
-/
namespace Foundation

inductive Pattern (α : Type) where
  | fail
  | empty
  | one (stands : α → Bool)
  | seq (first second : Pattern α)
  | either (first second : Pattern α)
  | star (inner : Pattern α)

namespace Pattern

variable {α : Type} {P Q : Pattern α} {a : α} {w : List α}

def opt (P : Pattern α) : Pattern α := .either P .empty

def plus (P : Pattern α) : Pattern α := .seq P (.star P)

/-- The one word that is given. -/
def word [DecidableEq α] : List α → Pattern α
  | [] => .empty
  | a :: s => .seq (.one fun b => decide (b = a)) (word s)

inductive Matches : Pattern α → List α → Prop
  | empty : Matches .empty []
  | one {stands : α → Bool} {a : α} (h : stands a = true) : Matches (.one stands) [a]
  | seq {P Q : Pattern α} {s t : List α} (first : Matches P s) (second : Matches Q t) : Matches (.seq P Q) (s ++ t)
  | left {P Q : Pattern α} {s : List α} (first : Matches P s) : Matches (.either P Q) s
  | right {P Q : Pattern α} {s : List α} (second : Matches Q s) : Matches (.either P Q) s
  | starNil {P : Pattern α} : Matches (.star P) []
  | starCons {P : Pattern α} {s t : List α} (head : Matches P s) (tail : Matches (.star P) t) :
      Matches (.star P) (s ++ t)

/-! The words of a pattern -/

theorem matches_empty : Matches (.empty : Pattern α) w ↔ w = [] := by
  constructor
  · intro h
    cases h
    rfl
  · rintro rfl
    exact .empty

theorem matches_one {stands : α → Bool} : Matches (.one stands) w ↔ ∃ a, stands a = true ∧ w = [a] := by
  constructor
  · intro h
    cases h with
    | one h => exact ⟨_, h, rfl⟩
  · rintro ⟨a, h, rfl⟩
    exact .one h

theorem matches_seq : Matches (.seq P Q) w ↔ ∃ s t, w = s ++ t ∧ Matches P s ∧ Matches Q t := by
  constructor
  · intro h
    cases h with
    | seq first second => exact ⟨_, _, rfl, first, second⟩
  · rintro ⟨s, t, rfl, first, second⟩
    exact .seq first second

theorem matches_either : Matches (.either P Q) w ↔ Matches P w ∨ Matches Q w := by
  constructor
  · intro h
    cases h with
    | left h => exact .inl h
    | right h => exact .inr h
  · rintro (h | h)
    · exact .left h
    · exact .right h

theorem matches_opt : Matches (opt P) w ↔ Matches P w ∨ w = [] := by
  rw [opt, matches_either, matches_empty]

/-- A word of a repetition that is not empty starts with a word that is not empty. -/
theorem matches_star_cons : Matches (.star P) (a :: w) ↔
    ∃ s t, w = s ++ t ∧ Matches P (a :: s) ∧ Matches (.star P) t := by
  constructor
  · intro h
    generalize whole : a :: w = text at h
    generalize star : Pattern.star P = R at h
    induction h with
    | starNil => cases whole
    | @starCons P' s t head tail _ ih =>
        cases star
        cases s with
        | nil => exact ih whole rfl
        | cons b s =>
            rw [List.cons_append] at whole
            obtain ⟨rfl, rfl⟩ := List.cons.inj whole
            exact ⟨s, t, rfl, head, tail⟩
    | empty | one _ | seq _ _ | left _ | right _ => cases star
  · rintro ⟨s, t, rfl, head, tail⟩
    exact .starCons head tail

theorem Matches.star_induction {motive : List α → Prop} (nil : motive [])
    (cons : ∀ s t, Matches P s → Matches (.star P) t → motive t → motive (s ++ t)) (h : Matches (.star P) w) :
    motive w := by
  generalize star : Pattern.star P = R at h
  induction h with
  | starNil => exact nil
  | starCons head tail _ ih =>
      cases star
      exact cons _ _ head tail (ih rfl)
  | empty | one _ | seq _ _ | left _ | right _ => cases star

theorem matches_star_one {stands : α → Bool} : Matches (.star (.one stands)) w ↔ ∀ a ∈ w, stands a = true := by
  induction w with
  | nil => exact iff_of_true .starNil (by rintro _ ⟨⟩)
  | cons a w ih =>
      rw [matches_star_cons, List.forall_mem_cons]
      constructor
      · rintro ⟨s, t, rfl, head, tail⟩
        obtain ⟨b, holds, single⟩ := matches_one.mp head
        obtain ⟨rfl, rfl⟩ := List.cons.inj single
        exact ⟨holds, ih.mp tail⟩
      · rintro ⟨holds, others⟩
        exact ⟨[], w, rfl, .one holds, ih.mpr others⟩

theorem matches_plus_one {stands : α → Bool} :
    Matches (plus (.one stands)) w ↔ w ≠ [] ∧ ∀ a ∈ w, stands a = true := by
  rw [plus, matches_seq]
  constructor
  · rintro ⟨s, t, rfl, first, second⟩
    obtain ⟨a, holds, rfl⟩ := matches_one.mp first
    exact ⟨List.cons_ne_nil _ _, List.forall_mem_cons.mpr ⟨holds, matches_star_one.mp second⟩⟩
  · rintro ⟨nonempty, all⟩
    cases w with
    | nil => exact absurd rfl nonempty
    | cons a w =>
        rw [List.forall_mem_cons] at all
        exact ⟨[a], w, rfl, .one all.1, matches_star_one.mpr all.2⟩

theorem matches_word [DecidableEq α] {s : List α} : Matches (word s) w ↔ w = s := by
  induction s generalizing w with
  | nil => exact matches_empty
  | cons a s ih =>
      rw [word, matches_seq]
      constructor
      · rintro ⟨u, v, rfl, first, second⟩
        obtain ⟨b, holds, rfl⟩ := matches_one.mp first
        rw [of_decide_eq_true holds, ih.mp second]
        rfl
      · rintro rfl
        exact ⟨[a], s, rfl, .one (decide_eq_true rfl), ih.mpr rfl⟩

/-- Every symbol of the pattern is one of these. -/
def Over (q : α → Prop) : Pattern α → Prop
  | fail | empty => True
  | one stands => ∀ a, stands a = true → q a
  | seq P Q | either P Q => P.Over q ∧ Q.Over q
  | star P => P.Over q

theorem Matches.forall_mem {q : α → Prop} (h : Matches P w) (symbols : P.Over q) : ∀ a ∈ w, q a := by
  induction h with
  | empty | starNil => rintro _ ⟨⟩
  | one holds => exact List.forall_mem_singleton.mpr (symbols _ holds)
  | seq _ _ ihP ihQ => exact List.forall_mem_append.mpr ⟨ihP symbols.1, ihQ symbols.2⟩
  | left _ ih => exact ih symbols.1
  | right _ ih => exact ih symbols.2
  | starCons _ _ ihHead ihTail => exact List.forall_mem_append.mpr ⟨ihHead symbols, ihTail symbols⟩

/-! Derivatives -/

def nullable : Pattern α → Bool
  | fail | one _ => false
  | empty | star _ => true
  | seq P Q => P.nullable && Q.nullable
  | either P Q => P.nullable || Q.nullable

/-- What is left to match after a first symbol. -/
def deriv (a : α) : Pattern α → Pattern α
  | fail | empty => .fail
  | one stands => if stands a then .empty else .fail
  | seq P Q => if P.nullable then .either (.seq (P.deriv a) Q) (Q.deriv a) else .seq (P.deriv a) Q
  | either P Q => .either (P.deriv a) (Q.deriv a)
  | star P => .seq (P.deriv a) (.star P)

def accepts (P : Pattern α) (w : List α) : Bool := (w.foldl (fun P a => P.deriv a) P).nullable

theorem nullable_iff : P.nullable = true ↔ Matches P [] := by
  induction P with
  | fail => exact iff_of_false Bool.false_ne_true (by rintro ⟨⟩)
  | one stands =>
      refine iff_of_false Bool.false_ne_true fun h => ?_
      obtain ⟨_, _, ⟨⟩⟩ := matches_one.mp h
  | empty => exact iff_of_true rfl .empty
  | star P _ => exact iff_of_true rfl .starNil
  | seq P Q ihP ihQ =>
      rw [nullable, Bool.and_eq_true, ihP, ihQ, matches_seq]
      constructor
      · rintro ⟨first, second⟩
        exact ⟨[], [], rfl, first, second⟩
      · rintro ⟨s, t, parts, first, second⟩
        obtain ⟨rfl, rfl⟩ := List.append_eq_nil_iff.mp parts.symm
        exact ⟨first, second⟩
  | either P Q ihP ihQ => rw [nullable, Bool.or_eq_true, ihP, ihQ, matches_either]

theorem matches_seq_cons : Matches (.seq P Q) (a :: w) ↔
    (∃ s t, w = s ++ t ∧ Matches P (a :: s) ∧ Matches Q t) ∨ Matches P [] ∧ Matches Q (a :: w) := by
  rw [matches_seq]
  constructor
  · rintro ⟨s, t, whole, first, second⟩
    cases s with
    | nil =>
        rw [List.nil_append] at whole
        exact .inr ⟨first, whole ▸ second⟩
    | cons b s =>
        rw [List.cons_append] at whole
        obtain ⟨rfl, rfl⟩ := List.cons.inj whole
        exact .inl ⟨s, t, rfl, first, second⟩
  · rintro (⟨s, t, rfl, first, second⟩ | ⟨first, second⟩)
    · exact ⟨a :: s, t, rfl, first, second⟩
    · exact ⟨[], a :: w, rfl, first, second⟩

theorem deriv_iff : Matches (P.deriv a) w ↔ Matches P (a :: w) := by
  induction P generalizing w with
  | fail => exact iff_of_false (by rintro ⟨⟩) (by rintro ⟨⟩)
  | empty => exact iff_of_false (by rintro ⟨⟩) (by rintro ⟨⟩)
  | one stands =>
      rw [deriv, matches_one]
      split
      · next holds =>
          rw [matches_empty]
          constructor
          · rintro rfl
            exact ⟨a, holds, rfl⟩
          · rintro ⟨b, _, single⟩
            exact (List.cons.inj single).2
      · next other =>
          refine iff_of_false (by rintro ⟨⟩) ?_
          rintro ⟨b, holds, single⟩
          exact other ((List.cons.inj single).1 ▸ holds)
  | seq P Q ihP ihQ =>
      have first : Matches (.seq (P.deriv a) Q) w ↔ ∃ s t, w = s ++ t ∧ Matches P (a :: s) ∧ Matches Q t := by
        simp only [matches_seq, ihP]
      rw [deriv, matches_seq_cons, ← nullable_iff]
      split
      · next null => rw [matches_either, first, ihQ, null, and_iff_right rfl]
      · next solid => rw [first, eq_false solid, false_and, or_false]
  | either P Q ihP ihQ => rw [deriv, matches_either, matches_either, ihP, ihQ]
  | star P ih =>
      rw [deriv, matches_seq, matches_star_cons]
      simp only [ih]

theorem accepts_iff : P.accepts w = true ↔ Matches P w := by
  induction w generalizing P with
  | nil => exact nullable_iff
  | cons a w ih => exact ih.trans deriv_iff

instance : DecidablePred (Matches P) := fun _ => decidable_of_iff _ accepts_iff

end Pattern

end Foundation
