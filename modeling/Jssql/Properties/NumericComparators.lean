import Jssql.Foundation.DoubleOrder
import Jssql.Theory.Comparators

/-!
The comparators on numbers. The orderings compare the parsed values, `=` and `!=` the texts,
so two spellings of one number are neither less than, nor equal to, nor greater than each other.
-/
namespace Jssql.ConditionEvaluator
open Foundation

def Holds (type : LiteralType) (a : Bytes) (cmp : ComparatorType) (b : Bytes) : Prop :=
  evaluateComparator a cmp ⟨type, b⟩ = .ok true

def ExactlyOne (p q r : Prop) : Prop := p ∧ ¬ q ∧ ¬ r ∨ ¬ p ∧ q ∧ ¬ r ∨ ¬ p ∧ ¬ q ∧ r

/-- The laws of an order for the six comparators on two texts. -/
structure Consistent (type : LiteralType) (a b : Bytes) : Prop where
  one : ExactlyOne (Holds type a .lt b) (Holds type a .eq b) (Holds type a .gt b)
  le : Holds type a .le b ↔ Holds type a .lt b ∨ Holds type a .eq b
  ge : Holds type a .ge b ↔ Holds type a .gt b ∨ Holds type a .eq b
  ne : Holds type a .ne b ↔ ¬ Holds type a .eq b

/-! Comparisons -/

section Comparisons

variable {type : LiteralType} {a b : Bytes} {x y : Double} (left : classify a = .number) (right : classify b = .number)
  (parsedLeft : stod a = .ok x) (parsedRight : stod b = .ok y)

include right in
theorem holds_eq_iff : Holds type a .eq b ↔ a = b := by
  rw [Holds, evaluateComparator_eq, removeOuterQuotes_of_classify right, Except.ok.injEq, decide_eq_true_eq]

include right in
theorem holds_ne_iff : Holds type a .ne b ↔ a ≠ b := by
  rw [Holds, evaluateComparator_ne, removeOuterQuotes_of_classify right, Except.ok.injEq, decide_eq_true_eq]

include left right parsedLeft parsedRight in
/-- The ordering comparators look at the parsed values. -/
theorem holds_ordering_iff {cmp : ComparatorType} (ordering : IsOrdering cmp) :
    Holds type a cmp b ↔ compareNumbers cmp x y = true := by
  have unquoted := removeOuterQuotes_of_classify right
  have value : evaluateComparator a cmp ⟨type, b⟩ = .ok (compareNumbers cmp x y) := by
    rw [evaluateComparator_ordering ordering left (unquoted.symm ▸ right), unquoted, parsedLeft, parsedRight]
    rfl
  rw [Holds, value, Except.ok.injEq]

end Comparisons

/-- Two numbers with finite values are compared consistently if and only if their texts are
the same or their values differ. -/
theorem consistent_iff (type : LiteralType) {a b : Bytes} {x y : Double} (left : classify a = .number)
    (right : classify b = .number) (parsedLeft : stod a = .ok x) (parsedRight : stod b = .ok y) (finiteLeft : x.IsFinite)
    (finiteRight : y.IsFinite) : Consistent type a b ↔ a = b ∨ x.toRat ≠ y.toRat := by
  have eq : Holds type a .eq b ↔ a = b := holds_eq_iff right
  have ne : Holds type a .ne b ↔ a ≠ b := holds_ne_iff right
  have lt : Holds type a .lt b ↔ x.toRat < y.toRat :=
    (holds_ordering_iff left right parsedLeft parsedRight (.inl rfl)).trans (Double.lt_iff finiteLeft finiteRight)
  have le : Holds type a .le b ↔ x.toRat ≤ y.toRat :=
    (holds_ordering_iff left right parsedLeft parsedRight (.inr (.inl rfl))).trans
      (Double.le_iff finiteLeft finiteRight)
  have gt : Holds type a .gt b ↔ y.toRat < x.toRat :=
    (holds_ordering_iff left right parsedLeft parsedRight (.inr (.inr (.inl rfl)))).trans
      (Double.lt_iff finiteRight finiteLeft)
  have ge : Holds type a .ge b ↔ y.toRat ≤ x.toRat :=
    (holds_ordering_iff left right parsedLeft parsedRight (.inr (.inr (.inr rfl)))).trans
      (Double.le_iff finiteRight finiteLeft)
  have values : a = b → x.toRat = y.toRat := by
    rintro rfl
    rw [Except.ok.inj (parsedLeft.symm.trans parsedRight)]
  constructor
  · intro consistent
    by_contra neither
    obtain ⟨texts, same⟩ := not_or.mp neither
    have equal : x.toRat = y.toRat := not_not.mp same
    rcases consistent.le.mp (le.mpr equal.le) with less | text
    · exact absurd equal (lt.mp less).ne
    · exact texts (eq.mp text)
  · intro apart
    have onlyText : x.toRat = y.toRat → a = b := fun equal => apart.resolve_right fun differ => differ equal
    have texts : a = b ↔ x.toRat = y.toRat := ⟨values, onlyText⟩
    refine ⟨?_, ?_, ?_, ?_⟩
    · rw [ExactlyOne, lt, eq, gt, texts]
      rcases lt_trichotomy x.toRat y.toRat with less | same | greater
      · exact .inl ⟨less, less.ne, less.asymm⟩
      · exact .inr (.inl ⟨same.not_lt, same, same.not_gt⟩)
      · exact .inr (.inr ⟨greater.asymm, greater.ne', greater⟩)
    · rw [le, lt, eq, texts, le_iff_lt_or_eq]
    · rw [ge, gt, eq, texts, le_iff_lt_or_eq, eq_comm]
    · rw [ne, eq]

/-! One number in two spellings -/

theorem stod_spellings : stod (ascii "1") = .ok (.finite false (2 ^ 52) (-52)) ∧
    stod (ascii "1.0") = .ok (.finite false (2 ^ 52) (-52)) ∧ stod (ascii "2") = .ok (.finite false (2 ^ 52) (-51)) := by
  decide +kernel

/-- One and two. -/
theorem consistent_iff_two : Consistent .number (ascii "1") (ascii "2") := by
  obtain ⟨one, -, two⟩ := stod_spellings
  refine (consistent_iff .number (by decide +kernel) (by decide +kernel) one two trivial trivial).mpr (.inr ?_)
  norm_num [Double.toRat]

/-- `1 <= 1.0` holds, and neither `1 < 1.0` nor `1 = 1.0`. -/
theorem not_consistent : classify (ascii "1") = .number ∧ classify (ascii "1.0") = .number ∧
    (∃ x, stod (ascii "1") = .ok x ∧ x.IsFinite) ∧ (∃ y, stod (ascii "1.0") = .ok y ∧ y.IsFinite) ∧
    ¬ Consistent .number (ascii "1") (ascii "1.0") := by
  have atMost : evaluateComparator (ascii "1") .le ⟨.number, ascii "1.0"⟩ = .ok true := by decide +kernel
  have less : ¬ evaluateComparator (ascii "1") .lt ⟨.number, ascii "1.0"⟩ = .ok true := by decide +kernel
  have equal : ¬ evaluateComparator (ascii "1") .eq ⟨.number, ascii "1.0"⟩ = .ok true := by decide +kernel
  obtain ⟨one, onePoint, -⟩ := stod_spellings
  refine ⟨by decide +kernel, by decide +kernel, ⟨_, one, trivial⟩, ⟨_, onePoint, trivial⟩, fun consistent => ?_⟩
  exact (consistent.le.mp atMost).elim less equal

end Jssql.ConditionEvaluator
