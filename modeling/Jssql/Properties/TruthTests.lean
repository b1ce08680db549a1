import Jssql.Services.SemanticValidator
import Jssql.Theory.Comparators
import Jssql.Theory.KeyConditions

/-!
`IS` and `IS NOT`. Of the literals that the validator lets through, NULL is tested for what
it says. The test for a truth value turns into the one for NULL when the stored text is no
truth value, so a NULL is found to be TRUE and FALSE.
-/
namespace Jssql.ConditionEvaluator
open Foundation SemanticValidator FileHandler

/-- What `IS` with the literal says of a value. -/
def Says (type : LiteralType) (value : Bytes) : Prop :=
  match type with
  | .nullVal => classify value = .nullType
  | .trueVal => value = ascii "TRUE"
  | .falseVal => value = ascii "FALSE"
  | _ => False

/-- `IS` says what it says, and `IS NOT` the contrary. -/
def TestsWhatItSays (literal : LiteralNode) (value : Bytes) : Prop :=
  (evaluateComparator value .is literal = .ok true ↔ Says literal.type value) ∧
    (evaluateComparator value .isNot literal = .ok true ↔ ¬ evaluateComparator value .is literal = .ok true)

/-- An accepted `IS` or `IS NOT` takes no number and no string. -/
theorem keyword_of_accepted {table : Bytes} {schema : Schema} {cond : ConditionNode}
    (isTest : cond.cmp = .is ∨ cond.cmp = .isNot)
    (valid : validateWhereClauseSemantics table schema (some ⟨cond⟩) = accepted) :
    cond.literal.type ≠ .number ∧ cond.literal.type ≠ .string := by
  have taken : comparatorViolation cond.cmp cond.literal.type = none := by
    rw [validateWhereClauseSemantics] at valid
    split at valid
    · cases valid
    · split at valid
      · cases valid
      · exact valid
  constructor
  · intro number
    rcases isTest with same | same <;> rw [same, number] at taken <;> cases taken
  · intro string
    rcases isTest with same | same <;> rw [same, string] at taken <;> cases taken

/-- `IS NOT` always says the contrary of `IS`. -/
theorem isNot_iff (literal : LiteralNode) (value : Bytes) : evaluateComparator value .isNot literal = .ok true ↔
    ¬ evaluateComparator value .is literal = .ok true := by
  obtain ⟨answer, is⟩ : ∃ answer, evaluateComparator value .is literal = .ok answer :=
    ⟨_, evaluateComparator_is value literal⟩
  rw [evaluateComparator_isNot, is]
  cases answer <;> decide

/-- The test for a truth value goes wrong for what counts as NULL and for nothing else. -/
theorem is_truth_iff {literal : LiteralNode} {truth : Bytes} (contents : removeOuterQuotes literal.value = truth)
    (boolean : classify truth = .boolean) (value : Bytes) :
    (evaluateComparator value .is literal = .ok true ↔ value = truth) ↔ classify value ≠ .nullType := by
  rw [evaluateComparator_is, contents, boolean, Except.ok.injEq]
  by_cases stored : classify value = .boolean
  · have other : classify value ≠ .nullType := by
      rw [stored]
      rintro ⟨⟩
    rw [if_pos ⟨stored, rfl⟩, decide_eq_true_eq]
    exact iff_of_true Iff.rfl other
  · have apart : value ≠ truth := by
      rintro rfl
      exact stored boolean
    rw [if_neg fun both => stored both.1, decide_eq_true_eq, iff_false_right apart]

/-- With an accepted literal of the grammar `IS` and `IS NOT` test what they say if and only if
the literal is NULL or the stored value is not. -/
theorem testsWhatItSays_iff {table : Bytes} {schema : Schema} {cond : ConditionNode} {contents : Bytes}
    (isTest : cond.cmp = .is ∨ cond.cmp = .isNot) (written : WrittenLiteral cond.literal contents)
    (valid : validateWhereClauseSemantics table schema (some ⟨cond⟩) = accepted) (value : Bytes) :
    TestsWhatItSays cond.literal value ↔ cond.literal.type = .nullVal ∨ classify value ≠ .nullType := by
  obtain ⟨noNumber, noString⟩ := keyword_of_accepted isTest valid
  rw [TestsWhatItSays, and_iff_left (isNot_iff cond.literal value)]
  generalize cond.literal = literal at written noNumber noString
  cases written with
  | lexeme lexeme => exact lexeme.type_eq.elim (fun number => absurd number noNumber) fun string => absurd string noString
  | null =>
      refine iff_of_true ?_ (.inl rfl)
      have nullText : classify (removeOuterQuotes (ascii "NULL")) ≠ .boolean := by decide
      rw [evaluateComparator_is, if_neg fun both => nullText both.2, Except.ok.injEq, decide_eq_true_eq]
      exact Iff.rfl
  | true => exact (is_truth_iff rfl (by decide) value).trans (or_iff_right (by rintro ⟨⟩)).symm
  | false => exact (is_truth_iff rfl (by decide) value).trans (or_iff_right (by rintro ⟨⟩)).symm

/-- The condition `x IS TRUE`. -/
def isTrue : ConditionNode := ⟨ascii "x", .is, ⟨.trueVal, ascii "TRUE"⟩, 255⟩

/-- On the stored text `yes`. -/
theorem testsWhatItSays_iff_yes : TestsWhatItSays isTrue.literal (ascii "yes") := by
  have valid : validateWhereClauseSemantics (ascii "t") [⟨ascii "x", []⟩] (some ⟨isTrue⟩) = accepted := rfl
  exact (testsWhatItSays_iff (.inl rfl) .true valid (ascii "yes")).mpr (.inr (by decide +kernel))

/-- An empty value is found to be TRUE. -/
theorem not_testsWhatItSays :
    validateWhereClauseSemantics (ascii "t") [⟨ascii "x", []⟩] (some ⟨isTrue⟩) = accepted ∧
      evaluateComparator [] isTrue.cmp isTrue.literal = .ok true ∧ ¬ TestsWhatItSays isTrue.literal [] := by
  have found : evaluateComparator [] .is isTrue.literal = .ok true := by decide
  refine ⟨rfl, found, fun tests => ?_⟩
  have empty : ([] : Bytes) = ascii "TRUE" := tests.1.mp found
  cases empty

end Jssql.ConditionEvaluator
