import Jssql.Services.ConditionEvaluator

/-!
What each comparator says of a stored text and a literal: equality and `LIKE` look at the
texts, `IS` at their classes, the orderings at the parsed numbers.
-/
namespace Jssql.ConditionEvaluator
open Foundation

/-! Texts -/

theorem evaluateComparator_ne (lhs : Bytes) (rhs : LiteralNode) :
    evaluateComparator lhs .ne rhs = .ok (decide (lhs ≠ removeOuterQuotes rhs.value)) := by
  simp only [evaluateComparator]
  by_cases same : lhs = removeOuterQuotes rhs.value
  · subst same; simp
  · simp [same]

theorem evaluateComparator_like (lhs : Bytes) (rhs : LiteralNode) : evaluateComparator lhs .like rhs =
    .ok (decide (classify lhs = .string) && likeMatch lhs (removeOuterQuotes rhs.value)) := by
  simp only [evaluateComparator]
  by_cases text : classify lhs = .string <;> simp [text]

theorem evaluateComparator_notLike (lhs : Bytes) (rhs : LiteralNode) : evaluateComparator lhs .notLike rhs =
    .ok (decide (classify lhs = .string) && !likeMatch lhs (removeOuterQuotes rhs.value)) := by
  simp only [evaluateComparator]
  by_cases text : classify lhs = .string <;> simp [text]

/-! Numbers -/

theorem isNumeric_of_classify {s : Bytes} (number : classify s = .number) : isNumeric s = true := by
  unfold classify at number
  split at number
  · cases number
  · split at number
    · cases number
    · split at number
      · assumption
      · cases number

theorem isNumeric_quote {quote : UInt8} (isQuote : quote = doubleQuote ∨ quote = singleQuote) (s : Bytes) :
    isNumeric (quote :: s) = false := by
  rcases isQuote with rfl | rfl <;> rfl

theorem isWrappedIn_of_isNumeric {quote : UInt8} (isQuote : quote = doubleQuote ∨ quote = singleQuote) {s : Bytes}
    (numeric : isNumeric s = true) : isWrappedIn quote s = false := by
  cases s with
  | nil => rfl
  | cons c s =>
      have other : c ≠ quote := by
        rintro rfl
        rw [isNumeric_quote isQuote] at numeric
        cases numeric
      rw [isWrappedIn, List.head?_cons, beq_eq_false_iff_ne.mpr fun h => other (Option.some.inj h), Bool.and_false,
        Bool.false_and]

/-- A number has no outer quotes. -/
theorem removeOuterQuotes_of_classify {s : Bytes} (number : classify s = .number) : removeOuterQuotes s = s := by
  have numeric := isNumeric_of_classify number
  rw [removeOuterQuotes, isWrappedIn_of_isNumeric (.inl rfl) numeric, if_neg Bool.false_ne_true,
    isWrappedIn_of_isNumeric (.inr rfl) numeric, if_neg Bool.false_ne_true]

def IsOrdering (cmp : ComparatorType) : Prop := cmp = .lt ∨ cmp = .le ∨ cmp = .gt ∨ cmp = .ge

theorem evaluateComparator_ordering {cmp : ComparatorType} (ordering : IsOrdering cmp) {value : Bytes}
    {literal : LiteralNode} (left : classify value = .number)
    (right : classify (removeOuterQuotes literal.value) = .number) :
    evaluateComparator value cmp literal = (do
      let l ← stod value
      let r ← stod (removeOuterQuotes literal.value)
      return compareNumbers cmp l r) := by
  rcases ordering with rfl | rfl | rfl | rfl <;>
    simp only [evaluateComparator, left, right, bne_self_eq_false, Bool.or_self, Bool.false_eq_true, if_false] <;> rfl

/-- What is not numeric is less than nothing and greater than nothing. -/
theorem evaluateComparator_not_number {cmp : ComparatorType} (ordering : IsOrdering cmp) (value : Bytes)
    {literal : LiteralNode} (right : classify (removeOuterQuotes literal.value) ≠ .number) :
    evaluateComparator value cmp literal = .ok false := by
  have other : (classify (removeOuterQuotes literal.value) != .number) = true := bne_iff_ne.mpr right
  rcases ordering with rfl | rfl | rfl | rfl <;>
    simp only [evaluateComparator, other, Bool.or_true, if_true]

/-! `IS` -/

/-- `IS` with a text that is no truth value is the test for NULL, and with a truth value it
is that test too unless the stored text is a truth value. -/
theorem evaluateComparator_is (lhs : Bytes) (rhs : LiteralNode) : evaluateComparator lhs .is rhs =
    .ok (if classify lhs = .boolean ∧ classify (removeOuterQuotes rhs.value) = .boolean
      then decide (lhs = removeOuterQuotes rhs.value) else decide (classify lhs = .nullType)) := by
  simp only [evaluateComparator]
  by_cases both : classify lhs = .boolean ∧ classify (removeOuterQuotes rhs.value) = .boolean
  · rw [both.1, both.2, if_pos (by decide), if_pos ⟨rfl, rfl⟩, beq_eq_decide]
    exact congrArg Except.ok (decide_eq_decide.mpr eq_comm)
  · have apart : (classify lhs == .boolean && classify (removeOuterQuotes rhs.value) == .boolean) = false := by
      simpa using both
    rw [apart, if_neg Bool.false_ne_true, if_neg both]
    rfl

theorem evaluateComparator_isNot (lhs : Bytes) (rhs : LiteralNode) :
    evaluateComparator lhs .isNot rhs = (evaluateComparator lhs .is rhs).map (!·) := by
  simp only [evaluateComparator]
  split <;> rfl

end Jssql.ConditionEvaluator
