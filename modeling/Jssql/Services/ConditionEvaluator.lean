import Jssql.Auxiliary.Utilities
import Jssql.Foundation.Numeral
import Jssql.Foundation.Regex

/-!
`ConditionEvaluator`: the runtime class of a stored text, `LIKE` by translation
to a regular expression, and the comparators. Ordering comparators parse both
sides with `stod`, which throws on a range error although `classify` has
accepted the text as a number.
-/
namespace Jssql.ConditionEvaluator
open Foundation Jssql

inductive RuntimeType where
  | nullType | boolean | number | string
deriving DecidableEq, Repr

/-- `strtod` converts the whole C string. -/
def isNumeric (s : Bytes) : Bool :=
  match strtod (cString s) with
  | some n => n.rest.isEmpty
  | none => false

def classify (s : Bytes) : RuntimeType :=
  if s.isEmpty || s == ascii "NULL" then .nullType
  else if s == ascii "TRUE" || s == ascii "FALSE" then .boolean
  else if isNumeric s then .number
  else .string

/-- One character of a `LIKE` pattern as regular expression text. -/
def regexOfChar (c : UInt8) : Bytes :=
  if c == 37 then ascii ".*"
  else if c == 95 then ascii "."
  else if (ascii ".^$|()[]\x7b\x7d*+?\\").contains c then [92, c]
  else [c]

def regexPattern (pattern : Bytes) : Bytes :=
  ascii "^" ++ pattern.flatMap regexOfChar ++ ascii "$"

/-- An invalid regular expression matches nothing. -/
def likeMatch (text pattern : Bytes) : Bool :=
  match Regex.compile (regexPattern pattern) with
  | some items => Regex.fullMatch items text
  | none => false

def stod (s : Bytes) : Except Fault Double :=
  match strtod (cString s) with
  | some n => if n.rangeError then .error (.exception .stod) else .ok n.value
  | none => .error (.exception .stod)

/-- The ordering comparators on parsed numbers. -/
def compareNumbers (cmp : ComparatorType) (l r : Double) : Bool :=
  match cmp with
  | .lt => l.lt r
  | .le => l.le r
  | .gt => r.lt l
  | .ge => r.le l
  | _ => false

def evaluateComparator (lhs : Bytes) (cmp : ComparatorType) (rhsNode : LiteralNode) :
    Except Fault Bool :=
  let rhs := removeOuterQuotes rhsNode.value
  let ltype := classify lhs
  let rtype := classify rhs
  match cmp with
  | .is =>
      if ltype == .boolean && rtype == .boolean then .ok (rhs == lhs)
      else .ok (ltype == .nullType)
  | .isNot =>
      if ltype == .boolean && rtype == .boolean then .ok (rhs != lhs)
      else .ok (ltype != .nullType)
  | .like => if ltype != .string then .ok false else .ok (likeMatch lhs rhs)
  | .notLike => if ltype != .string then .ok false else .ok (!likeMatch lhs rhs)
  | .eq => if ltype != rtype then .ok false else .ok (lhs == rhs)
  | .ne => if ltype != rtype then .ok true else .ok (lhs != rhs)
  | .lt | .le | .gt | .ge =>
      if ltype != .number || rtype != .number then .ok false
      else do
        let l ← stod lhs
        let r ← stod rhs
        .ok (compareNumbers cmp l r)

/-- Only the comparators on numbers can throw, and then as `stod` does. -/
theorem evaluateComparator_error {lhs : Bytes} {cmp : ComparatorType} {rhs : LiteralNode}
    {fault : Fault} (h : evaluateComparator lhs cmp rhs = .error fault) :
    fault = .exception .stod := by
  have stod_error (s : Bytes) (e : Fault) (hs : stod s = .error e) : e = .exception .stod := by
    unfold stod at hs
    split at hs
    · split at hs <;> cases hs
      rfl
    · cases hs
      rfl
  have ordering (c : ComparatorType)
      (hc : (if classify lhs != .number || classify (removeOuterQuotes rhs.value) != .number then
        Except.ok false else do
          let l ← stod lhs
          let r ← stod (removeOuterQuotes rhs.value)
          .ok (compareNumbers c l r)) = .error fault) : fault = .exception .stod := by
    split at hc
    · cases hc
    · cases hl : stod lhs with
      | error e =>
          rw [hl] at hc
          cases hc
          exact stod_error _ _ hl
      | ok l =>
          cases hr : stod (removeOuterQuotes rhs.value) with
          | error e =>
              rw [hl, hr] at hc
              cases hc
              exact stod_error _ _ hr
          | ok r =>
              rw [hl, hr] at hc
              cases hc
  cases cmp with
  | is | isNot | like | notLike | eq | ne => simp only [evaluateComparator] at h; split at h <;> cases h
  | lt | le | gt | ge => exact ordering _ h

/-- Equality is equality of the texts, the literal's outer quotes removed. -/
theorem evaluateComparator_eq (lhs : Bytes) (rhs : LiteralNode) :
    evaluateComparator lhs .eq rhs = .ok (decide (lhs = removeOuterQuotes rhs.value)) := by
  simp only [evaluateComparator]
  by_cases h : lhs = removeOuterQuotes rhs.value
  · subst h; simp
  · have hb : (lhs == removeOuterQuotes rhs.value) = false := beq_eq_false_iff_ne.mpr h
    simp [h]

end Jssql.ConditionEvaluator
