import Jssql.Foundation.DecimalText
import Jssql.Parser.Lexer
import Jssql.Services.SemanticValidator
import Jssql.Theory.Comparators
import Jssql.Theory.KeyConditions

/-!
The numbers of the lexer and of the evaluator. The pattern of the lexer lets a fraction stand
behind the exponent and behind another fraction, where `strtod` stops. The validator takes such
a literal for a number, and the comparison with it is false for every value.
-/
namespace Jssql.ConditionEvaluator
open Foundation Foundation.Pattern Lexer SemanticValidator FileHandler

/-- A point behind the first point or `e`. -/
def LatePoint (w : Bytes) : Prop := 46 ∈ (w.dropWhile fun c => c ≠ 46 ∧ c ≠ 101).drop 1

instance (w : Bytes) : Decidable (LatePoint w) := inferInstanceAs (Decidable (_ ∈ _))

/-- The parts of a number of the lexer; `rest` is what `strtod` does not read. -/
inductive NumberParts : Bytes → Bytes → Prop
  | mk {sign whole frac exp rest : Bytes} (signed : sign = [] ∨ sign = [43] ∨ sign = [45]) (digits : Digits whole)
      (fraction : DigitsAfter 46 frac) (exponent : DigitsAfter 101 exp) (junk : DigitsAfter 46 rest)
      (closed : rest ≠ [] → frac ≠ [] ∨ exp ≠ []) :
      NumberParts (sign ++ (whole ++ (frac ++ (exp ++ rest)))) rest

theorem matches_char {c : UInt8} {w : Bytes} : Matches (char c) w ↔ w = [c] := by
  rw [char, matches_one]
  simp only [decide_eq_true_eq, exists_eq_left]

theorem matches_digits {w : Bytes} : Matches digits w ↔ Digits w := matches_plus_one

theorem matches_fraction {w : Bytes} : Matches (opt fraction) w ↔ DigitsAfter 46 w := by
  rw [matches_opt, fraction, matches_seq]
  simp only [matches_char, matches_digits]
  constructor
  · rintro (⟨_, ds, rfl, rfl, h⟩ | rfl)
    · exact .some h
    · exact .none
  · intro h
    cases h with
    | none => exact .inr rfl
    | some h => exact .inl ⟨[46], _, rfl, rfl, h⟩

/-- Digits that follow digits or a fraction without an `e` are read with them. -/
theorem number_parts {w : Bytes} (h : Matches number w) : ∃ rest, NumberParts w rest := by
  obtain ⟨sign, _, rfl, hsign, h⟩ := matches_seq.mp h
  obtain ⟨whole, _, rfl, hwhole, h⟩ := matches_seq.mp h
  obtain ⟨frac, tail, rfl, hfrac, htail⟩ := matches_seq.mp h
  have signed : sign = [] ∨ sign = [43] ∨ sign = [45] := by
    rw [matches_opt, matches_either, matches_char, matches_char] at hsign
    exact (or_comm.mp hsign)
  have digits : Digits whole := matches_digits.mp hwhole
  have fraction := matches_fraction.mp hfrac
  rcases matches_opt.mp htail with htail | rfl
  · obtain ⟨marker, _, rfl, hmarker, htail⟩ := matches_seq.mp htail
    obtain ⟨ds, second, rfl, hds, hsecond⟩ := matches_seq.mp htail
    have more : Digits ds := matches_digits.mp hds
    have junk := matches_fraction.mp hsecond
    rw [matches_opt, matches_char] at hmarker
    rcases hmarker with rfl | rfl
    · exact ⟨second, .mk signed digits fraction (.some more) junk fun _ => .inr (List.cons_ne_nil _ _)⟩
    · cases fraction with
      | none =>
          have parts := NumberParts.mk signed (digits.append more) junk .none .none fun h => absurd rfl h
          refine ⟨[], ?_⟩
          simpa only [List.append_assoc, List.nil_append, List.append_nil] using parts
      | @some fs first =>
          have parts := NumberParts.mk signed digits (.some (first.append more)) .none junk fun _ =>
            .inl (List.cons_ne_nil _ _)
          refine ⟨second, ?_⟩
          simpa only [List.append_assoc, List.nil_append, List.cons_append] using parts
  · refine ⟨[], ?_⟩
    have parts := NumberParts.mk signed digits fraction .none .none fun h => absurd rfl h
    simpa only [List.append_nil, List.nil_append] using parts

section Parts

variable {w rest : Bytes} (parts : NumberParts w rest)

include parts

theorem NumberParts.forall_mem : ∀ c ∈ w, c = 43 ∨ c = 45 ∨ isDecimalChar c = true := by
  obtain ⟨signed, digits, fraction, exponent, junk, -⟩ := parts
  have plain : ∀ c, isDecimalChar c = true → c = 43 ∨ c = 45 ∨ isDecimalChar c = true := fun c h => .inr (.inr h)
  refine List.forall_mem_append.mpr ⟨?_, List.forall_mem_append.mpr ⟨fun c mem => plain c ?_,
    List.forall_mem_append.mpr ⟨fun c mem => plain c (fraction.forall_mem rfl c mem), List.forall_mem_append.mpr
      ⟨fun c mem => plain c (exponent.forall_mem rfl c mem), fun c mem => plain c (junk.forall_mem rfl c mem)⟩⟩⟩⟩
  · rcases signed with rfl | rfl | rfl
    · rintro _ ⟨⟩
    · exact List.forall_mem_singleton.mpr (.inl rfl)
    · exact List.forall_mem_singleton.mpr (.inr (.inl rfl))
  · rw [isDecimalChar, digits.2 c mem]
    rfl

/-- There is no NUL that would end the text. -/
theorem NumberParts.cString_eq : cString w = w := by
  have chars : ∀ c : UInt8, c = 43 ∨ c = 45 ∨ isDecimalChar c = true → c ≠ 0 := by
    grind [isDecimalChar, isDigit]
  refine List.takeWhile_eq_self_iff.mpr fun c mem => ?_
  exact decide_eq_true (chars c (parts.forall_mem c mem))

theorem NumberParts.strtod_eq : ∃ value rangeError, strtod (cString w) = some ⟨value, rangeError, rest⟩ := by
  rw [parts.cString_eq]
  obtain ⟨signed, digits, fraction, exponent, junk, closed⟩ := parts
  exact strtod_decimal signed digits fraction exponent junk closed

theorem NumberParts.isNumeric_iff : isNumeric w = true ↔ rest = [] := by
  obtain ⟨value, rangeError, converted⟩ := parts.strtod_eq
  rw [isNumeric, converted]
  exact List.isEmpty_iff

theorem NumberParts.latePoint_iff : LatePoint w ↔ rest ≠ [] := by
  obtain ⟨signed, digits, fraction, exponent, junk, closed⟩ := parts
  rename_i sign whole frac exp
  have noPoint {ds : Bytes} (h : Digits ds) : 46 ∉ ds := fun mem => Bool.false_ne_true (h.2 46 mem)
  have point : 46 ∈ rest ↔ rest ≠ [] := by
    cases junk with
    | none => exact iff_of_false List.not_mem_nil fun h => h rfl
    | some _ => exact iff_of_true List.mem_cons_self (List.cons_ne_nil _ _)
  have marks : ∀ c : UInt8, isDigit c = true → c ≠ 46 ∧ c ≠ 101 := by grind [isDigit]
  have front : ∀ c ∈ sign ++ whole, decide (c ≠ 46 ∧ c ≠ 101) = true := by
    refine List.forall_mem_append.mpr ⟨?_, fun c mem => decide_eq_true (marks c (digits.2 c mem))⟩
    rcases signed with rfl | rfl | rfl
    · rintro _ ⟨⟩
    · exact List.forall_mem_singleton.mpr rfl
    · exact List.forall_mem_singleton.mpr rfl
  rw [LatePoint, ← List.append_assoc, List.dropWhile_append_of_pos front]
  cases fraction with
  | some fs =>
      rw [List.cons_append, List.dropWhile_cons_of_neg (by decide), List.drop_one, List.tail_cons, List.mem_append,
        List.mem_append, or_iff_right (noPoint fs)]
      cases exponent with
      | none => rw [or_iff_right List.not_mem_nil, point]
      | some es => rw [List.mem_cons, or_iff_right (not_or.mpr ⟨by decide, noPoint es⟩), point]
  | none =>
      cases exponent with
      | some es =>
          rw [List.nil_append, List.cons_append, List.dropWhile_cons_of_neg (by decide), List.drop_one, List.tail_cons,
            List.mem_append, or_iff_right (noPoint es), point]
      | none =>
          obtain rfl : rest = [] := by
            by_contra junky
            exact (closed junky).elim (fun h => h rfl) fun h => h rfl
          exact iff_of_false List.not_mem_nil fun h => h rfl

theorem NumberParts.lexeme : Lexeme ⟨.number, w⟩ w := by
  have listed : ascii "+-0123456789" = [43, 45, 48, 49, 50, 51, 52, 53, 54, 55, 56, 57] := rfl
  have starts : ∀ c : UInt8, isDigit c = true → c ∈ ascii "+-0123456789" := by
    simp only [listed, List.mem_cons, List.not_mem_nil, or_false]
    grind [isDigit]
  obtain ⟨signed, ⟨nonempty, all⟩, -, -, -, -⟩ := parts
  rcases signed with rfl | rfl | rfl
  · obtain ⟨d, ds, rfl⟩ := List.exists_cons_of_ne_nil nonempty
    exact .number d _ (starts d (all d List.mem_cons_self))
  · exact .number 43 _ (by decide)
  · exact .number 45 _ (by decide)

/-- A lexeme that is not numeric is a string for the evaluator. -/
theorem NumberParts.classify_eq : classify w = if isNumeric w then .number else .string := by
  have chars := parts.forall_mem
  have other (keyword : Bytes) (c : UInt8) (mem : c ∈ keyword) (letter : ¬ (c = 43 ∨ c = 45 ∨ isDecimalChar c = true)) :
      (w == keyword) = false := by
    refine beq_eq_false_iff_ne.mpr ?_
    rintro rfl
    exact letter (chars c mem)
  have solid : w.isEmpty = false := by
    obtain ⟨-, digits, -, -, -, -⟩ := parts
    rw [List.isEmpty_eq_false_iff]
    exact List.append_ne_nil_of_right_ne_nil _ (List.append_ne_nil_of_left_ne_nil digits.1 _)
  rw [classify, solid, other (ascii "NULL") 78 (by decide) (by decide), Bool.or_self,
    if_neg Bool.false_ne_true, other (ascii "TRUE") 84 (by decide) (by decide),
    other (ascii "FALSE") 70 (by decide) (by decide), Bool.or_self, if_neg Bool.false_ne_true]

end Parts

/-- A number of the lexer is one for `isNumeric` if and only if it has no late point. -/
theorem isNumeric_iff {w : Bytes} (lexeme : Matches number w) : isNumeric w = true ↔ ¬ LatePoint w := by
  obtain ⟨rest, parts⟩ := number_parts lexeme
  rw [parts.isNumeric_iff, parts.latePoint_iff, not_not]

/-! Conditions -/

/-- The lexeme is numeric, and an accepted ordering condition with it compares the parsed
numbers for every stored number. -/
def ComparesNumerically (lexeme : Bytes) : Prop :=
  isNumeric lexeme = true ∧ ∀ (table : Bytes) (schema : Schema) (cond : ConditionNode), IsOrdering cond.cmp →
    cond.literal = ⟨.number, lexeme⟩ → validateWhereClauseSemantics table schema (some ⟨cond⟩) = accepted →
    ∀ value, classify value = .number → evaluateComparator value cond.cmp cond.literal = (do
      let l ← stod value
      let r ← stod lexeme
      return compareNumbers cond.cmp l r)

/-- An ordering condition with a number of the lexer compares numbers if and only if the
number has no point behind its first point or `e`. -/
theorem comparesNumerically_iff {lexeme : Bytes} (matched : Matches number lexeme) :
    ComparesNumerically lexeme ↔ ¬ LatePoint lexeme := by
  obtain ⟨rest, parts⟩ := number_parts matched
  have unquoted : removeOuterQuotes lexeme = lexeme := parts.lexeme.removeOuterQuotes_value
  constructor
  · intro compares
    exact (isNumeric_iff matched).mp compares.1
  · intro clean
    have numeric := (isNumeric_iff matched).mpr clean
    refine ⟨numeric, fun table schema cond ordering literal _ value left => ?_⟩
    have right : classify (removeOuterQuotes cond.literal.value) = .number := by
      rw [literal, unquoted, parts.classify_eq, if_pos numeric]
    have compared := evaluateComparator_ordering ordering left right
    rw [show removeOuterQuotes cond.literal.value = lexeme by rw [literal, unquoted]] at compared
    exact compared

/-- With such a point the condition is false for every value. -/
theorem evaluateComparator_latePoint {lexeme : Bytes} (matched : Matches number lexeme) (late : LatePoint lexeme)
    {cmp : ComparatorType} (ordering : IsOrdering cmp) (value : Bytes) :
    evaluateComparator value cmp ⟨.number, lexeme⟩ = .ok false := by
  obtain ⟨rest, parts⟩ := number_parts matched
  have text : isNumeric lexeme ≠ true := fun numeric => (isNumeric_iff matched).mp numeric late
  have unquoted : removeOuterQuotes lexeme = lexeme := parts.lexeme.removeOuterQuotes_value
  have other : classify (removeOuterQuotes lexeme) ≠ .number := by
    rw [unquoted, parts.classify_eq, if_neg text]
    rintro ⟨⟩
  exact evaluateComparator_not_number ordering value other

/-- The number `-1.5e3`. -/
theorem comparesNumerically_iff_plain : Matches number (ascii "-1.5e3") ∧ ComparesNumerically (ascii "-1.5e3") :=
  ⟨by decide, (comparesNumerically_iff (by decide)).mpr (by decide)⟩

/-- The lexer takes `1e2.5` for a number. -/
theorem not_comparesNumerically : Matches number (ascii "1e2.5") ∧ ¬ ComparesNumerically (ascii "1e2.5") := by
  refine ⟨by decide, fun compares => ?_⟩
  exact absurd compares.1 (by decide +kernel)

end Jssql.ConditionEvaluator
