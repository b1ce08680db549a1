import Jssql.Theory.SelectRuns

/-!
Conditions that name a key. The lexer's literals and their contents; what the
normalizers make of the literal, `DELETE` taking its quotes off and `SELECT` not;
and the validators' probe of the index, which takes the literal as it then is.
-/
namespace Jssql.FileHandler
open Foundation SemanticNormalizer SemanticValidator ConditionEvaluator StrategyDecider

variable {n : Nat}

/-- The number and string literals of the lexer, with their contents. -/
inductive Lexeme : LiteralNode → Bytes → Prop where
  | number (c : UInt8) (rest : Bytes) (start : c ∈ ascii "+-0123456789") :
      Lexeme ⟨.number, c :: rest⟩ (c :: rest)
  | string (body : Bytes) : Lexeme ⟨.string, singleQuote :: body ++ [singleQuote]⟩ body

namespace Lexeme

variable {literal : LiteralNode} {contents : Bytes}

theorem removeOuterQuotes_value (h : Lexeme literal contents) :
    removeOuterQuotes literal.value = contents := by
  cases h with
  | number c rest start =>
      have noDouble : doubleQuote ∉ ascii "+-0123456789" := by decide
      have noSingle : singleQuote ∉ ascii "+-0123456789" := by decide
      exact removeOuterQuotes_of_head (ne_of_mem_of_not_mem start noDouble)
        (ne_of_mem_of_not_mem start noSingle)
  | string => exact removeOuterQuotes_singleQuoted contents

theorem type_eq (h : Lexeme literal contents) : literal.type = .number ∨ literal.type = .string := by
  cases h with
  | number c rest start => exact .inl rfl
  | string => exact .inr rfl

end Lexeme

/-- The literals of the grammar that are not empty, with their contents. -/
inductive WrittenLiteral : LiteralNode → Bytes → Prop where
  | lexeme {literal : LiteralNode} {contents : Bytes} (h : Lexeme literal contents) :
      WrittenLiteral literal contents
  | null : WrittenLiteral ⟨.nullVal, ascii "NULL"⟩ (ascii "NULL")
  | true : WrittenLiteral ⟨.trueVal, ascii "TRUE"⟩ (ascii "TRUE")
  | false : WrittenLiteral ⟨.falseVal, ascii "FALSE"⟩ (ascii "FALSE")

theorem WrittenLiteral.removeOuterQuotes_value {literal : LiteralNode} {contents : Bytes}
    (h : WrittenLiteral literal contents) : removeOuterQuotes literal.value = contents := by
  cases h with
  | lexeme h => exact h.removeOuterQuotes_value
  | null => rfl
  | true => rfl
  | false => rfl

theorem WrittenLiteral.type_ne {literal : LiteralNode} {contents : Bytes}
    (h : WrittenLiteral literal contents) : literal.type ≠ .empty := by
  cases h with
  | lexeme h =>
      rcases h.type_eq with number | string
      · rw [number]
        rintro ⟨⟩
      · rw [string]
        rintro ⟨⟩
  | null => rintro ⟨⟩
  | true => rintro ⟨⟩
  | false => rintro ⟨⟩

/-! Validation -/

theorem primaryKeyIndexOf_eq {ctx : ExecutionContext} {table : Bytes} {t : TableSchema n}
    {columns : Map Bytes Index} {idx : Index} (hc : ctx.indices.lookup table = some columns)
    (hi : columns.lookup t.pkColName = some idx) :
    primaryKeyIndexOf ctx table t.schema = .ok (t.pkColName, idx) := by
  rw [primaryKeyIndexOf, t.key, ok_bind, Map.at_of_lookup hc, ok_bind, Map.at_of_lookup hi]
  rfl

/-- The probe for a key equality is a look-up of the literal. -/
theorem absentKeyViolation_eq {ctx : ExecutionContext} {table : Bytes} {t : TableSchema n}
    {columns : Map Bytes Index} {idx : Index} (hc : ctx.indices.lookup table = some columns)
    (hi : columns.lookup t.pkColName = some idx) {cond : ConditionNode}
    (isKey : cond.colName = t.pkColName) (isEq : cond.cmp = .eq) :
    absentKeyViolation ctx table t.schema (some ⟨cond⟩) =
      .ok (if cond.literal.value ∈ idx then none
        else some ⟨.primaryKeyDoesNotExistInSpecialPKEQCase, [cond.literal.value, table]⟩) := by
  simp only [absentKeyViolation]
  rw [primaryKeyIndexOf_eq hc hi, ok_bind]
  by_cases present : cond.literal.value ∈ idx
  · rw [if_pos present, if_neg (by simp [present])]
    rfl
  · rw [if_neg present, if_pos ⟨isKey, isEq, present⟩]
    rfl

/-- Without a key equality the probe finds no fault. -/
theorem absentKeyViolation_other {ctx : ExecutionContext} {table : Bytes} {t : TableSchema n}
    {columns : Map Bytes Index} {idx : Index} (hc : ctx.indices.lookup table = some columns)
    (hi : columns.lookup t.pkColName = some idx) {optWhere : Option WhereNode}
    (scan : isUniqueEqualityLookup optWhere t.pkColName = false) :
    absentKeyViolation ctx table t.schema optWhere = .ok none := by
  cases optWhere with
  | none => rfl
  | some w =>
      have other : ¬ (w.condition.colName = t.pkColName ∧ w.condition.cmp = .eq ∧
          w.condition.literal.value ∉ idx) := by
        rintro ⟨isKey, isEq, -⟩
        rw [isUniqueEqualityLookup, isKey, isEq] at scan
        simp at scan
      simp only [absentKeyViolation]
      rw [primaryKeyIndexOf_eq hc hi, ok_bind, if_neg other]
      rfl

theorem validateWhereClauseSemantics_lexeme {table : Bytes} {schema : Schema} {cond : ConditionNode}
    (column : cond.colName ∈ columnNames schema) (isEq : cond.cmp = .eq)
    (type_ : cond.literal.type = .number ∨ cond.literal.type = .string) :
    validateWhereClauseSemantics table schema (some ⟨cond⟩) = none := by
  have given : cond.literal.type ≠ .empty := by rcases type_ with h | h <;> simp [h]
  simp only [validateWhereClauseSemantics]
  rw [if_neg (not_not_intro column), if_neg given, isEq]
  exact if_pos type_

/-- A condition that names a key of the index is accepted. -/
theorem validateWhereOfTable_key {ctx : ExecutionContext} {table : Bytes} {t : TableSchema n}
    {columns : Map Bytes Index} {idx : Index} (hc : ctx.indices.lookup table = some columns)
    (hi : columns.lookup t.pkColName = some idx) {cond : ConditionNode}
    (isKey : cond.colName = t.pkColName) (isEq : cond.cmp = .eq) (present : cond.literal.value ∈ idx)
    (type_ : cond.literal.type = .number ∨ cond.literal.type = .string) :
    validateWhereOfTable ctx table t.schema (some ⟨cond⟩) = .ok none := by
  rw [validateWhereOfTable, absentKeyViolation_eq hc hi isKey isEq, if_pos present, ok_bind]
  dsimp only
  rw [validateWhereClauseSemantics_lexeme (isKey ▸ t.pkColName_mem) isEq type_]
  rfl

/-! The normalizer of `DELETE` -/

/-- The condition that `DELETE` works with: quotes taken off, and the column's index. -/
def strippedCondition (schema : Schema) (cond : ConditionNode) : ConditionNode :=
  indexedCondition schema { cond with
    literal := { cond.literal with value := removeOuterQuotes cond.literal.value } }

def strippedWhere (schema : Schema) (optWhere : Option WhereNode) : Option WhereNode :=
  optWhere.map fun w => ⟨strippedCondition schema w.condition⟩

theorem normalizeDelete_ok {node node' : DeleteNode} {tables : Map Bytes Schema} {schema : Schema}
    (known : tables.lookup node.tableName = some schema)
    (h : normalizeDelete node tables = (node', true)) :
    node'.tableName = node.tableName ∧
      node'.optWhereNode = strippedWhere schema node.optWhereNode ∧
      ∀ w ∈ node.optWhereNode, w.condition.colName ∈ columnNames schema := by
  cases hw : node.optWhereNode with
  | none =>
      simp only [normalizeDelete, known, hw] at h
      cases h
      exact ⟨rfl, hw, by simp⟩
  | some w =>
      simp only [normalizeDelete, known, hw] at h
      obtain ⟨rfl, ok⟩ := Prod.mk.inj h
      obtain ⟨where_, column⟩ := normalizeWhereClause_ok (Prod.ext rfl ok)
      refine ⟨rfl, where_, fun v hv => ?_⟩
      cases hv
      have found := column _ (Option.mem_some_self _)
      exact found

end Jssql.FileHandler
