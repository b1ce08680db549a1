import Jssql.Theory.Appending
import Jssql.Interpreter.InterpreterVisitor

/-!
What a `SELECT` returns on a well-formed table. The normalizer leaves the table
and the condition as they are and adds a mask as wide as the schema; the two
branches of `selectData` then are functions of the records of the file.
-/
namespace Jssql.FileHandler
open Foundation Foundation.Stream SemanticNormalizer SemanticValidator StrategyDecider

variable {n : Nat}

/-! The normalizer -/

theorem projectionMaskOf_length {schema : Schema} (names : List Bytes) :
    ∀ {mask mask' : List Bool}, projectionMaskOf schema names mask = .ok mask' →
      mask'.length = mask.length := by
  induction names with
  | nil =>
      intro mask mask' h
      cases h
      rfl
  | cons name names ih =>
      intro mask mask' h
      rw [projectionMaskOf] at h
      split at h
      · cases h
      · rw [ih h, List.length_set]

/-- The condition with the index of its column. -/
def indexedCondition (schema : Schema) (cond : ConditionNode) : ConditionNode :=
  { cond with schemaIndex := UInt8.ofNat (findColumn schema cond.colName) }

def indexedWhere (schema : Schema) (optWhere : Option WhereNode) : Option WhereNode :=
  optWhere.map fun w => ⟨indexedCondition schema w.condition⟩

theorem normalizeWhereClause_ok {optWhere optWhere' : Option WhereNode} {schema : Schema}
    (h : normalizeWhereClause optWhere schema = (optWhere', true)) :
    optWhere' = indexedWhere schema optWhere ∧
      ∀ w ∈ optWhere, w.condition.colName ∈ columnNames schema := by
  cases optWhere with
  | none => cases h; exact ⟨rfl, by simp⟩
  | some w =>
      simp only [normalizeWhereClause] at h
      split at h
      · cases h
      next known =>
          cases h
          refine ⟨rfl, fun v hv => ?_⟩
          cases hv
          refine List.idxOf_lt_length_iff.mp (lt_of_le_of_ne List.idxOf_le_length ?_)
          simpa [findColumn, columnNames] using known

/-- What a successful normalization of a `SELECT` on a known table makes of it. -/
theorem normalizeSelect_ok {node node' : SelectNode} {tables : Map Bytes Schema} {schema : Schema}
    (known : tables.lookup node.tableName = some schema)
    (h : normalizeSelect node tables = (node', true)) :
    node'.tableName = node.tableName ∧ node'.columns = some (columnNames schema) ∧
      node'.projectionMask.length = schema.length ∧
      projectionMaskOf schema (node.columns.getD (columnNames schema))
        (List.replicate schema.length false) = .ok node'.projectionMask ∧
      normalizeWhereClause node.optWhereNode schema = (node'.optWhereNode, true) := by
  simp only [normalizeSelect, known] at h
  split at h
  · cases h
  · next mask hm =>
      obtain ⟨nodes, ok⟩ := Prod.mk.inj h
      subst nodes
      refine ⟨rfl, rfl, ?_, hm, Prod.ext rfl ok⟩
      rw [projectionMaskOf_length _ hm, List.length_replicate]

theorem isUniqueEqualityLookup_normalized {optWhere optWhere' : Option WhereNode} {schema : Schema}
    (h : normalizeWhereClause optWhere schema = (optWhere', true)) (uniqueColName : Bytes) :
    isUniqueEqualityLookup optWhere' uniqueColName = isUniqueEqualityLookup optWhere uniqueColName := by
  rw [(normalizeWhereClause_ok h).1]
  cases optWhere <;> rfl

/-! The handler -/

variable {w : World} {t : TableSchema n} {f : TableFile n}

/-- Without a key equality the rows are those of the scan. -/
theorem selectData_sequential (env : Env) {node : SelectNode}
    (known : w.ctx.untypedTables.lookup node.tableName = some t.schema)
    (file : HasFile w node.tableName f) (width : node.projectionMask.length = n + 1)
    (scan : isUniqueEqualityLookup node.optWhereNode t.pkColName = false) :
    outcome (fun _ => ()) ((selectData env node).run w) =
      settle (selectedRows node.projectionMask node.optWhereNode f.records) w () := by
  have schema : w.ctx.untypedTables.at node.tableName .tableName = .ok t.schema :=
    Map.at_of_lookup known _
  have rows (optWhere : Option WhereNode) := selectSequentially_records env t width optWhere
    f.header f.records
  have stream (optWhere : Option WhereNode) : outcome (fun _ => ()) ((do
      let read ← runStream (atRecords f) (selectSequentially env t.schema node.projectionMask optWhere)
      return read.1 : Exec ResultSet).run w) =
      settle (selectedRows node.projectionMask optWhere f.records) w () := by
    have scanned := rows optWhere
    cases hr : (selectSequentially env t.schema node.projectionMask optWhere).run
        (split f.header (encodeAll f.records)) with
    | ok results s =>
        rw [hr] at scanned
        rw [run_bind_ok (runStream_ok (s := atRecords f) hr w)]
        rw [← result_of_outcome scanned]
        rfl
    | error e s =>
        rw [hr] at scanned
        rw [run_bind_error (runStream_error (s := atRecords f) hr w),
          ← result_of_outcome scanned]
        rfl
  unfold selectData
  rw [run_bind_ok (ensureTableFileExists_run file), run_bind_ok (openTableFile_run file),
    run_bind_ok (run_get w), schema, run_bind_ok (run_lift_ok _ _),
    run_bind_ok (runStream_ok (checkFileValidity_file env true f) _)]
  dsimp only
  rw [if_pos (atRecords_isOpen f), t.key, run_bind_ok (run_lift_ok _ _)]
  cases hw : node.optWhereNode with
  | none => exact stream none
  | some condition =>
      rw [hw] at scan
      dsimp only
      rw [if_neg (by rw [scan]; exact Bool.false_ne_true)]
      exact stream (some condition)

/-- A key equality is looked up in the index. -/
theorem selectData_keyed (env : Env) {node : SelectNode}
    (known : w.ctx.untypedTables.lookup node.tableName = some t.schema)
    (file : HasFile w node.tableName f) {idx : Index} (index : HasIndex w node.tableName t idx)
    {cond : ConditionNode} (condition : node.optWhereNode = some ⟨cond⟩)
    (lookup : isUniqueEqualityLookup node.optWhereNode t.pkColName = true) :
    (selectData env node).run w = (do
      let offset ← lift (idx.at (removeOuterQuotes cond.literal.value) .keyValue)
      let read ← runStream (atRecords f)
        (selectByIndexLookup env t.schema node.projectionMask node.optWhereNode offset)
      return read.1 : Exec ResultSet).run w := by
  obtain ⟨columns, hc, hi⟩ := index
  have isKey : cond.colName = t.pkColName := by
    rw [condition] at lookup
    simp only [isUniqueEqualityLookup, Bool.and_eq_true, beq_iff_eq] at lookup
    exact lookup.1
  have schema : w.ctx.untypedTables.at node.tableName .tableName = .ok t.schema :=
    Map.at_of_lookup known _
  unfold selectData
  rw [run_bind_ok (ensureTableFileExists_run file), run_bind_ok (openTableFile_run file),
    run_bind_ok (run_get w), schema, run_bind_ok (run_lift_ok _ _),
    run_bind_ok (runStream_ok (checkFileValidity_file env true f) _)]
  dsimp only
  rw [if_pos (atRecords_isOpen f), t.key, run_bind_ok (run_lift_ok _ _), condition]
  rw [condition] at lookup
  dsimp only
  rw [if_pos lookup, Map.at_of_lookup hc, run_bind_ok (run_lift_ok _ _), isKey,
    Map.at_of_lookup hi, run_bind_ok (run_lift_ok _ _)]

/-- A key equality reads the record that the index names, or throws. -/
theorem selectData_lookup (env : Env) {node : SelectNode}
    (known : w.ctx.untypedTables.lookup node.tableName = some t.schema)
    (file : HasFile w node.tableName f) (index : HasIndex w node.tableName t f.index)
    (width : node.projectionMask.length = n + 1) {cond : ConditionNode}
    (condition : node.optWhereNode = some ⟨cond⟩)
    (lookup : isUniqueEqualityLookup node.optWhereNode t.pkColName = true) :
    (removeOuterQuotes cond.literal.value ∉ f.index ∧
      (selectData env node).run w = .error (.exception (.missingKey .keyValue)) w) ∨
    ∃ before r after, f.records = before ++ r :: after ∧ r.isTombstone = false ∧
      r.pkLiteral = removeOuterQuotes cond.literal.value ∧
      outcome (fun _ => ()) ((selectData env node).run w) =
        settle ((whereMatches node.optWhereNode r.row).map fun isMatch =>
          if isMatch then [projectRow node.projectionMask r.row] else []) w () := by
  have start := selectData_keyed env known file index condition lookup
  cases found : f.index.lookup (removeOuterQuotes cond.literal.value) with
  | none =>
      refine .inl ⟨Finmap.lookup_eq_none.mp found, ?_⟩
      rw [start, Map.at, found, run_bind_error (run_lift_error _ _)]
  | some offset =>
      obtain ⟨before, r, after, records, live, key, at_⟩ := f.index_split found
      refine .inr ⟨before, r, after, records, live, key, ?_⟩
      obtain ⟨s', read⟩ := selectByIndexLookup_record env records live width node.optWhereNode at_
        (t := t)
      rw [start, Map.at_of_lookup found, run_bind_ok (run_lift_ok _ _)]
      cases hr : (selectByIndexLookup env t.schema node.projectionMask node.optWhereNode offset).run
          (atRecords f) with
      | ok results s =>
          rw [hr] at read
          rw [run_bind_ok (runStream_ok hr w), ← result_of_outcome read]
          rfl
      | error e s =>
          rw [hr] at read
          rw [run_bind_error (runStream_error hr w), ← result_of_outcome read]
          rfl

/-! The statement -/

open InterpreterVisitor

theorem visitSelect_run (env : Env) (node : SelectNode) (w : World) :
    (visitSelect env node).run w =
      match validateSelectSemantics (normalizeSelect node w.ctx.untypedTables).1 w.ctx with
      | .error e => .error e w
      | .ok verdict =>
          if verdict.isSome || !(normalizeSelect node w.ctx.untypedTables).2 then
            .ok (rejected .selectGenericInvalidStatement verdict none) w
          else (do
            let results ← selectData env (normalizeSelect node w.ctx.untypedTables).1
            return { rows := some results } : Exec Response).run w := by
  unfold visitSelect
  rw [run_bind_ok (run_get w)]
  dsimp only
  cases validateSelectSemantics (normalizeSelect node w.ctx.untypedTables).1 w.ctx with
  | error e => rw [run_bind_error (run_lift_error e w)]
  | ok verdict =>
      rw [run_bind_ok (run_lift_ok verdict w)]
      dsimp only
      split <;> rfl

/-- An accepted statement answers with the rows of the handler. -/
theorem visitSelect_accepted (env : Env) {node node' : SelectNode} {w : World}
    (normalized : normalizeSelect node w.ctx.untypedTables = (node', true))
    (valid : validateSelectSemantics node' w.ctx = .ok none) :
    result ((visitSelect env node).run w) =
      (result ((selectData env node').run w)).map fun rows => { rows := some rows } := by
  rw [visitSelect_run, normalized, valid]
  dsimp only
  rw [if_neg (by simp), EStateM.run_bind]
  cases (selectData env node').run w <;> rfl

end Jssql.FileHandler
