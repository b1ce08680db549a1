import Jssql.Theory.KeyConditions

/-!
`SELECT` by primary key. The validator probes the index with the literal as it is
written, the handler looks its contents up: the statement answers like the scan
when the literal and its contents are both keys of the table, or neither is.
-/
namespace Jssql.FileHandler
open Foundation Foundation.Stream SemanticNormalizer SemanticValidator ConditionEvaluator
open StrategyDecider InterpreterVisitor

variable {n : Nat}

/-- The rows a `SELECT` prints. -/
def visitedRows (env : Env) (node : SelectNode) (w : World) : Except Fault ResultSet :=
  (result ((visitSelect env node).run w)).map fun response => response.rows.getD []

/-- The rows the scan of `selectData` finds for a normalized statement. -/
def scannedRows (env : Env) (t : TableSchema n) (f : TableFile n) (node : SelectNode) :
    Except Fault ResultSet :=
  result ((selectSequentially env t.schema node.projectionMask node.optWhereNode).run (atRecords f))

def liveKeys (f : TableFile n) : List Bytes := (liveRecords f.records).map fun r => r.pkLiteral

section

variable {t : TableSchema n} {f : TableFile n}

/-- With the key first, a condition on it is evaluated on the key. -/
theorem whereMatches_key (first : t.pkIdx = 0) {cond : ConditionNode}
    (isKey : cond.colName = t.pkColName) (isEq : cond.cmp = .eq) (r : TableRecord n) :
    whereMatches (some ⟨indexedCondition t.schema cond⟩) r.row =
      .ok (decide (r.pkLiteral = removeOuterQuotes cond.literal.value)) := by
  have place : findColumn t.schema cond.colName = 0 := by
    have head := t.getElem?_pkIdx
    rw [first] at head
    obtain ⟨cols, schema⟩ : ∃ cols, t.schema = t.pkCol :: cols := by
      cases hs : t.schema with
      | nil => rw [hs] at head; cases head
      | cons col cols =>
          rw [hs] at head
          cases head
          exact ⟨cols, rfl⟩
    rw [findColumn, schema, columnNames, List.map_cons, t.pkCol_name, isKey]
    exact List.idxOf_cons_self
  have code : (indexedCondition t.schema cond).schemaIndex.toNat = 0 := by
    rw [indexedCondition, place]
    rfl
  have key : r.row[(indexedCondition t.schema cond).schemaIndex.toNat]? = some r.pkLiteral := by
    rw [code]
    rfl
  rw [whereMatches_of_getElem? key]
  change evaluateComparator r.pkLiteral cond.cmp cond.literal = _
  rw [isEq, evaluateComparator_eq]

/-- The scan finds the records with the key that the literal contains. -/
theorem scannedRows_key (env : Env) (first : t.pkIdx = 0) {node : SelectNode}
    (width : node.projectionMask.length = n + 1) {cond : ConditionNode}
    (condition : node.optWhereNode = some ⟨indexedCondition t.schema cond⟩)
    (isKey : cond.colName = t.pkColName) (isEq : cond.cmp = .eq) :
    scannedRows env t f node = .ok (((liveRecords f.records).filter fun r =>
      decide (r.pkLiteral = removeOuterQuotes cond.literal.value)).map fun r =>
        projectRow node.projectionMask r.row) := by
  have scan := selectSequentially_records env t width node.optWhereNode f.header f.records
  rw [scannedRows, atRecords, result_of_outcome scan, condition]
  exact selectedRows_of_ok _ fun r _ => whereMatches_key first isKey isEq r

theorem filter_key_eq_singleton {before after : List (TableRecord n)} {r : TableRecord n}
    (records : f.records = before ++ r :: after) (live : r.isTombstone = false)
    (distinct : DistinctKeys f.records) :
    (liveRecords f.records).filter (fun s => decide (s.pkLiteral = r.pkLiteral)) = [r] := by
  have parts : liveRecords f.records = liveRecords before ++ r :: liveRecords after := by
    rw [records, liveRecords, List.filter_append, List.filter_cons_of_pos (by simp [isLive, live])]
    rfl
  rw [DistinctKeys, parts, List.map_append, List.map_cons, List.nodup_middle, List.nodup_cons,
    List.mem_append, not_or] at distinct
  have none_ (rs : List (TableRecord n)) (h : r.pkLiteral ∉ rs.map fun s => s.pkLiteral) :
      rs.filter (fun s => decide (s.pkLiteral = r.pkLiteral)) = [] := by
    rw [List.filter_eq_nil_iff]
    intro s hs
    rw [decide_eq_true_eq]
    exact fun same => h (same ▸ List.mem_map_of_mem hs)
  rw [parts, List.filter_append, List.filter_cons_of_pos (by simp), none_ _ distinct.1.1,
    none_ _ distinct.1.2, List.nil_append]

/-- The validator's probe is a look-up of the literal as it is written. -/
theorem validateSelectSemantics_key {w : World} {node node' : SelectNode} {cond : ConditionNode}
    {contents : Bytes} (known : w.ctx.untypedTables.lookup node.tableName = some t.schema)
    (index : HasIndex w node.tableName t f.index) (condition : node.optWhereNode = some ⟨cond⟩)
    (isKey : cond.colName = t.pkColName) (isEq : cond.cmp = .eq)
    (lexeme : Lexeme cond.literal contents)
    (normalized : normalizeSelect node w.ctx.untypedTables = (node', true)) :
    node'.optWhereNode = some ⟨indexedCondition t.schema cond⟩ ∧
      validateSelectSemantics node' w.ctx = .ok (if cond.literal.value ∈ f.index then none
        else some ⟨.primaryKeyDoesNotExistInSpecialPKEQCase,
          [cond.literal.value, node.tableName]⟩) := by
  obtain ⟨columns, hc, hi⟩ := index
  obtain ⟨name, columns', _, _, where_⟩ := normalizeSelect_ok known normalized
  have where' : node'.optWhereNode = some ⟨indexedCondition t.schema cond⟩ := by
    rw [(normalizeWhereClause_ok where_).1, condition]
    rfl
  have noMissing : missingColumn (columnNames t.schema) t.schema = none := by
    rw [missingColumn, List.find?_eq_none]
    intro name hname
    simp [hname]
  have key : (indexedCondition t.schema cond).colName = t.pkColName := isKey
  refine ⟨where', ?_⟩
  rw [validateSelectSemantics, name, known, columns', Option.getD_some]
  dsimp only
  rw [noMissing]
  dsimp only
  by_cases present : cond.literal.value ∈ f.index
  · rw [if_pos present, where']
    exact validateWhereOfTable_key hc hi key isEq present lexeme.type_eq
  · rw [if_neg present, validateWhereOfTable, where', absentKeyViolation_eq hc hi key isEq]
    change (Except.ok (if cond.literal.value ∈ f.index then none else _) >>= _) = _
    rw [if_neg present]
    rfl

theorem visitedRows_rejected (env : Env) {w : World} {node node' : SelectNode}
    {report : ErrorReport} (normalized : normalizeSelect node w.ctx.untypedTables = (node', true))
    (verdict : validateSelectSemantics node' w.ctx = .ok (some report)) :
    visitedRows env node w = .ok [] := by
  rw [visitedRows, visitSelect_run, normalized, verdict]
  rfl

end

/-- The statement answers with the rows of the scan if and only if its literal is a
key just when the literal's contents are. -/
theorem visitedRows_eq_scannedRows_iff (env : Env) (w : World) (t : TableSchema n)
    (f : TableFile n) (node node' : SelectNode) (cond : ConditionNode) (contents : Bytes)
    (known : w.ctx.untypedTables.lookup node.tableName = some t.schema)
    (file : HasFile w node.tableName f) (index : HasIndex w node.tableName t f.index)
    (first : t.pkIdx = 0) (distinct : DistinctKeys f.records)
    (condition : node.optWhereNode = some ⟨cond⟩) (isKey : cond.colName = t.pkColName)
    (isEq : cond.cmp = .eq) (lexeme : Lexeme cond.literal contents)
    (normalized : normalizeSelect node w.ctx.untypedTables = (node', true)) :
    visitedRows env node w = scannedRows env t f node' ↔
      (cond.literal.value ∈ liveKeys f ↔ contents ∈ liveKeys f) := by
  obtain ⟨where', probe⟩ :=
    validateSelectSemantics_key known index condition isKey isEq lexeme normalized
  obtain ⟨name, _, width, _, _⟩ := normalizeSelect_ok known normalized
  rw [t.width] at width
  have contents_ : removeOuterQuotes cond.literal.value = contents := lexeme.removeOuterQuotes_value
  have scan := scannedRows_key env first width where' isKey isEq (f := f)
  rw [contents_] at scan
  have mem (key : Bytes) : key ∈ f.index ↔ key ∈ liveKeys f := f.mem_index
  rw [← mem, ← mem, scan]
  by_cases present : cond.literal.value ∈ f.index
  · rw [if_pos present] at probe
    rw [visitedRows, visitSelect_accepted env normalized probe]
    have lookup : isUniqueEqualityLookup node'.optWhereNode t.pkColName = true := by
      rw [where', isUniqueEqualityLookup, indexedCondition]
      simp [isKey, isEq]
    rw [← name] at known file index
    rcases selectData_lookup env known file index width where' lookup with
      ⟨absent, run⟩ | ⟨before, r, after, records, live, key, read⟩
    · rw [run]
      have missing : contents ∉ f.index := contents_ ▸ absent
      exact ⟨fun h => (by cases h), fun h => absurd (h.mp present) missing⟩
    · have found : contents ∈ f.index := by
        rw [mem, liveKeys, List.mem_map]
        exact ⟨r, List.mem_filter.mpr ⟨by rw [records]; simp, by simp [isLive, live]⟩,
          key.trans contents_⟩
      have one := filter_key_eq_singleton records live distinct
      have key' : r.pkLiteral = contents := key.trans contents_
      rw [key'] at one
      rw [result_of_outcome read, where', whereMatches_key first isKey isEq, contents_, key', one]
      simp [present, found, Except.map]
  · rw [if_neg present] at probe
    rw [visitedRows_rejected env normalized probe, Except.ok.injEq, eq_comm (a := []),
      List.map_eq_nil_iff, List.filter_eq_nil_iff]
    simp only [decide_eq_true_eq, present, false_iff, mem contents, liveKeys, List.mem_map,
      not_exists, not_and]

/-- A number is looked up as it is written. -/
theorem visitedRows_eq_scannedRows_iff_number :
    let file := pairFile [ascii "1", ascii "2"] (ascii "x") (by decide)
    let w := singleTable (ascii "people") pairSchema file ∅
    let cond : ConditionNode := ⟨ascii "id", .eq, ⟨.number, ascii "2"⟩, 255⟩
    let node : SelectNode := ⟨none, ascii "people", some ⟨cond⟩, []⟩
    visitedRows ⟨false, id⟩ node w = scannedRows ⟨false, id⟩ pairSchema file
      (normalizeSelect node w.ctx.untypedTables).1 := by
  intro file w cond node
  have keys : liveKeys file = [ascii "1", ascii "2"] := pairFile_keys _ _ _
  have distinct : DistinctKeys file.records := by
    rw [DistinctKeys, ← liveKeys, keys]
    decide
  have normalized : normalizeSelect node w.ctx.untypedTables =
      ((normalizeSelect node w.ctx.untypedTables).1, true) := Prod.ext rfl rfl
  have first : pairSchema.pkIdx = 0 := by decide
  have lexeme : Lexeme cond.literal (ascii "2") := Lexeme.number 50 [] (by decide)
  exact (visitedRows_eq_scannedRows_iff ⟨false, id⟩ w pairSchema file node _ cond (ascii "2")
    (singleTable_registered _ _ _ _).schema (singleTable_hasFile _ _ _ _)
    (singleTable_hasIndex _ _ _ _) first distinct rfl rfl rfl lexeme normalized).mpr Iff.rfl

/-- A quoted text is not a key, though its contents are: the statement is rejected
and the scan finds the row. -/
theorem visitedRows_quoted :
    let file := pairFile [ascii "a"] (ascii "x") (by decide)
    let w := singleTable (ascii "people") pairSchema file ∅
    let cond : ConditionNode := ⟨ascii "id", .eq, ⟨.string, ascii "'a'"⟩, 255⟩
    let node : SelectNode := ⟨none, ascii "people", some ⟨cond⟩, []⟩
    visitedRows ⟨false, id⟩ node w = .ok [] ∧
      scannedRows ⟨false, id⟩ pairSchema file (normalizeSelect node w.ctx.untypedTables).1 =
        .ok [[ascii "a", ascii "x"]] := by
  intro file w cond node
  have keys : liveKeys file = [ascii "a"] := pairFile_keys _ _ _
  have absent : cond.literal.value ∉ file.index := by
    rw [file.mem_index, ← liveKeys, keys]
    decide
  have normalized : normalizeSelect node w.ctx.untypedTables =
      ((normalizeSelect node w.ctx.untypedTables).1, true) := Prod.ext rfl rfl
  have first : pairSchema.pkIdx = 0 := by decide
  have known : w.ctx.untypedTables.lookup node.tableName = some pairSchema.schema :=
    (singleTable_registered _ _ _ _).schema
  obtain ⟨where', verdict⟩ := validateSelectSemantics_key known (singleTable_hasIndex _ _ _ _)
    (show node.optWhereNode = some ⟨cond⟩ from rfl) rfl rfl (Lexeme.string (ascii "a")) normalized
  rw [if_neg absent] at verdict
  refine ⟨visitedRows_rejected _ normalized verdict, ?_⟩
  rw [scannedRows_key _ first (normalizeSelect_ok known normalized).2.2.1 where' rfl rfl]
  have live : liveRecords file.records = [pairRecord (ascii "a") (ascii "x") (by decide)] := rfl
  have same : ascii "a" = removeOuterQuotes cond.literal.value := by decide
  have mask : (normalizeSelect node w.ctx.untypedTables).1.projectionMask = [true, true] := rfl
  rw [live, mask, ← same, List.filter_cons_of_pos (by decide)]
  rfl

end Jssql.FileHandler
