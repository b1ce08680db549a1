import Jssql.Theory.NamedColumns
import Jssql.Theory.SoundTables
import Jssql.Theory.Store

/-!
The rows of the store and the records of a file. What the handlers compute from the records,
the store computes from the rows of those that are live.
-/
namespace Jssql.FileHandler
open Foundation Store StrategyDecider ConditionEvaluator

variable {n : Nat} {t : TableSchema n} {r : TableRecord n} {rs : List (TableRecord n)}

/-- The rows of a file. -/
def rowsIn (rs : List (TableRecord n)) : List Record := (liveRecords rs).map fun r => r.row

theorem rowsIn_append (rs ss : List (TableRecord n)) : rowsIn (rs ++ ss) = rowsIn rs ++ rowsIn ss := by
  rw [rowsIn, liveRecords_append, List.map_append]
  rfl

/-! Columns -/

theorem rowNames_eq (t : TableSchema n) : rowNames t.schema = storedNames t := by
  have key : t.schema[t.schema.findIdx isPrimaryKey]? = some t.pkCol := t.getElem?_pkIdx
  rw [rowNames, key, storedNames, ← t.pkCol_name]
  rfl

theorem byKey_eq (t : TableSchema n) (optWhere : Option WhereNode) :
    byKey t.schema optWhere = isUniqueEqualityLookup optWhere t.pkColName := by
  rw [byKey, rowNames_eq, storedNames, List.headD_cons]

/-- With codes that tell the names apart, the last value of a code is the last of the name. -/
theorem lastField_eq_reverse (code : Bytes → UInt8) (name : Bytes) (names : List Bytes)
    (apart : ∀ a ∈ names, code a = code name → a = name) :
    ∀ (values : List Bytes) (offset : Nat) (found : Option (Nat × Bytes)),
      (lastField (code name) offset ((names.map code).zip values) found).map Prod.snd =
        ((names.zip values).reverse.lookup name).or (found.map Prod.snd) := by
  induction names with
  | nil => intro values offset found; simp [lastField]
  | cons a names ih =>
      intro values offset found
      cases values with
      | nil => simp [lastField]
      | cons value values =>
          rw [List.map_cons, List.zip_cons_cons, List.zip_cons_cons, lastField, List.reverse_cons,
            List.lookup_append, ih (fun b hb => apart b (List.mem_cons_of_mem _ hb)), Option.or_assoc]
          congr 1
          by_cases same : a = name
          · subst same
            rw [if_pos rfl, List.lookup_cons, beq_self_eq_true]
            rfl
          · rw [if_neg fun h => same (apart a List.mem_cons_self h), List.lookup_cons,
              beq_false_of_ne (Ne.symm same)]
            rfl

theorem valueNamed_eq {name : Bytes} (known : name ∈ columnNames t.schema) (r : TableRecord n) :
    valueNamed t.schema name r.row = deletedValue t name r := by
  have perm := storedNames_perm t
  have parts : valueNamed t.schema name r.row = if t.pkColName = name then some r.pkLiteral
      else (((columnNames t.payloadSchema).zip r.payloadLiterals).reverse).lookup name := by
    simp only [valueNamed, rowNames_eq, storedNames, StoredRecord.row]
  rw [parts, deletedValue]
  by_cases isKey : t.pkColName = name
  · rw [if_pos isKey, if_pos isKey]
  · have found := lastField_eq_reverse t.codeOf name (columnNames t.payloadSchema)
      (fun a ha same => t.codeOf_inj (perm.subset (List.mem_cons_of_mem _ ha)) known same) r.payloadLiterals 0 none
    rw [columnNames, List.map_map, Option.map_none, Option.or_none] at found
    rw [if_neg isKey, if_neg isKey, fieldOf, TableSchema.payloadCodes]
    exact found.symm

/-- The comparison of `DELETE` is one of rows. -/
theorem namedMatches_eq {optWhere : Option WhereNode} (column : ColumnKnown t optWhere) (r : TableRecord n) :
    namedMatches t.schema optWhere r.row = deleteMatches t optWhere r := by
  cases optWhere with
  | none => rfl
  | some w =>
      have value := valueNamed_eq (column w rfl) r
      cases deleted : deletedValue t w.condition.colName r with
      | none =>
          rw [deleted] at value
          simp only [namedMatches, deleteMatches, value, deleted]
      | some found =>
          rw [deleted] at value
          simp only [namedMatches, deleteMatches, value, deleted]

/-! Rows that are written -/

theorem rowOf_eq (t : TableSchema n) (type : RecordType) (projectionMask : List Bool) (record : ValueRecordNode) :
    rowOf t.schema projectionMask record =
      (writtenRecord t type projectionMask record).map fun r => r.row := by
  have key : keyOf t.schema record = serializedKey t record := rfl
  rw [rowOf, writtenRecord, key]
  cases serializedKey t record with
  | error e => rfl
  | ok key =>
      rw [ok_bind, ok_bind, show t.schema.findIdx isPrimaryKey = t.pkIdx from rfl]
      cases payloadValues record projectionMask t.pkIdx 0 t.schema with
      | error e => rfl
      | ok values => rfl

theorem writtenRecords_eq (t : TableSchema n) (type : RecordType) (projectionMask : List Bool)
    (records : List ValueRecordNode) :
    writtenRecords t type projectionMask records = mapUntil (writtenRecord t type projectionMask) records := by
  induction records with
  | nil => rfl
  | cons record records ih =>
      rw [writtenRecords, mapUntil, ih]
      cases writtenRecord t type projectionMask record <;> rfl

theorem rowsOf_eq (t : TableSchema n) (type : RecordType) (projectionMask : List Bool)
    (records : List ValueRecordNode) : rowsOf t.schema projectionMask records =
      ((writtenRecords t type projectionMask records).1.map fun r => r.row,
        (writtenRecords t type projectionMask records).2) := by
  rw [rowsOf, writtenRecords_eq, ← mapUntil_map]
  exact congrArg (mapUntil · records) (funext fun record => rowOf_eq t type projectionMask record)

/-- The records of a batch have the rows of the batch. -/
theorem Appended.rowsIn_eq {type : RecordType} {projectionMask : List Bool} {records : List ValueRecordNode}
    (appended : Appended t type projectionMask records rs) :
    rowsIn rs = (rowsOf t.schema projectionMask records).1 := by
  have live : liveRecords rs = rs := appended.liveRecords_append []
  rw [rowsOf_eq t type, ← appended.stored, List.map_map, rowsIn, live]
  rfl

/-! Scans -/

/-- With a counter a marking scan takes the live records that match out of the live ones. -/
theorem scanMarks_sift (isMatch : TableRecord n → Except Fault Bool) (rs : List (TableRecord n)) :
    (⟨liveRecords (scanMarks isMatch none rs).records, (scanMarks isMatch none rs).matched,
      (scanMarks isMatch none rs).stop⟩ : Sifted (TableRecord n) Fault) = sift isMatch (liveRecords rs) := by
  induction rs with
  | nil => rfl
  | cons r rest ih =>
      cases state : r.isTombstone with
      | true =>
          rw [scanMarks_tombstone _ state, liveRecords_cons_tombstone state, liveRecords_cons_tombstone state]
          exact ih
      | false =>
          rw [liveRecords_cons_live state]
          cases answer : isMatch r with
          | error e =>
              rw [scanMarks_throws _ state answer, sift_error answer, liveRecords_cons_live state]
          | ok b =>
              cases b with
              | false =>
                  rw [scanMarks_rejects _ state answer, sift_false answer, ← ih, liveRecords_cons_live state]
              | true =>
                  rw [scanMarks_counts _ state answer, sift_true answer, ← ih]
                  dsimp only
                  rw [liveRecords_cons_tombstone (by rfl)]

/-- Of a scan that is not stopped for want of a counter. -/
theorem scanMarks_rows {env : Env} {w : World} {table : Bytes} {isMatch : TableRecord n → Except Fault Bool}
    {test : Record → Except Fault Bool} (same : ∀ r : TableRecord n, isMatch r = test r.row)
    (counted : (scanMarks isMatch (missingFault env w table) rs).stop ≠ some (missingCounter env)) :
    sift test (rowsIn rs) = ⟨rowsIn (scanMarks isMatch (missingFault env w table) rs).records,
      (scanMarks isMatch (missingFault env w table) rs).matched.map fun r => r.row,
      (scanMarks isMatch (missingFault env w table) rs).stop⟩ := by
  have all := scanMarks_counted env counted
  rw [all, rowsIn, sift_map, show (fun r : TableRecord n => test r.row) = isMatch from (funext same).symm,
    ← scanMarks_sift]
  rfl

/-- The scan of `SELECT`. -/
theorem selectedRows_sift (projectionMask : List Bool) (optWhere : Option WhereNode) (rs : List (TableRecord n)) :
    selectedRows projectionMask optWhere rs =
      match (sift (whereMatches optWhere) (rowsIn rs)).stop with
      | some e => .error e
      | none => .ok ((sift (whereMatches optWhere) (rowsIn rs)).taken.map (projectRow projectionMask)) := by
  have fold : ∀ rows, rs.foldlM (selectStep projectionMask optWhere) rows =
      match (sift (whereMatches optWhere) (rowsIn rs)).stop with
      | some e => .error e
      | none => .ok (rows ++ (sift (whereMatches optWhere) (rowsIn rs)).taken.map (projectRow projectionMask)) := by
    induction rs with
    | nil => intro rows; simp [rowsIn, liveRecords, sift, pure, Except.pure]
    | cons r rest ih =>
        intro rows
        rw [List.foldlM_cons, selectStep]
        cases state : r.isTombstone with
        | true =>
            rw [if_pos rfl, ok_bind, ih, rowsIn, rowsIn, liveRecords_cons_tombstone state]
        | false =>
            rw [if_neg Bool.false_ne_true, rowsIn, liveRecords_cons_live state, List.map_cons]
            cases answer : whereMatches optWhere r.row with
            | error e =>
                rw [sift_error answer]
                rfl
            | ok b =>
                cases b with
                | false =>
                    rw [sift_false answer]
                    exact ih rows
                | true =>
                    rw [sift_true answer]
                    refine (ih (rows ++ [projectRow projectionMask r.row])).trans ?_
                    dsimp only [rowsIn]
                    cases (sift (whereMatches optWhere) ((liveRecords rest).map fun r => r.row)).stop with
                    | some e => rfl
                    | none => rw [List.map_cons, List.append_assoc, List.singleton_append]
  rw [selectedRows, fold]
  rfl

end Jssql.FileHandler
