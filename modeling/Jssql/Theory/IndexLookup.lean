import Jssql.Theory.IndexLaws

/-!
The operations that go to a record through the index. The offset found for a key
is the one of a live record with that key, so the look-up of `DELETE` overwrites
the type byte of this record, and the look-up of `SELECT` reads this record.
-/
namespace Jssql.FileHandler
open Foundation Foundation.Stream

variable {n : Nat} {w : World} {table : Bytes}

/-- Overwriting the byte at the offset of a record's type marks the record. -/
theorem overwrite_type {f : TableFile n} {before after : List (TableRecord n)} {r : TableRecord n}
    (records : f.records = before ++ r :: after) {s : Stream} (ok : s.fail = false)
    (isOpen : s.isOpen = true) (content : s.content = f.bytes) {offset : Nat}
    (at_ : offset = f.header.length + (encodeAll before).length + 8) :
    ∃ s', (do
        seekBeg offset
        write [RecordType.delete.toByte] : StreamM Unit).run s = .ok () s' ∧
      s'.content = (f.withRecords (before ++ r.marked :: after)).bytes := by
  have start : (offset : Int) =
      (f.header ++ encodeAll before ++ toLE 8 r.recordLength).length := by
    simp [at_, Int.add_assoc]
  have parts : s.content = (f.header ++ encodeAll before ++ toLE 8 r.recordLength) ++
      ([r.recordType] ++ (r.body ++ encodeAll after)) := by
    simp [content, TableFile.bytes, records, StoredRecord.encode]
  refine ⟨split (f.header ++ encodeAll before ++ toLE 8 r.recordLength ++
    [RecordType.delete.toByte]) (r.body ++ encodeAll after), ?_, ?_⟩
  · have same : [r.recordType].length = [RecordType.delete.toByte].length := rfl
    rw [run_bind_ok (seekBeg_split start ok isOpen parts)]
    exact write_split same _ _
  · simp [TableFile.bytes, StoredRecord.marked_encode]

/-- `performDeleteByIndexLookup` for a key of the index. -/
theorem performDeleteByIndexLookup_run (env : Env) {t : TableSchema n} {f : TableFile n}
    {node : DeleteNode} {cond : ConditionNode} (isKey : cond.colName = t.pkColName)
    {columns : Map Bytes Index} {idx : Index}
    (hc : w.ctx.indices.lookup node.tableName = some columns)
    (hi : columns.lookup t.pkColName = some idx) {offset : Nat}
    (found : idx.lookup (removeOuterQuotes cond.literal.value) = some offset)
    {before after : List (TableRecord n)} {r : TableRecord n}
    (records : f.records = before ++ r :: after)
    (at_ : offset = f.header.length + (encodeAll before).length + 8) :
    ∃ s', (performDeleteByIndexLookup env node cond (atRecords f)).run w =
      .ok s' (withTable w node.tableName (f.withRecords (before ++ r.marked :: after)).bytes
        (columns.insert t.pkColName (idx.erase (removeOuterQuotes cond.literal.value)))) := by
  obtain ⟨s', write_, content⟩ := overwrite_type records (s := atRecords f) rfl rfl rfl at_
  let marked := w.setTableFile node.tableName (f.withRecords (before ++ r.marked :: after)).bytes
  have written : (runTableStream node.tableName (atRecords f) (do
      seekBeg offset
      write [RecordType.delete.toByte])).run w = .ok ((), s') marked := by
    rw [runTableStream_outcome, write_, outcome_ok]
    simp only [content]
    rfl
  have erase : (eraseKeyFromIndex env node.tableName t.pkColName
      (removeOuterQuotes cond.literal.value)).run marked =
      .ok () (marked.setIndices (w.ctx.indices.insert node.tableName
        (columns.insert t.pkColName (idx.erase (removeOuterQuotes cond.literal.value))))) := by
    have hc' : marked.ctx.indices.at node.tableName .tableName = .ok columns := Map.at_of_lookup hc _
    unfold eraseKeyFromIndex
    rw [run_bind_ok (run_get _), hc', run_bind_ok (run_lift_ok _ _), Map.at_of_lookup hi,
      run_bind_ok (run_lift_ok _ _), Map.at_of_lookup found, run_bind_ok (run_lift_ok _ _),
      if_pos (by omega), run_set]
    rfl
  refine ⟨s', ?_⟩
  unfold performDeleteByIndexLookup
  rw [run_bind_ok (run_get _), Map.at_of_lookup hc, run_bind_ok (run_lift_ok _ _), isKey,
    Map.at_of_lookup hi, run_bind_ok (run_lift_ok _ _), Map.at_of_lookup found,
    run_bind_ok (run_lift_ok _ _), run_bind_ok written]
  dsimp only
  rw [run_bind_ok erase]
  rfl

/-- Without the key in the index the look-up throws and nothing changes. -/
theorem performDeleteByIndexLookup_missing (env : Env) {t : TableSchema n} {node : DeleteNode}
    {cond : ConditionNode} (isKey : cond.colName = t.pkColName) {columns : Map Bytes Index}
    {idx : Index} (hc : w.ctx.indices.lookup node.tableName = some columns)
    (hi : columns.lookup t.pkColName = some idx)
    (missing : idx.lookup (removeOuterQuotes cond.literal.value) = none) (s : Stream) :
    (performDeleteByIndexLookup env node cond s).run w =
      .error (.exception (.missingKey .keyValue)) w := by
  have absent : idx.at (removeOuterQuotes cond.literal.value) .keyValue =
      .error (.exception (.missingKey .keyValue)) := by
    rw [Map.at, missing]
  unfold performDeleteByIndexLookup
  rw [run_bind_ok (run_get _), Map.at_of_lookup hc, run_bind_ok (run_lift_ok _ _), isKey,
    Map.at_of_lookup hi, run_bind_ok (run_lift_ok _ _), absent,
    run_bind_error (run_lift_error _ _)]

/-- The row that `SELECT` reads at the offset of a live record. -/
theorem selectByIndexLookup_record (env : Env) {t : TableSchema n} {f : TableFile n}
    {before after : List (TableRecord n)} {r : TableRecord n}
    (records : f.records = before ++ r :: after) (live : r.isTombstone = false)
    {projectionMask : List Bool} (width : projectionMask.length = n + 1)
    (optWhere : Option WhereNode) {offset : Nat}
    (at_ : offset = f.header.length + (encodeAll before).length + 8) :
    ∃ s', outcome (fun _ => ()) ((selectByIndexLookup env t.schema projectionMask optWhere offset).run
      (atRecords f)) =
      settle ((whereMatches optWhere r.row).map fun isMatch =>
        if isMatch then [projectRow projectionMask r.row] else []) s' () := by
  have start : (offset : Int) - 8 = (f.header ++ encodeAll before).length := by
    simp [at_]
  have parts : (atRecords f).content =
      (f.header ++ encodeAll before) ++ (r.encode ++ encodeAll after) := by
    simp [atRecords, records]
  have read := outcome_unit (deserializeNextRecord_live env t r (f.header ++ encodeAll before)
    (encodeAll after) live projectionMask optWhere)
  rw [recordResult_eq (by rw [width, r.length_row])] at read
  refine ⟨split (f.header ++ encodeAll before ++ r.encode) (encodeAll after), ?_⟩
  unfold selectByIndexLookup
  rw [run_bind_ok (seekBeg_split start rfl rfl parts), outcome_bind, read]
  cases whereMatches optWhere r.row with
  | error e => rfl
  | ok isMatch => cases isMatch <;> rfl

end Jssql.FileHandler
