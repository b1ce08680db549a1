import Jssql.Theory.Compaction

/-!
The upkeep after a statement: the index rebuilt from the file, the counter, the
tombstone ratio and the compaction that may follow, on a well-formed table.
-/
namespace Jssql.FileHandler
open Foundation Foundation.Stream

variable {n : Nat} {w : World} {table : Bytes}

/-! The index in memory -/

/-- The index in memory of a table under the name of its key column. -/
def HasIndex (w : World) (table : Bytes) (t : TableSchema n) (idx : Index) : Prop :=
  ∃ columns, w.ctx.indices.lookup table = some columns ∧ columns.lookup t.pkColName = some idx

/-- The state with this index in memory, as a rebuild leaves it. -/
def withIndex (w : World) (table : Bytes) (t : TableSchema n) (idx : Index) : World :=
  w.setIndices (w.ctx.indices.insert table (Finmap.insert t.pkColName idx ∅))

theorem withIndex_hasIndex (w : World) (table : Bytes) (t : TableSchema n) (idx : Index) :
    HasIndex (withIndex w table t idx) table t idx :=
  ⟨_, Finmap.lookup_insert _, Finmap.lookup_insert _⟩

theorem HasIndex.unique {t : TableSchema n} {idx idx' : Index} (h : HasIndex w table t idx)
    (h' : HasIndex w table t idx') : idx = idx' := by
  obtain ⟨columns, hc, hi⟩ := h
  obtain ⟨columns', hc', hi'⟩ := h'
  rw [hc, Option.some.injEq] at hc'
  subst hc'
  rw [hi, Option.some.injEq] at hi'
  exact hi'

/-- Rebuilding the index gives the one the records of the file determine. -/
theorem recalculateIndicesForTable_run (env : Env) (t : TableSchema n) (f : TableFile n)
    (file : HasFile w table f) (known : w.ctx.untypedTables.lookup table = some t.schema) :
    (recalculateIndicesForTable env table).run w = .ok () (withIndex w table t f.index) := by
  let erased := w.setIndices (w.ctx.indices.erase table)
  let emptied := w.setIndices ((w.ctx.indices.erase table).insert table ∅)
  have start : (eraseInMemoryHashMapIndicesForTable table).run w = .ok () erased := rfl
  have file' : erased.disk.tableFiles.lookup table = some f.bytes := file
  have empty_ : (modify fun w => if table ∈ w.ctx.indices then w
      else w.setIndices (w.ctx.indices.insert table ∅) : Exec PUnit).run erased =
      .ok () emptied := by
    rw [run_modify]
    have absent : table ∉ erased.ctx.indices := Finmap.notMem_erase_self
    rw [if_neg absent]
    rfl
  have columns : emptied.ctx.indices.at table .tableName = .ok ∅ :=
    Map.at_of_lookup (Finmap.lookup_insert _) _
  have schema : emptied.ctx.untypedTables.at table .tableName = .ok t.schema :=
    Map.at_of_lookup known _
  have read : (extractPrimaryKeysIndex n).run (atRecords f) = .ok f.index (exhausted f.bytes) := by
    have := extractPrimaryKeysIndex_records f.header f.records
    rw [f.header_length] at this
    exact this
  have final : (withIndex w table t f.index) =
      emptied.setIndices (emptied.ctx.indices.insert table (Finmap.insert t.pkColName f.index ∅)) := by
    simp only [withIndex, emptied, World.setIndices, Finmap.insert_insert, insert_erase]
  unfold recalculateIndicesForTable initializePrimaryKeyIndicesForTable
  rw [run_bind_ok start, run_bind_ok (ensureTableFileExists_run file'), run_bind_ok empty_,
    run_bind_ok (openTableFile_run (show emptied.disk.tableFiles.lookup table = some f.bytes from file)),
    if_pos (opened_isOpen _), run_bind_ok (runStream_ok (checkFileValidity_file env true f) _)]
  dsimp only
  rw [run_bind_ok (run_get _), schema, run_bind_ok (run_lift_ok _ _), t.key,
    run_bind_ok (run_lift_ok _ _), columns, run_bind_ok (run_lift_ok _ _), t.columnsWithoutPk_eq,
    run_bind_ok (runStream_ok read _)]
  dsimp only
  rw [if_neg Finmap.notMem_empty, run_set, final]

/-! The counter -/

/-- How a look-up of a missing counter ends. -/
def missingCounter (env : Env) : Fault :=
  if env.silent then .undefined .endIterator
  else .exit .compactInternalTableNotFoundInDeleteCountMap

theorem getDeleteCountForTable_some (env : Env) {count : Nat}
    (h : w.ctx.deleteCounterPerTable.lookup table = some count) :
    (getDeleteCountForTable env table).run w = .ok count w := by
  unfold getDeleteCountForTable
  rw [run_bind_ok (run_get w), h]
  rfl

theorem getDeleteCountForTable_none (env : Env)
    (h : w.ctx.deleteCounterPerTable.lookup table = none) :
    (getDeleteCountForTable env table).run w = .error (missingCounter env) w := by
  unfold getDeleteCountForTable missingCounter handleFatalError
  rw [run_bind_ok (run_get w), h]
  cases env.silent <;> rfl

/-! The ratio and the compaction -/

theorem calculateTombstoneRatio_run (env : Env) (f : TableFile n) (file : HasFile w table f) :
    (calculateTombstoneRatio env table).run w =
      .ok ((recordCounts f.records).tombstoneCount, (recordCounts f.records).totalCount) w := by
  unfold calculateTombstoneRatio
  rw [run_bind_ok (ensureTableFileExists_run file), run_bind_ok (openTableFile_run file),
    run_bind_ok (runStream_ok (checkFileValidity_file env true f) _)]
  dsimp only
  have counted : (countRecords env).run (atRecords f) = _ :=
    countRecords_records env f.header f.records
  rw [if_pos (atRecords_isOpen f), run_bind_ok (runStream_ok counted _)]
  rfl

/-- The state after a compaction, with the counter reset and the index rebuilt. -/
def compacted (w : World) (table : Bytes) (t : TableSchema n) (f : TableFile n) : World :=
  let f' : TableFile n := TableFile.fresh (liveRecords f.records)
  let w' := w.setTableFile table f'.bytes
  withIndex (w'.setCounters (w'.ctx.deleteCounterPerTable.insert table 0)) table t f'.index

/-- Whether the upkeep compacts the file. -/
def needsCompaction (count : Nat) (idx : Index) (f : TableFile n) : Bool :=
  reachesThreshold count (1 + idx.keys.card + count) &&
    reachesThreshold (recordCounts f.records).tombstoneCount (recordCounts f.records).totalCount

theorem compactIfNecessary_run (env : Env) (t : TableSchema n) (f : TableFile n) {idx : Index}
    {count : Nat} (file : HasFile w table f)
    (known : w.ctx.untypedTables.lookup table = some t.schema) (index : HasIndex w table t idx)
    (counter : w.ctx.deleteCounterPerTable.lookup table = some count)
    (noNewFile : w.disk.newTableFiles.lookup table = none) :
    (compactIfNecessary env table t.pkColName).run w =
      .ok () (if needsCompaction count idx f then compacted w table t f else w) := by
  obtain ⟨columns, hc, hi⟩ := index
  have columns_ : w.ctx.indices.at table .tableName = .ok columns := Map.at_of_lookup hc _
  have idx_ : columns.at t.pkColName .columnName = .ok idx := Map.at_of_lookup hi _
  unfold compactIfNecessary
  rw [run_bind_ok (run_get w), columns_, run_bind_ok (run_lift_ok _ _), idx_,
    run_bind_ok (run_lift_ok _ _), run_bind_ok (getDeleteCountForTable_some env counter),
    needsCompaction]
  cases reachesThreshold count (1 + idx.keys.card + count) with
  | false => rfl
  | true =>
      rw [if_pos rfl, run_bind_ok (calculateTombstoneRatio_run env f file), Bool.true_and]
      dsimp only
      cases reachesThreshold (recordCounts f.records).tombstoneCount
          (recordCounts f.records).totalCount with
      | false => rfl
      | true =>
          let f' : TableFile n := TableFile.fresh (liveRecords f.records)
          let w' := w.setTableFile table f'.bytes
          let reset := w'.setCounters (w'.ctx.deleteCounterPerTable.insert table 0)
          have file' : HasFile reset table f' := Finmap.lookup_insert _
          have reset_ : (setDeleteCountForTable table 0).run w' = .ok () reset := rfl
          have compact : (compactTable env table).run w = .ok () w' :=
            compactTable_run env t f file known noNewFile
          rw [if_pos rfl, if_pos rfl, run_bind_ok compact, run_bind_ok reset_,
            recalculateIndicesForTable_run env t f' file' known]
          rfl

/-- Rebuilding the index and compacting, as a statement ends that marked records. -/
def maintain (env : Env) (table primaryKeyColumn : Bytes) : Exec Unit := do
  recalculateIndicesForTable env table
  compactIfNecessary env table primaryKeyColumn

theorem compactIfNecessary_missing (env : Env) (t : TableSchema n) {idx : Index}
    (index : HasIndex w table t idx) (counter : w.ctx.deleteCounterPerTable.lookup table = none) :
    (compactIfNecessary env table t.pkColName).run w = .error (missingCounter env) w := by
  obtain ⟨columns, hc, hi⟩ := index
  have columns_ : w.ctx.indices.at table .tableName = .ok columns := Map.at_of_lookup hc _
  have idx_ : columns.at t.pkColName .columnName = .ok idx := Map.at_of_lookup hi _
  unfold compactIfNecessary
  rw [run_bind_ok (run_get w), columns_, run_bind_ok (run_lift_ok _ _), idx_,
    run_bind_ok (run_lift_ok _ _), run_bind_error (getDeleteCountForTable_none env counter)]

theorem maintain_run (env : Env) (t : TableSchema n) (f : TableFile n) (file : HasFile w table f)
    (known : w.ctx.untypedTables.lookup table = some t.schema)
    (noNewFile : w.disk.newTableFiles.lookup table = none) :
    (maintain env table t.pkColName).run w =
      match w.ctx.deleteCounterPerTable.lookup table with
      | some count => .ok () (if needsCompaction count f.index f
          then compacted (withIndex w table t f.index) table t f else withIndex w table t f.index)
      | none => .error (missingCounter env) (withIndex w table t f.index) := by
  have index := withIndex_hasIndex w table t f.index
  rw [maintain, run_bind_ok (recalculateIndicesForTable_run env t f file known)]
  cases counter : w.ctx.deleteCounterPerTable.lookup table with
  | some count => exact compactIfNecessary_run env t f file known index counter noNewFile
  | none => exact compactIfNecessary_missing env t index counter

/-! The rebuilt index -/

/-- `extractPrimaryKeysIndex` on the records of a table file. -/
def rebuiltIndex (env : Env) (columnsWithoutPk : Nat) : StreamM Index := do
  checkFileValidity env true
  extractPrimaryKeysIndex columnsWithoutPk

/-- The index in memory is the one built from the table file. -/
def IndexIsRebuilt (env : Env) (w : World) (table : Bytes) (t : TableSchema n) : Prop :=
  ∃ content idx s, w.disk.tableFiles.lookup table = some content ∧
    (rebuiltIndex env (columnsWithoutPk t.schema)).run (.opened content) = .ok idx s ∧
    HasIndex w table t idx

theorem rebuiltIndex_run (env : Env) (f : TableFile n) :
    (rebuiltIndex env n).run (.opened f.bytes) = .ok f.index (exhausted f.bytes) := by
  have read := extractPrimaryKeysIndex_records f.header f.records
  rw [f.header_length] at read
  unfold rebuiltIndex
  rw [run_bind_ok (checkFileValidity_file env true f)]
  exact read

theorem indexIsRebuilt_iff {env : Env} {t : TableSchema n} {f : TableFile n}
    (file : HasFile w table f) : IndexIsRebuilt env w table t ↔ HasIndex w table t f.index := by
  have read := rebuiltIndex_run env f
  constructor
  · rintro ⟨content, idx, s, found, run, has⟩
    rw [file, Option.some.injEq] at found
    subst found
    rw [t.columnsWithoutPk_eq, read] at run
    cases run
    exact has
  · intro has
    exact ⟨_, _, _, file, by rw [t.columnsWithoutPk_eq]; exact read, has⟩

end Jssql.FileHandler
