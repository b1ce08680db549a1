import Jssql.Foundation.Independence
import Jssql.Foundation.Views
import Jssql.Theory.Construction
import Jssql.Theory.StoreSteps

/-!
What a statement sees. It reads of the context and of the disk only what there is of its own
table, and the CSV files: what it answers and what it leaves of the table is the same whatever
other tables there are.
-/
namespace Jssql.FileHandler
open Foundation Foundation.Stream ConditionEvaluator StrategyDecider SemanticNormalizer SemanticValidator

variable {α : Type} {env : Env} {w v : World} {table : Bytes}

/-! Views -/

/-- What there is of a table, and the files to import from. -/
structure TableView where
  state : TableState
  newFile : Option Bytes
  entry : Option (Option Bytes)
  csvFiles : Map Bytes Bytes

def tableView (table : Bytes) (w : World) : TableView where
  state := tableState table w
  newFile := w.disk.newTableFiles.lookup table
  entry := (w.disk.metadata.getD ∅).lookup table
  csvFiles := w.disk.csvFiles

structure SameView (table : Bytes) (w v : World) : Prop where
  schema : w.ctx.untypedTables.lookup table = v.ctx.untypedTables.lookup table
  colcodes : w.ctx.tableColcodes.lookup table = v.ctx.tableColcodes.lookup table
  index : w.ctx.indices.lookup table = v.ctx.indices.lookup table
  counter : w.ctx.deleteCounterPerTable.lookup table = v.ctx.deleteCounterPerTable.lookup table
  file : w.disk.tableFiles.lookup table = v.disk.tableFiles.lookup table
  newFile : w.disk.newTableFiles.lookup table = v.disk.newTableFiles.lookup table
  entry : (w.disk.metadata.getD ∅).lookup table = (v.disk.metadata.getD ∅).lookup table
  csvFiles : w.disk.csvFiles = v.disk.csvFiles

theorem tableView_eq : tableView table w = tableView table v ↔ SameView table w v := by
  simp only [tableView, tableState, TableView.mk.injEq, TableState.mk.injEq]
  constructor
  · rintro ⟨⟨schema, colcodes, index, counter, file⟩, newFile, entry, csvFiles⟩
    exact ⟨schema, colcodes, index, counter, file, newFile, entry, csvFiles⟩
  · rintro ⟨schema, colcodes, index, counter, file, newFile, entry, csvFiles⟩
    exact ⟨⟨schema, colcodes, index, counter, file⟩, newFile, entry, csvFiles⟩

namespace SameView

variable (same : SameView table w v)
include same

theorem setTableFiles {files files' : Map Bytes Bytes} (h : files.lookup table = files'.lookup table) :
    SameView table (w.setTableFiles files) (v.setTableFiles files') := { same with file := h }

theorem setNewTableFiles {files files' : Map Bytes Bytes} (h : files.lookup table = files'.lookup table) :
    SameView table (w.setNewTableFiles files) (v.setNewTableFiles files') := { same with newFile := h }

theorem setTableFile (content : Bytes) : SameView table (w.setTableFile table content) (v.setTableFile table content) :=
  same.setTableFiles (by rw [Finmap.lookup_insert, Finmap.lookup_insert])

theorem setIndices {m m' : Map Bytes (Map Bytes Index)} (h : m.lookup table = m'.lookup table) :
    SameView table (w.setIndices m) (v.setIndices m') := { same with index := h }

theorem setCounters {m m' : Map Bytes Nat} (h : m.lookup table = m'.lookup table) :
    SameView table (w.setCounters m) (v.setCounters m') := { same with counter := h }

theorem setMetadata {tables tables' : AList fun _ : Bytes => Option Bytes} (h : tables.lookup table = tables'.lookup table) :
    SameView table (w.setMetadata (some tables)) (v.setMetadata (some tables')) := { same with entry := h }

theorem setIndex (columns : Map Bytes Index) : SameView table (w.setIndices (w.ctx.indices.insert table columns))
    (v.setIndices (v.ctx.indices.insert table columns)) :=
  same.setIndices (by rw [Finmap.lookup_insert, Finmap.lookup_insert])

end SameView

/-- The program sees of the state what there is of the table. -/
abbrev Local (table : Bytes) (p : Exec α) : Prop := Alike (tableView table) p p

theorem bindGet_alike {f g : World → Exec α} (hf : ∀ w v, SameView table w v → Alike (tableView table) (f w) (g v)) :
    Alike (tableView table) (get >>= f) (get >>= g) :=
  .bindGet fun w v same => hf w v (tableView_eq.mp same)

theorem modify_local {f : World → World} (h : ∀ w v, SameView table w v → SameView table (f w) (f v)) :
    Local table (modify f : Exec PUnit) :=
  .ofModify fun w v same => tableView_eq.mpr (h w v (tableView_eq.mp same))

theorem set_alike (same : SameView table w v) : Alike (tableView table) (set w : Exec PUnit) (set v) :=
  .ofSet (tableView_eq.mpr same)

theorem at_congr {m m' : Map Bytes α} (h : m.lookup table = m'.lookup table) (key : AtKey) :
    m.at table key = m'.at table key := by
  rw [Map.at, Map.at, h]

theorem mem_congr {m m' : Map Bytes α} (h : m.lookup table = m'.lookup table) : table ∈ m ↔ table ∈ m' := by
  rw [Finmap.mem_iff, Finmap.mem_iff, h]

/-! Files -/

theorem handleFatalError_local (code : FatalErrorCode) : Local table (handleFatalError env code : Exec Unit) :=
  .ofIte Iff.rfl (.ofPure ()) (.ofThrow _)

theorem catchException_alike {p q : Exec α} {handler handler' : Exception → Exec α} (hp : Alike (tableView table) p q)
    (hh : ∀ e, Alike (tableView table) (handler e) (handler' e)) :
    Alike (tableView table) (catchException p handler) (catchException q handler') := by
  refine hp.ofTryCatch fun e => ?_
  cases e with
  | exception e => exact hh e
  | exit | undefined | diverges => exact .ofThrow _

theorem ensureTableFileExists_local (table : Bytes) : Local table (ensureTableFileExists table) := by
  refine modify_local fun w v same => ?_
  rw [← same.file]
  cases w.disk.tableFiles.lookup table with
  | some content => exact same
  | none => exact same.setTableFile _

theorem openTableFile_local (table : Bytes) : Local table (openTableFile table) := by
  refine bindGet_alike fun w v same => ?_
  rw [same.file]
  cases v.disk.tableFiles.lookup table with
  | some content => exact .ofPure _
  | none => exact .ofPure _

theorem appendToTableFile_local (table bytes : Bytes) : Local table (appendToTableFile table bytes) := by
  refine modify_local fun w v same => ?_
  rw [same.file]
  exact same.setTableFile _

theorem tellpTableFile_local (table : Bytes) : Local table (tellpTableFile table) := by
  refine bindGet_alike fun w v same => ?_
  rw [same.file]
  exact .ofPure _

theorem runStream_local (stream : Stream) (op : StreamM α) : Local table (runStream stream op) := by
  intro w v same
  simp only [EStateM.run, runStream]
  cases op stream with
  | ok a s => exact .ok same
  | error e s => exact .error same

theorem runTableStream_local (stream : Stream) (op : StreamM α) : Local table (runTableStream table stream op) := by
  intro w v same
  have after (content : Bytes) := tableView_eq.mpr ((tableView_eq.mp same).setTableFile content)
  simp only [EStateM.run, runTableStream]
  cases op stream with
  | ok a s => exact .ok (after s.content)
  | error e s => exact .error (after s.content)

theorem appendToNewTableFile_local (table bytes : Bytes) : Local table (appendToNewTableFile table bytes) := by
  refine modify_local fun w v same => ?_
  rw [same.newFile]
  exact same.setNewTableFiles (by rw [Finmap.lookup_insert, Finmap.lookup_insert])

theorem createNewTableFile_local (table : Bytes) : Local table (createNewTableFile table) := by
  refine modify_local fun w v same => ?_
  rw [same.newFile]
  cases v.disk.newTableFiles.lookup table with
  | some content => exact same
  | none => exact same.setNewTableFiles (by rw [Finmap.lookup_insert, Finmap.lookup_insert])

theorem replaceTableFile_local (table : Bytes) : Local table (replaceTableFile table) := by
  refine modify_local fun w v same => ?_
  rw [same.newFile]
  cases v.disk.newTableFiles.lookup table with
  | some content =>
      exact (same.setTableFile content).setNewTableFiles (by rw [Finmap.lookup_erase, Finmap.lookup_erase])
  | none => exact same.setTableFiles (by rw [Finmap.lookup_erase, Finmap.lookup_erase])

/-! The context -/

theorem getDeleteCountForTable_local (table : Bytes) : Local table (getDeleteCountForTable env table) := by
  refine bindGet_alike fun w v same => ?_
  rw [same.counter]
  cases v.ctx.deleteCounterPerTable.lookup table with
  | some count => exact .ofPure count
  | none => exact (handleFatalError_local _).bind fun _ => .ofThrow _

theorem setDeleteCountForTable_local (table : Bytes) (count : Nat) : Local table (setDeleteCountForTable table count) :=
  modify_local fun _ _ same => same.setCounters (by rw [Finmap.lookup_insert, Finmap.lookup_insert])

theorem upsertPrimaryKeyIndex_local (table pkColName pkLiteral : Bytes) (offset : Nat) :
    Local table (upsertPrimaryKeyIndex table pkColName pkLiteral offset) := by
  refine bindGet_alike fun w v same => ?_
  refine .bindLift (at_congr same.index _) fun columns => .bindLift rfl fun idx => ?_
  exact set_alike (same.setIndex _)

theorem eraseKeyFromIndex_local (table colName keyValue : Bytes) :
    Local table (eraseKeyFromIndex env table colName keyValue) := by
  refine bindGet_alike fun w v same => ?_
  refine .bindLift (at_congr same.index _) fun columns => .bindLift rfl fun idx => .bindLift rfl fun offset => ?_
  exact .ofIte Iff.rfl (set_alike (same.setIndex _)) (handleFatalError_local _)

theorem eraseInMemoryHashMapIndicesForTable_local (table : Bytes) :
    Local table (eraseInMemoryHashMapIndicesForTable table) :=
  modify_local fun _ _ same => same.setIndices (by rw [Finmap.lookup_erase, Finmap.lookup_erase])

theorem initializePrimaryKeyIndicesForTable_local (table : Bytes) :
    Local table (initializePrimaryKeyIndicesForTable env table) := by
  refine (ensureTableFileExists_local table).bind fun _ => (modify_local fun w v same => ?_).bind fun _ => ?_
  · by_cases known : table ∈ w.ctx.indices
    · rw [if_pos known, if_pos ((mem_congr same.index).mp known)]
      exact same
    · rw [if_neg known, if_neg fun h => known ((mem_congr same.index).mpr h)]
      exact same.setIndex ∅
  · refine (openTableFile_local table).bind fun stream => .ofIte Iff.rfl ?_ (.ofPure _)
    refine (runStream_local stream _).bind fun checked => bindGet_alike fun w v same => ?_
    refine .bindLift (at_congr same.schema _) fun schema => .bindLift rfl fun pkColName => ?_
    refine .bindLift (at_congr same.index _) fun columns => (runStream_local _ _).bind fun read => ?_
    exact set_alike (same.setIndex _)

theorem recalculateIndicesForTable_local (table : Bytes) : Local table (recalculateIndicesForTable env table) :=
  (eraseInMemoryHashMapIndicesForTable_local table).bind fun _ => initializePrimaryKeyIndicesForTable_local table

/-! Records -/

theorem writeRecord_local (table : Bytes) (type : RecordType) (p : RecordPayload) :
    Local table (writeRecord table type p) := by
  have rest : Local table (do
      appendToTableFile table [p.record.recordType]
      appendToTableFile table p.record.columnRegion
      appendToTableFile table (encodeString p.record.pkLiteral)
      appendToTableFile table p.record.payload) :=
    (appendToTableFile_local table _).bind fun _ => (appendToTableFile_local table _).bind fun _ =>
      (appendToTableFile_local table _).bind fun _ => appendToTableFile_local table _
  refine (appendToTableFile_local table _).bind fun _ => .ofIte Iff.rfl ?_ rest
  exact (tellpTableFile_local table).bind fun offset => (upsertPrimaryKeyIndex_local table _ _ offset).bind fun _ => rest

theorem serializeNormalizedRecord_local (table : Bytes) (record : ValueRecordNode) (projectionMask : List Bool)
    (type : RecordType) : Local table (serializeNormalizedRecord env table record projectionMask type) := by
  refine bindGet_alike fun w v same => .bindLift (at_congr same.schema _) fun schema => ?_
  refine .bindLift (at_congr same.colcodes _) fun colcodes => .bindLift rfl fun payload => ?_
  exact catchException_alike (writeRecord_local table type payload) fun _ => handleFatalError_local _

theorem insertRecords_local (table : Bytes) (projectionMask : List Bool) (type : RecordType)
    (records : List ValueRecordNode) : Local table (insertRecords env table projectionMask type records) := by
  induction records with
  | nil => exact .ofPure _
  | cons record records ih => exact (serializeNormalizedRecord_local table record projectionMask type).bind fun _ => ih

/-! Compaction -/

theorem copyRound_local (table : Bytes) (numberOfColsWithoutPk : Nat) (oldTableFile : Stream) :
    Local table (copyRound env table numberOfColsWithoutPk oldTableFile) := by
  refine (runStream_local _ _).bind fun read => (appendToNewTableFile_local table _).bind fun _ => ?_
  exact .ofIte Iff.rfl ((handleFatalError_local _).bind fun _ => .ofPure _) (.ofPure _)

theorem compactTable_local (table : Bytes) : Local table (compactTable env table) := by
  refine (ensureTableFileExists_local table).bind fun _ => (createNewTableFile_local table).bind fun _ => ?_
  refine (openTableFile_local table).bind fun stream => (runStream_local stream _).bind fun checked => ?_
  refine bindGet_alike fun w v same => .bindLift (at_congr same.schema _) fun schema => ?_
  refine (Alike.ofRepeatUntil (fun s => ?_) _ _).bind fun _ => replaceTableFile_local table
  exact copyRound_local table _ s

theorem calculateTombstoneRatio_local (table : Bytes) : Local table (calculateTombstoneRatio env table) := by
  refine (ensureTableFileExists_local table).bind fun _ => (openTableFile_local table).bind fun stream => ?_
  refine (runStream_local stream _).bind fun checked => .ofIte Iff.rfl ?_ (.ofPure _)
  exact (runStream_local _ _).bind fun counts => .ofPure _

theorem compactIfNecessary_local (table primaryKeyColumn : Bytes) :
    Local table (compactIfNecessary env table primaryKeyColumn) := by
  refine bindGet_alike fun w v same => .bindLift (at_congr same.index _) fun columns => .bindLift rfl fun idx => ?_
  refine (getDeleteCountForTable_local table).bind fun deleteCount => .ofIte Iff.rfl ?_ (.ofPure _)
  refine (calculateTombstoneRatio_local table).bind fun ratio => .ofIte Iff.rfl ?_ (.ofPure _)
  exact (compactTable_local table).bind fun _ => (setDeleteCountForTable_local table 0).bind fun _ =>
    recalculateIndicesForTable_local table

/-! Handlers -/

theorem insertData_local {node : InsertNode} : Local node.tableName (insertData env node) :=
  (ensureTableFileExists_local _).bind fun _ => insertRecords_local _ _ _ _

theorem performCSVImport_local {node : CSVImportNode} : Local node.tableName (performCSVImport env node) := by
  refine (ensureTableFileExists_local _).bind fun _ => bindGet_alike fun w v same => ?_
  refine .bindLift (at_congr same.schema _) fun schema => ?_
  rw [same.csvFiles]
  have rest : Local node.tableName (catchException (insertRecords env node.tableName (List.replicate schema.length true)
      .insert ((getlines ((v.disk.csvFiles.lookup (removeOuterQuotes node.filePath)).getD [])).map csvRecord))
      fun _ => handleFatalError env .csvImportUnknownException) :=
    catchException_alike (insertRecords_local _ _ _ _) fun _ => handleFatalError_local _
  exact .ofIte Iff.rfl ((handleFatalError_local _).bind fun _ => rest) rest

theorem selectData_local {node : SelectNode} : Local node.tableName (selectData env node) := by
  refine (ensureTableFileExists_local _).bind fun _ => (openTableFile_local _).bind fun stream => ?_
  refine bindGet_alike fun w v same => .bindLift (at_congr same.schema _) fun schema => ?_
  refine (runStream_local _ _).bind fun checked => .ofIte Iff.rfl ?_ (.ofPure _)
  refine .bindLift rfl fun primaryKeyColumn => ?_
  cases node.optWhereNode with
  | none => exact (runStream_local _ _).bind fun read => .ofPure _
  | some where_ =>
      refine .ofIte Iff.rfl ?_ ((runStream_local _ _).bind fun read => .ofPure _)
      refine .bindLift (at_congr same.index _) fun columns => .bindLift rfl fun idx => .bindLift rfl fun offset => ?_
      exact (runStream_local _ _).bind fun read => .ofPure _

/-- What `DELETE` compares is read with the schema and the codes of the table. -/
theorem performSequentialDelete_congr {node : DeleteNode} (same : SameView node.tableName w v) :
    performSequentialDelete env node w.ctx = performSequentialDelete env node v.ctx := by
  have compared (colName : Bytes) (startOfType recordLength : Nat) :
      comparedLiteral env node.tableName colName w.ctx startOfType recordLength =
        comparedLiteral env node.tableName colName v.ctx startOfType recordLength := by
    simp only [comparedLiteral, at_congr same.schema, at_congr same.colcodes]
  simp only [performSequentialDelete, compared]

theorem performDeleteByIndexLookup_local {node : DeleteNode} (cond : ConditionNode) (stream : Stream) :
    Local node.tableName (performDeleteByIndexLookup env node cond stream) := by
  refine bindGet_alike fun w v same => .bindLift (at_congr same.index _) fun columns => .bindLift rfl fun idx => ?_
  refine .bindLift rfl fun offset => (runTableStream_local stream _).bind fun written => ?_
  exact (eraseKeyFromIndex_local _ _ _).bind fun _ => .ofPure _

theorem deleteRound_local {node : DeleteNode} (stream : Stream) : Local node.tableName (deleteRound env node stream) := by
  refine bindGet_alike fun w v same => ?_
  rw [performSequentialDelete_congr same]
  refine (runTableStream_local stream _).bind fun read => .ofIte Iff.rfl ?_ (.ofPure _)
  exact (getDeleteCountForTable_local _).bind fun count => (setDeleteCountForTable_local _ _).bind fun _ => .ofPure _

theorem deleteMatching_local {node : DeleteNode} (primaryKeyColumn : Bytes) (stream : Stream) :
    Local node.tableName (deleteMatching env node primaryKeyColumn stream) := by
  have scan : Local node.tableName (do
      let _ ← repeatUntil .diverges (deleteRound env node) (scanRounds stream.content) stream
      recalculateIndicesForTable env node.tableName) :=
    (Alike.ofRepeatUntil deleteRound_local _ _).bind fun _ => recalculateIndicesForTable_local _
  rw [deleteMatching]
  cases node.optWhereNode with
  | none => exact scan
  | some where_ =>
      cases isUniqueEqualityLookup (some where_) primaryKeyColumn with
      | false => exact scan
      | true =>
          exact (performDeleteByIndexLookup_local _ stream).bind fun _ => (getDeleteCountForTable_local _).bind
            fun count => setDeleteCountForTable_local _ _

theorem deleteData_local {node : DeleteNode} : Local node.tableName (deleteData env node) := by
  refine (ensureTableFileExists_local _).bind fun _ => (openTableFile_local _).bind fun stream => ?_
  refine (runStream_local _ _).bind fun checked => bindGet_alike fun w v same => ?_
  refine .bindLift (at_congr same.schema _) fun schema => .bindLift rfl fun primaryKeyColumn => ?_
  exact .ofIte Iff.rfl ((deleteMatching_local _ _).bind fun _ => compactIfNecessary_local _ _)
    (compactIfNecessary_local _ _)

theorem updateRound_local {node : UpdateNode} (schema : Schema) (scan : Stream × List Record) :
    Local node.tableName (updateRound env node schema scan) := by
  refine (runTableStream_local _ _).bind fun read => ?_
  obtain ⟨⟨indicator, record⟩, stream⟩ := read
  have rest : Local node.tableName (do
      if indicator = .ioError then handleFatalError env .unknownIoErrorDuringDeserialization
      return (decide (indicator = .endOfTable), stream,
        if indicator = .live then scan.2 ++ [record] else scan.2) : Exec (Bool × Stream × List Record)) :=
    .ofIte Iff.rfl ((handleFatalError_local _).bind fun _ => .ofPure _) (.ofPure _)
  refine .ofIte Iff.rfl ?_ rest
  exact (getDeleteCountForTable_local _).bind fun count => (setDeleteCountForTable_local _ _).bind fun _ => rest

theorem updateData_local {node : UpdateNode} : Local node.tableName (updateData env node) := by
  refine (ensureTableFileExists_local _).bind fun _ => (openTableFile_local _).bind fun stream => ?_
  refine (runStream_local _ _).bind fun checked => bindGet_alike fun w v same => ?_
  refine .bindLift (at_congr same.schema _) fun schema => ?_
  have marked : Local node.tableName (markOldRecords env node schema checked.2) :=
    (Alike.ofRepeatUntil (updateRound_local schema) _ _).bind fun _ => .ofPure _
  refine marked.bind fun oldRecords => .bindLift rfl fun newRecords => ?_
  refine (insertRecords_local _ _ _ _).bind fun _ => (recalculateIndicesForTable_local _).bind fun _ => ?_
  exact .bindLift rfl fun primaryKeyColumn => compactIfNecessary_local _ _

theorem initializeColumnEncodingMapForTable_local (table : Bytes) :
    Local table (initializeColumnEncodingMapForTable env table) := by
  have assigned (schema : Schema) (colCode : UInt8) (codes : Map Bytes UInt8) :
      Local table (assignColumnCodes env colCode schema codes) := by
    induction schema generalizing colCode codes with
    | nil => exact .ofPure _
    | cons col cols ih => exact .ofIte Iff.rfl ((handleFatalError_local _).bind fun _ => ih _ _) (ih _ _)
  refine bindGet_alike fun w v same => ?_
  rw [same.schema]
  cases v.ctx.untypedTables.lookup table with
  | none => exact (handleFatalError_local _).bind fun _ => .ofThrow _
  | some schema =>
      refine (assigned schema 0 ∅).bind fun codes => modify_local fun w v same => { same with colcodes := ?_ }
      exact (Finmap.lookup_insert w.ctx.tableColcodes).trans (Finmap.lookup_insert v.ctx.tableColcodes).symm

theorem createUntypedTable_local {node : CreateUntypedTableNode} :
    Local node.tableName (createUntypedTable env node) := by
  refine bindGet_alike fun w v same => .ofIte (mem_congr same.schema) (.ofPure _) ?_
  refine (set_alike (same.setMetadata ?_)).bind fun _ => ?_
  · rw [AList.lookup_insert, AList.lookup_insert]
  · have declared : Local node.tableName (setUntypedTable node.tableName node.columns) := by
      refine modify_local fun w v same => { same with schema := ?_ }
      exact (Finmap.lookup_insert w.ctx.untypedTables).trans (Finmap.lookup_insert v.ctx.untypedTables).symm
    refine declared.bind fun _ => (initializeColumnEncodingMapForTable_local _).bind fun _ => ?_
    exact (recalculateIndicesForTable_local _).bind fun _ => .ofPure _

theorem dropTable_local {node : DropTableNode} : Local node.tableName (dropTable env node) := by
  refine bindGet_alike fun w v same => .ofIte ?_ ?_ (handleFatalError_local _)
  · rw [← AList.lookup_isSome, ← AList.lookup_isSome, same.entry]
  · have erased {α : Type} (m m' : Map Bytes α) :
        (m.erase node.tableName).lookup node.tableName = (m'.erase node.tableName).lookup node.tableName := by
      rw [Finmap.lookup_erase, Finmap.lookup_erase]
    have metadata : SameView node.tableName (w.setMetadata (some ((w.disk.metadata.getD ∅).erase node.tableName)))
        (v.setMetadata (some ((v.disk.metadata.getD ∅).erase node.tableName))) :=
      same.setMetadata (by rw [AList.lookup_erase, AList.lookup_erase])
    refine (set_alike ((metadata.setTableFiles (erased _ _)).setNewTableFiles (erased _ _))).bind fun _ => ?_
    refine (eraseInMemoryHashMapIndicesForTable_local _).bind fun _ => modify_local fun w v same => ?_
    exact { same with schema := erased w.ctx.untypedTables v.ctx.untypedTables }

end Jssql.FileHandler

namespace Jssql.InterpreterVisitor
open Foundation FileHandler SemanticNormalizer SemanticValidator

variable {env : Env} {w v : World} {table : Bytes}

/-! Statements -/

section Checks

variable {schema : Schema} {optWhere : Option WhereNode}

theorem primaryKeyIndexOf_congr (same : SameView table w v) :
    primaryKeyIndexOf w.ctx table schema = primaryKeyIndexOf v.ctx table schema := by
  simp only [primaryKeyIndexOf, at_congr same.index]

theorem validateWhereOfTable_congr (same : SameView table w v) :
    validateWhereOfTable w.ctx table schema optWhere = validateWhereOfTable v.ctx table schema optWhere := by
  simp only [validateWhereOfTable, absentKeyViolation, primaryKeyIndexOf_congr same]

end Checks

/-- A statement sees of the state what there is of its table. -/
theorem visit_local (stmt : Statement) : Local stmt.tableName (visit env stmt) := by
  cases stmt with
  | create node => exact createUntypedTable_local.bind fun _ => .ofPure _
  | csvImport node => exact performCSVImport_local.bind fun _ => .ofPure _
  | drop node =>
      refine bindGet_alike fun w v same => ?_
      have known : node.tableName ∈ w.ctx.untypedTables ↔ node.tableName ∈ v.ctx.untypedTables := mem_congr same.schema
      have verdict : validateDropSemantics node w.ctx = validateDropSemantics node v.ctx := by
        simp only [validateDropSemantics, checkIfTableExists, known]
      dsimp only
      rw [verdict]
      exact .ofIte Iff.rfl (.ofPure _) (dropTable_local.bind fun _ => .ofPure _)
  | describe node =>
      refine bindGet_alike fun w v same => ?_
      have known : node.tableName ∈ w.ctx.untypedTables ↔ node.tableName ∈ v.ctx.untypedTables := mem_congr same.schema
      have verdict : validateDescribeSemantics node w.ctx = validateDescribeSemantics node v.ctx := by
        simp only [validateDescribeSemantics, checkIfTableExists, known]
      dsimp only
      rw [verdict]
      exact .ofIte Iff.rfl (.ofPure _) (.ofPure _)
  | insert node =>
      refine bindGet_alike fun w v same => ?_
      have schema : w.ctx.untypedTables.lookup node.tableName = v.ctx.untypedTables.lookup node.tableName := same.schema
      have normalized : normalizeInsert node w.ctx.untypedTables = normalizeInsert node v.ctx.untypedTables := by
        simp only [normalizeInsert, schema]
      dsimp only
      rw [normalized]
      generalize made : normalizeInsert node v.ctx.untypedTables = r
      obtain ⟨node', normalization⟩ := r
      have name := normalizeInsert_tableName made
      rw [show (Statement.insert node).tableName = node'.tableName from name.symm] at same ⊢
      refine .bindLift ?_ fun verdict => ?_
      · simp only [validateInsertSemantics, same.schema, primaryKeyIndexOf_congr same]
      · cases normalization with
        | rejected printed => cases verdict <;> exact .ofPure _
        | normalized =>
            cases verdict with
            | some report => exact .ofPure _
            | none => exact insertData_local.bind fun _ => .ofPure _
  | select node =>
      refine bindGet_alike fun w v same => ?_
      have schema : w.ctx.untypedTables.lookup node.tableName = v.ctx.untypedTables.lookup node.tableName := same.schema
      have normalized : normalizeSelect node w.ctx.untypedTables = normalizeSelect node v.ctx.untypedTables := by
        simp only [normalizeSelect, schema]
      dsimp only
      rw [normalized]
      generalize made : normalizeSelect node v.ctx.untypedTables = r
      obtain ⟨node', ok⟩ := r
      have name := normalizeSelect_tableName made
      rw [show (Statement.select node).tableName = node'.tableName from name.symm] at same ⊢
      refine .bindLift ?_ fun verdict => .ofIte Iff.rfl (.ofPure _) (selectData_local.bind fun _ => .ofPure _)
      simp only [validateSelectSemantics, same.schema, validateWhereOfTable_congr same]
  | delete node =>
      refine bindGet_alike fun w v same => ?_
      have schema : w.ctx.untypedTables.lookup node.tableName = v.ctx.untypedTables.lookup node.tableName := same.schema
      have normalized : normalizeDelete node w.ctx.untypedTables = normalizeDelete node v.ctx.untypedTables := by
        simp only [normalizeDelete, schema]
      dsimp only
      rw [normalized]
      generalize made : normalizeDelete node v.ctx.untypedTables = r
      obtain ⟨node', ok⟩ := r
      have name := normalizeDelete_tableName made
      rw [show (Statement.delete node).tableName = node'.tableName from name.symm] at same ⊢
      refine .bindLift ?_ fun verdict => .ofIte Iff.rfl (.ofPure _) (deleteData_local.bind fun _ => .ofPure _)
      simp only [validateDeleteSemantics, same.schema, validateWhereOfTable_congr same]
  | update node =>
      refine bindGet_alike fun w v same => ?_
      have schema : w.ctx.untypedTables.lookup node.tableName = v.ctx.untypedTables.lookup node.tableName := same.schema
      have normalized : normalizeUpdate node w.ctx.untypedTables = normalizeUpdate node v.ctx.untypedTables := by
        simp only [normalizeUpdate, schema]
      refine .bindLiftOk normalized fun r made => ?_
      obtain ⟨node', ok⟩ := r
      have name := normalizeUpdate_tableName made
      rw [show (Statement.update node).tableName = node'.tableName from name.symm] at same ⊢
      refine .bindLift ?_ fun verdict => .ofIte Iff.rfl (.ofPure _) (updateData_local.bind fun _ => .ofPure _)
      simp only [validateUpdateSemantics, same.schema]

theorem parseAndExecute_local (env : Env) (stmt : Statement) : Local stmt.tableName (parseAndExecute env stmt) :=
  catchException_alike ((visit_local stmt).bind fun _ => .ofPure _) fun _ => .ofPure _

end Jssql.InterpreterVisitor
