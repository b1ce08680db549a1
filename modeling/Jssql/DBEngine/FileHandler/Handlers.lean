import Jssql.DBEngine.FileHandler.Compactor
import Jssql.Services.SemanticNormalizer
import Jssql.Services.StrategyDecider

/-!
The handlers of the statements. `DELETE` and `UPDATE` mark records in the file
one by one and rebuild the index only after the whole scan; `INSERT` and `IMPORT`
append record by record and leave the index to the writer of each record.
-/
namespace Jssql.FileHandler
open Foundation Foundation.Stream ConditionEvaluator StrategyDecider

/-! INSERT -/

def insertRecords (env : Env) (table : Bytes) (projectionMask : List Bool) (type : RecordType) :
    List ValueRecordNode → Exec Unit
  | [] => return
  | record :: records => do
      serializeNormalizedRecord env table record projectionMask type
      insertRecords env table projectionMask type records

def insertData (env : Env) (node : InsertNode) : Exec Unit := do
  ensureTableFileExists node.tableName
  insertRecords env node.tableName node.projectionMask .insert node.records

/-! IMPORT -/

/-- The fields of the row from a state of the splitter on. -/
def parseCsvFields : Bool → Bytes → Bytes → List Bytes
  | _, current, [] => [current]
  | inQuotes, current, c :: rest =>
      if c = doubleQuote then parseCsvFields (!inQuotes) current rest
      else if c = comma ∧ !inQuotes then current :: parseCsvFields inQuotes [] rest
      else parseCsvFields inQuotes (current ++ [c]) rest

def parseCsvRow (row : Bytes) : List Bytes := parseCsvFields false [] row

def csvRecord (row : Bytes) : ValueRecordNode :=
  (parseCsvRow row).map fun literal => some ⟨.string, literal⟩

/-- A row of another width is warned about and then written like the others. -/
def performCSVImport (env : Env) (node : CSVImportNode) : Exec Unit := do
  ensureTableFileExists node.tableName
  let w ← get
  let schema ← lift (w.ctx.untypedTables.at node.tableName .tableName)
  let csvFile := w.disk.csvFiles.lookup (removeOuterQuotes node.filePath)
  if csvFile.isNone then handleFatalError env .csvImportCannotOpenFile
  let lines := getlines (csvFile.getD [])
  catchException (insertRecords env node.tableName (List.replicate schema.length true) .insert
    (lines.map csvRecord)) fun _ => handleFatalError env .csvImportUnknownException

/-! SELECT -/

/-- The rows of a scan from the stream's position on. -/
def selectSequentially (env : Env) (schema : Schema) (projectionMask : List Bool)
    (optWhere : Option WhereNode) : StreamM ResultSet := do
  let s ← get
  repeatUntil .diverges (fun results => do
    let (indicator, record) ← deserializeNextRecord env schema projectionMask optWhere
    return (decide (indicator = .endOfTable),
      if indicator = .live then results ++ [record] else results)) (scanRounds s.content) []

/-- The row at an offset of the index, which points behind the length. -/
def selectByIndexLookup (env : Env) (schema : Schema) (projectionMask : List Bool)
    (optWhere : Option WhereNode) (offset : Nat) : StreamM ResultSet := do
  seekBeg (offset - 8)
  let (indicator, record) ← deserializeNextRecord env schema projectionMask optWhere
  return if indicator = .live then [record] else []

def selectData (env : Env) (node : SelectNode) : Exec ResultSet := do
  ensureTableFileExists node.tableName
  let stream ← openTableFile node.tableName
  let w ← get
  let schema ← lift (w.ctx.untypedTables.at node.tableName .tableName)
  let (_, stream) ← runStream stream (checkFileValidity env true)
  if stream.isOpen then
    let primaryKeyColumn ← lift (extractPrimaryKeyColumn schema)
    match node.optWhereNode with
    | some ⟨cond⟩ =>
        if isUniqueEqualityLookup node.optWhereNode primaryKeyColumn then
          let columns ← lift (w.ctx.indices.at node.tableName .tableName)
          let idx ← lift (columns.at cond.colName .columnName)
          let offset ← lift (idx.at (removeOuterQuotes cond.literal.value) .keyValue)
          let (results, _) ← runStream stream
            (selectByIndexLookup env schema node.projectionMask node.optWhereNode offset)
          return results
        else
          let (results, _) ← runStream stream
            (selectSequentially env schema node.projectionMask node.optWhereNode)
          return results
    | none =>
        let (results, _) ← runStream stream
          (selectSequentially env schema node.projectionMask none)
        return results
  else return []

/-! DELETE -/

/-- The offset of the last entry with the code, `UINT64_MAX` where there is none. -/
def findColumnOffset (env : Env) (colcode : UInt8) : Nat → Nat → StreamM Nat
  | 0, finalOffset => return finalOffset
  | n + 1, finalOffset => do
      let entry ← readUnchecked env columnOffsetSize
      findColumnOffset env colcode n
        (if (entry.drop 8).head? = some colcode then ofLE (entry.take 8) else finalOffset)

/-- The key of a record whose type byte was read. -/
def comparedKey (env : Env) (numberOfColsWithoutPk : Nat) : StreamM Bytes := do
  skipColumnOffsetRegion numberOfColsWithoutPk
  let pkSize ← readSize env
  readSized pkSize

/-- The value of a column with the code, and the way to the next record. -/
def comparedColumn (env : Env) (colcode : UInt8) (numberOfColsWithoutPk startOfType recordLength : Nat) :
    StreamM Bytes := do
  let finalOffset ← findColumnOffset env colcode numberOfColsWithoutPk (2 ^ 64 - 1)
  if finalOffset = 2 ^ 64 - 1 then
    close
    handleFatalError env .deleteColumnNotFoundDueToCorruption
  let pkSize ← readSize env
  seekCur (streamOff pkSize)
  seekCur (streamOff finalOffset)
  let literalSize ← readSize env
  let lhsLiteral ← readSized literalSize
  seekBeg startOfType
  seekCur (streamOff recordLength)
  return lhsLiteral

/-- The value that the condition is about. -/
def comparedLiteral (env : Env) (table colName : Bytes) (ctx : ExecutionContext)
    (startOfType recordLength : Nat) : StreamM Bytes := do
  let schema ← lift (ctx.untypedTables.at table .tableName)
  let primaryKeyColname ← lift (extractPrimaryKeyColumn schema)
  if primaryKeyColname = colName then comparedKey env (columnsWithoutPk schema)
  else
    let colcodes ← lift (ctx.tableColcodes.at table .tableName)
    let colcode ← lift (colcodes.at colName .columnName)
    comparedColumn env colcode (columnsWithoutPk schema) startOfType recordLength

/-- The end of `performSequentialDelete`, after the comparison. -/
def deleteIfMatching (startOfType recordLength : Nat) : Bool → StreamM Indicator
  | true => do
      markAsTombstone startOfType recordLength
      return .live
  | false => do
      seekBeg (startOfType + streamOff recordLength)
      return .skip

def performSequentialDelete (env : Env) (node : DeleteNode) (ctx : ExecutionContext) :
    StreamM Indicator := do
  match ← readHead with
  | .done indicator => return indicator
  | .live recordLength startOfType _ =>
      match node.optWhereNode with
      | none => deleteIfMatching startOfType recordLength true
      | some ⟨cond⟩ =>
          let lhsLiteral ←
            comparedLiteral env node.tableName cond.colName ctx startOfType recordLength
          let isMatch ← lift (evaluateComparator lhsLiteral cond.cmp cond.literal)
          deleteIfMatching startOfType recordLength isMatch

/-- The offset in the index decides which byte is overwritten. -/
def performDeleteByIndexLookup (env : Env) (node : DeleteNode) (cond : ConditionNode)
    (stream : Stream) : Exec Stream := do
  let keyValue := removeOuterQuotes cond.literal.value
  let w ← get
  let columns ← lift (w.ctx.indices.at node.tableName .tableName)
  let idx ← lift (columns.at cond.colName .columnName)
  let offset ← lift (idx.at keyValue .keyValue)
  let (_, stream) ← runTableStream node.tableName stream do
    seekBeg offset
    write [RecordType.delete.toByte]
  eraseKeyFromIndex env node.tableName cond.colName keyValue
  return stream

/-- One round of the scan, with the counter for a record that was marked. -/
def deleteRound (env : Env) (node : DeleteNode) (stream : Stream) : Exec (Bool × Stream) := do
  let w ← get
  let (indicator, stream) ← runTableStream node.tableName stream
    (performSequentialDelete env node w.ctx)
  if indicator = .live then
    let count ← getDeleteCountForTable env node.tableName
    setDeleteCountForTable node.tableName (1 + count)
  return (decide (indicator = .endOfTable), stream)

/-- The strategies of `deleteData`: one look-up, or the scan and a new index. -/
def deleteMatching (env : Env) (node : DeleteNode) (primaryKeyColumn : Bytes) (stream : Stream) :
    Exec Unit :=
  match node.optWhereNode, isUniqueEqualityLookup node.optWhereNode primaryKeyColumn with
  | some ⟨cond⟩, true => do
      let _ ← performDeleteByIndexLookup env node cond stream
      let count ← getDeleteCountForTable env node.tableName
      setDeleteCountForTable node.tableName (1 + count)
  | _, _ => do
      let _ ← repeatUntil .diverges (deleteRound env node) (scanRounds stream.content) stream
      recalculateIndicesForTable env node.tableName

def deleteData (env : Env) (node : DeleteNode) : Exec Unit := do
  ensureTableFileExists node.tableName
  let stream ← openTableFile node.tableName
  let (_, stream) ← runStream stream (checkFileValidity env false)
  let w ← get
  let schema ← lift (w.ctx.untypedTables.at node.tableName .tableName)
  let primaryKeyColumn ← lift (extractPrimaryKeyColumn schema)
  if stream.isOpen then deleteMatching env node primaryKeyColumn stream
  compactIfNecessary env node.tableName primaryKeyColumn

/-! UPDATE -/

/-- One round of the scan: a record that matches is marked and kept in memory. -/
def updateRound (env : Env) (node : UpdateNode) (schema : Schema)
    (scan : Stream × List Record) : Exec (Bool × Stream × List Record) := do
  let ((indicator, record), stream) ← runTableStream node.tableName scan.1
    (deserializeNextRecordAndMarkAsTombstone env schema node.optWhereNode)
  if indicator = .live then
    let count ← getDeleteCountForTable env node.tableName
    setDeleteCountForTable node.tableName (count + 1)
  if indicator = .ioError then handleFatalError env .unknownIoErrorDuringDeserialization
  return (decide (indicator = .endOfTable), stream,
    if indicator = .live then scan.2 ++ [record] else scan.2)

/-- The values of an updated record from column `i` on. -/
def updatedValues (node : UpdateNode) (oldRecord : Record) : Nat → Nat →
    Except Fault ValueRecordNode
  | 0, _ => .ok []
  | remaining + 1, i => do
      let keep ← index node.inverseProjMask i
      let value ←
        if keep then checkedIndex oldRecord i
        else node.schemaIndexToLiteralMap.at i .schemaIndex
      let rest ← updatedValues node oldRecord remaining (i + 1)
      return some ⟨.string, value⟩ :: rest

def updatedRecord (node : UpdateNode) (schema : Schema) (oldRecord : Record) :
    Except Fault ValueRecordNode := updatedValues node oldRecord schema.length 0

/-- The first part of `updateData`: the old records, marked in the file. -/
def markOldRecords (env : Env) (node : UpdateNode) (schema : Schema) (stream : Stream) :
    Exec (List Record) := do
  let (_, oldRecords) ← repeatUntil .diverges (updateRound env node schema)
    (scanRounds stream.content) (stream, [])
  return oldRecords

def updateData (env : Env) (node : UpdateNode) : Exec Unit := do
  ensureTableFileExists node.tableName
  let stream ← openTableFile node.tableName
  let (_, stream) ← runStream stream (checkFileValidity env false)
  let w ← get
  let schema ← lift (w.ctx.untypedTables.at node.tableName .tableName)
  let oldRecords ← markOldRecords env node schema stream
  let newRecords ← lift (oldRecords.mapM (updatedRecord node schema))
  insertRecords env node.tableName (List.replicate schema.length true) .update newRecords
  recalculateIndicesForTable env node.tableName
  let primaryKeyColumn ← lift (extractPrimaryKeyColumn schema)
  compactIfNecessary env node.tableName primaryKeyColumn

/-! CREATE and DROP -/

def createUntypedTable (env : Env) (node : CreateUntypedTableNode) :
    Exec (Option ErrorReport) := do
  let w ← get
  if node.tableName ∈ w.ctx.untypedTables then
    return some ⟨.createTableAlreadyExists, [node.tableName]⟩
  set (w.setMetadata (some ((w.disk.metadata.getD ∅).insert node.tableName
    (some (metadataText node.columns)))))
  setUntypedTable node.tableName node.columns
  initializeColumnEncodingMapForTable env node.tableName
  recalculateIndicesForTable env node.tableName
  return none

def dropTable (env : Env) (node : DropTableNode) : Exec Unit := do
  let w ← get
  let tables := w.disk.metadata.getD ∅
  if node.tableName ∈ tables then
    set (((w.setMetadata (some (tables.erase node.tableName))).setTableFiles
      (w.disk.tableFiles.erase node.tableName)).setNewTableFiles
      (w.disk.newTableFiles.erase node.tableName))
    eraseInMemoryHashMapIndicesForTable node.tableName
    eraseTable node.tableName
  else handleFatalError env .tableMetadataDirectoryDoesNotExist

end Jssql.FileHandler
