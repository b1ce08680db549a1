import Jssql.DBEngine.Initializers
import Jssql.DBEngine.FileHandler.Serializer

/-!
Compaction: the live records are read field by field and written to a new file,
which then takes the place of the old one. No read of a field is checked, and a
new file that is already there is continued, not replaced.
-/
namespace Jssql.FileHandler
open Foundation Foundation.Stream

/-- The entries of the offset region as they stand in memory. -/
def copyColumnOffsets (env : Env) : Nat → StreamM Bytes
  | 0 => return []
  | n + 1 => do
      let entry ← readUnchecked env columnOffsetSize
      let rest ← copyColumnOffsets env n
      return entry ++ rest

def copyString (env : Env) : StreamM Bytes := do
  let size ← readSize env
  let literal ← readSized size
  return encodeString literal

def copyLiterals (env : Env) : Nat → StreamM Bytes
  | 0 => return []
  | n + 1 => do
      let literal ← copyString env
      let rest ← copyLiterals env n
      return literal ++ rest

/-- The indicator and what is written to the new file. -/
def copyNextLiveRecord (env : Env) (numberOfColsWithoutPk : Nat) :
    StreamM (Indicator × Bytes) := do
  match ← readHead with
  | .done indicator => return (indicator, [])
  | .live recordLength _ recordType =>
      let columnOffsets ← copyColumnOffsets env numberOfColsWithoutPk
      let pkLiteral ← copyString env
      let literals ← copyLiterals env numberOfColsWithoutPk
      return (.live, toLE 8 recordLength ++ recordType ++ columnOffsets ++ pkLiteral ++ literals)

def appendToNewTableFile (table bytes : Bytes) : Exec Unit :=
  modify fun w => w.setNewTableFiles
    (w.disk.newTableFiles.insert table ((w.disk.newTableFiles.lookup table).getD [] ++ bytes))

/-- `createTableFile` on the path of the new file. -/
def createNewTableFile (table : Bytes) : Exec Unit :=
  modify fun w =>
    match w.disk.newTableFiles.lookup table with
    | some _ => w
    | none => w.setNewTableFiles (w.disk.newTableFiles.insert table tableFileHeader)

/-- Removal of the old file, then the rename of the new one. -/
def replaceTableFile (table : Bytes) : Exec Unit :=
  modify fun w =>
    match w.disk.newTableFiles.lookup table with
    | some content =>
        (w.setTableFile table content).setNewTableFiles (w.disk.newTableFiles.erase table)
    | none => w.setTableFiles (w.disk.tableFiles.erase table)

/-- One round of the copy loop. -/
def copyRound (env : Env) (table : Bytes) (numberOfColsWithoutPk : Nat) (oldTableFile : Stream) :
    Exec (Bool × Stream) := do
  let ((indicator, copied), oldTableFile) ←
    runStream oldTableFile (copyNextLiveRecord env numberOfColsWithoutPk)
  appendToNewTableFile table copied
  if indicator = .ioError then
    handleFatalError env .compactUnknownErrorDuringCopyingDuringCompaction
  return (decide (indicator = .endOfTable), oldTableFile)

def compactTable (env : Env) (table : Bytes) : Exec Unit := do
  ensureTableFileExists table
  createNewTableFile table
  let oldTableFile ← openTableFile table
  let (_, oldTableFile) ← runStream oldTableFile (checkFileValidity env true)
  let w ← get
  let schema ← lift (w.ctx.untypedTables.at table .tableName)
  let _ ← repeatUntil .diverges (copyRound env table (columnsWithoutPk schema))
    (scanRounds oldTableFile.content) oldTableFile
  replaceTableFile table

/-- Tombstones and all records of a file. -/
structure RecordCounts where
  tombstoneCount : Nat
  totalCount : Nat
deriving DecidableEq

/-- What one record type adds to the counts. -/
def RecordCounts.count (counts : RecordCounts) (indicator : Indicator) : RecordCounts :=
  match indicator with
  | .tombstone => ⟨counts.tombstoneCount + 1, counts.totalCount + 1⟩
  | .live | .skip => ⟨counts.tombstoneCount, counts.totalCount + 1⟩
  | .endOfTable | .ioError => counts

def countRecords (env : Env) : StreamM RecordCounts := do
  let s ← get
  repeatUntil .diverges (fun counts => do
    let indicator ← deserializeNextRecordType
    if indicator = .ioError then
      close
      handleFatalError env .unknownIoErrorDuringDeserialization
    return (decide (indicator = .endOfTable), counts.count indicator))
    (scanRounds s.content) ⟨0, 0⟩

/-- The tombstone ratio as a numerator and a denominator, which may be zero. -/
def calculateTombstoneRatio (env : Env) (table : Bytes) : Exec (Nat × Nat) := do
  ensureTableFileExists table
  let stream ← openTableFile table
  let (_, stream) ← runStream stream (checkFileValidity env true)
  if stream.isOpen then
    let (counts, _) ← runStream stream (countRecords env)
    return (counts.tombstoneCount, counts.totalCount)
  else return (0, 0)

/-- A quotient is at least `COMPACTION_THRESHOLD`, two fifths; `0 / 0` is not. -/
def reachesThreshold (num den : Nat) : Bool := den ≠ 0 && 2 * den ≤ 5 * num

/-- The end of a statement that made tombstones: an estimate from the counter, the
true ratio if that is high, and then the compaction. -/
def compactIfNecessary (env : Env) (table primaryKeyColumn : Bytes) : Exec Unit := do
  let w ← get
  let columns ← lift (w.ctx.indices.at table .tableName)
  let idx ← lift (columns.at primaryKeyColumn .columnName)
  let numberOfActiveCols := idx.keys.card
  let deleteCount ← getDeleteCountForTable env table
  if reachesThreshold deleteCount (1 + numberOfActiveCols + deleteCount) then
    let (tombstoneCount, totalCount) ← calculateTombstoneRatio env table
    if reachesThreshold tombstoneCount totalCount then
      compactTable env table
      setDeleteCountForTable table 0
      recalculateIndicesForTable env table

end Jssql.FileHandler
