import Jssql.DBEngine.FileHandler.Deserializer

/-!
The construction of the `ExecutionContext` from the metadata directory, and the
parts of it that a statement runs again for one table: the column codes, and the
index read back from the table file.
-/
namespace Jssql
open Foundation FileHandler

/-! Metadata text -/

def newline : UInt8 := 10

def comma : UInt8 := 44

/-- The lines `std::getline` delivers: no empty one after a final newline. -/
def getlines (text : Bytes) : List Bytes :=
  let parts := text.splitOn newline
  if parts.getLast? = some [] then parts.dropLast else parts

/-- One line of `metadata.txt`: a name up to a blank, then modifiers between commas. -/
def parseMetadataLine (line : Bytes) : UntypedColumnDefNode :=
  let (colName, modifiersPart) := (line.dropWhile isSpace).span fun c => !isSpace c
  ⟨colName, (modifiersPart.splitOn comma).filter fun mod => !mod.isEmpty⟩

def parseMetadata (text : Bytes) : Schema := (getlines text).map parseMetadataLine

def metadataLine (col : UntypedColumnDefNode) : Bytes :=
  col.name ++ (if col.modifiers.isEmpty then [] else ascii " ") ++
    List.intercalate [comma] col.modifiers ++ [newline]

/-- What `createUntypedTable` writes to `metadata.txt`. -/
def metadataText (schema : Schema) : Bytes := schema.flatMap metadataLine

/-! Initializers -/

def initializeUntypedTableMetadata (env : Env) : Exec Unit := do
  let w ← get
  match w.disk.metadata with
  | none => handleFatalError env .metadataDirectoryDoesNotExist
  | some tables =>
      tables.entries.forM fun entry =>
        match entry.2 with
        | none => pure ()
        | some text => setUntypedTable entry.1 (parseMetadata text)

/-- The codes from `colCode` on; a code that comes round to zero is fatal. -/
def assignColumnCodes (env : Env) : UInt8 → Schema → Map Bytes UInt8 → Exec (Map Bytes UInt8)
  | _, [], codes => return codes
  | colCode, col :: cols, codes => do
      if colCode + 1 = 0 then handleFatalError env .colOffsetRegionHasMoreColsThanAllowed
      assignColumnCodes env (colCode + 1) cols (codes.insert col.name colCode)

def initializeColumnEncodingMapForTable (env : Env) (table : Bytes) : Exec Unit := do
  let w ← get
  match w.ctx.untypedTables.lookup table with
  | none =>
      handleFatalError env .colcodeTableDoesNotExist
      throw (.undefined .endIterator)
  | some schema =>
      let codes ← assignColumnCodes env 0 schema ∅
      modify fun w => { w with ctx := { w.ctx with
        tableColcodes := w.ctx.tableColcodes.insert table codes } }

/-- The index of a table from its file, under the name of its key column. -/
def initializePrimaryKeyIndicesForTable (env : Env) (table : Bytes) : Exec Unit := do
  ensureTableFileExists table
  modify fun w =>
    if table ∈ w.ctx.indices then w else w.setIndices (w.ctx.indices.insert table ∅)
  let stream ← openTableFile table
  if stream.isOpen then
    let (_, stream) ← runStream stream (checkFileValidity env true)
    let w ← get
    let schema ← lift (w.ctx.untypedTables.at table .tableName)
    let pkColName ← lift (extractPrimaryKeyColumn schema)
    let columns ← lift (w.ctx.indices.at table .tableName)
    let (idx, _) ← runStream stream (extractPrimaryKeysIndex (columnsWithoutPk schema))
    set (w.setIndices (w.ctx.indices.insert table
      (if pkColName ∈ columns then columns else columns.insert pkColName idx)))

def recalculateIndicesForTable (env : Env) (table : Bytes) : Exec Unit := do
  eraseInMemoryHashMapIndicesForTable table
  initializePrimaryKeyIndicesForTable env table

/-- The names in `untyped_tables`, in the order the directory listed them. -/
def tableNames (w : World) : List Bytes :=
  match w.disk.metadata with
  | none => []
  | some tables => tables.keys.filter fun table => table ∈ w.ctx.untypedTables

def initializeColumnEncodingMap (env : Env) : Exec Unit := do
  (tableNames (← get)).forM (initializeColumnEncodingMapForTable env)

def initializePrimaryKeyIndices (env : Env) : Exec Unit := do
  (tableNames (← get)).forM (initializePrimaryKeyIndicesForTable env)

def initializeDeleteCounters : Exec Unit := do
  (tableNames (← get)).forM fun table => setDeleteCountForTable table 0

/-- The constructor of `ExecutionContext`. -/
def constructExecutionContext (env : Env) : Exec Unit := do
  initializeUntypedTableMetadata env
  initializeColumnEncodingMap env
  initializePrimaryKeyIndices env
  initializeDeleteCounters

def ExecutionContext.empty : ExecutionContext := ⟨∅, ∅, ∅, ∅⟩

end Jssql
