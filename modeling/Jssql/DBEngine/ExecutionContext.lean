import Jssql.Auxiliary.Utilities
import Jssql.Foundation.Program

/-!
The state of a process: the files it works on and the `ExecutionContext`, with
the context's getters, setters and erasers. `handleFatalError` ends the process
unless the logger is silent, when it returns and the caller goes on.

A file's content is what the operations have written so far; streams opened for
appending write straight to it, and `tellp` of such a stream is the content's
length. Reads that fail leave an uninitialised variable as it was, so its value
is a parameter of the environment, one for each stream position.
-/
namespace Jssql
open Foundation

/-- What does not change while the process runs. -/
structure Env where
  silent : Bool
  uninit : Nat → Nat

structure Disk where
  /-- The subdirectories of the metadata directory, each with its `metadata.txt`. -/
  metadata : Option (AList fun _ : Bytes => Option Bytes)
  tableFiles : Map Bytes Bytes
  newTableFiles : Map Bytes Bytes
  csvFiles : Map Bytes Bytes

structure ExecutionContext where
  untypedTables : Map Bytes Schema
  tableColcodes : Map Bytes (Map Bytes UInt8)
  indices : Map Bytes (Map Bytes Index)
  deleteCounterPerTable : Map Bytes Nat

structure World where
  disk : Disk
  ctx : ExecutionContext

abbrev Exec := EStateM Fault World

abbrev StreamM := EStateM Fault Stream

namespace World

def setIndices (w : World) (indices : Map Bytes (Map Bytes Index)) : World :=
  { w with ctx := { w.ctx with indices := indices } }

def setCounters (w : World) (counters : Map Bytes Nat) : World :=
  { w with ctx := { w.ctx with deleteCounterPerTable := counters } }

def setMetadata (w : World) (metadata : Option (AList fun _ : Bytes => Option Bytes)) : World :=
  { w with disk := { w.disk with metadata := metadata } }

def setTableFiles (w : World) (files : Map Bytes Bytes) : World :=
  { w with disk := { w.disk with tableFiles := files } }

def setNewTableFiles (w : World) (files : Map Bytes Bytes) : World :=
  { w with disk := { w.disk with newTableFiles := files } }

def setTableFile (w : World) (table content : Bytes) : World :=
  w.setTableFiles (w.disk.tableFiles.insert table content)

@[simp] theorem setTableFile_ctx (w : World) (t c : Bytes) : (w.setTableFile t c).ctx = w.ctx := rfl

@[simp] theorem setTableFile_tableFiles (w : World) (t c : Bytes) :
    (w.setTableFile t c).disk.tableFiles = w.disk.tableFiles.insert t c := rfl

@[simp] theorem setTableFile_newTableFiles (w : World) (t c : Bytes) :
    (w.setTableFile t c).disk.newTableFiles = w.disk.newTableFiles := rfl

@[simp] theorem setIndices_disk (w : World) (m : Map Bytes (Map Bytes Index)) :
    (w.setIndices m).disk = w.disk := rfl

@[simp] theorem setIndices_indices (w : World) (m : Map Bytes (Map Bytes Index)) :
    (w.setIndices m).ctx.indices = m := rfl

@[simp] theorem setIndices_untypedTables (w : World) (m : Map Bytes (Map Bytes Index)) :
    (w.setIndices m).ctx.untypedTables = w.ctx.untypedTables := rfl

@[simp] theorem setIndices_tableColcodes (w : World) (m : Map Bytes (Map Bytes Index)) :
    (w.setIndices m).ctx.tableColcodes = w.ctx.tableColcodes := rfl

@[simp] theorem setIndices_deleteCounterPerTable (w : World) (m : Map Bytes (Map Bytes Index)) :
    (w.setIndices m).ctx.deleteCounterPerTable = w.ctx.deleteCounterPerTable := rfl

@[simp] theorem setCounters_disk (w : World) (m : Map Bytes Nat) :
    (w.setCounters m).disk = w.disk := rfl

@[simp] theorem setCounters_indices (w : World) (m : Map Bytes Nat) :
    (w.setCounters m).ctx.indices = w.ctx.indices := rfl

@[simp] theorem setCounters_untypedTables (w : World) (m : Map Bytes Nat) :
    (w.setCounters m).ctx.untypedTables = w.ctx.untypedTables := rfl

@[simp] theorem setCounters_tableColcodes (w : World) (m : Map Bytes Nat) :
    (w.setCounters m).ctx.tableColcodes = w.ctx.tableColcodes := rfl

@[simp] theorem setCounters_deleteCounterPerTable (w : World) (m : Map Bytes Nat) :
    (w.setCounters m).ctx.deleteCounterPerTable = m := rfl

end World

/-! `ErrorLogger` -/

def handleFatalError {σ : Type} (env : Env) (code : FatalErrorCode) : EStateM Fault σ Unit :=
  if env.silent then pure () else throw (.exit code)

/-! Table files -/

def dbMagic : Nat := 0x4A5353514C7631

def dbVersion : Nat := 1

/-- What `createTableFile` writes: magic, version, flags, reserved. -/
def tableFileHeader : Bytes := toLE 8 dbMagic ++ toLE 8 dbVersion ++ toLE 8 0 ++ toLE 8 0

/-- `ensureTableFileExists` creates the file with its header when it is missing. -/
def ensureTableFileExists (table : Bytes) : Exec Unit :=
  modify fun w =>
    match w.disk.tableFiles.lookup table with
    | some _ => w
    | none => w.setTableFile table tableFileHeader

/-- A stream on the table file; opening a missing file leaves a closed stream. -/
def openTableFile (table : Bytes) : Exec Stream := do
  let w ← get
  match w.disk.tableFiles.lookup table with
  | some content => return .opened content
  | none => return { Stream.opened [] with fail := true, isOpen := false }

/-- Append to the table file through a stream in append mode. -/
def appendToTableFile (table bytes : Bytes) : Exec Unit :=
  modify fun w => w.setTableFile table ((w.disk.tableFiles.lookup table).getD [] ++ bytes)

/-- `tellp` of the appending stream. -/
def tellpTableFile (table : Bytes) : Exec Nat := do
  let w ← get
  return ((w.disk.tableFiles.lookup table).getD []).length

/-- Run a stream operation on its own stream value. -/
def runStream {α : Type} (stream : Stream) (op : StreamM α) : Exec (α × Stream) := fun w =>
  match op.run stream with
  | .ok a stream' => .ok (a, stream') w
  | .error e _ => .error e w

/-- Run an operation of a read-write stream and flush what it wrote to the file. -/
def runTableStream {α : Type} (table : Bytes) (stream : Stream) (op : StreamM α) :
    Exec (α × Stream) := fun w =>
  match op.run stream with
  | .ok a stream' => .ok (a, stream') (w.setTableFile table stream'.content)
  | .error e stream' => .error e (w.setTableFile table stream'.content)

/-! Getters, setters and erasers of the context -/

def getDeleteCountForTable (env : Env) (table : Bytes) : Exec Nat := do
  let w ← get
  match w.ctx.deleteCounterPerTable.lookup table with
  | some count => return count
  | none =>
      handleFatalError env .compactInternalTableNotFoundInDeleteCountMap
      throw (.undefined .endIterator)

def setDeleteCountForTable (table : Bytes) (count : Nat) : Exec Unit :=
  modify fun w => w.setCounters (w.ctx.deleteCounterPerTable.insert table count)

def upsertPrimaryKeyIndex (table pkColName pkLiteral : Bytes) (offset : Nat) : Exec Unit := do
  let w ← get
  let columns ← lift (w.ctx.indices.at table .tableName)
  let idx ← lift (columns.at pkColName .columnName)
  set (w.setIndices
    (w.ctx.indices.insert table (columns.insert pkColName (idx.insert pkLiteral offset))))

def eraseKeyFromIndex (env : Env) (table colName keyValue : Bytes) : Exec Unit := do
  let w ← get
  let columns ← lift (w.ctx.indices.at table .tableName)
  let idx ← lift (columns.at colName .columnName)
  let offset ← lift (idx.at keyValue .keyValue)
  if offset ≠ 0 then
    set (w.setIndices (w.ctx.indices.insert table (columns.insert colName (idx.erase keyValue))))
  else handleFatalError env .hashIndexGenericNullptrError

def eraseInMemoryHashMapIndicesForTable (table : Bytes) : Exec Unit :=
  modify fun w => w.setIndices (w.ctx.indices.erase table)

def setUntypedTable (table : Bytes) (schema : Schema) : Exec Unit :=
  modify fun w =>
    { w with ctx := { w.ctx with untypedTables := w.ctx.untypedTables.insert table schema } }

def eraseTable (table : Bytes) : Exec Unit :=
  modify fun w =>
    { w with ctx := { w.ctx with untypedTables := w.ctx.untypedTables.erase table } }

end Jssql
