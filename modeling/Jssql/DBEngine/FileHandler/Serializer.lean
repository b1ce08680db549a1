import Jssql.DBEngine.FileHandler.Deserializer

/-!
The writer of records. The key is written first and the other columns follow in
schema order, each with an entry in the offset region. The record is computed in
full before the first byte is written; the index learns the key between the
length and the type byte, from the position of the appending stream.
-/
namespace Jssql.FileHandler
open Foundation

/-! `writeToBinaryFile` -/

def encodeString (s : Bytes) : Bytes := toLE 8 s.length ++ s

def encodeColumnOffset (off : ColumnOffset) : Bytes := toLE 8 off.offset ++ off.colId :: off.padding

@[simp] theorem length_encodeString (s : Bytes) : (encodeString s).length = 8 + s.length := by
  simp [encodeString]

/-- What one record holds besides its length. -/
structure StoredRecord where
  recordType : UInt8
  columnOffsets : List ColumnOffset
  pkLiteral : Bytes
  payloadLiterals : List Bytes
deriving DecidableEq

namespace StoredRecord

def columnRegion (r : StoredRecord) : Bytes := r.columnOffsets.flatMap encodeColumnOffset

def payload (r : StoredRecord) : Bytes := r.payloadLiterals.flatMap encodeString

/-- What follows the type byte. -/
def body (r : StoredRecord) : Bytes := r.columnRegion ++ encodeString r.pkLiteral ++ r.payload

end StoredRecord

/-- The position of the key, in an 8-bit variable that goes round when no column
below 256 is a key and there are more columns than that. -/
def primaryKeyIndex (schema : Schema) : Except Fault Nat :=
  let pkIdx := schema.findIdx isPrimaryKey
  if pkIdx < 256 then .ok pkIdx else .error .diverges

/-- The stored value of a column that is not the key. -/
def finalLiteral (col : UntypedColumnDefNode) (lit : Option LiteralNode) (userProvided : Bool) :
    Except Fault Bytes :=
  match lit with
  | none => getDefaultValue col.modifiers
  | some l =>
      if !userProvided || l.type = .empty then getDefaultValue col.modifiers
      else .ok (removeOuterQuotes l.value)

/-- The offset entries and literals of the columns from index `i` on, without the key. -/
def payloadColumns (colcodes : Map Bytes UInt8) (record : ValueRecordNode)
    (projectionMask : List Bool) (pkIdx : Nat) :
    Nat → Nat → Schema → Except Fault (List (ColumnOffset × Bytes))
  | _, _, [] => .ok []
  | i, runningDataOffset, col :: cols =>
      if i = pkIdx then
        payloadColumns colcodes record projectionMask pkIdx (i + 1) runningDataOffset cols
      else do
        let lit ← index record i
        let userProvided ← index projectionMask i
        let literal ← finalLiteral col lit userProvided
        let colcode ← colcodes.at col.name .columnName
        let rest ← payloadColumns colcodes record projectionMask pkIdx (i + 1)
          (runningDataOffset + (8 + literal.length)) cols
        return (⟨runningDataOffset, colcode, List.replicate 7 0⟩, literal) :: rest

/-- The key column's name, the record length and the record that will be written. -/
structure RecordPayload where
  pkColName : Bytes
  recordLength : Nat
  record : StoredRecord

def recordPayload (schema : Schema) (colcodes : Map Bytes UInt8) (record : ValueRecordNode)
    (projectionMask : List Bool) (type : RecordType) : Except Fault RecordPayload := do
  let pkIdx ← primaryKeyIndex schema
  let pkValue ← index record pkIdx
  let pkNode ← match pkValue with
    | some node => .ok node
    | none => .error (.undefined .nullPointer)
  let pkLiteral := removeOuterQuotes pkNode.value
  let columns ← payloadColumns colcodes record projectionMask pkIdx 0 0 schema
  let literals := columns.map Prod.snd
  let numberOfColsWithoutPk := (schema.length + 255) % 256
  let pkCol ← index schema pkIdx
  return {
    pkColName := pkCol.name
    recordLength := 1 + (8 + pkLiteral.length) +
      ((literals.map fun literal => 8 + literal.length).sum
        + numberOfColsWithoutPk * columnOffsetSize)
    record := ⟨type.toByte, columns.map Prod.fst, pkLiteral, literals⟩ }

/-- `catch (const std::exception&)`: neither an exit nor undefined behaviour is caught. -/
def catchException {σ α : Type} (p : EStateM Fault σ α) (handler : Exception → EStateM Fault σ α) :
    EStateM Fault σ α :=
  tryCatch p fun fault =>
    match fault with
    | .exception e => handler e
    | other => throw other

theorem catchException_run {σ α : Type} (p : EStateM Fault σ α)
    (handler : Exception → EStateM Fault σ α) (s : σ) :
    (catchException p handler).run s =
      match p.run s with
      | .error (.exception e) s' => (handler e).run s'
      | ended => ended := by
  rw [catchException, run_tryCatch]
  cases p.run s with
  | ok a s' => rfl
  | error fault s' => cases fault <;> rfl

def writeRecord (table : Bytes) (type : RecordType) (p : RecordPayload) : Exec Unit := do
  appendToTableFile table (toLE 8 p.recordLength)
  if type = .insert ∨ type = .update then
    let offset ← tellpTableFile table
    upsertPrimaryKeyIndex table p.pkColName p.record.pkLiteral offset
  appendToTableFile table [p.record.recordType]
  appendToTableFile table p.record.columnRegion
  appendToTableFile table (encodeString p.record.pkLiteral)
  appendToTableFile table p.record.payload

def serializeNormalizedRecord (env : Env) (table : Bytes) (record : ValueRecordNode)
    (projectionMask : List Bool) (type : RecordType) : Exec Unit := do
  let w ← get
  let schema ← lift (w.ctx.untypedTables.at table .tableName)
  let colcodes ← lift (w.ctx.tableColcodes.at table .tableName)
  let payload ← lift (recordPayload schema colcodes record projectionMask type)
  catchException (writeRecord table type payload) fun _ =>
    handleFatalError env .genericFileIOFailure

end Jssql.FileHandler
