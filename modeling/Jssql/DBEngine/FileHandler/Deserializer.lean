import Jssql.DBEngine.ExecutionContext
import Jssql.Foundation.Loop
import Jssql.Foundation.Map
import Jssql.Services.ConditionEvaluator

/-!
The readers of a table file. Each reads the length of a record, notes where the
type byte stands, reads it, and steps over a tombstone; what follows differs.

Lengths and sizes are unsigned words: a seek takes its distance as a signed one,
and a size whose read fails keeps what the variable held. The readers of columns
check the read of a value but not the read of its size.
-/
namespace Jssql.FileHandler
open Foundation Foundation.Stream ConditionEvaluator

/-- An unsigned distance given to `seekg`, which takes a signed one. -/
def streamOff (distance : Int) : Int := distance.bmod (2 ^ 64)

/-- The bytes of a variable that a read of `n` bytes may leave partly unwritten. -/
def readUnchecked (env : Env) (n : Nat) : StreamM Bytes := do
  let start ← tell
  let got ← read n
  return overlay got (toLE n (env.uninit start))

def readSize (env : Env) : StreamM Nat := do
  let bytes ← readUnchecked env 8
  return ofLE bytes

/-- `resize` to the size that was read, then the read into the string. -/
def readSized (n : Nat) : StreamM Bytes := do
  if 2 ^ 63 - 1 ≤ n then throw (.exception .lengthError)
  let got ← read n
  return overlay got (List.replicate n 0)

/-- `checkFileValidity`; only the overload for input streams closes the file. -/
def checkFileValidity (env : Env) (closes : Bool) : StreamM Unit := do
  let header ← readUnchecked env 32
  if ofLE (header.take 8) ≠ dbMagic then
    if closes then close
    handleFatalError env .unknownTableFileFormat

/-- `schema.size() - 1` in unsigned arithmetic. -/
def columnsWithoutPk : Schema → Nat
  | [] => 2 ^ 64 - 1
  | _ :: rest => rest.length

def columnOffsetSize : Nat := 16

/-- Jump over the offset region of a live record. -/
def skipColumnOffsetRegion (columnsWithoutPk : Nat) : StreamM Unit :=
  seekCur (streamOff (columnsWithoutPk * columnOffsetSize : Nat))

/-- Enough rounds for any scan: a scan either moves on, or marks a record, or
comes back to a place and a content it has had. -/
def scanRounds (content : Bytes) : Nat := (content.length + 2) ^ 2

inductive Head where
  | done (indicator : Indicator)
  | live (recordLength startOfType : Nat) (recordType : Bytes)

/-- The part the readers share, up to the skip over a tombstone. -/
def readHead : StreamM Head := do
  let lengthBytes ← read 8
  if ← failed then return .done .endOfTable
  let startOfType ← tell
  let recordType ← read 1
  if ← failed then return .done .ioError
  if recordType = [RecordType.delete.toByte] ∨ recordType = [RecordType.unused.toByte] then
    seekCur (streamOff (ofLE lengthBytes - 1))
    return .done .tombstone
  return .live (ofLE lengthBytes) startOfType recordType

def deserializeNextRecordType : StreamM Indicator := do
  match ← readHead with
  | .done indicator => return indicator
  | .live recordLength _ _ =>
      seekCur (streamOff (recordLength - 1))
      return .live

/-- The key and the offset are set where the indicator is `live`. -/
def deserializeNextPrimaryKey (columnsWithoutPk : Nat) : StreamM (Indicator × Bytes × Nat) := do
  match ← readHead with
  | .done indicator => return (indicator, [], 0)
  | .live recordLength startOfType _ =>
      let colOffsetRegionLength := columnsWithoutPk * columnOffsetSize
      skipColumnOffsetRegion columnsWithoutPk
      let pkLenBytes ← read 8
      if ← failed then return (.ioError, [], 0)
      let pk ← readSized (ofLE pkLenBytes)
      if ← failed then return (.ioError, [], 0)
      seekCur (streamOff (recordLength - (1 + colOffsetRegionLength + 8 + pk.length)))
      return (.live, pk, startOfType)

/-- Of two live records with one key the first stays, as `unordered_map::insert` has it. -/
def extractPrimaryKeysIndex (columnsWithoutPk : Nat) : StreamM Index := do
  let s ← get
  repeatUntil .diverges (fun result => do
    let (indicator, pk, offset) ← deserializeNextPrimaryKey columnsWithoutPk
    return (indicator = .endOfTable,
      if indicator = .live then insertNew result pk offset else result)) (scanRounds s.content) ∅

/-- The condition of a `WHERE` clause when the value of its column comes by. -/
def evaluateWhere (optWhere : Option WhereNode) (i : Nat) (value : Bytes) (whereResult : Bool) :
    Except Fault Bool :=
  match optWhere with
  | some w =>
      if w.condition.schemaIndex.toNat = i then
        evaluateComparator value w.condition.cmp w.condition.literal
      else .ok whereResult
  | none => .ok whereResult

/-- The columns of a live record from column `i` on; `none` is an I/O error. -/
def readColumns (env : Env) (project : Nat → Except Fault Bool) (optWhere : Option WhereNode) :
    Nat → Nat → Bool → Record → StreamM (Option (Bool × Record))
  | 0, _, whereResult, out => return some (whereResult, out)
  | remaining + 1, i, whereResult, out => do
      let valueSize ← readSize env
      let value ← readSized valueSize
      if ← failed then return none
      let whereResult ← lift (evaluateWhere optWhere i value whereResult)
      let projected ← lift (project i)
      readColumns env project optWhere remaining (i + 1) whereResult
        (if projected then out ++ [value] else out)

def deserializeNextRecord (env : Env) (schema : Schema) (projectionMask : List Bool)
    (optWhere : Option WhereNode) : StreamM (Indicator × Record) := do
  match ← readHead with
  | .done indicator => return (indicator, [])
  | .live _ _ _ =>
      skipColumnOffsetRegion (columnsWithoutPk schema)
      match ← readColumns env (index projectionMask) optWhere schema.length 0 true [] with
      | none => return (.ioError, [])
      | some (whereResult, record) => return (if whereResult then .live else .skip, record)

/-- Overwrite the type byte and go to the start of the next record. -/
def markAsTombstone (startOfType recordLength : Nat) : StreamM Unit := do
  seekBeg startOfType
  write [RecordType.delete.toByte]
  seekBeg (startOfType + streamOff recordLength)

/-- The end of `deserializeNextRecordAndMarkAsTombstone`, after the columns. -/
def markIfMatching (startOfType recordLength : Nat) :
    Option (Bool × Record) → StreamM (Indicator × Record)
  | none => return (.ioError, [])
  | some (false, record) => return (.skip, record)
  | some (true, record) => do
      markAsTombstone startOfType recordLength
      return (.live, record)

def deserializeNextRecordAndMarkAsTombstone (env : Env) (schema : Schema)
    (optWhere : Option WhereNode) : StreamM (Indicator × Record) := do
  match ← readHead with
  | .done indicator => return (indicator, [])
  | .live recordLength startOfType _ =>
      skipColumnOffsetRegion (columnsWithoutPk schema)
      let columns ← readColumns env (fun _ => .ok true) optWhere schema.length 0 true []
      markIfMatching startOfType recordLength columns

end Jssql.FileHandler
