import Jssql.Theory.Appending
import Jssql.Theory.ScanProgress

/-!
The end of the scans on whatever bytes. No reader checks a length, and the seek takes
it for a signed number, so a scan comes to its end unless a length field that it uses
leads back; a record whose length leads to its own start is read for ever.
-/
namespace Jssql.FileHandler
open Foundation Foundation.Stream

/-! The loops -/

def keyRound (columnsWithoutPk : Nat) (result : Index) : StreamM (Bool × Index) := do
  let (indicator, pk, offset) ← deserializeNextPrimaryKey columnsWithoutPk
  return (indicator = .endOfTable,
    if indicator = .live then insertNew result pk offset else result)

def countRound (env : Env) (counts : RecordCounts) : StreamM (Bool × RecordCounts) := do
  let indicator ← deserializeNextRecordType
  if indicator = .ioError then
    close
    handleFatalError env .unknownIoErrorDuringDeserialization
  return (decide (indicator = .endOfTable), counts.count indicator)

def selectRound (env : Env) (schema : Schema) (projectionMask : List Bool)
    (optWhere : Option WhereNode) (results : ResultSet) : StreamM (Bool × ResultSet) := do
  let (indicator, record) ← deserializeNextRecord env schema projectionMask optWhere
  return (decide (indicator = .endOfTable),
    if indicator = .live then results ++ [record] else results)

theorem extractPrimaryKeysIndex_loop (columnsWithoutPk : Nat) :
    extractPrimaryKeysIndex columnsWithoutPk = (do
      let s ← get
      repeatUntil .diverges (keyRound columnsWithoutPk) (scanRounds s.content) ∅) := rfl

theorem countRecords_loop (env : Env) : countRecords env = (do
    let s ← get
    repeatUntil .diverges (countRound env) (scanRounds s.content) ⟨0, 0⟩) := rfl

theorem selectSequentially_loop (env : Env) (schema : Schema) (projectionMask : List Bool)
    (optWhere : Option WhereNode) :
    selectSequentially env schema projectionMask optWhere = (do
      let s ← get
      repeatUntil .diverges (selectRound env schema projectionMask optWhere)
        (scanRounds s.content) []) := rfl

/-! Rounds that lead on -/

end Jssql.FileHandler
