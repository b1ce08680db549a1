import Jssql.DBEngine.FileHandler.Handlers

/-!
The record buffer of the scans. `SELECT` and `UPDATE` read each record into one
buffer and move the buffer out when the record is wanted; what a moved-from vector
holds is not specified. The reader clears the buffer before the first value goes in,
so nothing of an earlier record is seen and the scans are those without a buffer.
-/
namespace Jssql.FileHandler
open Foundation Foundation.Stream ConditionEvaluator

variable {env : Env}

/-! The readers with the buffer -/

/-- `readColumns` on the buffer itself, which keeps what was pushed before an error. -/
def readColumnsInto (env : Env) (project : Nat → Except Fault Bool) (optWhere : Option WhereNode) :
    Nat → Nat → Bool → Record → StreamM (Option Bool × Record)
  | 0, _, whereResult, outRecord => return (some whereResult, outRecord)
  | remaining + 1, i, whereResult, outRecord => do
      let valueSize ← readSize env
      let value ← readSized valueSize
      if ← failed then return (none, outRecord)
      let whereResult ← lift (evaluateWhere optWhere i value whereResult)
      let projected ← lift (project i)
      readColumnsInto env project optWhere remaining (i + 1) whereResult
        (if projected then outRecord ++ [value] else outRecord)

/-- `deserializeNextRecord` with its buffer, cleared behind the offset region. -/
def deserializeNextRecordInto (env : Env) (schema : Schema) (projectionMask : List Bool)
    (optWhere : Option WhereNode) (outRecord : Record) : StreamM (Indicator × Record) := do
  match ← readHead with
  | .done indicator => return (indicator, outRecord)
  | .live _ _ _ =>
      skipColumnOffsetRegion (columnsWithoutPk schema)
      match ← readColumnsInto env (index projectionMask) optWhere schema.length 0 true [] with
      | (none, outRecord) => return (.ioError, outRecord)
      | (some whereResult, outRecord) => return (if whereResult then .live else .skip, outRecord)

/-- The scan of `selectData`; `moved` is what a buffer holds after it was moved out. -/
def selectSequentiallyInto (env : Env) (schema : Schema) (projectionMask : List Bool)
    (optWhere : Option WhereNode) (moved : Record → Record) (recordBuffer : Record) :
    StreamM (ResultSet × Record) := do
  let s ← get
  repeatUntil .diverges (fun scan => do
    let (indicator, recordBuffer) ← deserializeNextRecordInto env schema projectionMask optWhere scan.2
    return (decide (indicator = .endOfTable),
      if indicator = .live then (scan.1 ++ [recordBuffer], moved recordBuffer) else (scan.1, recordBuffer)))
    (scanRounds s.content) ([], recordBuffer)

/-! The buffer does not show -/

theorem map_readColumnsInto (project : Nat → Except Fault Bool) (optWhere : Option WhereNode)
    (remaining : Nat) : ∀ (i : Nat) (whereResult : Bool) (out : Record),
      (fun read => read.1.map fun result => (result, read.2)) <$>
        readColumnsInto env project optWhere remaining i whereResult out =
      readColumns env project optWhere remaining i whereResult out := by
  induction remaining with
  | zero => intro i whereResult out; rfl
  | succ remaining ih =>
      intro i whereResult out
      rw [readColumnsInto, readColumns]
      simp only [map_bind]
      refine bind_congr fun valueSize => ?_
      refine bind_congr fun value => ?_
      refine bind_congr fun bad => ?_
      split
      · rfl
      · simp only [map_bind]
        refine bind_congr fun whereResult => ?_
        refine bind_congr fun projected => ?_
        exact ih _ _ _

/-- The head of a record that is not live says what else it is. -/
theorem readHead_bind_congr {γ : Type} {k k' : Head → StreamM γ}
    (same : ∀ head, head ≠ .done .live → k head = k' head) : readHead >>= k = readHead >>= k' := by
  rw [readHead]
  simp only [bind_assoc]
  refine bind_congr fun lengthBytes => ?_
  refine bind_congr fun bad => ?_
  split
  · rw [pure_bind, pure_bind, same _ (by rintro ⟨⟩)]
  · simp only [bind_assoc]
    refine bind_congr fun startOfType => ?_
    refine bind_congr fun recordType => ?_
    refine bind_congr fun bad => ?_
    split
    · rw [pure_bind, pure_bind, same _ (by rintro ⟨⟩)]
    · split
      · simp only [bind_assoc]
        refine bind_congr fun _ => ?_
        rw [pure_bind, pure_bind, same _ (by rintro ⟨⟩)]
      · rw [pure_bind, pure_bind, same _ (by rintro ⟨⟩)]

/-- Where the reader finds a live record, its values are in the buffer, whatever it held. -/
theorem deserializeNextRecordInto_live (env : Env) {γ : Type} (schema : Schema) (projectionMask : List Bool)
    (optWhere : Option WhereNode) (outRecord : Record) {f : Indicator × Record → γ}
    (unread : ∀ indicator record record', indicator ≠ .live → f (indicator, record) = f (indicator, record')) :
    f <$> deserializeNextRecordInto env schema projectionMask optWhere outRecord =
      f <$> deserializeNextRecord env schema projectionMask optWhere := by
  rw [deserializeNextRecordInto, deserializeNextRecord, map_bind, map_bind]
  refine readHead_bind_congr fun head notLive => ?_
  cases head with
  | done indicator =>
      have other : indicator ≠ .live := fun same => notLive (congrArg Head.done same)
      exact congrArg (pure : γ → StreamM γ) (unread _ _ _ other)
  | live recordLength startOfType recordType =>
      dsimp only
      simp only [map_bind, ← map_readColumnsInto, bind_map_left]
      refine bind_congr fun _ => ?_
      refine bind_congr fun read => ?_
      obtain ⟨whereResult, record⟩ := read
      cases whereResult with
      | none => exact congrArg (pure : γ → StreamM γ) (unread _ _ _ (by decide))
      | some b => rfl

/-- The scan with the buffer finds the rows of the scan without. -/
theorem map_selectSequentiallyInto (schema : Schema) (projectionMask : List Bool)
    (optWhere : Option WhereNode) (moved : Record → Record) (recordBuffer : Record) :
    Prod.fst <$> selectSequentiallyInto env schema projectionMask optWhere moved recordBuffer =
      selectSequentially env schema projectionMask optWhere := by
  rw [selectSequentiallyInto, selectSequentially, map_bind]
  refine bind_congr fun s => ?_
  refine map_repeatUntil Fault.diverges Prod.fst (fun scan => ?_) _ _
  let rows (read : Indicator × Record) : Bool × ResultSet :=
    (decide (read.1 = .endOfTable), if read.1 = .live then scan.1 ++ [read.2] else scan.1)
  have unread (indicator : Indicator) (record record' : Record) (other : indicator ≠ .live) :
      rows (indicator, record) = rows (indicator, record') := by
    simp only [rows, if_neg other]
  have read := deserializeNextRecordInto_live env schema projectionMask optWhere scan.2 unread
  refine Eq.trans ?_ read
  rw [map_bind]
  refine bind_congr fun r => ?_
  obtain ⟨indicator, record⟩ := r
  refine congrArg (pure : Bool × ResultSet → StreamM (Bool × ResultSet)) ?_
  by_cases live : indicator = .live
  · simp only [rows, if_pos live]
    rfl
  · simp only [rows, if_neg live]
    rfl

/-! `UPDATE` -/

/-- `deserializeNextRecordAndMarkAsTombstone` with its buffer. -/
def deserializeNextRecordAndMarkAsTombstoneInto (env : Env) (schema : Schema)
    (optWhere : Option WhereNode) (outRecord : Record) : StreamM (Indicator × Record) := do
  match ← readHead with
  | .done indicator => return (indicator, outRecord)
  | .live recordLength startOfType _ =>
      skipColumnOffsetRegion (columnsWithoutPk schema)
      match ← readColumnsInto env (fun _ => .ok true) optWhere schema.length 0 true [] with
      | (none, outRecord) => return (.ioError, outRecord)
      | (some whereResult, outRecord) =>
          markIfMatching startOfType recordLength (some (whereResult, outRecord))

/-- `updateRound` with the buffer; `moved` is what a buffer holds after it was moved out. -/
def updateRoundInto (env : Env) (node : UpdateNode) (schema : Schema) (moved : Record → Record)
    (scan : Stream × List Record × Record) : Exec (Bool × Stream × List Record × Record) := do
  let ((indicator, recordBuffer), stream) ← runTableStream node.tableName scan.1
    (deserializeNextRecordAndMarkAsTombstoneInto env schema node.optWhereNode scan.2.2)
  if indicator = .live then
    let count ← getDeleteCountForTable env node.tableName
    setDeleteCountForTable node.tableName (count + 1)
  if indicator = .ioError then handleFatalError env .unknownIoErrorDuringDeserialization
  return (decide (indicator = .endOfTable), stream,
    if indicator = .live then (scan.2.1 ++ [recordBuffer], moved recordBuffer)
    else (scan.2.1, recordBuffer))

def markOldRecordsInto (env : Env) (node : UpdateNode) (schema : Schema) (moved : Record → Record)
    (recordBuffer : Record) (stream : Stream) : Exec (List Record) := do
  let (_, oldRecords, _) ← repeatUntil .diverges (updateRoundInto env node schema moved)
    (scanRounds stream.content) (stream, [], recordBuffer)
  return oldRecords

theorem map_runTableStream {α β : Type} (g : α → β) (table : Bytes) (s : Stream) (op : StreamM α) :
    Prod.map g id <$> runTableStream table s op = runTableStream table s (g <$> op) := by
  funext w
  simp only [Functor.map, EStateM.map, runTableStream, EStateM.run]
  cases op s <;> rfl

theorem deserializeNextRecordAndMarkAsTombstoneInto_live (env : Env) {γ : Type} (schema : Schema)
    (optWhere : Option WhereNode) (outRecord : Record) {f : Indicator × Record → γ}
    (unread : ∀ indicator record record', indicator ≠ .live → f (indicator, record) = f (indicator, record')) :
    f <$> deserializeNextRecordAndMarkAsTombstoneInto env schema optWhere outRecord =
      f <$> deserializeNextRecordAndMarkAsTombstone env schema optWhere := by
  rw [deserializeNextRecordAndMarkAsTombstoneInto, deserializeNextRecordAndMarkAsTombstone, map_bind, map_bind]
  refine readHead_bind_congr fun head notLive => ?_
  cases head with
  | done indicator =>
      have other : indicator ≠ .live := fun same => notLive (congrArg Head.done same)
      exact congrArg (pure : γ → StreamM γ) (unread _ _ _ other)
  | live recordLength startOfType recordType =>
      dsimp only
      simp only [map_bind, ← map_readColumnsInto, bind_map_left]
      refine bind_congr fun _ => ?_
      refine bind_congr fun read => ?_
      obtain ⟨whereResult, record⟩ := read
      cases whereResult with
      | none => exact congrArg (pure : γ → StreamM γ) (unread _ _ _ (by decide))
      | some b => rfl

/-- What a round of the scan uses of a read: the record only where it is a live one. -/
private def usedOf (read : Indicator × Record) : Indicator × Record :=
  if read.1 = .live then read else (read.1, [])

private theorem usedOf_unread (indicator : Indicator) (record record' : Record) (other : indicator ≠ .live) :
    usedOf (indicator, record) = usedOf (indicator, record') := by
  simp only [usedOf, if_neg other]

/-- The scan with the buffer finds the old records of the scan without. -/
theorem markOldRecordsInto_eq (env : Env) (node : UpdateNode) (schema : Schema) (moved : Record → Record)
    (recordBuffer : Record) (stream : Stream) :
    markOldRecordsInto env node schema moved recordBuffer stream = markOldRecords env node schema stream := by
  let view (scan : Stream × List Record × Record) : Stream × List Record := (scan.1, scan.2.1)
  have round (scan : Stream × List Record × Record) :
      Prod.map id view <$> updateRoundInto env node schema moved scan =
        updateRound env node schema (view scan) := by
    let rest (read : (Indicator × Record) × Stream) : Exec (Bool × Stream × List Record) := do
      if read.1.1 = .live then
        let count ← getDeleteCountForTable env node.tableName
        setDeleteCountForTable node.tableName (count + 1)
      if read.1.1 = .ioError then handleFatalError env .unknownIoErrorDuringDeserialization
      return (decide (read.1.1 = .endOfTable), read.2,
        if read.1.1 = .live then scan.2.1 ++ [read.1.2] else scan.2.1)
    have used (read : (Indicator × Record) × Stream) : rest (Prod.map usedOf id read) = rest read := by
      obtain ⟨⟨indicator, record⟩, s⟩ := read
      by_cases live : indicator = .live
      · simp only [rest, Prod.map, usedOf, if_pos live]
        rfl
      · simp only [rest, Prod.map, usedOf, if_neg live]
        rfl
    have through (op : StreamM (Indicator × Record)) : runTableStream node.tableName scan.1 op >>= rest =
        runTableStream node.tableName scan.1 (usedOf <$> op) >>= rest := by
      rw [← map_runTableStream, bind_map_left]
      exact bind_congr fun read => (used read).symm
    have read := deserializeNextRecordAndMarkAsTombstoneInto_live env schema node.optWhereNode scan.2.2
      usedOf_unread
    have without : updateRound env node schema (view scan) =
        runTableStream node.tableName scan.1
          (deserializeNextRecordAndMarkAsTombstone env schema node.optWhereNode) >>= rest := rfl
    have within : Prod.map id view <$> updateRoundInto env node schema moved scan =
        runTableStream node.tableName scan.1
          (deserializeNextRecordAndMarkAsTombstoneInto env schema node.optWhereNode scan.2.2) >>= rest := by
      rw [updateRoundInto, map_bind]
      refine bind_congr fun read => ?_
      obtain ⟨⟨indicator, record⟩, s⟩ := read
      cases indicator <;>
        simp only [rest, view, reduceCtorEq, if_true, if_false, map_bind, map_pure, Prod.map, id]
    rw [within, without, through, read, ← through]
  have loop := map_repeatUntil Fault.diverges view round (scanRounds stream.content) (stream, [], recordBuffer)
  rw [markOldRecordsInto, markOldRecords, ← loop, bind_map_left]

end Jssql.FileHandler
