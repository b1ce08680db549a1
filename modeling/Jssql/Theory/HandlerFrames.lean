import Jssql.Theory.TableFrames

/-!
The handlers of `INSERT`, `IMPORT`, `SELECT`, `DELETE` and `UPDATE` keep what is
framed, whatever they are given and however they end.
-/
namespace Jssql.FileHandler
open Foundation Foundation.Stream ConditionEvaluator StrategyDecider

/-! Faults of the writer's computations -/

section Payload

variable {E : Fault → Prop} (allowed : ∀ e, LocalFault e → E e)
include allowed

theorem index_fails {α : Type} (xs : List α) (i : Nat) : Fails E (index xs i) := by
  unfold index
  split
  · exact .ofOk _
  · exact .ofError (allowed _ (.undefined (by decide)))

theorem getDefaultValue_fails (modifiers : List Bytes) : Fails E (getDefaultValue modifiers) := by
  induction modifiers with
  | nil => exact .ofOk _
  | cons modifier rest ih =>
      unfold getDefaultValue
      split
      · refine Fails.map ?_ _
        unfold substr
        split
        · exact .ofError (allowed _ (.exception (by decide)))
        · exact .ofOk _
      · exact ih

theorem finalLiteral_fails (col : UntypedColumnDefNode) (lit : Option LiteralNode) (given : Bool) :
    Fails E (finalLiteral col lit given) := by
  unfold finalLiteral
  split
  · exact getDefaultValue_fails allowed _
  · split
    · exact getDefaultValue_fails allowed _
    · exact .ofOk _

theorem at_fails {α : Type} (m : Map Bytes α) (k : Bytes) {key : AtKey} (other : key ≠ .tableName) :
    Fails E (m.at k key) := by
  intro e h
  rw [(Map.at_error h).1]
  exact allowed _ (.exception fun same => other (Exception.missingKey.inj same))

theorem payloadColumns_fails (colcodes : Map Bytes UInt8) (record : ValueRecordNode)
    (projectionMask : List Bool) (pkIdx : Nat) (cols : Schema) : ∀ i offset,
      Fails E (payloadColumns colcodes record projectionMask pkIdx i offset cols) := by
  induction cols with
  | nil => intro i offset; exact .ofOk _
  | cons col cols ih =>
      intro i offset
      unfold payloadColumns
      split
      · exact ih _ _
      · exact (index_fails allowed _ _).bind fun _ => (index_fails allowed _ _).bind fun _ =>
          (finalLiteral_fails allowed _ _ _).bind fun _ =>
          (at_fails allowed _ _ (by decide)).bind fun _ => (ih _ _).bind fun _ => .ofOk _

theorem recordPayload_fails (schema : Schema) (colcodes : Map Bytes UInt8) (record : ValueRecordNode)
    (projectionMask : List Bool) (type : RecordType) :
    Fails E (recordPayload schema colcodes record projectionMask type) := by
  have key : Fails E (primaryKeyIndex schema) := by
    unfold primaryKeyIndex
    dsimp only
    split
    · exact .ofOk _
    · exact .ofError (allowed _ .diverges)
  refine key.bind fun pkIdx => (index_fails allowed _ _).bind fun pkValue => ?_
  cases pkValue with
  | some node =>
      exact (payloadColumns_fails allowed _ _ _ _ _ _ _).bind fun _ =>
        (index_fails allowed _ _).bind fun _ => .ofOk _
  | none => exact .ofError (allowed _ (.undefined (by decide)))

theorem updatedRecord_fails (node : UpdateNode) (schema : Schema) (oldRecord : Record) :
    Fails E (updatedRecord node schema oldRecord) := by
  have values : ∀ remaining i, Fails E (updatedValues node oldRecord remaining i) := by
    intro remaining
    induction remaining with
    | zero => intro i; exact .ofOk _
    | succ remaining ih =>
        intro i
        unfold updatedValues
        have rest (value : Bytes) : Fails E (do
            let rest ← updatedValues node oldRecord remaining (i + 1)
            return some ⟨.string, value⟩ :: rest) := (ih _).bind fun _ => .ofOk _
        refine (index_fails allowed _ _).bind fun keep => ?_
        dsimp only
        split
        · refine Fails.bind ?_ rest
          unfold checkedIndex
          split
          · exact .ofOk _
          · exact .ofError (allowed _ (.exception (by decide)))
        · refine Fails.bind ?_ rest
          unfold Map.at
          split
          · exact .ofOk _
          · exact .ofError (allowed _ (.exception (by decide)))
  exact values _ _

end Payload

theorem catchException_keeps {P : World → Prop} {E : Fault → Prop} {p : Exec Unit}
    {handler : Exception → Exec Unit} (hp : Keeps P E p)
    (hh : ∀ e, Keeps P E (handler e)) : Keeps P E (catchException p handler) := by
  refine hp.ofTryCatch fun e allowed => ?_
  cases e with
  | exception e => exact hh e
  | exit | undefined | diverges => exact .ofThrow allowed

namespace Framed

variable {table : Bytes} {P : World → Prop} {E : Fault → Prop} (framed : Framed table P E)
include framed

/-! Compaction -/

theorem compactTable_keeps (env : Env) : Keeps P E (compactTable env table) := by
  have newFile : Keeps P E (createNewTableFile table) := by
    refine .ofModify fun w hw => ?_
    split
    · exact hw
    · exact framed.newFiles w _ (.insert table _ _) hw
  have replaced : Keeps P E (replaceTableFile table) := by
    refine .ofModify fun w hw => ?_
    split
    · exact framed.newFiles _ _ (.erase table _) (framed.tableFile hw _)
    · exact framed.files w _ (.erase table _) hw
  refine framed.ensureTableFileExists_keeps.bind fun _ => newFile.bind fun _ =>
    (openTableFile_keeps table).bind fun _ =>
    (runStream_keeps (framed.checkFileValidity_raises env true) _).bind fun _ => ?_
  refine .bindGet fun w hw => Keeps.bind (.ofLift fun e h => framed.schemaLookup hw h) fun schema => ?_
  refine Keeps.bind (.ofRepeatUntil (framed.reader .diverges) (fun s => ?_) _ _) fun _ => replaced
  refine (runStream_keeps (copyNextLiveRecord_raises env (fun _ => framed.reader) _) _).bind
    fun _ => ?_
  refine Keeps.bind (.ofModify fun w hw => framed.newFiles w _ (.insert table _ _) hw) fun _ => ?_
  refine .ofIte (fun _ => ?_) fun _ => .ofPure _
  exact (handleFatalError_raises env (framed.exitAllowed (by decide))).bind fun _ => .ofPure _

theorem calculateTombstoneRatio_keeps (env : Env) :
    Keeps P E (calculateTombstoneRatio env table) := by
  have count : Raises E (countRecords env) := by
    refine .bindGet fun s _ => .ofRepeatUntil (framed.reader .diverges) (fun counts => ?_) _ _
    refine deserializeNextRecordType_raises.bind fun _ => .ofIte (fun _ => ?_) fun _ => .ofPure _
    exact close_raises.bind fun _ =>
      (handleFatalError_raises env (framed.exitAllowed (by decide))).bind fun _ => .ofPure _
  refine framed.ensureTableFileExists_keeps.bind fun _ => (openTableFile_keeps table).bind
    fun _ => (runStream_keeps (framed.checkFileValidity_raises env true) _).bind fun _ => ?_
  exact .ofIte (fun _ => (runStream_keeps count _).bind fun _ => .ofPure _) fun _ => .ofPure _

theorem compactIfNecessary_keeps (env : Env) (primaryKeyColumn : Bytes) :
    Keeps P E (compactIfNecessary env table primaryKeyColumn) := by
  refine .bindGet fun w hw => ?_
  refine Keeps.bind (.ofLift fun e h => framed.indexLookup hw h) fun columns => ?_
  refine Keeps.bind (.ofLift fun e h => framed.columnLookup h) fun idx => ?_
  refine (framed.getDeleteCountForTable_keeps env).bind fun deleteCount =>
    .ofIte (fun _ => ?_) fun _ => .ofPure _
  refine (framed.calculateTombstoneRatio_keeps env).bind fun _ => .ofIte (fun _ => ?_) fun _ => .ofPure _
  exact (framed.compactTable_keeps env).bind fun _ => (framed.setDeleteCountForTable_keeps 0).bind
    fun _ => framed.recalculateIndicesForTable_keeps env

/-! INSERT and IMPORT -/

theorem writeRecord_keeps (type : RecordType) (p : RecordPayload) :
    Keeps P E (writeRecord table type p) := by
  refine (framed.appendToTableFile_keeps _).bind fun _ => ?_
  have rest : Keeps P E (do
      appendToTableFile table [p.record.recordType]
      appendToTableFile table p.record.columnRegion
      appendToTableFile table (encodeString p.record.pkLiteral)
      appendToTableFile table p.record.payload) :=
    (framed.appendToTableFile_keeps _).bind fun _ => (framed.appendToTableFile_keeps _).bind
      fun _ => (framed.appendToTableFile_keeps _).bind fun _ =>
      framed.appendToTableFile_keeps _
  refine .ofIte (fun _ => ?_) fun _ => rest
  refine Keeps.bind ?_ fun _ => (framed.upsertPrimaryKeyIndex_keeps _ _ _).bind fun _ => rest
  exact .bindGet fun _ _ => .ofPure _

theorem insertRecords_keeps (env : Env) (projectionMask : List Bool) (type : RecordType)
    (records : List ValueRecordNode) :
    Keeps P E (insertRecords env table projectionMask type records) := by
  induction records with
  | nil => exact .ofPure _
  | cons record records ih =>
      refine Keeps.bind (.bindGet fun w hw => ?_) fun _ => ih
      refine Keeps.bind (.ofLift fun e h => framed.schemaLookup hw h) fun schema => ?_
      refine Keeps.bind (.ofLift fun e h => framed.colcodesLookup hw h) fun colcodes => ?_
      refine Keeps.bind (.ofLift (recordPayload_fails (fun _ h => framed.fault _ h.not_lost)
        _ _ _ _ _)) fun payload => ?_
      exact catchException_keeps (framed.writeRecord_keeps type payload) fun _ =>
        handleFatalError_raises env (framed.exitAllowed (by decide))

theorem insertData_keeps (env : Env) {node : InsertNode} (of : node.tableName = table) :
    Keeps P E (insertData env node) := by
  subst of
  exact framed.ensureTableFileExists_keeps.bind fun _ => framed.insertRecords_keeps env _ _ _

theorem performCSVImport_keeps (env : Env) {node : CSVImportNode} (of : node.tableName = table) :
    Keeps P E (performCSVImport env node) := by
  subst of
  refine framed.ensureTableFileExists_keeps.bind fun _ => .bindGet fun w hw => ?_
  refine Keeps.bind (.ofLift fun e h => framed.schemaLookup hw h) fun schema => ?_
  have rest : Keeps P E (catchException (insertRecords env node.tableName
      (List.replicate schema.length true) .insert
      ((getlines ((w.disk.csvFiles.lookup (removeOuterQuotes node.filePath)).getD [])).map csvRecord))
      fun _ => handleFatalError env .csvImportUnknownException) :=
    catchException_keeps (framed.insertRecords_keeps env _ _ _) fun _ =>
      handleFatalError_raises env (framed.exitAllowed (by decide))
  refine .ofIte (fun _ => ?_) fun _ => rest
  exact (handleFatalError_raises env (framed.exitAllowed (by decide))).bind fun _ => rest

/-! SELECT -/

theorem selectData_keeps (env : Env) {node : SelectNode} (of : node.tableName = table) :
    Keeps P E (selectData env node) := by
  subst of
  refine framed.ensureTableFileExists_keeps.bind fun _ => (openTableFile_keeps _).bind fun stream =>
    .bindGet fun w hw => ?_
  refine Keeps.bind (.ofLift fun e h => framed.schemaLookup hw h) fun schema => ?_
  refine (runStream_keeps (framed.checkFileValidity_raises env true) _).bind fun _ =>
    .ofIte (fun _ => ?_) fun _ => .ofPure _
  refine Keeps.bind (.ofLift fun e h => framed.keyColumn h) fun primaryKeyColumn => ?_
  have scan (optWhere : Option WhereNode) (s : Stream) : Keeps P E (do
      let read ← runStream s (selectSequentially env schema node.projectionMask optWhere)
      return read.1 : Exec ResultSet) :=
    (runStream_keeps (selectSequentially_raises env (fun _ => framed.reader) _ _ _) _).bind
      fun _ => .ofPure _
  split
  · refine .ofIte (fun _ => ?_) fun _ => scan _ _
    refine Keeps.bind (.ofLift fun e h => framed.indexLookup hw h) fun columns => ?_
    refine Keeps.bind (.ofLift fun e h => framed.columnLookup h) fun idx => ?_
    refine Keeps.bind (.ofLift fun e h => framed.keyLookup h) fun offset => ?_
    exact (runStream_keeps (selectByIndexLookup_raises env (fun _ => framed.reader) _ _ _ _) _).bind
      fun _ => .ofPure _
  · exact scan _ _

/-! DELETE -/

theorem performSequentialDelete_raises (env : Env) {node : DeleteNode} (of : node.tableName = table)
    {w : World} (hw : P w) : Raises E (performSequentialDelete env node w.ctx) := by
  subst of
  have ends (start length : Nat) (isMatch : Bool) : Raises E (deleteIfMatching start length isMatch) := by
    cases isMatch with
    | true => exact (markAsTombstone_raises _ _).bind fun _ => .ofPure _
    | false => exact (seekBeg_raises _).bind fun _ => .ofPure _
  refine readHead_raises.bind fun head => ?_
  cases head with
  | done indicator => exact .ofPure _
  | live recordLength start type =>
      dsimp only
      split
      · exact ends _ _ _
      next cond _ =>
          have column (colcode : UInt8) (columns : Nat) :
              Raises E (comparedColumn env colcode columns start recordLength) := by
            have rest (offset : Nat) : Raises E (do
                let pkSize ← readSize env
                seekCur (streamOff pkSize)
                seekCur (streamOff offset)
                let literalSize ← readSize env
                let lhsLiteral ← readSized literalSize
                seekBeg start
                seekCur (streamOff recordLength)
                return lhsLiteral) :=
              (readSize_raises env).bind fun _ => (seekCur_raises _).bind fun _ =>
                (seekCur_raises _).bind fun _ => (readSize_raises env).bind fun _ =>
                (readSized_raises (fun _ => framed.reader) _).bind fun _ => (seekBeg_raises _).bind
                fun _ => (seekCur_raises _).bind fun _ => .ofPure _
            refine (findColumnOffset_raises env _ _ _).bind fun offset =>
              .ofIte (fun _ => ?_) fun _ => rest _
            exact close_raises.bind fun _ =>
              (handleFatalError_raises env (framed.exitAllowed (by decide))).bind fun _ => rest _
          have literal : Raises E
              (comparedLiteral env node.tableName cond.colName w.ctx start recordLength) := by
            refine Keeps.bind (.ofLift fun e h => framed.schemaLookup hw h) fun schema => ?_
            refine Keeps.bind (.ofLift fun e h => framed.keyColumn h) fun primaryKey => ?_
            refine .ofIte (fun _ => comparedKey_raises env (fun _ => framed.reader) _) fun _ => ?_
            refine Keeps.bind (.ofLift fun e h => framed.colcodesLookup hw h) fun colcodes => ?_
            exact Keeps.bind (.ofLift fun e h => framed.columnLookup h) fun colcode => column _ _
          refine literal.bind fun lhs => Keeps.bind (.ofLift fun e h => ?_) fun isMatch => ends _ _ _
          rw [evaluateComparator_error h]
          exact framed.reader .stod

theorem deleteMatching_keeps (env : Env) {node : DeleteNode} (of : node.tableName = table)
    (primaryKeyColumn : Bytes) (stream : Stream) :
    Keeps P E (deleteMatching env node primaryKeyColumn stream) := by
  subst of
  have counted (next : Nat → Nat) : Keeps P E (do
      let count ← getDeleteCountForTable env node.tableName
      setDeleteCountForTable node.tableName (next count)) :=
    (framed.getDeleteCountForTable_keeps env).bind fun _ => framed.setDeleteCountForTable_keeps _
  have scan : Keeps P E (do
      let _ ← repeatUntil .diverges (deleteRound env node) (scanRounds stream.content) stream
      recalculateIndicesForTable env node.tableName) := by
    refine Keeps.bind (.ofRepeatUntil (framed.reader .diverges) (fun s => ?_) _ _)
      fun _ => framed.recalculateIndicesForTable_keeps env
    refine .bindGet fun w hw => (framed.runTableStream_keeps
      (framed.performSequentialDelete_raises env rfl hw) _).bind fun r => ?_
    refine .ofIte (fun _ => ?_) fun _ => .ofPure _
    exact (framed.getDeleteCountForTable_keeps env).bind fun _ =>
      (framed.setDeleteCountForTable_keeps _).bind fun _ => .ofPure _
  unfold deleteMatching
  split
  next cond _ _ =>
      refine Keeps.bind (.bindGet fun w hw => ?_) fun _ => counted (1 + ·)
      refine Keeps.bind (.ofLift fun e h => framed.indexLookup hw h) fun columns => ?_
      refine Keeps.bind (.ofLift fun e h => framed.columnLookup h) fun idx => ?_
      refine Keeps.bind (.ofLift fun e h => framed.keyLookup h) fun offset => ?_
      refine (framed.runTableStream_keeps ((seekBeg_raises _).bind fun _ => write_raises _) _).bind
        fun _ => ?_
      exact (framed.eraseKeyFromIndex_keeps env _ _).bind fun _ => .ofPure _
  · exact scan

theorem deleteData_keeps (env : Env) {node : DeleteNode} (of : node.tableName = table) :
    Keeps P E (deleteData env node) := by
  subst of
  refine framed.ensureTableFileExists_keeps.bind fun _ => (openTableFile_keeps _).bind fun _ =>
    (runStream_keeps (framed.checkFileValidity_raises env false) _).bind fun _ =>
    .bindGet fun w hw => ?_
  refine Keeps.bind (.ofLift fun e h => framed.schemaLookup hw h) fun schema => ?_
  refine Keeps.bind (.ofLift fun e h => framed.keyColumn h) fun primaryKeyColumn => ?_
  refine .ofIte (fun _ => ?_) fun _ => framed.compactIfNecessary_keeps env _
  exact (framed.deleteMatching_keeps env rfl _ _).bind fun _ => framed.compactIfNecessary_keeps env _

/-! UPDATE -/

theorem markOldRecords_keeps (env : Env) {node : UpdateNode} (of : node.tableName = table)
    (schema : Schema) (stream : Stream) : Keeps P E (markOldRecords env node schema stream) := by
  subst of
  refine Keeps.bind (.ofRepeatUntil (framed.reader .diverges) (fun scan => ?_) _ _) fun _ => .ofPure _
  refine (framed.runTableStream_keeps (deserializeNextRecordAndMarkAsTombstone_raises env
    (fun _ => framed.reader) _ _) _).bind fun r => ?_
  have ends (finish : Bool × Stream × List Record) : Keeps P E (do
      if r.1.1 = .ioError then handleFatalError env .unknownIoErrorDuringDeserialization
      return finish : Exec _) :=
    .ofIte (fun _ => (handleFatalError_raises env (framed.exitAllowed (by decide))).bind
      fun _ => .ofPure _) fun _ => .ofPure _
  refine .ofIte (fun _ => ?_) fun _ => ends _
  exact (framed.getDeleteCountForTable_keeps env).bind fun _ =>
    (framed.setDeleteCountForTable_keeps _).bind fun _ => ends _

theorem updateData_keeps (env : Env) {node : UpdateNode} (of : node.tableName = table) :
    Keeps P E (updateData env node) := by
  subst of
  refine framed.ensureTableFileExists_keeps.bind fun _ => (openTableFile_keeps _).bind fun _ =>
    (runStream_keeps (framed.checkFileValidity_raises env false) _).bind fun _ =>
    .bindGet fun w hw => ?_
  refine Keeps.bind (.ofLift fun e h => framed.schemaLookup hw h) fun schema => ?_
  refine (framed.markOldRecords_keeps env rfl _ _).bind fun oldRecords => ?_
  refine Keeps.bind (.ofLift (.ofMapM fun _ => updatedRecord_fails (fun _ h => framed.fault _ h.not_lost) _ _ _)) fun _ => ?_
  refine (framed.insertRecords_keeps env _ _ _).bind fun _ =>
    (framed.recalculateIndicesForTable_keeps env).bind fun _ => ?_
  exact Keeps.bind (.ofLift fun e h => framed.keyColumn h) fun _ =>
    framed.compactIfNecessary_keeps env _

end Framed
end Jssql.FileHandler
