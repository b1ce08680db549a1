import Jssql.Theory.ReaderFaults
import Jssql.Theory.WorldRules
import Jssql.Interpreter.InterpreterVisitor

/-!
What the handlers of one table leave alone. A property of the state that neither
the disk nor the table's own entries in the maps can change is kept by every
handler but those of `CREATE` and `DROP`, also where the handler stops; and a
table that is in all maps is found in each of them.
-/
namespace Jssql.FileHandler
open Foundation Foundation.Stream ConditionEvaluator StrategyDecider SemanticNormalizer SemanticValidator

/-- The faults of a table that is missing in one of the context's maps. -/
inductive Lost : Fault → Prop where
  | counter : Lost (.exit .compactInternalTableNotFoundInDeleteCountMap)
  | iterator : Lost (.undefined .endIterator)
  | table : Lost (.exception (.missingKey .tableName))

/-- A fault that neither names a missing table nor comes from `handleFatalError`. -/
inductive LocalFault : Fault → Prop where
  | exception {e : Exception} (other : e ≠ .missingKey .tableName) : LocalFault (.exception e)
  | undefined {u : UndefinedBehaviour} (other : u ≠ .endIterator) : LocalFault (.undefined u)
  | diverges : LocalFault .diverges

/-- The table is in all four maps of the context. -/
structure InAllMaps (ctx : ExecutionContext) (table : Bytes) : Prop where
  schema : table ∈ ctx.untypedTables
  colcodes : table ∈ ctx.tableColcodes
  index : table ∈ ctx.indices
  counter : table ∈ ctx.deleteCounterPerTable

/-- The maps differ in the entry of the table at most. -/
def DifferAt (table : Bytes) (files files' : Map Bytes Bytes) : Prop :=
  ∀ x, x ≠ table → files'.lookup x = files.lookup x

theorem DifferAt.insert (table : Bytes) (files : Map Bytes Bytes) (content : Bytes) :
    DifferAt table files (files.insert table content) :=
  fun _ other => Finmap.lookup_insert_of_ne files other

theorem DifferAt.erase (table : Bytes) (files : Map Bytes Bytes) : DifferAt table files (files.erase table) :=
  fun _ other => Finmap.lookup_erase_ne other

/-- A property that files and a new index of the table cannot break, with the faults
that are allowed under it. -/
structure IndexFramed (table : Bytes) (P : World → Prop) (E : Fault → Prop) : Prop where
  files : ∀ w files, DifferAt table w.disk.tableFiles files → P w → P (w.setTableFiles files)
  newFiles : ∀ w files, DifferAt table w.disk.newTableFiles files → P w → P (w.setNewTableFiles files)
  index : ∀ w columns, P w → P (w.setIndices (w.ctx.indices.insert table columns))
  fault : ∀ e, ¬ Lost e → E e
  known : ∀ w e, P w → ¬ InAllMaps w.ctx table → E e

/-- A property that none of the table's handlers can break. -/
structure Framed (table : Bytes) (P : World → Prop) (E : Fault → Prop) : Prop
    extends IndexFramed table P E where
  counter : ∀ w count, P w → P (w.setCounters (w.ctx.deleteCounterPerTable.insert table count))

theorem LocalFault.not_lost {e : Fault} (h : LocalFault e) : ¬ Lost e := by
  intro lost
  cases h with
  | exception other => cases lost; exact other rfl
  | undefined other => cases lost; exact other rfl
  | diverges => cases lost

theorem ReaderFault.not_lost {e : Fault} (h : ReaderFault e) : ¬ Lost e := by
  intro lost
  cases h <;> cases lost

theorem Map.at_error {κ α : Type} [DecidableEq κ] {m : Map κ α} {k : κ} {key : AtKey} {e : Fault}
    (h : m.at k key = .error e) : e = .exception (.missingKey key) ∧ k ∉ m := by
  unfold Map.at at h
  cases hl : m.lookup k with
  | some a => rw [hl] at h; cases h
  | none =>
      rw [hl] at h
      cases h
      exact ⟨rfl, Finmap.lookup_eq_none.mp hl⟩

theorem extractPrimaryKeyColumn_fault {schema : Schema} {e : Fault}
    (h : extractPrimaryKeyColumn schema = .error e) : e = .undefined .missingReturn := by
  induction schema with
  | nil => cases h; rfl
  | cons col rest ih =>
      unfold extractPrimaryKeyColumn at h
      split at h
      · cases h
      · exact ih h

theorem openTableFile_keeps {P : World → Prop} {E : Fault → Prop} (t : Bytes) :
    Keeps P E (openTableFile t) := by
  refine .bindGet fun w _ => ?_
  split <;> exact .ofPure _

theorem runStream_keeps {P : World → Prop} {E : Fault → Prop} {α : Type} {op : StreamM α}
    (raises : Raises E op) (s : Stream) : Keeps P E (runStream s op) := by
  intro w hw
  cases hr : op.run s with
  | ok a s' =>
      rw [runStream_ok hr]
      exact hw
  | error e s' =>
      rw [runStream_error hr]
      exact ⟨hw, raises.fault trivial hr⟩

/-- What `initializePrimaryKeyIndicesForTable` does behind the entry in the map. -/
def loadIndex (env : Env) (table : Bytes) : Exec Unit := do
  let stream ← openTableFile table
  if stream.isOpen then
    let (_, stream) ← runStream stream (checkFileValidity env true)
    let w ← get
    let schema ← lift (w.ctx.untypedTables.at table .tableName)
    let pkColName ← lift (extractPrimaryKeyColumn schema)
    let columns ← lift (w.ctx.indices.at table .tableName)
    let (idx, _) ← runStream stream (extractPrimaryKeysIndex (columnsWithoutPk schema))
    set (w.setIndices (w.ctx.indices.insert table
      (if pkColName ∈ columns then columns else columns.insert pkColName idx)))

theorem recalculateIndicesForTable_eq (env : Env) (table : Bytes) :
    recalculateIndicesForTable env table = (do
      modify fun w => w.setIndices (w.ctx.indices.erase table)
      ensureTableFileExists table
      modify fun w => if table ∈ w.ctx.indices then w
        else w.setIndices (w.ctx.indices.insert table ∅)
      loadIndex env table) := rfl

namespace IndexFramed

variable {table : Bytes} {P : World → Prop} {E : Fault → Prop} (framed : IndexFramed table P E)
include framed

/-! Look-ups -/

theorem reader {e : Fault} (h : ReaderFault e) : E e := framed.fault e h.not_lost

theorem columnLookup {α : Type} {m : Map Bytes α} {name : Bytes} {e : Fault}
    (h : m.at name .columnName = .error e) : E e := by
  rw [(Map.at_error h).1]
  exact framed.fault _ fun lost => by cases lost

theorem keyLookup {α : Type} {m : Map Bytes α} {key : Bytes} {e : Fault}
    (h : m.at key .keyValue = .error e) : E e := by
  rw [(Map.at_error h).1]
  exact framed.fault _ fun lost => by cases lost

theorem keyColumn {schema : Schema} {e : Fault} (h : extractPrimaryKeyColumn schema = .error e) :
    E e := by
  rw [extractPrimaryKeyColumn_fault h]
  exact framed.fault _ fun lost => by cases lost

section Lookups

variable {w : World} (hw : P w) {e : Fault}
include hw

theorem schemaLookup (h : w.ctx.untypedTables.at table .tableName = .error e) : E e :=
  framed.known w e hw fun known => (Map.at_error h).2 known.schema

theorem colcodesLookup (h : w.ctx.tableColcodes.at table .tableName = .error e) : E e :=
  framed.known w e hw fun known => (Map.at_error h).2 known.colcodes

theorem indexLookup (h : w.ctx.indices.at table .tableName = .error e) : E e :=
  framed.known w e hw fun known => (Map.at_error h).2 known.index

end Lookups

/-! Parts of the handlers -/

theorem exitAllowed {code : FatalErrorCode}
    (other : code ≠ .compactInternalTableNotFoundInDeleteCountMap) : E (.exit code) :=
  framed.fault _ fun lost => by cases lost; exact other rfl

theorem tableFile {w : World} (hw : P w) (content : Bytes) : P (w.setTableFile table content) :=
  framed.files w _ (.insert table _ content) hw

theorem ensureTableFileExists_keeps : Keeps P E (ensureTableFileExists table) := by
  refine .ofModify fun w hw => ?_
  split
  · exact hw
  · exact framed.tableFile hw _

theorem appendToTableFile_keeps (bytes : Bytes) : Keeps P E (appendToTableFile table bytes) :=
  .ofModify fun _ hw => framed.tableFile hw _

theorem runTableStream_keeps {α : Type} {op : StreamM α} (raises : Raises E op) (s : Stream) :
    Keeps P E (runTableStream table s op) := by
  intro w hw
  rw [runTableStream_outcome]
  cases hr : op.run s with
  | ok a s' => exact framed.tableFile hw _
  | error e s' => exact ⟨framed.tableFile hw _, raises.fault trivial hr⟩

theorem checkFileValidity_raises (env : Env) (closes : Bool) :
    Raises E (checkFileValidity env closes) := by
  refine (readUnchecked_raises env 32).bind fun _ => .ofIte (fun _ => ?_) fun _ => .ofPure _
  refine .ofIte (fun _ => close_raises.bind fun _ => ?_) fun _ => ?_ <;>
    exact handleFatalError_raises env (framed.exitAllowed (by decide))

theorem upsertPrimaryKeyIndex_keeps (pkColName pkLiteral : Bytes) (offset : Nat) :
    Keeps P E (upsertPrimaryKeyIndex table pkColName pkLiteral offset) := by
  refine .bindGet fun w hw => ?_
  refine Keeps.bind (.ofLift fun e h => framed.indexLookup hw h) fun columns => ?_
  refine Keeps.bind (.ofLift fun e h => framed.columnLookup h) fun idx => ?_
  exact .ofSet (framed.index w _ hw)

theorem eraseKeyFromIndex_keeps (env : Env) (colName keyValue : Bytes) :
    Keeps P E (eraseKeyFromIndex env table colName keyValue) := by
  refine .bindGet fun w hw => ?_
  refine Keeps.bind (.ofLift fun e h => framed.indexLookup hw h) fun columns => ?_
  refine Keeps.bind (.ofLift fun e h => framed.columnLookup h) fun idx => ?_
  refine Keeps.bind (.ofLift fun e h => framed.keyLookup h) fun offset => ?_
  exact .ofIte (fun _ => .ofSet (framed.index w _ hw))
    fun _ => handleFatalError_raises env (framed.exitAllowed (by decide))

/-! The index -/

/-- The index is taken out and an empty one put in before anything can fail. -/
theorem recalculateIndicesForTable_keeps (env : Env) :
    Keeps P E (recalculateIndicesForTable env table) := by
  intro w hw
  -- what holds between the two: the property is back once an index is put in
  let pending := fun w : World =>
    table ∉ w.ctx.indices ∧ P (w.setIndices (w.ctx.indices.insert table ∅))
  have erased : pending (w.setIndices (w.ctx.indices.erase table)) := by
    refine ⟨Finmap.notMem_erase_self, ?_⟩
    have inserted := framed.index w ∅ hw
    rw [← insert_erase w.ctx.indices table ∅] at inserted
    exact inserted
  have ensure : Keeps pending E (ensureTableFileExists table) := by
    refine .ofModify fun w hw => ?_
    split
    · exact hw
    · exact ⟨hw.1, framed.tableFile hw.2 tableFileHeader⟩
  have load : Keeps P E (loadIndex env table) := by
    refine (openTableFile_keeps table).bind fun stream => .ofIte (fun _ => ?_) fun _ => .ofPure _
    refine (runStream_keeps (framed.checkFileValidity_raises env true) _).bind fun _ => ?_
    refine .bindGet fun w hw => ?_
    refine Keeps.bind (.ofLift fun e h => framed.schemaLookup hw h) fun schema => ?_
    refine Keeps.bind (.ofLift fun e h => framed.keyColumn h) fun pkColName => ?_
    refine Keeps.bind (.ofLift fun e h => framed.indexLookup hw h) fun columns => ?_
    refine (runStream_keeps (extractPrimaryKeysIndex_raises (fun _ => framed.reader) _) _).bind
      fun _ => ?_
    exact .ofSet (framed.index w _ hw)
  rw [recalculateIndicesForTable_eq, run_bind_ok (run_modify _ _)]
  cases hr : (ensureTableFileExists table).run (w.setIndices (w.ctx.indices.erase table)) with
  | error e w' => cases hr
  | ok _ w' =>
      have ready := ensure.ok erased hr
      rw [run_bind_ok hr, run_bind_ok (run_modify _ _), if_neg ready.1]
      exact load _ ready.2

end IndexFramed

namespace Framed

variable {table : Bytes} {P : World → Prop} {E : Fault → Prop} (framed : Framed table P E)
include framed

theorem anyFault : Framed table P fun _ => True :=
  { framed with fault := fun _ _ => trivial, known := fun _ _ _ _ => trivial }

theorem getDeleteCountForTable_keeps (env : Env) : Keeps P E (getDeleteCountForTable env table) := by
  refine .bindGet fun w hw => ?_
  split
  · exact .ofPure _
  next missing =>
    have lost (e : Fault) : E e := framed.known w e hw fun known =>
      Finmap.lookup_eq_none.mp missing known.counter
    exact (handleFatalError_raises env (lost _)).bind fun _ => .ofThrow (lost _)

theorem setDeleteCountForTable_keeps (count : Nat) :
    Keeps P E (setDeleteCountForTable table count) :=
  .ofModify fun w hw => framed.counter w count hw

end Framed
end Jssql.FileHandler
