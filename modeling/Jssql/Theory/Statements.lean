import Jssql.Theory.HandlerFrames
import Jssql.Theory.UpdateRuns

/-!
What one statement does to the state. Either nothing, because the normalizer or
the validator rejects it or throws, or it is executed: then its handler runs on
the normalized node. Only `CREATE` and `DROP` change the set of tables, and what
they change of the context is computed here; the other handlers are framed.
-/
namespace Jssql
open Foundation

def Statement.tableName : Statement → Bytes
  | .create node => node.tableName
  | .drop node => node.tableName
  | .describe node => node.tableName
  | .insert node => node.tableName
  | .select node => node.tableName
  | .csvImport node => node.tableName
  | .delete node => node.tableName
  | .update node => node.tableName

/-- The statement is neither a `CREATE` nor a `DROP`. -/
def Statement.KeepsTables : Statement → Prop
  | .create _ | .drop _ => False
  | _ => True

namespace InterpreterVisitor
open FileHandler SemanticNormalizer SemanticValidator

/-- The statement is accepted in the state, and its handler is the program. -/
inductive Executes (env : Env) (w : World) : Statement → Exec Response → Prop where
  | create (node : CreateUntypedTableNode) : Executes env w (.create node) (visitCreate env node)
  | drop {node : DropTableNode} (known : node.tableName ∈ w.ctx.untypedTables) :
      Executes env w (.drop node) (do dropTable env node; return {})
  | insert {node node' : InsertNode}
      (normalized : normalizeInsert node w.ctx.untypedTables = (node', .normalized))
      (valid : validateInsertSemantics node' w.ctx = .ok none) :
      Executes env w (.insert node) (do insertData env node'; return {})
  | select {node node' : SelectNode}
      (normalized : normalizeSelect node w.ctx.untypedTables = (node', true))
      (valid : validateSelectSemantics node' w.ctx = .ok none) :
      Executes env w (.select node) (do
        let results ← selectData env node'
        return { rows := some results })
  | csvImport (node : CSVImportNode) : Executes env w (.csvImport node) (visitCsvImport env node)
  | delete {node node' : DeleteNode}
      (normalized : normalizeDelete node w.ctx.untypedTables = (node', true))
      (valid : validateDeleteSemantics node' w.ctx = .ok none) :
      Executes env w (.delete node) (do deleteData env node'; return {})
  | update {node node' : UpdateNode}
      (normalized : normalizeUpdate node w.ctx.untypedTables = .ok (node', true))
      (valid : validateUpdateSemantics node' w.ctx = .ok none) :
      Executes env w (.update node) (do updateData env node'; return {})

/-- The normalized statement, where the normalizer and the validator accept it. -/
def checked (ctx : ExecutionContext) : Statement → Except Fault (Option Statement)
  | .create node => .ok (if node.tableName ∈ ctx.untypedTables then none else some (.create node))
  | .csvImport node => .ok (some (.csvImport node))
  | .drop node => .ok (if validateDropSemantics node ctx = none then some (.drop node) else none)
  | .describe node => .ok (if validateDescribeSemantics node ctx = none then some (.describe node) else none)
  | .insert node => do
      let (node', normalization) := normalizeInsert node ctx.untypedTables
      let verdict ← validateInsertSemantics node' ctx
      return if verdict = none ∧ normalization = .normalized then some (.insert node') else none
  | .select node => do
      let (node', ok) := normalizeSelect node ctx.untypedTables
      let verdict ← validateSelectSemantics node' ctx
      return if verdict = none ∧ ok = true then some (.select node') else none
  | .delete node => do
      let (node', ok) := normalizeDelete node ctx.untypedTables
      let verdict ← validateDeleteSemantics node' ctx
      return if verdict = none ∧ ok = true then some (.delete node') else none
  | .update node => do
      let (node', ok) ← normalizeUpdate node ctx.untypedTables
      let verdict ← validateUpdateSemantics node' ctx
      return if verdict = none ∧ ok = true then some (.update node') else none

/-- What runs for a statement that was accepted. -/
def handler (env : Env) : Statement → Exec Response
  | .create node => visitCreate env node
  | .csvImport node => visitCsvImport env node
  | .drop node => do dropTable env node; return {}
  | .describe _ => return {}
  | .insert node => do insertData env node; return {}
  | .select node => do
      let results ← selectData env node
      return { rows := some results }
  | .delete node => do deleteData env node; return {}
  | .update node => do updateData env node; return {}

section Checked

variable {ctx : ExecutionContext} {stmt' : Statement}

theorem checked_create {node : CreateUntypedTableNode} : checked ctx (.create node) = .ok (some stmt') ↔
    node.tableName ∉ ctx.untypedTables ∧ stmt' = .create node := by
  rw [checked]
  split <;> simp [*, eq_comm]

theorem checked_drop {node : DropTableNode} : checked ctx (.drop node) = .ok (some stmt') ↔
    node.tableName ∈ ctx.untypedTables ∧ stmt' = .drop node := by
  rw [checked, validateDropSemantics, checkIfTableExists]
  split <;> simp [*, accepted, eq_comm]

theorem checked_describe {node : DescribeNode} : checked ctx (.describe node) = .ok (some stmt') ↔
    node.tableName ∈ ctx.untypedTables ∧ stmt' = .describe node := by
  rw [checked, validateDescribeSemantics, checkIfTableExists]
  split <;> simp [*, accepted, eq_comm]

theorem checked_insert {node : InsertNode} : checked ctx (.insert node) = .ok (some stmt') ↔ ∃ node',
    stmt' = .insert node' ∧ normalizeInsert node ctx.untypedTables = (node', .normalized) ∧
      validateInsertSemantics node' ctx = .ok none := by
  rw [checked]
  obtain ⟨node', normalization⟩ := normalizeInsert node ctx.untypedTables
  cases valid : validateInsertSemantics node' ctx with
  | error e => simp +contextual [valid]
  | ok verdict => cases verdict <;> cases normalization <;> simp +contextual [valid, eq_comm]

theorem checked_select {node : SelectNode} : checked ctx (.select node) = .ok (some stmt') ↔ ∃ node',
    stmt' = .select node' ∧ normalizeSelect node ctx.untypedTables = (node', true) ∧
      validateSelectSemantics node' ctx = .ok none := by
  rw [checked]
  obtain ⟨node', ok⟩ := normalizeSelect node ctx.untypedTables
  cases valid : validateSelectSemantics node' ctx with
  | error e => simp +contextual [valid]
  | ok verdict => cases verdict <;> cases ok <;> simp +contextual [valid, eq_comm]

theorem checked_delete {node : DeleteNode} : checked ctx (.delete node) = .ok (some stmt') ↔ ∃ node',
    stmt' = .delete node' ∧ normalizeDelete node ctx.untypedTables = (node', true) ∧
      validateDeleteSemantics node' ctx = .ok none := by
  rw [checked]
  obtain ⟨node', ok⟩ := normalizeDelete node ctx.untypedTables
  cases valid : validateDeleteSemantics node' ctx with
  | error e => simp +contextual [valid]
  | ok verdict => cases verdict <;> cases ok <;> simp +contextual [valid, eq_comm]

theorem checked_update {node : UpdateNode} : checked ctx (.update node) = .ok (some stmt') ↔ ∃ node',
    stmt' = .update node' ∧ normalizeUpdate node ctx.untypedTables = .ok (node', true) ∧
      validateUpdateSemantics node' ctx = .ok none := by
  rw [checked]
  cases normalized : normalizeUpdate node ctx.untypedTables with
  | error e => simp +contextual
  | ok r =>
      obtain ⟨node', ok⟩ := r
      rw [ok_bind]
      dsimp only
      cases valid : validateUpdateSemantics node' ctx with
      | error e => simp +contextual [valid]
      | ok verdict => cases verdict <;> cases ok <;> simp +contextual [valid, eq_comm]

end Checked

/-- A statement that is not accepted is reported or throws, and changes nothing. -/
theorem visit_checked (env : Env) (stmt : Statement) (w : World) :
    match checked w.ctx stmt with
    | .error e => (visit env stmt).run w = .error e w
    | .ok none => ∃ r : Response, r.reports ≠ [] ∧ (visit env stmt).run w = .ok r w
    | .ok (some stmt') => (visit env stmt).run w = (handler env stmt').run w := by
  cases stmt with
  | csvImport node => rfl
  | create node =>
      rw [checked]
      by_cases known : node.tableName ∈ w.ctx.untypedTables
      · rw [if_pos known]
        refine ⟨{ reports := [⟨.createTableAlreadyExists, [node.tableName]⟩] }, List.cons_ne_nil _ _, ?_⟩
        rw [visit, visitCreate, createUntypedTable, bind_assoc, run_bind_ok (run_get w), if_pos known]
        rfl
      · rw [if_neg known]
        rfl
  | drop node =>
      rw [checked, visit, visitDrop, run_bind_ok (run_get w)]
      cases validateDropSemantics node w.ctx with
      | none => rfl
      | some report => exact ⟨_, List.cons_ne_nil _ _, rfl⟩
  | describe node =>
      rw [checked, visit, visitDescribe, run_bind_ok (run_get w)]
      cases validateDescribeSemantics node w.ctx with
      | none => rfl
      | some report => exact ⟨_, List.cons_ne_nil _ _, rfl⟩
  | insert node =>
      rw [checked, visit, visitInsert, run_bind_ok (run_get w)]
      dsimp only
      generalize normalizeInsert node w.ctx.untypedTables = r
      obtain ⟨node', normalization⟩ := r
      dsimp only
      cases validateInsertSemantics node' w.ctx with
      | error e => rfl
      | ok verdict =>
          rw [run_bind_ok (run_lift_ok _ w)]
          cases normalization with
          | normalized =>
              cases verdict with
              | none => rfl
              | some report => exact ⟨_, List.cons_ne_nil _ _, rfl⟩
          | rejected printed =>
              cases printed <;> cases verdict <;> exact ⟨_, List.cons_ne_nil _ _, rfl⟩
  | select node =>
      rw [checked, visit, visitSelect, run_bind_ok (run_get w)]
      dsimp only
      generalize normalizeSelect node w.ctx.untypedTables = r
      obtain ⟨node', ok⟩ := r
      dsimp only
      cases validateSelectSemantics node' w.ctx with
      | error e => rfl
      | ok verdict =>
          rw [run_bind_ok (run_lift_ok _ w)]
          cases verdict with
          | some report => exact ⟨_, List.cons_ne_nil _ _, rfl⟩
          | none =>
              cases ok with
              | true => rfl
              | false => exact ⟨_, List.cons_ne_nil _ _, rfl⟩
  | delete node =>
      rw [checked, visit, visitDelete, run_bind_ok (run_get w)]
      dsimp only
      generalize normalizeDelete node w.ctx.untypedTables = r
      obtain ⟨node', ok⟩ := r
      dsimp only
      cases validateDeleteSemantics node' w.ctx with
      | error e => rfl
      | ok verdict =>
          rw [run_bind_ok (run_lift_ok _ w)]
          cases verdict with
          | some report => exact ⟨_, List.cons_ne_nil _ _, rfl⟩
          | none =>
              cases ok with
              | true => rfl
              | false => exact ⟨_, List.cons_ne_nil _ _, rfl⟩
  | update node =>
      rw [checked, visit, visitUpdate, run_bind_ok (run_get w)]
      dsimp only
      cases normalizeUpdate node w.ctx.untypedTables with
      | error e => rfl
      | ok r =>
          obtain ⟨node', ok⟩ := r
          rw [ok_bind, run_bind_ok (run_lift_ok _ w)]
          dsimp only
          cases validateUpdateSemantics node' w.ctx with
          | error e => rfl
          | ok verdict =>
              rw [run_bind_ok (run_lift_ok _ w)]
              cases verdict with
              | some report => exact ⟨_, List.cons_ne_nil _ _, rfl⟩
              | none =>
                  cases ok with
                  | true => rfl
                  | false => exact ⟨_, List.cons_ne_nil _ _, rfl⟩

/-- A statement is not executed and changes nothing, or it runs its handler. -/
theorem visit_cases (env : Env) (stmt : Statement) (w : World) :
    (∃ x : Except Fault Response, (visit env stmt).run w = (lift x).run w) ∨
      ∃ handler, Executes env w stmt handler ∧ (visit env stmt).run w = handler.run w := by
  have run := visit_checked env stmt w
  cases check : checked w.ctx stmt with
  | error e =>
      rw [check] at run
      exact .inl ⟨.error e, run⟩
  | ok accepted =>
      rw [check] at run
      cases accepted with
      | none =>
          obtain ⟨r, -, run⟩ := run
          exact .inl ⟨.ok r, run⟩
      | some stmt' =>
          cases stmt with
          | create node => exact .inr ⟨_, .create node, rfl⟩
          | csvImport node => exact .inr ⟨_, .csvImport node, rfl⟩
          | drop node =>
              obtain ⟨known, rfl⟩ := checked_drop.mp check
              exact .inr ⟨_, .drop known, run⟩
          | describe node =>
              obtain ⟨-, rfl⟩ := checked_describe.mp check
              exact .inl ⟨.ok {}, run⟩
          | insert node =>
              obtain ⟨node', rfl, normalized, valid⟩ := checked_insert.mp check
              exact .inr ⟨_, .insert normalized valid, run⟩
          | select node =>
              obtain ⟨node', rfl, normalized, valid⟩ := checked_select.mp check
              exact .inr ⟨_, .select normalized valid, run⟩
          | delete node =>
              obtain ⟨node', rfl, normalized, valid⟩ := checked_delete.mp check
              exact .inr ⟨_, .delete normalized valid, run⟩
          | update node =>
              obtain ⟨node', rfl, normalized, valid⟩ := checked_update.mp check
              exact .inr ⟨_, .update normalized valid, run⟩

/-! Steps -/

section Step

variable {env : Env} {stmt : Statement} {w w' : World}

/-- A statement that lets the process go on ends normally or with an exception. -/
theorem visit_of_ending {ending : Ending} (run : (parseAndExecute env stmt).run w = .ok ending w') :
    (∃ r, ending = .completed r ∧ (visit env stmt).run w = .ok r w') ∨
      ∃ e, ending = .caught e ∧ (visit env stmt).run w = .error (.exception e) w' := by
  rw [parseAndExecute, catchException_run] at run
  cases visited : (visit env stmt).run w with
  | ok r v =>
      rw [run_bind_ok visited] at run
      cases run
      exact .inl ⟨r, rfl, rfl⟩
  | error fault v =>
      rw [run_bind_error visited] at run
      cases fault with
      | exception e =>
          cases run
          exact .inr ⟨e, rfl, rfl⟩
      | exit | undefined | diverges => cases run

theorem Step.visit_run (step : Step env stmt w w') :
    (∃ r, (visit env stmt).run w = .ok r w') ∨
      ∃ e, (visit env stmt).run w = .error (.exception e) w' := by
  obtain ⟨ending, run⟩ := step
  rcases visit_of_ending run with ⟨r, -, run⟩ | ⟨e, -, run⟩
  · exact .inl ⟨r, run⟩
  · exact .inr ⟨e, run⟩

theorem Step.final (step : Step env stmt w w') : finalState ((visit env stmt).run w) = w' := by
  rcases step.visit_run with ⟨r, run⟩ | ⟨e, run⟩ <;> rw [run] <;> rfl

/-- A step changes nothing, or it is the run of a handler. -/
theorem Step.cases (step : Step env stmt w w') :
    w' = w ∨ ∃ handler, Executes env w stmt handler ∧
      ((∃ r, handler.run w = .ok r w') ∨ ∃ e, handler.run w = .error (.exception e) w') := by
  rcases visit_cases env stmt w with ⟨x, idle⟩ | ⟨handler, executes, same⟩
  · refine .inl ?_
    rw [← step.final, idle]
    cases x <;> rfl
  · refine .inr ⟨handler, executes, ?_⟩
    rw [← same]
    exact step.visit_run

end Step

/-! Statements that keep the tables -/

theorem normalizeInsert_tableName {node node' : InsertNode} {tables : Map Bytes Schema}
    {r : Normalization} (h : normalizeInsert node tables = (node', r)) :
    node'.tableName = node.tableName := by
  unfold normalizeInsert at h
  split at h
  · cases h; rfl
  · dsimp only at h
    split at h
    · cases h; rfl
    · split at h <;> · cases h; rfl

theorem normalizeSelect_tableName {node node' : SelectNode} {tables : Map Bytes Schema} {ok : Bool}
    (h : normalizeSelect node tables = (node', ok)) : node'.tableName = node.tableName := by
  unfold normalizeSelect at h
  split at h
  · cases h; rfl
  · dsimp only at h
    split at h <;> · cases h; rfl

theorem normalizeDelete_tableName {node node' : DeleteNode} {tables : Map Bytes Schema} {ok : Bool}
    (h : normalizeDelete node tables = (node', ok)) : node'.tableName = node.tableName := by
  unfold normalizeDelete at h
  split at h
  · cases h; rfl
  · split at h <;> · cases h; rfl

theorem normalizeUpdate_tableName {node node' : UpdateNode} {tables : Map Bytes Schema} {ok : Bool}
    (h : normalizeUpdate node tables = .ok (node', ok)) : node'.tableName = node.tableName := by
  unfold normalizeUpdate at h
  split at h
  · cases h
    rfl
  next schema _ =>
    cases key : extractPrimaryKeyColumn schema with
    | error e =>
        rw [key] at h
        cases h
    | ok primaryKeyCol =>
        rw [key, ok_bind] at h
        split at h
        · cases h
          rfl
        · dsimp only at h
          split at h <;> · cases h; rfl

section Framed

variable {env : Env} {stmt : Statement} {w w' : World} {P : World → Prop} {E : Fault → Prop}
  {handler : Exec Response}

theorem Executes.keeps (executes : Executes env w stmt handler) (other : stmt.KeepsTables)
    (framed : Framed stmt.tableName P E) : Keeps P E handler := by
  cases executes with
  | create | drop => exact other.elim
  | csvImport node => exact (framed.performCSVImport_keeps env rfl).bind fun _ => .ofPure _
  | insert normalized =>
      exact (framed.insertData_keeps env (normalizeInsert_tableName normalized)).bind fun _ => .ofPure _
  | select normalized =>
      exact (framed.selectData_keeps env (normalizeSelect_tableName normalized)).bind fun _ => .ofPure _
  | delete normalized =>
      exact (framed.deleteData_keeps env (normalizeDelete_tableName normalized)).bind fun _ => .ofPure _
  | update normalized =>
      exact (framed.updateData_keeps env (normalizeUpdate_tableName normalized)).bind fun _ => .ofPure _

/-- A framed property holds after the statement. -/
theorem Step.keeps (step : Step env stmt w w') (other : stmt.KeepsTables)
    (framed : Framed stmt.tableName P fun _ => True) (hw : P w) : P w' := by
  rcases step.cases with rfl | ⟨handler, executes, ⟨_, run⟩ | ⟨_, run⟩⟩
  · exact hw
  · exact (executes.keeps other framed).ok hw run
  · have final := (executes.keeps other framed).final hw
    rw [run] at final
    exact final

/-- The import of a table that is not known stops at the schema. -/
theorem performCSVImport_unknown (env : Env) {node : CSVImportNode}
    (unknown : node.tableName ∉ w.ctx.untypedTables) :
    ∃ e v, (performCSVImport env node).run w = .error e v ∧ v.ctx = w.ctx := by
  obtain ⟨v, ensured, same⟩ := ensureTableFileExists_ctx w node.tableName
  have absent : v.ctx.untypedTables.at node.tableName .tableName =
      .error (.exception (.missingKey .tableName)) := by
    rw [Map.at, same, Finmap.lookup_eq_none.mpr unknown]
  refine ⟨.exception (.missingKey .tableName), v, ?_, same⟩
  rw [performCSVImport, run_bind_ok ensured, run_bind_ok (run_get v), absent]
  exact run_bind_error (run_lift_error _ v) _

/-- Every other handler runs only for a table that is known. -/
theorem Executes.known (executes : Executes env w stmt handler) (other : stmt.KeepsTables)
    (unknown : stmt.tableName ∉ w.ctx.untypedTables) : ∃ node, stmt = .csvImport node := by
  have absent := Finmap.lookup_eq_none.mpr unknown
  cases executes with
  | create | drop => exact other.elim
  | csvImport node => exact ⟨node, rfl⟩
  | @insert node node' normalized =>
      simp only [normalizeInsert, show w.ctx.untypedTables.lookup node.tableName = none from absent]
        at normalized
      cases normalized
  | @select node node' normalized =>
      simp only [normalizeSelect, show w.ctx.untypedTables.lookup node.tableName = none from absent]
        at normalized
      cases normalized
  | @delete node node' normalized =>
      simp only [normalizeDelete, show w.ctx.untypedTables.lookup node.tableName = none from absent]
        at normalized
      cases normalized
  | @update node node' normalized =>
      simp only [normalizeUpdate, show w.ctx.untypedTables.lookup node.tableName = none from absent]
        at normalized
      cases normalized

theorem Step.unknown (step : Step env stmt w w') (other : stmt.KeepsTables)
    (unknown : stmt.tableName ∉ w.ctx.untypedTables) : w'.ctx = w.ctx := by
  rcases step.cases with rfl | ⟨handler, executes, ended⟩
  · rfl
  obtain ⟨node, rfl⟩ := executes.known other unknown
  cases executes
  obtain ⟨e, v, stops, same⟩ := performCSVImport_unknown env unknown
  have run : (visitCsvImport env node).run w = .error e v := run_bind_error stops _
  rw [run] at ended
  rcases ended with ⟨_, ⟨⟩⟩ | ⟨_, ⟨⟩⟩
  exact same

end Framed

/-! CREATE and DROP -/

/-- The table is in the metadata and in the schemas. -/
def declared (w : World) (node : CreateUntypedTableNode) : World :=
  { w.setMetadata (some ((w.disk.metadata.getD ∅).insert node.tableName
      (some (metadataText node.columns)))) with
    ctx := { w.ctx with
      untypedTables := w.ctx.untypedTables.insert node.tableName node.columns } }

/-- The columns of the table have their codes as well. -/
def encoded (w : World) (node : CreateUntypedTableNode) : World :=
  { declared w node with
    ctx := { (declared w node).ctx with
      tableColcodes := w.ctx.tableColcodes.insert node.tableName (columnCodes node.columns) } }

@[simp] theorem encoded_untypedTables (w : World) (node : CreateUntypedTableNode) :
    (encoded w node).ctx.untypedTables = w.ctx.untypedTables.insert node.tableName node.columns := rfl

@[simp] theorem encoded_tableColcodes (w : World) (node : CreateUntypedTableNode) :
    (encoded w node).ctx.tableColcodes =
      w.ctx.tableColcodes.insert node.tableName (columnCodes node.columns) := rfl

theorem visitCreate_known (env : Env) {node : CreateUntypedTableNode} {w : World}
    (known : node.tableName ∈ w.ctx.untypedTables) :
    (visitCreate env node).run w =
      .ok { reports := [⟨.createTableAlreadyExists, [node.tableName]⟩] } w := by
  rw [visitCreate, createUntypedTable, bind_assoc, run_bind_ok (run_get w), if_pos known]
  rfl

/-- Where the codes do not suffice, the metadata is already written. -/
theorem visitCreate_new (env : Env) {node : CreateUntypedTableNode} {w : World}
    (new : node.tableName ∉ w.ctx.untypedTables) :
    (visitCreate env node).run w =
      if env.silent = true ∨ node.columns.length ≤ 255 then
        (do recalculateIndicesForTable env node.tableName; return {} : Exec Response).run
          (encoded w node)
      else .error (.exit .colOffsetRegionHasMoreColsThanAllowed) (declared w node) := by
  have codes := assignColumnCodes_run env node.columns (declared w node) 0 ∅ (.inl (by decide))
  have schema : (declared w node).ctx.untypedTables.lookup node.tableName = some node.columns :=
    Finmap.lookup_insert _
  -- the metadata and the schema are in place when the codes are given
  have start : (visitCreate env node).run w = (do
      initializeColumnEncodingMapForTable env node.tableName
      recalculateIndicesForTable env node.tableName
      return {} : Exec Response).run (declared w node) := by
    simp only [visitCreate, createUntypedTable, bind_assoc, run_bind_ok (run_get w), if_neg new]
    rfl
  rw [Nat.zero_add, show UInt8.ofNat 0 = 0 from rfl] at codes
  rw [start, initializeColumnEncodingMapForTable, bind_assoc, run_bind_ok (run_get _), schema]
  dsimp only
  split
  next fits =>
    rw [if_pos fits] at codes
    rw [bind_assoc, run_bind_ok codes]
    rfl
  next full =>
    rw [if_neg full] at codes
    rw [bind_assoc, run_bind_error codes]

/-- However the `CREATE` of a new table ends, the metadata of the table is on the disk. -/
theorem visitCreate_metadata (env : Env) {node : CreateUntypedTableNode} {w : World}
    (new : node.tableName ∉ w.ctx.untypedTables) :
    (finalState ((visitCreate env node).run w)).disk.metadata =
      some ((w.disk.metadata.getD ∅).insert node.tableName (some (metadataText node.columns))) := by
  have framed : IndexFramed node.tableName (fun v => v.disk.metadata =
      some ((w.disk.metadata.getD ∅).insert node.tableName (some (metadataText node.columns))))
      fun _ => True :=
    ⟨fun _ _ _ h => h, fun _ _ _ h => h, fun _ _ h => h, fun _ _ => trivial, fun _ _ _ _ => trivial⟩
  rw [visitCreate_new env new]
  split
  · have kept := (framed.recalculateIndicesForTable_keeps env).bind (f := fun _ => pure ({} : Response))
      fun _ => .ofPure _
    exact kept.final (s := encoded w node) rfl
  · rfl

/-- The table is gone from the disk, the schemas and the indices. -/
def dropped (w : World) (table : Bytes) : World where
  disk := { w.disk with
    metadata := some ((w.disk.metadata.getD ∅).erase table)
    tableFiles := w.disk.tableFiles.erase table
    newTableFiles := w.disk.newTableFiles.erase table }
  ctx := { w.ctx with
    untypedTables := w.ctx.untypedTables.erase table
    indices := w.ctx.indices.erase table }

@[simp] theorem dropped_untypedTables (w : World) (table : Bytes) :
    (dropped w table).ctx.untypedTables = w.ctx.untypedTables.erase table := rfl

theorem dropTable_run (env : Env) (node : DropTableNode) (w : World) :
    (dropTable env node).run w =
      if node.tableName ∈ w.disk.metadata.getD ∅ then .ok () (dropped w node.tableName)
      else (handleFatalError env .tableMetadataDirectoryDoesNotExist : Exec Unit).run w := by
  rw [dropTable, run_bind_ok (run_get w)]
  dsimp only
  split
  · rfl
  · rfl

section Steps

variable {env : Env} {w w' : World}

theorem Step.create_known {node : CreateUntypedTableNode} (step : Step env (.create node) w w')
    (known : node.tableName ∈ w.ctx.untypedTables) : w' = w := by
  rw [← step.final, visit, visitCreate_known env known]
  rfl

/-- A new table is in the maps of the schemas and the codes before its index is built. -/
theorem Step.create_new {node : CreateUntypedTableNode} (step : Step env (.create node) w w')
    (new : node.tableName ∉ w.ctx.untypedTables) :
    (env.silent = true ∨ node.columns.length ≤ 255) ∧
      finalState ((recalculateIndicesForTable env node.tableName).run (encoded w node)) = w' := by
  have run := step.visit_run
  have final := step.final
  rw [visit, visitCreate_new env new] at run final
  by_cases fits : env.silent = true ∨ node.columns.length ≤ 255
  · rw [if_pos fits] at final
    refine ⟨fits, ?_⟩
    rw [← final]
    cases built : (recalculateIndicesForTable env node.tableName).run (encoded w node) with
    | ok _ v => rw [run_bind_ok built]; rfl
    | error e v => rw [run_bind_error built]; rfl
  · rw [if_neg fits] at run
    rcases run with ⟨_, ⟨⟩⟩ | ⟨_, ⟨⟩⟩

/-- `CREATE` does not make a counter. -/
theorem Step.create_counters {node : CreateUntypedTableNode} (step : Step env (.create node) w w')
    (new : node.tableName ∉ w.ctx.untypedTables) :
    w'.ctx.deleteCounterPerTable = w.ctx.deleteCounterPerTable := by
  have framed : IndexFramed node.tableName
      (fun v => v.ctx.deleteCounterPerTable = w.ctx.deleteCounterPerTable) fun _ => True :=
    ⟨fun _ _ _ h => h, fun _ _ _ h => h, fun _ _ h => h, fun _ _ => trivial, fun _ _ _ _ => trivial⟩
  have kept := (framed.recalculateIndicesForTable_keeps env).final (s := encoded w node) rfl
  rw [(step.create_new new).2] at kept
  exact kept

/-- No handler of one table changes the schemas or the codes. -/
theorem framed_schemas (table : Bytes) (tables : Map Bytes Schema)
    (codes : Map Bytes (Map Bytes UInt8)) :
    Framed table (fun w => w.ctx.untypedTables = tables ∧ w.ctx.tableColcodes = codes)
      fun _ => True where
  files _ _ _ h := h
  newFiles _ _ _ h := h
  index _ _ h := h
  counter _ _ h := h
  fault _ _ := trivial
  known _ _ _ _ := trivial

theorem Step.create_schemas {node : CreateUntypedTableNode} (step : Step env (.create node) w w')
    (new : node.tableName ∉ w.ctx.untypedTables) :
    w'.ctx.untypedTables = w.ctx.untypedTables.insert node.tableName node.columns ∧
      w'.ctx.tableColcodes = w.ctx.tableColcodes.insert node.tableName (columnCodes node.columns) := by
  have kept := ((framed_schemas node.tableName _ _).recalculateIndicesForTable_keeps env).final
    (s := encoded w node) ⟨rfl, rfl⟩
  rw [(step.create_new new).2] at kept
  exact kept

theorem visitDrop_unknown (env : Env) {node : DropTableNode}
    (unknown : node.tableName ∉ w.ctx.untypedTables) :
    finalState ((visitDrop env node).run w) = w := by
  rw [visitDrop, run_bind_ok (run_get w), validateDropSemantics, checkIfTableExists, if_neg unknown]
  rfl

theorem visitDrop_known (env : Env) {node : DropTableNode}
    (known : node.tableName ∈ w.ctx.untypedTables) :
    (visitDrop env node).run w = (do dropTable env node; return {} : Exec Response).run w := by
  rw [visitDrop, run_bind_ok (run_get w), validateDropSemantics, checkIfTableExists, if_pos known]
  rfl

/-- A `DROP` removes a known table that has metadata, and otherwise changes nothing. -/
theorem Step.drop {node : DropTableNode} (step : Step env (.drop node) w w') :
    w' = if node.tableName ∈ w.ctx.untypedTables ∧ node.tableName ∈ w.disk.metadata.getD ∅
      then dropped w node.tableName else w := by
  have final := step.final
  rw [visit] at final
  by_cases known : node.tableName ∈ w.ctx.untypedTables
  · have removed := dropTable_run env node w
    rw [visitDrop_known env known] at final
    by_cases there : node.tableName ∈ w.disk.metadata.getD ∅
    · rw [if_pos there] at removed
      rw [run_bind_ok removed] at final
      rw [if_pos ⟨known, there⟩]
      exact final.symm
    · rw [if_neg there, handleFatalError] at removed
      rw [if_neg fun both => there both.2, ← final]
      split at removed
      · rw [run_bind_ok (removed.trans rfl)]
        rfl
      · rw [run_bind_error (removed.trans rfl)]
        rfl
  · rw [visitDrop_unknown env known] at final
    rw [if_neg fun both => known both.1]
    exact final.symm

end Steps

/-- No tables: the directories are there, and the context has been constructed from them. -/
def emptyDatabase : World := ⟨⟨some ∅, ∅, ∅, ∅⟩, ExecutionContext.empty⟩

end InterpreterVisitor
end Jssql
