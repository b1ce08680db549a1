import Jssql.Theory.Construction

/-!
The four maps of the context. The construction fills all of them for the same
tables, and no handler of a table adds or removes one. `CREATE` leaves out the
delete counters, so the first `DELETE` or `UPDATE` of a table created in the same
process does not find its counter; `DROP` leaves the codes and the counter behind.
-/
namespace Jssql.InterpreterVisitor
open Foundation FileHandler SemanticNormalizer SemanticValidator

/-- The maps have the same tables. -/
structure InStep (ctx : ExecutionContext) : Prop where
  colcodes : ∀ table, table ∈ ctx.tableColcodes ↔ table ∈ ctx.untypedTables
  indices : ∀ table, table ∈ ctx.indices ↔ table ∈ ctx.untypedTables
  counters : ∀ table, table ∈ ctx.deleteCounterPerTable ↔ table ∈ ctx.untypedTables

/-- The statement does not create a new table and does not remove one. -/
def TablesStay (stmt : Statement) (w : World) : Prop :=
  (∀ node, stmt = .create node → node.tableName ∈ w.ctx.untypedTables) ∧
    ∀ node, stmt = .drop node → node.tableName ∈ w.ctx.untypedTables →
      node.tableName ∉ w.disk.metadata.getD ∅

theorem InStep.inAllMaps {ctx : ExecutionContext} (inStep : InStep ctx) {table : Bytes}
    (known : table ∈ ctx.untypedTables) : InAllMaps ctx table where
  schema := known
  colcodes := (inStep.colcodes table).mpr known
  index := (inStep.indices table).mpr known
  counter := (inStep.counters table).mpr known

theorem mem_insert_known {α : Type} {m : Map Bytes α} {table : Bytes} (known : table ∈ m) (a : α)
    (x : Bytes) : x ∈ m.insert table a ↔ x ∈ m := by
  rw [Finmap.mem_insert]
  exact ⟨fun h => h.elim (fun same => same ▸ known) id, .inr⟩

/-- The handlers of a known table keep the maps in step and miss it in none of them. -/
theorem framed_inStep (table : Bytes) :
    Framed table (fun w => InStep w.ctx ∧ table ∈ w.ctx.untypedTables) fun e => ¬ Lost e where
  files _ _ _ h := h
  newFiles _ _ _ h := h
  index w columns h := by
    refine ⟨⟨h.1.colcodes, fun x => ?_, h.1.counters⟩, h.2⟩
    exact (mem_insert_known ((h.1.indices table).mpr h.2) columns x).trans (h.1.indices x)
  counter w count h := by
    refine ⟨⟨h.1.colcodes, h.1.indices, fun x => ?_⟩, h.2⟩
    exact (mem_insert_known ((h.1.counters table).mpr h.2) count x).trans (h.1.counters x)
  fault _ other := other
  known w e h unknown := absurd (h.1.inAllMaps h.2) unknown

/-- Whatever the disk, the constructed context has its maps in step. -/
theorem constructed_inStep {env : Env} {disk : Disk} {w : World}
    (run : (constructExecutionContext env).run ⟨disk, .empty⟩ = .ok () w) : InStep w.ctx := by
  obtain ⟨_, starts, rfl⟩ := constructExecutionContext_ok.mp run
  have both (table : Bytes) : InAllMaps (constructed env disk).ctx table ∨
      tableState table (constructed env disk) =
        ⟨none, none, none, none, disk.tableFiles.lookup table⟩ := by
    cases here : listed disk table with
    | none => exact .inr (tableState_constructed_unlisted env disk here)
    | some text =>
        obtain ⟨_, ⟨pkColName, idx⟩, entry⟩ := starts table text here
        have state := tableState_constructed env disk here entry
        exact .inl ⟨Finmap.mem_iff.mpr ⟨_, congrArg TableState.schema state⟩,
          Finmap.mem_iff.mpr ⟨_, congrArg TableState.colcodes state⟩,
          Finmap.mem_iff.mpr ⟨_, congrArg TableState.index state⟩,
          Finmap.mem_iff.mpr ⟨_, congrArg TableState.counter state⟩⟩
  have absent {α : Type} {m : Map Bytes α} {table : Bytes} (h : m.lookup table = none) : table ∉ m :=
    Finmap.lookup_eq_none.mp h
  refine ⟨fun table => ?_, fun table => ?_, fun table => ?_⟩
  · rcases both table with all | state
    · exact iff_of_true all.colcodes all.schema
    · exact iff_of_false (absent (congrArg TableState.colcodes state))
        (absent (congrArg TableState.schema state))
  · rcases both table with all | state
    · exact iff_of_true all.index all.schema
    · exact iff_of_false (absent (congrArg TableState.index state))
        (absent (congrArg TableState.schema state))
  · rcases both table with all | state
    · exact iff_of_true all.counter all.schema
    · exact iff_of_false (absent (congrArg TableState.counter state))
        (absent (congrArg TableState.schema state))

/-- A step keeps the maps in step if and only if the tables stay. -/
theorem Step.inStep_iff {env : Env} {stmt : Statement} {w w' : World} (inStep : InStep w.ctx)
    (step : Step env stmt w w') : InStep w'.ctx ↔ TablesStay stmt w := by
  have other (keeps : stmt.KeepsTables) : InStep w'.ctx ↔ TablesStay stmt w := by
    have stay : TablesStay stmt w := by
      constructor <;> (rintro node rfl; exact keeps.elim)
    refine iff_of_true ?_ stay
    by_cases known : stmt.tableName ∈ w.ctx.untypedTables
    · exact (step.keeps keeps (framed_inStep _).anyFault ⟨inStep, known⟩).1
    · rw [step.unknown keeps known]
      exact inStep
  cases stmt with
  | create node =>
      by_cases known : node.tableName ∈ w.ctx.untypedTables
      · rw [step.create_known known]
        exact iff_of_true inStep ⟨by rintro _ ⟨⟩; exact known, by rintro _ ⟨⟩⟩
      · refine iff_of_false (fun after => ?_) fun stay => known (stay.1 node rfl)
        have created : node.tableName ∈ w'.ctx.untypedTables := by
          rw [(step.create_schemas known).1, Finmap.mem_insert]
          exact .inl rfl
        have counter := (after.counters _).mpr created
        rw [step.create_counters known] at counter
        exact known ((inStep.counters _).mp counter)
  | drop node =>
      rw [step.drop]
      split
      next removed =>
        refine iff_of_false (fun after => ?_) fun stay => stay.2 node rfl removed.1 removed.2
        have codes := (after.colcodes _).mp ((inStep.colcodes node.tableName).mpr removed.1)
        rw [dropped_untypedTables] at codes
        exact Finmap.notMem_erase_self codes
      next stays =>
        refine iff_of_true inStep ⟨by rintro _ ⟨⟩, ?_⟩
        rintro _ ⟨⟩ known there
        exact stays ⟨known, there⟩
  | describe | insert | select | csvImport | delete | update => exact other trivial

/-- In a run from the construction in which no table is created or removed, the maps stay
in step, and no accepted `DELETE` or `UPDATE` misses its table in one of them. -/
theorem reachable_inStep (env : Env) (disk : Disk) {w w' : World}
    (constructed : (constructExecutionContext env).run ⟨disk, .empty⟩ = .ok () w)
    (run : Reachable env TablesStay w w') :
    InStep w'.ctx ∧
    (∀ node node', normalizeDelete node w'.ctx.untypedTables = (node', true) →
      validateDeleteSemantics node' w'.ctx = .ok none →
      ∀ e v, (deleteData env node').run w' = .error e v → ¬ Lost e) ∧
    ∀ node node', normalizeUpdate node w'.ctx.untypedTables = .ok (node', true) →
      validateUpdateSemantics node' w'.ctx = .ok none →
      ∀ e v, (updateData env node').run w' = .error e v → ¬ Lost e := by
  have inStep : InStep w'.ctx :=
    Reachable.invariant (P := fun w => InStep w.ctx)
      (fun _ _ stay inStep _ step => (step.inStep_iff inStep).mpr stay) run
      (constructed_inStep constructed)
  have known {stmt : Statement} {handler : Exec Response} (executes : Executes env w' stmt handler)
      (keeps : stmt.KeepsTables) (own : ∀ node, stmt ≠ .csvImport node) :
      stmt.tableName ∈ w'.ctx.untypedTables := by
    by_contra unknown
    obtain ⟨node, same⟩ := executes.known keeps unknown
    exact own node same
  refine ⟨inStep, fun node node' normalized valid e v stops => ?_,
    fun node node' normalized valid e v stops => ?_⟩
  · have table := known (.delete normalized valid) trivial (by rintro _ ⟨⟩)
    exact ((framed_inStep _).deleteData_keeps env (normalizeDelete_tableName normalized)).fault
      ⟨inStep, table⟩ stops
  · have table := known (.update normalized valid) trivial (by rintro _ ⟨⟩)
    exact ((framed_inStep _).updateData_keeps env (normalizeUpdate_tableName normalized)).fault
      ⟨inStep, table⟩ stops

/-- The theorem at a database with one table, started and not yet changed. -/
theorem reachable_inStep_pair : ∃ w,
    (constructExecutionContext ⟨false, id⟩).run ⟨(singleTable (ascii "people") pairSchema
      (.fresh []) ∅).disk, .empty⟩ = .ok () w ∧
    ascii "people" ∈ w.ctx.untypedTables ∧ InStep w.ctx ∧
    ∀ e v, (deleteData ⟨false, id⟩ ⟨ascii "people", none⟩).run w = .error e v → ¬ Lost e := by
  have start := constructExecutionContext_singleTable ⟨false, id⟩ (ascii "people") pairSchema
    (.fresh []) ∅ pairSchema_parsed
  let w := constructed ⟨false, id⟩ (singleTable (ascii "people") pairSchema (.fresh []) ∅).disk
  have schema : w.ctx.untypedTables.lookup (ascii "people") = some pairSchemaRead.schema :=
    congrArg TableState.schema (tableState_constructed_singleTable ⟨false, id⟩ (ascii "people")
      pairSchema (.fresh []) ∅ pairSchema_parsed)
  obtain ⟨inStep, deletes, _⟩ := reachable_inStep ⟨false, id⟩ _ start .refl
  refine ⟨w, start, Finmap.mem_iff.mpr ⟨_, schema⟩, inStep, ?_⟩
  refine deletes ⟨ascii "people", none⟩ ⟨ascii "people", none⟩ ?_ ?_
  · rw [normalizeDelete, schema]
  · rw [validateDeleteSemantics, schema]
    rfl

/-- A table that is created is missing among the counters, and its first `DELETE` stops. -/
theorem reachable_not_inStep : ∃ w w',
    (constructExecutionContext ⟨false, id⟩).run ⟨emptyDatabase.disk, .empty⟩ = .ok () w ∧
    Reachable ⟨false, id⟩ (fun _ _ => True) w w' ∧ ¬ InStep w'.ctx := by
  have starts : (constructExecutionContext ⟨false, id⟩).run ⟨emptyDatabase.disk, .empty⟩ =
    .ok () emptyDatabase := rfl
  have runs : ∃ w', Step ⟨false, id⟩ (.create ⟨ascii "t", pairSchema.schema⟩) emptyDatabase w' :=
    ⟨_, _, rfl⟩
  obtain ⟨w', step⟩ := runs
  refine ⟨_, w', starts, .single ⟨_, trivial, step⟩, fun inStep => ?_⟩
  have stay := (step.inStep_iff (constructed_inStep starts)).mp inStep
  exact absurd (stay.1 _ rfl) (by rintro ⟨⟩)

end Jssql.InterpreterVisitor
