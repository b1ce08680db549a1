import Jssql.Theory.Construction

/-!
The start after a `CREATE`. The metadata is written before the codes are given and
the index is built, and the next process does both again for every table it finds
in the metadata, so a table that could not be created keeps it from starting.
-/
namespace Jssql.InterpreterVisitor
open Foundation Foundation.Stream FileHandler

/-- The new index of a table touches the disk only where the file is missing, and it is
only the check of the header that can end the process. -/
theorem recalculateIndicesForTable_disk (env : Env) (table : Bytes) (w : World) :
    let content := (w.disk.tableFiles.lookup table).getD tableFileHeader
    (finalState ((recalculateIndicesForTable env table).run w)).disk =
        (w.setTableFile table content).disk ∧
      ∀ code v, (recalculateIndicesForTable env table).run w = .error (.exit code) v →
        ∀ s, (checkFileValidity env true).run (.opened content) ≠ .ok () s := by
  intro content
  let erased := w.setIndices (w.ctx.indices.erase table)
  let entered := (erased.setTableFile table content).setIndices (erased.ctx.indices.insert table ∅)
  have absent : table ∉ (erased.setTableFile table content).ctx.indices :=
    Finmap.notMem_erase_self
  have start : (recalculateIndicesForTable env table).run w = (loadIndex env table).run entered := by
    rw [recalculateIndicesForTable_eq, run_bind_ok (run_modify _ w),
      run_bind_ok (ensureTableFileExists_eq erased table), run_bind_ok (run_modify _ _)]
    exact congrArg _ (if_neg absent)
  rw [start, loadIndex, run_bind_ok (openTableFile_run (Finmap.lookup_insert _)),
    if_pos (opened_isOpen content)]
  cases check : (checkFileValidity env true).run (.opened content) with
  | error e s =>
      rw [run_bind_error (runStream_error check entered)]
      exact ⟨rfl, fun _ _ _ _ => by rintro ⟨⟩⟩
  | ok _ s =>
      rw [run_bind_ok (runStream_ok check entered)]
      have rest : Keeps (fun v : World => v.disk = entered.disk) (fun e => ∀ code, e ≠ .exit code) (do
          let w ← get
          let schema ← lift (w.ctx.untypedTables.at table .tableName)
          let pkColName ← lift (extractPrimaryKeyColumn schema)
          let columns ← lift (w.ctx.indices.at table .tableName)
          let read ← runStream s (extractPrimaryKeysIndex (columnsWithoutPk schema))
          set (w.setIndices (w.ctx.indices.insert table
            (if pkColName ∈ columns then columns else columns.insert pkColName read.1))) : Exec Unit) := by
        refine .bindGet fun v same => ?_
        refine Keeps.bind (.ofLift fun e h => by rw [(Map.at_error h).1]; rintro _ ⟨⟩) fun schema => ?_
        refine Keeps.bind (.ofLift fun e h => by rw [extractPrimaryKeyColumn_fault h]; rintro _ ⟨⟩)
          fun pkColName => ?_
        refine Keeps.bind (.ofLift fun e h => by rw [(Map.at_error h).1]; rintro _ ⟨⟩) fun columns => ?_
        refine (runStream_keeps (extractPrimaryKeysIndex_raises ?_ _) _).bind fun _ => ?_
        · rintro e (_ | _ | _ | _) _ ⟨⟩
        · exact .ofSet same
      refine ⟨rest.final rfl, fun code v stops => ?_⟩
      exact absurd rfl (rest.fault rfl stops code)

/-- A table can be started with when its codes suffice, a key is read back, and the
file of its name that is already there, if any, can be read. -/
structure Restartable (env : Env) (columns : Schema) (file : Option Bytes) : Prop where
  codes : env.silent = true ∨
    columns.length ≤ 255 ∧ (parseMetadata (metadataText columns)).length ≤ 255
  key : ∃ name, extractPrimaryKeyColumn (parseMetadata (metadataText columns)) = .ok name
  leftover : ∀ content, file = some content →
    ∃ entry, loadedIndex env (parseMetadata (metadataText columns)) content = .ok entry

/-- The index of a file without records is read for whatever number of columns. -/
theorem loadedIndex_header (env : Env) {schema : Schema} {name : Bytes}
    (key : extractPrimaryKeyColumn schema = .ok name) :
    loadedIndex env schema tableFileHeader = .ok (name, ∅) := by
  let f : TableFile (columnsWithoutPk schema) := .fresh []
  have bytes : f.bytes = tableFileHeader := List.append_nil _
  have check := checkFileValidity_file env true f
  rw [bytes] at check
  exact loadedIndex_eq_ok.mpr ⟨_, _, check, key, extractPrimaryKeysIndex_records f.header []⟩

theorem starts_iff {env : Env} {columns : Schema} {file : Option Bytes} :
    Starts env (metadataText columns) file ∧ (env.silent = true ∨ columns.length ≤ 255) ↔
      Restartable env columns file := by
  constructor
  · rintro ⟨⟨readFits, entry, loaded⟩, fits⟩
    refine ⟨?_, ?_, ?_⟩
    · rcases fits with silent | fits
      · exact .inl silent
      · exact readFits.imp id fun readFits => ⟨fits, readFits⟩
    · obtain ⟨name, idx⟩ := entry
      obtain ⟨_, _, _, key, _⟩ := loadedIndex_eq_ok.mp loaded
      exact ⟨name, key⟩
    · rintro content rfl
      exact ⟨entry, loaded⟩
  · rintro ⟨codes, ⟨name, key⟩, leftover⟩
    refine ⟨⟨codes.imp id And.right, ?_⟩, codes.imp id And.left⟩
    cases file with
    | none => exact ⟨_, loadedIndex_header env key⟩
    | some content => exact leftover content rfl

/-- A fatal error leaves the metadata as it was, and however the statement ends, the
next process can be started on the disk that it leaves. -/
def LeavesStartable (env : Env) (node : CreateUntypedTableNode) (w : World) : Prop :=
  let ended := (visit env (.create node)).run w
  (∀ code v, ended = .error (.exit code) v → v.disk.metadata = w.disk.metadata) ∧
    ∃ v, (constructExecutionContext env).run ⟨(finalState ended).disk, .empty⟩ = .ok () v

section

variable {env : Env} {disk : Disk} {w : World}

theorem constructed_files (started : (constructExecutionContext env).run ⟨disk, .empty⟩ = .ok () w)
    {table text : Bytes} (here : listed disk table = some text) :
    w.disk.tableFiles.lookup table = some ((disk.tableFiles.lookup table).getD tableFileHeader) := by
  obtain ⟨_, starts, rfl⟩ := constructExecutionContext_ok.mp started
  obtain ⟨⟨pkColName, idx⟩, entry⟩ := (starts table text here).2
  exact congrArg TableState.file (tableState_constructed env disk here entry)

theorem constructed_metadata (started : (constructExecutionContext env).run ⟨disk, .empty⟩ = .ok () w) :
    w.disk.metadata = disk.metadata := by
  obtain ⟨_, _, rfl⟩ := constructExecutionContext_ok.mp started
  have same := constructed_declaration env disk
  rw [declaration, declaration, Prod.mk.injEq, declaredTables_disk] at same
  exact same.1

/-- A constructed context has the tables that the metadata lists. -/
theorem constructed_known (started : (constructExecutionContext env).run ⟨disk, .empty⟩ = .ok () w)
    {table : Bytes} : table ∈ w.ctx.untypedTables ↔ ∃ text, listed w.disk table = some text := by
  have listing : listed w.disk table = listed disk table := by
    rw [listed, constructed_metadata started, listed]
  obtain ⟨_, starts, rfl⟩ := constructExecutionContext_ok.mp started
  rw [listing, Finmap.mem_iff]
  cases here : listed disk table with
  | none =>
      have state := congrArg TableState.schema (tableState_constructed_unlisted env disk here)
      rw [show (constructed env disk).ctx.untypedTables.lookup table = none from state]
      simp
  | some text =>
      obtain ⟨⟨pkColName, idx⟩, entry⟩ := (starts table text here).2
      have state := congrArg TableState.schema (tableState_constructed env disk here entry)
      rw [show (constructed env disk).ctx.untypedTables.lookup table = some _ from state]
      simp

/-- What a construction needs of the disk is still there after it. -/
theorem constructed_starts (started : (constructExecutionContext env).run ⟨disk, .empty⟩ = .ok () w) :
    (w.disk.metadata.isSome = true ∨ env.silent = true) ∧ ∀ table text,
      listed w.disk table = some text → Starts env text (w.disk.tableFiles.lookup table) := by
  have metadata := constructed_metadata started
  obtain ⟨there, starts, _⟩ := constructExecutionContext_ok.mp started
  refine ⟨metadata ▸ there, fun table text here => ?_⟩
  rw [listed, metadata] at here
  rw [constructed_files started here]
  exact starts table text here

/-- A new table that could be encoded leaves its text and its file, and what was there. -/
theorem visitCreate_disk {node : CreateUntypedTableNode} (new : node.tableName ∉ w.ctx.untypedTables)
    (fits : env.silent = true ∨ node.columns.length ≤ 255) :
    (finalState ((visitCreate env node).run w)).disk =
      ((encoded w node).setTableFile node.tableName
        ((w.disk.tableFiles.lookup node.tableName).getD tableFileHeader)).disk := by
  have final := (recalculateIndicesForTable_disk env node.tableName (encoded w node)).1
  rw [visitCreate_new env new, if_pos fits]
  cases built : (recalculateIndicesForTable env node.tableName).run (encoded w node) with
  | ok _ v =>
      rw [built] at final
      rw [run_bind_ok built]
      exact final
  | error e v =>
      rw [built] at final
      rw [run_bind_error built]
      exact final

/-- The disk after the `CREATE` of a new table has the table and those it had. -/
theorem startable_after {node : CreateUntypedTableNode}
    (started : (constructExecutionContext env).run ⟨disk, .empty⟩ = .ok () w)
    (new : node.tableName ∉ w.ctx.untypedTables)
    (fits : env.silent = true ∨ node.columns.length ≤ 255) :
    (∃ v, (constructExecutionContext env).run
        ⟨(finalState ((visitCreate env node).run w)).disk, .empty⟩ = .ok () v) ↔
      Starts env (metadataText node.columns) (w.disk.tableFiles.lookup node.tableName) := by
  obtain ⟨_, starts⟩ := constructed_starts started
  rw [visitCreate_disk new fits]
  let disk' := ((encoded w node).setTableFile node.tableName
    ((w.disk.tableFiles.lookup node.tableName).getD tableFileHeader)).disk
  have metadata : disk'.metadata =
      some ((w.disk.metadata.getD ∅).insert node.tableName (some (metadataText node.columns))) := rfl
  have here : listed disk' node.tableName = some (metadataText node.columns) := by
    rw [listed, metadata, Option.getD_some, AList.lookup_insert, Option.join_some]
  have file : disk'.tableFiles.lookup node.tableName =
      some ((w.disk.tableFiles.lookup node.tableName).getD tableFileHeader) := Finmap.lookup_insert _
  constructor
  · rintro ⟨v, construction⟩
    have created := (constructExecutionContext_ok.mp construction).2.1 _ _ here
    change Starts env _ (disk'.tableFiles.lookup node.tableName) at created
    rw [file] at created
    exact created
  · intro created
    refine ⟨_, constructExecutionContext_ok.mpr ⟨.inl rfl, fun table text found => ?_, rfl⟩⟩
    change listed disk' table = some text at found
    change Starts env text (disk'.tableFiles.lookup table)
    by_cases same : table = node.tableName
    · subst same
      rw [here] at found
      cases found
      rw [file]
      exact created
    · have old : disk'.tableFiles.lookup table = w.disk.tableFiles.lookup table :=
        Finmap.lookup_insert_of_ne _ same
      rw [listed, metadata, Option.getD_some, AList.lookup_insert_ne same] at found
      rw [old]
      exact starts table text found

end

/-- A process that has just been started executes a `CREATE` and leaves a disk as it
should, if and only if the table is known already or can be started with. -/
theorem leavesStartable_iff {env : Env} {disk : Disk} {w : World}
    (started : (constructExecutionContext env).run ⟨disk, .empty⟩ = .ok () w)
    (node : CreateUntypedTableNode) :
    LeavesStartable env node w ↔ node.tableName ∈ w.ctx.untypedTables ∨
      Restartable env node.columns (w.disk.tableFiles.lookup node.tableName) := by
  obtain ⟨there, starts⟩ := constructed_starts started
  rw [LeavesStartable, visit]
  by_cases known : node.tableName ∈ w.ctx.untypedTables
  · rw [visitCreate_known env known]
    refine iff_of_true ⟨fun code v => by rintro ⟨⟩, ?_⟩ (.inl known)
    exact ⟨_, constructExecutionContext_ok.mpr ⟨there, starts, rfl⟩⟩
  rw [or_iff_right known, ← starts_iff]
  by_cases fits : env.silent = true ∨ node.columns.length ≤ 255
  · rw [startable_after started known fits, and_iff_left fits, and_iff_right_iff_imp]
    rintro ⟨_, entry, loaded⟩ code v stops
    -- the check of the header succeeds, so nothing can end the process
    obtain ⟨s, _, check, _⟩ := loadedIndex_eq_ok.mp loaded
    have calm := (recalculateIndicesForTable_disk env node.tableName (encoded w node)).2
    rw [visitCreate_new env known, if_pos fits] at stops
    cases built : (recalculateIndicesForTable env node.tableName).run (encoded w node) with
    | ok _ u => rw [run_bind_ok built] at stops; cases stops
    | error e u =>
        rw [run_bind_error built] at stops
        cases stops
        exact absurd check (calm _ _ built s)
  · refine iff_of_false ?_ fun both => fits both.2
    rintro ⟨kept, _⟩
    have metadata := kept _ _ ((visitCreate_new env known).trans (if_neg fits))
    refine known ((constructed_known started).mpr ⟨metadataText node.columns, ?_⟩)
    rw [listed, ← metadata, show (declared w node).disk.metadata = some _ from rfl, Option.getD_some,
      AList.lookup_insert, Option.join_some]

/-- The start with no table and a `CREATE` that can be started with. -/
theorem leavesStartable_iff_pair :
    LeavesStartable ⟨false, id⟩ ⟨ascii "t", pairSchema.schema⟩ emptyDatabase ↔
      ascii "t" ∈ emptyDatabase.ctx.untypedTables ∨
        Restartable ⟨false, id⟩ pairSchema.schema (emptyDatabase.disk.tableFiles.lookup (ascii "t")) := by
  have started : (constructExecutionContext ⟨false, id⟩).run ⟨emptyDatabase.disk, .empty⟩ =
    .ok () emptyDatabase := rfl
  exact leavesStartable_iff started _

/-- A key and 255 columns more, each name longer than the one before. -/
def wideTable : CreateUntypedTableNode :=
  ⟨ascii "t", ⟨ascii "id", [ascii "PRIMARY KEY"]⟩ ::
    (List.range 255).map fun i => ⟨List.replicate (i + 3) 97, []⟩⟩

theorem wideTable_length : wideTable.columns.length = 256 := by
  simp [wideTable]

theorem wideTable_oneKey : (wideTable.columns.filter isPrimaryKey).length = 1 := by
  have others : ((List.range 255).map fun i => (⟨List.replicate (i + 3) 97, []⟩ : UntypedColumnDefNode)).filter
      isPrimaryKey = [] := by
    rw [List.filter_eq_nil_iff, List.forall_mem_map]
    intro i _
    exact Bool.false_ne_true
  rw [wideTable, List.filter_cons_of_pos (by decide), others]
  rfl

theorem wideTable_distinct : (columnNames wideTable.columns).Nodup := by
  have names : columnNames wideTable.columns =
      ascii "id" :: (List.range 255).map fun i => List.replicate (i + 3) 97 := by
    rw [columnNames, wideTable, List.map_cons, List.map_map]
    rfl
  rw [names, List.nodup_cons, List.mem_map]
  constructor
  · rintro ⟨i, _, same⟩
    have lengths := congrArg List.length same
    rw [List.length_replicate] at lengths
    cases lengths
  · refine List.nodup_range.map fun i j same => ?_
    simpa using congrArg List.length same

/-- The 256th column ends the process when the metadata is already written. -/
theorem not_leavesStartable :
    (constructExecutionContext ⟨false, id⟩).run ⟨emptyDatabase.disk, .empty⟩ = .ok () emptyDatabase ∧
      (wideTable.columns.filter isPrimaryKey).length = 1 ∧ (columnNames wideTable.columns).Nodup ∧
      ¬ LeavesStartable ⟨false, id⟩ wideTable emptyDatabase := by
  refine ⟨rfl, wideTable_oneKey, wideTable_distinct, ?_⟩
  rintro ⟨kept, _⟩
  have full : ¬ ((⟨false, id⟩ : Env).silent = true ∨ wideTable.columns.length ≤ 255) := by
    rw [wideTable_length]
    decide
  have metadata := kept _ _ ((visitCreate_new _ (by rintro ⟨⟩)).trans (if_neg full))
  have entries := congrArg (fun m => (m.getD ∅).lookup (ascii "t")) metadata
  rw [show (declared emptyDatabase wideTable).disk.metadata = some _ from rfl, Option.getD_some,
    show wideTable.tableName = ascii "t" from rfl, AList.lookup_insert] at entries
  cases entries

end Jssql.InterpreterVisitor
