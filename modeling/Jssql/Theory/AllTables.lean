import Jssql.Theory.SoundTables

/-!
The tables of a database over whole runs. A name that is not in the schemas has at most a
file without records, which an import leaves behind; a `CREATE` that comes to its end has
found a key column and few enough columns, so its table is sound from the start.
-/
namespace Jssql.InterpreterVisitor
open Foundation Foundation.Stream FileHandler

variable {env : Env} {stmt : Statement} {w w' : World} {table : Bytes}

/-! The index of a new table -/

/-- The file of the table is there before the index is built. -/
theorem recalculateIndicesForTable_ensured (env : Env) (table : Bytes) (w : World) :
    (recalculateIndicesForTable env table).run w = (recalculateIndicesForTable env table).run
      (w.setTableFile table ((w.disk.tableFiles.lookup table).getD tableFileHeader)) := by
  let erased := w.setIndices (w.ctx.indices.erase table)
  have there : (ensureTableFileExists table).run (erased.setTableFile table
      ((w.disk.tableFiles.lookup table).getD tableFileHeader)) = .ok () (erased.setTableFile table
        ((w.disk.tableFiles.lookup table).getD tableFileHeader)) :=
    ensureTableFileExists_run (Finmap.lookup_insert _)
  rw [recalculateIndicesForTable_eq, run_bind_ok (run_modify _ w),
    run_bind_ok (ensureTableFileExists_eq erased table)]
  exact ((run_bind_ok (run_modify _ _) _).trans (run_bind_ok there _)).symm

/-- Without a key column the build of the index runs into undefined behaviour. -/
theorem recalculateIndicesForTable_keyless (env : Env) {schema : Schema} {e : Fault}
    (known : w.ctx.untypedTables.lookup table = some schema)
    (file : w.disk.tableFiles.lookup table = some tableFileHeader)
    (keyless : extractPrimaryKeyColumn schema = .error e) :
    ∃ v, (recalculateIndicesForTable env table).run w = .error e v := by
  let erased := w.setIndices (w.ctx.indices.erase table)
  let entered := erased.setIndices (erased.ctx.indices.insert table ∅)
  have absent : table ∉ erased.ctx.indices := Finmap.notMem_erase_self
  have enter : (modify fun w => if table ∈ w.ctx.indices then w
      else w.setIndices (w.ctx.indices.insert table ∅) : Exec PUnit).run erased = .ok () entered := by
    rw [run_modify, if_neg absent]
  have valid : (checkFileValidity env true).run (.opened tableFileHeader) =
      .ok () (split tableFileHeader []) :=
    checkFileValidity_split env true (TableFile.fresh (n := 0) []).header_length
      (TableFile.fresh (n := 0) []).header_magic []
  have schema_ : entered.ctx.untypedTables.at table .tableName = .ok schema := Map.at_of_lookup known _
  refine ⟨entered, ?_⟩
  rw [recalculateIndicesForTable_eq, run_bind_ok (run_modify _ w),
    run_bind_ok (ensureTableFileExists_run (w := erased) file), run_bind_ok enter, loadIndex,
    run_bind_ok (openTableFile_run (w := entered) file), if_pos (opened_isOpen _),
    run_bind_ok (runStream_ok valid entered)]
  dsimp only
  rw [run_bind_ok (run_get _), schema_, run_bind_ok (run_lift_ok _ _), keyless, run_bind_error (run_lift_error _ _)]

/-- The schema of a `CREATE` that has found its key column. -/
def createdSchema (columns : Schema) (name : Bytes) (few : columns.length ≤ 255)
    (key : extractPrimaryKeyColumn columns = .ok name) : TableSchema (columns.length - 1) where
  schema := columns
  pkColName := name
  width := by
    obtain ⟨inside, -⟩ := extractPrimaryKeyColumn_eq_ok.mp key
    omega
  few := few
  key := key

/-- The `CREATE` of a new table runs into undefined behaviour, or finds a key column. -/
theorem visitCreate_sound {node : CreateUntypedTableNode} (new : node.tableName ∉ w.ctx.untypedTables)
    (columns : node.columns.length ≤ 255)
    (file : (w.disk.tableFiles.lookup node.tableName).getD tableFileHeader = tableFileHeader)
    (noNewFile : w.disk.newTableFiles.lookup node.tableName = none) :
    (∃ v, (visitCreate env node).run w = .error (.undefined .missingReturn) v) ∨
      ∃ (w' : World) (n : Nat) (t : TableSchema n), (visitCreate env node).run w = .ok {} w' ∧ t.schema = node.columns ∧
        Sound t node.tableName w' (.fresh []) (TableFile.fresh (n := n) []).index := by
  let made := (encoded w node).setTableFile node.tableName tableFileHeader
  have there : (recalculateIndicesForTable env node.tableName).run (encoded w node) =
      (recalculateIndicesForTable env node.tableName).run made := by
    have ensured := recalculateIndicesForTable_ensured env node.tableName (encoded w node)
    rwa [show ((encoded w node).disk.tableFiles.lookup node.tableName).getD tableFileHeader = tableFileHeader
      from file] at ensured
  have schema : made.ctx.untypedTables.lookup node.tableName = some node.columns := Finmap.lookup_insert _
  have content : made.disk.tableFiles.lookup node.tableName = some tableFileHeader := Finmap.lookup_insert _
  rw [visitCreate_new env new, if_pos (.inr columns)]
  cases key : extractPrimaryKeyColumn node.columns with
  | error e =>
      obtain ⟨v, undefined⟩ := recalculateIndicesForTable_keyless env schema content key
      obtain rfl := extractPrimaryKeyColumn_fault key
      exact .inl ⟨v, run_bind_error (there.trans undefined) _⟩
  | ok name =>
      let t := createdSchema node.columns name columns key
      have header : HasFile made node.tableName (TableFile.fresh (n := node.columns.length - 1) []) := by
        rw [HasFile, content]
        exact congrArg some (List.append_nil _).symm
      have built := recalculateIndicesForTable_run env t _ header schema
      refine .inr ⟨_, _, t, run_bind_ok (there.trans built) _, rfl, ?_⟩
      exact {
        registered := ⟨schema, Finmap.lookup_insert _⟩
        file := header
        index := withIndex_hasIndex _ _ _ _
        places := .ofIndex _
        indexed := by rintro r ⟨⟩
        noNewFile := noNewFile }

/-- A new table has a key column, and is sound. -/
theorem Step.create_sound {node : CreateUntypedTableNode} (step : Step env (.create node) w w')
    (new : node.tableName ∉ w.ctx.untypedTables) (few : env.silent = true → node.columns.length ≤ 255)
    (file : (w.disk.tableFiles.lookup node.tableName).getD tableFileHeader = tableFileHeader)
    (noNewFile : w.disk.newTableFiles.lookup node.tableName = none) :
    ∃ (n : Nat) (t : TableSchema n), t.schema = node.columns ∧
      Sound t node.tableName w' (.fresh []) (TableFile.fresh (n := n) []).index := by
  have columns : node.columns.length ≤ 255 := (step.create_new new).1.elim few id
  have run := step.visit_run
  rw [visit] at run
  rcases visitCreate_sound new columns file noNewFile with ⟨v, undefined⟩ | ⟨v, n, t, created, same, sound⟩
  · rw [undefined] at run
    rcases run with ⟨_, ⟨⟩⟩ | ⟨_, ⟨⟩⟩
  · rw [created] at run
    rcases run with ⟨_, run⟩ | ⟨_, ⟨⟩⟩
    cases run
    exact ⟨n, t, same, sound⟩

/-! Every table -/

/-- The table is not known and has no records, or is sound and its live records satisfy `P`. -/
inductive TableHolds (P : (n : Nat) → TableSchema n → List (TableRecord n) → Prop) (table : Bytes) (w : World) :
    Prop where
  | unknown (absent : table ∉ w.ctx.untypedTables)
      (file : (w.disk.tableFiles.lookup table).getD tableFileHeader = tableFileHeader)
      (noNewFile : w.disk.newTableFiles.lookup table = none) : TableHolds P table w
  | known {n : Nat} {t : TableSchema n} {f : TableFile n} {idx : Index} (sound : Sound t table w f idx)
      (rows : P n t (liveRecords f.records)) : TableHolds P table w

variable {P : (n : Nat) → TableSchema n → List (TableRecord n) → Prop}

theorem TableHolds.congr (holds : TableHolds P table w) (same : tableState table w' = tableState table w)
    (newFile : w'.disk.newTableFiles.lookup table = w.disk.newTableFiles.lookup table) :
    TableHolds P table w' := by
  cases holds with
  | unknown absent file noNewFile =>
      have schema : w'.ctx.untypedTables.lookup table = w.ctx.untypedTables.lookup table :=
        congrArg TableState.schema same
      refine .unknown ?_ ?_ (newFile.trans noNewFile)
      · rw [← Finmap.lookup_eq_none] at absent ⊢
        exact schema.trans absent
      · rwa [show w'.disk.tableFiles.lookup table = _ from congrArg TableState.file same]
  | known sound rows => exact .known (sound.congr same newFile) rows

/-- The statement makes no table too wide for its codes, writes no record that is too long,
and what it leaves of the table it is about satisfies `P` as before. -/
def Preserves (P : (n : Nat) → TableSchema n → List (TableRecord n) → Prop) (env : Env) (stmt : Statement)
    (w : World) : Prop :=
  match stmt with
  | .drop _ => False
  | .create node => env.silent = true → node.columns.length ≤ 255
  | stmt => ∀ (n : Nat) (t : TableSchema n) (f : TableFile n),
      w.ctx.untypedTables.lookup stmt.tableName = some t.schema → HasFile w stmt.tableName f →
      Fits t f w stmt ∧ ∀ rows, RowsAfter env t w f stmt rows → P n t (liveRecords f.records) → P n t rows

/-- An import into a table that is not known makes the file, if there is none, and throws. -/
theorem visitCsvImport_unknown (env : Env) {node : CSVImportNode} (unknown : node.tableName ∉ w.ctx.untypedTables) :
    (visitCsvImport env node).run w = .error (.exception (.missingKey .tableName))
      (w.setTableFile node.tableName ((w.disk.tableFiles.lookup node.tableName).getD tableFileHeader)) := by
  let made := w.setTableFile node.tableName ((w.disk.tableFiles.lookup node.tableName).getD tableFileHeader)
  have absent : made.ctx.untypedTables.at node.tableName .tableName =
      .error (.exception (.missingKey .tableName)) := by
    rw [Map.at, show made.ctx.untypedTables.lookup node.tableName = none from Finmap.lookup_eq_none.mpr unknown]
  have stops : (performCSVImport env node).run w = .error (.exception (.missingKey .tableName)) made := by
    rw [performCSVImport, run_bind_ok (ensureTableFileExists_eq w node.tableName), run_bind_ok (run_get made), absent]
    exact run_bind_error (run_lift_error _ made) _
  exact run_bind_error stops _

/-- A statement about a table that is not known leaves at most a file without records. -/
theorem Step.unknown_disk (step : Step env stmt w w') (other : stmt.KeepsTables)
    (unknown : stmt.tableName ∉ w.ctx.untypedTables)
    (file : (w.disk.tableFiles.lookup stmt.tableName).getD tableFileHeader = tableFileHeader) :
    (w'.disk.tableFiles.lookup stmt.tableName).getD tableFileHeader = tableFileHeader ∧
      w'.disk.newTableFiles = w.disk.newTableFiles := by
  rcases step.cases with rfl | ⟨handler, executes, ended⟩
  · exact ⟨file, rfl⟩
  obtain ⟨node, rfl⟩ := executes.known other unknown
  cases executes
  let made := w.setTableFile node.tableName ((w.disk.tableFiles.lookup node.tableName).getD tableFileHeader)
  have final : w' = made := by
    rw [visitCsvImport_unknown env unknown] at ended
    rcases ended with ⟨_, ended⟩ | ⟨_, ended⟩
    · cases ended
    · exact (EStateM.Result.error.inj ended).2.symm
  have there : made.disk.tableFiles.lookup node.tableName = _ := Finmap.lookup_insert _
  rw [final]
  refine ⟨(congrArg (Option.getD · tableFileHeader) there).trans ?_, rfl⟩
  exact file

/-- One statement: the table it is about, and the others. -/
theorem TableHolds.step (all : ∀ x, TableHolds P x w) (fresh : ∀ n t, P n t [])
    (step : Step env stmt w w') (preserves : Preserves P env stmt w) : ∀ x, TableHolds P x w' := by
  have statement (keeps : stmt.KeepsTables) (kept : ∀ (n : Nat) (t : TableSchema n) (f : TableFile n),
      w.ctx.untypedTables.lookup stmt.tableName = some t.schema → HasFile w stmt.tableName f →
      Fits t f w stmt ∧ ∀ rows, RowsAfter env t w f stmt rows → P n t (liveRecords f.records) → P n t rows) :
      ∀ x, TableHolds P x w' := by
    intro x
    by_cases of : x = stmt.tableName
    · subst of
      cases all stmt.tableName with
      | unknown absent file noNewFile =>
          obtain ⟨file', newFiles⟩ := step.unknown_disk keeps absent file
          exact .unknown (by rwa [step.unknown keeps absent]) file' (by rwa [newFiles])
      | known sound rows =>
          obtain ⟨fits, preserved⟩ := kept _ _ _ sound.registered.schema sound.file
          obtain ⟨rows', ⟨-, f', idx', sound', live⟩, after⟩ := sound.step step rfl keeps fits
          exact .known sound' (live ▸ preserved rows' after rows)
    · obtain ⟨same, newFile⟩ := step.keeps keeps (framed_elsewhere of w) ⟨rfl, rfl⟩
      exact (all x).congr same newFile
  cases stmt with
  | drop => exact preserves.elim
  | create node =>
      by_cases known : node.tableName ∈ w.ctx.untypedTables
      · rw [step.create_known known]
        exact all
      · intro x
        by_cases of : x = node.tableName
        · subst of
          cases all node.tableName with
          | known sound => exact absurd (Finmap.mem_of_lookup_eq_some sound.registered.schema) known
          | unknown _ file noNewFile =>
              obtain ⟨n, t, -, sound⟩ := step.create_sound known preserves file noNewFile
              exact .known sound (fresh n t)
        · have kept := ((framed_elsewhere of (encoded w node)).recalculateIndicesForTable_keeps env).final
            (s := encoded w node) ⟨rfl, rfl⟩
          rw [(step.create_new known).2] at kept
          refine (all x).congr (kept.1.trans ?_) kept.2
          simp only [tableState, encoded, declared, World.setMetadata, Finmap.lookup_insert_of_ne _ of]
  | describe | insert | select | csvImport | delete | update => exact statement trivial preserves

/-- In every state of a run whose statements all preserve it the tables are so. -/
theorem TableHolds.run (fresh : ∀ n t, P n t []) (start : ∀ x, TableHolds P x w)
    (run : Reachable env (Preserves P env) w w') : ∀ x, TableHolds P x w' :=
  Reachable.invariant (P := fun w => ∀ x, TableHolds P x w)
    (fun _ _ preserves all _ step => TableHolds.step all fresh step preserves) run start

end Jssql.InterpreterVisitor
