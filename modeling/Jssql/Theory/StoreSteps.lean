import Jssql.Theory.AllTables
import Jssql.Theory.StoreTables

/-!
The process as a store. A state represents a store when its schemas are those of the store,
each table is held with its rows, and the metadata on the disk can be read back as the columns;
a statement then leads to a state that represents the store after a step of the store.
-/
namespace Jssql.InterpreterVisitor
open Foundation FileHandler Store SemanticNormalizer

variable {env : Env} {w w' : World} {S S' : Store} {table : Bytes} {stmt stmt' : Statement}

/-! Statements of the process -/

def answerOf : Ending → Answer
  | .completed response => if response.reports = [] then .done response.rows else .refused
  | .caught _ => .stopped

/-- A statement is executed, or the process ends between two statements and another starts on its disk. -/
def Process (env : Env) : Steps Event World
  | .executed stmt answer, w, w' =>
      ∃ ending, (parseAndExecute env stmt).run w = .ok ending w' ∧ answerOf ending = answer
  | .restarted, w, w' => (constructExecutionContext env).run ⟨w.disk, .empty⟩ = .ok () w'

/-- The answer of a response, where there is one. -/
def responded : Option Response → Answer
  | some response => answerOf (.completed response)
  | none => .stopped

/-- What the checks let through is handled, and the rest changes nothing. -/
theorem process_cases {answer : Answer} (step : Process env (.executed stmt answer) w w') :
    (w' = w ∧ answer = .refused ∧ checked w.ctx stmt = .ok none) ∨
      (w' = w ∧ answer = .stopped ∧ ∃ e, checked w.ctx stmt = .error (.exception e)) ∨
      ∃ stmt' r, checked w.ctx stmt = .ok (some stmt') ∧ Ended (handler env stmt') w r w' ∧ answer = responded r := by
  obtain ⟨ending, run, rfl⟩ := step
  have visited := visit_checked env stmt w
  have ended : ∃ r, Ended (visit env stmt) w r w' ∧ answerOf ending = responded r := by
    rcases visit_of_ending run with ⟨r, rfl, ended⟩ | ⟨e, rfl, ended⟩
    · exact ⟨some r, .returned ended, rfl⟩
    · exact ⟨none, .thrown ended, rfl⟩
  obtain ⟨r, ended, answer⟩ := ended
  rw [answer]
  cases check : checked w.ctx stmt with
  | error e =>
      rw [check] at visited
      obtain ⟨⟨e, rfl⟩, rfl, rfl⟩ := ended.of_error visited
      exact .inr (.inl ⟨rfl, rfl, e, rfl⟩)
  | ok accepted =>
      rw [check] at visited
      cases accepted with
      | none =>
          obtain ⟨response, reported, visited⟩ := visited
          obtain ⟨rfl, rfl⟩ := ended.of_ok visited
          exact .inl ⟨rfl, if_neg reported, rfl⟩
      | some stmt' => exact .inr (.inr ⟨stmt', r, rfl, ended.congr visited, rfl⟩)

/-! Representation -/

/-- What the state has of one table: nothing but a file without records, or a table that is held. -/
inductive TableIs (table : Bytes) (w : World) : Option Schema → List Record → Prop
  | unknown (absent : w.ctx.untypedTables.lookup table = none)
      (file : (w.disk.tableFiles.lookup table).getD tableFileHeader = tableFileHeader)
      (noNewFile : w.disk.newTableFiles.lookup table = none) (unlisted : listed w.disk table = none) :
      TableIs table w none []
  | known {n : Nat} {t : TableSchema n} {f : TableFile n} {idx : Index} (held : Held t table w f idx) {text : Bytes}
      (here : listed w.disk table = some text) (read : SameColumns t.schema (parseMetadata text)) :
      TableIs table w (some t.schema) (rowsIn f.records)

theorem TableIs.absent {columns : Option Schema} {rows : List Record} (h : TableIs table w columns rows)
    (none_ : columns = none) : rows = [] ∧
      (w.disk.tableFiles.lookup table).getD tableFileHeader = tableFileHeader ∧
      w.disk.newTableFiles.lookup table = none ∧ listed w.disk table = none := by
  cases h with
  | unknown _ file noNewFile unlisted => exact ⟨rfl, file, noNewFile, unlisted⟩
  | known => cases none_

theorem TableIs.present {columns : Option Schema} {rows : List Record} (h : TableIs table w columns rows)
    {schema : Schema} (some_ : columns = some schema) : ∃ (n : Nat) (t : TableSchema n) (f : TableFile n) (idx : Index)
      (text : Bytes), t.schema = schema ∧ Held t table w f idx ∧ rowsIn f.records = rows ∧
        listed w.disk table = some text ∧ SameColumns schema (parseMetadata text) := by
  cases h with
  | unknown => cases some_
  | known held here read =>
      cases some_
      exact ⟨_, _, _, _, _, rfl, held, rfl, here, read⟩

structure Represents (w : World) (S : Store) : Prop where
  schemas : w.ctx.untypedTables = S.schemas
  csvFiles : w.disk.csvFiles = S.csvFiles
  directory : ∃ tables, w.disk.metadata = some tables
  tables : ∀ table, TableIs table w (S.schemas.lookup table) (S.rows table)

theorem TableIs.congr {columns : Option Schema} {rows : List Record} (h : TableIs table w columns rows)
    (same : tableState table w' = tableState table w)
    (newFile : w'.disk.newTableFiles.lookup table = w.disk.newTableFiles.lookup table)
    (metadata : listed w'.disk table = listed w.disk table) : TableIs table w' columns rows := by
  cases h with
  | unknown absent file noNewFile unlisted =>
      refine .unknown ((congrArg TableState.schema same).trans absent) ?_ (newFile.trans noNewFile)
        (metadata.trans unlisted)
      rwa [show w'.disk.tableFiles.lookup table = _ from congrArg TableState.file same]
  | known held here read =>
      exact .known ⟨held.toSound.congr same newFile, held.keys⟩ (metadata.trans here) read

/-- No record that the statement writes is too long for a file, and the columns that it gives a table
can be read back from the metadata. -/
def Storable (env : Env) : Statement → World → Prop
  | .create node, _ => (env.silent = true → node.columns.length ≤ 255) ∧
      SameColumns node.columns (parseMetadata (metadataText node.columns))
  | stmt, w => ∀ (n : Nat) (t : TableSchema n) (f : TableFile n),
      w.ctx.untypedTables.lookup stmt.tableName = some t.schema → HasFile w stmt.tableName f → Fits t f w stmt

/-! Statements about a table -/

theorem responded_map {α : Type} {g : α → Response} {results : α → Option ResultSet}
    (plain : ∀ a, (g a).reports = [] ∧ (g a).rows = results a) (a : Option α) :
    responded (a.map g) = answered results a := by
  cases a with
  | none => rfl
  | some a =>
      rw [Option.map_some, responded, answerOf, if_pos (plain a).1, (plain a).2]
      rfl

/-- A handled statement leaves the table held, with the rows that the store says. -/
theorem handled_held {n : Nat} {t : TableSchema n} {f : TableFile n} {idx : Index}
    (held : Held t stmt.tableName w f idx) (check : checked w.ctx stmt = .ok (some stmt')) (keeps : stmt.KeepsTables)
    (fits : Fits t f w stmt) {r : Option Response} (ended : Ended (handler env stmt') w r w') :
    ∃ rows, HeldWith t stmt.tableName w w' rows ∧
      Effect t.schema w.disk.csvFiles (rowsIn f.records) stmt' (responded r) rows := by
  have silent {α : Type} (a : Option α) : responded (a.map fun _ => {}) = answered noResults a :=
    responded_map (fun _ => ⟨rfl, rfl⟩) a
  cases stmt with
  | create | drop => exact keeps.elim
  | describe node =>
      obtain ⟨-, rfl⟩ := checked_describe.mp check
      obtain ⟨rfl, rfl⟩ := ended.of_ok (show (handler env (.describe node)).run w = .ok {} w from rfl)
      exact ⟨_, held.self, .describe⟩
  | insert node =>
      obtain ⟨node', rfl, normalized, -⟩ := checked_insert.mp check
      have name := normalizeInsert_tableName normalized
      rw [Fits, normalized] at fits
      obtain ⟨rs, appended⟩ := writtenRecords_appended (.inl rfl) node'.records fits
      obtain ⟨a, rfl, inner⟩ := ended.of_return
      rw [silent]
      rw [show (Statement.insert node).tableName = node'.tableName from name.symm] at held ⊢
      exact held.insertData appended inner
  | csvImport node =>
      cases check
      obtain ⟨rs, appended⟩ := writtenRecords_appended (.inl rfl) (csvRecords w node) fits
      obtain ⟨a, rfl, inner⟩ := ended.of_return
      rw [silent]
      exact held.performCSVImport appended inner
  | select node =>
      obtain ⟨node', rfl, normalized, -⟩ := checked_select.mp check
      obtain ⟨name, -, width, -⟩ := normalizeSelect_ok held.registered.schema normalized
      rw [t.width] at width
      obtain ⟨a, rfl, inner⟩ := ended.of_return
      rw [@responded_map _ _ some fun _ => ⟨rfl, rfl⟩]
      rw [show (Statement.select node).tableName = node'.tableName from name.symm] at held ⊢
      obtain ⟨rfl, effect⟩ := held.selectData width inner
      exact ⟨_, held.self, effect⟩
  | delete node =>
      obtain ⟨node', rfl, normalized, -⟩ := checked_delete.mp check
      obtain ⟨name, where_, columns⟩ := normalizeDelete_ok held.registered.schema normalized
      have column : ColumnKnown t node'.optWhereNode := by
        rw [where_]
        intro v hv
        obtain ⟨v', given, rfl⟩ := Option.map_eq_some_iff.mp hv
        exact columns v' given
      obtain ⟨a, rfl, inner⟩ := ended.of_return
      rw [silent]
      rw [show (Statement.delete node).tableName = node'.tableName from name.symm] at held ⊢
      exact held.deleteData column inner
  | update node =>
      obtain ⟨node', rfl, normalized, -⟩ := checked_update.mp check
      obtain ⟨name, ready, -⟩ := normalizeUpdate_ok held.registered.schema normalized
      obtain ⟨rs, appended⟩ := writtenRecords_appended (.inr rfl)
        (updatedRecords node' (updateMarks env w node' f.records).matched) fun r hr => by
          obtain ⟨record, mem, written⟩ := mem_writtenRecords hr
          obtain ⟨old, hold, rfl⟩ := List.mem_map.mp mem
          exact fits node' normalized old (mem_matched hold).1 r written
      obtain ⟨a, rfl, inner⟩ := ended.of_return
      rw [silent]
      rw [show (Statement.update node).tableName = node'.tableName from name.symm] at held ⊢
      exact held.updateData ready appended inner

/-! Steps of the store -/

theorem Represents.withRows {n : Nat} {t : TableSchema n} {rows : List Record} (rep : Represents w S)
    (known : S.schemas.lookup table = some t.schema) {text : Bytes} (here : listed w.disk table = some text)
    (read : SameColumns t.schema (parseMetadata text)) (after : HeldWith t table w w' rows) :
    Represents w' (S.withRows table rows) where
  schemas := after.1.schemas.trans rep.schemas
  csvFiles := after.1.csvFiles.trans rep.csvFiles
  directory := by rw [after.1.metadata]; exact rep.directory
  tables x := by
    obtain ⟨same, f', idx', held, rfl⟩ := after
    have metadata (x : Bytes) : listed w'.disk x = listed w.disk x := by rw [listed, same.metadata, listed]
    by_cases of : x = table
    · subst of
      rw [show (S.withRows x (rowsIn f'.records)).schemas.lookup x = _ from known, rows_withRows]
      exact .known held ((metadata x).trans here) read
    · rw [rows_withRows_of_ne of]
      exact (rep.tables x).congr (same.tables x of) (by rw [same.newTableFiles]) (metadata x)

theorem Represents.created {node : CreateUntypedTableNode} (rep : Represents w S) (new : node.tableName ∉ S.schemas)
    (storable : Storable env (.create node) w) {r : Option Response} (ended : Ended (visitCreate env node) w r w')
    (step : InterpreterVisitor.Step env (.create node) w w') :
    S.Executes (.create node) (responded r) (S.created node) ∧ Represents w' (S.created node) := by
  rw [← rep.schemas] at new
  have columns : node.columns.length ≤ 255 := (step.create_new new).1.elim storable.1 id
  obtain ⟨schemas, -⟩ := step.create_schemas new
  have absent : S.schemas.lookup node.tableName = none := by
    rw [← rep.schemas]
    exact Finmap.lookup_eq_none.mpr new
  obtain ⟨-, file, noNewFile, -⟩ := (rep.tables node.tableName).absent absent
  rcases visitCreate_sound new columns file noNewFile with ⟨v, undefined⟩ | ⟨v, n, t, made, same, sound⟩
  · obtain ⟨⟨_, ⟨⟩⟩, -⟩ := ended.of_error undefined
  obtain ⟨rfl, rfl⟩ := ended.of_ok made
  have framed : IndexFramed node.tableName (fun u => u.disk.metadata = (encoded w node).disk.metadata ∧
      u.disk.csvFiles = w.disk.csvFiles) fun _ => True :=
    ⟨fun _ _ _ h => h, fun _ _ _ h => h, fun _ _ h => h, fun _ _ => trivial, fun _ _ _ _ => trivial⟩
  obtain ⟨metadata, csvFiles⟩ := (framed.recalculateIndicesForTable_keeps env).final (s := encoded w node) ⟨rfl, rfl⟩
  rw [(step.create_new new).2] at metadata csvFiles
  have texts (x : Bytes) : listed w'.disk x = if x = node.tableName then some (metadataText node.columns)
      else listed w.disk x := by
    rw [listed, metadata, show (encoded w node).disk.metadata = some ((w.disk.metadata.getD ∅).insert node.tableName
      (some (metadataText node.columns))) from rfl, Option.getD_some]
    split
    next of => rw [of, AList.lookup_insert, Option.join_some]
    next of => rw [AList.lookup_insert_ne of, listed]
  refine ⟨.created ?_ columns (same ▸ t.key), ?_⟩
  · rwa [← rep.schemas]
  · refine ⟨?_, csvFiles.trans rep.csvFiles, ⟨_, metadata⟩, fun x => ?_⟩
    · rw [schemas, rep.schemas]
      rfl
    · by_cases of : x = node.tableName
      · subst of
        have listing := texts node.tableName
        rw [if_pos rfl] at listing
        rw [lookup_created, rows_created, ← same]
        exact .known ⟨sound, .ofIndex _⟩ listing (same ▸ storable.2)
      · have kept := ((framed_elsewhere of (encoded w node)).recalculateIndicesForTable_keeps env).final
          (s := encoded w node) ⟨rfl, rfl⟩
        rw [(step.create_new new).2] at kept
        rw [lookup_created_of_ne of, rows_created_of_ne of]
        refine (rep.tables x).congr (kept.1.trans ?_) kept.2 ((texts x).trans (if_neg of))
        simp only [tableState, encoded, declared, World.setMetadata, Finmap.lookup_insert_of_ne _ of]

theorem Represents.dropped {node : DropTableNode} (rep : Represents w S) (known : node.tableName ∈ S.schemas)
    {r : Option Response} (ended : Ended (handler env (.drop node)) w r w') :
    S.Executes (.drop node) (responded r) (S.dropped node.tableName) ∧ Represents w' (S.dropped node.tableName) := by
  obtain ⟨schema, found⟩ := Finmap.mem_iff.mp known
  obtain ⟨n, t, f, idx, text, -, -, -, here, -⟩ := (rep.tables node.tableName).present found
  have there : node.tableName ∈ w.disk.metadata.getD ∅ := by
    rw [← AList.lookup_isSome, Option.isSome_iff_exists]
    exact ⟨_, Option.join_eq_some_iff.mp here⟩
  have removed := dropTable_run env node w
  rw [if_pos there] at removed
  obtain ⟨rfl, rfl⟩ := ended.of_ok (run_bind_ok removed _)
  refine ⟨.dropped known, ?_, rep.csvFiles, ⟨_, rfl⟩, fun x => ?_⟩
  · rw [dropped_untypedTables, rep.schemas]
    rfl
  · have texts : listed (InterpreterVisitor.dropped w node.tableName).disk x =
        ((AList.erase node.tableName (w.disk.metadata.getD ∅)).lookup x).join := rfl
    by_cases of : x = node.tableName
    · subst of
      rw [lookup_dropped, rows_dropped]
      refine .unknown (Finmap.lookup_erase ..) ?_ (Finmap.lookup_erase ..) ?_
      · rw [show (InterpreterVisitor.dropped w node.tableName).disk.tableFiles.lookup node.tableName = none
          from Finmap.lookup_erase ..]
        rfl
      · rw [texts, AList.lookup_erase]
        rfl
    · rw [lookup_dropped_of_ne of, rows_dropped_of_ne of]
      refine (rep.tables x).congr ?_ (Finmap.lookup_erase_ne of) ?_
      · simp only [tableState, InterpreterVisitor.dropped, Finmap.lookup_erase_ne of]
      · rw [texts, AList.lookup_erase_ne of, listed]

/-- An import into a table that is not there throws. -/
theorem Represents.notThere {node : CSVImportNode} (rep : Represents w S) (unknown : node.tableName ∉ S.schemas)
    {r : Option Response} (ended : Ended (visitCsvImport env node) w r w') :
    S.Executes (.csvImport node) (responded r) S ∧ Represents w' S := by
  have absent : S.schemas.lookup node.tableName = none := Finmap.lookup_eq_none.mpr unknown
  obtain ⟨empty_, file, noNewFile, unlisted⟩ := (rep.tables node.tableName).absent absent
  rw [← rep.schemas] at unknown
  obtain ⟨-, rfl, rfl⟩ := ended.of_error (visitCsvImport_unknown env unknown)
  have same : SameElsewhere node.tableName w _ := .setTableFile node.tableName
    ((w.disk.tableFiles.lookup node.tableName).getD tableFileHeader) w
  refine ⟨.notThere (rep.schemas ▸ unknown), rep.schemas, rep.csvFiles, rep.directory, fun x => ?_⟩
  by_cases of : x = node.tableName
  · subst of
    rw [absent, empty_]
    refine .unknown (Finmap.lookup_eq_none.mpr unknown) ?_ noNewFile unlisted
    rw [World.setTableFile_tableFiles, Finmap.lookup_insert, Option.getD_some]
    exact file
  · exact (rep.tables x).congr (same.tables x of) rfl rfl

theorem Executes.known_table {handler : Exec Response} (executes : Executes env w stmt handler) (keeps : stmt.KeepsTables)
    (other : ∀ node, stmt ≠ .csvImport node) : stmt.tableName ∈ w.ctx.untypedTables := by
  by_contra unknown
  obtain ⟨node, same⟩ := executes.known keeps unknown
  exact other node same

/-- A statement that the process executes is a step of the store. -/
theorem Represents.step {answer : Answer} (rep : Represents w S) (storable : Storable env stmt w)
    (step : Process env (.executed stmt answer) w w') :
    ∃ S', S.Executes stmt answer S' ∧ Represents w' S' := by
  have step' : InterpreterVisitor.Step env stmt w w' := by
    obtain ⟨ending, run, -⟩ := step
    exact ⟨ending, run⟩
  rcases process_cases step with ⟨rfl, rfl, check⟩ | ⟨rfl, rfl, e, check⟩ | ⟨stmt', r, check, ended, rfl⟩
  · exact ⟨S, .refused rep.schemas check, rep⟩
  · exact ⟨S, .stopped rep.schemas check, rep⟩
  · have about (keeps : stmt.KeepsTables) (fits : ∀ (n : Nat) (t : TableSchema n) (f : TableFile n),
        w.ctx.untypedTables.lookup stmt.tableName = some t.schema → HasFile w stmt.tableName f → Fits t f w stmt)
        (known : stmt.tableName ∈ S.schemas) : ∃ S', S.Executes stmt (responded r) S' ∧ Represents w' S' := by
      obtain ⟨schema, found⟩ := Finmap.mem_iff.mp known
      obtain ⟨n, t, f, idx, text, rfl, held, rows, here, read⟩ := (rep.tables stmt.tableName).present found
      obtain ⟨rows', after, effect⟩ := handled_held held check keeps (fits n t f held.registered.schema held.file) ended
      rw [rep.csvFiles, rows] at effect
      exact ⟨_, .effect rep.schemas check found effect, rep.withRows found here read after⟩
    cases stmt with
    | create node =>
        obtain ⟨new, rfl⟩ := checked_create.mp check
        rw [rep.schemas] at new
        exact ⟨_, rep.created new storable ended step'⟩
    | drop node =>
        obtain ⟨known, rfl⟩ := checked_drop.mp check
        rw [rep.schemas] at known
        exact ⟨_, rep.dropped known ended⟩
    | csvImport node =>
        by_cases known : node.tableName ∈ S.schemas
        · exact about trivial storable known
        · cases check
          exact ⟨S, rep.notThere known ended⟩
    | describe node =>
        exact about trivial storable (rep.schemas ▸ (checked_describe.mp check).1)
    | insert node =>
        obtain ⟨node', -, normalized, valid⟩ := checked_insert.mp check
        have executes : Executes env w _ _ := .insert normalized valid
        exact about trivial storable (rep.schemas ▸ executes.known_table trivial (by rintro _ ⟨⟩))
    | select node =>
        obtain ⟨node', -, normalized, valid⟩ := checked_select.mp check
        have executes : Executes env w _ _ := .select normalized valid
        exact about trivial storable (rep.schemas ▸ executes.known_table trivial (by rintro _ ⟨⟩))
    | delete node =>
        obtain ⟨node', -, normalized, valid⟩ := checked_delete.mp check
        have executes : Executes env w _ _ := .delete normalized valid
        exact about trivial storable (rep.schemas ▸ executes.known_table trivial (by rintro _ ⟨⟩))
    | update node =>
        obtain ⟨node', -, normalized, valid⟩ := checked_update.mp check
        have executes : Executes env w _ _ := .update normalized valid
        exact about trivial storable (rep.schemas ▸ executes.known_table trivial (by rintro _ ⟨⟩))

end Jssql.InterpreterVisitor
