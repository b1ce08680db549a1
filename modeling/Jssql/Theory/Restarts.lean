import Jssql.Theory.StoreSteps

/-!
Restarts. The next process reads the columns of a table from the metadata and its index from the
file, so it holds the tables with the rows that they had; and it can always be started.
-/
namespace Jssql.InterpreterVisitor
open Foundation FileHandler Store

variable {env : Env} {w w' : World} {S : Store} {table : Bytes} {n : Nat} {t t' : TableSchema n}

/-- The schema of the table as it is read back. -/
def reread (t : TableSchema n) {columns : Schema} (same : SameColumns t.schema columns) : TableSchema n where
  schema := columns
  pkColName := t.pkColName
  width := same.length_eq.symm.trans t.width
  few := same.length_eq ▸ t.few
  key := (extractPrimaryKeyColumn_congr same).trans t.key

theorem payloadCodes_congr (same : SameColumns t.schema t'.schema) : t'.payloadCodes = t.payloadCodes := by
  have place : t'.pkIdx = t.pkIdx := findIdx_isPrimaryKey_congr same
  have codes : t'.codeOf = t.codeOf := by
    funext name
    rw [TableSchema.codeOf, TableSchema.codeOf, columnCodes_congr same]
  have names : t'.payloadSchema.map (fun col => col.name) = t.payloadSchema.map fun col => col.name := by
    have all : t'.schema.map (fun col => col.name) = t.schema.map fun col => col.name := columnNames_congr same
    rw [TableSchema.payloadSchema, TableSchema.payloadSchema, place, ← List.eraseIdx_map, ← List.eraseIdx_map, all]
  have split (u : TableSchema n) : u.payloadCodes = (u.payloadSchema.map fun col => col.name).map u.codeOf := by
    rw [List.map_map]
    rfl
  rw [split, split, names, codes]

/-- The next process holds a table with the file that it had. -/
theorem reread_held (env : Env) {f : TableFile n} {idx : Index} (held : Held t table w f idx) {text : Bytes}
    (here : listed w.disk table = some text) (read : SameColumns t.schema (parseMetadata text)) :
    Starts env text (w.disk.tableFiles.lookup table) ∧
      Held (reread t read) table (constructed env w.disk) f f.index := by
  have file : w.disk.tableFiles.lookup table = some f.bytes := held.file
  have entry : loadedIndex env (parseMetadata text) ((w.disk.tableFiles.lookup table).getD tableFileHeader) =
      .ok (t.pkColName, f.index) := by
    rw [file]
    exact loadedIndex_file env (reread t read) f
  have state := tableState_constructed env w.disk here entry
  have declared := constructed_declaration env w.disk
  rw [declaration, declaration, declaredTables_disk] at declared
  refine ⟨⟨.inr (reread t read).few, _, entry⟩, ?_, .ofIndex f⟩
  refine ⟨⟨congrArg TableState.schema state, congrArg TableState.colcodes state⟩, ?_, ?_, .ofIndex f, ?_, ?_⟩
  · refine (congrArg TableState.file state).trans ?_
    rw [file]
    rfl
  · exact ⟨_, congrArg TableState.index state, Finmap.lookup_insert _⟩
  · have codes : (reread t read).payloadCodes = t.payloadCodes := payloadCodes_congr read
    rw [codes]
    exact held.indexed
  · rw [(Prod.mk.inj (Prod.mk.inj (Prod.mk.inj declared).2).2).1]
    exact held.noNewFile

/-- The store of the next process: its columns are those that were read. -/
def reopened (env : Env) (w : World) (S : Store) : Store where
  schemas := (constructed env w.disk).ctx.untypedTables
  rows := S.rows
  csvFiles := S.csvFiles

theorem Represents.reopened (rep : Represents w S) (env : Env) :
    S.Restarts (InterpreterVisitor.reopened env w S) ∧
      Represents (constructed env w.disk) (InterpreterVisitor.reopened env w S) := by
  have declared := constructed_declaration env w.disk
  rw [declaration, declaration, declaredTables_disk, Prod.mk.injEq, Prod.mk.injEq, Prod.mk.injEq] at declared
  obtain ⟨metadata, -, newFiles, csvFiles⟩ := declared
  obtain ⟨tables, directory⟩ := rep.directory
  have texts (x : Bytes) : listed (constructed env w.disk).disk x = listed w.disk x := by rw [listed, metadata, listed]
  have each (x : Bytes) : Option.Rel SameColumns (S.schemas.lookup x) ((constructed env w.disk).ctx.untypedTables.lookup x) ∧
      TableIs x (constructed env w.disk) ((constructed env w.disk).ctx.untypedTables.lookup x) (S.rows x) := by
    cases known : S.schemas.lookup x with
    | none =>
        obtain ⟨empty_, file, noNewFile, unlisted⟩ := (rep.tables x).absent known
        have state := tableState_constructed_unlisted env w.disk unlisted
        have schema : (constructed env w.disk).ctx.untypedTables.lookup x = none := congrArg TableState.schema state
        have file' : (constructed env w.disk).disk.tableFiles.lookup x = _ := congrArg TableState.file state
        rw [schema, empty_]
        refine ⟨.none, .unknown schema ?_ (newFiles ▸ noNewFile) ((texts x).trans unlisted)⟩
        rw [file']
        exact file
    | some columns =>
        obtain ⟨n, t, f, idx, text, rfl, held, rows, here, read⟩ := (rep.tables x).present known
        have held' := (reread_held env held here read).2
        rw [held'.registered.schema, ← rows]
        exact ⟨.some read, .known held' ((texts x).trans here) (.refl _)⟩
  exact ⟨⟨rfl, rfl, fun x => (each x).1⟩, rfl, csvFiles.trans rep.csvFiles, ⟨tables, metadata.trans directory⟩,
    fun x => (each x).2⟩

/-- Ended between two statements, the process can be started again. -/
theorem Represents.restartable (rep : Represents w S) (env : Env) :
    Process env .restarted w (constructed env w.disk) := by
  obtain ⟨tables, directory⟩ := rep.directory
  refine constructExecutionContext_ok.mpr ⟨.inl (by rw [directory]; rfl), fun table text here => ?_, rfl⟩
  cases known : S.schemas.lookup table with
  | none =>
      obtain ⟨-, -, -, unlisted⟩ := (rep.tables table).absent known
      rw [here] at unlisted
      cases unlisted
  | some columns =>
      obtain ⟨n, t, f, idx, text', rfl, held, -, here', read⟩ := (rep.tables table).present known
      rw [here] at here'
      cases here'
      exact (reread_held env held here read).1

/-- A restart is one of the store. -/
theorem Represents.restarted (rep : Represents w S) (step : Process env .restarted w w') :
    ∃ S', S.Restarts S' ∧ Represents w' S' := by
  obtain ⟨-, -, rfl⟩ := constructExecutionContext_ok.mp step
  exact ⟨_, rep.reopened env⟩

end Jssql.InterpreterVisitor
