import Jssql.Theory.KeyConditions
import Jssql.Theory.UpdateRuns
import Jssql.Theory.Store

/-!
The rows of a table in the course of a run of the store: which rows a statement can take out
and which it can write, and that a run does no more to the rows of a table than its statements.
-/
namespace Jssql.Store
open Foundation FileHandler InterpreterVisitor SemanticNormalizer

variable {S S' : Store} {stmt : Statement} {answer : Answer} {table : Bytes} {columns columns' : Schema}
  {events : List Event} {csvFiles : Map Bytes Bytes} {row : Record}

/-! What a statement can do to a row -/

/-- The row is one that the statement takes out of its table. -/
inductive Removes (columns : Schema) (row : Record) : Statement → Prop
  | delete {node : DeleteNode} (found : namedMatches columns (strippedWhere columns node.optWhereNode) row = .ok true) :
      Removes columns row (.delete node)
  | deleteKey {node : DeleteNode} (lookup : byKey columns (strippedWhere columns node.optWhereNode) = true)
      (key : HasKey (strippedWhere columns node.optWhereNode) row) : Removes columns row (.delete node)
  | update {node : UpdateNode} (found : whereMatches (normalizeWhereClause node.optWhereNode columns).1 row = .ok true) :
      Removes columns row (.update node)

/-- The row is one that the statement writes to its table, which has the rows. -/
inductive Writes (columns : Schema) (csvFiles : Map Bytes Bytes) (rows : List Record) (row : Record) : Statement → Prop
  | insert {node node' : InsertNode} {tables : Map Bytes Schema} (known : tables.lookup node.tableName = some columns)
      (normalized : normalizeInsert node tables = (node', .normalized)) {record : ValueRecordNode}
      (given : record ∈ node'.records) (written : rowOf columns node'.projectionMask record = .ok row) :
      Writes columns csvFiles rows row (.insert node)
  | csvImport {node : CSVImportNode} {line : Bytes}
      (given : line ∈ getlines ((csvFiles.lookup (removeOuterQuotes node.filePath)).getD []))
      (written : rowOf columns (allTrue columns) (csvRecord line) = .ok row) :
      Writes columns csvFiles rows row (.csvImport node)
  | update {node node' : UpdateNode} {tables : Map Bytes Schema} (known : tables.lookup node.tableName = some columns)
      (normalized : normalizeUpdate node tables = .ok (node', true)) {old : Record}
      (mem : old ∈ rows) (matched : whereMatches node'.optWhereNode old = .ok true)
      (written : rowOf columns (allTrue columns) (stringRecord (updatedRow node' old)) = .ok row) :
      Writes columns csvFiles rows row (.update node)

/-! Steps -/

theorem normalizeUpdate_where {node node' : UpdateNode} {tables : Map Bytes Schema}
    (known : tables.lookup node.tableName = some columns) (h : normalizeUpdate node tables = .ok (node', true)) :
    node'.optWhereNode = (normalizeWhereClause node.optWhereNode columns).1 := by
  simp only [normalizeUpdate, known] at h
  cases key : extractPrimaryKeyColumn columns with
  | error e =>
      rw [key] at h
      cases h
  | ok name =>
      rw [key, ok_bind] at h
      split at h
      · cases h
      · split at h
        · cases h
        · obtain ⟨rfl, -⟩ := Prod.mk.inj (Except.ok.inj h)
          rfl

theorem mem_rowsOf {projectionMask : List Bool} {records : List ValueRecordNode} {news : List Record} {stop : Option Fault}
    (written : rowsOf columns projectionMask records = (news, stop)) (mem : row ∈ news) :
    ∃ record ∈ records, rowOf columns projectionMask record = .ok row := by
  apply mem_mapUntil
  rw [← rowsOf, written]
  exact mem

/-- The rows of the table of a statement that is let through. -/
theorem Effect.changed {stmt' : Statement} {ctx : ExecutionContext} {rows rows' : List Record}
    (effect : Effect columns csvFiles rows stmt' answer rows') (check : checked ctx stmt = .ok (some stmt'))
    (known : ctx.untypedTables.lookup stmt.tableName = some columns) :
    Changed (fun row => Removes columns row stmt) (fun row => Writes columns csvFiles rows row stmt) rows rows' := by
  cases stmt with
  | create node =>
      obtain ⟨-, rfl⟩ := checked_create.mp check
      cases effect
  | drop node =>
      obtain ⟨-, rfl⟩ := checked_drop.mp check
      cases effect
  | describe node =>
      obtain ⟨-, rfl⟩ := checked_describe.mp check
      cases effect
      exact .refl rows
  | insert node =>
      obtain ⟨node', rfl, normalized, -⟩ := checked_insert.mp check
      cases effect
      refine ⟨rows, _, rfl, .refl rows, fun row mem => ?_⟩
      obtain ⟨record, given, written⟩ := mem_rowsOf rfl mem
      exact .insert known normalized given written
  | select node =>
      obtain ⟨node', rfl, -, -⟩ := checked_select.mp check
      cases effect <;> exact .refl rows
  | csvImport node =>
      cases check
      cases effect with
      | csvImport all =>
          refine ⟨rows, _, rfl, .refl rows, fun row mem => ?_⟩
          obtain ⟨_, mapped, written⟩ := mem_rowsOf all mem
          obtain ⟨line, given, rfl⟩ := List.mem_map.mp mapped
          exact .csvImport given written
  | delete node =>
      obtain ⟨node', rfl, normalized, -⟩ := checked_delete.mp check
      obtain ⟨-, where_, -⟩ := normalizeDelete_ok known normalized
      refine .of_pruned ?_
      cases effect with
      | delete =>
          rw [where_]
          exact (sift_pruned _ rows).mono fun row found => .delete found
      | deleteKey lookup key parts =>
          rw [where_] at lookup key
          rw [parts]
          exact .one (.deleteKey lookup key)
      | deleteNoKey => exact .refl rows
      | deleteKeyStopped => exact .refl rows
  | update node =>
      obtain ⟨node', rfl, normalized, -⟩ := checked_update.mp check
      have where_ := normalizeUpdate_where known normalized
      have removed : Pruned (fun row => Removes columns row (.update node)) rows
          (sift (whereMatches node'.optWhereNode) rows).kept :=
        (sift_pruned _ rows).mono fun row found => .update (where_ ▸ found)
      cases effect with
      | updateStopped => exact .of_pruned removed
      | update sifted whole all =>
          subst sifted
          refine ⟨_, _, rfl, removed, fun row mem => ?_⟩
          obtain ⟨_, mapped, written⟩ := mem_rowsOf all mem
          obtain ⟨old, matched, rfl⟩ := List.mem_map.mp mapped
          obtain ⟨mem, found⟩ := mem_taken matched
          exact .update known normalized mem found written

/-- A statement that does not drop the table leaves its columns, and does to its rows what it can. -/
theorem Executes.changed (h : S.Executes stmt answer S') (known : S.schemas.lookup table = some columns)
    (undropped : stmt ≠ .drop ⟨table⟩) : S'.schemas.lookup table = some columns ∧ S'.csvFiles = S.csvFiles ∧
      Changed (fun row => stmt.tableName = table ∧ Removes columns row stmt)
        (fun row => stmt.tableName = table ∧ Writes columns S.csvFiles (S.rows table) row stmt) (S.rows table) (S'.rows table) := by
  cases h with
  | refused | stopped | notThere => exact ⟨known, rfl, .refl _⟩
  | @created node new =>
      have other : table ≠ node.tableName := fun same => new (same ▸ Finmap.mem_of_lookup_eq_some known)
      refine ⟨(lookup_created_of_ne other).trans known, rfl, ?_⟩
      rw [rows_created_of_ne other]
      exact .refl _
  | @dropped node =>
      have other : table ≠ node.tableName := fun same => undropped (by rw [same])
      refine ⟨(lookup_dropped_of_ne other).trans known, rfl, ?_⟩
      rw [rows_dropped_of_ne other]
      exact .refl _
  | effect schemas check here effect =>
      refine ⟨known, rfl, ?_⟩
      by_cases of : table = stmt.tableName
      · subst of
        rw [here] at known
        cases known
        rw [rows_withRows]
        exact (effect.changed check (schemas ▸ here)).mono (fun _ h => ⟨rfl, h⟩) fun _ h => ⟨rfl, h⟩
      · rw [rows_withRows_of_ne of]
        exact .refl _

/-! Runs -/

theorem rowNames_congr (same : SameColumns columns columns') : rowNames columns' = rowNames columns := by
  have names := columnNames_congr same
  have split (columns : Schema) : rowNames columns = (columnNames columns)[columns.findIdx isPrimaryKey]?.toList ++
      (columnNames columns).eraseIdx (columns.findIdx isPrimaryKey) := by
    rw [rowNames, columnNames, columnNames, List.getElem?_map, List.eraseIdx_map]
  rw [split, split, names, findIdx_isPrimaryKey_congr same]

theorem findColumn_congr (same : SameColumns columns columns') : findColumn columns' = findColumn columns := by
  funext name
  rw [findColumn, findColumn, columnNames_congr same]

theorem Removes.congr (same : SameColumns columns columns') (h : Removes columns' row stmt) : Removes columns row stmt := by
  have width : columns'.length = columns.length := same.length_eq.symm
  have where_ (optWhere : Option WhereNode) :
      normalizeWhereClause optWhere columns' = normalizeWhereClause optWhere columns := by
    cases optWhere with
    | none => rfl
    | some w => simp only [normalizeWhereClause, findColumn_congr same, width]
  have stripped (optWhere : Option WhereNode) : strippedWhere columns' optWhere = strippedWhere columns optWhere := by
    simp only [strippedWhere, strippedCondition, indexedCondition, findColumn_congr same]
  have byName (optWhere : Option WhereNode) : namedMatches columns' optWhere row = namedMatches columns optWhere row := by
    simp only [namedMatches, valueNamed, rowNames_congr same]
  have byKey_ (optWhere : Option WhereNode) : byKey columns' optWhere = byKey columns optWhere := by
    rw [byKey, byKey, rowNames_congr same]
  cases h with
  | delete found =>
      rw [stripped, byName] at found
      exact .delete found
  | deleteKey lookup key =>
      rw [stripped] at lookup key
      rw [byKey_] at lookup
      exact .deleteKey lookup key
  | update found =>
      rw [where_] at found
      exact .update found

/-- A statement on the table is executed that can take the row out. -/
def RemovedBy (events : List Event) (table : Bytes) (columns : Schema) (row : Record) : Prop :=
  ∃ stmt answer, .executed stmt answer ∈ events ∧ stmt.tableName = table ∧ Removes columns row stmt

/-- A statement on the table is executed that can write the row. -/
def WrittenBy (events : List Event) (table : Bytes) (columns : Schema) (csvFiles : Map Bytes Bytes) (row : Record) : Prop :=
  ∃ stmt answer, .executed stmt answer ∈ events ∧ stmt.tableName = table ∧
    ∃ columns' rows, SameColumns columns columns' ∧ Writes columns' csvFiles rows row stmt

/-- The table is not dropped. -/
def Undropped (table : Bytes) (events : List Event) : Prop := ∀ answer, Event.executed (.drop ⟨table⟩) answer ∉ events

/-- A run that does not drop the table leaves its columns, and does to its rows what its statements can. -/
theorem run_changed (run : Run Step events S S') (known : S.schemas.lookup table = some columns)
    (undropped : Undropped table events) :
    ∃ columns', S'.schemas.lookup table = some columns' ∧ SameColumns columns columns' ∧
      Changed (RemovedBy events table columns) (WrittenBy events table columns S.csvFiles) (S.rows table) (S'.rows table) := by
  induction run generalizing columns with
  | refl => exact ⟨columns, known, .refl columns, .refl _⟩
  | @cons event events S S₁ S' first _ ih =>
      have later : Undropped table events := fun answer mem => undropped answer (List.mem_cons_of_mem _ mem)
      have step : ∃ columns₁, S₁.schemas.lookup table = some columns₁ ∧ SameColumns columns columns₁ ∧
          S₁.csvFiles = S.csvFiles ∧ Changed (RemovedBy (event :: events) table columns)
            (WrittenBy (event :: events) table columns S.csvFiles) (S.rows table) (S₁.rows table) := by
        cases event with
        | executed stmt answer =>
            have other : stmt ≠ .drop ⟨table⟩ := by
              rintro rfl
              exact undropped answer List.mem_cons_self
            obtain ⟨columns₁, csvFiles, changed⟩ := Executes.changed first known other
            refine ⟨columns, columns₁, .refl columns, csvFiles, changed.mono ?_ ?_⟩
            · rintro row ⟨of, removes⟩
              exact ⟨stmt, answer, List.mem_cons_self, of, removes⟩
            · rintro row ⟨of, writes⟩
              exact ⟨stmt, answer, List.mem_cons_self, of, columns, _, .refl columns, writes⟩
        | restarted =>
            obtain ⟨columns₁, known₁, same⟩ := Restarts.known first known
            obtain ⟨rows, csvFiles, -⟩ := first
            exact ⟨columns₁, known₁, same, csvFiles, rows ▸ .refl _⟩
      obtain ⟨columns₁, known₁, same₁, csvFiles, changed⟩ := step
      obtain ⟨columns', known', same', rest⟩ := ih known₁ later
      refine ⟨columns', known', same₁.trans same', changed.trans (rest.mono ?_ ?_)⟩
      · rintro row ⟨stmt, answer, mem, of, removes⟩
        exact ⟨stmt, answer, List.mem_cons_of_mem _ mem, of, removes.congr same₁⟩
      · rintro row ⟨stmt, answer, mem, of, columns₂, rows, same₂, writes⟩
        exact ⟨stmt, answer, List.mem_cons_of_mem _ mem, of, columns₂, rows, same₁.trans same₂, csvFiles ▸ writes⟩

end Jssql.Store
