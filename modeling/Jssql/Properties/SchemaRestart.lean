import Jssql.Theory.Construction
import Jssql.Theory.MetadataText

/-!
Schemas across a restart. `CREATE` writes the column list to the metadata directory
and the next process reads it there, so what a statement about the table does after
the restart depends on what the text keeps of the list.
-/
namespace Jssql.FileHandler
open Foundation InterpreterVisitor

/-! The restart -/

/-- The columns that were read are those of the statement, and the operations find in
them what they would have found before. -/
structure SameSchema (cols read : Schema) : Prop where
  columns : List.Forall₂ SameColumn cols read
  modifiers : List.Forall₂ (fun col col' => getModifiers col'.modifiers = getModifiers col.modifiers ∧
    getDefaultValue col'.modifiers = getDefaultValue col.modifiers) cols read
  keyColumn : extractPrimaryKeyColumn read = extractPrimaryKeyColumn cols
  codes : columnCodes read = columnCodes cols

theorem sameSchema_iff {cols read : Schema} :
    SameSchema cols read ↔ List.Forall₂ SameColumn cols read := by
  refine ⟨fun same => same.columns, fun same => ?_⟩
  refine ⟨same, ?_, extractPrimaryKeyColumn_congr same, columnCodes_congr same⟩
  exact same.imp fun _ _ col => ⟨getModifiers_congr col.2, getDefaultValue_congr col.2⟩

/-- After the statement, however it ends, a new process reads the schema of the table
from the disk and has the one that the statement gave. -/
def SurvivesRestart (env env' : Env) (node : CreateUntypedTableNode) (w : World) : Prop :=
  let disk := (finalState ((visitCreate env node).run w)).disk
  ∃ v read, (initializeUntypedTableMetadata env').run ⟨disk, .empty⟩ = .ok () v ∧
    v.ctx.untypedTables.lookup node.tableName = some read ∧ SameSchema node.columns read

theorem survivesRestart_iff_parsed (env env' : Env) {node : CreateUntypedTableNode} {w : World}
    (new : node.tableName ∉ w.ctx.untypedTables) :
    SurvivesRestart env env' node w ↔
      List.Forall₂ SameColumn node.columns (parseMetadata (metadataText node.columns)) := by
  have metadata := visitCreate_metadata env new
  rw [SurvivesRestart]
  generalize (finalState ((visitCreate env node).run w)).disk = disk at metadata ⊢
  have here : listed disk node.tableName = some (metadataText node.columns) := by
    rw [listed, metadata, Option.getD_some, AList.lookup_insert, Option.join_some]
  have schema := congrArg TableState.schema (tableState_declaredTables disk node.tableName)
  rw [here] at schema
  constructor
  · rintro ⟨v, read, run, known, same⟩
    obtain ⟨_, rfl⟩ := (initializeUntypedTableMetadata_ok env' _ _).mp run
    cases schema.symm.trans known
    exact same.columns
  · intro same
    refine ⟨_, _, (initializeUntypedTableMetadata_ok env' _ _).mpr ⟨?_, rfl⟩, schema,
      sameSchema_iff.mpr same⟩
    rw [metadata]
    exact .inl rfl

/-- A new table's columns survive a restart if and only if no modifier has a comma or
a newline. -/
theorem survivesRestart_iff (env env' : Env) {node : CreateUntypedTableNode} {w : World}
    (grammar : ∀ col ∈ node.columns, UntypedColDef col)
    (new : node.tableName ∉ w.ctx.untypedTables) :
    SurvivesRestart env env' node w ↔ ∀ col ∈ node.columns, PlainModifiers col :=
  (survivesRestart_iff_parsed env env' new).trans (parseMetadata_metadataText_iff grammar)

theorem pairSchema_grammar : ∀ col ∈ pairSchema.schema, UntypedColDef col := by
  rintro col (_ | ⟨_, _ | ⟨_, ⟨⟩⟩⟩)
  · refine ⟨.of_letters (by decide), ?_⟩
    rintro m (_ | ⟨_, ⟨⟩⟩)
    exact .primaryKey
  · exact ⟨.of_letters (by decide), by rintro m ⟨⟩⟩

theorem survivesRestart_iff_pair :
    SurvivesRestart ⟨false, id⟩ ⟨false, id⟩ ⟨ascii "t", pairSchema.schema⟩ emptyDatabase ↔
      ∀ col ∈ pairSchema.schema, PlainModifiers col :=
  survivesRestart_iff _ _ pairSchema_grammar (by rintro ⟨⟩)

/-- `CREATE UNTYPED TABLE t (id PRIMARY KEY, c DEFAULT 'a,b')` -/
def commaTable : CreateUntypedTableNode :=
  ⟨ascii "t", [⟨ascii "id", [ascii "PRIMARY KEY"]⟩, ⟨ascii "c", [ascii "DEFAULT 'a,b'"]⟩]⟩

/-- A default with a comma is read back as two modifiers. -/
theorem not_survivesRestart : (∀ col ∈ commaTable.columns, UntypedColDef col) ∧
    ¬ SurvivesRestart ⟨false, id⟩ ⟨false, id⟩ commaTable emptyDatabase := by
  constructor
  · rintro col (_ | ⟨_, _ | ⟨_, ⟨⟩⟩⟩)
    · refine ⟨.of_letters (by decide), ?_⟩
      rintro m (_ | ⟨_, ⟨⟩⟩)
      exact .primaryKey
    · refine ⟨.of_letters (by decide), ?_⟩
      rintro m (_ | ⟨_, ⟨⟩⟩)
      exact .default _ (.string (ascii "a,b"))
  · rw [survivesRestart_iff_parsed _ _ (by rintro ⟨⟩)]
    intro same
    have widths : (parseMetadata (metadataText commaTable.columns)).map (fun col => col.modifiers.length) =
        commaTable.columns.map fun col => col.modifiers.length := by
      have eq := (List.forall₂_map_left_iff.mpr (List.forall₂_map_right_iff.mpr
        (same.imp fun a b (h : SameColumn a b) => h.2.length_eq)))
      exact (List.forall₂_eq_eq_eq ▸ eq).symm
    exact absurd widths (by decide)

end Jssql.FileHandler
