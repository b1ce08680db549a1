import Jssql.Theory.ColumnLists
import Jssql.Theory.MarkedRecords
import Jssql.Theory.NamedColumns
import Jssql.Theory.RecordBuffer

/-!
What a `SELECT` by scan returns. With the key in front of the schema the values of a
record stand in the order of the columns, so the mask picks the values of the listed
columns and the condition sees the value of the column that it names.
-/
namespace Jssql.FileHandler
open Foundation Foundation.Stream SemanticNormalizer StrategyDecider

variable {n : Nat} {t : TableSchema n}

/-! The mask -/

theorem normalizeSelect_mask {node node' : SelectNode} {tables : Map Bytes Schema}
    (known : tables.lookup node.tableName = some t.schema) (distinct : (columnNames t.schema).Nodup)
    (normalized : normalizeSelect node tables = (node', true)) :
    node'.projectionMask = (columnNames t.schema).map fun name =>
      decide (name ∈ node.columns.getD (columnNames t.schema)) := by
  obtain ⟨_, _, _, mask, _⟩ := normalizeSelect_ok known normalized
  have unset : List.replicate t.schema.length false = (columnNames t.schema).map fun _ => false := by
    rw [List.map_const', columnNames, List.length_map]
  rw [unset] at mask
  have listed := projectionMaskOf_eq distinct _ mask
  simpa only [Bool.false_or] using listed

/-! The rows -/

/-- The values of the columns in the list, in the order of the schema. -/
def selectedValues (t : TableSchema n) (listed : List Bytes) (r : TableRecord n) : Record :=
  (((columnNames t.schema).zip r.row).filter fun column => column.1 ∈ listed).map Prod.snd

/-- The headers of `printResultSetAsTable`. -/
def printedHeaders (node : SelectNode) : List Bytes :=
  projectRow node.projectionMask (node.columns.getD [])

theorem projectRow_map {α : Type} (p : α → Bool) (as : List α) : ∀ row : Record, as.length = row.length →
    projectRow (as.map p) row = ((as.zip row).filter fun column => p column.1).map Prod.snd := by
  induction as with
  | nil => intro row width; rw [List.length_eq_zero_iff.mp width.symm]; rfl
  | cons a as ih =>
      intro row width
      cases row with
      | nil => cases width
      | cons value row =>
          have rest := ih row (Nat.succ.inj width)
          rw [projectRow] at rest ⊢
          cases kept : p a <;> simp [kept, rest]

theorem projectRow_names (p : Bytes → Bool) (names : List Bytes) :
    projectRow (names.map p) names = names.filter p := by
  rw [projectRow_map p names names rfl]
  induction names with
  | nil => rfl
  | cons name names ih => cases kept : p name <;> simp [kept, ih]

theorem length_projectRow (mask : List Bool) : ∀ row : Record, mask.length = row.length →
    (projectRow mask row).length = mask.count true := by
  induction mask with
  | nil => intro row width; rw [List.length_eq_zero_iff.mp width.symm]; rfl
  | cons b mask ih =>
      intro row width
      cases row with
      | nil => cases width
      | cons value row =>
          have rest := ih row (Nat.succ.inj width)
          rw [projectRow] at rest ⊢
          cases b <;> simp_all

theorem projectRow_selected {node node' : SelectNode} {tables : Map Bytes Schema}
    (known : tables.lookup node.tableName = some t.schema) (distinct : (columnNames t.schema).Nodup)
    (normalized : normalizeSelect node tables = (node', true)) (r : TableRecord n) :
    projectRow node'.projectionMask r.row =
      selectedValues t (node.columns.getD (columnNames t.schema)) r := by
  have width : (columnNames t.schema).length = r.row.length := by
    rw [columnNames, List.length_map, t.width, r.length_row]
  rw [normalizeSelect_mask known distinct normalized]
  exact projectRow_map _ _ _ width

section Scan

variable (env : Env) {w : World} {f : TableFile n} {node node' : SelectNode}
  (known : w.ctx.untypedTables.lookup node.tableName = some t.schema)
  (distinct : (columnNames t.schema).Nodup) (first : t.pkIdx = 0)
  (normalized : normalizeSelect node w.ctx.untypedTables = (node', true))
  (evaluates : Evaluates (conditionHolds t node.optWhereNode) f.records)

include known distinct first normalized evaluates

/-- The rows of the scan are the selected values of the records that satisfy the condition. -/
theorem selectedRows_normalized : selectedRows node'.projectionMask node'.optWhereNode f.records =
    .ok (((liveRecords f.records).filter (accepts (conditionHolds t node.optWhereNode))).map
      (selectedValues t (node.columns.getD (columnNames t.schema)))) := by
  obtain ⟨-, -, -, -, where_⟩ := normalizeSelect_ok known normalized
  obtain ⟨where_, column⟩ := normalizeWhereClause_ok where_
  have condition : ∀ r ∈ liveRecords f.records, whereMatches node'.optWhereNode r.row =
      .ok (accepts (conditionHolds t node.optWhereNode) r) := by
    intro r live
    obtain ⟨b, answer⟩ := evaluates r live
    rw [accepts_of_ok answer, ← answer, where_]
    exact whereMatches_eq first column r
  rw [selectedRows_of_ok _ condition]
  exact congrArg Except.ok (List.map_congr_left fun r _ => projectRow_selected known distinct normalized r)

theorem selectData_selected (file : HasFile w node.tableName f)
    (scan : isUniqueEqualityLookup node.optWhereNode t.pkColName = false) : (selectData env node').run w =
    .ok (((liveRecords f.records).filter (accepts (conditionHolds t node.optWhereNode))).map
      (selectedValues t (node.columns.getD (columnNames t.schema)))) w := by
  obtain ⟨name, -, width, -, where_⟩ := normalizeSelect_ok known normalized
  have run := selectData_sequential env (t := t) (name ▸ known) (name ▸ file) (width.trans t.width)
    (isUniqueEqualityLookup_normalized where_ _ ▸ scan)
  rw [selectedRows_normalized known distinct first normalized evaluates] at run
  exact outcome_eq_ok.mp run

end Scan

/-- A `SELECT` that scans answers with the matching live records, in file order, each
with the values of the listed columns in schema order, one for each printed header. So
does its scan with the buffer, whatever is in it and whatever is left of it. -/
theorem selectData_rows (env : Env) {w : World} {f : TableFile n} {node node' : SelectNode}
    (known : w.ctx.untypedTables.lookup node.tableName = some t.schema) (file : HasFile w node.tableName f)
    (distinct : (columnNames t.schema).Nodup) (first : t.pkIdx = 0)
    (normalized : normalizeSelect node w.ctx.untypedTables = (node', true))
    (scan : isUniqueEqualityLookup node.optWhereNode t.pkColName = false)
    (evaluates : Evaluates (conditionHolds t node.optWhereNode) f.records) :
    let listed := node.columns.getD (columnNames t.schema)
    let rows := ((liveRecords f.records).filter (accepts (conditionHolds t node.optWhereNode))).map
      (selectedValues t listed)
    (selectData env node').run w = .ok rows w ∧
      printedHeaders node' = (columnNames t.schema).filter (fun name => name ∈ listed) ∧
      (∀ row ∈ rows, row.length = (printedHeaders node').length) ∧
      ∀ moved recordBuffer, ∃ recordBuffer' s, (selectSequentiallyInto env t.schema node'.projectionMask
        node'.optWhereNode moved recordBuffer).run (atRecords f) = .ok (rows, recordBuffer') s := by
  intro listed rows
  obtain ⟨_, columns, width, _, _⟩ := normalizeSelect_ok known normalized
  have mask := normalizeSelect_mask known distinct normalized
  have selected := selectedRows_normalized known distinct first normalized evaluates
  rw [t.width] at width
  refine ⟨selectData_selected env known distinct first normalized evaluates file scan, ?_, ?_, ?_⟩
  · rw [printedHeaders, columns, mask]
    exact projectRow_names _ _
  · intro row mem
    obtain ⟨r, _, rfl⟩ := List.mem_map.mp mem
    rw [← projectRow_selected known distinct normalized r, printedHeaders, columns, Option.getD_some,
      length_projectRow _ _ (width.trans r.length_row.symm), length_projectRow]
    rw [mask, List.length_map]
  · intro moved recordBuffer
    have plain := selectSequentially_records env t width node'.optWhereNode f.header f.records
    rw [selected, ← map_selectSequentiallyInto t.schema _ _ moved recordBuffer] at plain
    have run := outcome_eq_ok.mp plain
    rw [EStateM.run_map] at run
    cases buffered : (selectSequentiallyInto env t.schema node'.projectionMask node'.optWhereNode moved
        recordBuffer).run (split f.header (encodeAll f.records)) with
    | error e s =>
        rw [buffered] at run
        cases run
    | ok read s =>
        rw [buffered] at run
        have same : read.1 = rows := (EStateM.Result.ok.inj run).1
        exact ⟨read.2, s, same ▸ buffered⟩

/-- Two records and a condition on the column behind the key, which is not selected. -/
theorem selectData_rows_pair :
    let file := pairFile [ascii "1", ascii "2"] (ascii "x") (by decide)
    let w := singleTable (ascii "people") pairSchema file ∅
    let node' : SelectNode := ⟨some [ascii "id", ascii "name"], ascii "people",
      some ⟨⟨ascii "name", .eq, ⟨.string, ascii "'x'"⟩, 1⟩⟩, [true, false]⟩
    (selectData ⟨false, id⟩ node').run w = .ok [[ascii "1"], [ascii "2"]] w := by
  intro file w node'
  let node : SelectNode := ⟨some [ascii "id"], ascii "people",
    some ⟨⟨ascii "name", .eq, ⟨.string, ascii "'x'"⟩, 255⟩⟩, []⟩
  have evaluates : Evaluates (conditionHolds pairSchema node.optWhereNode) file.records := by
    intro r live
    obtain ⟨key, _, rfl⟩ := List.mem_map.mp (mem_liveRecords.mp live).1
    exact ⟨true, rfl⟩
  have normalized : normalizeSelect node w.ctx.untypedTables = (node', true) := rfl
  have known := (singleTable_registered (ascii "people") pairSchema file ∅).schema
  have file_ : HasFile w (ascii "people") file := singleTable_hasFile _ _ _ _
  exact (selectData_rows ⟨false, id⟩ known file_ (by decide) rfl normalized rfl evaluates).1

end Jssql.FileHandler
