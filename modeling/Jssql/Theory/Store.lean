import Jssql.Foundation.Runs
import Jssql.Foundation.Sifting
import Jssql.Theory.MetadataText
import Jssql.Theory.Statements

/-!
What the engine is for: a store of tables, with no files, indices, codes or counters. A
statement is refused, is stopped by an exception, or has an effect on the rows of its table;
a restart may change the blanks around the modifiers of the columns and nothing else.

The rows have the value of the key column first, as records do. Where the index decides which
row a condition on the key finds, the store leaves it open whether it finds one.
-/
namespace Jssql
open Foundation

/-- What the caller of a statement sees. -/
inductive Answer where
  | done (results : Option ResultSet := none)
  | refused
  | stopped

/-- Nothing stops it, or a fault does. -/
def Answer.of {ε : Type} : Option ε → Answer
  | none => .done
  | some _ => .stopped

structure Store where
  schemas : Map Bytes Schema
  rows : Bytes → List Record
  csvFiles : Map Bytes Bytes

inductive Event where
  | executed (stmt : Statement) (answer : Answer)
  | restarted

section Events

variable {allowed : Statement → Prop} {stmt : Statement} {answer : Answer} {events : List Event}

theorem forall_executed_cons :
    (∀ stmt' answer', Event.executed stmt' answer' ∈ Event.executed stmt answer :: events → allowed stmt') ↔
      allowed stmt ∧ ∀ stmt' answer', Event.executed stmt' answer' ∈ events → allowed stmt' := by
  constructor
  · intro all
    exact ⟨all stmt answer List.mem_cons_self, fun stmt' answer' mem => all stmt' answer' (List.mem_cons_of_mem _ mem)⟩
  · rintro ⟨first, rest⟩ stmt' answer' mem
    rcases List.mem_cons.mp mem with same | later
    · cases same
      exact first
    · exact rest stmt' answer' later

theorem forall_executed_restarted :
    (∀ stmt' answer', Event.executed stmt' answer' ∈ Event.restarted :: events → allowed stmt') ↔
      ∀ stmt' answer', Event.executed stmt' answer' ∈ events → allowed stmt' := by
  constructor
  · exact fun all stmt' answer' mem => all stmt' answer' (List.mem_cons_of_mem _ mem)
  · intro rest stmt' answer' mem
    rcases List.mem_cons.mp mem with same | later
    · cases same
    · exact rest stmt' answer' later

theorem forall_executed_nil : ∀ stmt' answer', Event.executed stmt' answer' ∈ [] → allowed stmt' :=
  fun _ _ mem => absurd mem List.not_mem_nil

end Events

namespace Store
open FileHandler InterpreterVisitor StrategyDecider ConditionEvaluator

def noTables (csvFiles : Map Bytes Bytes) : Store := ⟨∅, fun _ => [], csvFiles⟩

/-! Rows -/

/-- The names of the columns in the order of the values of a row. -/
def rowNames (columns : Schema) : List Bytes :=
  let place := columns.findIdx isPrimaryKey
  (columns[place]?.map fun col => col.name).toList ++ columnNames (columns.eraseIdx place)

/-- The key value of a record of literals. -/
def keyOf (columns : Schema) (record : ValueRecordNode) : Except Fault Bytes := do
  match ← index record (columns.findIdx isPrimaryKey) with
  | some node => .ok (removeOuterQuotes node.value)
  | none => .error (.undefined .nullPointer)

/-- The row that a record of literals is stored as. -/
def rowOf (columns : Schema) (projectionMask : List Bool) (record : ValueRecordNode) : Except Fault Record := do
  let key ← keyOf columns record
  let values ← payloadValues record projectionMask (columns.findIdx isPrimaryKey) 0 columns
  return key :: values

/-- The rows of a batch up to the first record that has none. -/
def rowsOf (columns : Schema) (projectionMask : List Bool) (records : List ValueRecordNode) :
    List Record × Option Fault :=
  mapUntil (rowOf columns projectionMask) records

def allTrue (columns : Schema) : List Bool := List.replicate columns.length true

/-- The value of the named column: the key's, or that of the last other column of the name. -/
def valueNamed (columns : Schema) (name : Bytes) (row : Record) : Option Bytes :=
  match rowNames columns, row with
  | key :: names, value :: values =>
      if key = name then some value else ((names.zip values).reverse).lookup name
  | _, _ => none

/-- A condition on the column that it names, as `DELETE` understands it. `SELECT` and `UPDATE` go
by the place of the column, in `whereMatches`. -/
def namedMatches (columns : Schema) (optWhere : Option WhereNode) (row : Record) : Except Fault Bool :=
  match optWhere with
  | none => .ok true
  | some ⟨cond⟩ =>
      match valueNamed columns cond.colName row with
      | some value => evaluateComparator value cond.cmp cond.literal
      | none => .ok false

/-- The condition names one key. -/
def byKey (columns : Schema) (optWhere : Option WhereNode) : Bool :=
  isUniqueEqualityLookup optWhere ((rowNames columns).headD [])

/-- The row has the key of the condition. -/
def HasKey (optWhere : Option WhereNode) (row : Record) : Prop :=
  ∃ cond, optWhere = some ⟨cond⟩ ∧ row.head? = some (removeOuterQuotes cond.literal.value)

/-! Statements -/

/-- What a checked statement answers, and what it makes of the rows of its table. -/
inductive Effect (columns : Schema) (csvFiles : Map Bytes Bytes) (rows : List Record) :
    Statement → Answer → List Record → Prop
  | describe {node : DescribeNode} : Effect columns csvFiles rows (.describe node) .done rows
  | insert {node : InsertNode} :
      Effect columns csvFiles rows (.insert node) (.of (rowsOf columns node.projectionMask node.records).2)
        (rows ++ (rowsOf columns node.projectionMask node.records).1)
  | csvImport {node : CSVImportNode} {news : List Record}
      (written : rowsOf columns (allTrue columns)
        ((getlines ((csvFiles.lookup (removeOuterQuotes node.filePath)).getD [])).map csvRecord) = (news, none)) :
      Effect columns csvFiles rows (.csvImport node) .done (rows ++ news)
  | select {node : SelectNode} {matched : List Record} (scan : byKey columns node.optWhereNode = false)
      (whole : (sift (whereMatches node.optWhereNode) rows).stop = none)
      (found : (sift (whereMatches node.optWhereNode) rows).taken = matched) :
      Effect columns csvFiles rows (.select node) (.done (matched.map (projectRow node.projectionMask))) rows
  | selectStopped {node : SelectNode} {e : Fault} (scan : byKey columns node.optWhereNode = false)
      (stop : (sift (whereMatches node.optWhereNode) rows).stop = some e) :
      Effect columns csvFiles rows (.select node) .stopped rows
  | selectKey {node : SelectNode} {row : Record} (lookup : byKey columns node.optWhereNode = true) (mem : row ∈ rows)
      (key : HasKey node.optWhereNode row) (answer : whereMatches node.optWhereNode row = .ok true) :
      Effect columns csvFiles rows (.select node) (.done (some [projectRow node.projectionMask row])) rows
  | selectNoKey {node : SelectNode} (lookup : byKey columns node.optWhereNode = true) :
      Effect columns csvFiles rows (.select node) (.done (some [])) rows
  | selectKeyStopped {node : SelectNode} (lookup : byKey columns node.optWhereNode = true) :
      Effect columns csvFiles rows (.select node) .stopped rows
  | delete {node : DeleteNode} (scan : byKey columns node.optWhereNode = false) :
      Effect columns csvFiles rows (.delete node) (.of (sift (namedMatches columns node.optWhereNode) rows).stop)
        (sift (namedMatches columns node.optWhereNode) rows).kept
  | deleteKey {node : DeleteNode} {before after : List Record} {row : Record}
      (lookup : byKey columns node.optWhereNode = true) (key : HasKey node.optWhereNode row)
      (parts : rows = before ++ row :: after) : Effect columns csvFiles rows (.delete node) .done (before ++ after)
  | deleteNoKey {node : DeleteNode} (lookup : byKey columns node.optWhereNode = true) :
      Effect columns csvFiles rows (.delete node) .done rows
  | deleteKeyStopped {node : DeleteNode} (lookup : byKey columns node.optWhereNode = true) :
      Effect columns csvFiles rows (.delete node) .stopped rows
  | update {node : UpdateNode} {scan : Sifted Record Fault} {news : List Record}
      (sifted : sift (whereMatches node.optWhereNode) rows = scan) (whole : scan.stop = none)
      (written : rowsOf columns (allTrue columns) (scan.taken.map fun row => stringRecord (updatedRow node row)) =
        (news, none)) :
      Effect columns csvFiles rows (.update node) .done (scan.kept ++ news)
  | updateStopped {node : UpdateNode} {e : Fault} (stop : (sift (whereMatches node.optWhereNode) rows).stop = some e) :
      Effect columns csvFiles rows (.update node) .stopped (sift (whereMatches node.optWhereNode) rows).kept

variable (S : Store)

def withRows (table : Bytes) (rows : List Record) : Store := { S with rows := Function.update S.rows table rows }

def created (node : CreateUntypedTableNode) : Store where
  schemas := S.schemas.insert node.tableName node.columns
  rows := Function.update S.rows node.tableName []
  csvFiles := S.csvFiles

def dropped (table : Bytes) : Store where
  schemas := S.schemas.erase table
  rows := Function.update S.rows table []
  csvFiles := S.csvFiles

section Updates

variable {S} {table x : Bytes} {rows : List Record} {node : CreateUntypedTableNode}

theorem rows_withRows : (S.withRows table rows).rows table = rows := Function.update_self ..

theorem rows_withRows_of_ne (of : x ≠ table) : (S.withRows table rows).rows x = S.rows x := Function.update_of_ne of ..

theorem withRows_rows : S.withRows table (S.rows table) = S := by
  rw [withRows, Function.update_eq_self]

theorem lookup_created : (S.created node).schemas.lookup node.tableName = some node.columns := Finmap.lookup_insert _

theorem lookup_created_of_ne (of : x ≠ node.tableName) : (S.created node).schemas.lookup x = S.schemas.lookup x :=
  Finmap.lookup_insert_of_ne _ of

theorem rows_created : (S.created node).rows node.tableName = [] := Function.update_self ..

theorem rows_created_of_ne (of : x ≠ node.tableName) : (S.created node).rows x = S.rows x := Function.update_of_ne of ..

theorem lookup_dropped : (S.dropped table).schemas.lookup table = none := Finmap.lookup_erase ..

theorem lookup_dropped_of_ne (of : x ≠ table) : (S.dropped table).schemas.lookup x = S.schemas.lookup x :=
  Finmap.lookup_erase_ne of

theorem rows_dropped : (S.dropped table).rows table = [] := Function.update_self ..

theorem rows_dropped_of_ne (of : x ≠ table) : (S.dropped table).rows x = S.rows x := Function.update_of_ne of ..

end Updates

/-- The checks see the schemas, and what they see besides is not known here. -/
inductive Executes : Statement → Answer → Store → Prop
  | refused {stmt : Statement} {ctx : ExecutionContext} (schemas : ctx.untypedTables = S.schemas)
      (check : checked ctx stmt = .ok none) : Executes stmt .refused S
  | stopped {stmt : Statement} {ctx : ExecutionContext} {e : Exception} (schemas : ctx.untypedTables = S.schemas)
      (check : checked ctx stmt = .error (.exception e)) : Executes stmt .stopped S
  | created {node : CreateUntypedTableNode} (new : node.tableName ∉ S.schemas) (few : node.columns.length ≤ 255)
      {key : Bytes} (hasKey : extractPrimaryKeyColumn node.columns = .ok key) :
      Executes (.create node) .done (S.created node)
  | dropped {node : DropTableNode} (known : node.tableName ∈ S.schemas) :
      Executes (.drop node) .done (S.dropped node.tableName)
  | notThere {node : CSVImportNode} (unknown : node.tableName ∉ S.schemas) : Executes (.csvImport node) .stopped S
  | effect {stmt stmt' : Statement} {ctx : ExecutionContext} {columns : Schema} {answer : Answer} {rows : List Record}
      (schemas : ctx.untypedTables = S.schemas) (check : checked ctx stmt = .ok (some stmt'))
      (known : S.schemas.lookup stmt.tableName = some columns)
      (effect : Effect columns S.csvFiles (S.rows stmt.tableName) stmt' answer rows) :
      Executes stmt answer (S.withRows stmt.tableName rows)

/-- The columns of one list are those of the other but for blanks around the modifiers. -/
abbrev SameColumns (columns columns' : Schema) : Prop := List.Forall₂ SameColumn columns columns'

/-- What is left of a column without the blanks around its modifiers. -/
def trimmed (col : UntypedColumnDefNode) : Bytes × List Bytes := (col.name, col.modifiers.map trim)

theorem sameColumns_iff {columns columns' : Schema} :
    SameColumns columns columns' ↔ columns'.map trimmed = columns.map trimmed := by
  rw [← forall₂_map_eq, SameColumns]
  refine iff_of_eq (congrArg (List.Forall₂ · columns columns') (funext₂ fun col col' => propext ?_))
  rw [SameColumn, forall₂_map_eq, trimmed, trimmed, Prod.mk.injEq]

theorem SameColumns.refl (columns : Schema) : SameColumns columns columns := sameColumns_iff.mpr rfl

theorem SameColumns.trans {columns columns' columns'' : Schema} (h : SameColumns columns columns')
    (h' : SameColumns columns' columns'') : SameColumns columns columns'' :=
  sameColumns_iff.mpr ((sameColumns_iff.mp h').trans (sameColumns_iff.mp h))

inductive Restarts : Store → Prop
  | intro {S' : Store} (rows : S'.rows = S.rows) (csvFiles : S'.csvFiles = S.csvFiles)
      (schemas : ∀ table, Option.Rel SameColumns (S.schemas.lookup table) (S'.schemas.lookup table)) : Restarts S'

/-- A table is there before a restart and behind it. -/
theorem Restarts.known {S S' : Store} (h : S.Restarts S') {table : Bytes} {columns : Schema}
    (known : S.schemas.lookup table = some columns) :
    ∃ columns', S'.schemas.lookup table = some columns' ∧ SameColumns columns columns' := by
  obtain ⟨-, -, schemas⟩ := h
  have same := schemas table
  rw [known] at same
  generalize S'.schemas.lookup table = found at same
  cases same with
  | some same => exact ⟨_, rfl, same⟩

theorem Restarts.knew {S S' : Store} (h : S.Restarts S') {table : Bytes} {columns' : Schema}
    (known : S'.schemas.lookup table = some columns') :
    ∃ columns, S.schemas.lookup table = some columns ∧ SameColumns columns columns' := by
  obtain ⟨-, -, schemas⟩ := h
  have same := schemas table
  rw [known] at same
  generalize S.schemas.lookup table = found at same
  cases same with
  | some same => exact ⟨_, rfl, same⟩

def Step : Steps Event Store
  | .executed stmt answer, S, S' => S.Executes stmt answer S'
  | .restarted, S, S' => S.Restarts S'

end Store
end Jssql
