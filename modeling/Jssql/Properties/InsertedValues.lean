import Jssql.Theory.ColumnLists
import Jssql.Theory.StoredValues

/-!
The values that `INSERT` gives to columns. A list that names each column once and is as
long as the records gives each value to the column at its place; the others are left to
their defaults. Neither the normalizer nor the validator compares the records with the list:
a value behind its end is dropped, and a column that is named again is overwritten.
-/
namespace Jssql.FileHandler
open Foundation SemanticNormalizer SemanticValidator

variable {n : Nat} {t : TableSchema n} {tables : Map Bytes Schema} {node node' : InsertNode}

/-- The column list names no column twice and is as long as every record. -/
def ListsOnce (schema : Schema) (node : InsertNode) : Prop :=
  (listedColumns schema node).Nodup ∧ ∀ record ∈ node.records, record.length ≤ (listedColumns schema node).length

/-- Each value is the one of the column at its place in the list. -/
def GivesValues (schema : Schema) (columns : List Bytes) (record record' : ValueRecordNode) : Prop :=
  ∀ (j : Nat) (value : Option LiteralNode), record[j]? = some value →
    ∃ name, columns[j]? = some name ∧ record'[findColumn schema name]? = some value

/-- A column that is not named or not given a value is marked for its default. -/
def LeavesDefaults (schema : Schema) (columns : List Bytes) (projectionMask : List Bool)
    (record record' : ValueRecordNode) : Prop :=
  ∀ (i : Nat) (name : Bytes), (columnNames schema)[i]? = some name →
    (∀ j : Nat, columns[j]? = some name → record[j]? = none) → TakesDefault record' projectionMask i

/-- What an accepted statement makes of its records: every value goes to its column, every
other column to its default, and the list is one that may be accepted. -/
def MapsValues (schema : Schema) (node node' : InsertNode) : Prop :=
  List.Forall₂ (fun record record' => GivesValues schema (listedColumns schema node) record record' ∧
    LeavesDefaults schema (listedColumns schema node) node'.projectionMask record record')
    node.records node'.records ∧ ListsOnce schema node

theorem givesValues_normalizeRow {schema : Schema} {columns : List Bytes} (distinct : columns.Nodup)
    (known : ∀ name ∈ columns, findColumn schema name ≠ schema.length) {record : ValueRecordNode}
    (short : record.length ≤ columns.length) :
    GivesValues schema columns record
      (normalizeRow schema record 0 columns (List.replicate schema.length none)) := by
  intro j value given
  have inside : j < columns.length := Nat.lt_of_lt_of_le (List.getElem?_eq_some_iff.mp given).1 short
  have place := List.getElem?_eq_getElem inside
  have placed := normalizeRow_value record columns distinct known 0 (List.replicate schema.length none)
    List.length_replicate j columns[j] place
  refine ⟨columns[j], place, placed.trans ?_⟩
  rw [Nat.zero_add, listedValue, given, Option.getD_some]

theorem leavesDefaults_normalizeRow {schema : Schema} {columns : List Bytes} (distinct : columns.Nodup)
    (known : ∀ name ∈ columns, findColumn schema name ≠ schema.length) (projectionMask : List Bool)
    (record : ValueRecordNode) :
    LeavesDefaults schema columns projectionMask record
      (normalizeRow schema record 0 columns (List.replicate schema.length none)) := by
  intro i name column missing literal given
  by_cases listed : ∃ other ∈ columns, findColumn schema other = i
  · obtain ⟨other, mem, rfl⟩ := listed
    obtain rfl : name = other := by
      rw [getElem?_findColumn (known other mem), Option.some.injEq] at column
      exact column.symm
    obtain ⟨j, inside, place⟩ := List.getElem_of_mem mem
    have place : columns[j]? = some name := by rw [List.getElem?_eq_getElem inside, place]
    have placed := normalizeRow_value record columns distinct known 0 (List.replicate schema.length none)
      List.length_replicate j name place
    rw [Nat.zero_add, listedValue, missing j place, Option.getD_none, given] at placed
    cases placed
    exact .inr rfl
  · have apart (other : Bytes) (mem : other ∈ columns) : findColumn schema other ≠ i := fun same =>
      listed ⟨other, mem, same⟩
    rw [normalizeRow_frame record columns 0 _ apart, List.getElem?_replicate] at given
    split at given <;> cases given

/-- An accepted `INSERT` maps its values if and only if its list names no column twice and
no record has more values than it names. -/
theorem mapsValues_iff {schema : Schema} (known : tables.lookup node.tableName = some schema)
    (normalized : normalizeInsert node tables = (node', .normalized)) :
    MapsValues schema node node' ↔ ListsOnce schema node := by
  obtain ⟨-, mask, records, -⟩ := normalizeInsert_ok known normalized
  have listed := projectionMaskOf_known _ mask
  constructor
  · exact fun maps => maps.2
  · intro once
    refine ⟨?_, once⟩
    rw [records, List.forall₂_map_right_iff, List.forall₂_same]
    exact fun record mem => ⟨givesValues_normalizeRow once.1 listed (once.2 record mem),
      leavesDefaults_normalizeRow once.1 listed _ record⟩

/-- Both columns are listed, the key behind the other. -/
theorem mapsValues_iff_pair :
    let node : InsertNode := ⟨ascii "people", some [ascii "name", ascii "id"],
      [[some ⟨.string, ascii "'x'"⟩, some ⟨.number, ascii "1"⟩]], []⟩
    ∃ node', MapsValues pairSchema.schema node node' ∧
      node'.records = [[some ⟨.number, ascii "1"⟩, some ⟨.string, ascii "'x'"⟩]] := by
  intro node
  let tables : Map Bytes Schema := Finmap.insert (ascii "people") pairSchema.schema ∅
  have known : tables.lookup node.tableName = some pairSchema.schema := Finmap.lookup_insert _
  have once : ListsOnce pairSchema.schema node := by
    refine ⟨by decide, fun record mem => ?_⟩
    rw [List.mem_singleton.mp mem]
    decide
  exact ⟨_, (mapsValues_iff known rfl).mpr once, rfl⟩

/-- A value more than the list has columns is dropped, and of two values for one column
the first is: both statements are accepted. -/
theorem not_mapsValues :
    let w := singleTable (ascii "people") pairSchema (pairFile [] (ascii "x") (by decide)) ∅
    let longer : InsertNode := ⟨ascii "people", some [ascii "id"],
      [[some ⟨.number, ascii "1"⟩, some ⟨.string, ascii "'x'"⟩]], []⟩
    let twice : InsertNode := ⟨ascii "people", some [ascii "id", ascii "id"],
      [[some ⟨.number, ascii "1"⟩, some ⟨.number, ascii "2"⟩]], []⟩
    ∃ longer' twice', normalizeInsert longer w.ctx.untypedTables = (longer', .normalized) ∧
      validateInsertSemantics longer' w.ctx = .ok none ∧
      longer'.records = [[some ⟨.number, ascii "1"⟩, none]] ∧
      ¬ MapsValues pairSchema.schema longer longer' ∧
      normalizeInsert twice w.ctx.untypedTables = (twice', .normalized) ∧
      validateInsertSemantics twice' w.ctx = .ok none ∧
      twice'.records = [[some ⟨.number, ascii "2"⟩, none]] ∧
      ¬ MapsValues pairSchema.schema twice twice' := by
  intro w longer twice
  refine ⟨_, _, rfl, ?_, rfl, ?_, rfl, ?_, rfl, ?_⟩
  · rfl
  · rintro ⟨-, -, short⟩
    exact absurd (short _ List.mem_cons_self) (by decide)
  · rfl
  · rintro ⟨-, distinct, -⟩
    exact absurd distinct (by decide)

end Jssql.FileHandler
