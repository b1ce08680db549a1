import Jssql.Theory.Statements

/-!
The schemas in the context. `CREATE` takes any column list: without a key column
it runs into undefined behaviour, but two columns of one name, or two keys, are
stored like others and every later operation on the table has to live with them.
-/
namespace Jssql.InterpreterVisitor
open Foundation FileHandler

/-- Some columns, exactly one of them a key, and no name twice. -/
structure UsableSchema (schema : Schema) : Prop where
  nonempty : schema ≠ []
  oneKey : (schema.filter isPrimaryKey).length = 1
  distinct : (columnNames schema).Nodup

/-- A schema of the context together with what the other operations rely on. -/
structure UsableTable (ctx : ExecutionContext) (table : Bytes) (schema : Schema) : Prop
    extends UsableSchema schema where
  keyColumn : ∃ name, extractPrimaryKeyColumn schema = .ok name
  keyIndex : ∃ i, primaryKeyIndex schema = .ok i ∧ i < schema.length
  otherColumns : columnsWithoutPk schema + 1 = schema.length
  codes : ∃ codes, ctx.tableColcodes.lookup table = some codes ∧
    (∀ name, name ∈ codes ↔ name ∈ columnNames schema) ∧
    ∀ a b c, codes.lookup a = some c → codes.lookup b = some c → a = b

/-- Every table in the context has a usable schema. -/
def AllUsable (ctx : ExecutionContext) : Prop :=
  ∀ table schema, ctx.untypedTables.lookup table = some schema → UsableTable ctx table schema

/-- A new table is created with a usable column list; 257 columns are too many for
the codes also where the logger is silent. -/
def CreatesUsable (env : Env) (stmt : Statement) (w : World) : Prop :=
  ∀ node, stmt = .create node → node.tableName ∉ w.ctx.untypedTables →
    UsableSchema node.columns ∧ (env.silent = true → node.columns.length ≤ 256)

theorem UsableSchema.findIdx_lt {schema : Schema} (usable : UsableSchema schema) :
    schema.findIdx isPrimaryKey < schema.length := by
  rw [List.findIdx_lt_length]
  have some_ : schema.filter isPrimaryKey ≠ [] := by
    intro none_
    have one := usable.oneKey
    rw [none_] at one
    cases one
  obtain ⟨col, mem⟩ := List.exists_mem_of_ne_nil _ some_
  rw [List.mem_filter] at mem
  exact ⟨col, mem⟩

/-- A usable column list with its codes makes a usable table. -/
theorem UsableSchema.table {ctx : ExecutionContext} {table : Bytes} {schema : Schema}
    (usable : UsableSchema schema) (few : schema.length ≤ 256)
    (codes : ctx.tableColcodes.lookup table = some (columnCodes schema)) :
    UsableTable ctx table schema where
  toUsableSchema := usable
  keyColumn := ⟨_, extractPrimaryKeyColumn_eq_ok.mpr ⟨usable.findIdx_lt, rfl⟩⟩
  keyIndex := by
    have inside := usable.findIdx_lt
    refine ⟨_, ?_, inside⟩
    rw [primaryKeyIndex]
    exact if_pos (by omega)
  otherColumns := by
    cases schema with
    | nil => exact absurd rfl usable.nonempty
    | cons col cols => rfl
  codes := ⟨_, codes, fun name => (columnCodesFrom_mem schema name 0 ∅).trans (or_iff_right Finmap.notMem_empty),
    fun _ _ _ ha hb => columnCodes_injective few ha hb⟩

theorem AllUsable.of_same {ctx ctx' : ExecutionContext} (usable : AllUsable ctx)
    (tables : ctx'.untypedTables = ctx.untypedTables) (codes : ctx'.tableColcodes = ctx.tableColcodes) :
    AllUsable ctx' := by
  intro table schema known
  rw [tables] at known
  have old := usable table schema known
  exact { old with codes := by rw [codes]; exact old.codes }

/-- Every statement but a `CREATE` of an unusable table keeps the schemas usable. -/
theorem AllUsable.step {env : Env} {stmt : Statement} {w w' : World} (usable : AllUsable w.ctx)
    (creates : CreatesUsable env stmt w) (step : Step env stmt w w') : AllUsable w'.ctx := by
  have other (keeps : stmt.KeepsTables) : AllUsable w'.ctx := by
    obtain ⟨tables, codes⟩ := step.keeps keeps (framed_schemas _ _ _) ⟨rfl, rfl⟩
    exact usable.of_same tables codes
  cases stmt with
  | create node =>
      by_cases known : node.tableName ∈ w.ctx.untypedTables
      · rw [step.create_known known]
        exact usable
      · obtain ⟨columns, silentFew⟩ := creates node rfl known
        obtain ⟨tables, codes⟩ := step.create_schemas known
        have few : node.columns.length ≤ 256 := by
          rcases (step.create_new known).1 with silent | few
          · exact silentFew silent
          · omega
        intro table schema found
        rw [tables] at found
        by_cases same : table = node.tableName
        · subst same
          rw [Finmap.lookup_insert, Option.some.injEq] at found
          subst found
          exact columns.table few (codes ▸ Finmap.lookup_insert _)
        · rw [Finmap.lookup_insert_of_ne _ same] at found
          have old := usable table schema found
          obtain ⟨map, here, oneEach⟩ := old.codes
          refine { old with codes := ⟨map, ?_, oneEach⟩ }
          rw [codes, Finmap.lookup_insert_of_ne _ same]
          exact here
  | drop node =>
      rw [step.drop]
      split
      · intro table schema found
        by_cases same : table = node.tableName
        · rw [same, dropped_untypedTables, Finmap.lookup_erase] at found
          cases found
        · rw [dropped_untypedTables, Finmap.lookup_erase_ne same] at found
          have old := usable table schema found
          exact { old with codes := old.codes }
      · exact usable
  | describe | insert | select | csvImport | delete | update => exact other trivial

/-- In a run whose `CREATE`s of new tables all have usable column lists, the schema of
every table in every state reached is usable. -/
theorem reachable_usable (env : Env) {w w' : World} (initial : AllUsable w.ctx)
    (run : Reachable env (CreatesUsable env) w w') : AllUsable w'.ctx :=
  Reachable.invariant (P := fun w => AllUsable w.ctx)
    (fun _ _ creates usable _ step => usable.step creates step) run initial

/-- The theorem at a table with a key and one column more. -/
theorem reachable_usable_pair : ∃ w', Reachable ⟨false, id⟩ (CreatesUsable ⟨false, id⟩)
    emptyDatabase w' ∧ ascii "t" ∈ w'.ctx.untypedTables ∧ AllUsable w'.ctx := by
  have runs : ∃ w', Step ⟨false, id⟩ (.create ⟨ascii "t", pairSchema.schema⟩) emptyDatabase w' :=
    ⟨_, _, rfl⟩
  obtain ⟨w', step⟩ := runs
  have allowed : CreatesUsable ⟨false, id⟩ (.create ⟨ascii "t", pairSchema.schema⟩)
      emptyDatabase := by
    rintro node ⟨⟩ _
    exact ⟨⟨by decide, by decide, by decide⟩, by rintro ⟨⟩⟩
  have reached : Reachable ⟨false, id⟩ (CreatesUsable ⟨false, id⟩) emptyDatabase w' :=
    .single ⟨_, allowed, step⟩
  refine ⟨w', reached, ?_, reachable_usable _ ?_ reached⟩
  · rw [(step.create_schemas (by rintro ⟨⟩)).1, Finmap.mem_insert]
    exact .inl rfl
  · intro table schema known
    cases known

/-- A column list with one name for two columns is accepted, and they share a code. -/
theorem reachable_not_usable : ∃ w', Reachable ⟨false, id⟩ (fun _ _ => True) emptyDatabase w' ∧
    ¬ AllUsable w'.ctx := by
  have runs : ∃ w', Step ⟨false, id⟩ (.create ⟨ascii "t",
      [⟨ascii "id", [ascii "PRIMARY KEY"]⟩, ⟨ascii "id", []⟩]⟩) emptyDatabase w' := ⟨_, _, rfl⟩
  obtain ⟨w', step⟩ := runs
  refine ⟨w', .single ⟨_, trivial, step⟩, fun usable => ?_⟩
  have schemas := (step.create_schemas (by rintro ⟨⟩)).1
  have found := usable (ascii "t") _ (by rw [schemas, Finmap.lookup_insert])
  exact absurd found.distinct (by decide)

end Jssql.InterpreterVisitor
