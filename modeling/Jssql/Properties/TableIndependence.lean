import Jssql.Properties.UniqueKeys
import Jssql.Theory.TableLocality

/-!
Tables do not interfere. Of what a process answers about a table, and of what it makes of it,
nothing depends on the statements about other tables, nor on when they are executed.
-/
namespace Jssql.InterpreterVisitor
open Foundation FileHandler

variable {env : Env} {w w' : World} {stmt : Statement} {table x : Bytes}

/-! The other tables -/

theorem framed_view (other : x ≠ table) (w : World) :
    Framed table (fun v => tableView x v = tableView x w) fun _ => True where
  files v files differ h := by
    rw [← h]
    simp only [tableView, tableState, World.setTableFiles, differ x other]
  newFiles v files differ h := by
    rw [← h]
    simp only [tableView, tableState, World.setNewTableFiles, differ x other]
  index v columns h := by
    rw [← h]
    simp only [tableView, tableState, World.setIndices, Finmap.lookup_insert_of_ne _ other]
  counter v count h := by
    rw [← h]
    simp only [tableView, tableState, World.setCounters, Finmap.lookup_insert_of_ne _ other]
  fault _ _ := trivial
  known _ _ _ _ := trivial

theorem Step.elsewhere (step : Step env stmt w w') (other : x ≠ stmt.tableName) : tableView x w' = tableView x w := by
  have statement (keeps : stmt.KeepsTables) : tableView x w' = tableView x w :=
    step.keeps keeps (framed_view other w) rfl
  cases stmt with
  | describe | insert | select | csvImport | delete | update => exact statement trivial
  | create node =>
      have other : x ≠ node.tableName := other
      by_cases known : node.tableName ∈ w.ctx.untypedTables
      · rw [step.create_known known]
      · have kept := ((framed_view other (encoded w node)).recalculateIndicesForTable_keeps env).final
          (s := encoded w node) rfl
        rw [(step.create_new known).2] at kept
        rw [kept, encoded, declared]
        simp only [tableView, tableState, World.setMetadata, Finmap.lookup_insert_of_ne _ other, Option.getD_some,
          AList.lookup_insert_ne other]
  | drop node =>
      have other : x ≠ node.tableName := other
      rw [step.drop]
      split
      · simp only [tableView, tableState, dropped, Finmap.lookup_erase_ne other, Option.getD_some,
          AList.lookup_erase_ne other]
      · rfl

/-! Runs -/

/-- The statements of one process, with what they answer. -/
def Statements (env : Env) : Steps (Statement × Answer) World := fun k => Process env (.executed k.1 k.2)

theorem statements_independent (env : Env) :
    Independent (Statements env) (fun k => k.1.tableName) fun table w => tableView table w where
  enabled {k w w' v} step same := by
    obtain ⟨ending, run, answer⟩ := step
    have ended := parseAndExecute_local env k.1 w v same.symm
    rw [run] at ended
    obtain ⟨v', run', -⟩ := ended.of_ok
    exact ⟨v', ending, run', answer⟩
  own {k w w' v v'} step step' same := by
    obtain ⟨ending, run, -⟩ := step
    obtain ⟨ending', run', -⟩ := step'
    have ended := parseAndExecute_local env k.1 w v same.symm
    rw [run, run'] at ended
    obtain ⟨_, ⟨⟩, same'⟩ := ended.of_ok
    exact same'.symm
  others {k w w' x} step other := by
    obtain ⟨ending, run, -⟩ := step
    exact Step.elsewhere ⟨ending, run⟩ other

variable {ks ls : List (Statement × Answer)}

/-- The statements about a table, and what they answered. -/
def about (table : Bytes) (ks : List (Statement × Answer)) : List (Statement × Answer) :=
  stepsOf (fun k => k.1.tableName) table ks

/-- With the statements about other tables left out, those about the table answer the same and
leave of it the same, in memory and on the disk. -/
theorem other_tables (run : Run (Statements env) ks w w') :
    ∃ v, Run (Statements env) (about table ks) w v ∧ tableView table v = tableView table w' :=
  (statements_independent env).project run rfl

/-- Statements about different tables can be executed in any order. -/
theorem any_order (run : Run (Statements env) ks w w') (order : ∀ table, about table ls = about table ks) :
    ∃ v, Run (Statements env) ls w v ∧ ∀ table, tableView table v = tableView table w' :=
  (statements_independent env).reorder run order

def createPair (table : Bytes) : Statement × Answer := (.create ⟨table, pairSchema.schema⟩, .done)

def twoTables : List (Statement × Answer) := [createPair (ascii "t"), createPair (ascii "u")]

theorem twoTables_run : ∃ w', Run (Statements ⟨false, id⟩) twoTables emptyDatabase w' :=
  ⟨_, .cons ⟨_, rfl, rfl⟩ (.cons ⟨_, rfl, rfl⟩ .refl)⟩

theorem other_tables_twoTables : ∃ w' v, Run (Statements ⟨false, id⟩) twoTables emptyDatabase w' ∧
    Run (Statements ⟨false, id⟩) [createPair (ascii "t")] emptyDatabase v ∧
    tableView (ascii "t") v = tableView (ascii "t") w' := by
  obtain ⟨w', run⟩ := twoTables_run
  have own : ∃ v, Run (Statements ⟨false, id⟩) (about (ascii "t") twoTables) emptyDatabase v ∧
    tableView (ascii "t") v = tableView (ascii "t") w' := other_tables run
  obtain ⟨v, own, same⟩ := own
  exact ⟨w', v, run, own, same⟩

theorem any_order_twoTables : ∃ w' v, Run (Statements ⟨false, id⟩) twoTables emptyDatabase w' ∧
    Run (Statements ⟨false, id⟩) twoTables.reverse emptyDatabase v ∧ ∀ table, tableView table v = tableView table w' := by
  obtain ⟨w', run⟩ := twoTables_run
  have order (table : Bytes) : about table twoTables.reverse = about table twoTables := by
    by_cases of : ascii "t" = table
    · subst of
      rfl
    · have skip : decide ((createPair (ascii "t")).1.tableName = table) = false := decide_eq_false of
      simp [about, stepsOf, twoTables, List.filter_cons, skip]
  obtain ⟨v, run', same⟩ := any_order run order
  exact ⟨w', v, run, run', same⟩

end Jssql.InterpreterVisitor
