import Jssql.DBEngine.FileHandler.Handlers
import Jssql.Services.SemanticValidator

/-!
`InterpreterVisitor` and `parseAndExecute`: a statement is normalized, validated
and handled. An exception ends the statement and the next one runs on the state
it left; an exit or undefined behaviour ends the process.
-/
namespace Jssql.InterpreterVisitor
open Foundation Jssql FileHandler SemanticNormalizer SemanticValidator

/-- What a statement prints: error reports, and the rows of a `SELECT`. -/
structure Response where
  reports : List ErrorReport := []
  rows : Option ResultSet := none

def rejected (code : ErrorCode) (verdict : Verdict) (printed : Option ErrorReport) : Response :=
  { reports := printed.toList ++ verdict.toList ++ [⟨code, []⟩] }

def visitCreate (env : Env) (node : CreateUntypedTableNode) : Exec Response := do
  let report ← createUntypedTable env node
  return { reports := report.toList }

def visitDrop (env : Env) (node : DropTableNode) : Exec Response := do
  let verdict := validateDropSemantics node (← get).ctx
  if verdict.isSome then return rejected .dropGenericInvalidStatement verdict none
  dropTable env node
  return {}

def visitDescribe (node : DescribeNode) : Exec Response := do
  let verdict := validateDescribeSemantics node (← get).ctx
  if verdict.isSome then return rejected .describeGenericInvalidStatement verdict none
  return {}

def visitInsert (env : Env) (node : InsertNode) : Exec Response := do
  let ctx := (← get).ctx
  let (node, normalization) := normalizeInsert node ctx.untypedTables
  let verdict ← lift (validateInsertSemantics node ctx)
  match verdict, normalization with
  | none, .normalized =>
      insertData env node
      return {}
  | verdict, .normalized => return rejected .insertGenericInvalidStatement verdict none
  | verdict, .rejected printed => return rejected .insertGenericInvalidStatement verdict printed

def visitSelect (env : Env) (node : SelectNode) : Exec Response := do
  let ctx := (← get).ctx
  let (node, normalizedSuccessfully) := normalizeSelect node ctx.untypedTables
  let verdict ← lift (validateSelectSemantics node ctx)
  if verdict.isSome || !normalizedSuccessfully then
    return rejected .selectGenericInvalidStatement verdict none
  let results ← selectData env node
  return { rows := some results }

def visitCsvImport (env : Env) (node : CSVImportNode) : Exec Response := do
  performCSVImport env node
  return {}

def visitUpdate (env : Env) (node : UpdateNode) : Exec Response := do
  let ctx := (← get).ctx
  let (node, isNormalized) ← lift (normalizeUpdate node ctx.untypedTables)
  let verdict ← lift (validateUpdateSemantics node ctx)
  if verdict.isSome || !isNormalized then
    return rejected .updateGenericInvalidStatement verdict none
  updateData env node
  return {}

def visitDelete (env : Env) (node : DeleteNode) : Exec Response := do
  let ctx := (← get).ctx
  let (node, isNormalized) := normalizeDelete node ctx.untypedTables
  let verdict ← lift (validateDeleteSemantics node ctx)
  if verdict.isSome || !isNormalized then
    return rejected .deleteGenericInvalidStatement verdict none
  deleteData env node
  return {}

def visit (env : Env) : Statement → Exec Response
  | .create node => visitCreate env node
  | .drop node => visitDrop env node
  | .describe node => visitDescribe node
  | .insert node => visitInsert env node
  | .select node => visitSelect env node
  | .csvImport node => visitCsvImport env node
  | .delete node => visitDelete env node
  | .update node => visitUpdate env node

/-- How a statement ends: exceptions are caught, every other fault ends the process. -/
inductive Ending where
  | completed (response : Response)
  | caught (e : Exception)

def parseAndExecute (env : Env) (stmt : Statement) : Exec Ending :=
  catchException (do return .completed (← visit env stmt)) fun e => return .caught e

/-- One statement takes the process from a state to a state. -/
def Step (env : Env) (stmt : Statement) (w w' : World) : Prop :=
  ∃ ending, (parseAndExecute env stmt).run w = .ok ending w'

/-- Runs whose statements, each with the state it is executed in, are allowed. -/
def Reachable (env : Env) (allowed : Statement → World → Prop) : World → World → Prop :=
  Relation.ReflTransGen fun w w' => ∃ stmt, allowed stmt w ∧ Step env stmt w w'

theorem Reachable.weaken {env : Env} {allowed allowed' : Statement → World → Prop} {w w' : World}
    (run : Reachable env allowed w w') (weaker : ∀ stmt v, allowed stmt v → allowed' stmt v) :
    Reachable env allowed' w w' := by
  induction run with
  | refl => exact .refl
  | tail _ step ih =>
      obtain ⟨stmt, ok, step⟩ := step
      exact ih.tail ⟨stmt, weaker stmt _ ok, step⟩

/-- What every allowed statement preserves holds in every state of a run. -/
theorem Reachable.invariant {env : Env} {allowed : Statement → World → Prop} {P : World → Prop}
    (preserved : ∀ stmt w, allowed stmt w → P w → ∀ w', Step env stmt w w' → P w')
    {w w' : World} (run : Reachable env allowed w w') (initial : P w) : P w' := by
  induction run with
  | refl => exact initial
  | tail _ step ih =>
      obtain ⟨stmt, ok, step⟩ := step
      exact preserved stmt _ ok ih _ step

end Jssql.InterpreterVisitor
