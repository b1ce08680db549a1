import Jssql.CLIDriver.RunCLI
import Jssql.Interpreter.InterpreterVisitor
import Jssql.Parser.Parser

/-!
`parseAndExecute` of a buffer: on a parse error nothing of it is executed, and an exception
that a statement throws skips the statements behind it.
-/
namespace Jssql.CLIDriver
open Foundation Lexer

/-- The loop of `visit(ProgramNode&)` inside the `try`. -/
def runProgram (env : Env) : List Statement → Exec (List InterpreterVisitor.Ending)
  | [] => return []
  | stmt :: stmts => do
      match ← InterpreterVisitor.parseAndExecute env stmt with
      | .completed response => return .completed response :: (← runProgram env stmts)
      | .caught e => return [.caught e]

/-- What is printed for a buffer. -/
inductive Outcome where
  | parseError
  | executed (endings : List InterpreterVisitor.Ending)

def parseAndExecute (env : Env) (sql : Bytes) : Exec Outcome :=
  match Parser.yyparse (tokens sql) with
  | none => return .parseError
  | some stmts => return .executed (← runProgram env stmts)

/-- The state in which the process goes on. -/
def continued {α : Type} (p : Exec α) (w : World) : Option World :=
  match p.run w with
  | .ok _ w' => some w'
  | .error _ _ => none

/-- No exception of the constructor is caught. -/
def sqlEngine (env : Env) : Engine World where
  getInstance := continued (constructExecutionContext env)
  parseAndExecute sql := continued (parseAndExecute env sql)

end Jssql.CLIDriver
