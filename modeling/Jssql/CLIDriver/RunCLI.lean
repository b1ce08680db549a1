import Jssql.DBEngine.Initializers
import Jssql.Parser.Lexer

/-!
`runCLI`: the lines of the input are trimmed, compared with the two commands and collected
until the buffer ends in a semicolon outside quotes. The engine behind the loop is a
parameter; either of its operations may end the process.
-/
namespace Jssql.CLIDriver
open Foundation Lexer

/-! `endsWithSemicolonOutsideQuotes` -/

/-- The two flags of the forward scan. -/
structure QuoteScan where
  inSingleQuote : Bool
  escaped : Bool
deriving DecidableEq

namespace QuoteScan

def start : QuoteScan := ⟨false, false⟩

def step (q : QuoteScan) (c : UInt8) : QuoteScan :=
  if q.escaped then { q with escaped := false }
  else if c = backslash then { q with escaped := true }
  else if c = singleQuote then { q with inSingleQuote := !q.inSingleQuote }
  else q

def run (q : QuoteScan) (s : Bytes) : QuoteScan := s.foldl step q

end QuoteScan

def semicolon : UInt8 := 59

/-- What the backward scan stops at. -/
def lastNonSpace (s : Bytes) : Option UInt8 := s.reverse.find? fun c => !isSpace c

def endsWithSemicolonOutsideQuotes (s : Bytes) : Bool :=
  if (QuoteScan.start.run s).inSingleQuote then false else lastNonSpace s == some semicolon

/-! The loop -/

/-- `ExecutionContext::getInstance` and `parseAndExecute`; no state is left when the process
has ended. -/
structure Engine (σ : Type) where
  getInstance : σ → Option σ
  parseAndExecute : Bytes → σ → Option σ

/-- `passed` collects the buffers that were passed to `parseAndExecute`. -/
structure CLIState (σ : Type) where
  sqlBuffer : Bytes
  initialized : Bool
  passed : List Bytes
  engineState : σ

/-- Why the loop was left. -/
inductive Ending where
  | endOfInput
  | quit
  | tooLarge
  | processEnded
deriving DecidableEq

/-- 1 MB -/
def maxSqlBufferSize : Nat := 1024 * 1024

/-- The two calls of `erase`. -/
def trimLine (line : Bytes) : Bytes := (line.dropWhile isSpace).rdropWhile isSpace

section Loop

variable {σ : Type} (engine : Engine σ)

/-- `INIT` constructs the context once. -/
def initInstance (s : CLIState σ) : CLIState σ × Option Ending :=
  if s.initialized then (s, none)
  else match engine.getInstance s.engineState with
    | some engineState => ({ s with initialized := true, engineState }, none)
    | none => (s, some .processEnded)

/-- The buffer ends in a semicolon outside quotes. -/
def passBuffer (s : CLIState σ) : CLIState σ × Option Ending :=
  if s.initialized then
    let passed := s.passed ++ [s.sqlBuffer]
    match engine.parseAndExecute s.sqlBuffer s.engineState with
    | some engineState => ({ s with sqlBuffer := [], passed, engineState }, none)
    | none => ({ s with passed }, some .processEnded)
  else ({ s with sqlBuffer := [] }, none)

def cliStep (s : CLIState σ) (rawLine : Bytes) : CLIState σ × Option Ending :=
  let line := trimLine rawLine
  if line = ascii "QUIT" then (s, some .quit)
  else if line = ascii "INIT" then initInstance engine s
  else if maxSqlBufferSize < s.sqlBuffer.length ∨ maxSqlBufferSize < line.length then (s, some .tooLarge)
  else
    let s := { s with sqlBuffer := s.sqlBuffer ++ line ++ [newline] }
    if endsWithSemicolonOutsideQuotes s.sqlBuffer then passBuffer engine s else (s, none)

def runLines : List Bytes → CLIState σ → CLIState σ × Ending
  | [], s => (s, .endOfInput)
  | line :: lines, s =>
      match cliStep engine s line with
      | (s, none) => runLines lines s
      | (s, some ending) => (s, ending)

def runCLI (input : Bytes) (engineState : σ) : CLIState σ × Ending :=
  runLines engine (getlines input) ⟨[], false, [], engineState⟩

end Loop

end Jssql.CLIDriver
