import Jssql.Properties.Sessions
import Jssql.Properties.StoreRefinement

/-!
The command line as a store. Whatever is typed in one session after another, the disk holds a
store that the statements of the passed buffers lead to: their texts are short, as a buffer is,
so that only the columns of new tables matter.
-/
namespace Jssql.CLIDriver
open Foundation FileHandler Lexer Store InterpreterVisitor

/-! Buffers -/

section Buffers

variable {σ : Type} {engine : Engine σ} {s s' : CLIState σ}

/-- A buffer is passed with at most a line behind the limit. -/
def ShortBuffers (buffers : List Bytes) : Prop := ∀ sql ∈ buffers, sql.length ≤ 2 * maxSqlBufferSize + 1

theorem cliStep_short {line : Bytes} {ending : Option Ending} (short : ShortBuffers s.passed)
    (step : cliStep engine s line = (s', ending)) : ShortBuffers s'.passed := by
  rw [cliStep] at step
  split at step
  · obtain ⟨rfl, -⟩ := Prod.mk.inj step
    exact short
  · split at step
    · rw [initInstance] at step
      split at step
      · obtain ⟨rfl, -⟩ := Prod.mk.inj step
        exact short
      · split at step
        · obtain ⟨rfl, -⟩ := Prod.mk.inj step
          exact short
        · obtain ⟨rfl, -⟩ := Prod.mk.inj step
          exact short
    · split at step
      · obtain ⟨rfl, -⟩ := Prod.mk.inj step
        exact short
      · next small =>
          have longer : ShortBuffers (s.passed ++ [s.sqlBuffer ++ trimLine line ++ [newline]]) := by
            refine List.forall_mem_append.mpr ⟨short, List.forall_mem_singleton.mpr ?_⟩
            rw [List.length_append, List.length_append, List.length_singleton]
            omega
          dsimp only at step
          split at step
          · rw [passBuffer] at step
            split at step
            · dsimp only at step
              split at step
              · obtain ⟨rfl, -⟩ := Prod.mk.inj step
                exact longer
              · obtain ⟨rfl, -⟩ := Prod.mk.inj step
                exact longer
            · obtain ⟨rfl, -⟩ := Prod.mk.inj step
              exact short
          · obtain ⟨rfl, -⟩ := Prod.mk.inj step
            exact short

theorem runLines_short (lines : List Bytes) (short : ShortBuffers s.passed) :
    ShortBuffers (runLines engine lines s).1.passed := by
  induction lines generalizing s with
  | nil => exact short
  | cons line lines ih =>
      rw [runLines]
      split
      · next s' step => exact ih (cliStep_short short step)
      · next s' ending step => exact cliStep_short short step

theorem runCLI_short (engine : Engine σ) (input : Bytes) (before : σ) :
    ShortBuffers (runCLI engine input before).1.passed :=
  runLines_short (getlines input) (List.forall_mem_nil _)

end Buffers

/-! Statements of short texts -/

variable {env : Env} {w w' : World} {S : Store} {stmt : Statement} {text : Bytes}

/-- The columns of a table that the statement makes can be read from the metadata again. -/
def PlainTables (env : Env) : Statement → Prop
  | .create node => (env.silent = true → node.columns.length ≤ 255) ∧ ∀ col ∈ node.columns, PlainModifiers col
  | _ => True

theorem identifier_of_isName {name : Bytes} (named : IsName name) : Identifier name := by
  have letter (c : UInt8) : Lexer.isIdentStart c = FileHandler.isIdentStart c :=
    congrArg (· || c == 95) (Bool.or_comm ..)
  obtain ⟨c, rest, rfl, start, chars⟩ := ident_head named.1
  refine .mk c rest (letter c ▸ start) fun d mem => ?_
  rw [← letter]
  exact Bool.or_eq_true_iff.mp (chars d mem)

theorem length_literal_le {literal : LiteralNode} (h : Parser.IsLiteral (copiedFrom text) literal) :
    literal.value.length ≤ text.length + 5 := by
  cases h with
  | empty => exact Nat.zero_le _
  | null | true => exact (show 4 ≤ 5 by decide).trans (Nat.le_add_left ..)
  | false => exact Nat.le_add_left ..
  | number copied => exact copied.2.length_le.trans (Nat.le_add_right ..)
  | string copied =>
      obtain ⟨v, -, rfl, inside⟩ := copied
      exact ((List.takeWhile_prefix _).length_le.trans inside.length_le).trans (Nat.le_add_right ..)

theorem length_modifier_le {modifier : Bytes} (h : Parser.IsModifier (copiedFrom text) modifier) :
    modifier ≠ [] ∧ modifier.length ≤ text.length + 13 := by
  cases h with
  | primaryKey => exact ⟨by rintro ⟨⟩, (show 11 ≤ 13 by decide).trans (Nat.le_add_left ..)⟩
  | notNull => exact ⟨by rintro ⟨⟩, (show 8 ≤ 13 by decide).trans (Nat.le_add_left ..)⟩
  | unique => exact ⟨by rintro ⟨⟩, (show 6 ≤ 13 by decide).trans (Nat.le_add_left ..)⟩
  | @default literal value =>
      have := length_literal_le value
      refine ⟨by rintro ⟨⟩, ?_⟩
      rw [List.length_append, show (ascii "DEFAULT ").length = 8 from rfl]
      omega

theorem moderate_of_grammatical (short : text.length ≤ 2 ^ 53) (h : Parser.Grammatical (copiedFrom text) stmt)
    (plain : PlainTables env stmt) : Moderate env stmt := by
  have literals {literal : LiteralNode} (copied : Parser.IsLiteral (copiedFrom text) literal) : Short literal.value := by
    have := length_literal_le copied
    rw [Short]
    omega
  cases stmt with
  | create node =>
      have modifiers : ∀ col ∈ node.columns, ∀ modifier ∈ col.modifiers, modifier ≠ [] ∧ modifier.length ≤ text.length + 13 :=
        fun col mem modifier inside => length_modifier_le ((h.2 col mem).2 modifier inside)
      refine ⟨plain.1, sameColumn_of_plain ?_ ?_ plain.2, fun col mem modifier inside => ?_⟩
      · exact fun col mem => identifier_of_isName (h.2 col mem).1
      · exact fun col mem modifier inside => (modifiers col mem modifier inside).1
      · have := (modifiers col mem modifier inside).2
        rw [Short]
        omega
  | insert node =>
      intro record mem literal inside
      obtain ⟨values, rfl, -, copied⟩ := h.2.2.1.2 record mem
      obtain ⟨_, given, ⟨⟩⟩ := List.mem_map.mp inside
      exact literals (copied literal given)
  | update node => exact ⟨fun assignment mem => literals (h.2.1.2 assignment mem).2, h.2.2.2.2⟩
  | drop | describe | select | csvImport | delete => trivial

/-- What is parsed from the buffers of a session is moderate. -/
theorem moderate_of_parsed {buffers : List Bytes} (short : ShortBuffers buffers) (parsed : ParsedFrom buffers stmt)
    (plain : PlainTables env stmt) : Moderate env stmt := by
  obtain ⟨sql, mem, -, -, -, grammatical⟩ := parsed
  refine moderate_of_grammatical ((short sql mem).trans ?_) grammatical plain
  rw [maxSqlBufferSize]
  omega

/-! Sessions -/

/-- A process that runs on the disk can represent the store. -/
def OnDisk (disk : Disk) (S : Store) : Prop := ∃ w, w.disk = disk ∧ Represents w S

/-- A new process reads the input. -/
def session (env : Env) (input : Bytes) (disk : Disk) : CLIState World × Ending := runCLI (sqlEngine env) input ⟨disk, .empty⟩

/-- The statements that are executed are of a kind. -/
def AllExecuted (allowed : Statement → Prop) (events : List Event) : Prop :=
  ∀ stmt answer, Event.executed stmt answer ∈ events → allowed stmt

theorem run_of_reachable {allowed : Statement → Prop} (reached : Reachable env (fun stmt _ => allowed stmt) w w') :
    ∃ events, Run (Process env) events w w' ∧ AllExecuted allowed events := by
  induction reached using Relation.ReflTransGen.head_induction_on with
  | refl => exact ⟨[], .refl, forall_executed_nil⟩
  | head first _ ih =>
      obtain ⟨stmt, ok, ending, step⟩ := first
      obtain ⟨events, run, all⟩ := ih
      exact ⟨.executed stmt (answerOf ending) :: events, .cons ⟨ending, step, rfl⟩ run,
        forall_executed_cons.mpr ⟨ok, all⟩⟩

/-- The disk that a session leaves holds a store that its statements lead to. -/
theorem session_refines {disk : Disk} (kept : OnDisk disk S) (bounded : S.Bounded) (input : Bytes)
    (plain : ∀ stmt, ParsedFrom (session env input disk).1.passed stmt → PlainTables env stmt) :
    ∃ events S', Run Store.Step events S S' ∧ OnDisk (session env input disk).1.engineState.disk S' ∧ S'.Bounded ∧
      AllExecuted (ParsedFrom (session env input disk).1.passed) events := by
  have short := runCLI_short (sqlEngine env) input ⟨disk, .empty⟩
  have went := session_runCLI (sqlEngine env) input ⟨disk, .empty⟩
  rw [← session] at short went
  obtain ⟨w, rfl, rep⟩ := kept
  cases went with
  | idle _ passed state =>
      refine ⟨[], S, .refl, ⟨w, ?_, rep⟩, bounded, forall_executed_nil⟩
      rw [state]
  | @started w₁ made executed =>
      obtain ⟨_, constructs⟩ := continued_eq_some.mp made
      have restarted : Process env .restarted w w₁ := constructs
      obtain ⟨events, run, all⟩ := run_of_reachable executed.reachable
      have moderate : ModerateEvents env (.restarted :: events) := by
        refine forall_executed_restarted.mpr fun stmt answer mem => ?_
        have parsed := all stmt answer mem
        exact moderate_of_parsed short parsed (plain stmt parsed)
      obtain ⟨S', run', rep', bounded'⟩ := run_refines rep bounded (.cons restarted run) moderate
      exact ⟨.restarted :: events, S', run', ⟨_, rfl, rep'⟩, bounded', forall_executed_restarted.mpr all⟩

/-- A session passes the buffers, and no fault ends its process. -/
def SessionOf (env : Env) : Foundation.Steps (List Bytes) Disk := fun buffers disk disk' => ∃ input,
  (session env input disk).2 ≠ .processEnded ∧ (session env input disk).1.passed = buffers ∧
    (session env input disk).1.engineState.disk = disk'

/-- Whatever is typed in sessions one after the other, the disk holds a store that the statements
of their buffers lead to. -/
theorem sessions_refine {disk disk' : Disk} {sessions : List (List Bytes)} (kept : OnDisk disk S) (bounded : S.Bounded)
    (run : Run (SessionOf env) sessions disk disk')
    (plain : ∀ stmt, ParsedFrom sessions.flatten stmt → PlainTables env stmt) :
    ∃ events S', Run Store.Step events S S' ∧ OnDisk disk' S' ∧ S'.Bounded ∧
      AllExecuted (ParsedFrom sessions.flatten) events := by
  induction run generalizing S with
  | refl => exact ⟨[], S, .refl, kept, bounded, forall_executed_nil⟩
  | @cons buffers sessions disk disk₁ disk' first _ ih =>
      obtain ⟨input, -, rfl, rfl⟩ := first
      have front {stmt : Statement} (parsed : ParsedFrom (session env input disk).1.passed stmt) :
          ParsedFrom (List.flatten ((session env input disk).1.passed :: sessions)) stmt :=
        parsed.mono (List.subset_append_left ..)
      have back {stmt : Statement} (parsed : ParsedFrom sessions.flatten stmt) :
          ParsedFrom (List.flatten ((session env input disk).1.passed :: sessions)) stmt :=
        parsed.mono (List.subset_append_right ..)
      obtain ⟨events, S₁, here, kept₁, bounded₁, typed⟩ :=
        session_refines kept bounded input fun stmt parsed => plain stmt (front parsed)
      obtain ⟨later, S', there, kept', bounded', typed'⟩ := ih kept₁ bounded₁ fun stmt parsed => plain stmt (back parsed)
      refine ⟨events ++ later, S', here.append there, kept', bounded', fun stmt answer mem => ?_⟩
      rcases List.mem_append.mp mem with mem | mem
      · exact front (typed stmt answer mem)
      · exact back (typed' stmt answer mem)

/-- A table that is not there is dropped in the first session, and the second one is left at once. -/
theorem sessions_refine_drop : ∃ disk' events S', Run Store.Step events (Store.noTables ∅) S' ∧ OnDisk disk' S' ∧ S'.Bounded ∧
    AllExecuted (ParsedFrom [ascii "DROP TABLE t;\n"]) events := by
  have lexed : tokens (ascii "DROP TABLE t;\n") = [.kwDrop, .kwTable, .identifier (ascii "t"), .semicolon] := by
    decide +kernel
  have first : (session ⟨false, id⟩ (ascii "INIT\nDROP TABLE t;") emptyDatabase.disk).2 ≠ .processEnded ∧
      (session ⟨false, id⟩ (ascii "INIT\nDROP TABLE t;") emptyDatabase.disk).1.passed = [ascii "DROP TABLE t;\n"] := by
    decide +kernel
  have run : Run (SessionOf ⟨false, id⟩) [[ascii "DROP TABLE t;\n"], []] emptyDatabase.disk _ :=
    .cons ⟨_, first.1, first.2, rfl⟩ (.cons ⟨ascii "QUIT", by decide, rfl, rfl⟩ .refl)
  refine ⟨_, sessions_refine ⟨_, rfl, represents_noTables⟩ bounded_noTables run fun stmt parsed => ?_⟩
  obtain ⟨sql, mem, stmts, parsed, given, -⟩ := parsed
  cases List.mem_singleton.mp mem
  rw [lexed] at parsed
  cases parsed
  cases List.mem_singleton.mp given
  trivial

/-! What is read in a later session -/

/-- A process that is started on the disk answers the `SELECT` so. -/
def Answers (env : Env) (disk : Disk) (node : SelectNode) (results : ResultSet) : Prop :=
  ∃ w, continued (constructExecutionContext env) ⟨disk, .empty⟩ = some w ∧
    Process env (.executed (.select node) (.done (some results))) w w

theorem OnDisk.answers {disk : Disk} (kept : OnDisk disk S) (env : Env) {node : SelectNode} (whole : node.optWhereNode = none)
    {columns : Schema} (known : S.schemas.lookup node.tableName = some columns) {mask : List Bool}
    (asks : Asks node columns mask) : Answers env disk node ((S.rows node.tableName).map (projectRow mask)) := by
  obtain ⟨w, rfl, rep⟩ := kept
  obtain ⟨restarts, rep'⟩ := rep.reopened env
  obtain ⟨columns', here, same⟩ := restarts.known known
  obtain ⟨rows, -, -⟩ := restarts
  have read := rep'.reads env whole here ((Asks.congr same).mpr asks)
  rw [rows] at read
  exact ⟨_, continued_eq_some.mpr ⟨(), rep.restartable env⟩, read⟩

theorem OnDisk.answered {disk : Disk} (kept : OnDisk disk S) {node : SelectNode} (whole : node.optWhereNode = none)
    {results : ResultSet} (answers : Answers env disk node results) : ∃ columns mask,
      S.schemas.lookup node.tableName = some columns ∧ Asks node columns mask ∧
        results = (S.rows node.tableName).map (projectRow mask) := by
  obtain ⟨w, rfl, rep⟩ := kept
  obtain ⟨w₁, made, asked⟩ := answers
  obtain ⟨_, constructs⟩ := continued_eq_some.mp made
  have restarted : Process env .restarted w w₁ := constructs
  obtain ⟨S₁, restarts, rep₁⟩ := rep.restarted restarted
  obtain ⟨-, columns₁, mask, known₁, asks, rfl⟩ := rep₁.answered whole asked
  obtain ⟨columns, known, same⟩ := restarts.knew known₁
  obtain ⟨rows, -, -⟩ := restarts
  exact ⟨columns, mask, known, (Asks.congr same).mp asks, by rw [rows]⟩

end Jssql.CLIDriver
