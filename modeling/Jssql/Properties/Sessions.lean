import Jssql.CLIDriver.ParseAndExecute
import Jssql.Properties.LineInput
import Jssql.Properties.ParsedPrograms
import Jssql.Properties.StatementSplitter

/-!
Sessions of the command line. Whatever the input, the database goes through states that
statements of the parsed buffers reach, one after the other; and a text of statements that
throw no exception has the effect of its program, however the lines cut it.
-/
namespace Jssql.CLIDriver
open Foundation Foundation.Pattern Lexer Lexing InterpreterVisitor

/-! Buffers -/

section Buffers

variable {σ : Type} {engine : Engine σ} {s s' : CLIState σ} {start : σ}

/-- The buffers that were passed lead from one state to the other. -/
def Leads (engine : Engine σ) (buffers : List Bytes) (start final : σ) : Prop :=
  buffers.foldlM (fun state sql => engine.parseAndExecute sql state) start = some final

/-- The passed buffers, or all but the one that ended the process, lead to the state. -/
inductive Executed (engine : Engine σ) (start : σ) (s : CLIState σ) : Prop
  | going (leads : Leads engine s.passed start s.engineState)
  | ended {front : List Bytes} {last : Bytes} (passed : s.passed = front ++ [last])
      (leads : Leads engine front start s.engineState)

/-- A line leaves the passed buffers and the state of the engine, or passes one more buffer. -/
theorem cliStep_cases {line : Bytes} {ending : Option Ending} (started : s.initialized = true)
    (step : cliStep engine s line = (s', ending)) : s'.initialized = true ∧
      ((s'.passed = s.passed ∧ s'.engineState = s.engineState) ∨ ∃ sql, s'.passed = s.passed ++ [sql] ∧
        ((ending = none ∧ engine.parseAndExecute sql s.engineState = some s'.engineState) ∨
          (ending ≠ none ∧ s'.engineState = s.engineState))) := by
  rw [cliStep] at step
  split at step
  · obtain ⟨rfl, -⟩ := Prod.mk.inj step
    exact ⟨started, .inl ⟨rfl, rfl⟩⟩
  · split at step
    · rw [initInstance, if_pos started] at step
      obtain ⟨rfl, -⟩ := Prod.mk.inj step
      exact ⟨started, .inl ⟨rfl, rfl⟩⟩
    · split at step
      · obtain ⟨rfl, -⟩ := Prod.mk.inj step
        exact ⟨started, .inl ⟨rfl, rfl⟩⟩
      · dsimp only at step
        split at step
        · rw [passBuffer, if_pos started] at step
          dsimp only at step
          split at step
          · next state executed =>
              obtain ⟨rfl, rfl⟩ := Prod.mk.inj step
              exact ⟨started, .inr ⟨_, rfl, .inl ⟨rfl, executed⟩⟩⟩
          · obtain ⟨rfl, rfl⟩ := Prod.mk.inj step
            exact ⟨started, .inr ⟨_, rfl, .inr ⟨Option.some_ne_none _, rfl⟩⟩⟩
        · obtain ⟨rfl, -⟩ := Prod.mk.inj step
          exact ⟨started, .inl ⟨rfl, rfl⟩⟩

theorem Leads.snoc {buffers : List Bytes} {state final : σ} {sql : Bytes} (leads : Leads engine buffers start state)
    (executed : engine.parseAndExecute sql state = some final) : Leads engine (buffers ++ [sql]) start final := by
  rw [Leads, List.foldlM_append]
  exact Option.bind_eq_some_iff.mpr ⟨state, leads, (bind_pure _).trans executed⟩

theorem executed_runLines (lines : List Bytes) (started : s.initialized = true)
    (leads : Leads engine s.passed start s.engineState) :
    (runLines engine lines s).1.initialized = true ∧ Executed engine start (runLines engine lines s).1 := by
  induction lines generalizing s with
  | nil => exact ⟨started, .going leads⟩
  | cons line lines ih =>
      rw [runLines]
      split
      · next s' step =>
          obtain ⟨started', ⟨passed, state⟩ | ⟨sql, passed, ⟨-, executed⟩ | ⟨ends, -⟩⟩⟩ := cliStep_cases started step
          · exact ih started' (by rwa [passed, state])
          · exact ih started' (passed ▸ leads.snoc executed)
          · exact absurd rfl ends
      · next s' ending step =>
          obtain ⟨started', ⟨passed, state⟩ | ⟨sql, passed, ⟨continues, -⟩ | ⟨-, state⟩⟩⟩ := cliStep_cases started step
          · exact ⟨started', .going (by rwa [passed, state])⟩
          · cases continues
          · exact ⟨started', .ended passed (by rwa [state])⟩

/-- Before `INIT` the engine is left alone, and `INIT` makes the context. -/
theorem cliStep_idle {line : Bytes} {ending : Option Ending} (idle : s.initialized = false)
    (step : cliStep engine s line = (s', ending)) : s'.passed = s.passed ∧
      ((s'.initialized = false ∧ s'.engineState = s.engineState) ∨
        (s'.initialized = true ∧ engine.getInstance s.engineState = some s'.engineState)) := by
  have notStarted : ¬ s.initialized = true := by
    rw [idle]
    exact Bool.false_ne_true
  rw [cliStep] at step
  split at step
  · obtain ⟨rfl, -⟩ := Prod.mk.inj step
    exact ⟨rfl, .inl ⟨idle, rfl⟩⟩
  · split at step
    · rw [initInstance, if_neg notStarted] at step
      split at step
      · next state made =>
          obtain ⟨rfl, -⟩ := Prod.mk.inj step
          exact ⟨rfl, .inr ⟨rfl, made⟩⟩
      · obtain ⟨rfl, -⟩ := Prod.mk.inj step
        exact ⟨rfl, .inl ⟨idle, rfl⟩⟩
    · split at step
      · obtain ⟨rfl, -⟩ := Prod.mk.inj step
        exact ⟨rfl, .inl ⟨idle, rfl⟩⟩
      · dsimp only at step
        split at step
        · rw [passBuffer, if_neg notStarted] at step
          obtain ⟨rfl, -⟩ := Prod.mk.inj step
          exact ⟨rfl, .inl ⟨idle, rfl⟩⟩
        · obtain ⟨rfl, -⟩ := Prod.mk.inj step
          exact ⟨rfl, .inl ⟨idle, rfl⟩⟩

/-- What a session has done: nothing, or the work of its buffers on a new context. -/
inductive Session (engine : Engine σ) (before : σ) (s : CLIState σ) : Prop
  | idle (notStarted : s.initialized = false) (passed : s.passed = []) (state : s.engineState = before)
  | started {start : σ} (made : engine.getInstance before = some start) (executed : Executed engine start s)

theorem session_runLines (lines : List Bytes) (idle : s.initialized = false) (passed : s.passed = []) :
    Session engine s.engineState (runLines engine lines s).1 := by
  induction lines generalizing s with
  | nil => exact .idle idle passed rfl
  | cons line lines ih =>
      rw [runLines]
      split
      · next s' step =>
          obtain ⟨same, ⟨idle', state⟩ | ⟨started, made⟩⟩ := cliStep_idle idle step
          · rw [← state]
            exact ih idle' (same.trans passed)
          · refine .started made (executed_runLines lines started ?_).2
            rw [same, passed]
            rfl
      · next s' ending step =>
          obtain ⟨same, ⟨idle', state⟩ | ⟨started, made⟩⟩ := cliStep_idle idle step
          · exact .idle idle' (same.trans passed) state
          · refine .started made (.going ?_)
            rw [same, passed]
            rfl

theorem session_runCLI (engine : Engine σ) (input : Bytes) (before : σ) :
    Session engine before (runCLI engine input before).1 := by
  have start : Session engine before (runLines engine (getlines input) ⟨[], false, [], before⟩).1 :=
    @session_runLines σ engine ⟨[], false, [], before⟩ (getlines input) rfl rfl
  exact start

end Buffers

/-! Programs -/

variable {env : Env} {w w' : World} {stmts : List Statement}

theorem runProgram_reachable {endings : List InterpreterVisitor.Ending}
    (run : (runProgram env stmts).run w = .ok endings w') : Reachable env (fun stmt _ => stmt ∈ stmts) w w' := by
  induction stmts generalizing w endings with
  | nil =>
      obtain ⟨-, rfl⟩ := run_pure_eq_ok.mp run
      exact .refl
  | cons stmt stmts ih =>
      obtain ⟨ending, w₁, first, rest⟩ := run_bind_eq_ok.mp run
      refine Relation.ReflTransGen.head ⟨stmt, List.mem_cons_self, ending, first⟩ ?_
      cases ending with
      | completed response =>
          obtain ⟨endings, w₂, others, rest⟩ := run_bind_eq_ok.mp rest
          obtain ⟨-, rfl⟩ := run_pure_eq_ok.mp rest
          exact (ih others).weaken fun _ _ mem => List.mem_cons_of_mem _ mem
      | caught e =>
          obtain ⟨-, rfl⟩ := run_pure_eq_ok.mp rest
          exact .refl

theorem continued_eq_some {α : Type} {p : Exec α} : continued p w = some w' ↔ ∃ a, p.run w = .ok a w' := by
  rw [continued]
  cases p.run w with
  | ok a s => simp
  | error e s => simp

/-- The statement is parsed from a buffer. -/
def ParsedFrom (buffers : List Bytes) (stmt : Statement) : Prop :=
  ∃ sql ∈ buffers, ∃ stmts, Parser.yyparse (tokens sql) = some stmts ∧ stmt ∈ stmts ∧
    Parser.Grammatical (copiedFrom sql) stmt

theorem ParsedFrom.mono {buffers buffers' : List Bytes} {stmt : Statement} (subset : buffers ⊆ buffers')
    (parsed : ParsedFrom buffers stmt) : ParsedFrom buffers' stmt := by
  obtain ⟨sql, mem, rest⟩ := parsed
  exact ⟨sql, subset mem, rest⟩

/-- A buffer that cannot be parsed is not executed. -/
theorem parseAndExecute_reachable {sql : Bytes} (executed : (sqlEngine env).parseAndExecute sql w = some w') :
    Reachable env (fun stmt _ => ParsedFrom [sql] stmt) w w' := by
  obtain ⟨outcome, run⟩ := continued_eq_some.mp executed
  rw [parseAndExecute] at run
  split at run
  · obtain ⟨-, rfl⟩ := run_pure_eq_ok.mp run
    exact .refl
  · next stmts parsed =>
      obtain ⟨endings, _, ran, rest⟩ := run_bind_eq_ok.mp run
      obtain ⟨-, rfl⟩ := run_pure_eq_ok.mp rest
      refine (runProgram_reachable ran).weaken fun stmt _ mem => ?_
      exact ⟨sql, List.mem_singleton_self sql, stmts, parsed, mem, (Parser.grammatical_of_text parsed).2 stmt mem⟩

theorem leads_reachable {buffers : List Bytes} (leads : Leads (sqlEngine env) buffers w w') :
    Reachable env (fun stmt _ => ParsedFrom buffers stmt) w w' := by
  induction buffers generalizing w with
  | nil =>
      obtain rfl := Option.some.inj leads
      exact .refl
  | cons sql buffers ih =>
      obtain ⟨w₁, executed, others⟩ := Option.bind_eq_some_iff.mp leads
      have front : Reachable env (fun stmt _ => ParsedFrom (sql :: buffers) stmt) w w₁ :=
        (parseAndExecute_reachable executed).weaken fun _ _ parsed =>
          parsed.mono (List.cons_subset_cons sql (List.nil_subset buffers))
      exact front.trans ((ih others).weaken fun _ _ parsed => parsed.mono (List.subset_cons_self sql buffers))

theorem Executed.reachable {s : CLIState World} (executed : Executed (sqlEngine env) w s) :
    Reachable env (fun stmt _ => ParsedFrom s.passed stmt) w s.engineState := by
  cases executed with
  | going leads => exact leads_reachable leads
  | ended passed leads =>
      rw [passed]
      exact (leads_reachable leads).weaken fun _ _ parsed => parsed.mono (List.subset_append_left ..)

/-- A lexeme of blanks is skipped. -/
theorem skipped_of_spaces {rule : LexRule UInt8 Token} {v : Bytes} (plain : rule ∈ lexemeRules)
    (matched : Matches rule.pattern v) (spaces : v.all isSpace = true) : rule.action v = none := by
  have solid (all : ∀ c ∈ v, isSolid c = true) : v = [] := by
    have other : ∀ c : UInt8, isSpace c = true → isSolid c = false := by
      grind [isSpace, isSolid]
    refine List.eq_nil_iff_forall_not_mem.mpr fun c mem => ?_
    have both := other c (List.all_eq_true.mp spaces c mem)
    rw [all c mem] at both
    cases both
  have some_ := lexeme_ne_nil (List.mem_append_left _ plain) matched
  cases taken plain matched with
  | @fixed entry listed =>
      have none_ : ∀ entry ∈ fixedWords, entry.1.all isSpace = true → entry.2 = none := by decide
      exact none_ entry listed spaces
  | ident matched => exact absurd (solid fun c mem => (word_ident matched c mem).1) some_
  | string matched =>
      obtain ⟨body, rfl, -⟩ := QuoteScan.string_cases matched
      have quote := List.all_eq_true.mp spaces singleQuote List.mem_cons_self
      cases quote
  | number matched => exact absurd (solid fun c mem => (word_number matched c mem).1) some_
  | ws _ => rfl

/-- A buffer that the splitter takes ends with the token of its semicolon. -/
theorem tokens_of_endsWithSemicolon {text : Bytes} (valid : WellLexed text)
    (closed : endsWithSemicolonOutsideQuotes text = true) : (tokens text).getLast? = some .semicolon := by
  have closes : ∀ lexeme ∈ lexemes rules text, lexeme.1 ∈ lexemeRules ∧ firstRule rules lexeme.2 = some lexeme.1 :=
    fun lexeme mem => ⟨valid lexeme mem, firstRule_of_mem_lexemes mem⟩
  rw [endsWithSemicolonOutsideQuotes, outside_of_endsWithSemicolon closed, if_neg Bool.false_ne_true, beq_iff_eq,
    ← spelled_lexemes munch_total text, spelled, lastNonSpace_flatten] at closed
  rw [tokens, lex]
  generalize lexemes rules text = ls at closes closed
  induction ls using List.reverseRecOn with
  | nil => cases closed
  | append_singleton front lexeme ih =>
      obtain ⟨rule, v⟩ := lexeme
      rw [List.forall_mem_append, List.forall_mem_singleton] at closes
      obtain ⟨others, listed, first⟩ := closes
      have matched := (matches_of_firstRule first).2
      rw [lastLexeme, List.map_append, List.reverse_append, List.map_cons, List.map_nil, List.reverse_singleton,
        List.singleton_append, List.find?_cons] at closed
      rw [List.filterMap_append]
      by_cases spaces : v.all isSpace = true
      · rw [spaces] at closed
        have skips : rule.action v = none := skipped_of_spaces listed matched spaces
        simp only [List.filterMap_cons, skips, List.filterMap_nil, List.append_nil]
        exact ih others closed
      · rw [Bool.not_eq_true _ |>.mp spaces] at closed
        have piece : IsPiece v := .inl ⟨rule, listed, matched⟩
        obtain rfl : v = [semicolon] := piece.closes.mp closed
        have made : (firstRule rules [semicolon]).bind (fun rule => rule.action [semicolon]) = some .semicolon := by
          decide +kernel
        rw [first] at made
        have token : rule.action [semicolon] = some .semicolon := made
        simp only [List.filterMap_cons, token, List.filterMap_nil]
        exact List.getLast?_concat

def AllCompleted (endings : List InterpreterVisitor.Ending) : Prop := ∀ e, .caught e ∉ endings

theorem runProgram_append {front back : List Statement} {endings : List InterpreterVisitor.Ending}
    (run : (runProgram env (front ++ back)).run w = .ok endings w') (completed : AllCompleted endings) :
    ∃ first w₁ second, (runProgram env front).run w = .ok first w₁ ∧ (runProgram env back).run w₁ = .ok second w' ∧
      AllCompleted second := by
  induction front generalizing w endings with
  | nil => exact ⟨[], w, endings, rfl, run, completed⟩
  | cons stmt front ih =>
      rw [List.cons_append, runProgram] at run
      obtain ⟨ending, w₁, here, rest⟩ := run_bind_eq_ok.mp run
      cases ending with
      | completed response =>
          obtain ⟨others, w₂, later, rest⟩ := run_bind_eq_ok.mp rest
          obtain ⟨rfl, rfl⟩ := run_pure_eq_ok.mp rest
          obtain ⟨first, w₃, second, ran, behind, fine⟩ := ih later fun e mem => completed e (List.mem_cons_of_mem _ mem)
          refine ⟨.completed response :: first, w₃, second, ?_, behind, fine⟩
          exact run_bind_eq_ok.mpr ⟨_, w₁, here, run_bind_eq_ok.mpr ⟨first, w₃, ran, rfl⟩⟩
      | caught e =>
          obtain ⟨rfl, rfl⟩ := run_pure_eq_ok.mp rest
          exact absurd List.mem_cons_self (completed e)

/-- The tokens that are left are those of a program that leads to the final state. -/
def Remains (env : Env) (final : World) (ts : List Token) (w : World) : Prop :=
  ∃ stmts endings, Parser.OptProgram ts stmts ∧ (runProgram env stmts).run w = .ok endings final ∧ AllCompleted endings

theorem Remains.pass {final : World} {sql rest : Bytes}
    (remains : Remains env final (tokens sql ++ tokens rest) w) (ends : (tokens sql).getLast? = some .semicolon) :
    ∃ w₁, (sqlEngine env).parseAndExecute sql w = some w₁ ∧ Remains env final (tokens rest) w₁ := by
  obtain ⟨stmts, endings, sentence, run, completed⟩ := remains
  rcases sentence with ⟨none_, -⟩ | sentence
  · rw [(List.append_eq_nil_iff.mp none_).1] at ends
    cases ends
  · obtain ⟨front, back, rfl, here, later⟩ := Parser.program_split sentence ends
    obtain ⟨first, w₁, second, ran, behind, fine⟩ := runProgram_append run completed
    refine ⟨w₁, continued_eq_some.mpr ⟨.executed first, ?_⟩, back, second, later, behind, fine⟩
    rw [parseAndExecute, Parser.yyparse_of_program here]
    exact run_bind_eq_ok.mpr ⟨first, w₁, ran, rfl⟩

variable {text : Bytes} {s : CLIState World}

theorem runLines_program {final : World} {lines : List Bytes}
    (each : ∀ line ∈ lines, lineFeed ∉ line ∧ trimLine line ≠ ascii "INIT" ∧ trimLine line ≠ ascii "QUIT")
    (h : Progress text (terminated lines) s) (remains : Remains env final (tokens (s.sqlBuffer ++ terminated lines)) s.engineState)
    (short : s.sqlBuffer.length + (terminated lines).length ≤ maxSqlBufferSize + 1) :
    (runLines (sqlEngine env) lines s).2 = .endOfInput ∧ (runLines (sqlEngine env) lines s).1.engineState = final := by
  induction lines generalizing s with
  | nil =>
      refine ⟨rfl, ?_⟩
      obtain ⟨stmts, endings, sentence, run, -⟩ := remains
      rcases sentence with ⟨-, rfl⟩ | sentence
      · exact (run_pure_eq_ok.mp run).2
      · have closed := endsWithSemicolon_of_tokens h.fit.valid (Parser.program_ends sentence)
        have pending := h.pending
        rw [show s.sqlBuffer ++ terminated [] = s.sqlBuffer from List.append_nil _] at closed
        rw [closed] at pending
        cases pending
  | cons line lines ih =>
      rw [List.forall_mem_cons] at each
      obtain ⟨⟨single, noInit, noQuit⟩, others⟩ := each
      have shape : terminated (line :: lines) = line ++ lineFeed :: terminated lines := by
        rw [terminated, List.flatMap_cons, List.append_assoc]
        rfl
      have length := congrArg List.length shape
      rw [List.length_append, List.length_cons] at length
      rw [shape] at h remains
      have trimmed := length_trimLine line
      have same := h.words_line single
      have fit := h.fit.of_words same
      have small : ¬ (maxSqlBufferSize < s.sqlBuffer.length ∨ maxSqlBufferSize < (trimLine line).length) := by omega
      have step : Steps text (terminated lines) (cliStep (sqlEngine env) s line) := h.steps single noInit
      rw [tokens_eq, ← same, ← tokens_eq] at remains
      rw [cliStep, if_neg noQuit, if_neg noInit, if_neg small] at step
      rw [runLines, cliStep, if_neg noQuit, if_neg noInit, if_neg small]
      dsimp only at step ⊢
      by_cases closed : endsWithSemicolonOutsideQuotes (s.sqlBuffer ++ trimLine line ++ [newline]) = true
      · have ends : ∀ c ∈ (s.sqlBuffer ++ trimLine line ++ [newline]).getLast?, c = lineFeed := by
          intro c mem
          rw [List.getLast?_concat] at mem
          exact (Option.some.inj mem).symm
        have lexed := fit.valid.split (outside_of_endsWithSemicolon closed) (parted_of_lineFeed ends)
        have valid : WellLexed (s.sqlBuffer ++ trimLine line ++ [newline]) :=
          fun lexeme mem => fit.valid lexeme (by rw [lexed]; exact List.mem_append_left _ mem)
        rw [tokens_append lexed] at remains
        obtain ⟨w₁, executed, later⟩ := remains.pass (tokens_of_endsWithSemicolon valid closed)
        rw [if_pos closed, passBuffer, if_pos h.started] at step ⊢
        dsimp only at step ⊢
        rw [executed] at step ⊢
        exact ih others step later (by dsimp only; rw [List.length_nil]; omega)
      · rw [if_neg closed] at step ⊢
        refine ih others step remains ?_
        dsimp only
        rw [List.length_append, List.length_append, List.length_singleton]
        omega

/-- A text of statements whose program throws no exception has the effect of the program, when it
is fed line by line. -/
theorem fed_program {text : Bytes} {w w₁ w₂ : World} {stmts : List Statement}
    {endings : List InterpreterVisitor.Ending} (valid : LexicallyValid text) (keeps : LiteralsKeepBreaks text)
    (noCommand : ∀ line ∈ getlines text, trimLine line ≠ ascii "INIT" ∧ trimLine line ≠ ascii "QUIT")
    (short : text.length ≤ maxSqlBufferSize) (made : continued (constructExecutionContext env) w = some w₁)
    (parsed : Parser.yyparse (tokens text) = some stmts) (run : (runProgram env stmts).run w₁ = .ok endings w₂)
    (completed : AllCompleted endings) :
    (fed (sqlEngine env) text w).2 = .endOfInput ∧ (fed (sqlEngine env) text w).1.engineState = w₂ := by
  have fit := wellBroken_of_valid valid keeps
  have same := words_terminated fit.valid
  have lexed : tokens (terminated (getlines text)) = tokens text :=
    (tokens_eq _).trans ((congrArg _ same).trans (tokens_eq text).symm)
  have started : fed (sqlEngine env) text w = runLines (sqlEngine env) (getlines text) (ready w₁) := by
    rw [fed_eq, show (sqlEngine env).getInstance w = some w₁ from made]
  rw [started]
  refine @runLines_program _ text _ _ _ ?_ ?_ ?_ ?_
  · exact fun line mem => ⟨not_mem_getlines text line mem, noCommand line mem⟩
  · refine ⟨rfl, ?_, rfl, fit.of_words same, lexed⟩
    rintro _ ⟨⟩
  · have sentence := Parser.yyparse_eq_some.mp parsed
    rw [Parser.input_of_valid valid, ← lexed] at sentence
    exact ⟨stmts, endings, .inr sentence, run, completed⟩
  · rw [show (ready w₁).sqlBuffer.length = 0 from rfl]
    rcases terminated_getlines text with bare | more
    · rw [bare]
      omega
    · rw [more, List.length_append, List.length_singleton]
      omega

def noTables : World := ⟨⟨some ∅, ∅, ∅, ∅⟩, .empty⟩

/-- A statement on two lines, about a table that does not exist. -/
theorem fed_program_twoLines :
    let engine := sqlEngine ⟨false, fun _ => 0⟩
    (fed engine (ascii "DROP TABLE\nt;") noTables).2 = .endOfInput ∧
      (fed engine (ascii "DROP TABLE\nt;") noTables).1.engineState = noTables := by
  obtain ⟨lexed, keeps⟩ : tokens (ascii "DROP TABLE\nt;") = [.kwDrop, .kwTable, .identifier (ascii "t"), .semicolon] ∧
      LiteralsKeepBreaks (ascii "DROP TABLE\nt;") := by
    decide +kernel
  have parsed : Parser.yyparse (tokens (ascii "DROP TABLE\nt;")) = some [.drop ⟨ascii "t"⟩] := by
    rw [lexed]
    rfl
  have ran : (runProgram ⟨false, fun _ => 0⟩ [.drop ⟨ascii "t"⟩]).run noTables = .ok [.completed (rejected
      .dropGenericInvalidStatement (SemanticValidator.validateDropSemantics ⟨ascii "t"⟩ .empty) none)] noTables := rfl
  refine fed_program (valid_of_tokens lexed (by simp)) keeps (by decide +kernel) (by decide) rfl parsed ran ?_
  intro e mem
  cases List.mem_singleton.mp mem

end Jssql.CLIDriver
