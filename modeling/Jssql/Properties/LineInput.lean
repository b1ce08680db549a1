import Jssql.Theory.TrimmedLines

/-!
Statements that are fed line by line. Every line is trimmed and compared with the two
commands wherever it stands; so a line `INIT` is lost, a line `QUIT` ends the input, and
blanks at the ends of a line are lost from a string literal that goes on over it. Other
texts reach the parser with their tokens, in buffers that end with a semicolon.
-/
namespace Jssql.CLIDriver
open Foundation Foundation.Pattern Lexer Lexing

/-- The lines are fed after `INIT`. -/
def fed {σ : Type} (engine : Engine σ) (text : Bytes) (engineState : σ) : CLIState σ × Ending :=
  runCLI engine (ascii "INIT\n" ++ text) engineState

/-- The text ends with a semicolon, and the last rule of the lexer is not taken in it. -/
def IsStatements (text : Bytes) : Prop := LexicallyValid text ∧ (tokens text).getLast? = some .semicolon

/-- What is passed to the parser has the tokens of the text. -/
def KeepsTokens {σ : Type} (engine : Engine σ) (text : Bytes) (engineState : σ) : Prop :=
  (fed engine text engineState).1.passed.flatMap tokens = tokens text

instance {σ : Type} (engine : Engine σ) (text : Bytes) (engineState : σ) :
    Decidable (KeepsTokens engine text engineState) := inferInstanceAs (Decidable (_ = _))

/-! The loop -/

variable {σ : Type} {engine : Engine σ} {s : CLIState σ} {text line rest : Bytes}

/-- Behind some lines: `rest` is what the remaining lines hold. -/
structure Progress (text rest : Bytes) (s : CLIState σ) : Prop where
  started : s.initialized = true
  ends : ∀ c ∈ s.sqlBuffer.getLast?, c = lineFeed
  pending : endsWithSemicolonOutsideQuotes s.sqlBuffer = false
  fit : WellBroken (s.sqlBuffer ++ rest)
  balance : s.passed.flatMap tokens ++ tokens (s.sqlBuffer ++ rest) = tokens text

theorem Progress.passed_prefix (h : Progress text rest s) : s.passed.flatMap tokens <+: tokens text :=
  ⟨_, h.balance⟩

/-- What a step leaves. -/
def Steps (text rest : Bytes) : CLIState σ × Option Ending → Prop
  | (s, none) => Progress text rest s
  | (s, some ending) => ending ≠ .endOfInput ∧ s.passed.flatMap tokens <+: tokens text

theorem outside_of_endsWithSemicolon {s : Bytes} (h : endsWithSemicolonOutsideQuotes s = true) :
    (QuoteScan.start.run s).inSingleQuote = false := by
  rw [endsWithSemicolonOutsideQuotes] at h
  split at h
  · cases h
  · next outside => exact Bool.not_eq_true _ ▸ outside

theorem steps_passBuffer (started : s.initialized = true) (ends : ∀ c ∈ s.sqlBuffer.getLast?, c = lineFeed)
    (closed : endsWithSemicolonOutsideQuotes s.sqlBuffer = true) (fit : WellBroken (s.sqlBuffer ++ rest))
    (all : s.passed.flatMap tokens ++ tokens (s.sqlBuffer ++ rest) = tokens text) :
    Steps text rest (passBuffer engine s) := by
  have lexed := fit.valid.split (outside_of_endsWithSemicolon closed) (parted_of_lineFeed ends)
  have passed : (s.passed ++ [s.sqlBuffer]).flatMap tokens ++ tokens rest = tokens text := by
    rw [← all, tokens_append lexed, List.flatMap_append, List.flatMap_singleton, List.append_assoc]
  rw [passBuffer, if_pos started]
  cases engine.parseAndExecute s.sqlBuffer s.engineState with
  | none =>
      refine ⟨?_, _, passed⟩
      rintro ⟨⟩
  | some engineState =>
      refine ⟨started, ?_, rfl, fun lexeme mem => fit lexeme ?_, passed⟩
      · rintro _ ⟨⟩
      · rw [words_append lexed]
        exact List.mem_append_right _ mem

/-- Trimming the next line leaves the words of what is to be read. -/
theorem Progress.words_line (h : Progress text (line ++ lineFeed :: rest) s) (single : lineFeed ∉ line) :
    words (s.sqlBuffer ++ trimLine line ++ [newline] ++ rest) = words (s.sqlBuffer ++ (line ++ lineFeed :: rest)) := by
  rw [← words_trimLine h.fit h.ends single, List.append_assoc, List.append_assoc]
  rfl

theorem Progress.steps (h : Progress text (line ++ lineFeed :: rest) s) (single : lineFeed ∉ line)
    (noInit : trimLine line ≠ ascii "INIT") : Steps text rest (cliStep engine s line) := by
  have same := h.words_line single
  have fit := h.fit.of_words same
  have all : s.passed.flatMap tokens ++ tokens (s.sqlBuffer ++ trimLine line ++ [newline] ++ rest) = tokens text := by
    rw [← h.balance, tokens_eq (_ ++ rest), same, ← tokens_eq]
  have ends : ∀ c ∈ (s.sqlBuffer ++ trimLine line ++ [newline]).getLast?, c = lineFeed := by
    intro c mem
    rw [List.getLast?_concat] at mem
    exact (Option.some.inj mem).symm
  rw [cliStep]
  split
  · exact ⟨by rintro ⟨⟩, h.passed_prefix⟩
  · split
    · exact ⟨by rintro ⟨⟩, h.passed_prefix⟩
    · dsimp only
      split
      · next closed => exact steps_passBuffer h.started ends closed fit all
      · next pending => exact ⟨h.started, ends, Bool.not_eq_true _ ▸ pending, fit, all⟩

theorem runLines_progress (engine : Engine σ) {lines : List Bytes}
    (each : ∀ line ∈ lines, lineFeed ∉ line ∧ trimLine line ≠ ascii "INIT") (h : Progress text (terminated lines) s) :
    (runLines engine lines s).1.passed.flatMap tokens <+: tokens text ∧
      ((runLines engine lines s).2 = .endOfInput → Progress text [] (runLines engine lines s).1) := by
  induction lines generalizing s with
  | nil => exact ⟨h.passed_prefix, fun _ => h⟩
  | cons line lines ih =>
      rw [List.forall_mem_cons] at each
      have here : Progress text (line ++ lineFeed :: terminated lines) s := by
        simpa only [terminated, List.flatMap_cons, List.append_assoc, List.singleton_append] using h
      have step : Steps text (terminated lines) (cliStep engine s line) := here.steps each.1.1 each.1.2
      rw [runLines]
      split
      · next s' continues =>
          rw [continues] at step
          exact ih each.2 step
      · next s' ending stops =>
          rw [stops] at step
          exact ⟨step.2, fun ends => absurd ends step.1⟩

theorem getlines_init (text : Bytes) : getlines (ascii "INIT\n" ++ text) = ascii "INIT" :: getlines text := by
  have single : lineFeed ∉ ascii "INIT" := by decide
  exact getlines_cons single text

/-- The state in which the first line of the text is read. -/
def ready (engineState : σ) : CLIState σ := ⟨[], true, [], engineState⟩

theorem fed_eq (engine : Engine σ) (text : Bytes) (engineState : σ) :
    fed engine text engineState = match engine.getInstance engineState with
      | some engineState => runLines engine (getlines text) (ready engineState)
      | none => (⟨[], false, [], engineState⟩, .processEnded) := by
  rw [fed, runCLI, getlines_init, runLines]
  have init : cliStep engine ⟨[], false, [], engineState⟩ (ascii "INIT") =
      initInstance engine ⟨[], false, [], engineState⟩ := rfl
  rw [init, initInstance, if_neg Bool.false_ne_true]
  cases engine.getInstance engineState <;> rfl

/-- No operation of the engine ends the process. -/
structure Engine.Survives (engine : Engine σ) : Prop where
  getInstance : ∀ engineState, engine.getInstance engineState ≠ none
  parseAndExecute : ∀ sql engineState, engine.parseAndExecute sql engineState ≠ none

theorem length_trimLine (line : Bytes) : (trimLine line).length ≤ line.length := by
  have right := (List.rdropWhile_prefix isSpace (line.dropWhile isSpace)).length_le
  exact right.trans (List.dropWhile_sublist isSpace).length_le

theorem passBuffer_continues (survives : engine.Survives) (s : CLIState σ) :
    (passBuffer engine s).2 = none ∧ (passBuffer engine s).1.sqlBuffer = [] := by
  rw [passBuffer]
  split
  · cases parsed : engine.parseAndExecute s.sqlBuffer s.engineState with
    | none => exact absurd parsed (survives.parseAndExecute _ _)
    | some engineState => exact ⟨rfl, rfl⟩
  · exact ⟨rfl, rfl⟩

theorem initInstance_continues (survives : engine.Survives) (s : CLIState σ) :
    (initInstance engine s).2 = none ∧ (initInstance engine s).1.sqlBuffer = s.sqlBuffer := by
  rw [initInstance]
  split
  · exact ⟨rfl, rfl⟩
  · cases made : engine.getInstance s.engineState with
    | none => exact absurd made (survives.getInstance _)
    | some engineState => exact ⟨rfl, rfl⟩

theorem cliStep_continues (survives : engine.Survives) (noQuit : trimLine line ≠ ascii "QUIT")
    (small : s.sqlBuffer.length ≤ maxSqlBufferSize) (short : line.length ≤ maxSqlBufferSize) :
    (cliStep engine s line).2 = none ∧
      (cliStep engine s line).1.sqlBuffer.length ≤ s.sqlBuffer.length + (line.length + 1) := by
  have trimmed := length_trimLine line
  rw [cliStep, if_neg noQuit]
  split
  · obtain ⟨continues, same⟩ := initInstance_continues survives s
    exact ⟨continues, same ▸ Nat.le_add_right _ _⟩
  · rw [if_neg (by omega)]
    dsimp only
    split
    · obtain ⟨continues, empty_⟩ := passBuffer_continues survives
        { s with sqlBuffer := s.sqlBuffer ++ trimLine line ++ [newline] }
      refine ⟨continues, ?_⟩
      rw [empty_]
      exact Nat.zero_le _
    · refine ⟨rfl, ?_⟩
      rw [List.length_append, List.length_append, List.length_singleton]
      omega

/-- Without `QUIT` a text of at most 1 MB is read to its end, if the engine survives it. -/
theorem runLines_endOfInput (survives : engine.Survives) {lines : List Bytes}
    (noQuit : ∀ line ∈ lines, trimLine line ≠ ascii "QUIT")
    (short : s.sqlBuffer.length + (terminated lines).length ≤ maxSqlBufferSize + 1) :
    (runLines engine lines s).2 = .endOfInput := by
  induction lines generalizing s with
  | nil => rfl
  | cons line lines ih =>
      rw [List.forall_mem_cons] at noQuit
      have length : (terminated (line :: lines)).length = line.length + 1 + (terminated lines).length := by
        rw [terminated, List.flatMap_cons, List.length_append, List.length_append, List.length_singleton]
        rfl
      obtain ⟨continues, grown⟩ := cliStep_continues (s := s) survives noQuit.1 (by omega) (by omega)
      rw [runLines]
      split
      · next next_ step =>
          rw [step] at grown
          dsimp only at grown
          exact ih noQuit.2 (by omega)
      · next stops =>
          rw [stops] at continues
          cases continues

theorem fed_endOfInput (survives : engine.Survives) (noQuit : ∀ line ∈ getlines text, trimLine line ≠ ascii "QUIT")
    (short : text.length ≤ maxSqlBufferSize) (engineState : σ) : (fed engine text engineState).2 = .endOfInput := by
  rw [fed_eq]
  cases made : engine.getInstance engineState with
  | none => exact absurd made (survives.getInstance _)
  | some engineState =>
      refine runLines_endOfInput survives noQuit ?_
      rw [show (ready engineState).sqlBuffer.length = 0 from rfl]
      rcases terminated_getlines text with same | more
      · rw [same]
        omega
      · rw [more, List.length_append, List.length_singleton]
        omega

/-- What is passed to the parser holds the tokens of the text from the first on, and all of
them unless the loop is left before the end of the input; which takes a line `QUIT`, more
than 1 MB or an engine that ends the process. -/
theorem fed_tokens (statements : IsStatements text) (keeps : LiteralsKeepBreaks text)
    (noInit : ∀ line ∈ getlines text, trimLine line ≠ ascii "INIT") (engine : Engine σ) (engineState : σ) :
    (fed engine text engineState).1.passed.flatMap tokens <+: tokens text ∧
      ((fed engine text engineState).2 = .endOfInput → KeepsTokens engine text engineState) ∧
      (engine.Survives → (∀ line ∈ getlines text, trimLine line ≠ ascii "QUIT") → text.length ≤ maxSqlBufferSize →
        (fed engine text engineState).2 = .endOfInput) := by
  obtain ⟨valid, last⟩ := statements
  have fit := wellBroken_of_valid valid keeps
  have same := words_terminated fit.valid
  have each : ∀ line ∈ getlines text, lineFeed ∉ line ∧ trimLine line ≠ ascii "INIT" :=
    fun line mem => ⟨not_mem_getlines text line mem, noInit line mem⟩
  rw [← and_assoc]
  refine ⟨?_, fun survives noQuit short => fed_endOfInput survives noQuit short engineState⟩
  rw [KeepsTokens, fed_eq]
  cases engine.getInstance engineState with
  | none => exact ⟨List.nil_prefix, by rintro ⟨⟩⟩
  | some engineState =>
      have start : Progress text (terminated (getlines text)) (ready engineState) := by
        refine ⟨rfl, ?_, rfl, fit.of_words same, ?_⟩
        · rintro _ ⟨⟩
        · exact (tokens_eq _).trans ((congrArg _ same).trans (tokens_eq text).symm)
      obtain ⟨front, whole⟩ := runLines_progress engine each start
      refine ⟨front, fun ends => ?_⟩
      have done_ := whole ends
      have balance := done_.balance
      have left := done_.fit.valid
      rw [List.append_nil] at balance left
      cases rest : tokens (runLines engine (getlines text) (ready engineState)).1.sqlBuffer with
      | nil => rw [← balance, rest, List.append_nil]
      | cons token more =>
          -- The buffer would end with the last semicolon, and would have been passed.
          rw [← balance, List.getLast?_append_of_ne_nil _ (by rw [rest]; exact List.cons_ne_nil _ _)] at last
          have closed := endsWithSemicolon_of_tokens left last
          rw [done_.pending] at closed
          cases closed

/-- An engine that does nothing, and one that ends the process with the first statement. -/
def idleEngine : Engine Unit := ⟨some, fun _ => some⟩

def endingEngine : Engine Unit := ⟨some, fun _ _ => none⟩

theorem idleEngine_survives : idleEngine.Survives := ⟨fun _ => Option.some_ne_none _, fun _ _ => Option.some_ne_none _⟩

theorem valid_of_tokens {ts : List Token} (lexed : tokens text = ts) (all : ∀ token ∈ ts, ∀ c, token ≠ .unexpected c) :
    LexicallyValid text := by
  intro c mem
  rw [lexed] at mem
  exact all _ mem c rfl

theorem isStatements_of_tokens {ts : List Token} (lexed : tokens text = ts)
    (all : ∀ token ∈ ts, ∀ c, token ≠ .unexpected c) (last : ts.getLast? = some .semicolon) : IsStatements text :=
  ⟨valid_of_tokens lexed all, by rw [lexed, last]⟩

/-- A literal that goes on over two lines, and a second statement. -/
theorem fed_tokens_twoLines : KeepsTokens idleEngine (ascii " a 'x;\ny' ; \n b; ") () := by
  -- Lexing is slow on long texts, so it is done in parts.
  obtain ⟨word, noLiteral⟩ : tokens (ascii " a ") = [.identifier (ascii "a")] ∧ LiteralsKeepBreaks (ascii " a ") := by
    decide +kernel
  obtain ⟨string, literal⟩ : tokens (ascii "'x;\ny'") = [.literalString (ascii "'x;\ny'")] ∧
      LiteralsKeepBreaks (ascii "'x;\ny'") := by
    decide +kernel
  obtain ⟨last, noOther⟩ : tokens (ascii " ; \n b; ") = [.semicolon, .identifier (ascii "b"), .semicolon] ∧
      LiteralsKeepBreaks (ascii " ; \n b; ") := by
    decide +kernel
  have behind : lexemes rules (ascii "'x;\ny'" ++ ascii " ; \n b; ") = _ :=
    (wellLexed_of_valid (valid_of_tokens string (by simp))).join (parted_of_some rfl rfl rfl)
  have before : lexemes rules (ascii " a " ++ (ascii "'x;\ny'" ++ ascii " ; \n b; ")) = _ :=
    (wellLexed_of_valid (valid_of_tokens word (by simp))).join (parted_of_some rfl rfl rfl)
  have lexed : tokens (ascii " a 'x;\ny' ; \n b; ") = [.identifier (ascii "a"), .literalString (ascii "'x;\ny'"),
      .semicolon, .identifier (ascii "b"), .semicolon] := by
    refine (tokens_append before).trans ?_
    rw [tokens_append behind, word, string, last]
    rfl
  have keeps : LiteralsKeepBreaks (ascii " a 'x;\ny' ; \n b; ") := by
    change ∀ lexeme ∈ lexemes rules (ascii " a " ++ (ascii "'x;\ny'" ++ ascii " ; \n b; ")), _
    rw [before, behind]
    exact List.forall_mem_append.mpr ⟨noLiteral, List.forall_mem_append.mpr ⟨literal, noOther⟩⟩
  have statements := isStatements_of_tokens lexed (by simp) rfl
  have all := fed_tokens statements keeps (by decide +kernel) idleEngine ()
  exact all.2.1 (all.2.2 idleEngine_survives (by decide +kernel) (by decide +kernel))

/-! Texts that are not kept -/

theorem getlines_lineFeeds (n : Nat) (text : Bytes) :
    getlines (List.replicate n lineFeed ++ text) = List.replicate n [] ++ getlines text := by
  induction n with
  | zero => rfl
  | succ n ih =>
      have single : lineFeed ∉ ([] : Bytes) := List.not_mem_nil
      exact (getlines_cons single _).trans (congrArg _ ih)

theorem tokens_lineFeeds (n : Nat) (text : Bytes) : tokens (List.replicate n lineFeed ++ text) = tokens text := by
  have valid : WellLexed [lineFeed] := wellLexed_of_words fun lexeme mem => by
    rw [words_lineFeed] at mem
    cases mem
  have before (text : Bytes) : tokens ([lineFeed] ++ text) = tokens text := by
    refine (tokens_append (valid.join (parted_of_lineFeed fun c last => ?_))).trans ?_
    · exact (Option.some.inj last).symm
    · rw [tokens_eq [lineFeed], words_lineFeed]
      rfl
  induction n with
  | zero => rfl
  | succ n ih => exact (before _).trans ih

/-- Empty lines are collected in the buffer. -/
theorem runLines_emptyLines (engine : Engine σ) (lines : List Bytes) (engineState : σ) (n m : Nat)
    (room : n + m ≤ maxSqlBufferSize + 1) :
    runLines engine (List.replicate n [] ++ lines) ⟨List.replicate m lineFeed, true, [], engineState⟩ =
      runLines engine lines ⟨List.replicate (m + n) lineFeed, true, [], engineState⟩ := by
  induction n generalizing m with
  | zero => rfl
  | succ n ih =>
      have open_ : endsWithSemicolonOutsideQuotes (List.replicate m lineFeed ++ [] ++ [newline]) = false := by
        have blank : (List.replicate m lineFeed ++ [] ++ [newline]).all isSpace = true := by
          rw [List.append_nil, List.all_append, List.all_replicate]
          split
          · rfl
          · rfl
        rw [endsWithSemicolonOutsideQuotes, lastNonSpace_eq_none.mpr blank]
        split
        · rfl
        · rfl
      have small : ¬ (maxSqlBufferSize < (List.replicate m lineFeed).length ∨
          maxSqlBufferSize < (trimLine []).length) := by
        rw [List.length_replicate, show (trimLine []).length = 0 from rfl]
        omega
      have more : List.replicate m lineFeed ++ [] ++ [newline] = List.replicate (m + 1) lineFeed := by
        rw [List.append_nil, List.replicate_succ']
        rfl
      have step : cliStep engine ⟨List.replicate m lineFeed, true, [], engineState⟩ [] =
          (⟨List.replicate (m + 1) lineFeed, true, [], engineState⟩, none) := by
        rw [cliStep, if_neg (by decide), if_neg (by decide), if_neg small]
        dsimp only
        rw [show trimLine [] = [] from rfl, open_, if_neg Bool.false_ne_true, more]
      rw [List.replicate_succ, List.cons_append, runLines, step]
      dsimp only
      rw [ih (m + 1) (by omega), Nat.add_right_comm, Nat.add_assoc]

def emptyLines : Bytes := List.replicate (maxSqlBufferSize + 1) lineFeed ++ [semicolon]

/-- Blanks before a line feed in a literal, a line `INIT`, a line `QUIT`, a statement that ends
the process, and more than 1 MB. -/
theorem not_keepsTokens :
    (IsStatements (ascii "'a \nb';") ∧ ¬ KeepsTokens idleEngine (ascii "'a \nb';") ()) ∧
    (IsStatements (ascii "a\nINIT\nb;") ∧ ¬ KeepsTokens idleEngine (ascii "a\nINIT\nb;") ()) ∧
    (IsStatements (ascii "a\nQUIT\nb;") ∧ ¬ KeepsTokens idleEngine (ascii "a\nQUIT\nb;") ()) ∧
    (IsStatements (ascii "a;\nb;") ∧ ¬ KeepsTokens endingEngine (ascii "a;\nb;") ()) ∧
    IsStatements emptyLines ∧ ¬ KeepsTokens idleEngine emptyLines () := by
  have literal : tokens (ascii "'a \nb';") = [.literalString (ascii "'a \nb'"), .semicolon] := by decide +kernel
  have init : tokens (ascii "a\nINIT\nb;") = [.identifier (ascii "a"), .identifier (ascii "INIT"),
      .identifier (ascii "b"), .semicolon] := by
    decide +kernel
  have quit : tokens (ascii "a\nQUIT\nb;") = [.identifier (ascii "a"), .identifier (ascii "QUIT"),
      .identifier (ascii "b"), .semicolon] := by
    decide +kernel
  have two : tokens (ascii "a;\nb;") = [.identifier (ascii "a"), .semicolon, .identifier (ascii "b"), .semicolon] := by
    decide +kernel
  have long : tokens emptyLines = [.semicolon] := (tokens_lineFeeds _ _).trans (by decide +kernel)
  refine ⟨⟨isStatements_of_tokens literal (by simp) rfl, by rw [KeepsTokens, literal]; decide +kernel⟩,
    ⟨isStatements_of_tokens init (by simp) rfl, by rw [KeepsTokens, init]; decide +kernel⟩,
    ⟨isStatements_of_tokens quit (by simp) rfl, by rw [KeepsTokens, quit]; decide +kernel⟩,
    ⟨isStatements_of_tokens two (by simp) rfl, by rw [KeepsTokens, two]; decide +kernel⟩,
    isStatements_of_tokens long (by simp) rfl, ?_⟩
  have lines : getlines [semicolon] = [[semicolon]] := by decide
  have stops : fed idleEngine emptyLines () =
      (⟨List.replicate (0 + (maxSqlBufferSize + 1)) lineFeed, true, [], ()⟩, .tooLarge) := by
    rw [fed_eq, emptyLines, getlines_lineFeeds, lines]
    refine (runLines_emptyLines idleEngine [[semicolon]] () _ 0 (Nat.le_refl _)).trans ?_
    rw [runLines, cliStep, if_neg (by decide), if_neg (by decide), if_pos]
    rw [List.length_replicate]
    omega
  rw [KeepsTokens, stops, long]
  rintro ⟨⟩

end Jssql.CLIDriver
