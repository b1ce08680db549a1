import Jssql.Theory.GrammaticalStatements

/-!
What the parser makes of tokens and of texts. It accepts the sentences of the grammar in
front of the end of the input, and a text without NUL can denote any program of grammatical
statements and no other.
-/
namespace Jssql.Parser
open Foundation Lexer Grammar

variable {ts : List Token} {stmts : List Statement} {room : Nat}

/-- The parser returns the statements of a sentence of the grammar which is followed by the end
of the input, and of nothing else. -/
theorem yyparse_iff : yyparse ts = some stmts ↔
    ∃ us rest, ts = us ++ rest ∧ rest.head?.all isEnd = true ∧ Program us stmts := by
  rw [yyparse_eq_some]
  constructor
  · intro sentence
    refine ⟨_, ts.dropWhile fun t => !isEnd t, List.takeWhile_append_dropWhile.symm, ?_, sentence⟩
    cases behind : ts.dropWhile fun t => !isEnd t with
    | nil => rfl
    | cons t rest =>
        have stops := List.head?_dropWhile_not (fun t => !isEnd t) ts
        rw [behind] at stops
        simpa using stops
  · rintro ⟨us, rest, rfl, ends, sentence⟩
    rwa [input_of_program sentence ends]

/-! Texts -/

/-- The token lists of valid texts without NUL are those whose tokens have a text each. -/
theorem tokens_iff : (∃ text, LexicallyValid text ∧ 0 ∉ text ∧ tokens text = ts) ↔ ∀ t ∈ ts, Scanned wholeTexts t := by
  constructor
  · rintro ⟨text, valid, noNul, rfl⟩ t mem
    rcases scanned_of_mem mem with ⟨c, rfl⟩ | scanned
    · exact absurd mem (valid c)
    · exact scanned_whole noNul scanned
  · intro all
    have lexed := (lexed_spelledOut all).2.1
    refine ⟨spelledOut ts, fun c mem => ?_, zero_notMem_spelledOut all, lexed⟩
    rw [lexed] at mem
    cases all _ mem with
    | fixed word => cases word

/-- The tokens of a sentence are tokens of the lexer's rules but the last. -/
theorem scanned_of_sentence {text : Bytes} {us : List Token} (sentence : Program us stmts)
    (read : ∀ t ∈ us, t ∈ tokens text) : ∀ t ∈ us, Scanned (copiedFrom text) t := by
  intro t mem
  rcases scanned_of_mem (read t mem) with ⟨c, rfl⟩ | scanned
  · rcases inner_program sentence _ mem with same | inner
    · cases same
    · cases inner
  · exact scanned

/-- Whatever the text, its statements are grammatical. -/
theorem grammatical_of_text {text : Bytes} (parsed : yyparse (tokens text) = some stmts) :
    stmts ≠ [] ∧ ∀ stmt ∈ stmts, Grammatical (copiedFrom text) stmt := by
  have sentence := yyparse_eq_some.mp parsed
  have read : ∀ t ∈ input (tokens text), t ∈ tokens text := (List.takeWhile_prefix fun t => !isEnd t).subset
  exact grammatical_of_program ⟨_, scanned_of_sentence sentence read, sentence⟩

/-- Where the column definitions fit on the stack of the parser, the programs that texts without NUL
denote are the lists of grammatical statements that are not empty. -/
theorem parsed_iff (fits : ∀ stmt ∈ stmts, FitsStack stmt) :
    (∃ text, 0 ∉ text ∧ yyparse (tokens text) = some stmts) ↔
      stmts ≠ [] ∧ ∀ stmt ∈ stmts, Grammatical wholeTexts stmt := by
  constructor
  · rintro ⟨text, noNul, parsed⟩
    have sentence := yyparse_eq_some.mp parsed
    have read : ∀ t ∈ input (tokens text), t ∈ tokens text := (List.takeWhile_prefix fun t => !isEnd t).subset
    have good := scanned_of_sentence sentence read
    exact grammatical_of_program
      ⟨_, fun t mem => scanned_whole noNul (good t mem), sentence⟩
  · rintro ⟨some_, all⟩
    obtain ⟨us, good, sentence⟩ := written_program some_ all fits
    refine ⟨spelledOut us, zero_notMem_spelledOut good, ?_⟩
    rw [(lexed_spelledOut good).2.1]
    exact yyparse_of_program sentence

/-- A table with a default, and its deletion. -/
theorem parsed_iff_two :
    let stmts : List Statement := [.create ⟨ascii "t", [⟨ascii "a", [ascii "PRIMARY KEY"]⟩]⟩, .drop ⟨ascii "t"⟩]
    (∃ text, 0 ∉ text ∧ yyparse (tokens text) = some stmts) ↔
      stmts ≠ [] ∧ ∀ stmt ∈ stmts, Grammatical wholeTexts stmt := by
  refine parsed_iff ?_
  simp only [List.forall_mem_cons, FitsStack]
  exact ⟨by decide, trivial, List.forall_mem_nil _⟩

/-! The end of the input -/

theorem not_isEnd_of_valid {p : Bytes} (valid : LexicallyValid p) : ∀ t ∈ tokens p, isEnd t = false := by
  intro t mem
  unfold isEnd
  split
  · exact absurd mem (valid _)
  · rfl

theorem input_of_valid {p : Bytes} (valid : LexicallyValid p) : input (tokens p) = tokens p := by
  have whole : input (tokens p ++ []) = tokens p := input_append (not_isEnd_of_valid valid) rfl
  rwa [List.append_nil] at whole

/-- What follows a byte that is NUL or no ASCII, outside literals, is never read. -/
theorem yyparse_append_foreign {p : Bytes} {c : UInt8} (valid : LexicallyValid p) (foreign : isForeign c = true)
    (v : Bytes) : yyparse (tokens (p ++ c :: v)) = yyparse (tokens p) := by
  refine yyparse_congr ?_
  rw [input_of_valid valid, tokens_append_foreign valid foreign]
  exact input_append (not_isEnd_of_valid valid) foreign

theorem yyparse_append_foreign_drop : yyparse (tokens (ascii "DROP TABLE t;" ++ 195 :: ascii "DROP TABLE u;")) =
    yyparse (tokens (ascii "DROP TABLE t;")) := by
  refine yyparse_append_foreign (fun c mem => ?_) rfl _
  have lexed : tokens (ascii "DROP TABLE t;") = [.kwDrop, .kwTable, .identifier (ascii "t"), .semicolon] := by
    decide +kernel
  rw [lexed] at mem
  simp at mem

end Jssql.Parser
