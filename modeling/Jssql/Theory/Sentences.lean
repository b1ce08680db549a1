import Jssql.Parser.Parser

/-!
Each reader of the parser reads the phrases of its nonterminal, with the tokens that may
follow it in a sentence.
-/
namespace Jssql.Parser
open Foundation Lexer Reader Grammar

variable {ts rest : List Token} {room : Nat}

theorem run_identifier_eq_some {name : Bytes} :
    identifier.run ts = some (name, rest) ↔ ts = .identifier name :: rest := by
  rw [identifier, run_token_eq_some]
  constructor
  · rintro ⟨t, rfl, known⟩
    split at known
    · cases known
      rfl
    · cases known
  · rintro rfl
    exact ⟨_, rfl, rfl⟩

theorem reads_identifier : Reads identifier Grammar.Identifier fun _ => True := by
  constructor
  · intro ts rest name run
    exact ⟨[.identifier name], run_identifier_eq_some.mp run, .intro⟩
  · rintro _ rest name ⟨⟩ -
    exact run_identifier_eq_some.mpr rfl

/-! Literals -/

theorem literalOf_eq_some {t : Token} {literal : LiteralNode} (h : literalOf t = some literal) :
    LiteralValue [t] literal := by
  unfold literalOf at h
  split at h
  · cases h
    exact .number _
  · cases h
    exact .string _
  · cases h
    exact .null
  · cases h
    exact .true
  · cases h
    exact .false
  · cases h

theorem literalValue_cases {literal : LiteralNode} (h : LiteralValue ts literal) :
    (ts = [] ∧ literal = ⟨.empty, []⟩) ∨ ∃ t, ts = [t] ∧ literalOf t = some literal := by
  cases h with
  | empty => exact .inl ⟨rfl, rfl⟩
  | number _ | string _ | null | true | false => exact .inr ⟨_, rfl, rfl⟩

theorem reads_literalValue : Reads literalValue LiteralValue fun t => t.bind literalOf = none := by
  constructor
  · intro ts rest literal run
    rw [literalValue, run_bind_eq_some] at run
    obtain ⟨found, behind, taken, run⟩ := run
    obtain ⟨rfl, rfl⟩ := run_pure_eq_some.mp run
    rcases run_optionally_eq_some.mp taken with ⟨t, literal, rfl, known, rfl⟩ | ⟨rfl, rfl, -⟩
    · exact ⟨[t], rfl, literalOf_eq_some known⟩
    · exact ⟨[], rfl, .empty⟩
  · intro us rest literal written follows
    rw [literalValue, run_bind_eq_some]
    rcases literalValue_cases written with ⟨rfl, rfl⟩ | ⟨t, rfl, known⟩
    · exact ⟨none, rest, run_optionally_eq_some.mpr (.inr ⟨rfl, rfl, follows⟩), rfl⟩
    · exact ⟨some literal, rest, run_optionally_eq_some.mpr (.inl ⟨t, literal, rfl, known, rfl⟩), rfl⟩

/-! Column definitions -/

theorem reads_colModifier (room : Nat) :
    Reads (colModifier room) (ColModifier room) fun t => t.bind literalOf = none := by
  constructor
  · intro ts rest modifier run
    rw [colModifier, run_bind_eq_some] at run
    obtain ⟨t, behind, took, run⟩ := run
    obtain rfl := run_next_eq_some.mp took
    split at run
    · obtain ⟨rfl, rfl⟩ := run_pure_eq_some.mp run
      exact ⟨[.kwUnique], rfl, .unique⟩
    · simp only [run_bind_eq_some, run_expect_eq_some, run_pure_eq_some] at run
      obtain ⟨_, _, rfl, rfl, rfl⟩ := run
      exact ⟨[.kwPrimary, .kwKey], rfl, .primaryKey⟩
    · simp only [run_bind_eq_some, run_expect_eq_some, run_pure_eq_some] at run
      obtain ⟨_, _, rfl, rfl, rfl⟩ := run
      exact ⟨[.kwNot, .kwNull], rfl, .notNull⟩
    · simp only [run_bind_eq_some, run_pure_eq_some] at run
      obtain ⟨literal, _, value, rfl, rfl⟩ := run
      obtain ⟨us, rfl, written⟩ := reads_literalValue.sound value
      exact ⟨.kwDefault :: us, rfl, .default written⟩
    · cases run
  · intro us rest modifier written follows
    rw [colModifier, run_bind_eq_some]
    cases written with
    | primaryKey | notNull | unique => exact ⟨_, _, run_next_eq_some.mpr rfl, rfl⟩
    | default value =>
        refine ⟨_, _, run_next_eq_some.mpr rfl, ?_⟩
        rw [run_bind_eq_some]
        exact ⟨_, rest, reads_literalValue.complete value follows, rfl⟩

theorem startsModifier_of_colModifier {modifier : Bytes} (h : ColModifier room ts modifier) :
    ∃ t us, ts = t :: us ∧ startsModifier t = true := by
  cases h with
  | primaryKey | notNull | unique | default _ => exact ⟨_, _, rfl, rfl⟩

theorem literalOf_of_startsModifier {t : Token} (h : startsModifier t = true) : literalOf t = none := by
  unfold startsModifier at h
  split at h
  · rfl
  · rfl
  · rfl
  · rfl
  · cases h

theorem reads_modifiers (room : Nat) :
    Reads (many (colModifier room) startsModifier) (Phrase.Many (ColModifier room)) fun t =>
      t.bind literalOf = none ∧ t.any startsModifier = false :=
  (reads_colModifier room).many (fun _ _ => startsModifier_of_colModifier) fun _ => literalOf_of_startsModifier

theorem reads_untypedColDef (room : Nat) : Reads (untypedColDef room) (UntypedColDef room) fun t =>
    t.bind literalOf = none ∧ t.any startsModifier = false := by
  constructor
  · intro ts rest column run
    unfold untypedColDef at run
    split at run
    · simp only [run_bind_eq_some, run_pure_eq_some, run_identifier_eq_some] at run
      obtain ⟨name, _, rfl, modifiers, _, list, rfl, rfl⟩ := run
      obtain ⟨us, rfl, written⟩ := (reads_modifiers _).sound list
      exact ⟨.identifier name :: us, rfl, .intro written⟩
    · cases run
  · intro us rest column written follows
    cases written with
    | intro optColModifiers =>
        simp only [untypedColDef, run_bind_eq_some, run_pure_eq_some, run_identifier_eq_some]
        exact ⟨_, _, rfl, _, rest, (reads_modifiers _).complete optColModifiers follows, rfl, rfl⟩

theorem startsColDef_of_untypedColDef {column : UntypedColumnDefNode} (h : UntypedColDef room ts column) :
    ∃ t us, ts = t :: us ∧ startsColDef t = true := by
  cases h with
  | intro _ => exact ⟨_, _, rfl, rfl⟩

theorem reads_untypedColDefs : ∀ room : Nat,
    Reads (untypedColDefs room) (UntypedColDefs room) fun t => t = some .rparen := by
  intro room
  induction room using Nat.twoStepInduction with
  | zero =>
      constructor
      · intro ts rest columns run
        cases run
      · intro us rest columns written
        cases written with
        | one single => cases single
  | one =>
      constructor
      · intro ts rest columns run
        obtain ⟨rfl, rfl⟩ := run_pure_eq_some.mp run
        exact ⟨[], rfl, .none⟩
      · intro us rest columns written follows
        cases written with
        | none => rfl
        | one single => cases single
  | more room ih _ =>
      constructor
      · intro ts rest columns run
        rw [untypedColDefs, run_bind_eq_some] at run
        obtain ⟨more, _, came, run⟩ := run
        obtain ⟨-, rfl⟩ := run_comes_eq_some.mp came
        split at run
        · rw [run_bind_eq_some] at run
          obtain ⟨column, behind, first, run⟩ := run
          obtain ⟨us, rfl, single⟩ := (reads_untypedColDef _).sound first
          rw [run_takes_bind_eq_some] at run
          rcases run with ⟨_, rfl, run⟩ | ⟨-, run⟩
          · simp only [if_pos, run_bind_eq_some, run_pure_eq_some] at run
            obtain ⟨columns, _, others, rfl, rfl⟩ := run
            obtain ⟨vs, rfl, list⟩ := ih.sound others
            exact ⟨us ++ Token.comma :: vs, by rw [List.append_assoc, List.cons_append], .more single list⟩
          · obtain ⟨rfl, rfl⟩ := run_pure_eq_some.mp run
            exact ⟨us, rfl, .one single⟩
        · obtain ⟨rfl, rfl⟩ := run_pure_eq_some.mp run
          exact ⟨[], rfl, .none⟩
      · intro us rest columns written follows
        rw [untypedColDefs, run_bind_eq_some]
        cases written with
        | none =>
            refine ⟨false, rest, run_comes_eq_some.mpr ⟨?_, rfl⟩, rfl⟩
            rw [List.nil_append, follows]
            rfl
        | @one _ us column single =>
            obtain ⟨t, vs, rfl, known⟩ := startsColDef_of_untypedColDef single
            refine ⟨true, _, run_comes_eq_some.mpr ⟨known, rfl⟩, ?_⟩
            rw [if_pos rfl, run_bind_eq_some]
            refine ⟨column, rest, (reads_untypedColDef _).complete single ?_, run_takes_bind_eq_some.mpr (.inr ⟨?_, rfl⟩)⟩
            · rw [follows]
              exact ⟨rfl, rfl⟩
            · rw [follows]
              simp
        | @more _ us vs column columns first others =>
            obtain ⟨t, us, rfl, known⟩ := startsColDef_of_untypedColDef first
            refine ⟨true, _, run_comes_eq_some.mpr ⟨known, rfl⟩, ?_⟩
            rw [if_pos rfl, run_bind_eq_some, List.append_assoc, List.cons_append]
            refine ⟨column, _, (reads_untypedColDef _).complete first ⟨rfl, rfl⟩, ?_⟩
            refine run_takes_bind_eq_some.mpr (.inl ⟨_, rfl, ?_⟩)
            rw [if_pos rfl, run_bind_eq_some]
            exact ⟨columns, rest, ih.complete others follows, rfl⟩

theorem reads_tablCrea (room : Nat) : Reads (tablCrea room) (TablCrea room) fun _ => True := by
  constructor
  · intro ts rest node run
    simp only [tablCrea, run_bind_eq_some, run_expect_eq_some, run_identifier_eq_some, run_pure_eq_some,
      exists_const] at run
    obtain ⟨_, rfl, _, rfl, _, rfl, name, _, rfl, _, rfl, columns, _, list, _, rfl, rfl, rfl⟩ := run
    obtain ⟨us, rfl, written⟩ := (reads_untypedColDefs room).sound list
    exact ⟨_, by simp, .intro written⟩
  · intro us rest node written follows
    cases written with
    | intro list =>
        simp only [tablCrea, run_bind_eq_some, run_expect_eq_some, run_identifier_eq_some, run_pure_eq_some,
          exists_const]
        refine ⟨_, rfl, _, rfl, _, rfl, _, _, rfl, _, rfl, _, _, ?_, rest, rfl, rfl, rfl⟩
        change (untypedColDefs room).run (_ ++ [Token.rparen] ++ rest) = _
        rw [List.append_assoc]
        exact (reads_untypedColDefs room).complete list rfl

/-! Conditions -/

theorem reads_comparator : Reads comparator Comparator fun t => t ≠ some .kwNot := by
  constructor
  · intro ts rest cmp run
    rw [comparator, run_bind_eq_some] at run
    obtain ⟨t, behind, took, run⟩ := run
    obtain rfl := run_next_eq_some.mp took
    split at run
    · rw [run_takes_bind_eq_some] at run
      rcases run with ⟨_, rfl, run⟩ | ⟨-, run⟩
      · obtain ⟨rfl, rfl⟩ := run_pure_eq_some.mp run
        exact ⟨[.kwIs, .kwNot], rfl, .isNot⟩
      · obtain ⟨rfl, rfl⟩ := run_pure_eq_some.mp run
        exact ⟨[.kwIs], rfl, .is⟩
    · obtain ⟨rfl, rfl⟩ := run_pure_eq_some.mp run
      exact ⟨[.kwLike], rfl, .like⟩
    · simp only [run_bind_eq_some, run_expect_eq_some, run_pure_eq_some] at run
      obtain ⟨_, _, rfl, rfl, rfl⟩ := run
      exact ⟨[.kwNot, .kwLike], rfl, .notLike⟩
    · obtain ⟨rfl, rfl⟩ := run_pure_eq_some.mp run
      exact ⟨[.opEq], rfl, .eq⟩
    · obtain ⟨rfl, rfl⟩ := run_pure_eq_some.mp run
      exact ⟨[.opGe], rfl, .ge⟩
    · obtain ⟨rfl, rfl⟩ := run_pure_eq_some.mp run
      exact ⟨[.opGt], rfl, .gt⟩
    · obtain ⟨rfl, rfl⟩ := run_pure_eq_some.mp run
      exact ⟨[.opLe], rfl, .le⟩
    · obtain ⟨rfl, rfl⟩ := run_pure_eq_some.mp run
      exact ⟨[.opLt], rfl, .lt⟩
    · obtain ⟨rfl, rfl⟩ := run_pure_eq_some.mp run
      exact ⟨[.opNe], rfl, .ne⟩
    · cases run
  · intro us rest cmp written follows
    rw [comparator, run_bind_eq_some]
    cases written with
    | is =>
        exact ⟨_, _, run_next_eq_some.mpr rfl, run_takes_bind_eq_some.mpr (.inr ⟨follows, rfl⟩)⟩
    | like | isNot | notLike | eq | ge | gt | le | lt | ne => exact ⟨_, _, run_next_eq_some.mpr rfl, rfl⟩

/-- A comparator is followed by a literal, or by what follows the condition. -/
theorem ne_kwNot_of_literalValue {literal : LiteralNode} (h : LiteralValue ts literal)
    (follows : rest.head? ≠ some .kwNot) : (ts ++ rest).head? ≠ some .kwNot := by
  cases h with
  | empty => exact follows
  | number _ | string _ | null | true | false => simp

theorem reads_conditionList : Reads conditionList ConditionList fun t => t.bind literalOf = none ∧ t ≠ some .kwNot := by
  constructor
  · intro ts rest condition run
    simp only [conditionList, run_bind_eq_some, run_identifier_eq_some, run_pure_eq_some] at run
    obtain ⟨name, _, rfl, cmp, _, compared, literal, _, value, rfl, rfl⟩ := run
    obtain ⟨us, rfl, comparator⟩ := reads_comparator.sound compared
    obtain ⟨vs, rfl, written⟩ := reads_literalValue.sound value
    exact ⟨.identifier name :: (us ++ vs), by simp, .intro comparator written⟩
  · intro us rest condition written follows
    cases written with
    | intro comparator value =>
        simp only [conditionList, run_bind_eq_some, run_identifier_eq_some, run_pure_eq_some, List.cons_append,
          List.append_assoc]
        exact ⟨_, _, rfl, _, _, reads_comparator.complete comparator (ne_kwNot_of_literalValue value follows.2), _, rest,
          reads_literalValue.complete value follows.1, rfl, rfl⟩

/-- What may follow a condition and the literals of an assignment. -/
structure Closes (t : Option Token) : Prop where
  literal : t.bind literalOf = none
  notNot : t ≠ some .kwNot
  notWhere : t ≠ some .kwWhere
  notComma : t ≠ some .comma

theorem reads_optWhereStatement : Reads optWhereStatement OptWhereStatement Closes := by
  constructor
  · intro ts rest optWhereNode run
    rw [optWhereStatement, run_takes_bind_eq_some] at run
    rcases run with ⟨_, rfl, run⟩ | ⟨-, run⟩
    · simp only [if_pos, run_bind_eq_some, run_pure_eq_some] at run
      obtain ⟨condition, _, list, rfl, rfl⟩ := run
      obtain ⟨us, rfl, written⟩ := reads_conditionList.sound list
      exact ⟨.kwWhere :: us, rfl, .where written⟩
    · obtain ⟨rfl, rfl⟩ := run_pure_eq_some.mp run
      exact ⟨[], rfl, .empty⟩
  · intro us rest optWhereNode written follows
    rw [optWhereStatement, run_takes_bind_eq_some]
    cases written with
    | empty => exact .inr ⟨follows.notWhere, rfl⟩
    | «where» list =>
        refine .inl ⟨_, rfl, ?_⟩
        simp only [if_pos, run_bind_eq_some, run_pure_eq_some]
        exact ⟨_, rest, reads_conditionList.complete list ⟨follows.literal, follows.notNot⟩, rfl, rfl⟩

/-! The other statements -/

theorem reads_csvImport : Reads csvImport CsvImport fun _ => True := by
  constructor
  · intro ts rest node run
    simp only [csvImport, run_bind_eq_some, run_expect_eq_some, run_identifier_eq_some, run_token_eq_some,
      run_pure_eq_some, exists_const] at run
    obtain ⟨_, rfl, name, _, rfl, _, rfl, filePath, _, ⟨t, rfl, known⟩, rfl, rfl⟩ := run
    split at known
    · cases known
      exact ⟨_, rfl, .intro⟩
    · cases known
  · rintro _ rest node ⟨⟩ -
    rfl

theorem reads_tablDescribe : Reads tablDescribe TablDescribe fun _ => True := by
  constructor
  · intro ts rest node run
    simp only [tablDescribe, run_bind_eq_some, run_expect_eq_some, run_identifier_eq_some, run_pure_eq_some,
      exists_const] at run
    obtain ⟨_, rfl, name, _, rfl, rfl, rfl⟩ := run
    exact ⟨_, rfl, .intro⟩
  · rintro _ rest node ⟨⟩ -
    rfl

theorem reads_tablDrop : Reads tablDrop TablDrop fun _ => True := by
  constructor
  · intro ts rest node run
    simp only [tablDrop, run_bind_eq_some, run_expect_eq_some, run_identifier_eq_some, run_pure_eq_some,
      exists_const] at run
    obtain ⟨_, rfl, _, rfl, name, _, rfl, rfl, rfl⟩ := run
    exact ⟨_, rfl, .intro⟩
  · rintro _ rest node ⟨⟩ -
    rfl

theorem reads_assignment : Reads assignment Assignment fun t => t.bind literalOf = none := by
  constructor
  · intro ts rest node run
    simp only [assignment, run_bind_eq_some, run_expect_eq_some, run_identifier_eq_some, run_pure_eq_some,
      exists_const] at run
    obtain ⟨name, _, rfl, _, rfl, literal, _, value, rfl, rfl⟩ := run
    obtain ⟨us, rfl, written⟩ := reads_literalValue.sound value
    exact ⟨.identifier name :: .opEq :: us, rfl, .intro written⟩
  · intro us rest node written follows
    cases written with
    | intro value =>
        simp only [assignment, run_bind_eq_some, run_expect_eq_some, run_identifier_eq_some, run_pure_eq_some,
          exists_const]
        exact ⟨_, _, rfl, _, rfl, _, rest, reads_literalValue.complete value follows, rfl, rfl⟩

theorem reads_assignmentList : Reads (sepBy assignment .comma) (Phrase.SepBy Assignment .comma) fun t =>
    t.bind literalOf = none ∧ t ≠ some .comma :=
  reads_assignment.sepBy rfl

theorem ne_comma_of_optWhereStatement {optWhereNode : Option WhereNode} (h : OptWhereStatement ts optWhereNode)
    (follows : Closes rest.head?) : (ts ++ rest).head?.bind literalOf = none ∧ (ts ++ rest).head? ≠ some .comma := by
  cases h with
  | empty => exact ⟨follows.literal, follows.notComma⟩
  | «where» _ => exact ⟨rfl, (by simp)⟩

theorem reads_tablUpdate : Reads tablUpdate TablUpdate Closes := by
  constructor
  · intro ts rest node run
    simp only [tablUpdate, run_bind_eq_some, run_expect_eq_some, run_identifier_eq_some, run_pure_eq_some,
      exists_const] at run
    obtain ⟨_, rfl, name, _, rfl, _, rfl, assignments, _, assigned, optWhereNode, _, filtered, rfl, rfl⟩ := run
    obtain ⟨us, rfl, assignmentList⟩ := reads_assignmentList.sound assigned
    obtain ⟨vs, rfl, optWhere⟩ := reads_optWhereStatement.sound filtered
    exact ⟨.kwUpdate :: .identifier name :: .kwSet :: (us ++ vs), by simp, .intro assignmentList optWhere⟩
  · intro us rest node written follows
    cases written with
    | intro assignmentList optWhere =>
        simp only [tablUpdate, run_bind_eq_some, run_expect_eq_some, run_identifier_eq_some, run_pure_eq_some,
          exists_const, List.cons_append, List.append_assoc]
        exact ⟨_, rfl, _, _, rfl, _, rfl, _, _,
          reads_assignmentList.complete assignmentList (ne_comma_of_optWhereStatement optWhere follows), _, rest,
          reads_optWhereStatement.complete optWhere follows, rfl, rfl⟩

theorem reads_tablDelete : Reads tablDelete TablDelete Closes := by
  constructor
  · intro ts rest node run
    simp only [tablDelete, run_bind_eq_some, run_expect_eq_some, run_identifier_eq_some, run_pure_eq_some,
      exists_const] at run
    obtain ⟨_, rfl, _, rfl, name, _, rfl, optWhereNode, _, filtered, rfl, rfl⟩ := run
    obtain ⟨us, rfl, optWhere⟩ := reads_optWhereStatement.sound filtered
    exact ⟨.kwDelete :: .kwFrom :: .identifier name :: us, rfl, .intro optWhere⟩
  · intro us rest node written follows
    cases written with
    | intro optWhere =>
        simp only [tablDelete, run_bind_eq_some, run_expect_eq_some, run_identifier_eq_some, run_pure_eq_some,
          exists_const]
        exact ⟨_, rfl, _, rfl, _, _, rfl, _, rest, reads_optWhereStatement.complete optWhere follows, rfl, rfl⟩

theorem reads_colList : Reads colList ColList fun t => t ≠ some .comma :=
  (reads_identifier.sepBy trivial).mono fun _ follows => ⟨trivial, follows⟩

theorem reads_optColList : Reads optColList OptColList fun t => t ≠ some .lparen := by
  constructor
  · intro ts rest columns run
    rw [optColList, run_takes_bind_eq_some] at run
    rcases run with ⟨_, rfl, run⟩ | ⟨-, run⟩
    · simp only [if_pos, run_bind_eq_some, run_expect_eq_some, run_pure_eq_some, exists_const] at run
      obtain ⟨columns, _, list, _, rfl, rfl, rfl⟩ := run
      obtain ⟨us, rfl, written⟩ := reads_colList.sound list
      exact ⟨.lparen :: (us ++ [Token.rparen]), by simp, .list written⟩
    · obtain ⟨rfl, rfl⟩ := run_pure_eq_some.mp run
      exact ⟨[], rfl, .empty⟩
  · intro us rest columns written follows
    rw [optColList, run_takes_bind_eq_some]
    cases written with
    | empty => exact .inr ⟨follows, rfl⟩
    | @list us columns written =>
        refine .inl ⟨us ++ Token.rparen :: rest, by simp, ?_⟩
        simp only [if_pos, run_bind_eq_some, run_expect_eq_some, run_pure_eq_some, exists_const]
        exact ⟨columns, _, reads_colList.complete written (by simp), rest, rfl, rfl, rfl⟩

theorem reads_selectionColStatement :
    Reads selectionColStatement SelectionColStatement fun t => t ≠ some .comma := by
  constructor
  · intro ts rest columns run
    rw [selectionColStatement, run_takes_bind_eq_some] at run
    rcases run with ⟨_, rfl, run⟩ | ⟨-, run⟩
    · obtain ⟨rfl, rfl⟩ := run_pure_eq_some.mp run
      exact ⟨[.asterisk], rfl, .asterisk⟩
    · simp only [Bool.false_eq_true, if_false, run_bind_eq_some, run_pure_eq_some] at run
      obtain ⟨columns, _, list, rfl, rfl⟩ := run
      obtain ⟨us, rfl, written⟩ := reads_colList.sound list
      exact ⟨us, rfl, .list written⟩
  · intro us rest columns written follows
    rw [selectionColStatement, run_takes_bind_eq_some]
    cases written with
    | asterisk => exact .inl ⟨rest, rfl, rfl⟩
    | @list _ columns written =>
        refine .inr ⟨?_, ?_⟩
        · rcases written.front with ⟨name, rfl, ⟨⟩⟩ | ⟨_, us, name, columns, rfl, rfl, ⟨⟩, -⟩
          · simp
          · simp
        · simp only [Bool.false_eq_true, if_false, run_bind_eq_some, run_pure_eq_some]
          exact ⟨columns, rest, reads_colList.complete written follows, rfl, rfl⟩

theorem reads_literalList : Reads (sepBy literalValue .comma) (Phrase.SepBy LiteralValue .comma) fun t =>
    t.bind literalOf = none ∧ t ≠ some .comma :=
  reads_literalValue.sepBy rfl

theorem reads_valueRecord : Reads valueRecord ValueRecord fun _ => True := by
  constructor
  · intro ts rest record run
    simp only [valueRecord, run_bind_eq_some, run_expect_eq_some, run_pure_eq_some, exists_const] at run
    obtain ⟨_, rfl, values, _, list, _, rfl, rfl, rfl⟩ := run
    obtain ⟨us, rfl, written⟩ := reads_literalList.sound list
    exact ⟨.lparen :: (us ++ [Token.rparen]), by simp, .intro written⟩
  · intro us rest record written follows
    cases written with
    | intro literalList =>
        simp only [valueRecord, run_bind_eq_some, run_expect_eq_some, run_pure_eq_some, exists_const,
          List.cons_append, List.append_assoc]
        exact ⟨_, rfl, _, _, reads_literalList.complete literalList ⟨rfl, (by simp)⟩, rest, rfl, rfl, rfl⟩

theorem reads_valuesList : Reads (sepBy valueRecord .comma) (Phrase.SepBy ValueRecord .comma) fun t => t ≠ some .comma :=
  (reads_valueRecord.sepBy trivial).mono fun _ follows => ⟨trivial, follows⟩

theorem reads_tablInsert : Reads tablInsert TablInsert fun t => t ≠ some .comma := by
  constructor
  · intro ts rest node run
    simp only [tablInsert, run_bind_eq_some, run_expect_eq_some, run_identifier_eq_some, run_pure_eq_some,
      exists_const] at run
    obtain ⟨_, rfl, _, rfl, name, _, rfl, columns, _, listed, _, rfl, records, _, valued, rfl, rfl⟩ := run
    obtain ⟨us, rfl, optColList⟩ := reads_optColList.sound listed
    obtain ⟨vs, rfl, valuesList⟩ := reads_valuesList.sound valued
    exact ⟨.kwInsert :: .kwInto :: .identifier name :: (us ++ Token.kwValues :: vs), by simp, .intro optColList valuesList⟩
  · intro us rest node written follows
    cases written with
    | intro optColList valuesList =>
        simp only [tablInsert, run_bind_eq_some, run_expect_eq_some, run_identifier_eq_some, run_pure_eq_some,
          exists_const, List.cons_append, List.append_assoc]
        exact ⟨_, rfl, _, rfl, _, _, rfl, _, _, reads_optColList.complete optColList (by simp), _, rfl,
          _, rest, reads_valuesList.complete valuesList follows, rfl, rfl⟩

theorem reads_tablSelect : Reads tablSelect TablSelect Closes := by
  constructor
  · intro ts rest node run
    simp only [tablSelect, run_bind_eq_some, run_expect_eq_some, run_identifier_eq_some, run_pure_eq_some,
      exists_const] at run
    obtain ⟨_, rfl, columns, _, selected, _, rfl, name, _, rfl, optWhereNode, _, filtered, rfl, rfl⟩ := run
    obtain ⟨us, rfl, selection⟩ := reads_selectionColStatement.sound selected
    obtain ⟨vs, rfl, optWhere⟩ := reads_optWhereStatement.sound filtered
    exact ⟨.kwSelect :: (us ++ Token.kwFrom :: .identifier name :: vs), by simp, .intro selection optWhere⟩
  · intro us rest node written follows
    cases written with
    | intro selection optWhere =>
        simp only [tablSelect, run_bind_eq_some, run_expect_eq_some, run_identifier_eq_some, run_pure_eq_some,
          exists_const, List.cons_append, List.append_assoc]
        exact ⟨_, rfl, _, _, reads_selectionColStatement.complete selection (by simp), _, rfl, _, _, rfl,
          _, rest, reads_optWhereStatement.complete optWhere follows, rfl, rfl⟩

/-! Programs -/

theorem closes_semicolon : Closes (some .semicolon) :=
  ⟨rfl, (by simp), (by simp), (by simp)⟩

theorem reads_statement (room : Nat) :
    Reads (statement room) (Grammar.Statement room) fun t => t = some .semicolon := by
  constructor
  · intro ts rest stmt run
    rw [statement, run_bind_eq_some] at run
    obtain ⟨_, _, got, run⟩ := run
    obtain ⟨rfl, rfl⟩ := run_get_eq_some.mp got
    split at run
    · obtain ⟨us, rfl, node, rfl, written⟩ := ((reads_tablCrea room).map Statement.create).sound run
      exact ⟨us, rfl, .create written⟩
    · obtain ⟨us, rfl, node, rfl, written⟩ := (reads_tablDrop.map Statement.drop).sound run
      exact ⟨us, rfl, .drop written⟩
    · obtain ⟨us, rfl, node, rfl, written⟩ := (reads_tablInsert.map Statement.insert).sound run
      exact ⟨us, rfl, .insert written⟩
    · obtain ⟨us, rfl, node, rfl, written⟩ := (reads_tablSelect.map Statement.select).sound run
      exact ⟨us, rfl, .select written⟩
    · obtain ⟨us, rfl, node, rfl, written⟩ := (reads_csvImport.map Statement.csvImport).sound run
      exact ⟨us, rfl, .csvImport written⟩
    · obtain ⟨us, rfl, node, rfl, written⟩ := (reads_tablDelete.map Statement.delete).sound run
      exact ⟨us, rfl, .delete written⟩
    · obtain ⟨us, rfl, node, rfl, written⟩ := (reads_tablUpdate.map Statement.update).sound run
      exact ⟨us, rfl, .update written⟩
    · obtain ⟨us, rfl, node, rfl, written⟩ := (reads_tablDescribe.map Statement.describe).sound run
      exact ⟨us, rfl, .describe written⟩
    · cases run
  · intro us rest stmt written follows
    have closes : Closes rest.head? := by
      rw [follows]
      exact closes_semicolon
    rw [statement, run_bind_eq_some]
    refine ⟨us ++ rest, us ++ rest, run_get_eq_some.mpr ⟨rfl, rfl⟩, ?_⟩
    -- each kind of statement is known by its first token
    cases written with
    | create read =>
        refine Eq.trans ?_ (((reads_tablCrea room).map Statement.create).complete ⟨_, rfl, read⟩ trivial)
        cases read
        rfl
    | drop read =>
        refine Eq.trans ?_ ((reads_tablDrop.map Statement.drop).complete ⟨_, rfl, read⟩ trivial)
        cases read
        rfl
    | insert read =>
        refine Eq.trans ?_ ((reads_tablInsert.map Statement.insert).complete ⟨_, rfl, read⟩ closes.notComma)
        cases read
        rfl
    | select read =>
        refine Eq.trans ?_ ((reads_tablSelect.map Statement.select).complete ⟨_, rfl, read⟩ closes)
        cases read
        rfl
    | csvImport read =>
        refine Eq.trans ?_ ((reads_csvImport.map Statement.csvImport).complete ⟨_, rfl, read⟩ trivial)
        cases read
        rfl
    | delete read =>
        refine Eq.trans ?_ ((reads_tablDelete.map Statement.delete).complete ⟨_, rfl, read⟩ closes)
        cases read
        rfl
    | update read =>
        refine Eq.trans ?_ ((reads_tablUpdate.map Statement.update).complete ⟨_, rfl, read⟩ closes)
        cases read
        rfl
    | describe read =>
        refine Eq.trans ?_ ((reads_tablDescribe.map Statement.describe).complete ⟨_, rfl, read⟩ trivial)
        cases read
        rfl

theorem reads_terminated (room : Nat) : Reads (terminated room) (Terminated room) fun _ => True := by
  constructor
  · intro ts rest stmt run
    simp only [terminated, run_bind_eq_some, run_expect_eq_some, run_pure_eq_some, exists_const] at run
    obtain ⟨stmt, _, read, _, rfl, rfl, rfl⟩ := run
    obtain ⟨us, rfl, written⟩ := (reads_statement room).sound read
    exact ⟨us ++ [Token.semicolon], by simp, .intro written⟩
  · intro us rest stmt written follows
    cases written with
    | intro written =>
        simp only [terminated, run_bind_eq_some, run_expect_eq_some, run_pure_eq_some, exists_const,
          List.append_assoc]
        exact ⟨stmt, _, (reads_statement room).complete written rfl, rest, rfl, rfl, rfl⟩

theorem terminated_ne_nil {stmt : Statement} (h : Terminated room ts stmt) : ∃ t us, ts = t :: us := by
  cases h with
  | intro _ => exact List.exists_cons_of_ne_nil (List.concat_ne_nil _ _)

theorem program_iff {stmts : List Statement} : Program ts stmts ↔
    ∃ us vs stmt others, ts = us ++ vs ∧ stmts = stmt :: others ∧ Terminated firstRoom us stmt ∧
      Phrase.Many (Terminated laterRoom) vs others := by
  constructor
  · intro h
    induction h with
    | one statement => exact ⟨_, [], _, [], (List.append_nil _).symm, rfl, statement, .none⟩
    | @more _ ws _ last _ statement ih =>
        obtain ⟨us, vs, stmt, others, rfl, rfl, first, rest⟩ := ih
        exact ⟨us, vs ++ ws, stmt, others ++ [last], List.append_assoc _ _ _, rfl, first, rest.more statement⟩
  · rintro ⟨us, vs, stmt, others, rfl, rfl, first, rest⟩
    induction rest with
    | none =>
        rw [List.append_nil]
        exact .one first
    | more _ statement ih =>
        rw [← List.append_assoc]
        exact ih.more statement

theorem reads_statements : Reads (many (terminated laterRoom) fun _ => true) (Phrase.Many (Terminated laterRoom))
    fun t => t = none := by
  refine ((reads_terminated laterRoom).many ?_ fun _ _ => trivial).mono ?_
  · intro us stmt written
    obtain ⟨t, vs, rfl⟩ := terminated_ne_nil written
    exact ⟨t, vs, rfl, rfl⟩
  · rintro t rfl
    exact ⟨trivial, rfl⟩

theorem reads_program : Reads program Program fun t => t = none := by
  constructor
  · intro ts rest stmts run
    simp only [program, run_bind_eq_some, run_pure_eq_some] at run
    obtain ⟨stmt, _, first, others, _, more, rfl, rfl⟩ := run
    obtain ⟨us, rfl, statement⟩ := (reads_terminated firstRoom).sound first
    obtain ⟨vs, rfl, statements⟩ := reads_statements.sound more
    exact ⟨us ++ vs, (List.append_assoc _ _ _).symm,
      program_iff.mpr ⟨us, vs, stmt, others, rfl, rfl, statement, statements⟩⟩
  · intro us rest stmts written follows
    obtain ⟨us, vs, stmt, others, rfl, rfl, statement, statements⟩ := program_iff.mp written
    simp only [program, run_bind_eq_some, run_pure_eq_some, List.append_assoc]
    exact ⟨stmt, _, (reads_terminated firstRoom).complete statement trivial, others, rest,
      reads_statements.complete statements follows, rfl, rfl⟩

/-! The tokens of a sentence -/

/-- It ends neither a statement nor the input. -/
def isInner : Token → Bool
  | .unexpected _ | .semicolon => false
  | _ => true

@[simp] theorem isInner_identifier (str : Bytes) : isInner (.identifier str) = true := rfl

@[simp] theorem isInner_literalString (str : Bytes) : isInner (.literalString str) = true := rfl

@[simp] theorem isInner_literalNumber (str : Bytes) : isInner (.literalNumber str) = true := rfl

section Inner

attribute [local simp] or_imp forall_and

theorem inner_literalValue {literal : LiteralNode} (h : LiteralValue ts literal) :
    ∀ t ∈ ts, isInner t = true := by
  cases h with
  | empty | number _ | string _ | null | true | false => simp +decide

theorem inner_colModifier {modifier : Bytes} (h : ColModifier room ts modifier) : ∀ t ∈ ts, isInner t = true := by
  cases h with
  | primaryKey | notNull | unique => simp +decide
  | default value => simpa +decide using inner_literalValue value

theorem inner_untypedColDef {column : UntypedColumnDefNode} (h : UntypedColDef room ts column) :
    ∀ t ∈ ts, isInner t = true := by
  obtain ⟨modifiers⟩ := h
  simpa +decide using modifiers.forall_mem fun _ _ => inner_colModifier

theorem inner_untypedColDefs {columns : Schema} (h : UntypedColDefs room ts columns) :
    ∀ t ∈ ts, isInner t = true := by
  induction h with
  | none => simp +decide
  | one single => exact inner_untypedColDef single
  | more first _ ih => simpa +decide using ⟨inner_untypedColDef first, ih⟩

theorem inner_conditionList {condition : ConditionNode} (h : ConditionList ts condition) :
    ∀ t ∈ ts, isInner t = true := by
  obtain ⟨comparator, value⟩ := h
  have compared : ∀ {ts : List Token} {cmp : ComparatorType}, Comparator ts cmp → ∀ t ∈ ts, isInner t = true := by
    rintro ts cmp ⟨⟩ <;> simp +decide
  simpa +decide using ⟨compared comparator, inner_literalValue value⟩

theorem inner_optWhereStatement {optWhereNode : Option WhereNode} (h : OptWhereStatement ts optWhereNode) :
    ∀ t ∈ ts, isInner t = true := by
  cases h with
  | empty => simp +decide
  | «where» list => simpa +decide using inner_conditionList list

theorem inner_assignment {node : AssignmentNode} (h : Assignment ts node) : ∀ t ∈ ts, isInner t = true := by
  obtain ⟨value⟩ := h
  simpa +decide using inner_literalValue value

theorem inner_colList {columns : List Bytes} (h : ColList ts columns) : ∀ t ∈ ts, isInner t = true := by
  refine h.forall_mem rfl ?_
  rintro _ _ ⟨⟩
  simp +decide

theorem inner_valueRecord {record : ValueRecordNode} (h : ValueRecord ts record) :
    ∀ t ∈ ts, isInner t = true := by
  obtain ⟨literals⟩ := h
  have listed : ∀ t ∈ _, isInner t = true := literals.forall_mem rfl fun _ _ => inner_literalValue
  simpa +decide using listed

theorem inner_statement {stmt : Statement} (h : Grammar.Statement room ts stmt) : ∀ t ∈ ts, isInner t = true := by
  cases h with
  | create node =>
      obtain ⟨columns⟩ := node
      simpa +decide using inner_untypedColDefs columns
  | drop node | describe node | csvImport node =>
      cases node
      simp +decide
  | insert node =>
      obtain ⟨columns, records⟩ := node
      have listed : ∀ t ∈ _, isInner t = true := records.forall_mem rfl fun _ _ => inner_valueRecord
      cases columns with
      | empty => simpa +decide using listed
      | list columns => simpa +decide using ⟨inner_colList columns, listed⟩
  | select node =>
      obtain ⟨columns, optWhere⟩ := node
      cases columns with
      | asterisk => simpa +decide using inner_optWhereStatement optWhere
      | list columns => simpa +decide using ⟨inner_colList columns, inner_optWhereStatement optWhere⟩
  | delete node =>
      obtain ⟨optWhere⟩ := node
      simpa +decide using inner_optWhereStatement optWhere
  | update node =>
      obtain ⟨assignments, optWhere⟩ := node
      simpa +decide using ⟨assignments.forall_mem rfl fun _ _ => inner_assignment, inner_optWhereStatement optWhere⟩

end Inner

theorem isEnd_of_isInner {t : Token} (h : t = .semicolon ∨ isInner t = true) : isEnd t = false := by
  rcases h with rfl | h
  · rfl
  · unfold isEnd
    split
    · cases h
    · rfl

/-- A statement ends with the first semicolon. -/
theorem terminated_cases {stmt : Statement} (h : Terminated room ts stmt) :
    ∃ us, ts = us ++ [.semicolon] ∧ .semicolon ∉ us := by
  obtain ⟨statement⟩ := h
  exact ⟨_, rfl, fun mem => Bool.noConfusion (inner_statement statement _ mem)⟩

theorem inner_terminated {stmt : Statement} (h : Terminated room ts stmt) :
    ∀ t ∈ ts, t = .semicolon ∨ isInner t = true := by
  obtain ⟨statement⟩ := h
  refine List.forall_mem_append.mpr ⟨fun t mem => .inr (inner_statement statement t mem), ?_⟩
  exact List.forall_mem_singleton.mpr (.inl rfl)

theorem inner_program {stmts : List Statement} (h : Program ts stmts) :
    ∀ t ∈ ts, t = .semicolon ∨ isInner t = true := by
  obtain ⟨us, vs, stmt, others, rfl, rfl, first, rest⟩ := program_iff.mp h
  exact List.forall_mem_append.mpr ⟨inner_terminated first, rest.forall_mem fun _ _ => inner_terminated⟩

/-! More room on the stack -/

section Room

variable {room' : Nat}

theorem colModifier_mono {modifier : Bytes} (h : ColModifier room ts modifier) (more : room ≤ room') :
    ColModifier room' ts modifier := by
  cases h with
  | primaryKey =>
      obtain ⟨m, rfl⟩ := Nat.exists_eq_add_of_le more
      rw [Nat.add_right_comm]
      exact .primaryKey
  | notNull =>
      obtain ⟨m, rfl⟩ := Nat.exists_eq_add_of_le more
      rw [Nat.add_right_comm]
      exact .notNull
  | unique =>
      obtain ⟨m, rfl⟩ := Nat.exists_eq_add_of_le more
      rw [Nat.add_right_comm]
      exact .unique
  | default value =>
      obtain ⟨m, rfl⟩ := Nat.exists_eq_add_of_le more
      rw [Nat.add_right_comm]
      exact .default value

theorem untypedColDef_mono {column : UntypedColumnDefNode} (h : UntypedColDef room ts column) (more : room ≤ room') :
    UntypedColDef room' ts column := by
  obtain ⟨modifiers⟩ := h
  obtain ⟨m, rfl⟩ := Nat.exists_eq_add_of_le more
  rw [Nat.add_right_comm]
  exact .intro (modifiers.mono fun _ _ modifier => colModifier_mono modifier (Nat.le_add_right _ m))

theorem untypedColDefs_mono {columns : Schema} (h : UntypedColDefs room ts columns) (more : room ≤ room') :
    UntypedColDefs room' ts columns := by
  induction h generalizing room' with
  | none =>
      obtain ⟨m, rfl⟩ := Nat.exists_eq_add_of_le more
      rw [Nat.add_right_comm]
      exact .none
  | one single => exact .one (untypedColDef_mono single more)
  | more first _ ih =>
      obtain ⟨m, rfl⟩ := Nat.exists_eq_add_of_le more
      rw [Nat.add_right_comm] at more ⊢
      exact .more (untypedColDef_mono first more) (ih (Nat.le_add_right _ m))

theorem terminated_mono {stmt : Statement} (h : Terminated room ts stmt) (more : room ≤ room') :
    Terminated room' ts stmt := by
  obtain ⟨statement⟩ := h
  refine .intro ?_
  cases statement with
  | create tablCrea =>
      obtain ⟨columns⟩ := tablCrea
      exact .create (.intro (untypedColDefs_mono columns more))
  | drop node => exact .drop node
  | insert node => exact .insert node
  | select node => exact .select node
  | csvImport node => exact .csvImport node
  | delete node => exact .delete node
  | update node => exact .update node
  | describe node => exact .describe node

end Room

/-- A program, or nothing. -/
def OptProgram (ts : List Token) (stmts : List Statement) : Prop := ts = [] ∧ stmts = [] ∨ Program ts stmts

theorem optProgram_of_many {stmts : List Statement} (h : Phrase.Many (Terminated laterRoom) ts stmts) :
    OptProgram ts stmts := by
  rcases h.front with ⟨rfl, rfl⟩ | ⟨us, vs, stmt, others, rfl, rfl, first, rest⟩
  · exact .inl ⟨rfl, rfl⟩
  · exact .inr (program_iff.mpr ⟨us, vs, stmt, others, rfl, rfl, terminated_mono first (by decide), rest⟩)

/-- A program is cut behind a semicolon into two. -/
theorem program_split {us : List Token} {stmts : List Statement} (h : Program (ts ++ us) stmts)
    (stops : ts.getLast? = some .semicolon) :
    ∃ front back, stmts = front ++ back ∧ Program ts front ∧ OptProgram us back := by
  obtain ⟨xs, ys, stmt, others, whole, rfl, first, rest⟩ := program_iff.mp h
  obtain ⟨body, rfl, clean⟩ := terminated_cases first
  obtain ⟨before, rfl⟩ := List.getLast?_eq_some_iff.mp stops
  rw [List.append_assoc, List.append_assoc] at whole
  rcases Phrase.split_at_stop clean whole with ⟨rfl, rfl⟩ | ⟨zs, rfl, rfl⟩
  · exact ⟨[stmt], others, rfl, .one first, optProgram_of_many rest⟩
  · have again : Phrase.Many (Terminated laterRoom) ((zs ++ [Token.semicolon]) ++ us) others := by
      rwa [List.append_assoc]
    obtain ⟨front, back, rfl, left, right⟩ := again.split (fun _ => List.getLast?_concat) fun _ _ => terminated_cases
    refine ⟨stmt :: front, back, rfl, ?_, optProgram_of_many right⟩
    exact program_iff.mpr ⟨_, zs ++ [Token.semicolon], stmt, front, by simp, rfl, first, left⟩

theorem program_ends {stmts : List Statement} (h : Program ts stmts) : ts.getLast? = some .semicolon := by
  cases h with
  | one statement =>
      obtain ⟨us, rfl, -⟩ := terminated_cases statement
      exact List.getLast?_concat
  | more _ statement =>
      obtain ⟨us, rfl, -⟩ := terminated_cases statement
      rw [← List.append_assoc]
      exact List.getLast?_concat

/-! `yyparse` -/

/-- What the generated parser reads. -/
def input (ts : List Token) : List Token := ts.takeWhile fun t => !isEnd t

theorem yyparse_eq_some {stmts : List Statement} : yyparse ts = some stmts ↔ Program (input ts) stmts := by
  rw [← reads_program.whole_iff rfl, yyparse, input]
  cases program.run (ts.takeWhile fun t => !isEnd t) with
  | none => simp
  | some result =>
      obtain ⟨parsed, left⟩ := result
      cases left with
      | nil => simp
      | cons _ _ => simp

theorem yyparse_congr {us : List Token} (same : input ts = input us) : yyparse ts = yyparse us := by
  rw [yyparse, yyparse, show (ts.takeWhile fun t => !isEnd t) = us.takeWhile fun t => !isEnd t from same]

/-- Tokens that do not end the input are read up to one that does. -/
theorem input_append {us : List Token} (inside : ∀ t ∈ us, isEnd t = false) (ends : ts.head?.all isEnd = true) :
    input (us ++ ts) = us := by
  have reads : ∀ t ∈ us, (!isEnd t) = true := fun t mem => by rw [inside t mem]; rfl
  rw [input, List.takeWhile_append_of_pos reads]
  cases ts with
  | nil => rw [List.takeWhile_nil, List.append_nil]
  | cons t ts =>
      have stops : isEnd t = true := ends
      rw [List.takeWhile_cons, stops]
      exact List.append_nil us

theorem input_of_program {us : List Token} {stmts : List Statement} (sentence : Program us stmts)
    (ends : ts.head?.all isEnd = true) : input (us ++ ts) = us :=
  input_append (fun t mem => isEnd_of_isInner (inner_program sentence t mem)) ends

theorem yyparse_of_program {stmts : List Statement} (sentence : Program ts stmts) : yyparse ts = some stmts := by
  have whole : input (ts ++ []) = ts := input_of_program sentence rfl
  rw [List.append_nil] at whole
  rwa [yyparse_eq_some, whole]

end Jssql.Parser
