import Jssql.Theory.LexemeScan

/-!
The statement splitter against the lexer. A text of lexemes is cut anywhere; the splitter
reports a semicolon if and only if the cut is in no string literal and the last lexeme before
it that is not blank is the semicolon.
-/
namespace Jssql.CLIDriver
open Foundation Foundation.Pattern Lexer

/-- A lexeme of the rules but the last, or blanks. -/
def IsPiece (w : Bytes) : Prop :=
  (∃ rule ∈ lexemeRules, Matches rule.pattern w) ∨ ∀ c ∈ w, isSpace c = true

/-- The pieces of the first `k` bytes; the last of them may be cut. -/
def piecesUpTo : List Bytes → Nat → List Bytes
  | [], _ => []
  | w :: pieces, k => if k < w.length then [w.take k] else w :: piecesUpTo pieces (k - w.length)

/-- The first `k` bytes end between the quotes of a string literal. -/
def endsInsideLiteral : List Bytes → Nat → Bool
  | [], _ => false
  | w :: pieces, k =>
      if k < w.length then decide (0 < k ∧ Matches string w) else endsInsideLiteral pieces (k - w.length)

def lastLexeme (pieces : List Bytes) : Option Bytes := pieces.reverse.find? fun w => !w.all isSpace

theorem flatten_piecesUpTo (pieces : List Bytes) (k : Nat) :
    (piecesUpTo pieces k).flatten = pieces.flatten.take k := by
  induction pieces generalizing k with
  | nil => rw [List.flatten_nil, List.take_nil]; rfl
  | cons w pieces ih =>
      rw [piecesUpTo, List.flatten_cons, List.take_append]
      split
      · next within =>
          rw [Nat.sub_eq_zero_of_le (Nat.le_of_lt within), List.take_zero, List.append_nil, List.flatten_singleton]
      · next beyond =>
          rw [List.flatten_cons, ih, List.take_of_length_le (Nat.not_lt.mp beyond)]

/-! One piece -/

theorem Plain.take {w : Bytes} (plain : Plain w) (k : Nat) : QuoteScan.start.run (w.take k) = QuoteScan.start := by
  rw [← List.take_append_drop k w] at plain
  exact QuoteScan.run_cutPlain plain

theorem spaces_take {w : Bytes} (spaces : ∀ c ∈ w, isSpace c = true) (k : Nat) :
    QuoteScan.start.run (w.take k) = QuoteScan.start := by
  have stays : ∀ c : UInt8, isSpace c = true → QuoteScan.start.step c = QuoteScan.start := by
    grind [isSpace, QuoteScan.step, QuoteScan.start, singleQuote, backslash]
  induction w generalizing k with
  | nil => rw [List.take_nil]; rfl
  | cons c w ih =>
      rw [List.forall_mem_cons] at spaces
      cases k with
      | zero => rfl
      | succ k =>
          rw [List.take_succ_cons, QuoteScan.run_cons, stays c spaces.1]
          exact ih spaces.2 k

theorem IsPiece.run {w : Bytes} (piece : IsPiece w) : QuoteScan.start.run w = QuoteScan.start := by
  rcases piece with ⟨rule, mem, matched⟩ | spaces
  · rcases lexeme_cases mem matched with rfl | plain
    · exact QuoteScan.run_string matched
    · exact QuoteScan.run_plain plain
  · have whole := spaces_take spaces w.length
    rwa [List.take_length] at whole

theorem IsPiece.run_cut {w : Bytes} (piece : IsPiece w) {k : Nat} (part : k < w.length) :
    (QuoteScan.start.run (w.take k)).inSingleQuote = decide (0 < k ∧ Matches string w) := by
  by_cases cut : 0 < k ∧ Matches string w
  · rw [decide_eq_true cut]
    exact QuoteScan.run_cutString cut.2 cut.1 part
  · rw [decide_eq_false cut]
    obtain rfl | some_ := Nat.eq_zero_or_pos k
    · rfl
    · rcases piece with ⟨rule, mem, matched⟩ | spaces
      · rcases lexeme_cases mem matched with rfl | plain
        · exact absurd ⟨some_, matched⟩ cut
        · rw [plain.take k]
          rfl
      · rw [spaces_take spaces k]
        rfl

/-- The forward scan is inside quotes where the lexer is inside a literal. -/
theorem run_take_pieces {pieces : List Bytes} (all : ∀ w ∈ pieces, IsPiece w) (k : Nat) :
    (QuoteScan.start.run (pieces.flatten.take k)).inSingleQuote = endsInsideLiteral pieces k := by
  induction pieces generalizing k with
  | nil => rw [List.flatten_nil, List.take_nil]; rfl
  | cons w pieces ih =>
      rw [List.forall_mem_cons] at all
      rw [endsInsideLiteral, List.flatten_cons, List.take_append]
      split
      · next within =>
          rw [Nat.sub_eq_zero_of_le (Nat.le_of_lt within), List.take_zero, List.append_nil]
          exact all.1.run_cut within
      · next beyond =>
          rw [List.take_of_length_le (Nat.not_lt.mp beyond), QuoteScan.run_append, all.1.run]
          exact ih all.2 _

/-! The last lexeme -/

/-- The last character that is not blank is that of the last lexeme that is not blank. -/
theorem lastNonSpace_flatten (pieces : List Bytes) :
    lastNonSpace pieces.flatten = (lastLexeme pieces).bind lastNonSpace := by
  induction pieces with
  | nil => rfl
  | cons w pieces ih =>
      have last : lastLexeme (w :: pieces) = (lastLexeme pieces).or (if w.all isSpace then none else some w) := by
        rw [lastLexeme, List.reverse_cons, List.find?_append, List.find?_singleton]
        cases w.all isSpace <;> rfl
      rw [List.flatten_cons, lastNonSpace_append, ih, last]
      cases found : lastLexeme pieces with
      | none =>
          rw [Option.bind_none, Option.none_or, Option.none_or]
          split
          · next blank => exact lastNonSpace_eq_none.mpr blank
          · rfl
      | some v =>
          have solid : ¬ v.all isSpace = true := by
            have holds : (!v.all isSpace) = true :=
              List.find?_some (p := fun w : Bytes => !w.all isSpace) found
            exact fun blank => by rw [blank] at holds; cases holds
          cases read : lastNonSpace v with
          | none => exact absurd (lastNonSpace_eq_none.mp read) solid
          | some c => rw [Option.bind_some, Option.some_or, read, Option.bind_some, read]; rfl

/-! Semicolons -/

theorem lastNonSpace_semicolon {w : Bytes} (alone : semicolon ∈ w → w = [semicolon]) :
    lastNonSpace w = some semicolon ↔ w = [semicolon] := by
  constructor
  · exact fun last => alone (mem_of_lastNonSpace last)
  · rintro rfl
    rfl

theorem Plain.alone {w : Bytes} (plain : Plain w) (mem : semicolon ∈ w) : w = [semicolon] := by
  cases plain with
  | lineFeed single =>
      rw [single, List.mem_singleton] at mem
      cases mem
  | blank all => exact absurd (all semicolon mem) (by decide)
  | solid _ alone => exact alone mem

theorem IsPiece.closes {w : Bytes} (piece : IsPiece w) : lastNonSpace w = some semicolon ↔ w = [semicolon] := by
  rcases piece with ⟨rule, mem, matched⟩ | spaces
  · rcases lexeme_cases mem matched with rfl | plain
    · obtain ⟨body, rfl, -⟩ := QuoteScan.string_cases matched
      rw [← List.cons_append, lastNonSpace_concat (by decide)]
      refine iff_of_false (by decide) fun eq => ?_
      cases (List.cons.inj eq).1
    · exact lastNonSpace_semicolon plain.alone
  · exact lastNonSpace_semicolon fun mem => absurd (spaces _ mem) (by decide)

theorem IsPiece.closes_cut {w : Bytes} (piece : IsPiece w) {k : Nat} (part : k < w.length)
    (outside : ¬ (0 < k ∧ Matches string w)) : lastNonSpace (w.take k) = some semicolon ↔ w.take k = [semicolon] := by
  refine lastNonSpace_semicolon fun mem => ?_
  have whole := List.mem_of_mem_take mem
  obtain rfl | some_ := Nat.eq_zero_or_pos k
  · cases mem
  · rcases piece with ⟨rule, listed, matched⟩ | spaces
    · rcases lexeme_cases listed matched with rfl | plain
      · exact absurd ⟨some_, matched⟩ outside
      · rw [plain.alone whole, List.length_singleton] at part
        omega
    · exact absurd (spaces _ whole) (by decide)

theorem semicolon_piecesUpTo {pieces : List Bytes} (all : ∀ w ∈ pieces, IsPiece w) {k : Nat}
    (outside : endsInsideLiteral pieces k = false) :
    ∀ q ∈ piecesUpTo pieces k, lastNonSpace q = some semicolon ↔ q = [semicolon] := by
  induction pieces generalizing k with
  | nil => rintro _ ⟨⟩
  | cons w pieces ih =>
      rw [List.forall_mem_cons] at all
      rw [endsInsideLiteral] at outside
      rw [piecesUpTo]
      split at outside
      · next within =>
          rw [if_pos within]
          exact List.forall_mem_singleton.mpr (all.1.closes_cut within (of_decide_eq_false outside))
      · next beyond =>
          rw [if_neg beyond]
          exact List.forall_mem_cons.mpr ⟨all.1.closes, ih all.2 outside⟩

/-- The splitter agrees with the lexer at every cut. -/
theorem endsWithSemicolon_iff {pieces : List Bytes} (all : ∀ w ∈ pieces, IsPiece w) (k : Nat) :
    endsWithSemicolonOutsideQuotes (pieces.flatten.take k) = true ↔
      endsInsideLiteral pieces k = false ∧ lastLexeme (piecesUpTo pieces k) = some [semicolon] := by
  rw [endsWithSemicolonOutsideQuotes, run_take_pieces all k]
  cases inside : endsInsideLiteral pieces k with
  | true => exact iff_of_false Bool.false_ne_true fun h => Bool.noConfusion h.1
  | false =>
      have closes := semicolon_piecesUpTo all inside
      rw [if_neg Bool.false_ne_true, beq_iff_eq, ← flatten_piecesUpTo, lastNonSpace_flatten, and_iff_right rfl,
        Option.bind_eq_some_iff]
      constructor
      · rintro ⟨q, last, read⟩
        have mem := List.mem_reverse.mp (List.mem_of_find?_eq_some last)
        rw [last, (closes q mem).mp read]
      · intro last
        exact ⟨[semicolon], last, rfl⟩

/-- A literal with a quote and a semicolon, and a statement behind it: cut behind the escaped
quote, and behind the semicolon that follows. -/
theorem endsWithSemicolon_iff_literal :
    let pieces := [ascii "'a\\';'", ascii " ", ascii ";", ascii " \n"]
    (endsWithSemicolonOutsideQuotes (pieces.flatten.take 5) = true ↔
      endsInsideLiteral pieces 5 = false ∧ lastLexeme (piecesUpTo pieces 5) = some [semicolon]) ∧
    endsWithSemicolonOutsideQuotes (pieces.flatten.take 5) = false ∧
    endsWithSemicolonOutsideQuotes (pieces.flatten.take 9) = true := by
  have literal : IsPiece (ascii "'a\\';'") := by
    refine .inl ⟨stringRule, ?_, by decide +kernel⟩
    exact List.mem_append_right _ (List.mem_cons_of_mem _ List.mem_cons_self)
  have closing : IsPiece (ascii ";") := by
    refine .inl ⟨fixedRule (ascii ";", some .semicolon), ?_, by decide +kernel⟩
    exact List.mem_append_left _ (List.mem_map_of_mem (by decide +kernel))
  refine ⟨endsWithSemicolon_iff ?_ 5, by decide +kernel, by decide +kernel⟩
  simp only [List.forall_mem_cons]
  exact ⟨literal, .inr (by decide +kernel), closing, .inr (by decide +kernel), List.forall_mem_nil _⟩

end Jssql.CLIDriver
