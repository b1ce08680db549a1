import Jssql.Theory.LexemeScan

/-!
Cutting a lexically valid text outside its string literals. No lexeme but a literal holds two
neighbours of which one is a blank and the other is not, or one is a line feed; so where such
neighbours are parted, the two sides are lexed apart, and blanks between them can be dropped.
-/
namespace Jssql.CLIDriver
open Foundation Foundation.Pattern Lexer Lexing

/-- Every lexeme is taken by a rule other than the last. -/
def WellLexed (text : Bytes) : Prop := ∀ lexeme ∈ lexemes rules text, lexeme.1 ∈ lexemeRules

/-- Two characters that are neighbours in no lexeme but a literal. -/
def apart (c d : UInt8) : Bool := !(isBlank c && isBlank d) && (isSpace c || isSpace d)

def Parted (p v : Bytes) : Prop := ∀ c ∈ p.getLast?, ∀ d ∈ v.head?, apart c d = true

variable {p v w text : Bytes} {rule : LexRule UInt8 Token}

theorem firstRule_singleton (c : UInt8) : firstRule rules [c] ≠ none := by
  intro none_
  have others := firstRule_eq_none.mp none_
  by_cases line : c = lineFeed
  · have mem : fixedRule ([lineFeed], none) ∈ rules :=
      List.mem_append_left _ (List.mem_append_left _ (List.mem_map_of_mem (by decide)))
    exact others _ mem (matches_word.mpr (line ▸ rfl))
  · have mem : catchAllRule ∈ rules := List.mem_append_right _ List.mem_cons_self
    exact others _ mem (.one (decide_eq_true line))

theorem munch_total : ∀ text : Bytes, text ≠ [] → munch rules text ≠ none := by
  intro text some_
  cases text with
  | nil => exact absurd rfl some_
  | cons c text => exact munchUpTo_ne_none (k := 1) (firstRule_singleton c) Nat.one_pos (Nat.le_add_left 1 text.length)

/-! Validity -/

/-- The last rule takes one character, and returns it. -/
theorem lexeme_valid_or_unexpected {lexeme : LexRule UInt8 Token × Bytes} (mem : lexeme ∈ lexemes rules text) :
    lexeme.1 ∈ lexemeRules ∨ ∃ c, lexeme.1.action lexeme.2 = some (.unexpected c) := by
  obtain ⟨rule, w⟩ := lexeme
  obtain ⟨listed, matched⟩ := matches_of_mem_lexemes mem
  rcases List.mem_append.mp listed with plain | last
  · exact .inl plain
  · obtain rfl := List.mem_singleton.mp last
    obtain ⟨c, -, rfl⟩ := matches_one.mp matched
    exact .inr ⟨c, rfl⟩

theorem wellLexed_of_valid (valid : LexicallyValid text) : WellLexed text := by
  intro lexeme mem
  rcases lexeme_valid_or_unexpected mem with listed | ⟨c, token⟩
  · exact listed
  · exact absurd (List.mem_filterMap.mpr ⟨lexeme, mem, token⟩) (valid c)

theorem WellLexed.cases (valid : WellLexed text) {lexeme : LexRule UInt8 Token × Bytes}
    (mem : lexeme ∈ lexemes rules text) :
    lexeme.1 = stringRule ∧ Matches string lexeme.2 ∨ Plain lexeme.2 := by
  have matched := (matches_of_mem_lexemes mem).2
  rcases lexeme_cases (valid lexeme mem) matched with literal | plain
  · rw [literal] at matched
    exact .inl ⟨literal, matched⟩
  · exact .inr plain

/-- The scan is back at the start behind every lexeme. -/
theorem run_spelled {front : List (LexRule UInt8 Token × Bytes)}
    (all : ∀ lexeme ∈ front, lexeme.1 = stringRule ∧ Matches string lexeme.2 ∨ Plain lexeme.2) :
    QuoteScan.start.run (spelled front) = QuoteScan.start := by
  induction front with
  | nil => rfl
  | cons lexeme front ih =>
      rw [List.forall_mem_cons] at all
      rw [spelled_cons, QuoteScan.run_append]
      rcases all.1 with ⟨-, literal⟩ | plain
      · rw [QuoteScan.run_string literal]
        exact ih all.2
      · rw [QuoteScan.run_plain plain]
        exact ih all.2

theorem WellLexed.run (valid : WellLexed text) : QuoteScan.start.run text = QuoteScan.start := by
  have whole := run_spelled fun lexeme mem => valid.cases mem
  rwa [spelled_lexemes munch_total] at whole

/-! Neighbours -/

theorem Plain.not_apart {a b : Bytes} {c d : UInt8} (plain : Plain (a ++ c :: d :: b)) : apart c d = false := by
  have first : c ∈ a ++ c :: d :: b := List.mem_append_right _ List.mem_cons_self
  have second : d ∈ a ++ c :: d :: b := List.mem_append_right _ (List.mem_cons_of_mem _ List.mem_cons_self)
  have solid : ∀ c : UInt8, isSolid c = true → isSpace c = false := by grind [isSolid]
  rw [apart]
  cases plain with
  | lineFeed single =>
      have length := congrArg List.length single
      rw [List.length_append, List.length_cons, List.length_cons, List.length_singleton] at length
      omega
  | blank all => rw [all c first, all d second]; rfl
  | solid all _ => rw [solid c (all c first), solid d (all d second), Bool.or_self, Bool.and_false]

theorem Parted.not_plain (parted : Parted p v) (left : p ≠ []) (right : v ≠ []) : ¬ Plain (p ++ v) := by
  intro plain
  obtain ⟨a, c, rfl⟩ := (List.eq_nil_or_concat' p).resolve_left left
  obtain ⟨d, b, rfl⟩ := List.exists_cons_of_ne_nil right
  rw [List.append_assoc, List.singleton_append] at plain
  have apart_ := parted c (List.getLast?_concat) d rfl
  rw [plain.not_apart] at apart_
  cases apart_

theorem Parted.inner {x a b y : Bytes} (parted : Parted (x ++ a) (b ++ y)) (left : a ≠ []) (right : b ≠ []) :
    Parted a b := by
  intro c hc d hd
  refine parted c ?_ d ?_
  · rwa [List.getLast?_append_of_ne_nil x left]
  · rwa [List.head?_append_of_ne_nil b right]

theorem parted_of_some {c d : UInt8} (last : p.getLast? = some c) (first : v.head? = some d)
    (parted : apart c d = true) : Parted p v := by
  intro c' hc d' hd
  rw [last] at hc
  rw [first] at hd
  rwa [← Option.some.inj hc, ← Option.some.inj hd]

theorem parted_lineFeed : Parted p (lineFeed :: v) := by
  have behind : ∀ c : UInt8, apart c lineFeed = true := by grind [apart, isSpace, isBlank, lineFeed]
  intro c _ d hd
  obtain rfl : lineFeed = d := Option.some.inj hd
  exact behind c

theorem parted_of_lineFeed (ends : ∀ c ∈ p.getLast?, c = lineFeed) : Parted p v := by
  have before : ∀ d : UInt8, apart lineFeed d = true := by grind [apart, isSpace, isBlank, lineFeed]
  intro c hc d _
  rw [ends c hc]
  exact before d

/-! Cuts -/

/-- Where a text is cut, and where the scan is there. -/
inductive Cut (p v : Bytes) : Prop
  | between (lexed : lexemes rules (p ++ v) = lexemes rules p ++ lexemes rules v)
      (scan : QuoteScan.start.run p = QuoteScan.start)
  | literal {front a b back : Bytes} (left : a ≠ []) (right : b ≠ [])
      (mem : (stringRule, a ++ b) ∈ lexemes rules (p ++ v)) (matched : Matches string (a ++ b)) (before : p = front ++ a)
      (behind : v = b ++ back) (scan : (QuoteScan.start.run p).inSingleQuote = true)
  | plain {front a b back : Bytes} (left : a ≠ []) (right : b ≠ []) (plain : Plain (a ++ b)) (before : p = front ++ a)
      (behind : v = b ++ back) (scan : QuoteScan.start.run p = QuoteScan.start)

theorem WellLexed.cut (valid : WellLexed (p ++ v)) : Cut p v := by
  rcases lexemes_cut munch_total p v with lexed | ⟨front, rule, a, b, back, left, right, lexed, before, behind⟩
  · refine .between lexed (WellLexed.run fun lexeme mem => valid lexeme ?_)
    rw [lexed]
    exact List.mem_append_left _ mem
  · have mem : (rule, a ++ b) ∈ lexemes rules (p ++ v) := by
      rw [lexed]
      exact List.mem_append_right _ List.mem_cons_self
    have scan : QuoteScan.start.run p = QuoteScan.start.run a := by
      rw [before, QuoteScan.run_append, run_spelled fun lexeme mem => valid.cases (lexed ▸ List.mem_append_left _ mem)]
    rcases valid.cases mem with ⟨rfl, matched⟩ | plain
    · have positive := List.length_pos_iff.mpr left
      have part : a.length < (a ++ b).length := by
        rw [List.length_append]
        exact Nat.lt_add_of_pos_right (List.length_pos_iff.mpr right)
      have quoted := QuoteScan.run_cutString matched positive part
      rw [List.take_left] at quoted
      exact .literal left right mem matched before behind (scan ▸ quoted)
    · exact .plain left right plain before behind (scan.trans (QuoteScan.run_cutPlain plain))

/-- Outside literals the two sides of parted neighbours are lexed apart. -/
theorem WellLexed.split (valid : WellLexed (p ++ v)) (outside : (QuoteScan.start.run p).inSingleQuote = false)
    (parted : Parted p v) : lexemes rules (p ++ v) = lexemes rules p ++ lexemes rules v := by
  cases valid.cut with
  | between lexed _ => exact lexed
  | literal _ _ _ _ _ _ scan =>
      rw [scan] at outside
      cases outside
  | plain left right plain before behind _ =>
      subst before behind
      exact absurd plain ((parted.inner left right).not_plain left right)

/-- Behind a line feed inside a literal the literal goes on. -/
theorem WellLexed.literal_of_inside {d : UInt8} (valid : WellLexed (p ++ d :: v))
    (inside : (QuoteScan.start.run p).inSingleQuote = true) : ∃ front a b back, a ≠ [] ∧ p = front ++ a ∧
      v = b ++ back ∧ (stringRule, a ++ d :: b) ∈ lexemes rules (p ++ d :: v) ∧ Matches string (a ++ d :: b) := by
  cases valid.cut with
  | between _ scan =>
      rw [scan] at inside
      cases inside
  | @literal front a b back left right mem matched before behind _ =>
      obtain ⟨c, b, rfl⟩ := List.exists_cons_of_ne_nil right
      rw [List.cons_append] at behind
      obtain ⟨rfl, rfl⟩ := List.cons.inj behind
      exact ⟨front, a, b, back, left, before, rfl, mem, matched⟩
  | plain _ _ _ _ _ scan =>
      rw [scan] at inside
      cases inside

/-- A character outside literals. -/
theorem WellLexed.char_outside {d : UInt8} (valid : WellLexed (p ++ d :: v))
    (outside : (QuoteScan.start.run p).inSingleQuote = false) :
    d = lineFeed ∨ isBlank d = true ∨ isSolid d = true ∨ d = singleQuote := by
  have ofPlain {w : Bytes} (plain : Plain w) (mem : d ∈ w) :
      d = lineFeed ∨ isBlank d = true ∨ isSolid d = true ∨ d = singleQuote := by
    cases plain with
    | lineFeed single => exact .inl (List.mem_singleton.mp (single ▸ mem))
    | blank all => exact .inr (.inl (all d mem))
    | solid all _ => exact .inr (.inr (.inl (all d mem)))
  cases valid.cut with
  | between lexed _ =>
      obtain ⟨rule, k, munches⟩ := exists_munches munch_total (d :: v) (List.cons_ne_nil d v)
      have first : (rule, (d :: v).take k) ∈ lexemes rules (p ++ d :: v) := by
        rw [lexed, munches.lexemes_eq]
        exact List.mem_append_right _ List.mem_cons_self
      obtain ⟨m, rfl⟩ := Nat.exists_eq_succ_of_ne_zero munches.positive.ne'
      rw [Nat.succ_eq_add_one, List.take_succ_cons] at first
      rcases valid.cases first with ⟨-, literal⟩ | plain
      · obtain ⟨body, opened, -⟩ := QuoteScan.string_cases literal
        exact .inr (.inr (.inr (List.cons.inj opened).1))
      · exact ofPlain plain List.mem_cons_self
  | literal _ _ _ _ _ _ scan =>
      rw [scan] at outside
      cases outside
  | plain _ right plain _ behind _ =>
      obtain ⟨c, b, rfl⟩ := List.exists_cons_of_ne_nil right
      rw [List.cons_append] at behind
      obtain ⟨rfl, -⟩ := List.cons.inj behind
      exact ofPlain plain (List.mem_append_right _ List.mem_cons_self)

/-! Joining -/

/-- A match beyond the end of the text would be a literal, which would start with its first
lexeme; that lexeme would be a literal itself. -/
theorem WellLexed.not_matches (valid : WellLexed p) (left : p ≠ []) (right : v ≠ [])
    (literal : ∀ rule ∈ lexemeRules, Matches rule.pattern (p ++ v) → rule = stringRule) (mem : rule ∈ rules) :
    ¬ Matches rule.pattern (p ++ v) := by
  intro matched
  rcases List.mem_append.mp mem with listed | last
  · obtain rfl := literal rule listed matched
    obtain ⟨first, k, munches⟩ := exists_munches munch_total p left
    have whole : (first, p.take k) ∈ lexemes rules p := by
      rw [munches.lexemes_eq]
      exact List.mem_cons_self
    have longer : k < (p ++ v).length := by
      have inside := munches.inside
      have more := List.length_pos_iff.mpr right
      rw [List.length_append]
      omega
    have quoted := QuoteScan.run_cutString matched munches.positive longer
    rw [List.take_append_of_le_length munches.inside] at quoted
    have closed : QuoteScan.start.run (p.take k) = QuoteScan.start := by
      rcases valid.cases whole with ⟨-, literal⟩ | plain
      · exact QuoteScan.run_string literal
      · exact QuoteScan.run_plain plain
    rw [closed] at quoted
    cases quoted
  · obtain rfl := List.mem_singleton.mp last
    obtain ⟨c, -, single⟩ := matches_one.mp matched
    rcases List.append_eq_singleton_iff.mp single with ⟨rfl, -⟩ | ⟨-, rfl⟩
    · exact left rfl
    · exact right rfl

/-- Where no lexeme but a literal could run on, texts are lexed one after the other. -/
theorem WellLexed.join_of_literal (valid : WellLexed p) (literal : ∀ s t, s ≠ [] → t ≠ [] → s <:+ p → t <+: v →
    ∀ rule ∈ lexemeRules, Matches rule.pattern (s ++ t) → rule = stringRule) :
    lexemes rules (p ++ v) = lexemes rules p ++ lexemes rules v := by
  have step : ∀ s, (WellLexed s ∧ s <:+ p) → s ≠ [] → ∃ rule k, Munches rules s rule k ∧
      Munches rules (s ++ v) rule k ∧ (WellLexed (s.drop k) ∧ s.drop k <:+ p) := by
    intro s inv some_
    obtain ⟨rule, k, munches⟩ := exists_munches munch_total s some_
    have ends : ∀ t, t ≠ [] → t <+: v → ∀ rule ∈ rules, ¬ Matches rule.pattern (s ++ t) :=
      fun t solid front rule mem => inv.1.not_matches some_ solid (literal s t some_ solid inv.2 front) mem
    refine ⟨rule, k, munches, munches.append ends, fun lexeme mem => inv.1 lexeme ?_, ?_⟩
    · rw [munches.lexemes_eq]
      exact List.mem_cons_of_mem _ mem
    · exact (List.drop_suffix k s).trans inv.2
  exact lexemes_append step ⟨valid, List.suffix_refl p⟩

/-- Parted texts are lexed one after the other. -/
theorem WellLexed.join (valid : WellLexed p) (parted : Parted p v) :
    lexemes rules (p ++ v) = lexemes rules p ++ lexemes rules v := by
  refine valid.join_of_literal ?_
  rintro s t left right ⟨before, rfl⟩ ⟨behind, rfl⟩ rule listed matched
  rcases lexeme_cases listed matched with literal | plain
  · exact literal
  · exact absurd plain ((parted.inner left right).not_plain left right)

/-! The lexemes that yield tokens -/

/-- The lexemes that are not skipped. -/
def words (text : Bytes) : List (LexRule UInt8 Token × Bytes) :=
  (lexemes rules text).filter fun lexeme => (lexeme.1.action lexeme.2).isSome

theorem tokens_eq (text : Bytes) : tokens text = (words text).filterMap fun lexeme => lexeme.1.action lexeme.2 := by
  rw [words, List.filterMap_filter, tokens, lex]
  refine List.filterMap_congr fun lexeme _ => ?_
  cases lexeme.1.action lexeme.2 <;> rfl

theorem words_append (lexed : lexemes rules (p ++ v) = lexemes rules p ++ lexemes rules v) :
    words (p ++ v) = words p ++ words v := by
  rw [words, lexed, List.filter_append]
  rfl

theorem tokens_append (lexed : lexemes rules (p ++ v) = lexemes rules p ++ lexemes rules v) :
    tokens (p ++ v) = tokens p ++ tokens v := by
  rw [tokens_eq, words_append lexed, List.filterMap_append, ← tokens_eq, ← tokens_eq]

theorem wellLexed_of_words (h : ∀ lexeme ∈ words text, lexeme.1 ∈ lexemeRules) : WellLexed text := by
  intro lexeme mem
  rcases lexeme_valid_or_unexpected mem with listed | ⟨c, token⟩
  · exact listed
  · exact h lexeme (List.mem_filter.mpr ⟨mem, by rw [token]; rfl⟩)

theorem words_lineFeed : words [lineFeed] = [] := rfl

theorem words_blank (valid : WellLexed p) (blank : ∀ c ∈ p, isBlank c = true) : words p = [] := by
  have noQuote : isBlank singleQuote = false := by decide
  refine List.filter_eq_nil_iff.mpr fun lexeme mem => ?_
  obtain ⟨listed, matched⟩ := matches_of_mem_lexemes mem
  obtain ⟨c, w, read⟩ := List.exists_cons_of_ne_nil (lexeme_ne_nil listed matched)
  have inside : ∀ c ∈ lexeme.2, c ∈ p := by
    intro c hc
    rw [← spelled_lexemes munch_total p]
    exact List.mem_flatten.mpr ⟨lexeme.2, List.mem_map_of_mem mem, hc⟩
  have first : c ∈ lexeme.2 := read ▸ List.mem_cons_self
  rcases rule_of_blank (valid lexeme mem) matched first (blank c (inside c first)) with literal | skipped
  · rw [literal] at matched
    obtain ⟨body, opened, -⟩ := QuoteScan.string_cases matched
    have quote : singleQuote ∈ lexeme.2 := opened ▸ List.mem_cons_self
    rw [blank _ (inside _ quote)] at noQuote
    cases noQuote
  · rw [skipped]
    exact Bool.false_ne_true

/-- Blanks outside literals can be dropped where their neighbours stay parted. -/
theorem WellLexed.words_drop {bs : Bytes} (valid : WellLexed (p ++ (bs ++ v)))
    (spaces : ∀ c ∈ bs, isSpace c = true ∧ c ≠ lineFeed) (outside : (QuoteScan.start.run p).inSingleQuote = false)
    (first : Parted p (bs ++ v)) (second : Parted bs v) (third : Parted p v) :
    words (p ++ v) = words (p ++ (bs ++ v)) := by
  have noSolid : ∀ c : UInt8, isSpace c = true → isSolid c = false ∧ c ≠ singleQuote := by
    grind [isSpace, isSolid, singleQuote]
  have blank : ∀ c ∈ bs, isBlank c = true := by
    intro c mem
    obtain ⟨x, y, rfl⟩ := List.append_of_mem mem
    have there : WellLexed ((p ++ x) ++ c :: (y ++ v)) := by
      simpa only [List.append_assoc, List.cons_append] using valid
    have unquoted : singleQuote ∉ x := fun h => (noSolid _ (spaces _ (List.mem_append_left _ h)).1).2 rfl
    have still : (QuoteScan.start.run (p ++ x)).inSingleQuote = false := by
      rw [QuoteScan.run_append, QuoteScan.run_inSingleQuote _ unquoted, outside]
    have space := spaces c mem
    rcases there.char_outside still with here | here | here | here
    · exact absurd here space.2
    · exact here
    · rw [(noSolid c space.1).1] at here
      cases here
    · exact absurd here (noSolid c space.1).2
  have left := valid.split outside first
  have right : WellLexed (bs ++ v) := fun lexeme mem => valid lexeme (by rw [left]; exact List.mem_append_right _ mem)
  have front : WellLexed p := fun lexeme mem => valid lexeme (by rw [left]; exact List.mem_append_left _ mem)
  have closed : (QuoteScan.start.run bs).inSingleQuote = false := by rw [QuoteScan.run_plain (.blank blank)]; rfl
  have middle := right.split closed second
  have skipped : WellLexed bs := fun lexeme mem => right lexeme (by rw [middle]; exact List.mem_append_left _ mem)
  rw [words_append (front.join third), words_append left, words_append middle, words_blank skipped blank, List.nil_append]

end Jssql.CLIDriver
