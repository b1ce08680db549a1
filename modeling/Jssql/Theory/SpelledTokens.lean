import Jssql.Theory.LexemeCuts

/-!
Texts for tokens. Every token that the lexer makes has a text that is lexed to it alone, and
with blanks between them such texts are lexed one after the other.
-/
namespace Jssql.Lexer
open Foundation Foundation.Pattern Lexing CLIDriver

/-- An identifier that is no fixed word. -/
def IsName (name : Bytes) : Prop := Matches ident name ∧ ∀ entry ∈ fixedWords, entry.1 ≠ name

def isFixed : Token → Bool
  | .identifier _ | .literalString _ | .literalNumber _ | .unexpected _ => false
  | _ => true

/-- The texts that literals may have. -/
structure LiteralTexts where
  number : Bytes → Prop
  string : Bytes → Prop

/-- The tokens of the rules but the last. -/
inductive Scanned (texts : LiteralTexts) : Token → Prop
  | fixed {t : Token} (word : isFixed t = true) : Scanned texts t
  | identifier {str : Bytes} (name : IsName str) : Scanned texts (.identifier str)
  | number {str : Bytes} (text : texts.number str) : Scanned texts (.literalNumber str)
  | string {str : Bytes} (text : texts.string str) : Scanned texts (.literalString str)

/-- The literals of a text. A string literal is copied up to the first NUL. -/
def copiedFrom (text : Bytes) : LiteralTexts where
  number str := Matches number str ∧ str <:+: text
  string str := ∃ w, Matches string w ∧ str = cString w ∧ w <:+: text

/-! The first rule -/

theorem isFixed_fixedWords : ∀ entry ∈ fixedWords, ∀ t ∈ entry.2, isFixed t = true := by decide

theorem firstRule_fixed {w : Bytes} {entry : Bytes × Option Token} (listed : entry ∈ fixedWords) (same : entry.1 = w) :
    ∃ first ∈ fixedWords, first.1 = w ∧ firstRule rules w = some (fixedRule first) := by
  have found : ((fixedWords.map fixedRule).find? fun rule => rule.pattern.accepts w) ≠ none := by
    rw [Ne, List.find?_eq_none]
    exact fun none_ => none_ _ (List.mem_map_of_mem listed) (accepts_iff.mpr (matches_word.mpr same.symm))
  obtain ⟨rule, found⟩ := Option.ne_none_iff_exists'.mp found
  obtain ⟨first, mem, rfl⟩ := List.mem_map.mp (List.mem_of_find?_eq_some found)
  have accepts := (List.find?_eq_some_iff_append.mp found).1
  refine ⟨first, mem, (matches_word.mp (accepts_iff.mp accepts)).symm, ?_⟩
  rw [firstRule, rules, lexemeRules, List.append_assoc, List.find?_append, found]
  rfl

/-- Behind the fixed words the first of four patterns decides. -/
theorem firstRule_scanned {w : Bytes} (free : ∀ entry ∈ fixedWords, entry.1 ≠ w) :
    firstRule rules w = firstRule [identRule, stringRule, numberRule, wsRule, catchAllRule] w := by
  have none_ : ((fixedWords.map fixedRule).find? fun rule => rule.pattern.accepts w) = none := by
    refine List.find?_eq_none.mpr fun rule mem accepts => ?_
    obtain ⟨entry, listed, rfl⟩ := List.mem_map.mp mem
    exact free entry listed (matches_word.mp (accepts_iff.mp accepts)).symm
  rw [firstRule, rules, lexemeRules, List.append_assoc, List.find?_append, none_]
  rfl

theorem number_head {w : Bytes} (h : Matches number w) :
    ∃ c rest, w = c :: rest ∧ (c = 43 ∨ c = 45 ∨ isDigit c = true) := by
  obtain ⟨s, t, rfl, sign, h⟩ := matches_seq.mp h
  obtain ⟨ds, u, rfl, whole, -⟩ := matches_seq.mp h
  rcases matches_opt.mp sign with sign | rfl
  · rcases matches_either.mp sign with sign | sign
    · obtain ⟨c, same, rfl⟩ := matches_one.mp sign
      exact ⟨c, _, rfl, .inl (of_decide_eq_true same)⟩
    · obtain ⟨c, same, rfl⟩ := matches_one.mp sign
      exact ⟨c, _, rfl, .inr (.inl (of_decide_eq_true same))⟩
  · obtain ⟨some_, all⟩ := matches_plus_one.mp whole
    obtain ⟨c, rest, rfl⟩ := List.exists_cons_of_ne_nil some_
    exact ⟨c, _, rfl, .inr (.inr (all c List.mem_cons_self))⟩

theorem ident_head {w : Bytes} (h : Matches ident w) : ∃ c rest, w = c :: rest ∧ isIdentStart c = true ∧
    ∀ d ∈ rest, isIdentRest d = true := by
  obtain ⟨s, t, rfl, first, rest⟩ := matches_seq.mp h
  obtain ⟨c, start, rfl⟩ := matches_one.mp first
  exact ⟨c, t, rfl, start, matches_star_one.mp rest⟩

theorem cString_ident {w : Bytes} (h : Matches ident w) : cString w = w := by
  have solid : ∀ c : UInt8, isIdentRest c = true → c ≠ 0 := by
    grind [isIdentRest, isIdentStart, isDigit]
  obtain ⟨c, rest, rfl, start, all⟩ := ident_head h
  refine List.takeWhile_eq_self_iff.mpr (List.forall_mem_cons.mpr ⟨?_, fun d hd => ?_⟩)
  · exact decide_eq_true (solid c (Bool.or_eq_true_iff.mpr (.inl start)))
  · exact decide_eq_true (solid d (all d hd))

theorem cString_number {w : Bytes} (h : Matches number w) : cString w = w := by
  have solid : ∀ c : UInt8, c ∈ ascii "+-.e" ∨ isDigit c = true → c ≠ 0 := by
    grind [ascii, isDigit]
  exact List.takeWhile_eq_self_iff.mpr fun c hc => decide_eq_true (solid c (number_chars h c hc))

/-- The tokens of a text. -/
theorem scanned_of_mem {text : Bytes} {t : Token} (h : t ∈ tokens text) :
    (∃ c, t = .unexpected c) ∨ Scanned (copiedFrom text) t := by
  obtain ⟨⟨rule, w⟩, mem, token⟩ := List.mem_filterMap.mp h
  rcases lexeme_valid_or_unexpected mem with plain | ⟨c, unexpected⟩
  · right
    have inside : w <:+: text := by
      obtain ⟨front, back, parts⟩ := List.append_of_mem (List.mem_map_of_mem mem)
      rw [← spelled_lexemes munch_total text, spelled, parts, List.flatten_append, List.flatten_cons]
      exact ⟨front.flatten, back.flatten, List.append_assoc ..⟩
    have first := firstRule_of_mem_lexemes mem
    cases taken plain (matches_of_firstRule first).2 with
    | fixed listed => exact .fixed (isFixed_fixedWords _ listed t token)
    | ident matched =>
        obtain rfl := Option.some.inj token
        rw [cString_ident matched]
        refine .identifier ⟨matched, fun entry listed same => ?_⟩
        -- a fixed word would have been taken by its own rule
        obtain ⟨other, mem, -, found⟩ := firstRule_fixed listed same
        have action := congrArg (fun rule => rule.action w) (Option.some.inj (found.symm.trans first))
        have fixed := isFixed_fixedWords other mem (.identifier (cString w)) action
        cases fixed
    | string matched =>
        obtain rfl := Option.some.inj token
        exact .string ⟨w, matched, rfl, inside⟩
    | number matched =>
        obtain rfl := Option.some.inj token
        rw [cString_number matched]
        exact .number ⟨matched, inside⟩
    | ws _ => cases token
  · exact .inl ⟨c, Option.some.inj (token.symm.trans unexpected)⟩

/-! Spelling -/

/-- A string literal that is closed and copied as a whole. -/
def WholeString (str : Bytes) : Prop := Matches string str ∧ 0 ∉ str

/-- The literals of texts without NUL. -/
def wholeTexts : LiteralTexts := ⟨Matches number, WholeString⟩

def spelling : Token → Bytes
  | .identifier str | .literalString str | .literalNumber str => str
  | .unexpected c => [c]
  | t => ((fixedWords.find? fun entry => entry.2 = some t).map Prod.fst).getD []

/-- The tokens with a blank behind each. -/
def spelledOut (ts : List Token) : Bytes := ts.flatMap fun t => spelling t ++ [32]

theorem spelling_fixed {t : Token} (h : isFixed t = true) : (spelling t, some t) ∈ fixedWords := by
  cases t
  all_goals first | decide | cases h

theorem nodup_fixedWords : (fixedWords.map Prod.fst).Nodup := by decide

/-- Such a text is one lexeme, and neither starts nor ends with a blank. -/
structure Spells (w : Bytes) (rule : LexRule UInt8 Token) (t : Token) : Prop where
  first : firstRule rules w = some rule
  listed : rule ∈ lexemeRules
  token : rule.action w = some t
  head : ∀ c ∈ w.head?, isBlank c = false
  last : ∀ c ∈ w.getLast?, isBlank c = false

theorem not_isBlank_of_isSolid : ∀ c : UInt8, isSolid c = true → isBlank c = false := by
  grind [isSolid, isBlank, isSpace]

theorem spells_of_solid {w : Bytes} {rule : LexRule UInt8 Token} {t : Token} (first : firstRule rules w = some rule)
    (listed : rule ∈ lexemeRules) (token : rule.action w = some t) (solid : ∀ c ∈ w, isSolid c = true) :
    Spells w rule t where
  first := first
  listed := listed
  token := token
  head := fun c hc => not_isBlank_of_isSolid c (solid c (List.mem_of_mem_head? hc))
  last := fun c hc => not_isBlank_of_isSolid c (solid c (List.mem_of_getLast? hc))

theorem not_matches_ident {w : Bytes} (h : Matches number w ∨ Matches string w) : ¬ Matches ident w := by
  intro named
  obtain ⟨c, rest, rfl, start, -⟩ := ident_head named
  rcases h with numeric | quoted
  · obtain ⟨d, _, same, sign⟩ := number_head numeric
    obtain rfl := (List.cons.inj same).1
    grind [isIdentStart, isDigit]
  · obtain ⟨body, same, -⟩ := QuoteScan.string_cases quoted
    obtain rfl := (List.cons.inj same).1
    cases start

theorem not_matches_string {w : Bytes} (h : Matches number w) : ¬ Matches string w := by
  intro quoted
  obtain ⟨c, rest, rfl, sign⟩ := number_head h
  obtain ⟨body, same, -⟩ := QuoteScan.string_cases quoted
  obtain rfl := (List.cons.inj same).1
  revert sign
  decide

theorem free_of_number {w : Bytes} (h : Matches number w) : ∀ entry ∈ fixedWords, entry.1 ≠ w := by
  have none_ : ∀ entry ∈ fixedWords, number.accepts entry.1 = false := by decide
  rintro entry listed rfl
  rw [← accepts_iff, none_ entry listed] at h
  cases h

theorem free_of_string {w : Bytes} (h : Matches string w) : ∀ entry ∈ fixedWords, entry.1 ≠ w := by
  have none_ : ∀ entry ∈ fixedWords, entry.1.head? ≠ some singleQuote := by decide
  rintro entry listed rfl
  obtain ⟨body, same, -⟩ := QuoteScan.string_cases h
  exact none_ entry listed (by rw [same]; rfl)

theorem cString_of_notMem {w : Bytes} (h : 0 ∉ w) : cString w = w :=
  List.takeWhile_eq_self_iff.mpr fun _ hc => decide_eq_true (ne_of_mem_of_not_mem hc h)

theorem spells_of_scanned {t : Token} (h : Scanned wholeTexts t) : ∃ rule, Spells (spelling t) rule t := by
  cases h with
  | fixed word =>
      have skipped : ∀ entry ∈ fixedWords, entry.1 = [lineFeed] → entry.2 = none := by decide
      have listed := spelling_fixed word
      obtain ⟨other, mem, same, first⟩ := firstRule_fixed listed rfl
      obtain rfl : other = (spelling t, some t) :=
        List.inj_on_of_nodup_map nodup_fixedWords mem listed same
      refine ⟨_, spells_of_solid first (List.mem_append_left _ (List.mem_map_of_mem listed)) rfl ?_⟩
      rcases plain_fixedWords _ listed with line | ⟨solid, -⟩
      · cases skipped _ listed line
      · exact List.all_eq_true.mp solid
  | @identifier str name =>
      refine ⟨identRule, spells_of_solid ?_ (by simp [lexemeRules]) ?_ fun c hc => (word_ident name.1 c hc).1⟩
      · exact (firstRule_scanned name.2).trans (firstRule_cons_of_matches name.1)
      · exact congrArg (fun str => some (Token.identifier str)) (cString_ident name.1)
  | @number str text =>
      have matched : Matches number str := text
      refine ⟨numberRule, spells_of_solid ?_ (by simp [lexemeRules]) ?_ fun c hc => (word_number matched c hc).1⟩
      · refine (firstRule_scanned (free_of_number matched)).trans ?_
        refine (firstRule_cons_of_not (not_matches_ident (.inl matched))).trans ?_
        exact (firstRule_cons_of_not (not_matches_string matched)).trans (firstRule_cons_of_matches matched)
      · exact congrArg (fun str => some (Token.literalNumber str)) (cString_number matched)
  | @string str text =>
      obtain ⟨body, rfl, -⟩ := QuoteScan.string_cases text.1
      refine ⟨stringRule, ?_, by simp [lexemeRules], ?_, ?_, ?_⟩
      · refine (firstRule_scanned (free_of_string text.1)).trans ?_
        exact (firstRule_cons_of_not (not_matches_ident (.inr text.1))).trans (firstRule_cons_of_matches text.1)
      · exact congrArg (fun str => some (Token.literalString str)) (cString_of_notMem text.2)
      · rintro c ⟨⟩
        rfl
      · intro c hc
        rw [spelling, ← List.cons_append, List.getLast?_concat] at hc
        cases hc
        rfl

theorem Spells.ne_nil {w : Bytes} {rule : LexRule UInt8 Token} {t : Token} (h : Spells w rule t) : w ≠ [] :=
  lexeme_ne_nil (matches_of_firstRule h.first).1 (matches_of_firstRule h.first).2

theorem Spells.lexemes_eq {w : Bytes} {rule : LexRule UInt8 Token} {t : Token} (h : Spells w rule t) :
    lexemes rules w = [(rule, w)] :=
  lexemes_eq_singleton h.first h.ne_nil

theorem parted_blank {p v : Bytes} (ends : ∀ c ∈ p.getLast?, isBlank c = false) : Parted p (32 :: v) := by
  rintro c hc d ⟨⟩
  rw [apart, ends c hc, Bool.false_and, Bool.not_false, Bool.true_and, Bool.or_eq_true_iff]
  exact .inr rfl

theorem blank_parted {v : Bytes} (starts : ∀ c ∈ v.head?, isBlank c = false) : Parted [32] v := by
  rintro c ⟨⟩ d hd
  rw [apart, starts d hd, Bool.and_false]
  rfl

theorem lexemes_blank : lexemes rules [32] = [(wsRule, [32])] :=
  lexemes_eq_singleton rfl (List.cons_ne_nil _ _)

/-- With a blank behind each the tokens are read back. -/
theorem lexed_spelledOut {ts : List Token} (all : ∀ t ∈ ts, Scanned wholeTexts t) :
    WellLexed (spelledOut ts) ∧ tokens (spelledOut ts) = ts ∧ ∀ c ∈ (spelledOut ts).head?, isBlank c = false := by
  induction ts with
  | nil =>
      refine ⟨?_, rfl, ?_⟩
      · rintro _ ⟨⟩
      · rintro _ ⟨⟩
  | cons t ts ih =>
      rw [List.forall_mem_cons] at all
      obtain ⟨valid, lexed, starts⟩ := ih all.2
      obtain ⟨rule, spells⟩ := spells_of_scanned all.1
      have shape : spelledOut (t :: ts) = spelling t ++ ([32] ++ spelledOut ts) := by
        rw [spelledOut, List.flatMap_cons, List.append_assoc]
        rfl
      have word : WellLexed (spelling t) := by
        intro lexeme mem
        rw [spells.lexemes_eq] at mem
        rw [List.mem_singleton.mp mem]
        exact spells.listed
      have blank : WellLexed [32] := by
        intro lexeme mem
        rw [lexemes_blank] at mem
        rw [List.mem_singleton.mp mem]
        simp [lexemeRules]
      have inner := blank.join (blank_parted starts)
      have outer := word.join (parted_blank (v := spelledOut ts) spells.last)
      refine ⟨?_, ?_, ?_⟩
      · intro lexeme mem
        rw [shape, List.singleton_append, outer, ← List.singleton_append, inner] at mem
        rcases List.mem_append.mp mem with mem | mem
        · exact word lexeme mem
        · rcases List.mem_append.mp mem with mem | mem
          · exact blank lexeme mem
          · exact valid lexeme mem
      · rw [shape, List.singleton_append, tokens_append outer, ← List.singleton_append, tokens_append inner, lexed]
        have single : tokens (spelling t) = [t] := by
          rw [tokens, lex, spells.lexemes_eq]
          simp only [List.filterMap_cons, spells.token, List.filterMap_nil]
        rw [single]
        rfl
      · obtain ⟨c, rest, read⟩ := List.exists_cons_of_ne_nil spells.ne_nil
        intro d hd
        refine spells.head d ?_
        rw [shape, read] at hd
        rwa [read]

theorem zero_notMem_cString (w : Bytes) : 0 ∉ cString w := by
  intro zero
  have other := List.mem_takeWhile_imp zero
  cases other

theorem zero_notMem_spelling {t : Token} (h : Scanned wholeTexts t) : 0 ∉ spelling t := by
  cases h with
  | fixed word =>
      have free : ∀ entry ∈ fixedWords, 0 ∉ entry.1 := by decide
      exact free _ (spelling_fixed word)
  | identifier name =>
      rw [spelling, ← cString_ident name.1]
      exact zero_notMem_cString _
  | @number str text =>
      have matched : Matches number str := text
      rw [spelling, ← cString_number matched]
      exact zero_notMem_cString _
  | string text => exact text.2

theorem zero_notMem_spelledOut {ts : List Token} (all : ∀ t ∈ ts, Scanned wholeTexts t) : 0 ∉ spelledOut ts := by
  intro zero
  obtain ⟨t, mem, inside⟩ := List.mem_flatMap.mp zero
  rcases List.mem_append.mp inside with word | blank
  · exact zero_notMem_spelling (all t mem) word
  · cases List.mem_singleton.mp blank

/-! Texts without NUL -/

theorem scanned_whole {text : Bytes} (noNul : 0 ∉ text) {t : Token} (h : Scanned (copiedFrom text) t) :
    Scanned wholeTexts t := by
  cases h with
  | fixed word => exact .fixed word
  | identifier name => exact .identifier name
  | number text => exact .number text.1
  | string text =>
      obtain ⟨w, matched, rfl, inside⟩ := text
      have free : 0 ∉ w := fun zero => noNul (inside.subset zero)
      rw [cString_of_notMem free]
      exact .string ⟨matched, free⟩

/-! Bytes that no rule but the last takes, outside literals -/

/-- NUL, and what is no ASCII. -/
def isForeign (c : UInt8) : Bool := c = 0 || 128 ≤ c

theorem literal_of_isForeign {rule : LexRule UInt8 Token} {w : Bytes} {c : UInt8} (plain : rule ∈ lexemeRules)
    (matched : Matches rule.pattern w) (foreign : isForeign c = true) (mem : c ∈ w) : rule = stringRule := by
  cases taken plain matched with
  | @fixed entry listed =>
      have none_ : ∀ entry ∈ fixedWords, entry.1.all (fun c => !isForeign c) = true := by decide
      have other := List.all_eq_true.mp (none_ entry listed) c mem
      rw [foreign] at other
      cases other
  | ident matched =>
      have none_ : ∀ c : UInt8, isIdentRest c = true → isForeign c = false := by
        grind [isIdentRest, isIdentStart, isDigit, isForeign]
      obtain ⟨d, rest, rfl, start, all⟩ := ident_head matched
      have named : isIdentRest c = true := by
        rcases List.mem_cons.mp mem with rfl | mem
        · exact Bool.or_eq_true_iff.mpr (.inl start)
        · exact all c mem
      rw [none_ c named] at foreign
      cases foreign
  | string _ => rfl
  | number matched =>
      have none_ : ∀ c : UInt8, c ∈ ascii "+-.e" ∨ isDigit c = true → isForeign c = false := by
        grind [ascii, isDigit, isForeign]
      rw [none_ c (number_chars matched c mem)] at foreign
      cases foreign
  | ws blank =>
      have none_ : ∀ c : UInt8, isBlank c = true → isForeign c = false := by
        grind [isBlank, isForeign]
      rw [none_ c (blank c mem)] at foreign
      cases foreign

theorem tokens_foreign {c : UInt8} (foreign : isForeign c = true) (v : Bytes) :
    tokens (c :: v) = .unexpected c :: tokens v := by
  obtain ⟨rule, k, munches⟩ := exists_munches munch_total (c :: v) (List.cons_ne_nil c v)
  obtain ⟨m, rfl⟩ : ∃ m, k = m + 1 := ⟨k - 1, by have := munches.positive; omega⟩
  obtain ⟨mem, matched⟩ := matches_of_firstRule munches.first
  rw [List.take_succ_cons] at matched
  rcases List.mem_append.mp mem with listed | last
  · obtain rfl := literal_of_isForeign listed matched foreign List.mem_cons_self
    obtain ⟨body, same, -⟩ := QuoteScan.string_cases matched
    obtain rfl := (List.cons.inj same).1
    cases foreign
  · obtain rfl := List.mem_singleton.mp last
    obtain ⟨d, -, single⟩ := matches_one.mp matched
    obtain ⟨rfl, rest⟩ := List.cons.inj single
    rw [tokens, lex, munches.lexemes_eq, List.take_succ_cons, rest]
    rcases List.take_eq_nil_iff.mp rest with rfl | rfl
    · rfl
    · rw [List.drop_succ_cons, List.drop_nil]
      rfl

/-- Such a byte is lexed alone behind a valid text. -/
theorem tokens_append_foreign {p : Bytes} {c : UInt8} (valid : LexicallyValid p) (foreign : isForeign c = true)
    (v : Bytes) : tokens (p ++ c :: v) = tokens p ++ .unexpected c :: tokens v := by
  rw [tokens_append, tokens_foreign foreign]
  refine (wellLexed_of_valid valid).join_of_literal ?_
  intro s t left right _ front rule listed matched
  obtain ⟨d, rest, rfl⟩ := List.exists_cons_of_ne_nil right
  obtain rfl := (List.cons_prefix_cons.mp front).1
  exact literal_of_isForeign listed matched foreign (List.mem_append_right s List.mem_cons_self)

end Jssql.Lexer
