import Jssql.CLIDriver.RunCLI

/-!
The forward scan over lexemes. A string literal takes it from the start into the quotes and
back; every other lexeme is a line feed, a run of blanks, or has neither blanks nor quotes
nor backslashes, and leaves the scan where it was.
-/
namespace Jssql.CLIDriver
open Foundation Foundation.Pattern Lexer

/-- What the rules but the last take. -/
inductive Taken : LexRule UInt8 Token → Bytes → Prop
  | fixed {entry : Bytes × Option Token} (listed : entry ∈ fixedWords) : Taken (fixedRule entry) entry.1
  | ident {w : Bytes} (matched : Matches ident w) : Taken identRule w
  | string {w : Bytes} (matched : Matches string w) : Taken stringRule w
  | number {w : Bytes} (matched : Matches number w) : Taken numberRule w
  | ws {w : Bytes} (blank : ∀ c ∈ w, isBlank c = true) : Taken wsRule w

theorem taken {rule : LexRule UInt8 Token} {w : Bytes} (mem : rule ∈ lexemeRules) (h : Matches rule.pattern w) :
    Taken rule w := by
  rcases List.mem_append.mp mem with fixed | scanned
  · obtain ⟨entry, listed, rfl⟩ := List.mem_map.mp fixed
    obtain rfl : w = entry.1 := matches_word.mp h
    exact .fixed listed
  · simp only [List.mem_cons, List.not_mem_nil, or_false] at scanned
    rcases scanned with rfl | rfl | rfl | rfl
    · exact .ident h
    · exact .string h
    · exact .number h
    · exact .ws (matches_plus_one.mp h).2

/-- Neither blank nor of any meaning to the forward scan. -/
def isSolid (c : UInt8) : Bool := !isSpace c && c ≠ singleQuote && c ≠ backslash

/-- A lexeme other than a string literal; a semicolon stands alone in it. -/
inductive Plain (w : Bytes) : Prop
  | lineFeed (single : w = [lineFeed])
  | blank (all : ∀ c ∈ w, isBlank c = true)
  | solid (all : ∀ c ∈ w, isSolid c = true) (alone : semicolon ∈ w → w = [semicolon])

theorem plain_fixedWords : ∀ entry ∈ fixedWords, entry.1 = [lineFeed] ∨
    entry.1.all isSolid = true ∧ (semicolon ∈ entry.1 → entry.1 = [semicolon]) := by
  decide

theorem Plain.word {w : Bytes} (all : ∀ c ∈ w, isSolid c = true ∧ c ≠ semicolon) : Plain w :=
  .solid (fun c mem => (all c mem).1) fun mem => absurd rfl (all semicolon mem).2

theorem isSpace_of_isBlank : ∀ c : UInt8, isBlank c = true → isSpace c = true := by
  grind [isBlank, isSpace]

theorem word_ident {w : Bytes} (h : Matches ident w) : ∀ c ∈ w, isSolid c = true ∧ c ≠ semicolon := by
  have solid : ∀ c : UInt8, isIdentRest c = true → isSolid c = true ∧ c ≠ semicolon := by
    grind [isIdentRest, isIdentStart, isDigit, isSolid, isSpace, singleQuote, backslash, semicolon]
  refine h.forall_mem ?_
  exact ⟨fun a start => solid a (Bool.or_eq_true_iff.mpr (.inl start)), fun a rest => solid a rest⟩

theorem number_chars {w : Bytes} (h : Matches number w) : ∀ c ∈ w, c ∈ ascii "+-.e" ∨ isDigit c = true := by
  have one : ∀ c ∈ ascii "+-.e", (char c).Over fun c => c ∈ ascii "+-.e" ∨ isDigit c = true := by
    intro c sign a eq
    obtain rfl : a = c := of_decide_eq_true eq
    exact .inl sign
  have ds : digits.Over fun c => c ∈ ascii "+-.e" ∨ isDigit c = true := ⟨fun a h => .inr h, fun a h => .inr h⟩
  have plus := one 43 (by decide)
  have minus := one 45 (by decide)
  have point := one 46 (by decide)
  have e := one 101 (by decide)
  refine h.forall_mem ?_
  exact ⟨⟨⟨plus, minus⟩, trivial⟩, ds, ⟨⟨point, ds⟩, trivial⟩, ⟨⟨e, trivial⟩, ds, ⟨point, ds⟩, trivial⟩, trivial⟩

theorem word_number {w : Bytes} (h : Matches number w) : ∀ c ∈ w, isSolid c = true ∧ c ≠ semicolon := by
  have solid : ∀ c : UInt8, c ∈ ascii "+-.e" ∨ isDigit c = true → isSolid c = true ∧ c ≠ semicolon := by
    grind [ascii, isDigit, isSolid, isSpace, singleQuote, backslash, semicolon]
  exact fun c hc => solid c (number_chars h c hc)

/-- The lexemes of the rules but the last. -/
theorem lexeme_cases {rule : LexRule UInt8 Token} {w : Bytes} (mem : rule ∈ lexemeRules) (h : Matches rule.pattern w) :
    rule = stringRule ∨ Plain w := by
  cases taken mem h with
  | fixed listed =>
      exact .inr ((plain_fixedWords _ listed).elim .lineFeed fun words => .solid (List.all_eq_true.mp words.1) words.2)
  | ident matched => exact .inr (.word (word_ident matched))
  | string => exact .inl rfl
  | number matched => exact .inr (.word (word_number matched))
  | ws blank => exact .inr (.blank blank)

/-- No other lexeme than a literal or a run of blanks holds a blank. -/
theorem rule_of_blank {rule : LexRule UInt8 Token} {w : Bytes} {c : UInt8} (mem : rule ∈ lexemeRules)
    (h : Matches rule.pattern w) (hc : c ∈ w) (blank : isBlank c = true) : rule = stringRule ∨ rule = wsRule := by
  have other : ∀ c : UInt8, isBlank c = true → isSolid c = false ∧ c ≠ lineFeed := by
    grind [isBlank, isSolid, isSpace, lineFeed]
  have notSolid (solid : isSolid c = true) : False := by
    rw [(other c blank).1] at solid
    cases solid
  cases taken mem h with
  | fixed listed =>
      rcases plain_fixedWords _ listed with single | ⟨solid, -⟩
      · rw [single] at hc
        exact absurd (List.mem_singleton.mp hc) (other c blank).2
      · exact (notSolid (List.all_eq_true.mp solid c hc)).elim
  | ident matched => exact (notSolid (word_ident matched c hc).1).elim
  | string => exact .inl rfl
  | number matched => exact (notSolid (word_number matched c hc).1).elim
  | ws => exact .inr rfl

theorem nullable_rules : ∀ rule ∈ rules, rule.pattern.nullable = false := by decide

theorem lexeme_ne_nil {rule : LexRule UInt8 Token} {w : Bytes} (mem : rule ∈ rules) (h : Matches rule.pattern w) :
    w ≠ [] := by
  rintro rfl
  have null := nullable_iff.mpr h
  rw [nullable_rules rule mem] at null
  cases null

/-! The forward scan -/

namespace QuoteScan

/-- Inside quotes, behind no backslash. -/
def quoted : QuoteScan := ⟨true, false⟩

@[simp] theorem run_nil (q : QuoteScan) : q.run [] = q := rfl

@[simp] theorem run_cons (q : QuoteScan) (c : UInt8) (s : Bytes) : q.run (c :: s) = (q.step c).run s := rfl

@[simp] theorem run_append (q : QuoteScan) (s t : Bytes) : q.run (s ++ t) = (q.run s).run t := List.foldl_append

/-- Only a quote changes on which side the scan is. -/
theorem step_inSingleQuote (q : QuoteScan) {c : UInt8} (other : c ≠ singleQuote) :
    (q.step c).inSingleQuote = q.inSingleQuote := by
  rw [step]
  split
  · rfl
  · split
    · rfl
    · rfl

theorem run_inSingleQuote (q : QuoteScan) {s : Bytes} (none_ : singleQuote ∉ s) :
    (q.run s).inSingleQuote = q.inSingleQuote := by
  induction s generalizing q with
  | nil => rfl
  | cons c s ih =>
      rw [List.mem_cons, not_or] at none_
      rw [run_cons, ih _ none_.2, step_inSingleQuote q fun eq => none_.1 eq.symm]

theorem run_plain {w : Bytes} (plain : Plain w) : start.run w = start := by
  have stays : ∀ c : UInt8, c = lineFeed ∨ isBlank c = true ∨ isSolid c = true → start.step c = start := by
    grind [QuoteScan.step, start, isBlank, isSolid, lineFeed, singleQuote, backslash]
  have chars : ∀ c ∈ w, c = lineFeed ∨ isBlank c = true ∨ isSolid c = true := by
    cases plain with
    | lineFeed single => exact single ▸ List.forall_mem_singleton.mpr (.inl rfl)
    | blank all => exact fun c mem => .inr (.inl (all c mem))
    | solid all _ => exact fun c mem => .inr (.inr (all c mem))
  clear plain
  induction w with
  | nil => rfl
  | cons c w ih =>
      rw [List.forall_mem_cons] at chars
      rw [run_cons, stays c chars.1]
      exact ih chars.2

/-- A part of such a lexeme. -/
theorem run_cutPlain {a b : Bytes} (plain : Plain (a ++ b)) : start.run a = start := by
  have mem {c : UInt8} (h : c ∈ a) : c ∈ a ++ b := List.mem_append_left b h
  cases plain with
  | lineFeed single =>
      rcases List.append_eq_singleton_iff.mp single with ⟨rfl, -⟩ | ⟨rfl, -⟩
      · rfl
      · rfl
  | blank all => exact run_plain (.blank fun c h => all c (mem h))
  | solid all alone =>
      refine run_plain (.solid (fun c h => all c (mem h)) fun h => ?_)
      rcases List.append_eq_singleton_iff.mp (alone (mem h)) with ⟨rfl, -⟩ | ⟨rfl, -⟩
      · cases h
      · rfl

/-- A character between the quotes, escaped or not. -/
theorem run_stringChar {s : Bytes} (h : Matches stringChar s) :
    quoted.run s = quoted ∧ ∀ k < s.length, (quoted.run (s.take k)).inSingleQuote = true := by
  have stays : ∀ c : UInt8, (c ≠ singleQuote && c ≠ backslash) = true → quoted.step c = quoted := by
    grind [QuoteScan.step, quoted, singleQuote, backslash]
  cases h with
  | left h =>
      obtain ⟨c, plain, rfl⟩ := matches_one.mp h
      refine ⟨stays c plain, fun k within => ?_⟩
      obtain rfl : k = 0 := Nat.lt_one_iff.mp within
      rfl
  | right h =>
      obtain ⟨_, _, rfl, first, second⟩ := matches_seq.mp h
      obtain ⟨b, eq, rfl⟩ := matches_one.mp first
      obtain ⟨c, -, rfl⟩ := matches_one.mp second
      obtain rfl : b = backslash := of_decide_eq_true eq
      refine ⟨rfl, fun k within => ?_⟩
      cases k with
      | zero => rfl
      | succ k =>
          obtain rfl : k = 0 := Nat.lt_one_iff.mp (Nat.lt_of_succ_lt_succ within)
          rfl

theorem run_stringBody {s : Bytes} (h : Matches (.star stringChar) s) :
    quoted.run s = quoted ∧ ∀ k, (quoted.run (s.take k)).inSingleQuote = true := by
  refine Matches.star_induction (motive := fun s => quoted.run s = quoted ∧
    ∀ k, (quoted.run (s.take k)).inSingleQuote = true) ⟨rfl, fun k => ?_⟩ (fun s t head _ ih => ?_) h
  · rw [List.take_nil]
    rfl
  · obtain ⟨whole, cut⟩ := run_stringChar head
    refine ⟨by rw [run_append, whole, ih.1], fun k => ?_⟩
    obtain within | beyond := Nat.lt_or_ge k s.length
    · rw [List.take_append_of_le_length (Nat.le_of_lt within)]
      exact cut k within
    · rw [List.take_append, List.take_of_length_le beyond, run_append, whole]
      exact ih.2 _

theorem string_cases {w : Bytes} (h : Matches string w) :
    ∃ body, w = singleQuote :: (body ++ [singleQuote]) ∧ Matches (.star stringChar) body := by
  obtain ⟨_, _, rfl, first, h⟩ := matches_seq.mp h
  obtain ⟨body, _, rfl, inner, last⟩ := matches_seq.mp h
  obtain ⟨a, opens, rfl⟩ := matches_one.mp first
  obtain ⟨b, closes, rfl⟩ := matches_one.mp last
  obtain rfl : a = singleQuote := of_decide_eq_true opens
  obtain rfl : b = singleQuote := of_decide_eq_true closes
  exact ⟨body, rfl, inner⟩

theorem run_string {w : Bytes} (h : Matches string w) : start.run w = start := by
  obtain ⟨body, rfl, inner⟩ := string_cases h
  rw [run_cons, run_append, show start.step singleQuote = quoted from rfl, (run_stringBody inner).1]
  rfl

/-- Wherever a string literal is cut, the scan is inside quotes. -/
theorem run_cutString {w : Bytes} (h : Matches string w) {k : Nat} (some_ : 0 < k) (part : k < w.length) :
    (start.run (w.take k)).inSingleQuote = true := by
  obtain ⟨body, rfl, inner⟩ := string_cases h
  obtain ⟨m, rfl⟩ : ∃ m, k = m + 1 := ⟨k - 1, by omega⟩
  have within : m ≤ body.length := by
    simp only [List.length_cons, List.length_append, List.length_nil] at part
    omega
  rw [List.take_succ_cons, List.take_append_of_le_length within]
  exact (run_stringBody inner).2 m

end QuoteScan

/-! The last character -/

theorem lastNonSpace_append (s t : Bytes) : lastNonSpace (s ++ t) = (lastNonSpace t).or (lastNonSpace s) := by
  rw [lastNonSpace, List.reverse_append, List.find?_append]
  rfl

theorem lastNonSpace_eq_none {s : Bytes} : lastNonSpace s = none ↔ s.all isSpace = true := by
  rw [lastNonSpace, List.find?_eq_none, List.all_eq_true]
  simp only [List.mem_reverse, Bool.not_eq_true', Bool.not_eq_false]

theorem mem_of_lastNonSpace {s : Bytes} {c : UInt8} (h : lastNonSpace s = some c) : c ∈ s :=
  List.mem_reverse.mp (List.mem_of_find?_eq_some h)

theorem lastNonSpace_concat {s : Bytes} {c : UInt8} (solid : isSpace c = false) :
    lastNonSpace (s ++ [c]) = some c := by
  rw [lastNonSpace_append, lastNonSpace, List.reverse_singleton, List.find?_singleton, solid]
  rfl

end Jssql.CLIDriver
