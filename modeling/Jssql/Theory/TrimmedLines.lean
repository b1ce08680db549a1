import Jssql.Theory.LexemeCuts

/-!
Lines and their trimming. A line keeps its tokens where no string literal that goes on over
its ends has blanks there; put together again, the lines lex like the text they come from.
-/
namespace Jssql.CLIDriver
open Foundation Foundation.Pattern Lexer Lexing

/-- No blank other than a line feed is next to a line feed. -/
def BareBreaks (literal : Bytes) : Prop :=
  ∀ a b, literal = a ++ lineFeed :: b → (∀ c ∈ a.getLast?, isSpace c = true → c = lineFeed) ∧
    ∀ c ∈ b.head?, isSpace c = true → c = lineFeed

/-- The line breaks inside string literals have no blanks next to them. -/
def LiteralsKeepBreaks (text : Bytes) : Prop :=
  ∀ lexeme ∈ lexemes rules text, Matches string lexeme.2 → BareBreaks lexeme.2

theorem bareBreaks_iff {literal : Bytes} : BareBreaks literal ↔ ∀ i < literal.length, literal[i]? = some lineFeed →
    (∀ c ∈ (literal.take i).getLast?, isSpace c = true → c = lineFeed) ∧
      ∀ c ∈ (literal.drop (i + 1)).head?, isSpace c = true → c = lineFeed := by
  constructor
  · intro bare i inside here
    obtain ⟨_, here⟩ := List.getElem?_eq_some_iff.mp here
    refine bare _ _ ?_
    rw [← here, List.getElem_cons_drop, List.take_append_drop]
  · rintro bare a b rfl
    have here : (a ++ lineFeed :: b)[a.length]? = some lineFeed := by
      rw [List.getElem?_append_right (Nat.le_refl _), Nat.sub_self, List.getElem?_cons_zero]
    have behind : (a ++ lineFeed :: b).drop (a.length + 1) = b := by
      rw [List.drop_append, Nat.add_sub_cancel_left, List.drop_eq_nil_of_le (Nat.le_succ _)]
      rfl
    have cut := bare a.length (List.getElem?_eq_some_iff.mp here).1 here
    rwa [List.take_left, behind] at cut

instance (literal : Bytes) : Decidable (BareBreaks literal) := decidable_of_iff' _ bareBreaks_iff

instance (text : Bytes) : Decidable (LiteralsKeepBreaks text) := List.decidableBAll _ _

/-- What the lexemes with tokens have to satisfy. -/
def WellBroken (text : Bytes) : Prop :=
  ∀ lexeme ∈ words text, lexeme.1 ∈ lexemeRules ∧ (lexeme.1 = stringRule → BareBreaks lexeme.2)

variable {text buffer line rest : Bytes}

theorem WellBroken.valid (fit : WellBroken text) : WellLexed text :=
  wellLexed_of_words fun lexeme mem => (fit lexeme mem).1

theorem WellBroken.of_words {other : Bytes} (fit : WellBroken text) (same : words other = words text) :
    WellBroken other := by
  rw [WellBroken, same]
  exact fit

theorem WellBroken.bareBreaks {literal : Bytes} (fit : WellBroken text)
    (mem : (stringRule, literal) ∈ lexemes rules text) : BareBreaks literal :=
  (fit _ (List.mem_filter.mpr ⟨mem, rfl⟩)).2 rfl

theorem wellBroken_of_valid (valid : LexicallyValid text) (keeps : LiteralsKeepBreaks text) : WellBroken text := by
  intro lexeme mem
  have listed := (List.mem_filter.mp mem).1
  refine ⟨wellLexed_of_valid valid lexeme listed, fun literal => keeps lexeme listed ?_⟩
  have matched := (matches_of_mem_lexemes listed).2
  rwa [literal] at matched

/-! Trimming -/

theorem apart_of_space {c d : UInt8}
    (one : isSpace c = true ∧ isSpace d = false ∨ isSpace c = false ∧ isSpace d = true) : apart c d = true := by
  have solid : ∀ c : UInt8, isSpace c = false → isBlank c = false := by grind [isSpace, isBlank]
  rcases one with ⟨hc, hd⟩ | ⟨hc, hd⟩
  · rw [apart, hc, hd, solid d hd, Bool.and_false]
    rfl
  · rw [apart, hc, hd, solid c hc, Bool.false_and]
    rfl

theorem not_isSpace_singleQuote : isSpace singleQuote = false := by decide

theorem unquoted_of_spaces {bs : Bytes} (spaces : ∀ c ∈ bs, isSpace c = true) : singleQuote ∉ bs := by
  intro mem
  have space := spaces _ mem
  rw [not_isSpace_singleQuote] at space
  cases space

/-- A line that starts inside a literal starts with no blank. -/
theorem outside_of_leading {c : UInt8} (fit : WellBroken (buffer ++ (c :: rest)))
    (ends : ∀ d ∈ buffer.getLast?, d = lineFeed) (space : isSpace c = true) (other : c ≠ lineFeed) :
    (QuoteScan.start.run buffer).inSingleQuote = false := by
  rcases List.eq_nil_or_concat' buffer with rfl | ⟨front, d, rfl⟩
  · rfl
  · obtain rfl : d = lineFeed := ends d List.getLast?_concat
    rw [QuoteScan.run_append, QuoteScan.run_inSingleQuote _ (by decide), ← Bool.not_eq_true]
    intro inside
    rw [List.append_assoc, List.singleton_append] at fit
    obtain ⟨_, a, b, back, -, -, behind, mem, literal⟩ := fit.valid.literal_of_inside inside
    have bare := (fit.bareBreaks mem a b rfl).2
    cases b with
    | nil =>
        obtain ⟨body, opened, -⟩ := QuoteScan.string_cases literal
        have last := congrArg List.getLast? opened
        rw [← List.cons_append, List.getLast?_concat, List.getLast?_concat] at last
        exact absurd (Option.some.inj last) (by decide)
    | cons e b =>
        rw [List.cons_append] at behind
        obtain ⟨rfl, -⟩ := List.cons.inj behind
        exact other (bare c rfl space)

/-- A line that ends inside a literal ends with no blank. -/
theorem outside_of_trailing {front : Bytes} {c : UInt8} (fit : WellBroken (front ++ [c] ++ lineFeed :: rest))
    (space : isSpace c = true) (other : c ≠ lineFeed) : (QuoteScan.start.run (front ++ [c])).inSingleQuote = false := by
  rw [← Bool.not_eq_true]
  intro inside
  obtain ⟨before, a, b, _, solid, cut, -, mem, -⟩ := fit.valid.literal_of_inside inside
  have bare := (fit.bareBreaks mem a b rfl).1
  have last := congrArg List.getLast? cut
  rw [List.getLast?_concat, List.getLast?_append_of_ne_nil _ solid] at last
  exact other (bare c last.symm space)

theorem words_dropWhile (fit : WellBroken (buffer ++ (line ++ lineFeed :: rest)))
    (ends : ∀ d ∈ buffer.getLast?, d = lineFeed) (single : lineFeed ∉ line) :
    words (buffer ++ (line.dropWhile isSpace ++ lineFeed :: rest)) = words (buffer ++ (line ++ lineFeed :: rest)) := by
  have parts : line.takeWhile isSpace ++ line.dropWhile isSpace = line := List.takeWhile_append_dropWhile
  have spaces : ∀ c ∈ line.takeWhile isSpace, isSpace c = true := fun c mem => List.mem_takeWhile_imp mem
  have head := List.head?_dropWhile_not isSpace line
  generalize line.takeWhile isSpace = bs at parts spaces
  generalize line.dropWhile isSpace = m at parts head
  subst parts
  rw [List.append_assoc] at fit ⊢
  cases bs with
  | nil => rfl
  | cons c bs =>
      have other : ∀ d ∈ c :: bs, d ≠ lineFeed := by
        rintro d mem rfl
        exact single (List.mem_append_left _ mem)
      have outside := outside_of_leading fit ends (spaces c List.mem_cons_self) (other c List.mem_cons_self)
      refine fit.valid.words_drop (fun d mem => ⟨spaces d mem, other d mem⟩) outside (parted_of_lineFeed ends) ?_
        (parted_of_lineFeed ends)
      cases m with
      | nil => exact parted_lineFeed
      | cons e m =>
          intro d last _ first
          obtain rfl := Option.some.inj first
          exact apart_of_space (.inl ⟨spaces d (List.mem_of_getLast? last), by simpa using head⟩)

theorem words_rdropWhile (fit : WellBroken (buffer ++ (line ++ lineFeed :: rest)))
    (ends : ∀ d ∈ buffer.getLast?, d = lineFeed) (single : lineFeed ∉ line) :
    words (buffer ++ (line.rdropWhile isSpace ++ lineFeed :: rest)) = words (buffer ++ (line ++ lineFeed :: rest)) := by
  have parts : line.rdropWhile isSpace ++ line.rtakeWhile isSpace = line := List.rdropWhile_append_rtakeWhile
  have spaces : ∀ c ∈ line.rtakeWhile isSpace, isSpace c = true := fun c mem => List.mem_rtakeWhile_imp mem
  have last : ∀ c ∈ (line.rdropWhile isSpace).getLast?, isSpace c = false := by
    intro c mem
    obtain ⟨solid, rfl⟩ := List.mem_getLast?_eq_getLast mem
    exact Bool.not_eq_true _ ▸ List.rdropWhile_last_not isSpace line solid
  generalize line.rtakeWhile isSpace = bs at parts spaces
  generalize line.rdropWhile isSpace = m at parts last
  subst parts
  rw [List.append_assoc, ← List.append_assoc buffer] at fit
  rw [List.append_assoc, ← List.append_assoc, ← List.append_assoc buffer]
  rcases List.eq_nil_or_concat' bs with rfl | ⟨front, c, rfl⟩
  · rfl
  · have other : ∀ d ∈ front ++ [c], d ≠ lineFeed := by
      rintro d mem rfl
      exact single (List.mem_append_right _ mem)
    have mem : c ∈ front ++ [c] := List.mem_append_right _ List.mem_cons_self
    have outside : (QuoteScan.start.run (buffer ++ m)).inSingleQuote = false := by
      have whole : WellBroken (buffer ++ m ++ front ++ [c] ++ lineFeed :: rest) := by
        simpa only [List.append_assoc] using fit
      have behind := outside_of_trailing whole (spaces c mem) (other c mem)
      rwa [List.append_assoc, QuoteScan.run_append, QuoteScan.run_inSingleQuote _ (unquoted_of_spaces spaces)] at behind
    refine fit.valid.words_drop (fun d mem => ⟨spaces d mem, other d mem⟩) outside ?_ parted_lineFeed parted_lineFeed
    rcases List.eq_nil_or_concat' m with rfl | ⟨text, d, rfl⟩
    · rw [List.append_nil]
      exact parted_of_lineFeed ends
    · intro e behind f first
      rw [List.getLast?_append_of_ne_nil _ (List.append_ne_nil_of_right_ne_nil _ (List.cons_ne_nil d []))] at behind
      refine apart_of_space (.inr ⟨last e behind, spaces f ?_⟩)
      rw [List.head?_append_of_ne_nil _ (List.ne_nil_of_mem mem)] at first
      exact List.mem_of_head? first

/-- A trimmed line yields the tokens of the line. -/
theorem words_trimLine (fit : WellBroken (buffer ++ (line ++ lineFeed :: rest)))
    (ends : ∀ d ∈ buffer.getLast?, d = lineFeed) (single : lineFeed ∉ line) :
    words (buffer ++ (trimLine line ++ lineFeed :: rest)) = words (buffer ++ (line ++ lineFeed :: rest)) := by
  have left := words_dropWhile fit ends single
  have inner : lineFeed ∉ line.dropWhile isSpace := fun mem => single (List.dropWhile_sublist _ |>.subset mem)
  rw [← left]
  exact words_rdropWhile (fit.of_words left) ends inner

/-! The last token -/

theorem spaces_of_skipped {rule : LexRule UInt8 Token} {w : Bytes} (mem : rule ∈ lexemeRules)
    (matched : Matches rule.pattern w) (skipped : rule.action w = none) : ∀ c ∈ w, isSpace c = true := by
  have fixedSkipped : ∀ entry ∈ fixedWords, entry.2 = none → entry.1.all isSpace = true := by decide
  cases taken mem matched with
  | fixed listed => exact List.all_eq_true.mp (fixedSkipped _ listed skipped)
  | ident => cases skipped
  | string => cases skipped
  | number => cases skipped
  | ws blank => exact fun c hc => isSpace_of_isBlank c (blank c hc)

theorem eq_semicolon_of_token {rule : LexRule UInt8 Token} {w : Bytes} (mem : rule ∈ lexemeRules)
    (matched : Matches rule.pattern w) (token : rule.action w = some .semicolon) : w = [semicolon] := by
  have fixedToken : ∀ entry ∈ fixedWords, entry.2 = some .semicolon → entry.1 = [semicolon] := by decide
  cases taken mem matched with
  | fixed listed => exact fixedToken _ listed token
  | ident => cases token
  | string => cases token
  | number => cases token
  | ws => cases token

theorem endsWithSemicolon_of_tokens (valid : WellLexed text) (last : (tokens text).getLast? = some .semicolon) :
    endsWithSemicolonOutsideQuotes text = true := by
  obtain ⟨before, ends⟩ := List.getLast?_eq_some_iff.mp last
  obtain ⟨front, back, lexed, -, read⟩ := List.filterMap_eq_append_iff.mp ends
  obtain ⟨skipped, ⟨rule, w⟩, behind, rfl, skips, token, none_⟩ := List.filterMap_eq_cons_iff.mp read
  have mem {lexeme : LexRule UInt8 Token × Bytes} (h : lexeme ∈ skipped ++ (rule, w) :: behind) :
      lexeme ∈ lexemes rules text := lexed ▸ List.mem_append_right front h
  have here : (rule, w) ∈ lexemes rules text := mem (List.mem_append_right _ List.mem_cons_self)
  obtain rfl : w = [semicolon] := eq_semicolon_of_token (valid _ here) (matches_of_mem_lexemes here).2 token
  have spaces : (spelled behind).all isSpace = true := by
    rw [List.all_eq_true]
    intro c hc
    obtain ⟨v, spelt, inside⟩ := List.mem_flatten.mp hc
    obtain ⟨lexeme, later, rfl⟩ := List.mem_map.mp spelt
    have listed := mem (List.mem_append_right _ (List.mem_cons_of_mem _ later))
    exact spaces_of_skipped (valid _ listed) (matches_of_mem_lexemes listed).2
      (List.filterMap_eq_nil_iff.mp none_ lexeme later) c inside
  have whole : text = spelled front ++ spelled skipped ++ [semicolon] ++ spelled behind := by
    rw [← spelled_lexemes munch_total text, lexed, spelled_append, spelled_append, spelled_cons]
    simp only [List.append_assoc]
  have outside : (QuoteScan.start.run text).inSingleQuote = false := by rw [valid.run]; rfl
  rw [endsWithSemicolonOutsideQuotes, outside, if_neg Bool.false_ne_true, whole, lastNonSpace_append,
    lastNonSpace_eq_none.mpr spaces, lastNonSpace_concat (by decide)]
  rfl

/-! Lines -/

def terminated (lines : List Bytes) : Bytes := lines.flatMap fun line => line ++ [lineFeed]

theorem getlines_cons {line : Bytes} (single : lineFeed ∉ line) (text : Bytes) :
    getlines (line ++ newline :: text) = line :: getlines text := by
  have lone : line.splitOn newline = [line] := List.splitOn_eq_singleton single
  have split : (line ++ newline :: text).splitOn newline = line :: text.splitOn newline := by
    rw [List.splitOn_append_cons_self, lone, List.singleton_append]
  have some_ : text.splitOn newline ≠ [] := List.splitOn_ne_nil _ _
  obtain ⟨part, parts, cut⟩ := List.exists_cons_of_ne_nil some_
  rw [getlines, split, getlines, cut, List.getLast?_cons_cons]
  split
  · rw [List.dropLast_cons_of_ne_nil (List.cons_ne_nil part parts)]
  · rfl

theorem getlines_last {line : Bytes} (single : lineFeed ∉ line) (some_ : line ≠ []) : getlines line = [line] := by
  have split : line.splitOn newline = [line] := List.splitOn_eq_singleton single
  rw [getlines, split, List.getLast?_singleton, if_neg]
  exact fun eq => some_ (Option.some.inj eq)

theorem getlines_induction {motive : Bytes → List Bytes → Prop} (nil : motive [] [])
    (last : ∀ line, line ≠ [] → lineFeed ∉ line → motive line [line])
    (cons : ∀ line text, lineFeed ∉ line → motive text (getlines text) →
      motive (line ++ lineFeed :: text) (line :: getlines text)) (text : Bytes) : motive text (getlines text) := by
  induction length : text.length using Nat.strong_induction_on generalizing text with
  | _ n ih =>
      by_cases broken : lineFeed ∈ text
      · obtain ⟨line, rest, rfl, single⟩ := List.eq_append_cons_of_mem broken
        have shorter : rest.length < n := by
          rw [← length, List.length_append, List.length_cons]
          omega
        have lines := getlines_cons single rest
        rw [show newline = lineFeed from rfl] at lines
        rw [lines]
        exact cons line rest single (ih _ shorter rest rfl)
      · by_cases some_ : text = []
        · rw [some_]
          exact nil
        · rw [getlines_last broken some_]
          exact last text some_ broken

theorem not_mem_getlines (text : Bytes) : ∀ line ∈ getlines text, lineFeed ∉ line := by
  refine getlines_induction (motive := fun _ lines => ∀ line ∈ lines, lineFeed ∉ line) ?_ ?_ ?_ text
  · rintro _ ⟨⟩
  · exact fun line _ single => List.forall_mem_singleton.mpr single
  · exact fun line text single ih => List.forall_mem_cons.mpr ⟨single, ih⟩

/-- The lines hold the text, up to a line feed at its end. -/
theorem terminated_getlines (text : Bytes) :
    terminated (getlines text) = text ∨ terminated (getlines text) = text ++ [lineFeed] := by
  refine getlines_induction (motive := fun text lines => terminated lines = text ∨
    terminated lines = text ++ [lineFeed]) ?_ ?_ ?_ text
  · exact .inl rfl
  · exact fun line _ _ => .inr (List.flatMap_singleton _ _)
  · intro line text _ ih
    have step : terminated (line :: getlines text) = line ++ lineFeed :: terminated (getlines text) := by
      rw [terminated, List.flatMap_cons, List.append_assoc]
      rfl
    rw [step]
    rcases ih with same | more
    · rw [same]
      exact .inl rfl
    · rw [more]
      exact .inr (List.append_assoc _ (_ :: _) _).symm

theorem words_terminated (valid : WellLexed text) : words (terminated (getlines text)) = words text := by
  rcases terminated_getlines text with same | more
  · rw [same]
  · rw [more, words_append (valid.join parted_lineFeed), words_lineFeed, List.append_nil]

end Jssql.CLIDriver
