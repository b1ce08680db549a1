import Jssql.Foundation.Pattern

/-!
Lexing by the longest match: of the rules that match a start of the text, the one that
matches the longest start is taken, and of these the first. A rule makes a token of what it
has matched, or skips it.
-/
namespace Foundation

structure LexRule (α τ : Type) where
  pattern : Pattern α
  action : List α → Option τ

namespace Lexing

variable {α τ : Type} (rules : List (LexRule α τ))

def firstRule (w : List α) : Option (LexRule α τ) := rules.find? fun rule => rule.pattern.accepts w

/-- The longest match of at most this length. -/
def munchUpTo (text : List α) : Nat → Option (LexRule α τ × Nat)
  | 0 => none
  | k + 1 =>
      match firstRule rules (text.take (k + 1)) with
      | some rule => some (rule, k + 1)
      | none => munchUpTo text k

def munch (text : List α) : Option (LexRule α τ × Nat) := munchUpTo rules text text.length

/-- The matches, with a bound on their number; the text's length suffices. -/
def lexemesUpTo : Nat → List α → List (LexRule α τ × List α)
  | 0, _ => []
  | bound + 1, text =>
      match munch rules text with
      | some (rule, k) => (rule, text.take k) :: lexemesUpTo bound (text.drop k)
      | none => []

def lexemes (text : List α) : List (LexRule α τ × List α) := lexemesUpTo rules text.length text

/-- The tokens of a text. -/
def lex (text : List α) : List τ := (lexemes rules text).filterMap fun lexeme => lexeme.1.action lexeme.2

/-- The text starts with a match of this rule and length, and with no longer match. -/
structure Munches (text : List α) (rule : LexRule α τ) (k : Nat) : Prop where
  positive : 0 < k
  inside : k ≤ text.length
  first : firstRule rules (text.take k) = some rule
  longest : ∀ j, k < j → j ≤ text.length → firstRule rules (text.take j) = none

variable {rules} {text u v : List α} {rule : LexRule α τ} {k : Nat}

theorem firstRule_eq_none {w : List α} :
    firstRule rules w = none ↔ ∀ rule ∈ rules, ¬ Pattern.Matches rule.pattern w := by
  simp only [firstRule, List.find?_eq_none, Pattern.accepts_iff]

theorem firstRule_cons_of_matches {w : List α} (h : Pattern.Matches rule.pattern w) :
    firstRule (rule :: rules) w = some rule :=
  List.find?_cons_of_pos (Pattern.accepts_iff.mpr h)

theorem firstRule_cons_of_not {w : List α} (h : ¬ Pattern.Matches rule.pattern w) :
    firstRule (rule :: rules) w = firstRule rules w :=
  List.find?_cons_of_neg fun accepts => h (Pattern.accepts_iff.mp accepts)

theorem matches_of_firstRule {w : List α} (h : firstRule rules w = some rule) :
    rule ∈ rules ∧ Pattern.Matches rule.pattern w := by
  rw [firstRule] at h
  obtain ⟨accepts, -⟩ := List.find?_eq_some_iff_append.mp h
  exact ⟨List.mem_of_find?_eq_some h, Pattern.accepts_iff.mp accepts⟩

theorem munchUpTo_of_longest (first : firstRule rules (text.take k) = some rule) (positive : 0 < k) {m : Nat}
    (far : k ≤ m) (longest : ∀ j, k < j → j ≤ m → firstRule rules (text.take j) = none) :
    munchUpTo rules text m = some (rule, k) := by
  induction m with
  | zero => exact absurd positive (Nat.not_lt.mpr far)
  | succ m ih =>
      rw [munchUpTo]
      by_cases last : k = m + 1
      · subst last
        rw [first]
      · rw [longest (m + 1) (by omega) (Nat.le_refl _)]
        exact ih (by omega) fun j longer within => longest j longer (Nat.le_succ_of_le within)

theorem Munches.munch_eq (h : Munches rules text rule k) : munch rules text = some (rule, k) :=
  munchUpTo_of_longest h.first h.positive h.inside h.longest

theorem munchUpTo_some {m : Nat} (h : munchUpTo rules text m = some (rule, k)) :
    0 < k ∧ k ≤ m ∧ firstRule rules (text.take k) = some rule ∧
      ∀ j, k < j → j ≤ m → firstRule rules (text.take j) = none := by
  induction m with
  | zero => cases h
  | succ m ih =>
      rw [munchUpTo] at h
      split at h
      · next found =>
          cases h
          exact ⟨Nat.succ_pos m, Nat.le_refl _, found, fun j longer within => by omega⟩
      · next missing =>
          obtain ⟨positive, within, first, longest⟩ := ih h
          refine ⟨positive, Nat.le_succ_of_le within, first, fun j longer far => ?_⟩
          obtain far | rfl := Nat.lt_or_eq_of_le far
          · exact longest j longer (Nat.le_of_lt_succ far)
          · exact missing

theorem munch_eq_some_iff : munch rules text = some (rule, k) ↔ Munches rules text rule k := by
  constructor
  · intro h
    obtain ⟨positive, inside, first, longest⟩ := munchUpTo_some h
    exact ⟨positive, inside, first, longest⟩
  · exact Munches.munch_eq

/-- Nothing is left out when more matches are allowed. -/
theorem lexemesUpTo_length {bound : Nat} (enough : text.length ≤ bound) :
    lexemesUpTo rules bound text = lexemes rules text := by
  induction bound using Nat.strong_induction_on generalizing text with
  | _ bound ih =>
      cases bound with
      | zero =>
          obtain rfl := List.length_eq_zero_iff.mp (Nat.le_zero.mp enough)
          rfl
      | succ bound =>
          cases matched : munch rules text with
          | none =>
              rw [lexemesUpTo, matched, lexemes]
              cases text with
              | nil => rfl
              | cons a text => rw [List.length_cons, lexemesUpTo, matched]
          | some found =>
              obtain ⟨rule, k⟩ := found
              have munches := munch_eq_some_iff.mp matched
              have positive := munches.positive
              have inside := munches.inside
              obtain ⟨m, length⟩ : ∃ m, text.length = m + 1 := ⟨text.length - 1, by omega⟩
              have rest : (text.drop k).length ≤ m := by rw [List.length_drop]; omega
              rw [lexemesUpTo, lexemes, length, lexemesUpTo, matched]
              dsimp only
              rw [ih bound (Nat.lt_succ_self bound) (by omega), ← ih m (by omega) rest]

@[simp] theorem lexemes_nil : lexemes rules [] = [] := rfl

@[simp] theorem lex_nil : lex rules [] = [] := rfl

theorem Munches.lexemes_eq (h : Munches rules text rule k) :
    lexemes rules text = (rule, text.take k) :: lexemes rules (text.drop k) := by
  have positive := h.positive
  have inside := h.inside
  obtain ⟨m, length⟩ : ∃ m, text.length = m + 1 := ⟨text.length - 1, by omega⟩
  have rest : (text.drop k).length ≤ m := by rw [List.length_drop]; omega
  rw [lexemes, length, lexemesUpTo, h.munch_eq, ← lexemesUpTo_length rest]

/-- Every lexeme is matched by its rule, and by no rule before. -/
theorem firstRule_of_mem_lexemes {w : List α} (h : (rule, w) ∈ lexemes rules text) : firstRule rules w = some rule := by
  induction length : text.length using Nat.strong_induction_on generalizing text with
  | _ m ih =>
      cases matched : munch rules text with
      | none =>
          cases text with
          | nil => cases h
          | cons a text =>
              rw [lexemes, List.length_cons, lexemesUpTo, matched] at h
              cases h
      | some found =>
          obtain ⟨first, k⟩ := found
          have munches := munch_eq_some_iff.mp matched
          have positive := munches.positive
          have inside := munches.inside
          rw [munches.lexemes_eq] at h
          cases h with
          | head => exact munches.first
          | tail _ h => exact ih _ (by rw [List.length_drop]; omega) h rfl

theorem matches_of_mem_lexemes {w : List α} (h : (rule, w) ∈ lexemes rules text) :
    rule ∈ rules ∧ Pattern.Matches rule.pattern w :=
  matches_of_firstRule (firstRule_of_mem_lexemes h)

/-- A text that a rule matches as a whole is one lexeme. -/
theorem lexemes_eq_singleton {w : List α} (first : firstRule rules w = some rule) (some_ : w ≠ []) :
    lexemes rules w = [(rule, w)] := by
  have munches : Munches rules w rule w.length :=
    ⟨List.length_pos_iff.mpr some_, Nat.le_refl _, by rwa [List.take_length], fun j longer within => by omega⟩
  rw [munches.lexemes_eq, List.take_length, List.drop_length, lexemes_nil]

/-- Where a rule matches every text that is not empty, nothing is lost. -/
theorem flatten_lexemes (total : ∀ text : List α, text ≠ [] → munch rules text ≠ none) (text : List α) :
    ((lexemes rules text).map Prod.snd).flatten = text := by
  induction length : text.length using Nat.strong_induction_on generalizing text with
  | _ m ih =>
      cases text with
      | nil => rfl
      | cons a rest =>
          obtain ⟨⟨rule, k⟩, matched⟩ := Option.ne_none_iff_exists'.mp (total (a :: rest) (List.cons_ne_nil a rest))
          have munches := munch_eq_some_iff.mp matched
          have positive := munches.positive
          have shorter : ((a :: rest).drop k).length < m := by
            rw [List.length_cons] at length
            rw [List.length_drop, List.length_cons]
            omega
          rw [munches.lexemes_eq, List.map_cons, List.flatten_cons, ih _ shorter _ rfl, List.take_append_drop]

/-- A match stays the longest when no match runs on into what follows. -/
theorem Munches.append (h : Munches rules u rule k)
    (ends : ∀ t, t ≠ [] → t <+: v → ∀ rule ∈ rules, ¬ Pattern.Matches rule.pattern (u ++ t)) :
    Munches rules (u ++ v) rule k where
  positive := h.positive
  inside := by
    rw [List.length_append]
    exact Nat.le_add_right_of_le h.inside
  first := by rw [List.take_append_of_le_length h.inside, h.first]
  longest := by
    intro j longer within
    by_cases far : j ≤ u.length
    · rw [List.take_append_of_le_length far, h.longest j longer far]
    · rw [List.length_append] at within
      rw [List.take_append, List.take_of_length_le (Nat.le_of_not_le far), firstRule_eq_none]
      refine ends _ (fun none_ => ?_) (List.take_prefix _ _)
      rw [List.take_eq_nil_iff] at none_
      rcases none_ with nothing | rfl
      · omega
      · rw [List.length_nil] at within
        omega

/-- Two texts are lexed one after the other when the matches in the first stay the longest,
as an invariant of what is left of it shows. -/
theorem lexemes_append {Inv : List α → Prop}
    (step : ∀ s, Inv s → s ≠ [] → ∃ rule k, Munches rules s rule k ∧ Munches rules (s ++ v) rule k ∧ Inv (s.drop k))
    (inv : Inv u) : lexemes rules (u ++ v) = lexemes rules u ++ lexemes rules v := by
  induction length : u.length using Nat.strong_induction_on generalizing u with
  | _ m ih =>
      cases u with
      | nil => rfl
      | cons a u =>
          obtain ⟨rule, k, munches, longer, rest⟩ := step (a :: u) inv (List.cons_ne_nil a u)
          have shorter : ((a :: u).drop k).length < m := by
            have positive := munches.positive
            rw [List.length_cons] at length
            rw [List.length_drop, List.length_cons]
            omega
          rw [munches.lexemes_eq, longer.lexemes_eq, List.take_append_of_le_length munches.inside,
            List.drop_append_of_le_length munches.inside, ih _ shorter rest rfl]
          rfl

theorem munchUpTo_ne_none (matched : firstRule rules (text.take k) ≠ none) (positive : 0 < k) {m : Nat} (far : k ≤ m) :
    munchUpTo rules text m ≠ none := by
  induction m with
  | zero => exact absurd positive (Nat.not_lt.mpr far)
  | succ m ih =>
      rw [munchUpTo]
      split
      · exact Option.some_ne_none _
      · next missing =>
          obtain far | rfl := Nat.lt_or_eq_of_le far
          · exact ih (Nat.le_of_lt_succ far)
          · exact absurd missing matched

/-! Cutting a text -/

section Total

variable (total : ∀ text : List α, text ≠ [] → munch rules text ≠ none)

/-- What a list of lexemes stands for. -/
def spelled (lexemes : List (LexRule α τ × List α)) : List α := (lexemes.map Prod.snd).flatten

@[simp] theorem spelled_nil : spelled ([] : List (LexRule α τ × List α)) = [] := rfl

@[simp] theorem spelled_cons (lexeme : LexRule α τ × List α) (rest : List (LexRule α τ × List α)) :
    spelled (lexeme :: rest) = lexeme.2 ++ spelled rest := rfl

@[simp] theorem spelled_append (front back : List (LexRule α τ × List α)) :
    spelled (front ++ back) = spelled front ++ spelled back := by
  rw [spelled, List.map_append, List.flatten_append]
  rfl

theorem Munches.of_append (h : Munches rules (u ++ v) rule k) (inside : k ≤ u.length) : Munches rules u rule k where
  positive := h.positive
  inside := inside
  first := by rw [← h.first, List.take_append_of_le_length inside]
  longest := by
    intro j longer within
    rw [← h.longest j longer (by rw [List.length_append]; omega), List.take_append_of_le_length within]

include total

theorem spelled_lexemes (text : List α) : spelled (lexemes rules text) = text := flatten_lexemes total text

theorem exists_munches (text : List α) (some_ : text ≠ []) : ∃ rule k, Munches rules text rule k := by
  obtain ⟨⟨rule, k⟩, matched⟩ := Option.ne_none_iff_exists'.mp (total text some_)
  exact ⟨rule, k, munch_eq_some_iff.mp matched⟩

/-- A part of the lexemes is what its own text is lexed into. -/
theorem lexemes_spelled {front back : List (LexRule α τ × List α)} (h : lexemes rules text = front ++ back) :
    lexemes rules (spelled front) = front ∧ lexemes rules (spelled back) = back := by
  induction front generalizing text with
  | nil =>
      rw [List.nil_append] at h
      rw [← h, spelled_lexemes total]
      exact ⟨rfl, rfl⟩
  | cons lexeme front ih =>
      have some_ : text ≠ [] := by
        rintro rfl
        cases h
      obtain ⟨rule, k, munches⟩ := exists_munches total text some_
      rw [munches.lexemes_eq, List.cons_append] at h
      obtain ⟨rfl, rest⟩ := List.cons.inj h
      have whole : text = (text.take k ++ spelled front) ++ spelled back := by
        rw [List.append_assoc, ← spelled_append, ← rest, spelled_lexemes total, List.take_append_drop]
      have length : (text.take k).length = k := List.length_take_of_le munches.inside
      have inside : k ≤ (text.take k ++ spelled front).length := by
        rw [List.length_append]
        omega
      refine ⟨?_, (ih rest).2⟩
      rw [whole] at munches
      rw [spelled_cons, (munches.of_append inside).lexemes_eq, List.take_left' length, List.drop_left' length, (ih rest).1]

/-- Wherever a text is cut, the cut is between two lexemes or inside one. -/
theorem lexemes_cut (p v : List α) : lexemes rules (p ++ v) = lexemes rules p ++ lexemes rules v ∨
    ∃ front rule a b back, a ≠ [] ∧ b ≠ [] ∧ lexemes rules (p ++ v) = front ++ (rule, a ++ b) :: back ∧
      p = spelled front ++ a ∧ v = b ++ spelled back := by
  have between {front back : List (LexRule α τ × List α)} (h : lexemes rules (p ++ v) = front ++ back)
      (left : p = spelled front) (right : v = spelled back) :
      lexemes rules (p ++ v) = lexemes rules p ++ lexemes rules v := by
    obtain ⟨first, second⟩ := lexemes_spelled total h
    rw [h, left, right, first, second]
  have spelling := spelled_lexemes total (p ++ v)
  rw [spelled, List.flatten_eq_append_iff] at spelling
  rcases spelling with ⟨ps, vs, parts, left, right⟩ | ⟨ps, a, c, b, vs, parts, left, right⟩
  · obtain ⟨front, back, lexed, rfl, rfl⟩ := List.map_eq_append_iff.mp parts
    exact .inl (between lexed left right)
  · obtain ⟨front, rest, lexed, rfl, cutting⟩ := List.map_eq_append_iff.mp parts
    obtain ⟨⟨rule, w⟩, back, rfl, cut, rfl⟩ := List.map_eq_cons_iff.mp cutting
    obtain rfl : w = a ++ c :: b := cut
    cases a with
    | nil =>
        rw [List.append_nil] at left
        exact .inl (between lexed left right)
    | cons d a =>
        exact .inr ⟨front, rule, d :: a, c :: b, back, List.cons_ne_nil d a, List.cons_ne_nil c b, lexed, left, right⟩

end Total

end Lexing

end Foundation
