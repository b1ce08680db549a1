import Jssql.Foundation.RegexText
import Jssql.Foundation.Wildcards
import Jssql.Services.ConditionEvaluator

/-!
`LIKE` by a regular expression. The translation escapes every syntax character, so it
always compiles, and it lets `%` and `_` become `.*` and `.`, which stand for no line
terminator. A text with more line terminators than the pattern is thus never like it.
-/
namespace Jssql.ConditionEvaluator
open Foundation Regex Wildcards

/-- A character of a pattern in SQL. -/
def pieceOf (c : UInt8) : Piece UInt8 :=
  if c = 37 then .many else if c = 95 then .single else .lit c

/-- The whole text can be split along the pattern, wildcards standing for any characters. -/
def SqlLike (text pattern : Bytes) : Prop := Splits (fun _ => True) (pattern.map pieceOf) text

def AgreesWithLike (text pattern : Bytes) : Prop := likeMatch text pattern = true ↔ SqlLike text pattern

def isLineTerminator (c : UInt8) : Bool := c == 10 || c == 13

def itemOf : Piece UInt8 → Item
  | .many => .star .any
  | .single => .one .any
  | .lit c => .one (.char c)

/-! The translation -/

theorem isSyntaxChar_iff (c : UInt8) :
    isSyntaxChar c = (ascii ".^$|()[]\x7b\x7d*+?\\").contains c := by
  have perm : (ascii "^$\\.*+?()[]\x7b\x7d|").Perm (ascii ".^$|()[]\x7b\x7d*+?\\") := by decide
  exact perm.contains_eq

theorem regexOfChar_eq (c : UInt8) : regexOfChar c = printItem (itemOf (pieceOf c)) := by
  rw [regexOfChar, pieceOf, ← isSyntaxChar_iff]
  by_cases many : c = 37
  · subst many; rfl
  · by_cases single : c = 95
    · subst single; rfl
    · simp [many, single, itemOf, printItem, printAtom]

theorem regexPattern_eq (pattern : Bytes) : regexPattern pattern =
    (.lineStart :: ((pattern.map pieceOf).map itemOf ++ [.lineEnd])).flatMap printItem := by
  have body : pattern.flatMap regexOfChar = ((pattern.map pieceOf).map itemOf).flatMap printItem := by
    rw [List.flatMap_map, List.flatMap_map]
    exact List.flatMap_congr fun c _ => regexOfChar_eq c
  rw [regexPattern, body, List.flatMap_cons, List.flatMap_append]
  rfl

/-! The match -/

theorem any_accepts (c : UInt8) : Atom.any.accepts c = !isLineTerminator c := by
  simp [Atom.accepts, isLineTerminator, Bool.not_or, bne]

theorem matchItems_pieces (pieces : List (Piece UInt8)) : ∀ {start : Bool} {text : Bytes},
    matchItems (pieces.map itemOf ++ [.lineEnd]) start text = true ↔
      Splits (fun c => isLineTerminator c = false) pieces text := by
  induction pieces with
  | nil =>
      intro start text
      rw [Splits.nil_iff]
      simp [matchItems]
  | cons piece pieces ih =>
      intro start text
      cases piece with
      | many =>
          rw [Splits.many_iff, List.map_cons, itemOf, List.cons_append, matchItems, matchStar_iff]
          refine exists_congr fun skipped => exists_congr fun rest => ?_
          rw [ih]
          simp only [any_accepts, Bool.not_eq_true']
      | single =>
          rw [Splits.single_iff, List.map_cons, itemOf, List.cons_append]
          cases text with
          | nil => simp [matchItems]
          | cons c text =>
              rw [matchItems, Bool.and_eq_true, ih, any_accepts, Bool.not_eq_true']
              constructor
              · rintro ⟨fits, tail⟩
                exact ⟨c, text, rfl, fits, tail⟩
              · rintro ⟨_, _, ⟨⟩, fits, tail⟩
                exact ⟨fits, tail⟩
      | lit d =>
          rw [Splits.lit_iff, List.map_cons, itemOf, List.cons_append]
          cases text with
          | nil => simp [matchItems]
          | cons c text =>
              rw [matchItems, Bool.and_eq_true, ih, Atom.accepts, beq_iff_eq]
              constructor
              · rintro ⟨rfl, tail⟩
                exact ⟨text, rfl, tail⟩
              · rintro ⟨_, ⟨⟩, tail⟩
                exact ⟨rfl, tail⟩

/-- A text is matched if it can be split along the pattern with no line terminator for a wildcard. -/
theorem likeMatch_splits (text pattern : Bytes) : likeMatch text pattern = true ↔
    Splits (fun c => isLineTerminator c = false) (pattern.map pieceOf) text := by
  rw [likeMatch, regexPattern_eq, compile_print]
  exact matchItems_pieces _

/-! The claim of `LIKE` -/

/-- No wildcard is a line terminator. -/
theorem countP_literals (pattern : Bytes) :
    (literals (pattern.map pieceOf)).countP isLineTerminator = pattern.countP isLineTerminator := by
  induction pattern with
  | nil => rfl
  | cons c pattern ih =>
      rw [List.map_cons, pieceOf]
      by_cases many : c = 37
      · subst many
        rw [if_pos rfl, literals_many, ih]
        exact (List.countP_cons_of_neg (by decide)).symm
      · by_cases single : c = 95
        · subst single
          rw [if_neg many, if_pos rfl, literals_single, ih]
          exact (List.countP_cons_of_neg (by decide)).symm
        · rw [if_neg many, if_neg single, literals_lit, List.countP_cons, List.countP_cons, ih]

/-- `likeMatch` gives the answer of SQL if and only if the text is not like the pattern or
has no more line terminators than it. -/
theorem agreesWithLike_iff (text pattern : Bytes) : AgreesWithLike text pattern ↔
    (SqlLike text pattern → text.countP isLineTerminator = pattern.countP isLineTerminator) := by
  rw [AgreesWithLike, likeMatch_splits, ← countP_literals pattern]
  constructor
  · exact fun agrees like => (agrees.mpr like).countP_eq_literals isLineTerminator
  · intro same
    constructor
    · exact fun splits => splits.mono fun _ _ => trivial
    · exact fun like => like.avoid isLineTerminator (same like)

/-- Two lines are not found to be like any text. -/
theorem not_agreesWithLike : ¬ AgreesWithLike (ascii "a\nb") (ascii "a%b") := by
  intro agrees
  have like : SqlLike (ascii "a\nb") (ascii "a%b") :=
    .lit (Splits.many_iff.mpr ⟨[10], _, rfl, fun _ _ => trivial, .lit .nil⟩)
  have matched : likeMatch (ascii "a\nb") (ascii "a%b") = true := agrees.mpr like
  exact absurd matched (by decide)

end Jssql.ConditionEvaluator
