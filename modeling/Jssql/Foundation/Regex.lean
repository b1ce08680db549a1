import Jssql.Foundation.Bytes

/-!
The part of ECMAScript regular expressions made of characters, escaped
characters, `.`, a `*` after one of these, and the two anchors. `compile` reads
the pattern text and refuses what lies outside the part; `fullMatch` decides
whether the whole text matches.
-/
namespace Foundation.Regex

inductive Atom where
  | any
  | char (c : UInt8)
deriving DecidableEq

/-- `.` matches every character except the line terminators. -/
def Atom.accepts : Atom → UInt8 → Bool
  | .any, c => c != 10 && c != 13
  | .char d, c => c == d

inductive Item where
  | one (a : Atom)
  | star (a : Atom)
  | lineStart
  | lineEnd
deriving DecidableEq

def isSyntaxChar (c : UInt8) : Bool := (ascii "^$\\.*+?()[]\x7b\x7d|").contains c

/-- The atom and what follows it, `none` where the text starts no atom. -/
def atom : Bytes → Option (Atom × Bytes)
  | 92 :: c :: rest => if isSyntaxChar c then some (.char c, rest) else none
  | 46 :: rest => some (.any, rest)
  | c :: rest => if isSyntaxChar c then none else some (.char c, rest)
  | [] => none

/-- Compile with a bound on the number of items; the text's length suffices. -/
def compileAux : Nat → Bytes → Option (List Item)
  | _, [] => some []
  | 0, _ => none
  | fuel + 1, 94 :: rest => (compileAux fuel rest).map (.lineStart :: ·)
  | fuel + 1, 36 :: rest => (compileAux fuel rest).map (.lineEnd :: ·)
  | fuel + 1, s => do
      let (a, rest) ← atom s
      match rest with
      | 42 :: rest' => (compileAux fuel rest').map (.star a :: ·)
      | _ => (compileAux fuel rest).map (.one a :: ·)

def compile (pattern : Bytes) : Option (List Item) := compileAux pattern.length pattern

/-- Some number of accepted characters, then the continuation. -/
def matchStar (a : Atom) (k : Bytes → Bool) : Bytes → Bool
  | [] => k []
  | c :: t => k (c :: t) || (a.accepts c && matchStar a k t)

/-- Whether `items` match all of a text that starts at its own beginning or not. -/
def matchItems : List Item → Bool → Bytes → Bool
  | [], _, t => t.isEmpty
  | .one a :: is, _, t =>
      match t with
      | [] => false
      | c :: t' => a.accepts c && matchItems is false t'
  | .star a :: is, start, t =>
      matchStar a (fun t' => matchItems is (start && t'.length == t.length) t') t
  | .lineStart :: is, start, t => start && matchItems is start t
  | .lineEnd :: is, start, t => t.isEmpty && matchItems is start t

def fullMatch (items : List Item) (text : Bytes) : Bool := matchItems items true text

end Foundation.Regex
