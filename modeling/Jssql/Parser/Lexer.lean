import Jssql.Auxiliary.Utilities
import Jssql.Foundation.Lexing
import Jssql.Foundation.Numeral

/-!
The rules of `lexer.l`, in their order. The text of an identifier or a literal is copied
from a C string. The last rule takes a single character that no other rule takes; a text is
lexically valid when it is not needed.
-/
namespace Jssql.Lexer
open Foundation

inductive Token where
  | kwCreate | kwImport | kwWhere | kwLike | kwAnd | kwOr
  | opLt | opGt | opEq | opLe | opGe | opNe
  | kwSelect | kwDescribe | kwDelete | kwUpdate | kwSet | kwFrom | kwInsert | kwInto
  | kwFalse | kwTrue | kwValues | kwDrop | kwUntyped | kwTable | kwPrimary | kwKey | kwNumberT | kwNull | kwNot | kwIs
  | kwUnique | kwDefault
  | lparen | rparen | semicolon | comma | asterisk
  | identifier (str : Bytes)
  | literalString (str : Bytes)
  | literalNumber (str : Bytes)
  | unexpected (c : UInt8)
deriving DecidableEq

/-! Character classes -/

def isIdentStart (c : UInt8) : Bool := (97 ≤ c && c ≤ 122) || (65 ≤ c && c ≤ 90) || c == 95

def isIdentRest (c : UInt8) : Bool := isIdentStart c || isDigit c

/-- The blanks of `WS`. -/
def isBlank (c : UInt8) : Bool := c == 32 || c == 9 || c == 13

def backslash : UInt8 := 92

def lineFeed : UInt8 := 10

/-! Patterns -/

def char (c : UInt8) : Pattern UInt8 := .one fun d => decide (d = c)

def ident : Pattern UInt8 := .seq (.one isIdentStart) (.star (.one isIdentRest))

def digits : Pattern UInt8 := .plus (.one isDigit)

/-- `\.[0-9]+` -/
def fraction : Pattern UInt8 := .seq (char 46) digits

/-- `[+-]?([0-9]+)(\.[0-9]+)?(e?[0-9]+(\.[0-9]+)?)?` -/
def number : Pattern UInt8 :=
  .seq (.opt (.either (char 43) (char 45))) (.seq digits (.seq (.opt fraction)
    (.opt (.seq (.opt (char 101)) (.seq digits (.opt fraction))))))

def ws : Pattern UInt8 := .plus (.one isBlank)

/-- `[^\'\\]|\\.` -/
def stringChar : Pattern UInt8 :=
  .either (.one fun c => c ≠ singleQuote && c ≠ backslash) (.seq (char backslash) (.one fun c => c ≠ lineFeed))

def string : Pattern UInt8 := .seq (char singleQuote) (.seq (.star stringChar) (char singleQuote))

/-! Rules -/

/-- The rules of fixed words with the tokens they return. -/
def fixedWords : List (Bytes × Option Token) := [
  (ascii "CREATE", some .kwCreate),
  (ascii "IMPORT", some .kwImport),
  (ascii "WHERE", some .kwWhere),
  (ascii "LIKE", some .kwLike),
  (ascii "AND", some .kwAnd),
  (ascii "OR", some .kwOr),
  (ascii "<", some .opLt),
  (ascii ">", some .opGt),
  (ascii "=", some .opEq),
  (ascii "<=", some .opLe),
  (ascii ">=", some .opGe),
  (ascii "!=", some .opNe),
  (ascii "SELECT", some .kwSelect),
  (ascii "DESCRIBE", some .kwDescribe),
  (ascii "DELETE", some .kwDelete),
  (ascii "UPDATE", some .kwUpdate),
  (ascii "SET", some .kwSet),
  (ascii "FROM", some .kwFrom),
  (ascii "INSERT", some .kwInsert),
  (ascii "INTO", some .kwInto),
  (ascii "FALSE", some .kwFalse),
  (ascii "TRUE", some .kwTrue),
  (ascii "VALUES", some .kwValues),
  (ascii "DROP", some .kwDrop),
  (ascii "UNTYPED", some .kwUntyped),
  (ascii "TABLE", some .kwTable),
  (ascii "PRIMARY", some .kwPrimary),
  (ascii "KEY", some .kwKey),
  (ascii "NUMBER", some .kwNumberT),
  (ascii "NULL", some .kwNull),
  (ascii "NOT", some .kwNot),
  (ascii "IS", some .kwIs),
  (ascii "UNIQUE", some .kwUnique),
  (ascii "DEFAULT", some .kwDefault),
  (ascii "(", some .lparen),
  (ascii ")", some .rparen),
  (ascii ";", some .semicolon),
  (ascii ",", some .comma),
  (ascii "*", some .asterisk),
  ([lineFeed], none)]

def fixedRule (entry : Bytes × Option Token) : LexRule UInt8 Token := ⟨.word entry.1, fun _ => entry.2⟩

def identRule : LexRule UInt8 Token := ⟨ident, fun yytext => some (.identifier (cString yytext))⟩

def stringRule : LexRule UInt8 Token := ⟨string, fun yytext => some (.literalString (cString yytext))⟩

def numberRule : LexRule UInt8 Token := ⟨number, fun yytext => some (.literalNumber (cString yytext))⟩

def wsRule : LexRule UInt8 Token := ⟨ws, fun _ => none⟩

/-- The rules but the last. -/
def lexemeRules : List (LexRule UInt8 Token) :=
  fixedWords.map fixedRule ++ [identRule, stringRule, numberRule, wsRule]

def catchAllRule : LexRule UInt8 Token :=
  ⟨.one fun c => c ≠ lineFeed, fun yytext => yytext.head?.map Token.unexpected⟩

def rules : List (LexRule UInt8 Token) := lexemeRules ++ [catchAllRule]

/-- The tokens that `yylex` returns for a text, one after the other. -/
def tokens (text : Bytes) : List Token := Lexing.lex rules text

/-- The last rule is never taken. -/
def LexicallyValid (text : Bytes) : Prop := ∀ c, Token.unexpected c ∉ tokens text

end Jssql.Lexer
