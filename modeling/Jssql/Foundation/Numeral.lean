import Jssql.Foundation.Bytes

/-!
The C library's `strtod` in the default locale: the longest numeral that starts
the text, its value correctly rounded to binary64, and the range error.

A finite value is kept as mantissa and binary exponent, so comparing two values
is integer arithmetic after scaling to the smaller exponent. A result that
rounds past the largest finite number, or an inexact one below the smallest
normal number, is a range error.
-/
namespace Foundation

def isSpace (c : UInt8) : Bool := c == 32 || (9 ≤ c && c ≤ 13)

def isDigit (c : UInt8) : Bool := 48 ≤ c && c ≤ 57

def toLower (c : UInt8) : UInt8 := if 65 ≤ c && c ≤ 90 then c + 32 else c

def isHexDigit (c : UInt8) : Bool := isDigit c || (97 ≤ toLower c && toLower c ≤ 102)

def digitValue (c : UInt8) : Nat :=
  if isDigit c then c.toNat - 48 else (toLower c).toNat - 87

inductive Double where
  | finite (negative : Bool) (mantissa : Nat) (exponent : Int)
  | infinite (negative : Bool)
  | nan
deriving DecidableEq

namespace Double

/-- The integer a finite value is of `2 ^ base`, for `base` at most its exponent. -/
def scaled (negative : Bool) (mantissa : Nat) (exponent base : Int) : Int :=
  let magnitude : Int := mantissa * 2 ^ (exponent - base).toNat
  if negative then -magnitude else magnitude

def lt : Double → Double → Bool
  | .nan, _ | _, .nan => false
  | .infinite n, .infinite m => n && !m
  | .infinite n, .finite _ _ _ => n
  | .finite _ _ _, .infinite m => !m
  | .finite n a e, .finite m b f =>
      scaled n a e (min e f) < scaled m b f (min e f)

def eq : Double → Double → Bool
  | .infinite n, .infinite m => n == m
  | .finite n a e, .finite m b f =>
      scaled n a e (min e f) = scaled m b f (min e f)
  | _, _ => false

def le (a b : Double) : Bool := lt a b || eq a b

end Double

/-- `num / den` rounded to the nearest integer, ties to even. -/
def roundHalfEven (num den : Nat) : Nat :=
  let q := num / den
  let r := num % den
  if 2 * r < den then q else if den < 2 * r then q + 1 else q + q % 2

/-- The binary logarithm of `num / den`, rounded down. -/
def ratioLog2 (num den : Nat) : Int :=
  let guess : Int := (num.log2 : Int) - den.log2
  if num * 2 ^ (-guess).toNat < den * 2 ^ guess.toNat then guess - 1 else guess

/-- A positive quotient as a binary64 number, with the range error. -/
def roundToDouble (negative : Bool) (num den : Nat) : Double × Bool :=
  let ulp := max (ratioLog2 num den - 52) (-1074)
  let numer := num * 2 ^ (-ulp).toNat
  let denom := den * 2 ^ ulp.toNat
  let mantissa := roundHalfEven numer denom
  if 2 ^ 1024 ≤ mantissa * 2 ^ ulp.toNat ∧ 0 ≤ ulp then (.infinite negative, true)
  else (.finite negative mantissa ulp, decide (mantissa < 2 ^ 52 ∧ numer % denom ≠ 0))

/-- The value `mantissa * base ^ exponent`. -/
def powerOfBase (negative : Bool) (base mantissa : Nat) (exponent : Int) : Double × Bool :=
  if mantissa = 0 then (.finite negative 0 0, false)
  else roundToDouble negative (mantissa * base ^ exponent.toNat) (base ^ (-exponent).toNat)

structure Numeral where
  value : Double
  rangeError : Bool
  rest : Bytes
deriving DecidableEq

def splitSign : Bytes → Bool × Bytes
  | 45 :: s => (true, s)
  | 43 :: s => (false, s)
  | s => (false, s)

/-- An exponent part introduced by `marker`; without digits it is not consumed. -/
def exponentPart (marker : UInt8) (s : Bytes) : Int × Bytes :=
  match s with
  | c :: s' =>
      if toLower c = marker then
        let (negative, s'') := splitSign s'
        let (digits, rest) := s''.span isDigit
        if digits = [] then (0, s)
        else
          let magnitude : Int := Nat.ofDigits 10 (digits.reverse.map digitValue)
          (if negative then -magnitude else magnitude, rest)
      else (0, s)
  | [] => (0, [])

/-- Digits with an optional point, then an optional exponent. -/
def digitsNumeral (isDig : UInt8 → Bool) (base expBase digitWeight : Nat) (marker : UInt8)
    (negative : Bool) (s : Bytes) : Option Numeral :=
  let (whole, afterWhole) := s.span isDig
  let (fraction, afterFraction) :=
    match afterWhole with
    | 46 :: r => r.span isDig
    | r => ([], r)
  if whole ++ fraction = [] then none
  else
    let (exponent, rest) := exponentPart marker afterFraction
    let mantissa := Nat.ofDigits base ((whole ++ fraction).reverse.map digitValue)
    let (value, rangeError) :=
      powerOfBase negative expBase mantissa (exponent - digitWeight * fraction.length)
    some ⟨value, rangeError, rest⟩

def decimalNumeral (negative : Bool) (s : Bytes) : Option Numeral :=
  digitsNumeral isDigit 10 10 1 101 negative s

/-- After `0x` there must be a hexadecimal digit, else only the `0` is a numeral. -/
def hexNumeral (negative : Bool) (s : Bytes) : Option Numeral :=
  match s with
  | 48 :: x :: s' =>
      if toLower x = 120 then digitsNumeral isHexDigit 16 2 4 112 negative s' else none
  | _ => none

/-- Case-insensitive removal of a keyword. -/
def stripKeyword (keyword : Bytes) (s : Bytes) : Option Bytes :=
  if (s.take keyword.length).map toLower = keyword then some (s.drop keyword.length) else none

def isNanChar (c : UInt8) : Bool := isDigit c || c == 95 || (97 ≤ toLower c && toLower c ≤ 122)

def nanNumeral (s : Bytes) : Option Numeral := do
  let r ← stripKeyword (ascii "nan") s
  match r with
  | 40 :: r' =>
      match (r'.dropWhile isNanChar) with
      | 41 :: rest => some ⟨.nan, false, rest⟩
      | _ => some ⟨.nan, false, r⟩
  | _ => some ⟨.nan, false, r⟩

def infNumeral (negative : Bool) (s : Bytes) : Option Numeral :=
  match stripKeyword (ascii "infinity") s with
  | some rest => some ⟨.infinite negative, false, rest⟩
  | none => (stripKeyword (ascii "inf") s).map fun rest => ⟨.infinite negative, false, rest⟩

/-- `strtod` on a text without NUL; `none` when nothing is converted. -/
def strtod (s : Bytes) : Option Numeral :=
  let (negative, body) := splitSign (s.dropWhile isSpace)
  infNumeral negative body <|> nanNumeral body <|> hexNumeral negative body <|>
    decimalNumeral negative body

/-- The text a C function sees of a byte string. -/
def cString (s : Bytes) : Bytes := s.takeWhile (· ≠ 0)

example : (strtod (ascii "1e999")).map (·.rangeError) = some true := by decide +kernel

end Foundation
