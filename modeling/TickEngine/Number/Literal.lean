/-
  Numbers as people write them.

  * `word?` reads a natural number that fits a machine word: an optional `+`,
    then decimal digits.
  * `Literal.read?` reads a floating-point literal: an optional sign, then
    digits with an optional point and an optional exponent, or `inf`,
    `infinity` or `nan` in any case.  `Literal.toDouble` is the nearest number
    of the 64-bit format.

  `NumeralFault` names what is wrong with a text that is no number.
-/
import TickEngine.Number.Real

namespace TickEngine

/-- Why a text is not a number of the wanted kind. -/
inductive NumeralFault where
  /-- The text of a whole number holds something else than digits. -/
  | invalidDigit
  /-- The whole number does not fit a word. -/
  | tooLarge
  /-- The text is no floating-point literal. -/
  | invalidLiteral
  /-- The literal is a NaN where a number is wanted. -/
  | notANumber
  deriving DecidableEq, Repr

/-- The wording of a fault. -/
def NumeralFault.message : NumeralFault → String
  | invalidDigit => "invalid digit found in string"
  | tooLarge => "number too large to fit in target type"
  | invalidLiteral => "invalid float literal"
  | notANumber => "not a number"

/-- The number that decimal digits spell. -/
def ofDigits (cs : List Char) : Nat := cs.foldl (fun n c => 10 * n + (c.toNat - 48)) 0

/-! ## Whole numbers -/

/-- Reads a whole number below `2 ^ 64`.  What is wrong first counts: leading
    digits that are already too large, or else the character after them. -/
def word? (cs : List Char) : Except NumeralFault UInt64 :=
  let body := if cs.head? = some '+' then cs.tail else cs
  let digits := body.takeWhile Char.isDigit
  if UInt64.size ≤ ofDigits digits then .error .tooLarge
  else if digits.isEmpty ∨ digits ≠ body then .error .invalidDigit
  else .ok (UInt64.ofNat (ofDigits digits))

/-! ## Floating-point literals -/

/-- What a literal denotes, before rounding. -/
inductive Literal where
  | nan (negative : Bool)
  | infinite (negative : Bool)
  /-- The number `digits * 10 ^ exponent`. -/
  | decimal (negative : Bool) (digits : Nat) (exponent : Int)
  deriving DecidableEq, Repr

namespace Literal

/-- Splits off a sign; no sign is a plus. -/
def sign : List Char → Bool × List Char
  | '+' :: rest => (false, rest)
  | '-' :: rest => (true, rest)
  | cs => (false, cs)

/-- Reads the exponent that may end a literal. -/
def exponent? : List Char → Option Int
  | [] => some 0
  | c :: rest =>
    if c = 'e' ∨ c = 'E' then
      let (negative, digits) := sign rest
      if digits.isEmpty ∨ !digits.all Char.isDigit then none
      else some (if negative then -(ofDigits digits : Int) else ofDigits digits)
    else none

/-- Reads digits with an optional point and exponent.  There is a digit before
    or after the point. -/
def decimal? (negative : Bool) (cs : List Char) : Option Literal :=
  let whole := cs.takeWhile Char.isDigit
  let rest := cs.dropWhile Char.isDigit
  let places := if rest.head? = some '.' then rest.tail.takeWhile Char.isDigit else []
  let rest := if rest.head? = some '.' then rest.tail.dropWhile Char.isDigit else rest
  if whole.isEmpty ∧ places.isEmpty then none
  else do
    let e ← exponent? rest
    return .decimal negative (ofDigits (whole ++ places)) (e - places.length)

def read? (cs : List Char) : Option Literal :=
  let (negative, body) := sign cs
  let word := body.map Char.toLower
  if word = "inf".toList ∨ word = "infinity".toList then some (.infinite negative)
  else if word = "nan".toList then some (.nan negative)
  else decimal? negative body

/-- The number of decimal digits of `n`. -/
def digitCount (n : Nat) : Nat := (Nat.toDigits 10 n).length

/-- The nearest number.  A decimal of more than 400 places before the point is
    past every finite number, and one that starts more than 400 places after
    it is closer to zero than to any other; neither power is computed. -/
def toDouble : Literal → Double
  | .nan negative =>
    .ofBits (Format.double.withSign negative (Format.double.infinity + Format.double.quietBit))
  | .infinite negative => .ofBits (Format.double.withSign negative Format.double.infinity)
  | .decimal negative digits exponent =>
    if digits = 0 then .ofBits (Format.double.withSign negative 0)
    else if 400 < exponent + digitCount digits then
      .ofBits (Format.double.withSign negative Format.double.infinity)
    else if exponent + digitCount digits < -400 then
      .ofBits (Format.double.withSign negative 0)
    else
      .ofBits (Format.double.ofRatio negative (digits * Nat.pow 10 exponent.toNat)
        (Nat.pow 10 (-exponent).toNat))

end Literal

end TickEngine
