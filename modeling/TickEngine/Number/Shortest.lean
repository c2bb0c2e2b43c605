/-
  The shortest decimal text of a floating-point number.

  Every finite number is the nearest one to all reals of an interval around
  it, ends included iff its significand is even.  `shortest` finds the fewest
  decimal digits whose value lies in that interval, and among those of that
  length the nearest, a tie upward: for each length it looks at the two
  neighbours of the number on that decimal grid.  `Double.text` lays the
  digits out: in places where the number is at least `1e-4` and below `1e16`,
  else with an exponent.
-/
import TickEngine.Number.Literal

namespace TickEngine

namespace Shortest

/-- A decimal number `digits * 10 ^ exponent`. -/
structure Decimal where
  digits : Nat
  exponent : Int
  deriving DecidableEq, Repr

/-- Drops trailing zeros, at most `fuel` of them. -/
def Decimal.strip : (fuel : Nat) → Decimal → Decimal
  | 0, d => d
  | fuel + 1, d =>
    if d.digits % 10 = 0 ∧ d.digits ≠ 0 then strip fuel ⟨d.digits / 10, d.exponent + 1⟩ else d

/-- The interval of a word without sign, in quarter units: its middle, its two
    ends, and whether the ends belong to it. -/
structure Interval where
  middle : Nat
  low : Nat
  high : Nat
  closed : Bool

/-- The reals that round to the finite word `magnitude`.  Below a power of two
    the gap is half as wide. -/
def interval (f : Format) (magnitude : Nat) : Interval :=
  let units := f.unitsOf magnitude
  let gap := 1 <<< (magnitude >>> f.fraction - 1)
  let narrow := magnitude % (1 <<< f.fraction) = 0 ∧ 1 < magnitude >>> f.fraction
  { middle := 4 * units
    low := 4 * units - (if narrow then gap else 2 * gap)
    high := 4 * units + 2 * gap
    closed := magnitude % 2 = 0 }

/-- Whether the decimal `digits * 10 ^ exponent` lies in the interval. -/
def Interval.holds (i : Interval) (places : Nat) (d : Decimal) : Bool :=
  let value := (d.digits * Nat.pow 10 d.exponent.toNat) <<< (places + 2)
  let scale := Nat.pow 10 (-d.exponent).toNat
  if i.closed then i.low * scale ≤ value ∧ value ≤ i.high * scale
  else i.low * scale < value ∧ value < i.high * scale

/-- The place of the leading digit of `quarters` quarter units. -/
def leading (places quarters : Nat) : Int :=
  (Literal.digitCount ((quarters * Nat.pow 10 400) >>> (places + 2)) : Int) - 401

/-- Tries the grids of `count`, `count + 1`, … digits, `fuel` of them. -/
def search (places : Nat) (i : Interval) (top : Int) : (fuel count : Nat) → Decimal
  | 0, _ => ⟨0, 0⟩
  | fuel + 1, count =>
    let e := top - count + 1
    let num := i.middle * Nat.pow 10 (-e).toNat
    let den := Nat.pow 10 e.toNat <<< (places + 2)
    let below : Decimal := ⟨num / den, e⟩
    let above : Decimal := ⟨num / den + 1, e⟩
    let nearAbove := den ≤ 2 * (num % den)
    if i.holds places below ∧ (!i.holds places above ∨ ¬nearAbove) then below
    else if i.holds places above then above
    else search places i top fuel (count + 1)

/-- The shortest decimal of a finite word without sign, greater than zero. -/
def shortest (f : Format) (magnitude : Nat) : Decimal :=
  let i := interval f magnitude
  (search f.unitPlaces i (leading f.unitPlaces i.middle) 18 1).strip 20

/-- The text of a decimal.  `digits` has its point `point` places after its
    first digit. -/
def layOut (d : Decimal) : String :=
  let digits := Nat.toDigits 10 d.digits
  let point := d.exponent + digits.length
  if -3 ≤ point ∧ point ≤ 16 then
    if point ≤ 0 then
      "0." ++ String.ofList (List.replicate (-point).toNat '0' ++ digits)
    else if digits.length ≤ point.toNat then
      String.ofList (digits ++ List.replicate (point.toNat - digits.length) '0') ++ ".0"
    else
      String.ofList (digits.take point.toNat) ++ "." ++ String.ofList (digits.drop point.toNat)
  else
    String.ofList (digits.take 1)
      ++ (if digits.length ≤ 1 then "" else "." ++ String.ofList (digits.drop 1))
      ++ "e" ++ toString (point - 1)

end Shortest

/-- The text of a number: the fewest digits that read back, always with a
    point or an exponent. -/
def Double.text (x : Double) : String :=
  match x.datum with
  | .nan => "NaN"
  | .infinite negative => if negative then "-inf" else "inf"
  | .finite negative units =>
    let body :=
      if units = 0 then "0.0"
      else Shortest.layOut
        (Shortest.shortest .double (x.bits.toNat % Format.double.signWeight))
    if negative then "-" ++ body else body

end TickEngine
