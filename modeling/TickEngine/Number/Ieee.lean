/-
  Binary floating-point formats, computed exactly on words.

  A `Format` is given by the widths of its fraction and exponent fields.  Every
  finite datum of a format is a whole number of its smallest subnormals, its
  *units*, so `decode` gives a sign and a natural number, and an operation is
  an exact computation on natural numbers followed by one rounding,
  `roundUnits`: to nearest, a tie to the even neighbour, past the largest
  finite datum to infinity.

  * `decode`, `withSign` and `roundUnits` pass between words and units;
  * `add`, `mul`, `div`, `convert`, `ofNat`, `ofRatio` are the operations;
  * an operation on a NaN gives that NaN, quieted, the left one of two; an
    operation without a result gives `invalid`.
-/
namespace TickEngine

/-- The quotient `num / den` to the nearest whole number, a half to the even
    neighbour. -/
def roundHalfEven (num den : Nat) : Nat :=
  let q := num / den
  let r := num % den
  if 2 * r < den ∨ (2 * r = den ∧ q % 2 = 0) then q else q + 1

/-- A binary interchange format. -/
structure Format where
  /-- The width of the fraction field. -/
  fraction : Nat
  /-- The width of the exponent field. -/
  exponent : Nat
  deriving DecidableEq, Repr

/-- What a word stands for. -/
inductive Datum where
  | nan
  | infinite (negative : Bool)
  /-- A number of units of the format. -/
  | finite (negative : Bool) (units : Nat)
  deriving DecidableEq, Repr

namespace Format

/-! ## Formats and words -/

/-- The 32-bit format. -/
def single : Format := ⟨23, 8⟩

/-- The 64-bit format. -/
def double : Format := ⟨52, 11⟩

variable (f : Format)

/-- The exponent field of infinities and NaNs. -/
def lastField : Nat := 1 <<< f.exponent - 1

/-- A unit of the format is `2 ^ -unitPlaces`. -/
def unitPlaces : Nat := 1 <<< (f.exponent - 1) + f.fraction - 2

/-- The word of positive infinity.  Words above it, up to the sign, are NaNs. -/
def infinity : Nat := f.lastField <<< f.fraction

/-- The weight of the sign in a word. -/
def signWeight : Nat := 1 <<< (f.fraction + f.exponent)

/-- The leading bit of the fraction, set in quiet NaNs. -/
def quietBit : Nat := 1 <<< (f.fraction - 1)

/-- The NaN of an operation that has no result. -/
def invalid : Nat := f.signWeight + f.infinity + f.quietBit

/-- A word from its sign and the rest of it. -/
def withSign (negative : Bool) (magnitude : Nat) : Nat :=
  if negative then f.signWeight + magnitude else magnitude

/-- The units of a finite word without sign: a normal word has a hidden
    leading bit, and each further exponent doubles it. -/
def unitsOf (magnitude : Nat) : Nat :=
  let field := magnitude >>> f.fraction
  if field = 0 then magnitude
  else (1 <<< f.fraction + magnitude % (1 <<< f.fraction)) <<< (field - 1)

/-- What the word `bits` stands for. -/
def decode (bits : Nat) : Datum :=
  let negative := decide (f.signWeight ≤ bits)
  let magnitude := bits % f.signWeight
  if f.infinity < magnitude then .nan
  else if magnitude = f.infinity then .infinite negative
  else .finite negative (f.unitsOf magnitude)

/-- The word, without sign, nearest to `num / den` units. -/
def roundUnits (num den : Nat) : Nat :=
  let shift := (num / den).log2 - f.fraction
  min (roundHalfEven num (den <<< shift) + shift <<< f.fraction) f.infinity

/-- A NaN with its quiet bit set. -/
def quiet (bits : Nat) : Nat := bits ||| f.quietBit

/-! ## Operations -/

/-- The word nearest to `num / den`, with a sign. -/
def ofRatio (negative : Bool) (num den : Nat) : Nat :=
  f.withSign negative (f.roundUnits (num <<< f.unitPlaces) den)

/-- The word nearest to a natural number. -/
def ofNat (n : Nat) : Nat := f.ofRatio false n 1

/-- The word nearest to an integer. -/
def ofInt (n : Int) : Nat := f.ofRatio (decide (n < 0)) n.natAbs 1

/-- The sum.  Two zeros of unlike sign, and two opposite numbers, give the
    positive zero. -/
def add (a b : Nat) : Nat :=
  match f.decode a, f.decode b with
  | .nan, _ => f.quiet a
  | _, .nan => f.quiet b
  | .infinite s, .infinite t => if s = t then a else f.invalid
  | .infinite _, .finite .. => a
  | .finite .., .infinite _ => b
  | .finite s m, .finite t n =>
    if s = t then f.withSign s (f.roundUnits (m + n) 1)
    else if m = n then 0
    else if n < m then f.withSign s (f.roundUnits (m - n) 1)
    else f.withSign t (f.roundUnits (n - m) 1)

/-- The product. -/
def mul (a b : Nat) : Nat :=
  match f.decode a, f.decode b with
  | .nan, _ => f.quiet a
  | _, .nan => f.quiet b
  | .infinite s, .infinite t => f.withSign (s != t) f.infinity
  | .infinite s, .finite t n => if n = 0 then f.invalid else f.withSign (s != t) f.infinity
  | .finite s m, .infinite t => if m = 0 then f.invalid else f.withSign (s != t) f.infinity
  | .finite s m, .finite t n => f.withSign (s != t) (f.roundUnits (m * n) (1 <<< f.unitPlaces))

/-- The quotient. -/
def div (a b : Nat) : Nat :=
  match f.decode a, f.decode b with
  | .nan, _ => f.quiet a
  | _, .nan => f.quiet b
  | .infinite _, .infinite _ => f.invalid
  | .infinite s, .finite t _ => f.withSign (s != t) f.infinity
  | .finite s _, .infinite t => f.withSign (s != t) 0
  | .finite s m, .finite t n =>
    if n = 0 then if m = 0 then f.invalid else f.withSign (s != t) f.infinity
    else f.withSign (s != t) (f.roundUnits (m <<< f.unitPlaces) n)

/-- The word of the format `g` nearest to a word of the format `f`.  A NaN
    keeps its sign and the leading part of its fraction, quieted. -/
def convert (g : Format) (bits : Nat) : Nat :=
  match f.decode bits with
  | .nan =>
    let fraction := ((bits % (1 <<< f.fraction)) <<< g.fraction) >>> f.fraction
    g.quiet (g.withSign (decide (f.signWeight ≤ bits)) (g.infinity + fraction))
  | .infinite s => g.withSign s g.infinity
  | .finite s units => g.ofRatio s units (1 <<< f.unitPlaces)

end Format

end TickEngine
