/-
  The two kinds of floating-point number that components and clocks hold.

  `Single` and `Double` are words of the two formats.  A word is kept bit for
  bit until an operation computes with it, so equality of values is equality
  of words; the comparison of numbers is `Double.same`.
-/
import TickEngine.Number.Ieee

namespace TickEngine

/-- A 32-bit floating-point number. -/
structure Single where
  /-- The number's word. -/
  bits : UInt32
  deriving DecidableEq, Repr, Inhabited

/-- A 64-bit floating-point number. -/
structure Double where
  /-- The number's word. -/
  bits : UInt64
  deriving DecidableEq, Repr, Inhabited

namespace Single

/-- The number of a word given as a natural number. -/
def ofBits (bits : Nat) : Single := ⟨UInt32.ofNat bits⟩

/-- The nearest number to an integer. -/
def ofInt (n : Int) : Single := ofBits (Format.single.ofInt n)

instance : Add Single := ⟨fun a b => ofBits (Format.single.add a.bits.toNat b.bits.toNat)⟩

instance : Mul Single := ⟨fun a b => ofBits (Format.single.mul a.bits.toNat b.bits.toNat)⟩

end Single

namespace Double

/-- The number of a word given as a natural number. -/
def ofBits (bits : Nat) : Double := ⟨UInt64.ofNat bits⟩

/-- The nearest number to a natural number. -/
def ofNat (n : Nat) : Double := ofBits (Format.double.ofNat n)

instance : Add Double := ⟨fun a b => ofBits (Format.double.add a.bits.toNat b.bits.toNat)⟩

instance : Div Double := ⟨fun a b => ofBits (Format.double.div a.bits.toNat b.bits.toNat)⟩

/-- What the number stands for. -/
def datum (x : Double) : Datum := Format.double.decode x.bits.toNat

/-- The nearest number of the short format. -/
def toSingle (x : Double) : Single := .ofBits (Format.double.convert .single x.bits.toNat)

/-- Whether the number is a NaN. -/
def isNaN (x : Double) : Bool := x.datum = .nan

/-- The comparison of numbers: a NaN differs from itself, and the two zeros
    are the same. -/
def same (x y : Double) : Bool :=
  match x.datum, y.datum with
  | .nan, _ | _, .nan => false
  | .finite _ 0, .finite _ 0 => true
  | a, b => a = b

/-- The units of a number that is finite and greater than zero. -/
def positiveUnits? (x : Double) : Option Nat :=
  match x.datum with
  | .finite false units => if units = 0 then none else some units
  | _ => none

end Double

end TickEngine
