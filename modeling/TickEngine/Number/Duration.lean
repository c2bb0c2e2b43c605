/-
  Spans of time, in whole nanoseconds.

  * `Duration.ofSeconds?` rounds a number of seconds to the nearest
    nanosecond, a half to the even neighbour, and has no answer for a number
    that is negative, not finite, or `2 ^ 64` seconds and more;
  * `Duration.toSeconds` is the number of seconds again, which rounds.
-/
import TickEngine.Number.Real

namespace TickEngine

/-- A span of time. -/
structure Duration where
  /-- The whole seconds. -/
  seconds : UInt64
  /-- The nanoseconds beyond them. -/
  nanos : Nat
  nanos_lt : nanos < 1000000000 := by omega
  deriving DecidableEq, Repr

namespace Duration

/-- The span of no time. -/
def zero : Duration := ⟨0, 0, by omega⟩

/-- The nanoseconds in one second. -/
def nanosPerSecond : Nat := 1000000000

/-- The span of `n` nanoseconds, if its seconds fit a word. -/
def ofNanos? (n : Nat) : Option Duration :=
  if n / 1000000000 < UInt64.size then
    some ⟨UInt64.ofNat (n / 1000000000), n % 1000000000, Nat.mod_lt _ (by decide)⟩
  else none

/-- The span nearest to a number of seconds. -/
def ofSeconds? (x : Double) : Option Duration :=
  match x.datum with
  | .finite negative units =>
    if negative ∧ units ≠ 0 then none
    else ofNanos? (roundHalfEven (units * nanosPerSecond) (1 <<< Format.double.unitPlaces))
  | _ => none

/-- The number of seconds in a span. -/
def toSeconds (d : Duration) : Double :=
  Double.ofNat d.seconds.toNat + Double.ofNat d.nanos / Double.ofNat nanosPerSecond

end Duration

end TickEngine
