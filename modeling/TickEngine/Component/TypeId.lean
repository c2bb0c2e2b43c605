/-
  The identifier of a component type, a hash of the type's name.

  The hash is the 64-bit FNV-1a hash of the name's UTF-8 bytes, so it depends
  on the name alone: `TypeId.mixAll` folds `TypeId.mix` over the bytes, and
  `TypeId.ofName` starts it on a name.  Lists of identifiers are kept ascending
  and without repeats by `TypeId.place`.
-/
import TickEngine.Order.Search
import TickEngine.Text.Hex

namespace TickEngine

/-- The identifier of a component type. -/
structure TypeId where
  /-- The hash of the type's name. -/
  hash : UInt64
  deriving DecidableEq, Repr, Inhabited

namespace TypeId

/-- The hash of the empty name. -/
def basis : UInt64 := 0xcbf29ce484222325

/-- The factor of each round. -/
def prime : UInt64 := 0x100000001b3

/-- One round: the byte enters by exclusive or, and the product wraps. -/
def mix (hash : UInt64) (byte : UInt8) : UInt64 := (hash ^^^ byte.toUInt64) * prime

/-- The hash of a byte sequence, from the state `hash`. -/
def mixAll (hash : UInt64) (bytes : List UInt8) : UInt64 := bytes.foldl mix hash

/-- The identifier of the type called `name`. -/
def ofName (name : String) : TypeId := ⟨mixAll basis name.toUTF8.toList⟩

instance : Ranked TypeId where
  rank t := t.hash.toNat
  rank_injective := fun {a b} h => by
    obtain ⟨a⟩ := a
    obtain ⟨b⟩ := b
    exact congrArg mk (UInt64.toNat_inj.1 h)

/-- The text of an identifier: sixteen hexadecimal digits. -/
protected def toString (t : TypeId) : String := "0x" ++ Hex.fixed 16 t.hash.toNat

instance : ToString TypeId := ⟨TypeId.toString⟩

/-- Puts an identifier at its place in an ascending list, once. -/
def place (t : TypeId) (ts : List TypeId) : List TypeId :=
  match Spot.search t ts with
  | .found _ => ts
  | .missing i => ts.insertIdx i t

theorem mixAll_append (hash : UInt64) (bs cs : List UInt8) :
    mixAll hash (bs ++ cs) = mixAll (mixAll hash bs) cs := List.foldl_append

end TypeId

end TickEngine
