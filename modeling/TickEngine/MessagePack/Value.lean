/-
  MessagePack values.

  A `Value` is what one well-formed MessagePack item says, kept only as far as
  readers of items can tell two spellings apart: the width of a number or of a
  length is gone, but a whole number still knows whether its marker was an
  unsigned or a signed one, and the one-byte empty array, which also stands
  for the unit value, is told from longer spellings of the empty array.

  * `ofList` is the array of a list of values;
  * `integer?`, `single?` and `string?` read a value as a number, a
    floating-point number or a text, `isKey` and `names` as a key;
  * `levels` is how deep a value nests.
-/
import TickEngine.Number.Real

namespace TickEngine.MessagePack

/-- A sequence of bytes. -/
abbrev Bytes := List UInt8

/-- A MessagePack item. -/
inductive Value where
  | nil
  | bool (b : Bool)
  /-- A whole number under an unsigned marker. -/
  | unsigned (n : UInt64)
  /-- A whole number under a signed marker. -/
  | signed (n : Int64)
  | single (x : Single)
  | double (x : Double)
  /-- A text by its bytes, which need not be UTF-8. -/
  | text (bytes : Bytes)
  | binary (bytes : Bytes)
  /-- The one-byte empty array. -/
  | unit
  | array (items : List Value)
  | map (entries : List (Value × Value))
  | extension (kind : UInt8) (bytes : Bytes)
  deriving Repr, Inhabited

namespace Value

/-- The array of a list of values, in its shortest spelling. -/
def ofList : List Value → Value
  | [] => unit
  | items => array items

/-- The text value of a string. -/
def ofString (s : String) : Value := text s.toUTF8.toList

/-- The whole number that a value holds. -/
def integer? : Value → Option Int
  | unsigned n => some n.toNat
  | signed n => some n.toInt
  | _ => none

/-- The floating-point number that a value holds, rounded to the short
    format.  Whole numbers count. -/
def single? : Value → Option Single
  | single x => some x
  | double x => some x.toSingle
  | v => v.integer?.map Single.ofInt

/-- The string of a value: a text or binary whose bytes are UTF-8. -/
def string? : Value → Option String
  | text bytes | binary bytes => String.fromUTF8? ⟨bytes.toArray⟩
  | _ => none

/-- Whether a value can stand as the key of a field or variant: a name, or a
    position under an unsigned marker. -/
def isKey : Value → Bool
  | text _ | binary _ | unsigned _ => true
  | _ => false

/-- Whether a key stands for the field or variant called `name` at `position`. -/
def names (key : Value) (name : String) (position : Nat) : Bool :=
  match key with
  | text bytes | binary bytes => bytes = name.toUTF8.toList
  | unsigned n => n.toNat = position
  | _ => false

end Value

/-! ## Nesting -/

mutual

/-- How deep a value nests: the most arrays, maps and extensions of which each
    is inside the one before.  An empty array or map counts. -/
def Value.levels : Value → Nat
  | .unit | .extension .. => 1
  | .array items => levelsOfItems items + 1
  | .map entries => levelsOfEntries entries + 1
  | _ => 0

/-- How deep the deepest of some values nests. -/
def levelsOfItems : List Value → Nat
  | [] => 0
  | v :: rest => max v.levels (levelsOfItems rest)

/-- How deep the deepest key or value of some entries nests. -/
def levelsOfEntries : List (Value × Value) → Nat
  | [] => 0
  | (k, v) :: rest => max (max k.levels v.levels) (levelsOfEntries rest)

end

end TickEngine.MessagePack
