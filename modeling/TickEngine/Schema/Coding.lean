/-
  Data as MessagePack items.

  `Shape.toValue?` gives the item of data, in one of two layouts for records:
  a map from field names, or an array in field order.  `Shape.ofValue?` reads
  data from an item, and is more generous than the writer:

  * a number may have any marker that holds it, and a floating-point number
    may be whole;
  * a record may be an array of exactly its fields, a map whose keys name
    fields or give their positions, or a byte string with one byte for each
    field.  A map may hold unknown fields, which are skipped unless they nest
    too deep; it must not repeat a field, and may leave out only an optional
    one;
  * a variant may be named or given by position, alone if it is bare, or as
    the one key of a map to its content.

  `Shape.encode?` and `Shape.decode?` join this to the bytes of items;
  `decode?` ignores bytes after the item.
-/
import TickEngine.MessagePack.Reader
import TickEngine.Schema.Shape

namespace TickEngine.Schema

open MessagePack (Value Bytes)

/-- How a record is written. -/
inductive Layout where
  /-- A map from the names of the fields. -/
  | named
  /-- An array in the order of the fields. -/
  | positional
  deriving DecidableEq, Repr

/-! ## Whole numbers -/

/-- The item of a whole number: an unsigned marker unless it is negative. -/
def ofInteger (n : Int) : Value :=
  if n < 0 then .signed (.ofInt n) else .unsigned (.ofNat n.toNat)

/-- The unsigned number of a width that equals `n`. -/
def unsigned? (w : Width) (n : Int) : Option (BitVec w.bits) :=
  let x := BitVec.ofInt w.bits n
  if (x.toNat : Int) = n then some x else none

/-- The signed number of a width that equals `n`. -/
def signed? (w : Width) (n : Int) : Option (BitVec w.bits) :=
  let x := BitVec.ofInt w.bits n
  if x.toInt = n then some x else none

/-! ## Writing -/

mutual

/-- The item of data, if the data has one. -/
def Shape.toValue? (layout : Layout) : (s : Shape) → s.Carrier → Option Value
  | .unit, _ => some .unit
  | .bool, b => some (.bool b)
  | .falseOnly, b => if b then none else some (.bool false)
  | .unsigned _, n => some (ofInteger n.toNat)
  | .signed _, n => some (ofInteger n.toInt)
  | .single, x => some (.single x)
  | .text, t => some (.ofString t)
  | .newtype s, x => s.toValue? layout x
  | .option _, none => some .nil
  | .option s, some x => s.toValue? layout x
  | .list s, xs => (xs.mapM (s.toValue? layout)).map .ofList
  | .record fs, x => fs.toValue? layout x
  | .choice vs, x => vs.toValue? layout x

/-- The items of the fields of a record, in order. -/
def Fields.items? (layout : Layout) : (fs : Fields) → fs.Carrier → Option (List Value)
  | .nil, _ => some []
  | .cons _ s rest, (x, xs) => do
    let v ← s.toValue? layout x
    let vs ← rest.items? layout xs
    return v :: vs

/-- The item of a record. -/
def Fields.toValue? (layout : Layout) (fs : Fields) (x : fs.Carrier) : Option Value :=
  (fs.items? layout x).map fun items =>
    match layout with
    | .named => .map ((fs.names.map Value.ofString).zip items)
    | .positional => .ofList items

/-- The item of one of the variants. -/
def Variants.toValue? (layout : Layout) : (vs : Variants) → vs.Carrier → Option Value
  | .bare name _, .inl _ => some (.ofString name)
  | .bare _ rest, .inr x => rest.toValue? layout x
  | .record name fs _, .inl x => (fs.toValue? layout x).map fun v => .map [(.ofString name, v)]
  | .record _ _ rest, .inr x => rest.toValue? layout x

end

/-! ## Reading -/

/-- Reads data from one byte of a byte string, which can only be a number. -/
def Shape.ofByte? : (s : Shape) → UInt8 → Option s.Carrier
  | .unsigned w, b => unsigned? w b.toNat
  | .signed w, b => signed? w b.toNat
  | .single, b => some (.ofInt b.toNat)
  | _, _ => none

/-- Reads one field from each leading byte of a byte string. -/
def Fields.ofBytes? : (fs : Fields) → Bytes → Option fs.Carrier
  | .nil, _ => some ()
  | .cons .., [] => none
  | .cons _ s rest, b :: bytes => do
    let x ← s.ofByte? b
    let xs ← rest.ofBytes? bytes
    return (x, xs)

/-- The data of a field that a map leaves out. -/
def Shape.missing? : (s : Shape) → Option s.Carrier
  | .option _ => some none
  | _ => none

/-- The levels that an item may have.  Each list and record on the way to a
    skipped field takes one of them, the map around a variant takes none, and
    the field must nest no deeper than what is left. -/
def levelLimit : Nat := 1023

mutual

/-- Reads data from an item.  Skipped fields inside have `room` levels less
    those of the lists and records around them. -/
def Shape.ofValue? : (s : Shape) → (room : Nat) → Value → Option s.Carrier
  | .unit, _, v =>
    match v with
    | .nil | .unit => some ()
    | _ => none
  | .bool, _, v | .falseOnly, _, v =>
    match v with
    | .bool b => some b
    | _ => none
  | .unsigned w, _, v => v.integer?.bind (unsigned? w)
  | .signed w, _, v => v.integer?.bind (signed? w)
  | .single, _, v => v.single?
  | .text, _, v => v.string?
  | .newtype s, room, v => s.ofValue? room v
  | .option s, room, v =>
    match v with
    | .nil => some none
    | v => (s.ofValue? room v).map some
  | .list s, room, v =>
    match v with
    | .unit => some []
    | .array items => items.mapM (s.ofValue? (room - 1))
    | .binary bytes => bytes.mapM s.ofByte?
    | _ => none
  | .record fs, room, v => fs.ofValue? room v
  | .choice vs, room, v =>
    match v with
    | .map [(key, content)] => vs.ofKey? room 0 key (some content)
    | .map _ => none
    | key => vs.ofKey? room 0 key none

/-- Reads a record from an item. -/
def Fields.ofValue? (fs : Fields) (room : Nat) : Value → Option fs.Carrier
  | .unit => fs.ofItems? (room - 1) []
  | .array items => fs.ofItems? (room - 1) items
  | .binary bytes => fs.ofBytes? bytes
  | .map entries =>
    if entries.all (·.1.isKey) then fs.ofEntries? (room - 1) 0 entries else none
  | _ => none

/-- Reads one field from each item, and leaves no item over. -/
def Fields.ofItems? : (fs : Fields) → (room : Nat) → List Value → Option fs.Carrier
  | .nil, _, [] => some ()
  | .nil, _, _ :: _ => none
  | .cons .., _, [] => none
  | .cons _ s rest, room, v :: items => do
    let x ← s.ofValue? room v
    let xs ← rest.ofItems? room items
    return (x, xs)

/-- Reads the fields from `position` on out of the entries of a map, and skips
    the entries that are left over. -/
def Fields.ofEntries? : (fs : Fields) → (room position : Nat) → List (Value × Value) →
    Option fs.Carrier
  | .nil, room, _, entries => if entries.all (·.2.levels ≤ room) then some () else none
  | .cons name s rest, room, position, entries => do
    let x ←
      match entries.filter (fun e => e.1.names name position) with
      | [] => s.missing?
      | [(_, v)] => s.ofValue? room v
      | _ => none
    let others := entries.filter (fun e => !e.1.names name position)
    let xs ← rest.ofEntries? room (position + 1) others
    return (x, xs)

/-- Reads the variant that `key` names, among those from `position` on. -/
def Variants.ofKey? : (vs : Variants) → (room position : Nat) → (key : Value) →
    (content : Option Value) → Option vs.Carrier
  | .nil, _, _, _, _ => none
  | .bare name rest, room, position, key, content =>
    if key.names name position then
      match content with
      | none | some .nil => some (.inl ())
      | some _ => none
    else (rest.ofKey? room (position + 1) key content).map .inr
  | .record name fs rest, room, position, key, content =>
    if key.names name position then (content.bind (fs.ofValue? room)).map .inl
    else (rest.ofKey? room (position + 1) key content).map .inr

end

/-! ## Bytes -/

/-- The bytes of data, if the data has a written form. -/
def Shape.encode? (layout : Layout) (s : Shape) (x : s.Carrier) : Option Bytes :=
  (s.toValue? layout x).map Value.write

/-- Reads data from the first item of some bytes. -/
def Shape.decode? (s : Shape) (bytes : Bytes) : Option s.Carrier :=
  (Value.read bytes).bind fun (v, _) => s.ofValue? levelLimit v

end TickEngine.Schema
