/-
  Reading MessagePack items.

  `Head.read` reads a marker with what it carries, in any of its spellings;
  the marker `c1`, which means nothing, is refused.  `Value.read` reads one
  item and gives back the bytes after it.  Truncated bytes give no item.
-/
import TickEngine.MessagePack.Writer

namespace TickEngine.MessagePack

/-! ## Parts of an item -/

/-- Splits off the first `n` bytes. -/
def takeBytes (n : Nat) (bytes : Bytes) : Option (Bytes × Bytes) :=
  let head := bytes.take n
  if head.length = n then some (head, bytes.drop n) else none

/-- The number that bytes spell, most significant first. -/
def ofBigEndian (bytes : Bytes) : Nat := bytes.foldl (fun n b => 256 * n + b.toNat) 0

/-- Reads a number of `places` bytes. -/
def takeNat (places : Nat) (bytes : Bytes) : Option (Nat × Bytes) :=
  (takeBytes places bytes).map fun (digits, rest) => (ofBigEndian digits, rest)

/-- The number whose two's complement in `places` bytes is `n`. -/
def ofTwosComplement (places n : Nat) : Int64 := .ofInt (BitVec.ofNat (8 * places) n).toInt

/-- Reads `n` consecutive items, each with `step`. -/
def readTimes {α : Type} (step : Bytes → Option (α × Bytes)) : Nat → Bytes → Option (List α × Bytes)
  | 0, bytes => some ([], bytes)
  | n + 1, bytes => do
    let (x, rest) ← step bytes
    let (xs, rest) ← readTimes step n rest
    return (x :: xs, rest)

namespace Head

/-- Reads a head whose marker is followed by a number of `places` bytes. -/
def carrying (places : Nat) (head : Nat → Head) (bytes : Bytes) : Option (Head × Bytes) :=
  (takeNat places bytes).map fun (n, rest) => (head n, rest)

/-- Reads the kind of an extension of a known length. -/
def kindOf (length : Nat) : Bytes → Option (Head × Bytes)
  | [] => none
  | kind :: rest => some (extension kind length, rest)

/-- Reads the length, then the kind of an extension. -/
def lengthThenKind (places : Nat) (bytes : Bytes) : Option (Head × Bytes) := do
  let (n, rest) ← takeNat places bytes
  kindOf n rest

/-- Reads what follows a marker from `c0` to `df`. -/
def readMarked (marker : Nat) (rest : Bytes) : Option (Head × Bytes) :=
  match marker with
  | 0xc0 => some (nil, rest)
  | 0xc2 => some (bool false, rest)
  | 0xc3 => some (bool true, rest)
  | 0xc4 => carrying 1 binary rest
  | 0xc5 => carrying 2 binary rest
  | 0xc6 => carrying 4 binary rest
  | 0xc7 => lengthThenKind 1 rest
  | 0xc8 => lengthThenKind 2 rest
  | 0xc9 => lengthThenKind 4 rest
  | 0xca => carrying 4 (fun n => single (.ofBits n)) rest
  | 0xcb => carrying 8 (fun n => double (.ofBits n)) rest
  | 0xcc => carrying 1 (fun n => unsigned (.ofNat n)) rest
  | 0xcd => carrying 2 (fun n => unsigned (.ofNat n)) rest
  | 0xce => carrying 4 (fun n => unsigned (.ofNat n)) rest
  | 0xcf => carrying 8 (fun n => unsigned (.ofNat n)) rest
  | 0xd0 => carrying 1 (fun n => signed (ofTwosComplement 1 n)) rest
  | 0xd1 => carrying 2 (fun n => signed (ofTwosComplement 2 n)) rest
  | 0xd2 => carrying 4 (fun n => signed (ofTwosComplement 4 n)) rest
  | 0xd3 => carrying 8 (fun n => signed (ofTwosComplement 8 n)) rest
  | 0xd4 => kindOf 1 rest
  | 0xd5 => kindOf 2 rest
  | 0xd6 => kindOf 4 rest
  | 0xd7 => kindOf 8 rest
  | 0xd8 => kindOf 16 rest
  | 0xd9 => carrying 1 text rest
  | 0xda => carrying 2 text rest
  | 0xdb => carrying 4 text rest
  | 0xdc => carrying 2 array rest
  | 0xdd => carrying 4 array rest
  | 0xde => carrying 2 map rest
  | 0xdf => carrying 4 map rest
  | _ => none

def read : Bytes → Option (Head × Bytes)
  | [] => none
  | marker :: rest =>
    let m := marker.toNat
    if m < 0x80 then some (unsigned (.ofNat m), rest)
    else if m < 0x90 then some (map (m - 0x80), rest)
    else if m = 0x90 then some (unit, rest)
    else if m < 0xa0 then some (array (m - 0x90), rest)
    else if m < 0xc0 then some (text (m - 0xa0), rest)
    else if m < 0xe0 then readMarked m rest
    else some (signed (.ofInt (m - 0x100)), rest)

end Head

/-! ## Items -/

/-- Reads a key and its value. -/
def readEntry (item : Bytes → Option (Value × Bytes)) (bytes : Bytes) :
    Option ((Value × Value) × Bytes) := do
  let (k, rest) ← item bytes
  let (v, rest) ← item rest
  return ((k, v), rest)

/-- Reads what a head announces, with `item` for the items inside. -/
def Head.readBody (item : Bytes → Option (Value × Bytes)) (head : Head) (bytes : Bytes) :
    Option (Value × Bytes) :=
  match head with
  | .nil => some (.nil, bytes)
  | .bool b => some (.bool b, bytes)
  | .unsigned n => some (.unsigned n, bytes)
  | .signed n => some (.signed n, bytes)
  | .single x => some (.single x, bytes)
  | .double x => some (.double x, bytes)
  | .text n => (takeBytes n bytes).map fun (b, rest) => (.text b, rest)
  | .binary n => (takeBytes n bytes).map fun (b, rest) => (.binary b, rest)
  | .unit => some (.unit, bytes)
  | .array n => (readTimes item n bytes).map fun (vs, rest) => (.array vs, rest)
  | .map n => (readTimes (readEntry item) n bytes).map fun (es, rest) => (.map es, rest)
  | .extension kind n => (takeBytes n bytes).map fun (b, rest) => (.extension kind b, rest)

/-- Reads an item nested less than `depth` deep. -/
def Value.readNested : (depth : Nat) → Bytes → Option (Value × Bytes)
  | 0, _ => none
  | depth + 1, bytes => do
    let (head, rest) ← Head.read bytes
    head.readBody (readNested depth) rest

/-- Reads one item, and gives the bytes after it.  An item is nested less deep
    than it is long. -/
def Value.read (bytes : Bytes) : Option (Value × Bytes) := readNested bytes.length bytes

end TickEngine.MessagePack
