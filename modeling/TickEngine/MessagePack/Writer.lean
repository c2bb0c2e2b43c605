/-
  The bytes of MessagePack items.

  An item is a `Head`, which is its marker with the number or length that the
  marker carries, followed by the bytes or items that the head announces.
  `Head.write` picks the shortest marker that fits; `Value.write` writes an
  item.
-/
import TickEngine.MessagePack.Value

namespace TickEngine.MessagePack

/-- The last `places` bytes of `n`, most significant first. -/
def bigEndian : (places n : Nat) → Bytes
  | 0, _ => []
  | places + 1, n => bigEndian places (n / 256) ++ [UInt8.ofNat n]

/-- What an item says before its bytes or items. -/
inductive Head where
  | nil
  | bool (b : Bool)
  | unsigned (n : UInt64)
  | signed (n : Int64)
  | single (x : Single)
  | double (x : Double)
  | text (length : Nat)
  | binary (length : Nat)
  | unit
  | array (length : Nat)
  | map (length : Nat)
  | extension (kind : UInt8) (length : Nat)
  deriving DecidableEq, Repr

namespace Head

/-- A marker byte followed by a number in `places` bytes. -/
def marked (marker : Nat) (places n : Nat) : Bytes := UInt8.ofNat marker :: bigEndian places n

/-- The shortest marker for an unsigned number. -/
def writeUnsigned (n : Nat) : Bytes :=
  if n < 0x80 then [UInt8.ofNat n]
  else if n < 0x100 then marked 0xcc 1 n
  else if n < 0x10000 then marked 0xcd 2 n
  else if n < 0x100000000 then marked 0xce 4 n
  else marked 0xcf 8 n

/-- The shortest signed marker for a number, in two's complement. -/
def writeSigned (n : Int) : Bytes :=
  if -0x20 ≤ n ∧ n < 0 then [UInt8.ofNat (n + 0x100).toNat]
  else if -0x80 ≤ n ∧ n < 0x80 then marked 0xd0 1 (n % 0x100).toNat
  else if -0x8000 ≤ n ∧ n < 0x8000 then marked 0xd1 2 (n % 0x10000).toNat
  else if -0x80000000 ≤ n ∧ n < 0x80000000 then marked 0xd2 4 (n % 0x100000000).toNat
  else marked 0xd3 8 (n % 0x10000000000000000).toNat

/-- The shortest marker for a length that has a two-byte and a four-byte
    spelling. -/
def writeLength (marker : Nat) (n : Nat) : Bytes :=
  if n < 0x10000 then marked marker 2 n else marked (marker + 1) 4 n

def write : Head → Bytes
  | nil => [0xc0]
  | bool b => [if b then 0xc3 else 0xc2]
  | unsigned n => writeUnsigned n.toNat
  | signed n => writeSigned n.toInt
  | single x => marked 0xca 4 x.bits.toNat
  | double x => marked 0xcb 8 x.bits.toNat
  | text n =>
    if n < 0x20 then [UInt8.ofNat (0xa0 + n)]
    else if n < 0x100 then marked 0xd9 1 n
    else writeLength 0xda n
  | binary n => if n < 0x100 then marked 0xc4 1 n else writeLength 0xc5 n
  | unit => [0x90]
  | array n => if 0 < n ∧ n < 0x10 then [UInt8.ofNat (0x90 + n)] else writeLength 0xdc n
  | map n => if n < 0x10 then [UInt8.ofNat (0x80 + n)] else writeLength 0xde n
  | extension kind n =>
    if n = 1 then [0xd4, kind]
    else if n = 2 then [0xd5, kind]
    else if n = 4 then [0xd6, kind]
    else if n = 8 then [0xd7, kind]
    else if n = 16 then [0xd8, kind]
    else (if n < 0x100 then marked 0xc7 1 n else writeLength 0xc8 n) ++ [kind]

end Head

mutual

def Value.write : Value → Bytes
  | .nil => Head.nil.write
  | .bool b => (Head.bool b).write
  | .unsigned n => (Head.unsigned n).write
  | .signed n => (Head.signed n).write
  | .single x => (Head.single x).write
  | .double x => (Head.double x).write
  | .text bytes => (Head.text bytes.length).write ++ bytes
  | .binary bytes => (Head.binary bytes.length).write ++ bytes
  | .unit => Head.unit.write
  | .array items => (Head.array items.length).write ++ writeItems items
  | .map entries => (Head.map entries.length).write ++ writeEntries entries
  | .extension kind bytes => (Head.extension kind bytes.length).write ++ bytes

/-- The bytes of consecutive items. -/
def writeItems : List Value → Bytes
  | [] => []
  | v :: rest => v.write ++ writeItems rest

/-- The bytes of the entries of a map: each key before its value. -/
def writeEntries : List (Value × Value) → Bytes
  | [] => []
  | (k, v) :: rest => k.write ++ (v.write ++ writeEntries rest)

end

end TickEngine.MessagePack
