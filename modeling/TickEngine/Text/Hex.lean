/-
  Numbers and bytes as lower-case hexadecimal text.

  * `fixed` writes a number in a fixed number of digits, `value?` reads one;
  * `ofBytes` and `bytes?` write and read two digits for each byte.
-/
namespace TickEngine.Hex

/-- The digit of a number below sixteen. -/
def digit (n : Nat) : Char :=
  if n < 10 then Char.ofNat (48 + n) else Char.ofNat (87 + n)

/-- The number of a digit, in either case. -/
def digit? (c : Char) : Option Nat :=
  let n := c.toNat
  if 48 ≤ n ∧ n ≤ 57 then some (n - 48)
  else if 97 ≤ n ∧ n ≤ 102 then some (n - 87)
  else if 65 ≤ n ∧ n ≤ 70 then some (n - 55)
  else none

/-- The last `places` digits of `n`, most significant first. -/
def digits : (places n : Nat) → List Char
  | 0, _ => []
  | places + 1, n => digits places (n / 16) ++ [digit (n % 16)]

/-- The text of `n` in exactly `places` digits. -/
def fixed (places n : Nat) : String := String.ofList (digits places n)

/-- The number that a list of digits spells. -/
def value? (cs : List Char) : Option Nat :=
  cs.foldlM (fun n c => (digit? c).map (16 * n + ·)) 0

/-- Two digits for each byte. -/
def ofBytes (bytes : List UInt8) : String :=
  String.ofList (bytes.flatMap fun b => digits 2 b.toNat)

/-- The bytes that pairs of digits spell. -/
def bytes? : List Char → Option (List UInt8)
  | [] => some []
  | [_] => none
  | high :: low :: rest => do
    let n ← value? [high, low]
    let bytes ← bytes? rest
    return UInt8.ofNat n :: bytes

@[simp] theorem length_digits (places n : Nat) : (digits places n).length = places := by
  induction places generalizing n with
  | zero => rfl
  | succ places ih => simp [digits, ih]

end TickEngine.Hex
