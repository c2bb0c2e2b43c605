/-
  One item, read back from its bytes.

  Heads come in several widths, and a value is a head with what it announces:
  text, a run of items or a run of pairs.  The reader sees how far an item goes
  from the item alone, so it stops where the item stops, and on less than an
  item it has no answer.

  * `Value.read_write`: a value written and read leaves what came after it.
  * `Value.read_of_strictPrefix`: no part of a written value can be read.
-/
import Mathlib
import TickEngine.MessagePack.Reader

namespace TickEngine.MessagePack

/-! ## Numbers and bytes -/

theorem length_bigEndian (places n : Nat) : (bigEndian places n).length = places := by
  induction places generalizing n with
  | zero => rfl
  | succ places ih => simp [bigEndian, ih]

theorem ofBigEndian_concat (bytes : Bytes) (b : UInt8) :
    ofBigEndian (bytes ++ [b]) = 256 * ofBigEndian bytes + b.toNat := by
  simp [ofBigEndian, List.foldl_append]

theorem ofBigEndian_bigEndian (places n : Nat) :
    ofBigEndian (bigEndian places n) = n % 256 ^ places := by
  induction places generalizing n with
  | zero => simp [bigEndian, ofBigEndian, Nat.mod_one]
  | succ places ih =>
    have hdigit : (UInt8.ofNat n).toNat = n % 256 := UInt8.toNat_ofNat'
    rw [bigEndian, ofBigEndian_concat, ih, hdigit, Nat.pow_succ, Nat.mul_comm (256 ^ places) 256,
      Nat.mod_mul]
    omega

theorem takeBytes_append {n : Nat} {front : Bytes} (h : front.length = n) (rest : Bytes) :
    takeBytes n (front ++ rest) = some (front, rest) := by
  subst h
  simp [takeBytes]

theorem takeNat_bigEndian {places n : Nat} (h : n < 256 ^ places) (rest : Bytes) :
    takeNat places (bigEndian places n ++ rest) = some (n, rest) := by
  simp only [takeNat, takeBytes_append (length_bigEndian places n), Option.map_some,
    ofBigEndian_bigEndian, Nat.mod_eq_of_lt h]

theorem ofTwosComplement_toInt {places : Nat} {n : Int64} (hp : 0 < places)
    (h : -2 ^ (8 * places - 1) ≤ n.toInt) (h' : n.toInt < 2 ^ (8 * places - 1)) :
    ofTwosComplement places (n.toInt % 2 ^ (8 * places)).toNat = n := by
  have hpow : (2 : Int) ^ (8 * places) ≠ 0 := Int.ne_of_gt (Int.pow_pos (by decide))
  have hlt : n.toInt % 2 ^ (8 * places) < 2 ^ (8 * places) :=
    Int.emod_lt_of_pos _ (Int.pow_pos (by decide))
  have hword : BitVec.ofNat (8 * places) (n.toInt % 2 ^ (8 * places)).toNat =
      BitVec.ofInt (8 * places) n.toInt := by
    apply BitVec.eq_of_toNat_eq
    rw [BitVec.toNat_ofNat, BitVec.toNat_ofInt, Nat.mod_eq_of_lt]
    · rfl
    · exact (Int.toNat_lt (Int.emod_nonneg _ hpow)).2 (by simpa using hlt)
  rw [ofTwosComplement, hword, BitVec.toInt_ofInt_eq_self (by omega) h h', Int64.ofInt_toInt]

theorem toNat_byte {n : Nat} (h : n < 256) : (UInt8.ofNat n).toNat = n :=
  UInt8.toNat_ofNat_of_lt' h

namespace Head

theorem read_marked {marker : Nat} (h : 0xc0 ≤ marker) (h' : marker < 0xe0) (places n : Nat)
    (rest : Bytes) :
    read (marked marker places n ++ rest) = readMarked marker (bigEndian places n ++ rest) := by
  have hm := toNat_byte (by omega : marker < 256)
  simp only [marked, List.cons_append, read, hm]
  rw [if_neg (by omega), if_neg (by omega), if_neg (by omega), if_neg (by omega), if_neg (by omega),
    if_pos h']

theorem carrying_bigEndian {places n : Nat} (h : n < 256 ^ places) (head : Nat → Head)
    (rest : Bytes) :
    carrying places head (bigEndian places n ++ rest) = some (head n, rest) := by
  rw [carrying, takeNat_bigEndian h]
  rfl

theorem lengthThenKind_bigEndian {places n : Nat} (h : n < 256 ^ places) (kind : UInt8)
    (rest : Bytes) :
    lengthThenKind places (bigEndian places n ++ kind :: rest) = some (extension kind n, rest) := by
  rw [lengthThenKind, takeNat_bigEndian h]
  rfl

/-- Heads whose length has a spelling. -/
def Fits : Head → Prop
  | text n | binary n | array n | map n | extension _ n => n < 2 ^ 32
  | _ => True

theorem read_writeUnsigned (n : UInt64) (rest : Bytes) :
    read (writeUnsigned n.toNat ++ rest) = some (unsigned n, rest) := by
  have hn : UInt64.ofNat n.toNat = n := UInt64.ofNat_toNat
  have hlt := n.toNat_lt
  unfold writeUnsigned
  split
  · rename_i h
    have hbyte := toNat_byte (by omega : n.toNat < 256)
    simp only [List.cons_append, List.nil_append, read, hbyte, if_pos h, hn]
  split
  · rename_i h
    rw [read_marked (by decide) (by decide), readMarked, carrying_bigEndian (by omega), hn]
  split
  · rename_i h
    rw [read_marked (by decide) (by decide), readMarked, carrying_bigEndian (by omega), hn]
  split
  · rename_i h
    rw [read_marked (by decide) (by decide), readMarked, carrying_bigEndian (by omega), hn]
  · rw [read_marked (by decide) (by decide), readMarked, carrying_bigEndian (by omega), hn]

/-- Two's complement in enough places gives the number back. -/
theorem carrying_signed {places : Nat} {modulus : Int} {n : Int64} (hp : 0 < places)
    (hm : modulus = 2 ^ (8 * places)) (h : -modulus ≤ 2 * n.toInt) (h' : 2 * n.toInt < modulus)
    (rest : Bytes) :
    carrying places (fun m => signed (ofTwosComplement places m))
      (bigEndian places (n.toInt % modulus).toNat ++ rest) = some (signed n, rest) := by
  have hpos : 0 < modulus := hm ▸ Int.pow_pos (by decide)
  have hhalf : modulus = 2 * 2 ^ (8 * places - 1) := by
    rw [hm, ← Int.pow_succ']
    congr 1
    omega
  have hfits : (n.toInt % modulus).toNat < 256 ^ places := by
    rw [Int.toNat_lt (Int.emod_nonneg _ (by omega))]
    have hlt := Int.emod_lt_of_pos n.toInt hpos
    have hpow : ((256 ^ places : Nat) : Int) = modulus := by
      rw [hm, Int.pow_mul]
      norm_cast
    omega
  rw [carrying_bigEndian hfits, hm, ofTwosComplement_toInt hp (by omega) (by omega)]

theorem read_writeSigned (n : Int64) (rest : Bytes) :
    read (writeSigned n.toInt ++ rest) = some (signed n, rest) := by
  have hle := n.le_toInt
  have hlt := n.toInt_lt
  unfold writeSigned
  split
  · rename_i h
    have hbyte := toNat_byte (by omega : (n.toInt + 0x100).toNat < 256)
    have hcast : (((n.toInt + 0x100).toNat : Int) - 0x100) = n.toInt := by omega
    simp only [List.cons_append, List.nil_append, read, hbyte]
    rw [if_neg (by omega), if_neg (by omega), if_neg (by omega), if_neg (by omega),
      if_neg (by omega), if_neg (by omega), hcast, Int64.ofInt_toInt]
  split
  · rw [read_marked (by decide) (by decide), readMarked]
    exact carrying_signed (by decide) (by decide) (by omega) (by omega) rest
  split
  · rw [read_marked (by decide) (by decide), readMarked]
    exact carrying_signed (by decide) (by decide) (by omega) (by omega) rest
  split
  · rw [read_marked (by decide) (by decide), readMarked]
    exact carrying_signed (by decide) (by decide) (by omega) (by omega) rest
  · rw [read_marked (by decide) (by decide), readMarked]
    exact carrying_signed (by decide) (by decide) (by omega) (by omega) rest

/-- A length reads back from its two-byte and from its four-byte spelling. -/
theorem read_writeLength (marker : Nat) (body : Nat → Bytes → Option (Head × Bytes)) {n : Nat}
    (hn : n < 2 ^ 32) (h : 0xc0 ≤ marker) (h' : marker + 1 < 0xe0)
    (hmarker : readMarked marker = body 2) (hnext : readMarked (marker + 1) = body 4)
    {rest : Bytes} {result : Option (Head × Bytes)}
    (hbody : ∀ {places}, n < 256 ^ places → body places (bigEndian places n ++ rest) = result) :
    read (writeLength marker n ++ rest) = result := by
  unfold writeLength
  split
  · rw [read_marked h (by omega), hmarker, hbody (by omega)]
  · rw [read_marked (by omega) h', hnext, hbody (by omega)]

theorem read_writeLength_carrying (marker : Nat) (head : Nat → Head) {n : Nat} (hn : n < 2 ^ 32)
    (h : 0xc0 ≤ marker) (h' : marker + 1 < 0xe0) (hmarker : readMarked marker = carrying 2 head)
    (hnext : readMarked (marker + 1) = carrying 4 head) (rest : Bytes) :
    read (writeLength marker n ++ rest) = some (head n, rest) :=
  read_writeLength marker (carrying · head) hn h h' hmarker hnext fun hn =>
    carrying_bigEndian hn head rest

theorem read_single_byte {m : Nat} (hm : m < 256) (rest : Bytes) :
    read (UInt8.ofNat m :: rest) =
    if m < 0x80 then some (unsigned (.ofNat m), rest)
    else if m < 0x90 then some (map (m - 0x80), rest)
    else if m = 0x90 then some (unit, rest)
    else if m < 0xa0 then some (array (m - 0x90), rest)
    else if m < 0xc0 then some (text (m - 0xa0), rest)
    else if m < 0xe0 then readMarked m rest
    else some (signed (.ofInt (m - 0x100)), rest) := by
  simp only [read, toNat_byte hm]

/-- **A head reads back**, and what comes after it is left alone. -/
theorem read_write {head : Head} (h : head.Fits) (rest : Bytes) :
    read (head.write ++ rest) = some (head, rest) := by
  cases head with
  | nil => rfl
  | bool b => cases b <;> rfl
  | unsigned n => exact read_writeUnsigned n rest
  | signed n => exact read_writeSigned n rest
  | single x =>
    rw [write, read_marked (by decide) (by decide), readMarked,
      carrying_bigEndian x.bits.toNat_lt, Single.ofBits, UInt32.ofNat_toNat]
  | double x =>
    rw [write, read_marked (by decide) (by decide), readMarked,
      carrying_bigEndian x.bits.toNat_lt, Double.ofBits, UInt64.ofNat_toNat]
  | unit => rfl
  | text n =>
    rw [write]
    split
    · rw [List.singleton_append, read_single_byte (by omega), if_neg (by omega), if_neg (by omega),
        if_neg (by omega), if_neg (by omega), if_pos (by omega), Nat.add_sub_cancel_left]
    split
    · rw [read_marked (by decide) (by decide), readMarked, carrying_bigEndian (by omega)]
    · exact read_writeLength_carrying 0xda text h (by decide) (by decide) rfl rfl rest
  | binary n =>
    rw [write]
    split
    · rw [read_marked (by decide) (by decide), readMarked, carrying_bigEndian (by omega)]
    · exact read_writeLength_carrying 0xc5 binary h (by decide) (by decide) rfl rfl rest
  | array n =>
    rw [write]
    split
    · rw [List.singleton_append, read_single_byte (by omega), if_neg (by omega), if_neg (by omega),
        if_neg (by omega), if_pos (by omega), Nat.add_sub_cancel_left]
    · exact read_writeLength_carrying 0xdc array h (by decide) (by decide) rfl rfl rest
  | map n =>
    rw [write]
    split
    · rw [List.singleton_append, read_single_byte (by omega), if_neg (by omega), if_pos (by omega),
        Nat.add_sub_cancel_left]
    · exact read_writeLength_carrying 0xde map h (by decide) (by decide) rfl rfl rest
  | extension kind n =>
    rw [write]
    split
    · subst n
      rfl
    split
    · subst n
      rfl
    split
    · subst n
      rfl
    split
    · subst n
      rfl
    split
    · subst n
      rfl
    rw [List.append_assoc]
    split
    · rw [read_marked (by decide) (by decide), readMarked]
      exact lengthThenKind_bigEndian (by omega) kind rest
    · exact read_writeLength 0xc8 lengthThenKind h (by decide) (by decide) rfl rfl
        fun hn => lengthThenKind_bigEndian hn kind rest

theorem length_write_pos {head : Head} (h : head.Fits) : 0 < head.write.length := by
  rw [List.length_pos_iff]
  intro hnil
  have hread := read_write h []
  rw [hnil] at hread
  cases hread

end Head

/-! ## Items -/

mutual

/-- Every text, binary, array and map in a value is short enough for its length
    to have a spelling. -/
def Value.Sized : Value → Prop
  | .text bytes | .binary bytes | .extension _ bytes => bytes.length < 2 ^ 32
  | .array items => items.length < 2 ^ 32 ∧ SizedItems items
  | .map entries => entries.length < 2 ^ 32 ∧ SizedEntries entries
  | _ => True

/-- All of some values are sized. -/
def SizedItems : List Value → Prop
  | [] => True
  | v :: rest => v.Sized ∧ SizedItems rest

/-- All keys and values of some entries are sized. -/
def SizedEntries : List (Value × Value) → Prop
  | [] => True
  | (k, v) :: rest => k.Sized ∧ v.Sized ∧ SizedEntries rest

end

theorem sizedItems_iff {items : List Value} : SizedItems items ↔ ∀ v ∈ items, v.Sized := by
  induction items with
  | nil => simp [SizedItems]
  | cons v items ih => rw [SizedItems, ih, List.forall_mem_cons]

theorem sizedEntries_iff {entries : List (Value × Value)} :
    SizedEntries entries ↔ ∀ e ∈ entries, e.1.Sized ∧ e.2.Sized := by
  induction entries with
  | nil => simp [SizedEntries]
  | cons e entries ih => rw [SizedEntries, ih, List.forall_mem_cons, and_assoc]

/-- The head that an item starts with. -/
def Value.head : Value → Head
  | .nil => .nil
  | .bool b => .bool b
  | .unsigned n => .unsigned n
  | .signed n => .signed n
  | .single x => .single x
  | .double x => .double x
  | .text bytes => .text bytes.length
  | .binary bytes => .binary bytes.length
  | .unit => .unit
  | .array items => .array items.length
  | .map entries => .map entries.length
  | .extension kind bytes => .extension kind bytes.length

/-- The bytes of an item after its head. -/
def Value.body : Value → Bytes
  | .text bytes | .binary bytes | .extension _ bytes => bytes
  | .array items => writeItems items
  | .map entries => writeEntries entries
  | _ => []

theorem Value.write_eq (v : Value) : v.write = v.head.write ++ v.body := by
  cases v <;> simp [write, head, body]

theorem Value.Sized.fits {v : Value} (h : v.Sized) : v.head.Fits := by
  cases v with
  | array items | map entries => exact h.1
  | text bytes | binary bytes | extension kind bytes => exact h
  | _ => trivial

/-- An item reads back if its body does, one level down. -/
theorem Value.readNested_of_body {v : Value} {depth : Nat} {rest : Bytes} (hv : v.Sized)
    (hdepth : v.write.length ≤ depth)
    (hbody : ∀ {depth}, v.body.length ≤ depth →
      v.head.readBody (readNested depth) (v.body ++ rest) = some (v, rest)) :
    readNested depth (v.write ++ rest) = some (v, rest) := by
  rw [write_eq] at hdepth ⊢
  rw [List.length_append] at hdepth
  have hpos := Head.length_write_pos hv.fits
  obtain ⟨depth, rfl⟩ : ∃ d, depth = d + 1 := ⟨depth - 1, by omega⟩
  rw [readNested, List.append_assoc, Head.read_write hv.fits]
  exact hbody (by omega)

mutual

theorem Value.readNested_write : ∀ (v : Value) (depth : Nat) (rest : Bytes), v.Sized →
    v.write.length ≤ depth → Value.readNested depth (v.write ++ rest) = some (v, rest)
  | .nil, _, _, hv, hd | .bool _, _, _, hv, hd | .unsigned _, _, _, hv, hd
  | .signed _, _, _, hv, hd | .single _, _, _, hv, hd | .double _, _, _, hv, hd
  | .unit, _, _, hv, hd => Value.readNested_of_body hv hd fun _ => rfl
  | .text bytes, _, rest, hv, hd | .binary bytes, _, rest, hv, hd
  | .extension _ bytes, _, rest, hv, hd => Value.readNested_of_body hv hd fun _ => by
    simp only [Value.head, Value.body, Head.readBody, takeBytes_append rfl, Option.map_some]
  | .array items, _, rest, hv, hd => Value.readNested_of_body hv hd fun hd => by
    simp only [Value.head, Value.body, Head.readBody, readTimes_writeItems items _ rest hv.2 hd,
      Option.map_some]
  | .map entries, _, rest, hv, hd => Value.readNested_of_body hv hd fun hd => by
    simp only [Value.head, Value.body, Head.readBody, readTimes_writeEntries entries _ rest hv.2 hd,
      Option.map_some]

theorem readTimes_writeItems : ∀ (items : List Value) (depth : Nat) (rest : Bytes),
    SizedItems items → (writeItems items).length ≤ depth →
    readTimes (Value.readNested depth) items.length (writeItems items ++ rest) = some (items, rest)
  | [], _, _, _, _ => rfl
  | v :: items, depth, rest, hv, hd => by
    rw [writeItems, List.length_append] at hd
    have hfirst := v.readNested_write depth (writeItems items ++ rest) hv.1 (by omega)
    have hitems := readTimes_writeItems items depth rest hv.2 (by omega)
    rw [writeItems, List.append_assoc, List.length_cons, readTimes, hfirst]
    simp only [Option.bind_eq_bind, Option.bind_some, hitems, Option.pure_def]

theorem readTimes_writeEntries : ∀ (entries : List (Value × Value)) (depth : Nat) (rest : Bytes),
    SizedEntries entries → (writeEntries entries).length ≤ depth →
    readTimes (readEntry (Value.readNested depth)) entries.length (writeEntries entries ++ rest) =
      some (entries, rest)
  | [], _, _, _, _ => rfl
  | (k, v) :: entries, depth, rest, hv, hd => by
    rw [writeEntries, List.length_append, List.length_append] at hd
    have hkey := k.readNested_write depth (v.write ++ (writeEntries entries ++ rest)) hv.1
      (by omega)
    have hvalue := v.readNested_write depth (writeEntries entries ++ rest) hv.2.1 (by omega)
    have hentries := readTimes_writeEntries entries depth rest hv.2.2 (by omega)
    rw [writeEntries, List.append_assoc, List.append_assoc, List.length_cons, readTimes, readEntry,
      hkey]
    simp only [Option.bind_eq_bind, Option.bind_some, hvalue, Option.pure_def, hentries]

end

/-- **An item reads back**, and what comes after it is left alone. -/
theorem Value.read_write {v : Value} (hv : v.Sized) (rest : Bytes) :
    read (v.write ++ rest) = some (v, rest) :=
  v.readNested_write _ rest hv (by rw [List.length_append]; omega)

/-! ## Truncation -/

/-- Whatever `read` reads, `read'` reads too when `more` comes after it, and
    gives `more` back after the rest. -/
def Extends {α : Type} (more : Bytes) (read read' : Bytes → Option (α × Bytes)) : Prop :=
  ∀ ⦃bytes x rest⦄, read bytes = some (x, rest) → read' (bytes ++ more) = some (x, rest ++ more)

namespace Extends

variable {α β : Type} {more : Bytes} {read read' : Bytes → Option (α × Bytes)}

theorem map (h : Extends more read read') (f : α → β) :
    Extends more (fun bytes => (read bytes).map fun (x, rest) => (f x, rest))
      (fun bytes => (read' bytes).map fun (x, rest) => (f x, rest)) := by
  intro bytes y rest hy
  obtain ⟨⟨x, rest'⟩, hx, heq⟩ := Option.map_eq_some_iff.1 hy
  cases heq
  simp only [h hx, Option.map_some]

theorem bind (h : Extends more read read') {next next' : α → Bytes → Option (β × Bytes)}
    (hnext : ∀ x, Extends more (next x) (next' x)) :
    Extends more (fun bytes => (read bytes).bind fun (x, rest) => next x rest)
      (fun bytes => (read' bytes).bind fun (x, rest) => next' x rest) := by
  intro bytes y rest hy
  obtain ⟨⟨x, rest'⟩, hx, hrest⟩ := Option.bind_eq_some_iff.1 hy
  simp only [h hx, Option.bind_some]
  exact hnext x hrest

/-- What is read without looking on. -/
theorem pure (more : Bytes) (x : α) :
    Extends more (fun bytes => some (x, bytes)) (fun bytes => some (x, bytes)) := by
  intro bytes y rest h
  cases h
  rfl

end Extends

theorem extends_takeBytes (more : Bytes) (n : Nat) : Extends more (takeBytes n) (takeBytes n) := by
  intro bytes x rest h
  simp only [takeBytes, List.length_take] at h
  split at h
  · cases h
    rename_i hlen
    have hle : n ≤ bytes.length := by omega
    simp only [takeBytes, List.take_append_of_le_length hle, List.drop_append_of_le_length hle,
      List.length_take, if_pos hlen]
  · cases h

theorem extends_takeNat (more : Bytes) (places : Nat) :
    Extends more (takeNat places) (takeNat places) :=
  (extends_takeBytes more places).map ofBigEndian

theorem extends_readTimes {α : Type} {more : Bytes} {step step' : Bytes → Option (α × Bytes)}
    (h : Extends more step step') (n : Nat) :
    Extends more (readTimes step n) (readTimes step' n) := by
  induction n with
  | zero => exact .pure more []
  | succ n ih => exact h.bind fun x => ih.bind fun xs => .pure more (x :: xs)

namespace Head

theorem extends_kindOf (more : Bytes) (length : Nat) :
    Extends more (kindOf length) (kindOf length) := by
  intro bytes x rest h
  cases bytes with
  | nil => cases h
  | cons kind bytes =>
    cases h
    rfl

theorem extends_readMarked (more : Bytes) (marker : Nat) :
    Extends more (readMarked marker) (readMarked marker) := by
  have hcarrying : ∀ places head, Extends more (carrying places head) (carrying places head) :=
    fun places head => (extends_takeNat more places).map head
  have hkind : ∀ places, Extends more (lengthThenKind places) (lengthThenKind places) :=
    fun places => (extends_takeNat more places).bind fun n => extends_kindOf more n
  unfold readMarked
  split <;> first
    | exact .pure more _
    | exact hcarrying _ _
    | exact hkind _
    | exact extends_kindOf more _
    | exact fun _ _ _ h => nomatch h

theorem extends_read (more : Bytes) : Extends more read read := by
  intro bytes x rest h
  cases bytes with
  | nil => cases h
  | cons marker bytes =>
    simp only [read, List.cons_append] at h ⊢
    split_ifs at h ⊢
    all_goals first
      | exact extends_readMarked more _ h
      | exact Extends.pure more _ h

theorem extends_readBody {more : Bytes} {item item' : Bytes → Option (Value × Bytes)}
    (h : Extends more item item') (head : Head) :
    Extends more (head.readBody item) (head.readBody item') := by
  cases head with
  | text n => exact (extends_takeBytes more n).map Value.text
  | binary n => exact (extends_takeBytes more n).map Value.binary
  | extension kind n => exact (extends_takeBytes more n).map (Value.extension kind)
  | array n => exact (extends_readTimes h n).map Value.array
  | map n =>
    have hentry : Extends more (readEntry item) (readEntry item') :=
      h.bind fun k => h.bind fun v => .pure more (k, v)
    exact (extends_readTimes hentry n).map Value.map
  | _ => exact .pure more _

end Head

theorem Value.extends_readNested (more : Bytes) {depth depth' : Nat} (h : depth ≤ depth') :
    Extends more (readNested depth) (readNested depth') := by
  induction depth generalizing depth' with
  | zero => exact fun _ _ _ h => nomatch h
  | succ depth ih =>
    obtain ⟨depth', rfl⟩ : ∃ d, depth' = d + 1 := ⟨depth' - 1, by omega⟩
    exact (Head.extends_read more).bind fun head => head.extends_readBody (ih (by omega))

theorem Value.extends_read (more : Bytes) : Extends more read read :=
  fun _ _ _ h => extends_readNested more (by rw [List.length_append]; omega) h

/-- **A strict prefix of an item is no item.** -/
theorem Value.read_of_strictPrefix {v : Value} (hv : v.Sized) {bytes : Bytes}
    (h : bytes <+: v.write) (hne : bytes ≠ v.write) : read bytes = none := by
  obtain ⟨more, hmore⟩ := h
  rw [Option.eq_none_iff_forall_not_mem]
  rintro ⟨x, rest⟩ hread
  have hwhole := read_write hv []
  rw [List.append_nil, ← hmore, extends_read more hread, Option.some.injEq, Prod.mk.injEq,
    List.append_eq_nil_iff] at hwhole
  obtain ⟨-, -, rfl⟩ := hwhole
  exact hne (by rw [← hmore, List.append_nil])

end TickEngine.MessagePack
