/-
  Data of a shape, read back from its bytes.

  In a well-formed shape (`Shape.wellFormed`) names that have to differ do, and
  what an option holds is never written as nothing.  Data of such a shape
  becomes a value and comes back (`Shape.ofValue?_toValue?`), in either layout.

  * `Shape.delimits`: the bytes of data of a well-formed shape say where they
    end, and read back as the data.
-/
import TickEngine.Proofs.Items
import TickEngine.Schema.Coding

namespace TickEngine

/-! ## Texts and numbers -/

namespace MessagePack

theorem toList_loop (bytes : ByteArray) (i : Nat) (acc : Bytes) :
    ByteArray.toList.loop bytes i acc = acc.reverse ++ bytes.data.toList.drop i := by
  fun_induction ByteArray.toList.loop bytes i acc with
  | case1 i acc h ih =>
    have hlt : i < bytes.data.toList.length := by simpa using h
    rw [ih, List.drop_eq_getElem_cons hlt]
    simp [ByteArray.get!, getElem!_pos, h]
  | case2 i acc h => rw [List.drop_eq_nil_of_le (by simpa using h), List.append_nil]

theorem toList_eq_data (bytes : ByteArray) : bytes.toList = bytes.data.toList :=
  toList_loop bytes 0 []

theorem length_toUTF8 (s : String) : s.toUTF8.toList.length = s.utf8ByteSize := by
  rw [toList_eq_data, Array.length_toList]
  rfl

theorem Value.string?_ofString (s : String) : (Value.ofString s).string? = some s := by
  have hvalid : s.toUTF8.IsValidUTF8 := s.isValidUTF8
  rw [ofString, string?, toList_eq_data, Array.toArray_toList, String.fromUTF8?, dif_pos hvalid]
  rfl

theorem Value.names_ofString (a b : String) (position : Nat) :
    (Value.ofString a).names b position = decide (a = b) := by
  rw [ofString, names, decide_eq_decide]
  constructor
  · intro h
    have ha := string?_ofString a
    rw [ofString, h, ← ofString, string?_ofString, Option.some.injEq] at ha
    exact ha.symm
  · rintro rfl
    rfl

end MessagePack

namespace Schema

open MessagePack (Value Bytes SizedItems SizedEntries)

theorem Width.bits_le (w : Width) : w.bits ≤ 64 := by cases w <;> decide

theorem integer?_ofInteger {n : Int} (h : -2 ^ 63 ≤ n) (h' : n < 2 ^ 64) :
    (ofInteger n).integer? = some n := by
  unfold ofInteger
  split
  · rw [Value.integer?, Int64.toInt_ofInt_of_le h (by omega)]
  · rw [Value.integer?, UInt64.toNat_ofNat_of_lt' (by simp [UInt64.size]; omega)]
    congr 1
    omega

theorem unsigned?_toNat {w : Width} (n : BitVec w.bits) : unsigned? w n.toNat = some n := by
  simp [unsigned?]

theorem signed?_toInt {w : Width} (n : BitVec w.bits) : signed? w n.toInt = some n := by
  simp [signed?]

theorem read_unsigned {w : Width} (n : BitVec w.bits) :
    (ofInteger n.toNat).integer?.bind (unsigned? w) = some n := by
  have hlt : n.toNat < 2 ^ 64 :=
    Nat.lt_of_lt_of_le n.isLt (Nat.pow_le_pow_right (by decide) w.bits_le)
  rw [integer?_ofInteger (by omega) (by omega), Option.bind_some, unsigned?_toNat]

theorem read_signed {w : Width} (n : BitVec w.bits) :
    (ofInteger n.toInt).integer?.bind (signed? w) = some n := by
  have hpow : (2 : Int) ^ (w.bits - 1) ≤ 2 ^ 63 := by cases w <;> decide
  have hle := n.le_toInt
  have hlt := n.toInt_lt
  rw [integer?_ofInteger (by omega) (by omega), Option.bind_some, signed?_toInt]

theorem mapM_inverse {α β : Type} {f : α → Option β} {g : β → Option α}
    (h : ∀ {x y}, f x = some y → g y = some x) {xs : List α} {ys : List β}
    (hxs : xs.mapM f = some ys) : ys.mapM g = some xs := by
  induction xs generalizing ys with
  | nil =>
    cases hxs
    rfl
  | cons x xs ih =>
    simp only [List.mapM_cons, Option.bind_eq_bind, Option.bind_eq_some_iff, Option.pure_def,
      Option.some.injEq] at hxs
    obtain ⟨y, hy, ys, hys, rfl⟩ := hxs
    simp only [List.mapM_cons, h hy, ih hys, Option.bind_eq_bind, Option.bind_some, Option.pure_def]

/-! ## Shapes that read back -/

/-- Whether data of the shape can be written as nothing. -/
def Shape.nullable : Shape → Bool
  | .option _ => true
  | .newtype s => s.nullable
  | _ => false

/-- Whether a name has a spelling and differs from the names after it. -/
def freshName (name : String) (others : List String) : Bool :=
  !others.contains name && decide (name.utf8ByteSize < 2 ^ 32)

theorem freshName_iff {name : String} {others : List String} :
    freshName name others ↔ name ∉ others ∧ name.utf8ByteSize < 2 ^ 32 := by
  simp [freshName]

/-- A name among those after a fresh one is no key for it. -/
theorem names_eq_false_of_mem {name other : String} {others : List String}
    (hname : freshName name others) (hother : other ∈ others) (position : Nat) :
    (Value.ofString other).names name position = false := by
  rw [Value.names_ofString, decide_eq_false_iff_not]
  rintro rfl
  exact (freshName_iff.1 hname).1 hother

mutual

/-- Whether data of the shape reads back.  The content of an option is never
    nothing, the fields of a record differ in name, as do the variants of a
    choice, and there is a spelling for the lengths of names and records. -/
def Shape.wellFormed : Shape → Bool
  | .newtype s | .list s => s.wellFormed
  | .option s => !s.nullable && s.wellFormed
  | .record fs => decide (fs.names.length < 2 ^ 32) && fs.wellFormed
  | .choice vs => vs.wellFormed
  | _ => true

/-- Whether data of the fields reads back. -/
def Fields.wellFormed : Fields → Bool
  | .nil => true
  | .cons name s rest => freshName name rest.names && s.wellFormed && rest.wellFormed

/-- Whether data of the variants reads back. -/
def Variants.wellFormed : Variants → Bool
  | .nil => true
  | .bare name rest => freshName name rest.names && rest.wellFormed
  | .record name fs rest =>
    freshName name rest.names && (decide (fs.names.length < 2 ^ 32) && fs.wellFormed)
      && rest.wellFormed

end

variable {layout : Layout}

/-! ## What is written as nothing -/

theorem ofList_ne_nil (items : List Value) : Value.ofList items ≠ .nil := by
  intro h
  cases items <;> cases h

theorem Fields.toValue?_ne_nil (fs : Fields) (x : fs.Carrier) :
    fs.toValue? layout x ≠ some .nil := by
  rw [Fields.toValue?]
  intro h
  obtain ⟨items, -, hitems⟩ := Option.map_eq_some_iff.1 h
  cases layout with
  | named => cases hitems
  | positional => exact ofList_ne_nil items hitems

theorem Variants.toValue?_ne_nil : ∀ (vs : Variants) (x : vs.Carrier),
    vs.toValue? layout x ≠ some .nil
  | .bare name _, .inl _ => by
    rw [Variants.toValue?]
    intro h
    cases h
  | .record name fs _, .inl x => by
    rw [Variants.toValue?]
    intro h
    obtain ⟨v, -, hv⟩ := Option.map_eq_some_iff.1 h
    cases hv
  | .bare _ rest, .inr x | .record _ _ rest, .inr x => by
    rw [Variants.toValue?]
    exact rest.toValue?_ne_nil x

theorem Shape.toValue?_ne_nil : ∀ (s : Shape) (x : s.Carrier), s.nullable = false →
    s.toValue? layout x ≠ some .nil
  | .option _, _, h => by cases h
  | .newtype s, x, h => by
    rw [Shape.toValue?]
    exact s.toValue?_ne_nil x h
  | .unit, _, _ | .bool, _, _ | .single, _, _ | .text, _, _ => by
    rw [Shape.toValue?]
    intro h
    cases h
  | .falseOnly, b, _ => by
    rw [Shape.toValue?]
    intro h
    cases b <;> cases h
  | .unsigned _, n, _ | .signed _, n, _ => by
    rw [Shape.toValue?, ofInteger]
    intro h
    split at h <;> cases h
  | .list s, xs, _ => by
    rw [Shape.toValue?]
    intro h
    obtain ⟨items, -, hitems⟩ := Option.map_eq_some_iff.1 h
    exact ofList_ne_nil items hitems
  | .record fs, x, _ => by
    rw [Shape.toValue?]
    exact fs.toValue?_ne_nil x
  | .choice vs, x, _ => by
    rw [Shape.toValue?]
    exact vs.toValue?_ne_nil x

/-! ## Reading back -/

/-- A record reads back if its fields do, in either layout. -/
theorem Fields.ofValue?_of_items {fs : Fields} {room : Nat} {x : fs.Carrier} {v : Value}
    (hitems : ∀ {items}, fs.items? layout x = some items → fs.ofItems? (room - 1) items = some x)
    (hentries : ∀ {items}, fs.items? layout x = some items →
      fs.ofEntries? (room - 1) 0 ((fs.names.map Value.ofString).zip items) = some x)
    (h : fs.toValue? layout x = some v) : fs.ofValue? room v = some x := by
  rw [Fields.toValue?] at h
  obtain ⟨items, hwritten, hv⟩ := Option.map_eq_some_iff.1 h
  cases layout with
  | named =>
    subst hv
    have hkeys : ((fs.names.map Value.ofString).zip items).all (·.1.isKey) = true := by
      rw [List.all_eq_true]
      rintro ⟨key, value⟩ hmem
      obtain ⟨name, -, rfl⟩ := List.mem_map.1 (List.of_mem_zip hmem).1
      rfl
    rw [Fields.ofValue?, if_pos hkeys]
    exact hentries hwritten
  | positional =>
    subst hv
    cases items with
    | nil => simpa only [Value.ofList, Fields.ofValue?] using hitems hwritten
    | cons item items => simpa only [Value.ofList, Fields.ofValue?] using hitems hwritten

/-- What a choice is written as: the name of a variant, alone or with content. -/
def variantValue (name : String) : Option Value → Value
  | none => .ofString name
  | some content => .map [(.ofString name, content)]

mutual

theorem Shape.ofValue?_toValue? : ∀ (s : Shape) (room : Nat) {x : s.Carrier} {v : Value},
    s.wellFormed → s.toValue? layout x = some v → s.ofValue? room v = some x
  | .unit, _, _, _, _, h | .bool, _, _, _, _, h | .single, _, _, _, _, h => by
    rw [Shape.toValue?] at h
    cases h
    simp only [Shape.ofValue?, Value.single?]
  | .falseOnly, _, x, _, _, h => by
    rw [Shape.toValue?] at h
    cases x <;> cases h
    rw [Shape.ofValue?]
  | .unsigned w, _, n, _, _, h => by
    rw [Shape.toValue?] at h
    cases h
    rw [Shape.ofValue?]
    exact read_unsigned n
  | .signed w, _, n, _, _, h => by
    rw [Shape.toValue?] at h
    cases h
    rw [Shape.ofValue?]
    exact read_signed n
  | .text, _, t, _, _, h => by
    rw [Shape.toValue?] at h
    cases h
    rw [Shape.ofValue?]
    exact Value.string?_ofString t
  | .newtype s, room, _, _, hs, h => by
    rw [Shape.toValue?] at h
    rw [Shape.ofValue?]
    exact s.ofValue?_toValue? room hs h
  | .option s, _, none, _, _, h => by
    rw [Shape.toValue?] at h
    cases h
    rw [Shape.ofValue?]
  | .option s, room, some x, v, hs, h => by
    simp only [Shape.wellFormed, Bool.and_eq_true, Bool.not_eq_true'] at hs
    rw [Shape.toValue?] at h
    have hread := s.ofValue?_toValue? room hs.2 h
    rw [Shape.ofValue?]
    · rw [hread, Option.map_some]
    · rintro rfl
      exact s.toValue?_ne_nil x hs.1 h
  | .list s, room, xs, v, hs, h => by
    rw [Shape.toValue?] at h
    obtain ⟨items, hitems, rfl⟩ := Option.map_eq_some_iff.1 h
    have hread := mapM_inverse (s.ofValue?_toValue? (room - 1) hs) hitems
    cases items with
    | nil =>
      simpa only [Value.ofList, Shape.ofValue?, List.mapM_nil, Option.pure_def] using hread
    | cons item items => simpa only [Value.ofList, Shape.ofValue?] using hread
  | .record fs, room, x, v, hs, h => by
    simp only [Shape.wellFormed, Bool.and_eq_true] at hs
    rw [Shape.toValue?] at h
    rw [Shape.ofValue?]
    exact Fields.ofValue?_of_items (fs.ofItems?_items? (room - 1) hs.2)
      (fs.ofEntries?_items? (room - 1) 0 hs.2) h
  | .choice vs, room, x, v, hs, h => by
    rw [Shape.toValue?] at h
    obtain ⟨name, content, rfl, -, hread⟩ := vs.ofKey?_toValue? room hs h
    cases content with
    | none => simpa only [variantValue, Value.ofString, Shape.ofValue?] using hread 0
    | some content => simpa only [variantValue, Shape.ofValue?] using hread 0

theorem Fields.ofItems?_items? : ∀ (fs : Fields) (room : Nat) {x : fs.Carrier} {items : List Value},
    fs.wellFormed → fs.items? layout x = some items → fs.ofItems? room items = some x
  | .nil, _, _, _, _, h => by
    rw [Fields.items?] at h
    cases h
    rw [Fields.ofItems?]
  | .cons name s rest, room, (x, xs), _, hfs, h => by
    simp only [Fields.wellFormed, Bool.and_eq_true] at hfs
    simp only [Fields.items?, Option.bind_eq_bind, Option.bind_eq_some_iff, Option.pure_def,
      Option.some.injEq] at h
    obtain ⟨v, hv, items, hitems, rfl⟩ := h
    have hfirst := s.ofValue?_toValue? room hfs.1.2 hv
    have hrest := rest.ofItems?_items? room hfs.2 hitems
    simp only [Fields.ofItems?, hfirst, hrest, Option.bind_eq_bind, Option.bind_some,
      Option.pure_def]

theorem Fields.ofEntries?_items? : ∀ (fs : Fields) (room position : Nat) {x : fs.Carrier}
    {items : List Value}, fs.wellFormed → fs.items? layout x = some items →
    fs.ofEntries? room position ((fs.names.map Value.ofString).zip items) = some x
  | .nil, _, _, _, _, _, h => by
    rw [Fields.items?] at h
    cases h
    simp only [Fields.names, List.map_nil, List.zip_nil_left, Fields.ofEntries?, List.all_nil,
      if_true]
  | .cons name s rest, room, position, (x, xs), _, hfs, h => by
    simp only [Fields.wellFormed, Bool.and_eq_true] at hfs
    simp only [Fields.items?, Option.bind_eq_bind, Option.bind_eq_some_iff, Option.pure_def,
      Option.some.injEq] at h
    obtain ⟨v, hv, items, hitems, rfl⟩ := h
    have hfirst := s.ofValue?_toValue? room hfs.1.2 hv
    have hrest := rest.ofEntries?_items? room (position + 1) hfs.2 hitems
    -- of all entries, the first alone has the name of the field
    have hothers : ∀ e ∈ (rest.names.map Value.ofString).zip items,
        e.1.names name position = false := by
      rintro ⟨key, value⟩ hmem
      obtain ⟨other, hother, rfl⟩ := List.mem_map.1 (List.of_mem_zip hmem).1
      exact names_eq_false_of_mem hfs.1.1 hother position
    have hself : (Value.ofString name).names name position = true := by
      rw [Value.names_ofString, decide_eq_true rfl]
    have hnone : ((rest.names.map Value.ofString).zip items).filter
        (·.1.names name position) = [] :=
      List.filter_eq_nil_iff.2 fun e he => by simp [hothers e he]
    have hall : ((rest.names.map Value.ofString).zip items).filter
        (fun e => !e.1.names name position) = (rest.names.map Value.ofString).zip items :=
      List.filter_eq_self.2 fun e he => by simp [hothers e he]
    simp only [Fields.names, List.map_cons, List.zip_cons_cons, Fields.ofEntries?,
      List.filter_cons, hself, hnone, hall, if_true, Bool.not_true, Bool.false_eq_true, if_false,
      hfirst, hrest, Option.bind_eq_bind, Option.bind_some, Option.pure_def]

theorem Variants.ofKey?_toValue? : ∀ (vs : Variants) (room : Nat) {x : vs.Carrier} {v : Value},
    vs.wellFormed → vs.toValue? layout x = some v →
    ∃ name content, v = variantValue name content ∧ name ∈ vs.names ∧
      ∀ position, vs.ofKey? room position (.ofString name) content = some x
  | .bare name rest, room, .inl (), v, hvs, h => by
    rw [Variants.toValue?] at h
    cases h
    refine ⟨name, none, rfl, List.mem_cons_self, fun position => ?_⟩
    simp only [Variants.ofKey?, Value.names_ofString, decide_true, if_true]
  | .record name fs rest, room, .inl x, v, hvs, h => by
    simp only [Variants.wellFormed, Bool.and_eq_true] at hvs
    rw [Variants.toValue?] at h
    obtain ⟨content, hcontent, rfl⟩ := Option.map_eq_some_iff.1 h
    refine ⟨name, some content, rfl, List.mem_cons_self, fun position => ?_⟩
    have hread := Fields.ofValue?_of_items (fs.ofItems?_items? (room - 1) hvs.1.2.2)
      (fs.ofEntries?_items? (room - 1) 0 hvs.1.2.2) hcontent
    simp only [Variants.ofKey?, Value.names_ofString, decide_true, if_true, Option.bind_some, hread,
      Option.map_some]
  | .bare name rest, room, .inr x, v, hvs, h => by
    simp only [Variants.wellFormed, Bool.and_eq_true] at hvs
    rw [Variants.toValue?] at h
    obtain ⟨other, content, rfl, hother, hread⟩ := rest.ofKey?_toValue? room hvs.2 h
    refine ⟨other, content, rfl, List.mem_cons_of_mem _ hother, fun position => ?_⟩
    rw [Variants.ofKey?.eq_def]
    simp only [names_eq_false_of_mem hvs.1 hother, Bool.false_eq_true, if_false, hread,
      Option.map_some]
  | .record name fs rest, room, .inr x, v, hvs, h => by
    simp only [Variants.wellFormed, Bool.and_eq_true] at hvs
    rw [Variants.toValue?] at h
    obtain ⟨other, content, rfl, hother, hread⟩ := rest.ofKey?_toValue? room hvs.2 h
    refine ⟨other, content, rfl, List.mem_cons_of_mem _ hother, fun position => ?_⟩
    rw [Variants.ofKey?, names_eq_false_of_mem hvs.1.1 hother, if_neg Bool.false_ne_true, hread,
      Option.map_some]

end

/-! ## Lengths -/

mutual

/-- Every text and list in the data is short enough for its length to have a
    spelling. -/
def Shape.Short : (s : Shape) → s.Carrier → Prop
  | .text, t => t.utf8ByteSize < 2 ^ 32
  | .newtype s, x => s.Short x
  | .option _, none => True
  | .option s, some x => s.Short x
  | .list s, xs => xs.length < 2 ^ 32 ∧ ∀ x ∈ xs, s.Short x
  | .record fs, x => fs.Short x
  | .choice vs, x => vs.Short x
  | _, _ => True

/-- Every text and list in the fields is short. -/
def Fields.Short : (fs : Fields) → fs.Carrier → Prop
  | .nil, _ => True
  | .cons _ s rest, (x, xs) => s.Short x ∧ rest.Short xs

/-- Every text and list in the variant is short. -/
def Variants.Short : (vs : Variants) → vs.Carrier → Prop
  | .bare _ _, .inl _ => True
  | .record _ fs _, .inl x => fs.Short x
  | .bare _ rest, .inr x | .record _ _ rest, .inr x => rest.Short x

end

theorem Fields.short_names : ∀ {fs : Fields}, fs.wellFormed →
    ∀ name ∈ fs.names, name.utf8ByteSize < 2 ^ 32
  | .nil, _ => by simp [Fields.names]
  | .cons name s rest, h => by
    simp only [Fields.wellFormed, Bool.and_eq_true] at h
    exact List.forall_mem_cons.2 ⟨(freshName_iff.1 h.1.1).2, short_names h.2⟩

theorem sized_ofString {s : String} (h : s.utf8ByteSize < 2 ^ 32) : (Value.ofString s).Sized := by
  rw [Value.ofString, Value.Sized, MessagePack.length_toUTF8]
  exact h

theorem sized_ofList {items : List Value} (hlen : items.length < 2 ^ 32)
    (h : ∀ v ∈ items, v.Sized) : (Value.ofList items).Sized := by
  cases items with
  | nil => trivial
  | cons item items => exact ⟨hlen, MessagePack.sizedItems_iff.2 h⟩

theorem sized_mapM {α : Type} {f : α → Option Value} {xs : List α} {items : List Value}
    (h : ∀ x ∈ xs, ∀ {v}, f x = some v → v.Sized) (hxs : xs.mapM f = some items) :
    items.length = xs.length ∧ ∀ v ∈ items, v.Sized := by
  induction xs generalizing items with
  | nil =>
    cases hxs
    simp
  | cons x xs ih =>
    simp only [List.mapM_cons, Option.bind_eq_bind, Option.bind_eq_some_iff, Option.pure_def,
      Option.some.injEq] at hxs
    obtain ⟨v, hv, vs, hvs, rfl⟩ := hxs
    obtain ⟨hx, hrest⟩ := List.forall_mem_cons.1 h
    obtain ⟨hlen, hsized⟩ := ih hrest hvs
    exact ⟨by rw [List.length_cons, List.length_cons, hlen],
      List.forall_mem_cons.2 ⟨hx hv, hsized⟩⟩

/-- A record is sized if its fields are, in either layout. -/
theorem Fields.sized_of_items {fs : Fields} {x : fs.Carrier} {v : Value}
    (hlen : fs.names.length < 2 ^ 32) (hfs : fs.wellFormed)
    (hitems : ∀ {items}, fs.items? layout x = some items →
      items.length = fs.names.length ∧ ∀ v ∈ items, v.Sized)
    (h : fs.toValue? layout x = some v) : v.Sized := by
  rw [Fields.toValue?] at h
  obtain ⟨items, hwritten, hv⟩ := Option.map_eq_some_iff.1 h
  obtain ⟨hcount, hsized⟩ := hitems hwritten
  cases layout with
  | named =>
    subst hv
    refine ⟨by simpa [hcount] using hlen, MessagePack.sizedEntries_iff.2 ?_⟩
    rintro ⟨key, value⟩ hmem
    obtain ⟨hkey, hvalue⟩ := List.of_mem_zip hmem
    obtain ⟨name, hname, rfl⟩ := List.mem_map.1 hkey
    exact ⟨sized_ofString (short_names hfs name hname), hsized value hvalue⟩
  | positional =>
    subst hv
    exact sized_ofList (hcount ▸ hlen) hsized

mutual

theorem Shape.sized_toValue? : ∀ (s : Shape) {x : s.Carrier} {v : Value}, s.wellFormed →
    s.Short x → s.toValue? layout x = some v → v.Sized
  | .unit, _, _, _, _, h | .bool, _, _, _, _, h | .single, _, _, _, _, h => by
    rw [Shape.toValue?] at h
    cases h
    trivial
  | .falseOnly, b, _, _, _, h => by
    rw [Shape.toValue?] at h
    cases b <;> cases h
    trivial
  | .unsigned _, _, _, _, _, h | .signed _, _, _, _, _, h => by
    rw [Shape.toValue?] at h
    cases h
    unfold ofInteger
    split <;> trivial
  | .text, t, _, _, ht, h => by
    rw [Shape.toValue?] at h
    cases h
    rw [Shape.Short] at ht
    exact sized_ofString ht
  | .newtype s, _, _, hs, hx, h => by
    rw [Shape.toValue?] at h
    rw [Shape.Short] at hx
    exact s.sized_toValue? hs hx h
  | .option s, none, _, _, _, h => by
    rw [Shape.toValue?] at h
    cases h
    trivial
  | .option s, some x, _, hs, hx, h => by
    simp only [Shape.wellFormed, Bool.and_eq_true] at hs
    rw [Shape.toValue?] at h
    rw [Shape.Short] at hx
    exact s.sized_toValue? hs.2 hx h
  | .list s, xs, _, hs, hxs, h => by
    rw [Shape.toValue?] at h
    rw [Shape.Short] at hxs
    obtain ⟨items, hitems, rfl⟩ := Option.map_eq_some_iff.1 h
    obtain ⟨hlen, hsized⟩ := sized_mapM (fun x hx _ => s.sized_toValue? hs (hxs.2 x hx)) hitems
    exact sized_ofList (hlen ▸ hxs.1) hsized
  | .record fs, x, v, hs, hx, h => by
    simp only [Shape.wellFormed, Bool.and_eq_true, decide_eq_true_eq] at hs
    rw [Shape.toValue?] at h
    rw [Shape.Short] at hx
    exact Fields.sized_of_items hs.1 hs.2 (fs.sized_items? hs.2 hx) h
  | .choice vs, x, v, hs, hx, h => by
    rw [Shape.toValue?] at h
    rw [Shape.Short] at hx
    exact vs.sized_toValue? hs hx h

theorem Fields.sized_items? : ∀ (fs : Fields) {x : fs.Carrier} {items : List Value},
    fs.wellFormed → fs.Short x → fs.items? layout x = some items →
    items.length = fs.names.length ∧ ∀ v ∈ items, v.Sized
  | .nil, _, _, _, _, h => by
    rw [Fields.items?] at h
    cases h
    simp [Fields.names]
  | .cons name s rest, (x, xs), _, hfs, hx, h => by
    simp only [Fields.wellFormed, Bool.and_eq_true] at hfs
    rw [Fields.Short] at hx
    simp only [Fields.items?, Option.bind_eq_bind, Option.bind_eq_some_iff, Option.pure_def,
      Option.some.injEq] at h
    obtain ⟨v, hv, items, hitems, rfl⟩ := h
    obtain ⟨hlen, hsized⟩ := rest.sized_items? hfs.2 hx.2 hitems
    exact ⟨by rw [List.length_cons, Fields.names, List.length_cons, hlen],
      List.forall_mem_cons.2 ⟨s.sized_toValue? hfs.1.2 hx.1 hv, hsized⟩⟩

theorem Variants.sized_toValue? : ∀ (vs : Variants) {x : vs.Carrier} {v : Value},
    vs.wellFormed → vs.Short x → vs.toValue? layout x = some v → v.Sized
  | .bare name rest, .inl (), _, hvs, _, h => by
    simp only [Variants.wellFormed, Bool.and_eq_true] at hvs
    rw [Variants.toValue?] at h
    cases h
    exact sized_ofString (freshName_iff.1 hvs.1).2
  | .record name fs rest, .inl x, _, hvs, hx, h => by
    simp only [Variants.wellFormed, Bool.and_eq_true, decide_eq_true_eq] at hvs
    rw [Variants.toValue?] at h
    rw [Variants.Short] at hx
    obtain ⟨content, hcontent, rfl⟩ := Option.map_eq_some_iff.1 h
    have hsized := Fields.sized_of_items hvs.1.2.1 hvs.1.2.2 (fs.sized_items? hvs.1.2.2 hx) hcontent
    exact ⟨by simp, sized_ofString (freshName_iff.1 hvs.1.1).2, hsized, trivial⟩
  | .bare name rest, .inr x, _, hvs, hx, h | .record name _ rest, .inr x, _, hvs, hx, h => by
    simp only [Variants.wellFormed, Bool.and_eq_true] at hvs
    rw [Variants.toValue?] at h
    rw [Variants.Short] at hx
    exact rest.sized_toValue? hvs.2 hx h

end

/-! ## Data that is always written -/

mutual

/-- Whether all data of the shape has a written form. -/
def Shape.alwaysWritten : Shape → Bool
  | .falseOnly => false
  | .newtype s | .option s | .list s => s.alwaysWritten
  | .record fs => fs.alwaysWritten
  | .choice vs => vs.alwaysWritten
  | _ => true

/-- Whether all data of the fields has a written form. -/
def Fields.alwaysWritten : Fields → Bool
  | .nil => true
  | .cons _ s rest => s.alwaysWritten && rest.alwaysWritten

/-- Whether all data of the variants has a written form. -/
def Variants.alwaysWritten : Variants → Bool
  | .nil => true
  | .bare _ rest => rest.alwaysWritten
  | .record _ fs rest => fs.alwaysWritten && rest.alwaysWritten

end

theorem exists_mapM {α β : Type} {f : α → Option β} (h : ∀ x, ∃ y, f x = some y) (xs : List α) :
    ∃ ys, xs.mapM f = some ys := by
  induction xs with
  | nil => exact ⟨[], rfl⟩
  | cons x xs ih =>
    obtain ⟨y, hy⟩ := h x
    obtain ⟨ys, hys⟩ := ih
    exact ⟨y :: ys, by simp only [List.mapM_cons, hy, hys, Option.bind_eq_bind, Option.bind_some,
      Option.pure_def]⟩

mutual

theorem Shape.exists_toValue? : ∀ (s : Shape) (x : s.Carrier), s.alwaysWritten →
    ∃ v, s.toValue? layout x = some v
  | .unit, _, _ | .bool, _, _ | .single, _, _ | .text, _, _ | .unsigned _, _, _
  | .signed _, _, _ | .option _, none, _ => by
    rw [Shape.toValue?]
    exact ⟨_, rfl⟩
  | .newtype s, x, h | .option s, some x, h => by
    rw [Shape.toValue?]
    exact s.exists_toValue? x h
  | .list s, xs, h => by
    obtain ⟨items, hitems⟩ := exists_mapM (fun x => s.exists_toValue? x h) xs
    rw [Shape.toValue?, hitems]
    exact ⟨_, rfl⟩
  | .record fs, x, h => by
    obtain ⟨items, hitems⟩ := fs.exists_items? x h
    rw [Shape.toValue?, Fields.toValue?, hitems]
    exact ⟨_, rfl⟩
  | .choice vs, x, h => by
    rw [Shape.toValue?]
    exact vs.exists_toValue? x h

theorem Fields.exists_items? : ∀ (fs : Fields) (x : fs.Carrier), fs.alwaysWritten →
    ∃ items, fs.items? layout x = some items
  | .nil, _, _ => by
    rw [Fields.items?]
    exact ⟨_, rfl⟩
  | .cons _ s rest, (x, xs), h => by
    simp only [Fields.alwaysWritten, Bool.and_eq_true] at h
    obtain ⟨v, hv⟩ := s.exists_toValue? x h.1
    obtain ⟨items, hitems⟩ := rest.exists_items? xs h.2
    rw [Fields.items?, hv, hitems]
    exact ⟨_, rfl⟩

theorem Variants.exists_toValue? : ∀ (vs : Variants) (x : vs.Carrier), vs.alwaysWritten →
    ∃ v, vs.toValue? layout x = some v
  | .bare _ _, .inl _, _ => by
    rw [Variants.toValue?]
    exact ⟨_, rfl⟩
  | .record _ fs _, .inl x, h => by
    simp only [Variants.alwaysWritten, Bool.and_eq_true] at h
    obtain ⟨items, hitems⟩ := fs.exists_items? x h.1
    rw [Variants.toValue?, Fields.toValue?, hitems]
    exact ⟨_, rfl⟩
  | .bare _ rest, .inr x, h => by
    rw [Variants.toValue?]
    exact rest.exists_toValue? x h
  | .record _ _ rest, .inr x, h => by
    simp only [Variants.alwaysWritten, Bool.and_eq_true] at h
    rw [Variants.toValue?]
    exact rest.exists_toValue? x h.2

end

/-! ## Bytes -/

theorem Shape.exists_encode? {s : Shape} (h : s.alwaysWritten) (layout : Layout) (x : s.Carrier) :
    ∃ bytes, s.encode? layout x = some bytes := by
  obtain ⟨v, hv⟩ := s.exists_toValue? x h
  exact ⟨v.write, by rw [encode?, hv, Option.map_some]⟩

/-- Bytes that say where they end.  A reader finds `x` at their start, whatever
    comes after them, and nothing in a strict prefix of them. -/
structure Delimits {α : Type} (decode? : Bytes → Option α) (bytes : Bytes) (x : α) : Prop where
  append : ∀ more, decode? (bytes ++ more) = some x
  strictPrefix : ∀ part, part <+: bytes → part ≠ bytes → decode? part = none

theorem Delimits.map {α β : Type} {decode? : Bytes → Option α} {bytes : Bytes} {x : α}
    (h : Delimits decode? bytes x) (f : α → β) :
    Delimits (fun bytes => (decode? bytes).map f) bytes (f x) where
  append more := by rw [h.append, Option.map_some]
  strictPrefix part hpart hne := by rw [h.strictPrefix part hpart hne, Option.map_none]

/-- **Data reads back from its bytes**, which say where they end. -/
theorem Shape.delimits {s : Shape} {x : s.Carrier} {bytes : Bytes} (hs : s.wellFormed)
    (hx : s.Short x) (h : s.encode? layout x = some bytes) : Delimits s.decode? bytes x := by
  obtain ⟨v, hv, rfl⟩ := Option.map_eq_some_iff.1 h
  have hsized := s.sized_toValue? hs hx hv
  constructor
  · intro more
    rw [decode?, Value.read_write hsized, Option.bind_some]
    exact s.ofValue?_toValue? levelLimit hs hv
  · intro part hpart hne
    rw [decode?, Value.read_of_strictPrefix hsized hpart hne, Option.bind_none]

end Schema

end TickEngine
