/-
  Finite maps are determined by their look-ups.
-/
import Mathlib
import TickEngine.Order.SortedMap

namespace TickEngine

variable {κ β : Type} [Ranked κ]

/-- Keys listed in strictly ascending rank. -/
def Ascending (ks : List κ) : Prop := ks.Pairwise fun a b => rank a < rank b

theorem Ascending.nodup {ks : List κ} (h : Ascending ks) : ks.Nodup := by
  refine List.Pairwise.imp ?_ h
  intro a b hlt heq
  exact Nat.ne_of_lt hlt (congrArg rank heq)

/-- Ascending lists with the same members are the same. -/
theorem Ascending.eq_of_mem_iff {ks ls : List κ} (hk : Ascending ks) (hl : Ascending ls)
    (h : ∀ k, k ∈ ks ↔ k ∈ ls) : ks = ls := by
  have hperm : ks.Perm ls := (List.perm_ext_iff_of_nodup hk.nodup hl.nodup).2 h
  refine hperm.eq_of_pairwise ?_ hk hl
  intro a b _ _ hab hba
  exact absurd hab (Nat.lt_asymm hba)

namespace SortedMap

/-! ## Entries, keys and values -/

theorem lookup_eq_some_iff {k : κ} {v : β} {es : List (κ × β)}
    (h : es.Pairwise fun a b => rank a.1 < rank b.1) : lookup k es = some v ↔ (k, v) ∈ es := by
  induction es with
  | nil => simp [lookup]
  | cons e rest ih =>
    obtain ⟨k', v'⟩ := e
    obtain ⟨hk, hrest⟩ := List.pairwise_cons.1 h
    simp only [lookup, List.mem_cons, Prod.mk.injEq]
    split
    · rename_i heq
      obtain rfl := Ranked.rank_injective heq
      have hnot : (k', v) ∉ rest := fun hmem => Nat.lt_irrefl _ (hk (k', v) hmem)
      simp [hnot, eq_comm]
    · rename_i hne
      have hne' : k ≠ k' := fun heq => hne (heq ▸ rfl)
      simp [hne', ih hrest]

theorem mem_entries_iff {m : SortedMap κ β} {k : κ} {v : β} :
    (k, v) ∈ m.entries ↔ m.get? k = some v :=
  (lookup_eq_some_iff m.ascending).symm

theorem nodup_entries (m : SortedMap κ β) : m.entries.Nodup := by
  refine List.Pairwise.imp ?_ m.ascending
  intro a b hlt heq
  exact Nat.ne_of_lt hlt (congrArg (fun e => rank e.1) heq)

theorem ascending_keys (m : SortedMap κ β) : Ascending m.keys :=
  List.pairwise_map.2 m.ascending

theorem mem_keys_iff {m : SortedMap κ β} {k : κ} : k ∈ m.keys ↔ (m.get? k).isSome := by
  simp only [keys, List.mem_map, Option.isSome_iff_exists, ← mem_entries_iff]
  constructor
  · rintro ⟨⟨k', v⟩, hmem, rfl⟩
    exact ⟨v, hmem⟩
  · rintro ⟨v, hmem⟩
    exact ⟨(k, v), hmem, rfl⟩

theorem contains_iff {m : SortedMap κ β} {k : κ} : m.contains k = true ↔ ∃ v, m.get? k = some v :=
  Option.isSome_iff_exists

/-- The values are the look-ups of the keys. -/
theorem values_eq_filterMap_keys (m : SortedMap κ β) : m.values = m.keys.filterMap m.get? := by
  have hkey : ∀ e ∈ m.entries, m.get? e.1 = some e.2 := fun e he => mem_entries_iff.1 he
  rw [values, keys, List.filterMap_map, ← List.filterMap_eq_map]
  exact List.filterMap_congr fun e he => (hkey e he).symm

/-- The values are the look-ups of any ascending keys that leave none out. -/
theorem values_eq_filterMap {m : SortedMap κ β} {ks : List κ} (hks : Ascending ks)
    (h : ∀ k, (m.get? k).isSome → k ∈ ks) : m.values = ks.filterMap m.get? := by
  have hkeys : m.keys = ks.filter fun k => (m.get? k).isSome := by
    refine Ascending.eq_of_mem_iff m.ascending_keys (hks.filter _) ?_
    intro k
    rw [mem_keys_iff, List.mem_filter]
    exact ⟨fun hk => ⟨h k hk, hk⟩, fun hk => hk.2⟩
  rw [values_eq_filterMap_keys, hkeys, List.filterMap_filter]
  refine List.filterMap_congr ?_
  intro k _
  cases m.get? k <;> rfl

/-- A value more under a new key. -/
theorem perm_values_insert {m : SortedMap κ β} {k : κ} (h : m.get? k = none) (v : β) :
    (m.insert k v).values.Perm (v :: m.values) := by
  have hnew : (k, v) ∉ m.entries := fun hmem => nomatch h.symm.trans (mem_entries_iff.1 hmem)
  have hperm : (m.insert k v).entries.Perm ((k, v) :: m.entries) := by
    refine (List.perm_ext_iff_of_nodup (nodup_entries _)
      (List.nodup_cons.2 ⟨hnew, m.nodup_entries⟩)).2 fun e => ?_
    obtain ⟨k', v'⟩ := e
    rw [mem_entries_iff, List.mem_cons, mem_entries_iff]
    by_cases hk : k = k'
    · subst hk
      simp [h, eq_comm]
    · simp [get?_insert_of_ne m hk, Ne.symm hk]
  exact hperm.map (·.2)

/-- A value less under an old key. -/
theorem perm_values_erase {m : SortedMap κ β} {k : κ} {v : β} (h : m.get? k = some v) :
    m.values.Perm (v :: (m.erase k).values) := by
  have hgone : (k, v) ∉ (m.erase k).entries := fun hmem => by
    rw [mem_entries_iff, get?_erase_self] at hmem
    cases hmem
  have hperm : m.entries.Perm ((k, v) :: (m.erase k).entries) := by
    refine (List.perm_ext_iff_of_nodup m.nodup_entries
      (List.nodup_cons.2 ⟨hgone, nodup_entries _⟩)).2 fun e => ?_
    obtain ⟨k', v'⟩ := e
    rw [mem_entries_iff, List.mem_cons, mem_entries_iff]
    by_cases hk : k = k'
    · subst hk
      simp [h, eq_comm]
    · simp [get?_erase_of_ne m hk, Ne.symm hk]
  exact hperm.map (·.2)

theorem mem_values_of_get? {m : SortedMap κ β} {k : κ} {v : β} (h : m.get? k = some v) :
    v ∈ m.values :=
  List.mem_map.2 ⟨(k, v), mem_entries_iff.2 h, rfl⟩

/-- **Maps with the same look-ups are the same map.** -/
theorem ext_get? {m m' : SortedMap κ β} (h : ∀ k, m.get? k = m'.get? k) : m = m' := by
  have hperm : m.entries.Perm m'.entries := by
    refine (List.perm_ext_iff_of_nodup m.nodup_entries m'.nodup_entries).2 ?_
    intro e
    rw [mem_entries_iff, mem_entries_iff, h]
  have heq : m.entries = m'.entries :=
    hperm.eq_of_pairwise (fun a b _ _ hab hba => absurd hab (Nat.lt_asymm hba)) m.ascending
      m'.ascending
  cases m
  cases m'
  simpa using heq

end SortedMap

end TickEngine
