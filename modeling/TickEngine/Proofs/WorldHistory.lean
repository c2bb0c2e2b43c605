/-
  The worlds that changes lead to, and what holds of all of them.

  `World.Reaches n w` says that some sequence of changes, failed ones included,
  leads from the empty world to `w` and hands out `n` ids for the first time.
  As long as the ids last, every such world is consistent
  (`Reaches.consistent`), which `Reaches.represented` spells out.
-/
import TickEngine.Component.Catalog
import TickEngine.Proofs.World

namespace TickEngine.World

variable {w w' : World} {n : Nat}

/-- The world with other contents of its cells. -/
def withCells (w : World) (cells : Cells) : World := { w with store := { w.store with cells } }

/-- One change of a world, whether it succeeds or fails. -/
inductive Step (w : World) : World → Prop
  | registerType (t : ComponentType) : Step w (w.registerType t).2
  | spawn (cs : List Component) : Step w (w.spawn cs).2
  | despawn (e : Entity) : Step w (w.despawn e).2
  | insert (e : Entity) (c : Component) : Step w (w.insert e c).2
  | remove (e : Entity) (t : TypeId) : Step w (w.remove e t).2
  | replace (e : Entity) (c : Component) : Step w (w.replace e c).2
  /-- A value is written through any handle. -/
  | write (r : CellRef) (t : ComponentType) (x : t.Data) :
      Step w (w.withCells (r.writeAs w.store.cells t x).2)
  /-- A component is overwritten through a handle, old or new, on a cell that a
      table gave it (`Consistent.valid`, `Step.valid`). -/
  | overwrite (r : CellRef) (c : Component) : r.Valid w.store.cells →
      Step w (w.withCells (r.replace w.store.cells c).2)

/-- The worlds after changes that hand out `n` ids for the first time. -/
inductive Reaches : Nat → World → Prop
  | start : Reaches 0 {}
  | step {n : Nat} {w w' : World} : Reaches n w → Step w w' →
      Reaches (n + w.ids.newIds w'.ids) w'

theorem Reaches.step_of_next (h : Reaches n w) (hstep : Step w w')
    (hnext : w'.ids.next = w.ids.next) : Reaches n w' := by
  have h' := h.step hstep
  rwa [EntityIds.newIds_eq_zero hnext] at h'

/-! ## One change -/

/-- The handles of the tables are valid. -/
theorem Consistent.valid (hw : w.Consistent) {e : Entity} {t : TypeId} {r : CellRef}
    (h : w.find? e t = some r) : r.Valid w.store.cells :=
  hw.holds.valid h

/-- A valid handle stays valid, also when no table holds it any more. -/
theorem Step.valid (h : Step w w') (hw : w.Consistent) {r : CellRef}
    (hr : r.Valid w.store.cells) : r.Valid w'.store.cells := by
  have hgains : ∀ {e cs store}, Store.Gains e cs w.store store → r.Valid store.cells := by
    intro e cs store hg
    obtain ⟨c, hc, hid⟩ := hr
    exact ⟨c, by rw [hg.read (by simp [hc]), hc], hid⟩
  cases h with
  | registerType t =>
    rcases registerType_cases w t with ⟨err, h⟩ | ⟨-, h⟩ | ⟨info, -, -, h⟩ <;> rw [h]
    · exact hr
    · exact Store.cells_ensure w.store t.id t.name ▸ hr
    · exact Store.cells_ensure w.store t.id t.name ▸ hr
  | spawn cs =>
    rcases spawn_cases w cs with ⟨err, h⟩ | ⟨hknown, hnodup⟩
    · rwa [h]
    · obtain ⟨store, h, hg, -⟩ := hw.spawn_of_distinct hknown hnodup
      rw [h]
      exact hgains hg
  | despawn e =>
    cases htypes : w.types? e with
    | none => rwa [despawn_of_dead htypes]
    | some types =>
      rw [despawn_of_types? htypes]
      exact Store.cells_dropAll e types w.store ▸ hr
  | insert e c =>
    rcases hw.insert_cases e c with ⟨err, h⟩ | ⟨types, store, -, -, h, hg, -⟩
    · rwa [h]
    · rw [h]
      exact hgains hg
  | remove e t =>
    rcases remove_cases w e t with ⟨res, -, h⟩ | ⟨types, -, -, h⟩
    · rwa [h]
    · rw [h]
      exact Store.cells_remove w.store t e ▸ hr
  | replace e c =>
    cases hfind : w.find? e c.typeId with
    | none => rwa [replace_of_missing hfind]
    | some r' =>
      rw [hw.replace_of_find? hfind]
      obtain ⟨c', hc', hid⟩ := hw.valid hfind
      exact (Cells.sameTypes_set hc' ((hw.holds.typed hfind).symm.trans hid.symm)).valid hr
  | write r' t x => exact (Cells.sameTypes_writeAs r' w.store.cells t x).valid hr
  | overwrite r' c hr' => exact (Cells.sameTypes_replace hr' c).valid hr

/-- Only a new entity can move the next id on. -/
theorem next_spawn (hw : w.Consistent) (cs : List Component)
    (hroom : w.ids.newIds (w.spawn cs).2.ids = 1 → w.ids.next.toNat + 1 < 2 ^ 64) :
    (w.spawn cs).2.ids.next.toNat = w.ids.next.toNat + w.ids.newIds (w.spawn cs).2.ids := by
  rcases spawn_cases w cs with ⟨err, h⟩ | ⟨hknown, hnodup⟩
  · rw [h, EntityIds.newIds_eq_zero rfl]
    rfl
  · obtain ⟨store, h, -, -⟩ := hw.spawn_of_distinct hknown hnodup
    rw [h] at hroom ⊢
    exact EntityIds.toNat_next_allocate hroom

/-- A change that finds ids left keeps the world consistent. -/
theorem Step.consistent (h : Step w w') (hw : w.Consistent) (hnext : w.ids.next.toNat = n + 1)
    (hn : n + w.ids.newIds w'.ids < 2 ^ 64 - 1) :
    w'.Consistent ∧ w'.ids.next.toNat = n + w.ids.newIds w'.ids + 1 := by
  -- only a new entity moves the next id on
  have hsame : ∀ {v : World}, v.ids.next = w.ids.next → v.Consistent →
      v.Consistent ∧ v.ids.next.toNat = n + w.ids.newIds v.ids + 1 := by
    intro v hids hv
    rw [EntityIds.newIds_eq_zero hids, hids, hnext]
    exact ⟨hv, rfl⟩
  cases h with
  | registerType t =>
    refine hsame ?_ (hw.registerType t)
    rcases registerType_cases w t with ⟨err, h⟩ | ⟨-, h⟩ | ⟨info, -, -, h⟩ <;> rw [h]
  | spawn cs =>
    have hroom : w.ids.newIds (w.spawn cs).2.ids = 1 → w.ids.next.toNat + 1 < 2 ^ 64 := by
      intro hnew
      omega
    have hpos : 0 < w.ids.next := by
      rw [UInt64.lt_iff_toNat_lt, hnext]
      exact Nat.succ_pos n
    refine ⟨hw.spawn cs hroom hpos, ?_⟩
    rw [next_spawn hw cs hroom, hnext]
    omega
  | despawn e =>
    refine hsame ?_ (hw.despawn e)
    cases htypes : w.types? e with
    | none => rw [despawn_of_dead htypes]
    | some types =>
      rw [despawn_of_types? htypes]
      exact EntityIds.next_release w.ids e
  | insert e c =>
    refine hsame ?_ (hw.insert e c)
    rcases hw.insert_cases e c with ⟨err, h⟩ | ⟨types, store, -, -, h, -, -⟩ <;> rw [h]
  | remove e t =>
    refine hsame ?_ (hw.remove e t)
    rcases remove_cases w e t with ⟨res, -, h⟩ | ⟨types, -, -, h⟩ <;> rw [h]
  | replace e c =>
    refine hsame ?_ (hw.replace e c)
    cases hfind : w.find? e c.typeId with
    | none => rw [replace_of_missing hfind]
    | some r => rw [hw.replace_of_find? hfind]
  | write r t x => exact hsame rfl (hw.with_cells (Cells.sameTypes_writeAs r w.store.cells t x))
  | overwrite r c hr => exact hsame rfl (hw.with_cells (Cells.sameTypes_replace hr c))

/-! ## All changes -/

theorem Reaches.consistent_and_next (h : Reaches n w) (hn : n < 2 ^ 64 - 1) :
    w.Consistent ∧ w.ids.next.toNat = n + 1 := by
  induction h with
  | start => exact ⟨consistent_start, rfl⟩
  | step _ hstep ih =>
    obtain ⟨hw, hnext⟩ := ih (by omega)
    exact hstep.consistent hw hnext hn

theorem Reaches.consistent (h : Reaches n w) (hn : n < 2 ^ 64 - 1) : w.Consistent :=
  (h.consistent_and_next hn).1

/-- **What a world keeps several times, it keeps alike.**  The parts are the
    registered types, the owned ones, the stored components, the ids, and the
    records. -/
theorem Reaches.represented (h : Reaches n w) (hn : n < 2 ^ 64 - 1) :
    ((∀ t, (w.registry.get? t).map (·.name) = (w.store.table? t).map (·.name)) ∧
      ∀ t table, w.store.table? t = some table → table.typeId = t) ∧
    ((∀ e t, (∃ r, w.find? e t = some r) ↔ ∃ types, w.types? e = some types ∧ t ∈ types) ∧
      ∀ e types, w.types? e = some types → types.Pairwise fun t u => rank t < rank u) ∧
    (∀ e t r, w.find? e t = some r →
      r.typeId = t ∧ ∃ c, r.read w.store.cells = some c ∧ c.typeId = t) ∧
    (w.ids.released.Nodup ∧
      (∀ id ∈ w.ids.released, w.contains ⟨id⟩ = false) ∧
      (∀ id, w.contains ⟨id⟩ = true ∨ id ∈ w.ids.released ↔
        1 ≤ id.toNat ∧ id.toNat ≤ w.ids.next.toNat - 1) ∧
      w.ids.next.toNat = n + 1 ∧
      w.ids.count.toNat = w.entityCount ∧
      w.contains .invalid = false ∧
      w.contains w.ids.allocate.1 = false) ∧
    ∀ r c, w.decode r = .ok c → c.typeId = r.typeId := by
  obtain ⟨hw, hnext⟩ := h.consistent_and_next hn
  have hpos : 0 < w.ids.next := by
    rw [UInt64.lt_iff_toNat_lt, hnext]
    exact Nat.succ_pos n
  have hissued : ∀ id, w.contains ⟨id⟩ = true ∨ id ∈ w.ids.released ↔
      1 ≤ id.toNat ∧ id.toNat ≤ w.ids.next.toNat - 1 := by
    intro id
    rw [hw.accounts.issued_iff, UInt64.lt_iff_toNat_lt, UInt64.lt_iff_toNat_lt, UInt64.toNat_zero]
    omega
  have hmem : ∀ e, e ∈ w.owned.keys ↔ w.contains e = true := fun e => SortedMap.mem_keys_iff
  refine ⟨⟨?_, ?_⟩, ⟨?_, fun e types => hw.ordered⟩,
    ?_, ⟨hw.accounts.nodup, ?_, hissued, hnext, ?_, ?_, ?_⟩,
    fun r c hc => (hw.decode hc).1⟩
  · intro t
    rw [hw.named t, Store.label?, Option.map_map]
    rfl
  · intro t table ht
    exact hw.holds.label (by rw [Store.label?, ht, Option.map_some])
  · intro e t
    rw [← Option.isSome_iff_exists]
    exact hw.holds.isSome_find? e t
  · intro e t r hr
    obtain ⟨c, hc, hid⟩ := hw.valid hr
    exact ⟨hw.holds.typed hr, c, hc, hid.trans (hw.holds.typed hr)⟩
  · intro id hid
    exact Bool.eq_false_iff.2 (hw.accounts.disjoint id hid)
  · rw [hw.accounts.toNat_count w.owned.ascending_keys.nodup hmem hpos, entityCount,
      SortedMap.size, SortedMap.keys, List.length_map]
  · refine Bool.eq_false_iff.2 ?_
    intro hlive
    have := ((hissued 0).1 (.inl hlive)).1
    simp at this
  · exact Bool.eq_false_iff.2 hw.accounts.not_live_allocate

/-- A world in which an id is in use for the second time, by an entity whose
    component is of another type than the registered one of its name. -/
def recycled : World :=
  let w := (({} : World).registerType Catalog.x).2
  let w := (w.spawn [⟨Catalog.x, (5 : BitVec 32)⟩]).2
  let w := (w.despawn ⟨1⟩).2
  (w.spawn [⟨Catalog.xAlias, Single.ofBits 0⟩]).2

theorem reaches_recycled : Reaches 1 recycled := by
  have h := ((Reaches.start.step (.registerType Catalog.x)).step
    (.spawn [⟨Catalog.x, (5 : BitVec 32)⟩])).step (.despawn ⟨1⟩)
  have h' := h.step (.spawn [⟨Catalog.xAlias, Single.ofBits 0⟩])
  unfold recycled
  convert h'
  decide +kernel

theorem represented_recycled :
    Reaches 1 recycled ∧ 1 < 2 ^ 64 - 1 ∧ recycled.entities = [⟨1⟩] ∧
      (∃ r, recycled.find? ⟨1⟩ Catalog.x.id = some r) ∧
      recycled.ids.count.toNat = recycled.entityCount ∧
      recycled.contains recycled.ids.allocate.1 = false := by
  obtain ⟨-, ⟨hcells, -⟩, -, ⟨-, -, -, -, hcount, -, hnew⟩, -⟩ :=
    reaches_recycled.represented (by decide)
  have htypes : recycled.types? ⟨1⟩ = some [Catalog.x.id] := by decide +kernel
  exact ⟨reaches_recycled, by decide, by decide +kernel,
    (hcells ⟨1⟩ Catalog.x.id).2 ⟨_, htypes, List.mem_singleton_self _⟩, hcount, hnew⟩

end TickEngine.World
