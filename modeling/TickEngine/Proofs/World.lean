/-
  Consistent worlds, and what each change does to them.

  The ownership of components is kept twice, in the lists of types and in the
  tables, and the ids a third time by their source.  A world in which the three
  agree is `Consistent`; each change either leaves the world as it was, or is
  given by an equation, and keeps the world consistent.
-/
import TickEngine.Proofs.Identifiers
import TickEngine.Proofs.Ids
import TickEngine.Proofs.Storage

namespace TickEngine.World

open Store (Gains)

variable {w : World} {e : Entity} {t : TypeId} {c : Component} {cs : List Component}

/-- The entity is alive, and the type is in its list. -/
def Owns (w : World) (e : Entity) (t : TypeId) : Prop :=
  ∃ types, w.types? e = some types ∧ t ∈ types

/-- The lists of types, the tables, the registry and the source of ids agree. -/
structure Consistent (w : World) : Prop where
  info : ∀ {t info}, w.registry.get? t = some info → info = .of info.type ∧ info.id = t
  named : ∀ t, (w.registry.get? t).map (·.name) = (w.store.label? t).map (·.2)
  ordered : ∀ {e types}, w.types? e = some types → Ascending types
  holds : w.store.Holds w.Owns
  accounts : w.ids.Accounts fun e => w.contains e = true

theorem contains_iff : w.contains e = true ↔ ∃ types, w.types? e = some types :=
  SortedMap.contains_iff

theorem owns_iff_of_types? {types : List TypeId} (h : w.types? e = some types) :
    w.Owns e t ↔ t ∈ types := by
  simp [Owns, h]

theorem not_owns_of_types? (h : w.types? e = none) : ¬ w.Owns e t := by
  simp [Owns, h]

theorem consistent_start : Consistent {} :=
  { info := fun h => by cases h
    named := fun _ => rfl
    ordered := fun h => by cases h
    holds := Store.holds_start.congr fun e t => by simp [Owns, types?]
    accounts := EntityIds.accounts_start.congr fun e => by simp [contains, SortedMap.contains] }

/-! ## Reading records -/

theorem isSome_table?_iff (hw : w.Consistent) :
    (w.store.table? t).isSome ↔ (w.registry.get? t).isSome := by
  have h := congrArg Option.isSome (hw.named t)
  simp only [Option.isSome_map, Store.label?] at h
  rw [h]

/-- What a record is read as has the identifier of the record, and a table. -/
theorem Consistent.decode (hw : w.Consistent) {r : Record} (h : w.decode r = .ok c) :
    c.typeId = r.typeId ∧ (w.store.table? c.typeId).isSome := by
  unfold World.decode Registry.decode at h
  cases hinfo : w.registry.get? r.typeId with
  | none =>
    rw [hinfo] at h
    cases h
  | some info =>
    obtain ⟨hof, hid⟩ := hw.info hinfo
    simp only [hinfo, TypeInfo.decode, hid, if_true] at h
    have hc : c.type = info.type := by
      cases hx : info.type.decode r.data with
      | error err => simp [hx, Except.map, Except.mapError] at h
      | ok x =>
        simp only [hx, Except.map, Except.mapError, Except.ok.injEq] at h
        rw [← h]
    have hcid : c.typeId = r.typeId := by
      rw [Component.typeId, hc, ← hid, hof]
      rfl
    rw [isSome_table?_iff hw, hcid]
    exact ⟨rfl, by simp [hinfo]⟩

/-! ## Registering -/

theorem registerType_cases (w : World) (t : ComponentType) :
    (∃ err, w.registerType t = (.error err, w)) ∨
    (w.registry.get? t.id = none ∧ w.registerType t = (.ok true,
      { w with registry := w.registry.insert t.id (.of t), store := w.store.ensure t.id t.name })) ∨
    ∃ info, w.registry.get? t.id = some info ∧ info.name = t.name ∧ w.registerType t =
      (.ok false, { w with store := w.store.ensure t.id t.name }) := by
  cases h : w.registry.get? t.id with
  | none => exact .inr (.inl ⟨rfl, by simp [registerType, Registry.register, TypeInfo.of, h]⟩)
  | some info =>
    by_cases hname : info.name = t.name
    · refine .inr (.inr ⟨info, rfl, hname, ?_⟩)
      simp [registerType, Registry.register, TypeInfo.of, h, hname]
    · refine .inl ⟨.typeIdCollision info.name t.name, ?_⟩
      simp [registerType, Registry.register, TypeInfo.of, h, hname]

theorem Consistent.registerType (hw : w.Consistent) (t : ComponentType) :
    (w.registerType t).2.Consistent := by
  rcases registerType_cases w t with ⟨err, h⟩ | ⟨hnew, h⟩ | ⟨info, hold, -, h⟩
  · rwa [h]
  · rw [h]
    have hlabel : w.store.label? t.id = none := by
      have hnamed := hw.named t.id
      rw [hnew] at hnamed
      simpa using hnamed.symm
    refine ⟨?_, ?_, hw.ordered, hw.holds.ensure _ _, hw.accounts⟩
    · intro t' info hinfo
      by_cases heq : t.id = t'
      · subst heq
        rw [SortedMap.get?_insert_self, Option.some.injEq] at hinfo
        subst hinfo
        exact ⟨rfl, rfl⟩
      · rw [SortedMap.get?_insert_of_ne _ heq] at hinfo
        exact hw.info hinfo
    · intro t'
      rw [Store.label?_ensure]
      by_cases heq : t.id = t'
      · subst heq
        simp [hlabel, TypeInfo.of]
      · rw [SortedMap.get?_insert_of_ne _ heq, if_neg fun h => heq h.1]
        exact hw.named t'
  · rw [h]
    refine ⟨hw.info, ?_, hw.ordered, hw.holds.ensure _ _, hw.accounts⟩
    intro t'
    have hlabel : w.store.label? t.id ≠ none := by
      intro hnone
      have hnamed := hw.named t.id
      simp [hold, hnone] at hnamed
    rw [Store.label?_ensure, if_neg fun h => hlabel h.2]
    exact hw.named t'

/-! ## Making entities -/

/-- Components of distinct types with tables can all be stored for an entity
    that has none of them. -/
theorem storeAll_eq {owns : Entity → TypeId → Prop} (hs : w.store.Holds owns)
    (hknown : ∀ c ∈ cs, (w.store.table? c.typeId).isSome) (hnew : ∀ c ∈ cs, ¬ owns e c.typeId)
    (hnodup : (cs.map Component.typeId).Nodup) :
    ∃ store, storeAll e cs w = (.ok (), { w with store }) ∧ Gains e cs w.store store ∧
      store.Holds fun e' t => owns e' t ∨ e' = e ∧ t ∈ cs.map Component.typeId := by
  -- what is stored first becomes part of what `e` owns when the rest is stored
  induction cs generalizing w owns with
  | nil => exact ⟨w.store, rfl, .nil e w.store, hs.congr fun e' t => by simp⟩
  | cons c rest ih =>
    rw [List.map_cons, List.nodup_cons] at hnodup
    obtain ⟨r, store₁, heq₁, hgains₁, hholds₁⟩ :=
      hs.insert (hknown c (by simp)) (hnew c (by simp))
    have hstore : w.storeComponent e c = (.ok (), { w with store := store₁ }) := by
      simp [storeComponent, heq₁]
    obtain ⟨store, heq, hgains, hholds⟩ := ih (w := { w with store := store₁ }) hholds₁
      (fun c' hc' => by
        rw [Store.isSome_table?_of_label? (hgains₁.label? c'.typeId)]
        exact hknown c' (by simp [hc']))
      (fun c' hc' howns => by
        rcases howns with howns | ⟨-, heq⟩
        · exact hnew c' (by simp [hc']) howns
        · exact hnodup.1 (List.mem_map.2 ⟨c', hc', heq⟩))
      hnodup.2
    refine ⟨store, ?_, hgains₁.cons hgains hnodup.1, hholds.congr ?_⟩
    · rw [storeAll, hstore]
      exact heq
    · intro e' t
      rw [List.map_cons, List.mem_cons, and_or_left, or_assoc]

theorem spawn_of_unknown (h : (cs.map Component.typeId).find?
    (fun t => (w.store.table? t).isNone) = some t) :
    w.spawn cs = (.error (.component (.unknownType t)), w) := by
  simp [spawn, h]

theorem find?_unknown_eq_none (hknown : ∀ c ∈ cs, (w.store.table? c.typeId).isSome) :
    (cs.map Component.typeId).find? (fun t => (w.store.table? t).isNone) = none := by
  simpa [List.find?_eq_none, Option.isSome_iff_ne_none] using hknown

theorem spawn_of_repeat (hknown : ∀ c ∈ cs, (w.store.table? c.typeId).isSome)
    (h : smallestRepeat? (cs.map Component.typeId) = some t) :
    w.spawn cs = (.error (.duplicateComponent t), w) := by
  simp [spawn, find?_unknown_eq_none hknown, firstRepeat?_ascending, h]

/-- What is handed out next is not alive. -/
theorem Consistent.types?_allocate (hw : w.Consistent) : w.types? w.ids.allocate.1 = none := by
  have hnot := hw.accounts.not_live_allocate
  rw [contains_iff] at hnot
  exact Option.eq_none_iff_forall_ne_some.2 fun types h => hnot ⟨types, h⟩

/-- Components of distinct types with tables make a new entity. -/
theorem Consistent.spawn_of_distinct (hw : w.Consistent)
    (hknown : ∀ c ∈ cs, (w.store.table? c.typeId).isSome)
    (hnodup : (cs.map Component.typeId).Nodup) :
    ∃ store, w.spawn cs = (.ok w.ids.allocate.1,
        { w with
          ids := w.ids.allocate.2
          owned := w.owned.insert w.ids.allocate.1 (ascending (cs.map Component.typeId))
          store }) ∧
      Gains w.ids.allocate.1 cs w.store store ∧
      store.Holds fun e t =>
        w.Owns e t ∨ e = w.ids.allocate.1 ∧ t ∈ cs.map Component.typeId := by
  have hdead := hw.types?_allocate
  obtain ⟨store, heq, hgains, hholds⟩ := storeAll_eq (w := { w with ids := w.ids.allocate.2 })
    (e := w.ids.allocate.1) hw.holds hknown (fun c _ => not_owns_of_types? hdead) hnodup
  refine ⟨store, ?_, hgains, hholds⟩
  rw [← smallestRepeat?_eq_none_iff] at hnodup
  simp [spawn, find?_unknown_eq_none hknown, firstRepeat?_ascending, hnodup, heq]

theorem spawn_cases (w : World) (cs : List Component) :
    (∃ err, w.spawn cs = (.error err, w)) ∨
    (∀ c ∈ cs, (w.store.table? c.typeId).isSome) ∧ (cs.map Component.typeId).Nodup := by
  cases hunknown : (cs.map Component.typeId).find? (fun t => (w.store.table? t).isNone) with
  | some t => exact .inl ⟨_, spawn_of_unknown hunknown⟩
  | none =>
    have hknown : ∀ c ∈ cs, (w.store.table? c.typeId).isSome := by
      simpa [List.find?_eq_none, Option.isSome_iff_ne_none] using hunknown
    cases hrepeat : smallestRepeat? (cs.map Component.typeId) with
    | some t => exact .inl ⟨_, spawn_of_repeat hknown hrepeat⟩
    | none => exact .inr ⟨hknown, smallestRepeat?_eq_none_iff.1 hrepeat⟩

/-! ## Consistency after a change of one entity -/

/-- A world with new types listed for `e` and a store to match is consistent. -/
theorem Consistent.with_types (hw : w.Consistent) {types : List TypeId} {store : Store}
    {ids : EntityIds} (htypes : Ascending types) (hlabel : ∀ t, store.label? t = w.store.label? t)
    (hholds : store.Holds fun e' t => if e' = e then t ∈ types else w.Owns e' t)
    (hids : ids.Accounts fun e' => w.contains e' = true ∨ e' = e) :
    ({ w with ids, owned := w.owned.insert e types, store } : World).Consistent := by
  have hother : ∀ {e'}, e' ≠ e → (w.owned.insert e types).get? e' = w.owned.get? e' :=
    fun hne => SortedMap.get?_insert_of_ne _ (Ne.symm hne) _
  refine ⟨hw.info, ?_, ?_, hholds.congr ?_,
    hids.congr ?_⟩
  · intro t
    rw [hlabel]
    exact hw.named t
  · intro e' types' h
    by_cases he : e' = e
    · subst he
      simp only [types?, SortedMap.get?_insert_self, Option.some.injEq] at h
      exact h ▸ htypes
    · simp only [types?, hother he] at h
      exact hw.ordered h
  · intro e' t
    by_cases he : e' = e
    · subst he
      simp [Owns, types?]
    · simp only [Owns, types?, hother he, if_neg he]
  · intro e'
    by_cases he : e' = e
    · subst he
      simp [contains, SortedMap.contains]
    · simp only [contains, SortedMap.contains, hother he, he, or_false]

theorem Consistent.spawn (hw : w.Consistent) (cs : List Component)
    (hroom : w.ids.newIds (w.spawn cs).2.ids = 1 → w.ids.next.toNat + 1 < 2 ^ 64)
    (hpos : 0 < w.ids.next) : (w.spawn cs).2.Consistent := by
  rcases spawn_cases w cs with ⟨err, h⟩ | ⟨hknown, hnodup⟩
  · rwa [h]
  · obtain ⟨store, h, hgains, hholds⟩ := hw.spawn_of_distinct hknown hnodup
    rw [h] at hroom ⊢
    refine hw.with_types (ascending_ascending hnodup) hgains.label? (hholds.congr ?_)
      (hw.accounts.allocate hroom hpos)
    intro e t
    split
    · rename_i he
      have hnot : ¬ w.Owns w.ids.allocate.1 t := not_owns_of_types? hw.types?_allocate
      simp [he, hnot, (perm_ascending _).mem_iff]
    · rename_i he
      simp [he]

/-! ## Giving and taking components -/

theorem Consistent.insert_cases (hw : w.Consistent) (e : Entity) (c : Component) :
    (∃ err, w.insert e c = (.error err, w)) ∨
    ∃ types store, w.types? e = some types ∧ c.typeId ∉ types ∧
      w.insert e c = (.ok (), { w with owned := w.owned.insert e (c.typeId.place types), store }) ∧
      Gains e [c] w.store store ∧
      store.Holds fun e' t => w.Owns e' t ∨ e' = e ∧ t = c.typeId := by
  cases htypes : w.types? e with
  | none => exact .inl ⟨.entityNotFound e, by simp [World.insert, htypes]⟩
  | some types =>
    by_cases hmem : c.typeId ∈ types
    · exact .inl ⟨.componentExists e c.typeId, by simp [World.insert, htypes, hmem]⟩
    · cases ht : w.store.table? c.typeId with
      | none =>
        refine .inl ⟨.component (.unknownType c.typeId), ?_⟩
        simp [World.insert, htypes, hmem, storeComponent, Store.insert, ht]
      | some table =>
        have hnot : ¬ w.Owns e c.typeId := by rwa [owns_iff_of_types? htypes]
        obtain ⟨r, store, heq, hgains, hholds⟩ := hw.holds.insert (by simp [ht]) hnot
        refine .inr ⟨types, store, rfl, hmem, ?_, hgains, hholds⟩
        simp [World.insert, htypes, hmem, storeComponent, heq]

theorem Consistent.accounts_of_types? (hw : w.Consistent) {types : List TypeId}
    (h : w.types? e = some types) : w.ids.Accounts fun e' => w.contains e' = true ∨ e' = e := by
  refine hw.accounts.congr fun e' => or_iff_left_of_imp ?_
  rintro rfl
  exact contains_iff.2 ⟨types, h⟩

theorem Consistent.insert (hw : w.Consistent) (e : Entity) (c : Component) :
    (w.insert e c).2.Consistent := by
  rcases hw.insert_cases e c with ⟨err, h⟩ | ⟨types, store, htypes, hnew, h, hgains, hholds⟩
  · rwa [h]
  · rw [h]
    refine hw.with_types (TypeId.ascending_place _ (hw.ordered htypes)) hgains.label?
      (hholds.congr ?_) (hw.accounts_of_types? htypes)
    intro e' t
    split
    · rename_i he
      rw [he, owns_iff_of_types? htypes, TypeId.mem_place (hw.ordered htypes), or_comm]
      simp
    · rename_i he
      simp [he]

theorem remove_cases (w : World) (e : Entity) (t : TypeId) :
    (∃ r, ¬ w.Owns e t ∧ w.remove e t = (r, w)) ∨
    ∃ types, w.types? e = some types ∧ t ∈ types ∧ w.remove e t = (.ok true,
      { w with owned := w.owned.insert e (types.erase t), store := (w.store.remove t e).2 }) := by
  cases htypes : w.types? e with
  | none =>
    exact .inl ⟨.error (.entityNotFound e), not_owns_of_types? htypes,
      by simp [World.remove, htypes]⟩
  | some types =>
    by_cases hmem : t ∈ types
    · exact .inr ⟨types, rfl, hmem, by simp [World.remove, htypes, hmem]⟩
    · exact .inl ⟨.ok false, by rwa [owns_iff_of_types? htypes],
        by simp [World.remove, htypes, hmem]⟩

theorem Consistent.remove (hw : w.Consistent) (e : Entity) (t : TypeId) :
    (w.remove e t).2.Consistent := by
  rcases remove_cases w e t with ⟨r, -, h⟩ | ⟨types, htypes, hmem, h⟩
  · rwa [h]
  · rw [h]
    have hholds := hw.holds.restrict (fun e' t' => ¬ (t = t' ∧ e = e'))
      (fun t' => Store.label?_remove w.store t t' e) (Store.cells_remove w.store t e)
      (fun hk => by rw [Store.find?_remove, if_neg hk])
      (fun hk => by rw [Store.find?_remove, if_pos (not_not.1 hk)])
    refine hw.with_types ((hw.ordered htypes).sublist List.erase_sublist)
      (fun t' => Store.label?_remove w.store t t' e) (hholds.congr fun e' t' => ?_)
      (hw.accounts_of_types? htypes)
    split
    · rename_i he
      rw [he, owns_iff_of_types? htypes, (hw.ordered htypes).mem_erase_iff]
      simp [eq_comm, and_comm]
    · rename_i he
      simp [Ne.symm he]

/-! ## Destroying entities -/

theorem despawn_of_types? {types : List TypeId} (h : w.types? e = some types) :
    w.despawn e = (true, { w with
      ids := w.ids.release e
      owned := w.owned.erase e
      store := dropAll e types w.store }) := by
  simp [World.despawn, h]

theorem despawn_of_dead (h : w.types? e = none) : w.despawn e = (false, w) := by
  simp [World.despawn, h]

theorem Consistent.despawn (hw : w.Consistent) (e : Entity) : (w.despawn e).2.Consistent := by
  cases htypes : w.types? e with
  | none => rwa [despawn_of_dead htypes]
  | some types =>
    rw [despawn_of_types? htypes]
    have hother : ∀ {e'}, e' ≠ e → (w.owned.erase e).get? e' = w.owned.get? e' :=
      fun hne => SortedMap.get?_erase_of_ne _ (Ne.symm hne)
    have hholds := hw.holds.restrict (fun e' t => ¬ (e = e' ∧ t ∈ types))
      (fun t => Store.label?_dropAll e t types w.store) (Store.cells_dropAll e types w.store)
      (fun hk => by rw [Store.find?_dropAll, if_neg hk])
      (fun hk => by rw [Store.find?_dropAll, if_pos (not_not.1 hk)])
    refine ⟨hw.info, ?_, ?_, hholds.congr ?_,
      (hw.accounts.release (contains_iff.2 ⟨types, htypes⟩)).congr ?_⟩
    · intro t
      rw [Store.label?_dropAll]
      exact hw.named t
    · intro e' types' h
      by_cases he : e' = e
      · simp [types?, he] at h
      · simp only [types?, hother he] at h
        exact hw.ordered h
    · intro e' t
      by_cases he : e' = e
      · rw [he, owns_iff_of_types? htypes]
        simp [Owns, types?]
      · simp [Owns, types?, hother he, Ne.symm he]
    · intro e'
      by_cases he : e' = e
      · simp [contains, SortedMap.contains, he]
      · simp [contains, SortedMap.contains, hother he, he]

/-! ## Changing values -/

/-- Overwriting values keeps a world consistent. -/
theorem Consistent.with_cells (hw : w.Consistent) {cells : Cells}
    (hc : w.store.cells.SameTypes cells) :
    ({ w with store := { w.store with cells } } : World).Consistent :=
  ⟨hw.info, hw.named, hw.ordered, hw.holds.of_sameTypes hc, hw.accounts⟩

theorem replace_of_missing (h : w.find? e c.typeId = none) :
    w.replace e c = (.error (.componentMissing e c.typeId), w) := by
  simp [World.replace, h]

theorem Consistent.replace_of_find? (hw : w.Consistent) {r : CellRef}
    (h : w.find? e c.typeId = some r) : w.replace e c =
      (.ok (), { w with store := { w.store with cells := w.store.cells.set r.cell c } }) := by
  simp [World.replace, h, CellRef.replace, hw.holds.typed h, Except.map, Except.mapError]

theorem Consistent.replace (hw : w.Consistent) (e : Entity) (c : Component) :
    (w.replace e c).2.Consistent := by
  cases h : w.find? e c.typeId with
  | none => rwa [replace_of_missing h]
  | some r =>
    rw [hw.replace_of_find? h]
    obtain ⟨c', hc', hid⟩ := hw.holds.valid h
    exact hw.with_cells (Cells.sameTypes_set hc' ((hw.holds.typed h).symm.trans hid.symm))

end TickEngine.World
