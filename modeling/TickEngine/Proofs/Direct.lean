/-
  Calls from outside and the commands that say the same.

  A call hands its components over, while a command carries their records.
  Records are read before anything is checked, so a command may be refused for
  its records where the call is refused for its entity; apart from that the two
  answer alike, as long as a record reads back as the value that it was written
  from.

  * `Engine.Reaches.concurs`: the two leave the same engine;
  * `Engine.spawn_nested`: they do not for data that reads back as other data.
-/
import TickEngine.Proofs.Failure
import TickEngine.Proofs.Ledger
import TickEngine.Proofs.Records

namespace TickEngine

open Schema (Shape)

/-! ## Records for components -/

namespace World

variable {w : World} {e : Entity} {c : Component} {r : Record}

/-- The record is that of the component and reads back as its value, and a world
    that knows the identifier knows it by the type of the component, as the first
    type under the name. -/
structure Conveys (w : World) (r : Record) (c : Component) : Prop where
  written : c.record = .ok r
  readsBack : c.type.decode r.data = .ok c.value
  first : ∀ info, w.registry.get? c.typeId = some info → info.type = c.type

/-- Records of well-formed shapes read back, if lengths have a spelling. -/
theorem Conveys.of_wellFormed (hshape : c.type.shape.wellFormed)
    (hshort : c.type.shape.Short c.value) (hwritten : c.record = .ok r)
    (hfirst : ∀ info, w.registry.get? c.typeId = some info → info.type = c.type) :
    w.Conveys r c := by
  obtain ⟨hencode, -⟩ := Component.record_eq_ok hwritten
  obtain ⟨happend, -⟩ := ComponentType.decode_of_delimits
    (Shape.delimits hshape hshort hencode)
  exact ⟨hwritten, by simpa using happend [], hfirst⟩

/-- The first of the types that has no table. -/
abbrev unknown? (w : World) (types : List TypeId) : Option TypeId :=
  types.find? fun t => (w.store.table? t).isNone

/-- The record reads as the component when the type has a table, and is refused
    otherwise. -/
theorem Consistent.decode_of_conveys (hw : w.Consistent) (h : w.Conveys r c) :
    w.decode r = if (w.store.table? c.typeId).isSome then .ok c
      else .error (.component (.unknownType c.typeId)) := by
  obtain ⟨t, x⟩ := c
  obtain ⟨-, hid⟩ := Component.record_eq_ok h.written
  obtain ⟨id, data⟩ := r
  obtain rfl : id = t.id := hid
  simp only [Component.typeId, isSome_table?_iff hw, World.decode]
  cases hinfo : w.registry.get? t.id with
  | none => simp [Registry.decode, hinfo, Except.mapError]
  | some info =>
    -- the identifier leads to the type of the component, which reads its own bytes
    have hknown : w.registry.get? t.id = some (.of t) := by
      obtain ⟨heq, -⟩ := hw.info hinfo
      rw [hinfo, heq, h.first info hinfo]
    rw [Registry.decode_of_get? hknown, h.readsBack]
    rfl

/-- Reading stops at the first component whose type has no table. -/
theorem Consistent.decodeAll_of_conveys (hw : w.Consistent) {records : List Record}
    {cs : List Component} (h : List.Forall₂ w.Conveys records cs) :
    w.decodeAll records = match w.unknown? (cs.map Component.typeId) with
      | some t => .error (.component (.unknownType t))
      | none => .ok cs := by
  unfold decodeAll
  induction h with
  | nil => rfl
  | @cons r c records cs hc _ ih =>
    rw [List.mapM_cons, hw.decode_of_conveys hc, ih]
    cases htable : w.store.table? c.typeId with
    | none => simp [htable, bind, Except.bind]
    | some table =>
      simp only [Option.isSome_some, if_true, List.map_cons, unknown?,
        List.find?_cons, htable, Option.isNone_some]
      cases (cs.map Component.typeId).find? fun t => (w.store.table? t).isNone <;> rfl

/-- Whoever is alive is refused a component whose type has no table. -/
theorem Consistent.insert_of_unknown (hw : w.Consistent) (e : Entity)
    (hunknown : w.store.table? c.typeId = none) :
    w.insert e c = (.error (if w.contains e then .component (.unknownType c.typeId)
      else .entityNotFound e), w) := by
  unfold World.insert
  cases htypes : w.types? e with
  | none => simp [contains_of_dead htypes]
  | some types =>
    have hnot : c.typeId ∉ types := by
      rw [← owns_iff_of_types? htypes, ← hw.holds.isSome_find?]
      simp [Store.find?, Tables.find?, show w.store.tables.get? c.typeId = none from hunknown]
    have hstore : w.storeComponent e c = (.error (.component (.unknownType c.typeId)), w) := by
      simp only [storeComponent, Store.insert, hunknown]
    simp [hnot, hstore, contains_of_types? htypes]

theorem Consistent.remove_of_missing (hw : w.Consistent) {t : TypeId} (h : w.find? e t = none) :
    w.remove e t = (if w.contains e then .ok false else .error (.entityNotFound e), w) := by
  unfold World.remove
  cases htypes : w.types? e with
  | none => simp [contains_of_dead htypes]
  | some types =>
    have hnot : t ∉ types := by
      rw [← owns_iff_of_types? htypes, ← hw.holds.isSome_find?, Option.not_isSome_iff_eq_none]
      exact h
    simp [hnot, contains_of_types? htypes]

theorem Consistent.remove_of_found (hw : w.Consistent) {t : TypeId} {ref : CellRef}
    (h : w.find? e t = some ref) : w.contains e ∧ (w.remove e t).1 = .ok true := by
  have howns : w.Owns e t := (hw.holds.isSome_find? e t).1 (by rw [← find?, h, Option.isSome_some])
  obtain ⟨types, htypes, hmem⟩ := howns
  simp [World.remove, htypes, hmem, contains_of_types? htypes]

end World

/-! ## Calls and commands -/

namespace Engine

variable {σ : Type} {trees : Pipeline σ → Prop} {g : Engine σ} {n : Nat}

/-- What a call and the command that says the same have in common.  The engine
    that they leave is the same one, with its entities, what they own, its
    cells, ids and rows, and the request to exit. -/
structure Concurs (g : Engine σ) : Prop where
  /-- Both make the same entity, or are refused for the same reason. -/
  spawn : ∀ {records : List Record} {cs : List Component},
    List.Forall₂ g.world.Conveys records cs →
      g.spawn cs = ((commands.spawn records g).1.mapError .world,
        ((Command.spawn records).apply commands g).2) ∧
      ((Command.spawn records).apply commands g).1.mapError EngineError.world =
        (g.spawn cs).1.map fun _ => ()
  /-- Where the entity is not alive, the call is refused for that, and the
      command for that or its record. -/
  insert : ∀ {r : Record} {c : Component}, g.world.Conveys r c → ∀ e : Entity,
    ((Command.insert e r).apply commands g).2 = (g.insert e c).2 ∧
      (((Command.insert e r).apply commands g).1 = .ok () ↔ (g.insert e c).1 = .ok ()) ∧
      (g.insert e c).1 = if g.world.contains e
        then ((Command.insert e r).apply commands g).1.mapError .world
        else .error (.world (.entityNotFound e))
  /-- The command takes no notice of what the call answers. -/
  despawn : ∀ e : Entity,
    (Command.despawn e).apply commands g = (.ok (), (g.despawn e).2) ∧
      (g.despawn e).1 = g.world.contains e ∧ (¬ g.world.contains e → (g.despawn e).2 = g)
  /-- The command takes no notice of what the call answers. -/
  remove : ∀ (e : Entity) (t : TypeId),
    (Command.remove e t).apply commands g = (.ok (), (g.remove e t).2) ∧
      (g.remove e t).1 = (if g.world.contains e then .ok (g.world.find? e t).isSome
        else .error (.world (.entityNotFound e))) ∧
      ((g.world.find? e t).isNone → (g.remove e t).2 = g)

theorem mapError_map {ε ε' α β : Type} (r : Except ε α) (f : ε → ε') (k : α → β) :
    (r.map k).mapError f = (r.mapError f).map k := by
  cases r <;> rfl

/-- Records of components make the same entity as the components. -/
theorem spawn_of_conveys (hw : g.world.Consistent) {records : List Record} {cs : List Component}
    (h : List.Forall₂ g.world.Conveys records cs) :
    commands.spawn records g = g.spawnComponents cs := by
  have hread := hw.decodeAll_of_conveys h
  cases hunknown : g.world.unknown? (cs.map Component.typeId) with
  | none =>
    rw [hunknown] at hread
    simp only [commands, hread]
  | some t =>
    rw [hunknown] at hread
    simp only [commands, hread, spawnComponents, World.spawn_of_unknown hunknown]

/-- A record is refused before its entity is looked up, a component after. -/
theorem insert_of_conveys (hw : g.world.Consistent) (e : Entity) {r : Record} {c : Component}
    (h : g.world.Conveys r c) :
    commands.insert e r g = if (g.world.store.table? c.typeId).isSome then g.insertComponent e c
      else (.error (.component (.unknownType c.typeId)), g) := by
  have hread := hw.decode_of_conveys h
  cases htable : g.world.store.table? c.typeId <;> rw [htable] at hread <;>
    simp [commands, hread]

theorem insertComponent_of_dead {e : Entity} (h : ¬ g.world.contains e) (c : Component) :
    g.insertComponent e c = (.error (.entityNotFound e), g) := by
  have htypes : g.world.types? e = none := by
    simpa [World.contains_iff, Option.eq_none_iff_forall_ne_some] using h
  have hworld : g.world.insert e c = (.error (.entityNotFound e), g.world) := by
    simp [World.insert, htypes]
  rw [insertComponent, hworld]

theorem concurs_insert (hw : g.world.Consistent) (e : Entity) {r : Record} {c : Component}
    (h : g.world.Conveys r c) :
    (commands.insert e r g).2 = (g.insertComponent e c).2 ∧
      ((commands.insert e r g).1 = .ok () ↔ (g.insertComponent e c).1 = .ok ()) ∧
      (g.insertComponent e c).1 = if g.world.contains e then (commands.insert e r g).1
        else .error (.entityNotFound e) := by
  rw [insert_of_conveys hw e h]
  cases htable : g.world.store.table? c.typeId with
  | some table =>
    refine ⟨rfl, Iff.rfl, ?_⟩
    split
    · rfl
    · rename_i hdead
      rw [insertComponent_of_dead hdead]
  | none =>
    -- the record is refused as such, the component for what comes first
    have hworld := hw.insert_of_unknown e htable
    simp only [insertComponent, hworld, Option.isSome_none, Bool.false_eq_true, if_false,
      reduceCtorEq, true_and]
    split <;> rfl

theorem concurs_despawn (g : Engine σ) (e : Entity) :
    (g.despawn e).1 = g.world.contains e ∧ (¬ g.world.contains e → (g.despawn e).2 = g) := by
  unfold despawn
  by_cases hlive : g.world.contains e
  · obtain ⟨types, htypes⟩ := World.contains_iff.1 hlive
    simp [hlive, World.despawn_of_types? htypes]
  · simp [hlive]

theorem concurs_remove (hw : g.world.Consistent) (e : Entity) (t : TypeId) :
    (g.removeComponent e t).1 = (if g.world.contains e then .ok (g.world.find? e t).isSome
        else .error (.entityNotFound e)) ∧
      ((g.world.find? e t).isNone → (g.removeComponent e t).2 = g) := by
  rw [answer_removeComponent]
  cases hfind : g.world.find? e t with
  | none =>
    have hworld := hw.remove_of_missing hfind
    constructor
    · rw [hworld]
      rfl
    · intro _
      rw [removeComponent, hworld]
      by_cases hlive : g.world.contains e <;> simp [hlive]
  | some ref =>
    obtain ⟨hlive, hanswer⟩ := hw.remove_of_found hfind
    simp [hlive, hanswer]

/-- **Calls and commands agree.**  In every engine that can be reached, a call
    with components and the command with their records leave the same engine;
    spawning answers alike, inserting succeeds alike, and a command to destroy
    or to take succeeds also where the call finds nothing to do. -/
theorem Reaches.concurs (h : Reaches trees n g) (hn : n < 2 ^ 64 - 1) : g.Concurs := by
  have hw := h.consistent hn
  constructor
  case spawn =>
    intro records cs hrecords
    have heq := spawn_of_conveys hw hrecords
    simp only [Command.apply, heq]
    exact ⟨rfl, mapError_map ..⟩
  case insert =>
    intro r c hr e
    obtain ⟨hsame, hok, hanswer⟩ := concurs_insert hw e hr
    refine ⟨hsame, hok.trans mapError_eq_ok_iff.symm, ?_⟩
    simp only [insert, hanswer]
    split <;> rfl
  case despawn =>
    intro e
    exact ⟨rfl, concurs_despawn g e⟩
  case remove =>
    intro e t
    obtain ⟨hanswer, hmissing⟩ := concurs_remove hw e t
    refine ⟨apply_remove g e t, ?_, hmissing⟩
    simp only [remove, hanswer]
    split <;> rfl

/-- A new entity with two components, and a component of a type that is not
    registered for an entity that is not alive. -/
theorem concurs_stocked :
    let cs : List Component := [⟨Catalog.y, (7 : BitVec 32)⟩, ⟨Catalog.x, (5 : BitVec 32)⟩]
    let records : List Record := [⟨Catalog.y.id, [7]⟩, ⟨Catalog.x.id, [5]⟩]
    let mark : Record := ⟨Catalog.tag.id, [0x90]⟩
    Reaches (fun _ => True) 2 stocked ∧ 2 < 2 ^ 64 - 1 ∧
      List.Forall₂ stocked.world.Conveys records cs ∧ stocked.world.Conveys mark ⟨Catalog.tag, ()⟩ ∧
      (commands.spawn records stocked).1 = .ok ⟨3⟩ ∧ (stocked.spawn cs).1 = .ok ⟨3⟩ ∧
      ((Command.spawn records).apply commands stocked).2 = (stocked.spawn cs).2 ∧
      ((Command.insert ⟨9⟩ mark).apply commands stocked).1 =
        .error (.component (.unknownType Catalog.tag.id)) ∧
      (stocked.insert ⟨9⟩ ⟨Catalog.tag, ()⟩).1 = .error (.world (.entityNotFound ⟨9⟩)) ∧
      ((Command.insert ⟨9⟩ mark).apply commands stocked).2 =
        (stocked.insert ⟨9⟩ ⟨Catalog.tag, ()⟩).2 := by
  intro cs records mark
  have hreaches : Reaches (fun _ => True) 2 stocked := reaches_stocked trivial
  have hx : stocked.world.registry.get? Catalog.x.id = some (.of Catalog.x) := by cbv
  have hy : stocked.world.registry.get? Catalog.y.id = some (.of Catalog.y) := by cbv
  have htag : stocked.world.registry.get? Catalog.tag.id = none := by cbv
  have hrecords : List.Forall₂ stocked.world.Conveys records cs := by
    refine .cons (.of_wellFormed (by decide) trivial (by cbv) ?_)
      (.cons (.of_wellFormed (by decide) trivial (by cbv) ?_) .nil)
    · intro info hinfo
      obtain rfl := Option.some.inj (hy.symm.trans hinfo)
      rfl
    · intro info hinfo
      obtain rfl := Option.some.inj (hx.symm.trans hinfo)
      rfl
  have hmark : stocked.world.Conveys mark ⟨Catalog.tag, ()⟩ := by
    have hwritten : Component.record ⟨Catalog.tag, ()⟩ = .ok ⟨Catalog.tag.id, [0x90]⟩ := by cbv
    refine .of_wellFormed (by decide) trivial hwritten ?_
    intro info hinfo
    cases htag.symm.trans hinfo
  have hconcurs := hreaches.concurs (by decide)
  obtain ⟨hspawn, -⟩ := hconcurs.spawn hrecords
  obtain ⟨hsame, -, hanswer⟩ := hconcurs.insert hmark ⟨9⟩
  have hmade : (commands.spawn records stocked).1 = .ok ⟨3⟩ := by cbv
  have hrefused : ((Command.insert ⟨9⟩ mark).apply commands stocked).1 =
      .error (.component (.unknownType Catalog.tag.id)) := by cbv
  refine ⟨hreaches, by decide, hrecords, hmark, hmade, ?_, ?_, hrefused, ?_, hsame⟩
  · rw [hspawn, hmade]
    rfl
  · rw [hspawn]
  · rw [hanswer, if_neg (by decide +kernel)]

/-- A type whose data does not always read back: nothing within an option is
    written as nothing at all. -/
def nested : ComponentType := Catalog.named "Nested" (.option (.option (.unsigned .bits32)))

/-- **A record that reads back as another value makes another entity.**  The type
    is registered, the value has a record, and both the call and the command
    succeed. -/
theorem spawn_nested :
    let g : Engine Unit := (registerType { config := {}, ambient := () } nested).2
    let c : Component := ⟨nested, some none⟩
    let r : Record := ⟨nested.id, [0xc0]⟩
    Reaches (fun _ => True) 0 g ∧ c.record = .ok r ∧
      (∀ info, g.world.registry.get? c.typeId = some info → info.type = c.type) ∧
      (g.spawn [c]).1 = .ok ⟨1⟩ ∧ ((Command.spawn [r]).apply commands g).1 = .ok () ∧
      (g.spawn [c]).2.world.store.value? nested.id ⟨1⟩ = some ⟨nested, some none⟩ ∧
      ((Command.spawn [r]).apply commands g).2.world.store.value? nested.id ⟨1⟩ =
        some ⟨nested, none⟩ := by
  intro g c r
  have hreaches : Reaches (fun _ => True) 0 g := by
    have hstart : Reaches (fun _ : Pipeline Unit => True) 0 { config := {}, ambient := () } :=
      .start {} ()
    have hstep := hstart.step (.registerType nested)
    rw [EntityIds.newIds_eq_zero (by decide +kernel)] at hstep
    exact hstep
  have hfirst : ∀ info, g.world.registry.get? nested.id = some info → info.type = nested := by
    have hinfo : g.world.registry.get? nested.id = some (.of nested) := by decide +kernel
    intro info hget
    obtain rfl := Option.some.inj (hinfo.symm.trans hget)
    rfl
  have hrecord : Component.record ⟨nested, some none⟩ = .ok ⟨nested.id, [0xc0]⟩ := by cbv
  -- the record is that of `none` too, and this is how it reads back
  have hnone : g.world.Conveys r ⟨nested, none⟩ := by
    have hwritten : Component.record ⟨nested, none⟩ = .ok ⟨nested.id, [0xc0]⟩ := by cbv
    have hread : nested.decode [0xc0] = .ok none := by cbv
    exact ⟨hwritten, hread, hfirst⟩
  have hspawn := spawn_of_conveys (hreaches.consistent (by decide)) (.cons hnone .nil)
  refine ⟨hreaches, hrecord, hfirst, by decide +kernel, ?_, by decide +kernel, ?_⟩
  · simp only [Command.apply, hspawn]
    decide +kernel
  · simp only [Command.apply, hspawn]
    decide +kernel

end Engine

end TickEngine
