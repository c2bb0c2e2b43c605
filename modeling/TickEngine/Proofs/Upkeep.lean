/-
  Sets that are kept up to date.

  `World.row?` is the row that a world calls for, and a stage is `Kept` if its
  sets have exactly these rows.  A system may have a way of its own to keep its
  sets up to date.  That concerns its own stage alone: a change of an engine
  changes each stage of the installed tree by itself (`Engine.Step.updates`),
  and the stages of the other systems are kept (`Engine.Reaches.upkept`).
-/
import TickEngine.Proofs.Failure
import TickEngine.Proofs.Rows

namespace TickEngine

/-! ## The rows that a world calls for -/

theorem SetSpec.admits_congr {spec : SetSpec} {owned owned' : List TypeId}
    (h : ∀ t ∈ spec.types, owned.contains t = owned'.contains t) :
    spec.admits owned = spec.admits owned' := by
  rw [admits, admits, List.countP_congr fun t ht => by rw [h t ht]]

theorem SetSpec.admits_nil (spec : SetSpec) : spec.admits [] = false := by
  have hcount : spec.types.countP (List.contains []) = 0 := by simp
  rw [admits, hcount]
  cases spec.op with
  | intersect =>
    simp only [SetOp.admits, Bool.and_eq_false_iff, decide_eq_false_iff_not, beq_eq_false_iff_ne]
    omega
  | unite => rfl

namespace World

variable {w w' : World} {e : Entity} {t : TypeId}

/-- The row of a live entity whose types satisfy the declaration: the cells of
    the declared types that it owns. -/
def row? (w : World) (spec : SetSpec) (e : Entity) : Option Row :=
  match w.types? e with
  | none => none
  | some owned =>
    if spec.admits owned then some ⟨e, (spec.types.filter owned.contains).filterMap (w.find? e)⟩
    else none

/-- An offered entity gets the row that the world calls for. -/
theorem Consistent.offered?_eq (hw : w.Consistent) (spec : SetSpec) (e : Entity) :
    spec.offered? w.store.tables e = w.row? spec e := by
  have hcapture : LiveSet.capture spec.types w.store.tables e = spec.types.filterMap (w.find? e) :=
    rfl
  rw [SetSpec.offered?, row?, hcapture]
  cases htypes : w.types? e with
  | none =>
    have hnil : spec.types.filterMap (w.find? e) = [] := by
      rw [List.filterMap_eq_nil_iff]
      exact fun t _ => hw.holds.find?_eq_none (not_owns_of_types? htypes)
    rw [hnil]
    simp [spec.admits_nil]
  | some owned =>
    have hcells : spec.types.filterMap (w.find? e) =
        (spec.types.filter owned.contains).filterMap (w.find? e) := by
      rw [List.filterMap_filter]
      refine List.filterMap_congr ?_
      intro t _
      split
      · rfl
      · rename_i hnot
        refine hw.holds.find?_eq_none ?_
        rw [owns_iff_of_types? htypes]
        simpa using hnot
    have hids : ((spec.types.filter owned.contains).filterMap (w.find? e)).map (·.typeId) =
        spec.types.filter owned.contains := by
      have hcell : ∀ t ∈ spec.types.filter owned.contains,
          (w.find? e t).map (·.typeId) = some t := by
        intro t ht
        have howns : w.Owns e t := by
          rw [owns_iff_of_types? htypes]
          simpa using (List.mem_filter.1 ht).2
        obtain ⟨r, hr⟩ := Option.isSome_iff_exists.1 ((hw.holds.isSome_find? e t).2 howns)
        rw [World.find?, hr, Option.map_some, hw.holds.typed hr]
      rw [List.map_filterMap, List.filterMap_congr hcell, List.filterMap_some]
    have hadmits : spec.admits (spec.types.filter owned.contains) = spec.admits owned := by
      refine SetSpec.admits_congr ?_
      intro t ht
      rw [Bool.eq_iff_iff]
      simp [ht]
    simp only [hcells, hids, hadmits]

theorem row?_of_dead (h : w.types? e = none) (spec : SetSpec) : w.row? spec e = none := by
  rw [row?, h]

/-! ## What a change leaves alone -/

/-- The worlds have the same types and cells for the entities in `on`, and no
    table got lost. -/
structure AgreesOn (w w' : World) (on : Entity → Prop) : Prop where
  types? : ∀ {e}, on e → w'.types? e = w.types? e
  find? : ∀ {e}, on e → ∀ t, w'.find? e t = w.find? e t
  tables : ∀ {t}, w.store.tables.contains t = true → w'.store.tables.contains t = true

theorem AgreesOn.refl (w : World) (on : Entity → Prop) : w.AgreesOn w on :=
  ⟨fun _ => rfl, fun _ _ => rfl, id⟩

theorem AgreesOn.row?_eq {on : Entity → Prop} (h : w.AgreesOn w' on) (he : on e)
    (spec : SetSpec) : w'.row? spec e = w.row? spec e := by
  have hfind : w'.find? e = w.find? e := funext (h.find? he)
  rw [row?, row?, h.types? he, hfind]

theorem isSome_label? (s : Store) (t : TypeId) : (s.label? t).isSome = s.tables.contains t :=
  Option.isSome_map

/-- A change of the types and components of `e`. -/
theorem agreesOn_of_insert {types : List TypeId} {store : Store} {ids : EntityIds}
    (hlabel : ∀ t, store.label? t = w.store.label? t)
    (hfind : ∀ {e'}, e' ≠ e → ∀ t, store.find? t e' = w.store.find? t e') :
    w.AgreesOn { w with ids, owned := w.owned.insert e types, store } (· ≠ e) :=
  { types? := fun hne => SortedMap.get?_insert_of_ne _ (Ne.symm hne) _
    find? := fun hne t => hfind hne t
    tables := fun h => by rwa [← isSome_label?, hlabel, isSome_label?] }

theorem agreesOn_despawn (w : World) (e : Entity) : w.AgreesOn (w.despawn e).2 (· ≠ e) := by
  cases htypes : w.types? e with
  | none =>
    rw [despawn_of_dead htypes]
    exact .refl w _
  | some types =>
    rw [despawn_of_types? htypes]
    refine ⟨fun hne => SortedMap.get?_erase_of_ne _ (Ne.symm hne), fun hne t => ?_, fun h => ?_⟩
    · exact (Store.find?_dropAll _ _ _ _ _).trans (if_neg fun h => hne h.1.symm)
    · rwa [← isSome_label?, Store.label?_dropAll, isSome_label?]

theorem types?_despawn (w : World) (e : Entity) : (w.despawn e).2.types? e = none := by
  cases htypes : w.types? e with
  | none => rw [despawn_of_dead htypes, htypes]
  | some types =>
    rw [despawn_of_types? htypes]
    exact SortedMap.get?_erase_self w.owned e

theorem agreesOn_registerType (w : World) (t : ComponentType) (on : Entity → Prop) :
    w.AgreesOn (w.registerType t).2 on := by
  have hensure : ∀ (registry : Registry),
      w.AgreesOn { w with registry, store := w.store.ensure t.id t.name } on := by
    refine fun registry => ⟨fun _ => rfl, fun _ t' => Store.find?_ensure _ _ _ _ _, fun h => ?_⟩
    rw [← isSome_label?, Store.label?_ensure]
    split
    · rfl
    · rwa [isSome_label?]
  rcases registerType_cases w t with ⟨err, h⟩ | ⟨-, h⟩ | ⟨info, -, -, h⟩ <;> rw [h]
  · exact .refl w on
  · exact hensure _
  · exact hensure _

theorem agreesOn_withCells (w : World) (cells : Cells) (on : Entity → Prop) :
    w.AgreesOn (w.withCells cells) on :=
  ⟨fun _ => rfl, fun _ _ => rfl, id⟩

theorem agreesOn_replace (w : World) (e : Entity) (c : Component) (on : Entity → Prop) :
    w.AgreesOn (w.replace e c).2 on := by
  unfold World.replace
  split
  · exact .refl w on
  · exact agreesOn_withCells w _ on

end World

/-! ## One stage -/

namespace Stage

variable {σ : Type} {s : Stage σ} {w w' : World} {e : Entity}

/-- The stage has the rows that the world calls for, and can be started. -/
structure Kept (w : World) (s : Stage σ) : Prop where
  standard : s.Standard
  startable : s.Startable w.store.tables
  shows : s.Shows w.row?

/-- An up-to-date set has the rows of the live entities, and no other. -/
theorem Kept.values_eq (h : s.Kept w) {set : LiveSet} (hset : set ∈ s.access.sets) :
    set.rows.values = w.entities.filterMap (w.row? set.spec) := by
  have hrows := h.shows.rows set hset
  have hlive : ∀ e, (set.rows.get? e).isSome → e ∈ w.entities := by
    intro e he
    rw [World.entities, SortedMap.mem_keys_iff]
    by_contra hdead
    rw [Option.not_isSome_iff_eq_none] at hdead
    rw [hrows, World.row?_of_dead hdead] at he
    cases he
  rw [SortedMap.values_eq_filterMap w.owned.ascending_keys hlive, funext hrows]
  rfl

theorem Startable.of_agreesOn {on : Entity → Prop} (h : s.Startable w.store.tables)
    (ha : w.AgreesOn w' on) : s.Startable w'.store.tables :=
  fun spec hspec => ⟨(h spec hspec).1, fun t ht => ha.tables ((h spec hspec).2 t ht)⟩

theorem Kept.same (h : s.Kept w) (ha : w.AgreesOn w' fun _ => True) : s.Kept w' :=
  ⟨h.standard, h.startable.of_agreesOn ha,
    h.shows.congr fun spec _ => ha.row?_eq trivial spec⟩

/-- Offering the entity that changed brings a stage up to date. -/
theorem Kept.register (h : s.Kept w) (ha : w.AgreesOn w' (· ≠ e)) (hw' : w'.Consistent) :
    (s.register w'.store.tables e).2.Kept w' := by
  have hshows := h.shows.register h.standard w'.store.tables e
  rw [h.shows.register_eq h.standard] at hshows ⊢
  refine ⟨h.standard.with_access _, h.startable.of_agreesOn ha, hshows.congr ?_⟩
  intro spec e'
  by_cases he : e = e'
  · subst he
    rw [RowMap.assign, if_pos rfl, hw'.offered?_eq]
  · rw [RowMap.assign, if_neg he, ha.row?_eq (Ne.symm he)]

/-- Withdrawing the entity that was destroyed brings a stage up to date. -/
theorem Kept.unregister (h : s.Kept w) (ha : w.AgreesOn w' (· ≠ e)) (hdead : w'.types? e = none) :
    (s.unregister e).Kept w' := by
  have hshows := h.shows.unregister h.standard e
  rw [h.shows.unregister_eq h.standard] at hshows ⊢
  refine ⟨h.standard.with_access _, h.startable.of_agreesOn ha, hshows.congr ?_⟩
  intro spec e'
  by_cases he : e = e'
  · subst he
    rw [RowMap.assign, if_pos rfl, World.row?_of_dead hdead]
  · rw [RowMap.assign, if_neg he, ha.row?_eq (Ne.symm he)]

/-- Starting a stage and offering every live entity gives an up-to-date one. -/
theorem Standard.kept_registerEach (hs : s.Standard) (hstart : s.Startable w.store.tables)
    (hw : w.Consistent) : (s.started.registerEach w.store.tables w.entities).Kept w := by
  obtain ⟨access, heq, hshows⟩ :=
    s.shows_started.registerEach (hs.with_access _) w.store.tables w.entities
  rw [heq]
  refine ⟨hs.with_access _, hstart, hshows.congr ?_⟩
  intro spec e
  split
  · exact (hw.offered?_eq spec e).symm
  · rename_i hdead
    rw [World.entities, SortedMap.mem_keys_iff, Option.not_isSome_iff_eq_none] at hdead
    exact World.row?_of_dead hdead spec

/-- Starting an up-to-date stage anew and offering the live entities, in any
    order, changes nothing. -/
theorem Kept.rebuilt (h : s.Kept w) (hw : w.Consistent) {es : List Entity}
    (hes : es.Perm w.entities) : s.started.registerEach w.store.tables es = s := by
  refine h.shows.rebuilt h.standard (fun e _ spec => (hw.offered?_eq spec e).symm)
    fun e he spec => ?_
  rw [hes.mem_iff, World.entities, SortedMap.mem_keys_iff, Option.not_isSome_iff_eq_none] at he
  exact World.row?_of_dead he spec

end Stage

/-! ## Trees -/

namespace Pipeline

variable {σ : Type} {p child : Pipeline σ}

/-- All stages of the tree have systems that keep their sets up to date in the
    usual way. -/
def Standard (p : Pipeline σ) : Prop := ∀ s ∈ p.stages, s.Standard

theorem standard_group (name : String) : (group name : Pipeline σ).Standard := by
  intro s hs
  obtain rfl := List.mem_singleton.1 hs
  refine ⟨fun hsystem => ?_, fun _ => rfl⟩
  cases hsystem

theorem standard_watcher : Engine.watcher.Standard := by
  intro s hs
  obtain rfl := List.mem_singleton.1 hs
  exact ⟨fun hsystem => Option.some.inj hsystem ▸ rfl, fun hnone => by cases hnone⟩

theorem Standard.withParallel (hp : p.Standard) (hc : child.Standard) :
    (p.withParallel child).Standard := by
  obtain ⟨s, ps, ss⟩ := p
  obtain ⟨hs, hps, hss⟩ := forall_stages_node.1 hp
  refine forall_stages_node.2 ⟨hs, ?_, hss⟩
  intro q hq
  rcases List.mem_append.1 hq with hq | hq
  · exact hps q hq
  · rw [List.mem_singleton.1 hq]
    exact hc

theorem Standard.withSerial (hp : p.Standard) (hc : child.Standard) :
    (p.withSerial child).Standard := by
  obtain ⟨s, ps, ss⟩ := p
  obtain ⟨hs, hps, hss⟩ := forall_stages_node.1 hp
  refine forall_stages_node.2 ⟨hs, hps, ?_⟩
  intro q hq
  rcases List.mem_append.1 hq with hq | hq
  · exact hss q hq
  · rw [List.mem_singleton.1 hq]
    exact hc

theorem forall_stages_mapStages {P : Stage σ → Prop} {f : Stage σ → Stage σ} :
    (∀ s ∈ (p.mapStages f).stages, P s) ↔ ∀ s ∈ p.stages, P (f s) := by
  rw [stages_mapStages, List.forall_mem_map]

end Pipeline

/-! ## What a change does to a stage -/

namespace Stage

variable {σ : Type} {s s' : Stage σ} {w w' : World} {f : Stage σ → Stage σ}

theorem Standard.of_eq (h : s'.Standard) (hsystem : s'.system = s.system)
    (hspecs : s'.specs = s.specs) : s.Standard :=
  ⟨fun hs => h.system (hsystem.trans hs), fun hs => hspecs ▸ h.bare (hsystem.trans hs)⟩

theorem register_same (tables : Tables) (e : Entity) (s : Stage σ) :
    (s.register tables e).2.system = s.system ∧ (s.register tables e).2.specs = s.specs := by
  unfold Stage.register
  split <;> exact ⟨rfl, rfl⟩

theorem unregister_same (e : Entity) (s : Stage σ) :
    (s.unregister e).system = s.system ∧ (s.unregister e).specs = s.specs := by
  unfold Stage.unregister
  split <;> exact ⟨rfl, rfl⟩

theorem registerEach_same (tables : Tables) (es : List Entity) (s : Stage σ) :
    (s.registerEach tables es).system = s.system ∧
      (s.registerEach tables es).specs = s.specs := by
  induction es generalizing s with
  | nil => exact ⟨rfl, rfl⟩
  | cons e rest ih =>
    obtain ⟨hsystem, hspecs⟩ := s.register_same tables e
    obtain ⟨hsystem', hspecs'⟩ := ih (s.register tables e).2
    exact ⟨hsystem'.trans hsystem, hspecs'.trans hspecs⟩

/-- What a change from `w` to `w'` does to a stage: nothing if no entity
    changed, or the entity that changed is offered, or a destroyed one is
    withdrawn. -/
inductive Updates (w w' : World) : (Stage σ → Stage σ) → Prop
  | same : w.AgreesOn w' (fun _ => True) → Updates w w' id
  | offer {e} : w.AgreesOn w' (· ≠ e) → w'.Consistent →
      Updates w w' fun s => (s.register w'.store.tables e).2
  | withdraw {e} : w.AgreesOn w' (· ≠ e) → w'.types? e = none → Updates w w' (Stage.unregister e)

theorem Updates.kept (h : Updates w w' f) (hs : s.Kept w) : (f s).Kept w' := by
  cases h with
  | same ha => exact hs.same ha
  | offer ha hw' => exact hs.register ha hw'
  | withdraw ha hdead => exact hs.unregister ha hdead

theorem Updates.standard (h : Updates w w' f) (hs : (f s).Standard) : s.Standard := by
  cases h with
  | same => exact hs
  | offer =>
    obtain ⟨hsystem, hspecs⟩ := s.register_same w'.store.tables _
    exact hs.of_eq hsystem hspecs
  | withdraw =>
    obtain ⟨hsystem, hspecs⟩ := s.unregister_same _
    exact hs.of_eq hsystem hspecs

end Stage

/-! ## Engines -/

namespace Engine

variable {σ : Type} {trees : Pipeline σ → Prop} {g g' : Engine σ} {n : Nat}

/-- The world changes, and the stages of the installed tree with it. -/
def Updates (g g' : Engine σ) : Prop :=
  ∃ f, Stage.Updates g.world g'.world f ∧ g'.root = g.root.map (Pipeline.mapStages f)

theorem Updates.same (hroot : g'.root = g.root)
    (ha : g.world.AgreesOn g'.world fun _ => True) : g.Updates g' := by
  refine ⟨id, .same ha, hroot.trans ?_⟩
  have hid : Pipeline.mapStages (id : Stage σ → Stage σ) = id :=
    funext Pipeline.mapStages_id
  rw [hid, Option.map_id, id]

theorem Updates.offer {w : World} {e : Entity} (ha : g.world.AgreesOn w (· ≠ e))
    (hw : w.Consistent) : g.Updates (Engine.offer { g with world := w } e) := by
  refine ⟨_, .offer ha hw, ?_⟩
  have heq : (fun p : Pipeline σ => (p.register w.store.tables e).2) =
      Pipeline.mapStages fun s => (s.register w.store.tables e).2 :=
    funext fun p => p.register_eq w.store.tables e
  exact congrArg (g.root.map ·) heq

theorem updates_spawnComponents (hw : g.world.Consistent) (cs : List Component)
    (hw' : (g.world.spawn cs).2.Consistent) : g.Updates (g.spawnComponents cs).2 := by
  unfold Engine.spawnComponents
  rcases World.spawn_cases g.world cs with ⟨err, heq⟩ | ⟨hknown, hnodup⟩
  · rw [heq]
    exact .same rfl (.refl g.world _)
  · obtain ⟨store, heq, hgains, -⟩ := hw.spawn_of_distinct hknown hnodup
    rw [heq] at hw' ⊢
    exact .offer (World.agreesOn_of_insert hgains.label? fun hne _ =>
      hgains.find? fun hmem => hne hmem.1) hw'

theorem updates_despawn (g : Engine σ) (e : Entity) : g.Updates (g.despawn e).2 := by
  unfold Engine.despawn
  split
  · refine ⟨_, .withdraw (World.agreesOn_despawn g.world e) (World.types?_despawn g.world e), ?_⟩
    have heq : (fun p : Pipeline σ => p.unregister e) = Pipeline.mapStages (Stage.unregister e) :=
      funext fun p => p.unregister_eq e
    exact congrArg (g.root.map ·) heq
  · exact .same rfl (.refl g.world _)

theorem updates_insertComponent (hw : g.world.Consistent) (e : Entity) (c : Component) :
    g.Updates (g.insertComponent e c).2 := by
  have hw' := hw.insert e c
  unfold Engine.insertComponent
  rcases hw.insert_cases e c with ⟨err, heq⟩ | ⟨types, store, -, -, heq, hgains, -⟩ <;>
    rw [heq] at hw' ⊢
  · exact .same rfl (.refl g.world _)
  · exact .offer (World.agreesOn_of_insert hgains.label? fun hne _ =>
      hgains.find? fun hmem => hne hmem.1) hw'

theorem updates_removeComponent (hw : g.world.Consistent) (e : Entity) (t : TypeId) :
    g.Updates (g.removeComponent e t).2 := by
  have hw' := hw.remove e t
  unfold Engine.removeComponent
  rcases World.remove_cases g.world e t with ⟨res, -, heq⟩ | ⟨types, -, -, heq⟩ <;>
    rw [heq] at hw' ⊢
  · rcases res with err | _ | _
    · exact .same rfl (.refl g.world _)
    · exact .same rfl (.refl g.world _)
    · exact .offer (.refl g.world _) hw'
  · exact .offer (World.agreesOn_of_insert (fun t' => Store.label?_remove _ t t' e)
      fun hne t' => by rw [Store.find?_remove, if_neg fun hmem => hne hmem.2.symm]) hw'

theorem Performs.updates (h : Performs g g') (hw : g.world.Consistent)
    (hw' : g'.world.Consistent) : g.Updates g' := by
  cases h with
  | nothing | exit => exact .same rfl (.refl g.world _)
  | spawn cs =>
    rw [world_spawnComponents] at hw'
    exact updates_spawnComponents hw cs hw'
  | despawn e => exact g.updates_despawn e
  | insert e c => exact updates_insertComponent hw e c
  | remove e t => exact updates_removeComponent hw e t
  | replace e c => exact .same rfl (World.agreesOn_replace g.world e c _)

/-- A change changes the stages of the installed tree, each by itself, or
    installs another tree. -/
theorem Step.updates (h : Step trees g g') (hw : g.world.Consistent) (hw' : g'.world.Consistent) :
    g.Updates g' ∨ ∃ p, trees p ∧ g' = (g.setRoot p).2 := by
  cases h with
  | registerType t => exact .inl (.same rfl (World.agreesOn_registerType g.world t _))
  | setRoot p hp => exact .inr ⟨p, hp, rfl⟩
  | spawn cs => exact .inl (updates_spawnComponents hw cs (world_spawnComponents g cs ▸ hw'))
  | despawn e => exact .inl (g.updates_despawn e)
  | insert e c => exact .inl (updates_insertComponent hw e c)
  | remove e t => exact .inl (updates_removeComponent hw e t)
  | requestExit => exact .inl (.same rfl (.refl g.world _))
  | write r t x => exact .inl (.same rfl (World.agreesOn_withCells g.world _ _))
  | overwrite r c => exact .inl (.same rfl (World.agreesOn_withCells g.world _ _))
  | surroundings ambient => exact .inl (.same rfl (.refl g.world _))
  | runSystems dt =>
    unfold Engine.runSystems
    split
    · exact .inl (.same rfl (.refl g.world _))
    · exact .inl (.same rfl (World.agreesOn_withCells g.world _ _))
  | command c => exact .inl ((performs_apply c g).updates hw hw')

/-- The stages of the installed tree that keep their sets up to date in the
    usual way have the rows that the world calls for. -/
def Upkept (g : Engine σ) : Prop :=
  ∀ p, g.root = some p → ∀ s ∈ p.stages, s.Standard → s.Kept g.world

theorem Updates.upkept (h : g.Updates g') (hg : g.Upkept) : g'.Upkept := by
  obtain ⟨f, hf, hroot⟩ := h
  intro p hp
  rw [hroot, Option.map_eq_some_iff] at hp
  obtain ⟨q, hq, rfl⟩ := hp
  rw [Pipeline.forall_stages_mapStages]
  intro s hs hstandard
  exact hf.kept (hg q hq s hs (hf.standard hstandard))

theorem Upkept.setRoot (h : g.Upkept) (hw : g.world.Consistent) (p : Pipeline σ) :
    (g.setRoot p).2.Upkept := by
  unfold Engine.setRoot
  rcases p.bind_cases g.world.store.tables with ⟨heq, hstart⟩ | ⟨err, p', heq, -⟩ <;> rw [heq]
  · intro q hq
    obtain rfl := Option.some.inj hq
    rw [Pipeline.registerEach_eq, Pipeline.forall_stages_mapStages,
      Pipeline.forall_stages_mapStages]
    intro s hs hstandard
    obtain ⟨hsystem, hspecs⟩ := s.started.registerEach_same g.world.store.tables g.world.entities
    exact (hstandard.of_eq hsystem hspecs : s.Standard).kept_registerEach (hstart s hs) hw
  · exact h

/-- **In every reached engine, sets have the rows that the world calls for**,
    whatever other systems do to theirs. -/
theorem Reaches.upkept (h : Reaches trees n g) (hn : n < 2 ^ 64 - 1) : g.Upkept := by
  induction h with
  | start config ambient => exact fun p hp => by cases hp
  | step hg hstep ih =>
    have hw := hg.consistent (by omega)
    rcases hstep.updates hw ((hg.step hstep).consistent hn) with hupdates | ⟨p, -, rfl⟩
    · exact hupdates.upkept (ih (by omega))
    · exact (ih (by omega)).setRoot hw p

end Engine

end TickEngine
