/-
  A cell belongs to one component, for as long as the component is there.

  What is looked up after a change was there before it, or is in a cell that
  was made since (`Store.Follows`).  So a cell that no table holds is never held
  again, whatever happens to the id and to the type.  Handles are cloned from
  tables and rows (`Engine.Holding`) and may outlive the component.

  * `CellRef.Puts`: what writes and replacements through handles do;
  * `Engine.Holding.lifetimes`: who sees what is put into a cell, while its
    component is there and after it is gone;
  * `Engine.row_outlives_entity`: a system that does not withdraw an entity that
    is destroyed keeps its row, and the cells with it.
-/
import TickEngine.Proofs.Ledger
import TickEngine.Proofs.Rebuild

namespace TickEngine

/-! ## Writing through handles -/

namespace CellRef

variable {h : CellRef} {cells cells' : Cells} {c : Component}

/-- The component gets into the cell of the handle, by a write of its value or
    in place of the component that is there. -/
inductive Puts (h : CellRef) (cells : Cells) : Component → Cells → Prop
  | write {t : ComponentType} {x : t.Data} {cells'} :
      h.writeAs cells t x = (true, cells') → Puts h cells ⟨t, x⟩ cells'
  | replace {c old cells'} : h.replace cells c = (.ok old, cells') → Puts h cells c cells'

theorem writeAs_cases (h : CellRef) (cells : Cells) (t : ComponentType) (x : t.Data) :
    h.writeAs cells t x = (true, cells.set h.cell ⟨t, x⟩) ∨
      h.writeAs cells t x = (false, cells) := by
  unfold writeAs
  split
  · exact .inl rfl
  · exact .inr rfl

theorem replace_cases (h : CellRef) (cells : Cells) (c : Component) :
    (c.typeId = h.typeId ∧ h.replace cells c = (.ok (h.read cells), cells.set h.cell c)) ∨
      ∃ err, h.replace cells c = (.error err, cells) := by
  unfold replace
  split
  · exact .inl ⟨‹_›, rfl⟩
  · exact .inr ⟨_, rfl⟩

theorem cells_writeAs (h : CellRef) (cells : Cells) (t : ComponentType) (x : t.Data) :
    (h.writeAs cells t x).2 = cells ∨ ∃ id c, (h.writeAs cells t x).2 = cells.set id c := by
  rcases h.writeAs_cases cells t x with heq | heq <;> rw [heq]
  · exact .inr ⟨_, _, rfl⟩
  · exact .inl rfl

theorem cells_replace (h : CellRef) (cells : Cells) (c : Component) :
    (h.replace cells c).2 = cells ∨ ∃ id c', (h.replace cells c).2 = cells.set id c' := by
  rcases h.replace_cases cells c with ⟨-, heq⟩ | ⟨err, heq⟩ <;> rw [heq]
  · exact .inr ⟨_, _, rfl⟩
  · exact .inl rfl

theorem Puts.eq (hputs : h.Puts cells c cells') : cells' = cells.set h.cell c := by
  cases hputs with
  | @write t x _ hwrite =>
    rcases h.writeAs_cases cells t x with heq | heq
    · rw [heq] at hwrite
      cases hwrite
      rfl
    · rw [heq] at hwrite
      cases hwrite
  | replace hreplace =>
    rcases h.replace_cases cells c with ⟨-, heq⟩ | ⟨err, heq⟩
    · rw [heq] at hreplace
      cases hreplace
      rfl
    · rw [heq] at hreplace
      cases hreplace

end CellRef

theorem Cells.isSome_get?_set (cells : Cells) (id id' : CellId) (c : Component) :
    ((cells.set id c).get? id').isSome = (cells.get? id').isSome := by
  rw [get?_set]
  split
  · rename_i heq
    rw [heq, Option.isSome_map]
  · rfl

theorem Row.of_get? {row : Row} {t : TypeId} {r : CellRef} (h : row.get? t = some r) :
    r ∈ row.components ∧ r.typeId = t :=
  ⟨List.mem_of_find?_eq_some h, by simpa using List.find?_some h⟩

/-! ## Cells that come and go -/

namespace Store

variable {s s' s'' : Store} {t : TypeId} {e : Entity} {c : Component}

/-- What is looked up in `s'` was there in `s`, or is in a cell that was made
    since; and no cell got lost. -/
structure Follows (s s' : Store) : Prop where
  cases : ∀ {t e r}, s'.find? t e = some r → s.find? t e = some r ∨ s.cells.get? r.cell = none
  isSome : ∀ {id}, (s.cells.get? id).isSome → (s'.cells.get? id).isSome

theorem Follows.refl (s : Store) : s.Follows s := ⟨.inl, id⟩

theorem Follows.trans (h : s.Follows s') (h' : s'.Follows s'') : s.Follows s'' := by
  refine ⟨fun {t e r} hr => ?_, fun hid => h'.isSome (h.isSome hid)⟩
  rcases h'.cases hr with hold | hnew
  · exact h.cases hold
  · refine .inr (Option.not_isSome_iff_eq_none.1 fun hsome => ?_)
    rw [← Option.not_isSome_iff_eq_none] at hnew
    exact hnew (h.isSome hsome)

/-- Components are taken out. -/
theorem Follows.of_find? (hcells : s'.cells = s.cells)
    (hfind : ∀ {t e r}, s'.find? t e = some r → s.find? t e = some r) : s.Follows s' :=
  ⟨fun hr => .inl (hfind hr), fun hid => hcells ▸ hid⟩

/-- Values change. -/
theorem Follows.of_cells {cells : Cells}
    (h : ∀ id, (cells.get? id).isSome = (s.cells.get? id).isSome) : s.Follows { s with cells } :=
  ⟨.inl, fun hid => (h _).trans hid⟩

theorem follows_insert (s : Store) (e : Entity) (c : Component) :
    s.Follows (s.insert c.typeId e c).2 := by
  unfold insert
  split
  · exact .refl s
  · rename_i table htable
    split
    · exact .refl s
    split
    · exact .refl s
    · refine ⟨fun {t' e' r} hr => ?_, fun {id} hid => ?_⟩
      · rcases find?_put_cases htable hr with ⟨-, -, rfl⟩ | hold
        · exact .inr (Array.getElem?_eq_none (Nat.le_refl _))
        · exact .inl hold
      · have hread : (CellRef.read ⟨c.typeId, id⟩ s.cells).isSome := hid
        rw [← Cells.read_alloc hread c] at hread
        exact hread

end Store

namespace World

variable {w w' : World} {e : Entity} {c : Component}

theorem follows_storeComponent (w : World) (e : Entity) (c : Component) :
    w.store.Follows (w.storeComponent e c).2.store := by
  have hinsert := w.store.follows_insert e c
  unfold storeComponent
  split <;> rename_i heq <;> rw [heq] at hinsert <;> exact hinsert

theorem follows_storeAll (e : Entity) (cs : List Component) (w : World) :
    w.store.Follows (storeAll e cs w).2.store := by
  induction cs generalizing w with
  | nil => exact .refl w.store
  | cons c rest ih =>
    have hfirst := w.follows_storeComponent e c
    rw [storeAll]
    split <;> rename_i heq <;> rw [heq] at hfirst
    · exact hfirst
    · exact hfirst.trans (ih _)

theorem follows_spawn (w : World) (cs : List Component) :
    w.store.Follows (w.spawn cs).2.store := by
  unfold spawn
  dsimp only
  split
  · exact .refl w.store
  split
  · exact .refl w.store
  have hall := follows_storeAll w.ids.allocate.1 cs { w with ids := w.ids.allocate.2 }
  split <;> rename_i heq <;> rw [heq] at hall <;> exact hall

theorem follows_insert (w : World) (e : Entity) (c : Component) :
    w.store.Follows (w.insert e c).2.store := by
  have hstore := w.follows_storeComponent e c
  unfold World.insert
  split
  · exact .refl w.store
  split
  · exact .refl w.store
  · split <;> rename_i heq <;> rw [heq] at hstore <;> exact hstore

theorem follows_registerType (w : World) (t : ComponentType) :
    w.store.Follows (w.registerType t).2.store := by
  have hensure : w.store.Follows (w.store.ensure t.id t.name) :=
    .of_find? (Store.cells_ensure w.store t.id t.name) fun hr =>
      Store.find?_ensure w.store t.id _ t.name _ ▸ hr
  rcases registerType_cases w t with ⟨err, h⟩ | ⟨-, h⟩ | ⟨info, -, -, h⟩ <;> rw [h]
  · exact .refl w.store
  · exact hensure
  · exact hensure

theorem follows_despawn (w : World) (e : Entity) :
    w.store.Follows (w.despawn e).2.store := by
  unfold World.despawn
  split
  · exact .refl w.store
  · rename_i types _
    refine .of_find? (Store.cells_dropAll e types w.store) fun hr => ?_
    rw [Store.find?_dropAll] at hr
    split at hr
    · cases hr
    · exact hr

theorem follows_remove (w : World) (e : Entity) (t : TypeId) :
    w.store.Follows (w.remove e t).2.store := by
  unfold World.remove
  split
  · exact .refl w.store
  split
  · refine .of_find? (Store.cells_remove w.store t e) fun hr => ?_
    rw [Store.find?_remove] at hr
    split at hr
    · cases hr
    · exact hr
  · exact .refl w.store

theorem follows_withCells {cells : Cells}
    (h : cells = w.store.cells ∨ ∃ id c, cells = w.store.cells.set id c) :
    w.store.Follows (w.withCells cells).store := by
  refine .of_cells fun id => ?_
  rcases h with rfl | ⟨id', c, rfl⟩
  · rfl
  · exact Cells.isSome_get?_set _ _ _ _

/-- **A change takes only cells into use that it makes.** -/
theorem Step.follows (h : Step w w') : w.store.Follows w'.store := by
  cases h with
  | registerType t => exact w.follows_registerType t
  | spawn cs => exact w.follows_spawn cs
  | despawn e => exact w.follows_despawn e
  | insert e c => exact w.follows_insert e c
  | remove e t => exact w.follows_remove e t
  | replace e c =>
    unfold World.replace
    split
    · exact .refl w.store
    · exact follows_withCells (CellRef.cells_replace _ _ _)
  | write r t x => exact follows_withCells (r.cells_writeAs w.store.cells t x)
  | overwrite r c => exact follows_withCells (r.cells_replace w.store.cells c)

theorem follows_of_written {cells : Cells} (h : Cells.Written w.store.cells cells) :
    w.store.Follows (w.withCells cells).store := by
  induction h with
  | refl => exact .refl w.store
  | @tail cells cells' _ hstep ih =>
    obtain ⟨r, t, x, rfl⟩ := hstep
    exact ih.trans (World.follows_withCells (w := w.withCells cells) (r.cells_writeAs cells t x))

/-- The cells of a row are those that its entity has of declared types. -/
theorem of_row? {spec : SetSpec} {row : Row} (h : w.row? spec e = some row) :
    row.entity = e ∧ ∀ r ∈ row.components, ∃ t ∈ spec.types, w.find? e t = some r := by
  unfold row? at h
  split at h
  · cases h
  split at h
  · cases h
    refine ⟨rfl, fun r hr => ?_⟩
    obtain ⟨t, ht, hfind⟩ := List.mem_filterMap.1 hr
    exact ⟨t, (List.mem_filter.1 ht).1, hfind⟩
  · cases h

/-- A row has captured what the tables hold for its entity. -/
theorem Consistent.get?_row? (hw : w.Consistent) {spec : SetSpec} {row : Row} {t : TypeId}
    (h : w.row? spec e = some row) (ht : t ∈ spec.types) : row.get? t = w.find? e t := by
  have hcomponents : ∀ r ∈ row.components, r.typeId = t → w.find? e t = some r := by
    intro r hr hid
    obtain ⟨t', -, hfind⟩ := (of_row? h).2 r hr
    rwa [← hid, hw.holds.typed hfind]
  cases hfind : w.find? e t with
  | none =>
    refine List.find?_eq_none.2 fun r hr hid => ?_
    cases hfind.symm.trans (hcomponents r hr (of_decide_eq_true hid))
  | some r =>
    have hmem : r ∈ row.components := by
      unfold row? at h
      split at h
      · cases h
      rename_i owned htypes
      split at h
      · cases h
        have howns := (hw.holds.isSome_find? e t).1 (by rw [World.find?] at hfind; simp [hfind])
        rw [owns_iff_of_types? htypes] at howns
        exact List.mem_filterMap.2 ⟨t, List.mem_filter.2 ⟨ht, by simpa using howns⟩, hfind⟩
      · cases h
    cases hget : row.get? t with
    | none =>
      have hnot := List.find?_eq_none.1 hget r hmem
      exact absurd (decide_eq_true (hw.holds.typed hfind)) hnot
    | some r' =>
      obtain ⟨hr', hid⟩ := Row.of_get? hget
      exact (hcomponents r' hr' hid).symm.trans hfind

end World

theorem CellRef.Valid.eq {r r' : CellRef} {cells : Cells} (h : r.Valid cells) (h' : r'.Valid cells)
    (hcell : r.cell = r'.cell) : r = r' := by
  obtain ⟨c, hc, hid⟩ := h
  obtain ⟨c', hc', hid'⟩ := h'
  rw [CellRef.read, hcell] at hc
  obtain rfl := Option.some.inj (hc.symm.trans hc')
  obtain ⟨t, cell⟩ := r
  obtain ⟨t', cell'⟩ := r'
  exact congrArg₂ CellRef.mk (hid.symm.trans hid') hcell

/-! ## Engines and handles -/

namespace Engine

variable {σ : Type} {trees : Pipeline σ → Prop} {g g' : Engine σ} {n k : Nat}
  {hs : List CellRef}

/-- The row is in a set of the installed tree whose system keeps its sets up to
    date in the usual way. -/
def HasRow (g : Engine σ) (set : LiveSet) (row : Row) : Prop :=
  ∃ p s, g.root = some p ∧ s ∈ p.stages ∧ s.Standard ∧ set ∈ s.access.sets ∧ row ∈ set.rows.values

/-- The row is in a set of the installed tree, whatever its system is. -/
def HasAnyRow (g : Engine σ) (set : LiveSet) (row : Row) : Prop :=
  ∃ p s, g.root = some p ∧ s ∈ p.stages ∧ set ∈ s.access.sets ∧ row ∈ set.rows.values

/-- An engine, as `Reaches` says, with handles that were cloned from its tables
    and rows on the way.  In the rows of other systems a handle is on a cell with
    a component of its type, as every handle is. -/
inductive Holding (trees : Pipeline σ → Prop) : Nat → Engine σ → List CellRef → Prop
  | start (config : Config) (ambient : σ) : Holding trees 0 { config, ambient } []
  | step {n : Nat} {g g' : Engine σ} {hs : List CellRef} : Holding trees n g hs →
      Step trees g g' → Holding trees (n + g.world.ids.newIds g'.world.ids) g' hs
  | table {n : Nat} {g : Engine σ} {hs : List CellRef} {e : Entity} {t : TypeId} {r : CellRef} :
      Holding trees n g hs → g.world.find? e t = some r → Holding trees n g (r :: hs)
  | row {n : Nat} {g : Engine σ} {hs : List CellRef} {set : LiveSet} {row : Row} {r : CellRef} :
      Holding trees n g hs → g.HasRow set row → r ∈ row.components → Holding trees n g (r :: hs)
  | anyRow {n : Nat} {g : Engine σ} {hs : List CellRef} {set : LiveSet} {row : Row} {r : CellRef} :
      Holding trees n g hs → g.HasAnyRow set row → r ∈ row.components →
      r.Valid g.world.store.cells → Holding trees n g (r :: hs)

/-- The engines after changes that hand out `k` ids for the first time. -/
inductive Leads (trees : Pipeline σ → Prop) (g : Engine σ) : Nat → Engine σ → Prop
  | refl : Leads trees g 0 g
  | step {k : Nat} {g' g'' : Engine σ} : Leads trees g k g' → Step trees g' g'' →
      Leads trees g (k + g'.world.ids.newIds g''.world.ids) g''

theorem Holding.reaches (h : Holding trees n g hs) : Reaches trees n g := by
  induction h with
  | start config ambient => exact .start config ambient
  | step _ hstep ih => exact ih.step hstep
  | table _ _ ih | row _ _ _ ih | anyRow _ _ _ _ ih => exact ih

/-- At first there are no handles. -/
theorem Reaches.holding (h : Reaches trees n g) : Holding trees n g [] := by
  induction h with
  | start config ambient => exact .start config ambient
  | step _ hstep ih => exact ih.step hstep

theorem Leads.reaches (h : Leads trees g k g') (hg : Reaches trees n g) :
    Reaches trees (n + k) g' := by
  induction h with
  | refl => exact hg
  | step _ hstep ih =>
    rw [← Nat.add_assoc]
    exact ih.step hstep

theorem Step.follows (h : Step trees g g') : g.world.store.Follows g'.world.store := by
  rcases h.world with hstep | ⟨cells, hcells, heq⟩
  · exact hstep.follows
  · rw [heq]
    exact World.follows_of_written hcells

theorem Leads.follows (h : Leads trees g k g') : g.world.store.Follows g'.world.store := by
  induction h with
  | refl => exact .refl _
  | step _ hstep ih => exact ih.trans hstep.follows

theorem Step.valid (h : Step trees g g') (hw : g.world.Consistent) {r : CellRef}
    (hr : r.Valid g.world.store.cells) : r.Valid g'.world.store.cells := by
  rcases h.world with hstep | ⟨cells, hcells, heq⟩
  · exact hstep.valid hw hr
  · rw [heq]
    show r.Valid cells
    clear heq
    induction hcells with
    | refl => exact hr
    | tail _ hwrite ih =>
      obtain ⟨r', t, x, rfl⟩ := hwrite
      exact (Cells.sameTypes_writeAs r' _ t x).valid ih

/-- The rows of a set are those that the world calls for. -/
theorem HasRow.row? {set : LiveSet} {row : Row} (h : g.HasRow set row) (hg : g.Upkept) :
    g.world.row? set.spec row.entity = some row := by
  obtain ⟨p, s, hp, hs, hstandard, hset, hrow⟩ := h
  have hrows := (hg p hp s hs hstandard).shows.rows set hset
  obtain ⟨⟨e, row'⟩, hmem, rfl⟩ := List.mem_map.1 hrow
  have hget := (SortedMap.mem_entries_iff.1 hmem).symm.trans (hrows e)
  rw [(World.of_row? hget.symm).1]
  exact hget.symm

/-- Handles stay valid, also those whose components are gone. -/
theorem Holding.valid (h : Holding trees n g hs) (hn : n < 2 ^ 64 - 1) :
    ∀ r ∈ hs, r.Valid g.world.store.cells := by
  induction h with
  | start => nofun
  | step hg hstep ih =>
    have hw := hg.reaches.consistent (by omega)
    exact fun r hr => hstep.valid hw (ih (by omega) r hr)
  | table hg hfind ih =>
    exact List.forall_mem_cons.2 ⟨(hg.reaches.consistent hn).valid hfind, ih hn⟩
  | row hg hrow hr ih =>
    obtain ⟨t, -, hfind⟩ := (World.of_row? (hrow.row? (hg.reaches.upkept hn))).2 _ hr
    exact List.forall_mem_cons.2 ⟨(hg.reaches.consistent hn).valid hfind, ih hn⟩
  | anyRow _ _ _ hvalid ih => exact List.forall_mem_cons.2 ⟨hvalid, ih hn⟩

/-! ## Taking components -/

/-- A component goes, by itself or with its entity, from outside or by a
    command. -/
inductive Takes (g : Engine σ) (e : Entity) (t : TypeId) : Engine σ → Prop
  | remove : Takes g e t (g.remove e t).2
  | despawn : Takes g e t (g.despawn e).2
  | removeCommand : Takes g e t ((Command.remove e t).apply commands g).2
  | despawnCommand : Takes g e t ((Command.despawn e).apply commands g).2

variable {e : Entity} {t : TypeId} {r : CellRef}

theorem Takes.step (h : g.Takes e t g') : Step trees g g' := by
  cases h with
  | remove => exact .remove e t
  | despawn => exact .despawn e
  | removeCommand | despawnCommand => exact .command _

theorem Takes.world (h : g.Takes e t g') :
    g'.world = (g.world.remove e t).2 ∨ g'.world = (g.world.despawn e).2 := by
  cases h with
  | remove => exact .inl (world_removeComponent g e t)
  | despawn => exact .inr (world_despawn g e)
  | removeCommand =>
    rw [apply_remove]
    exact .inl (world_removeComponent g e t)
  | despawnCommand => exact .inr (world_despawn g e)

/-- It is gone, and no id was handed out. -/
theorem Takes.gone (h : g.Takes e t g') (hw : g.world.Consistent) :
    g'.world.find? e t = none ∧ g.world.ids.newIds g'.world.ids = 0 := by
  rcases h.world with heq | heq <;> rw [heq]
  · rcases World.remove_cases g.world e t with ⟨res, hnot, hremove⟩ | ⟨types, -, -, hremove⟩ <;>
      rw [hremove]
    · exact ⟨hw.holds.find?_eq_none hnot, EntityIds.newIds_eq_zero rfl⟩
    · exact ⟨(Store.find?_remove _ _ _ _ _).trans (if_pos ⟨rfl, rfl⟩), EntityIds.newIds_eq_zero rfl⟩
  · have hdead := World.not_owns_of_types? (t := t) (World.types?_despawn g.world e)
    refine ⟨(hw.despawn e).holds.find?_eq_none hdead, EntityIds.newIds_eq_zero ?_⟩
    unfold World.despawn
    split
    · rfl
    · exact EntityIds.next_release g.world.ids e

/-- The cell of a component that is gone is never held again. -/
theorem Takes.cell_ne (h : g.Takes e t g') (hw : g.world.Consistent)
    (hr : g.world.find? e t = some r) {g'' : Engine σ} (hleads : Leads trees g' k g'')
    {e' : Entity} {t' : TypeId} {r' : CellRef} (hr' : g''.world.find? e' t' = some r') :
    r'.cell ≠ r.cell := by
  intro hcell
  have hsome : (g.world.store.cells.get? r.cell).isSome := (hw.valid hr).isSome_read
  have hstep : Step trees g g' := h.step
  have hfirst := hstep.follows
  rcases hleads.follows.cases hr' with hold | hnew
  · rcases hfirst.cases hold with hsame | hfresh
    · obtain ⟨rfl, rfl⟩ := hw.holds.injective hsame hr hcell
      cases (h.gone hw).1.symm.trans hold
    · rw [hcell] at hfresh
      simp [hfresh] at hsome
  · have hkept := hfirst.isSome hsome
    rw [hcell] at hnew
    simp [hnew] at hkept

/-! ## Who sees what -/

/-- With these contents of the cells, `c` is seen of the component of `e` and
    `t`, on which `r` is the handle, and all else is as it was. -/
structure Seen (g : Engine σ) (hs : List CellRef) (e : Entity) (t : TypeId) (r : CellRef)
    (c : Component) (cells : Cells) : Prop where
  table : ∀ e' t', (g.withCells cells).world.store.value? t' e' =
    if e' = e ∧ t' = t then some c else g.world.store.value? t' e'
  row : ∀ {set row t' r'}, g.HasRow set row → row.get? t' = some r' →
    r'.read cells = if row.entity = e ∧ t' = t then some c else r'.read g.world.store.cells
  handle : ∀ h ∈ hs, h.read cells = if h = r then some c else h.read g.world.store.cells
  /-- Whoever has captured the cell, in a set of any system or elsewhere. -/
  captured : ∀ h : CellRef, h.cell = r.cell → h.read cells = some c
  /-- And nobody else. -/
  others : ∀ h : CellRef, h.cell ≠ r.cell → h.read cells = h.read g.world.store.cells

/-- What is true of the cells of an engine and of handles on them. -/
structure Lifetimes (g : Engine σ) (trees : Pipeline σ → Prop) (n : Nat) (hs : List CellRef) :
    Prop where
  /-- Each type that a live entity owns has a cell for it, and no two have the
      same. -/
  distinct : (∀ {e types t}, g.world.types? e = some types → t ∈ types →
      ∃ r, g.world.find? e t = some r) ∧
    ∀ {e e' t t' r r'}, g.world.find? e t = some r → g.world.find? e' t' = some r' →
      r.cell = r'.cell → e = e' ∧ t = t'
  /-- A handle on a cell that is in use is a clone of the one in the table. -/
  clone : ∀ {h e t r}, h ∈ hs → g.world.find? e t = some r → h.cell = r.cell → h = r
  /-- The rows of an entity have captured the handles that are in the tables. -/
  captured : ∀ {set row t}, g.HasRow set row → t ∈ set.spec.types →
    row.get? t = g.world.find? row.entity t
  /-- What is put into a cell through a handle is seen through its table, the
      rows, and all clones of the handle. -/
  put : ∀ {h e t r c cells}, h ∈ hs → g.world.find? e t = some r → h.cell = r.cell →
    h.Puts g.world.store.cells c cells → g.Seen hs e t r c cells
  /-- A component of the type can always be put there, and a value of the type
      of the component. -/
  puts : ∀ {h e t r}, h ∈ hs → g.world.find? e t = some r → h.cell = r.cell →
    (∀ c, c.typeId = t → ∃ cells, h.Puts g.world.store.cells c cells) ∧
      ∀ c, g.world.store.value? t e = some c → ∀ x : c.type.Data, ∃ cells,
        h.writeAs g.world.store.cells c.type x = (true, cells)
  /-- To replace a component, by a command or without, is to put it into the
      cell: the cell stays. -/
  replaced : ∀ {e c r}, g.world.find? e c.typeId = some r → ∃ cells,
    g.Seen hs e c.typeId r c cells ∧ g.world.replace e c = (.ok (), g.world.withCells cells) ∧
      ∀ record, g.world.decode record = .ok c →
        (Command.update e record).apply commands g = (.ok (), g.withCells cells)
  /-- The cell of a component that is gone is in no table and in no row, ever
      again, and what is put into it through a handle is seen nowhere. -/
  gone : ∀ {e t r g₁ k g₂}, g.world.find? e t = some r → g.Takes e t g₁ →
    Leads trees g₁ k g₂ → n + k < 2 ^ 64 - 1 →
      (∀ e' t' r', g₂.world.find? e' t' = some r' → r'.cell ≠ r.cell) ∧
      (∀ set row, g₂.HasRow set row → ∀ r' ∈ row.components, r'.cell ≠ r.cell) ∧
      ∀ (h : CellRef) c cells, h.cell = r.cell → h.Puts g₂.world.store.cells c cells →
        (∀ e' t', (g₂.withCells cells).world.store.value? t' e' = g₂.world.store.value? t' e') ∧
        ∀ set row, g₂.HasRow set row → row.contents cells = row.contents g₂.world.store.cells

variable {set : LiveSet} {row : Row} {c : Component}

/-- What a row reads of a type is what the table holds. -/
theorem HasRow.find?_of_get? (h : g.HasRow set row) (hg : g.Upkept) (hw : g.world.Consistent)
    (hr : row.get? t = some r) : g.world.find? row.entity t = some r := by
  obtain ⟨hmem, hid⟩ := Row.of_get? hr
  obtain ⟨t', -, hfind⟩ := (World.of_row? (h.row? hg)).2 r hmem
  rwa [← hid, hw.holds.typed hfind]

/-- A component that gets into a cell is seen of the owner of the cell alone. -/
theorem seen_set (hg : g.Upkept) (hw : g.world.Consistent)
    (hvalid : ∀ h ∈ hs, h.Valid g.world.store.cells) (hr : g.world.find? e t = some r)
    (c : Component) : g.Seen hs e t r c (g.world.store.cells.set r.cell c) where
  table e' t' := by
    refine (hw.holds.value?_set hr c t' e').trans ?_
    simp only [eq_comm, and_comm]
  row {set row t' r'} hrow hr' := by
    have hfind := hrow.find?_of_get? hg hw hr'
    split
    · rename_i heq
      obtain ⟨rfl, rfl⟩ := heq
      obtain rfl := Option.some.inj (hfind.symm.trans hr)
      exact Cells.read_set_self (hw.valid hr).isSome_read c
    · rename_i hne
      refine Cells.read_set_of_ne (fun hcell => hne ?_) c
      obtain ⟨rfl, rfl⟩ := hw.holds.injective hfind hr hcell.symm
      exact ⟨rfl, rfl⟩
  handle h hh := by
    split
    · rename_i heq
      rw [heq]
      exact Cells.read_set_self (hw.valid hr).isSome_read c
    · rename_i hne
      exact Cells.read_set_of_ne (fun hcell => hne ((hvalid h hh).eq (hw.valid hr) hcell.symm)) c
  captured h hcell := by
    rw [← hcell]
    refine Cells.read_set_self ?_ c
    rw [CellRef.read, hcell]
    exact (hw.valid hr).isSome_read
  others h hcell := Cells.read_set_of_ne hcell.symm c

/-- A cell in use takes every component of its type. -/
theorem exists_puts (hw : g.world.Consistent) (hr : g.world.find? e t = some r)
    (hc : c.typeId = t) : ∃ cells, r.Puts g.world.store.cells c cells := by
  rcases r.replace_cases g.world.store.cells c with ⟨-, heq⟩ | ⟨err, heq⟩
  · exact ⟨_, .replace heq⟩
  · rw [CellRef.replace, if_pos (hc.trans (hw.holds.typed hr).symm)] at heq
    cases heq

/-- A cell in use takes every value of the type of its component. -/
theorem exists_writeAs (hr : g.world.find? e t = some r) (hc : g.world.store.value? t e = some c)
    (x : c.type.Data) : ∃ cells, r.writeAs g.world.store.cells c.type x = (true, cells) := by
  have hread : r.read g.world.store.cells = some c := by
    rw [Store.value?, show g.world.store.find? t e = some r from hr] at hc
    exact hc
  refine ⟨g.world.store.cells.set r.cell ⟨c.type, x⟩, if_pos ?_⟩
  rw [CellRef.readAs, hread, Option.bind_some, Component.as?_eq_some_iff.2 rfl]
  rfl

/-- A component that gets into a cell that no table holds is seen in no table. -/
theorem value?_set_of_apart (hapart : ∀ e' t' r', g.world.find? e' t' = some r' → r'.cell ≠ r.cell)
    (c : Component) (e : Entity) (t : TypeId) :
    (g.withCells (g.world.store.cells.set r.cell c)).world.store.value? t e =
      g.world.store.value? t e := by
  show (g.world.store.find? t e).bind _ = (g.world.store.find? t e).bind _
  cases hfind : g.world.store.find? t e with
  | none => rfl
  | some r' => exact Cells.read_set_of_ne (hapart e t r' hfind).symm c

/-- Nor is it seen in a row that has not captured the cell. -/
theorem contents_set_of_apart {cells : Cells} (hapart : ∀ r' ∈ row.components, r'.cell ≠ r.cell)
    (c : Component) : row.contents (cells.set r.cell c) = row.contents cells := by
  rw [Row.contents, Row.contents]
  refine congrArg (Prod.mk row.entity) (List.filterMap_congr ?_)
  intro r' hr'
  exact Cells.read_set_of_ne (hapart r' hr').symm c

/-- **A cell belongs to one component, for as long as the component is there**,
    whatever happens to ids and types on the way, and whoever has handles. -/
theorem Holding.lifetimes (h : Holding trees n g hs) (hn : n < 2 ^ 64 - 1) :
    g.Lifetimes trees n hs := by
  have hw := h.reaches.consistent hn
  have hg := h.reaches.upkept hn
  have hvalid := h.valid hn
  constructor
  case distinct =>
    refine ⟨?_, hw.holds.injective⟩
    intro e types t htypes ht
    rw [← World.owns_iff_of_types? htypes, ← hw.holds.isSome_find?] at ht
    exact Option.isSome_iff_exists.1 ht
  case clone =>
    intro h' e t r hh hr hcell
    exact (hvalid h' hh).eq (hw.valid hr) hcell
  case captured =>
    intro set row t hrow ht
    exact hw.get?_row? (hrow.row? hg) ht
  case put =>
    intro h' e t r c cells hh hr hcell hputs
    rw [hputs.eq, hcell]
    exact seen_set hg hw hvalid hr c
  case puts =>
    intro h' e t r hh hr hcell
    obtain rfl := (hvalid h' hh).eq (hw.valid hr) hcell
    exact ⟨fun _ => exists_puts hw hr, fun _ => exists_writeAs hr⟩
  case replaced =>
    intro e c r hr
    have hreplace := hw.replace_of_find? hr
    refine ⟨_, seen_set hg hw hvalid hr c, hreplace, ?_⟩
    intro record hread
    simp only [Command.apply, commands, hread, hreplace]
    rfl
  case gone =>
    intro e t r g₁ k g₂ hr htakes hleads hk
    obtain ⟨-, hids⟩ := htakes.gone hw
    have hfirst := h.reaches.step htakes.step
    rw [hids, Nat.add_zero] at hfirst
    have hlast := (hleads.reaches hfirst).upkept hk
    have hcells : ∀ e' t' r', g₂.world.find? e' t' = some r' → r'.cell ≠ r.cell := by
      intro e' t' r' hr'
      exact htakes.cell_ne hw hr hleads hr'
    -- rows have only handles that are in the tables too
    have hrows : ∀ set row, g₂.HasRow set row → ∀ r' ∈ row.components, r'.cell ≠ r.cell := by
      intro set row hrow r' hr'
      obtain ⟨t', -, hfind⟩ := (World.of_row? (hrow.row? hlast)).2 r' hr'
      exact hcells _ _ _ hfind
    refine ⟨hcells, hrows, ?_⟩
    intro h' c cells hcell hputs
    rw [hputs.eq, hcell]
    constructor
    · exact value?_set_of_apart hcells c
    · intro set row hrow
      exact contents_set_of_apart (hrows set row hrow) c

/-- A handle outlives its component, and the id is in use again: a write through
    the handle changes the cell and nothing else, in the tables and in the rows,
    of which the id has one. -/
theorem lifetimes_recycled :
    let g := filled watcher
    ∃ r r' : CellRef, Holding (· = watcher) 2 g [r] ∧
      g.world.find? ⟨1⟩ Catalog.x.id = some r ∧
      g.Takes ⟨1⟩ Catalog.x.id (g.despawn ⟨1⟩).2 ∧
      Leads (· = watcher) (g.despawn ⟨1⟩).2 0 stocked ∧
      stocked.world.find? ⟨1⟩ Catalog.y.id = some r' ∧ r'.cell ≠ r.cell ∧
      ∃ cells, r.writeAs stocked.world.store.cells Catalog.x (9 : BitVec 32) = (true, cells) ∧
        r.read cells = some ⟨Catalog.x, (9 : BitVec 32)⟩ ∧
        (∀ e t, (stocked.withCells cells).world.store.value? t e =
          stocked.world.store.value? t e) ∧
        (∃ set row, stocked.HasRow set row ∧ row.entity = ⟨1⟩) ∧
        ∀ set row, stocked.HasRow set row → (∀ r' ∈ row.components, r'.cell ≠ r.cell) ∧
          row.contents cells = row.contents stocked.world.store.cells := by
  intro g
  have hreaches : Reaches (· = watcher) 2 g := reaches_filled rfl
  have hfilled := hreaches.holding
  have hr : g.world.find? ⟨1⟩ Catalog.x.id = some ⟨Catalog.x.id, ⟨0⟩⟩ := by decide +kernel
  have hleads : Leads (· = watcher) (g.despawn ⟨1⟩).2 0 stocked := by
    have hids : 0 + (g.despawn ⟨1⟩).2.world.ids.newIds
        ((g.despawn ⟨1⟩).2.spawn [⟨Catalog.y, (4 : BitVec 32)⟩]).2.world.ids = 0 := by
      decide +kernel
    have hrefl : Leads (· = watcher) (g.despawn ⟨1⟩).2 0 _ := .refl
    have hstep := hrefl.step (.spawn [⟨Catalog.y, (4 : BitVec 32)⟩])
    rw [hids] at hstep
    exact hstep
  obtain ⟨hcells, hrows, hput⟩ :=
    (Holding.lifetimes (hfilled.table hr) (by decide)).gone hr .despawn hleads (by decide)
  have hr' : stocked.world.find? ⟨1⟩ Catalog.y.id = some ⟨Catalog.y.id, ⟨3⟩⟩ := by decide +kernel
  have hwrite : (CellRef.writeAs ⟨Catalog.x.id, ⟨0⟩⟩ stocked.world.store.cells Catalog.x
      (9 : BitVec 32)).1 = true := by decide +kernel
  have hputs : CellRef.Puts ⟨Catalog.x.id, ⟨0⟩⟩ stocked.world.store.cells
      ⟨Catalog.x, (9 : BitVec 32)⟩ _ := .write (Prod.ext hwrite rfl)
  obtain ⟨htables, hcontents⟩ := hput _ _ _ rfl hputs
  have hrow : ∃ set row, stocked.HasRow set row ∧ row.entity = ⟨1⟩ := by
    have hfirst : (stocked.root.bind fun p => p.stages.head?.bind fun s => s.access.sets[1]?.bind
        fun set => set.rows.values.head?.map (·.entity)) = some ⟨1⟩ := by decide +kernel
    simp only [Option.bind_eq_some_iff, Option.map_eq_some_iff] at hfirst
    obtain ⟨p, hp, s, hs, set, hset, row, hrow, hentity⟩ := hfirst
    have hstocked := reaches_stocked Pipeline.standard_watcher
    have hmem := List.mem_of_head? hs
    exact ⟨set, row, ⟨p, s, hp, hmem, (hstocked.kept (by decide) p hp s hmem).standard,
      List.mem_of_getElem? hset, List.mem_of_head? hrow⟩, hentity⟩
  refine ⟨_, _, hfilled.table hr, hr, .despawn, hleads, hr', hcells _ _ _ hr', _,
    Prod.ext hwrite rfl, ?_, htables, hrow, ?_⟩
  · decide +kernel
  · exact fun set row hrow => ⟨hrows set row hrow, hcontents set row hrow⟩

/-- **A system with a way of its own to withdraw entities may keep a row.**  The
    entity is gone, and a set still has a row of it on its cell; a write through
    a handle on the cell is seen there. -/
theorem row_outlives_entity :
    let g := filled stray
    let g' := (g.despawn ⟨1⟩).2
    ∃ r set row cells, Holding (fun _ => True) 2 g [r] ∧
      g.world.find? ⟨1⟩ Catalog.x.id = some r ∧ g.Takes ⟨1⟩ Catalog.x.id g' ∧
      g'.world.contains ⟨1⟩ = false ∧ g'.HasAnyRow set row ∧ r ∈ row.components ∧
      r.writeAs g'.world.store.cells Catalog.x (9 : BitVec 32) = (true, cells) ∧
      row.contents g'.world.store.cells = (⟨1⟩, [⟨Catalog.x, (1 : BitVec 32)⟩]) ∧
      row.contents cells = (⟨1⟩, [⟨Catalog.x, (9 : BitVec 32)⟩]) := by
  intro g g'
  have hr : g.world.find? ⟨1⟩ Catalog.x.id = some ⟨Catalog.x.id, ⟨0⟩⟩ := by decide +kernel
  have hleft : (g'.root.bind fun p => p.stages.head?.bind fun s => s.access.sets.head?.bind
      fun set => set.rows.values.head?) = some ⟨⟨1⟩, [⟨Catalog.x.id, ⟨0⟩⟩]⟩ := by
    unfold g' g
    cbv
  simp only [Option.bind_eq_some_iff] at hleft
  obtain ⟨p, hp, s, hs, set, hset, hrow⟩ := hleft
  have hhas : g'.HasAnyRow set ⟨⟨1⟩, [⟨Catalog.x.id, ⟨0⟩⟩]⟩ :=
    ⟨p, s, hp, List.mem_of_head? hs, List.mem_of_head? hset, List.mem_of_head? hrow⟩
  have hwrite : (CellRef.writeAs ⟨Catalog.x.id, ⟨0⟩⟩ g'.world.store.cells Catalog.x
      (9 : BitVec 32)).1 = true := by decide +kernel
  have hreaches : Reaches (fun _ => True) 2 g := reaches_filled trivial
  have hfilled := hreaches.holding
  refine ⟨_, _, _, _, hfilled.table hr, hr, .despawn, by decide +kernel, hhas,
    List.mem_singleton_self _, Prod.ext hwrite rfl, ?_, ?_⟩
  · decide +kernel
  · decide +kernel

end Engine

end TickEngine
