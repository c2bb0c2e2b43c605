/-
  The rows of live sets, as a function of declaration and entity.

  A stage `Shows` a function if each of its sets has exactly the rows that the
  function gives for its declaration.  Offering an entity changes the function
  at that entity alone, and two stages with the same declarations that show the
  same have the same sets (`Stage.Shows.access_eq`).
-/
import TickEngine.Proofs.Order
import TickEngine.Proofs.Stages

namespace TickEngine

/-- Which row each declaration has for each entity. -/
abbrev RowMap := SetSpec → Entity → Option Row

/-- The row map that differs at `e` alone. -/
def RowMap.assign (rows : RowMap) (e : Entity) (new : SetSpec → Option Row) : RowMap :=
  fun spec e' => if e = e' then new spec else rows spec e'

/-- The row that an entity gets when it is offered. -/
def SetSpec.offered? (spec : SetSpec) (tables : Tables) (e : Entity) : Option Row :=
  let components := LiveSet.capture spec.types tables e
  if spec.admits (components.map (·.typeId)) then some ⟨e, components⟩ else none

/-! ## One set -/

namespace LiveSet

variable {s s' : LiveSet}

theorem spec_register (s : LiveSet) (tables : Tables) (e : Entity) :
    (s.register tables e).2.spec = s.spec := by
  unfold register
  dsimp only
  split <;> rfl

theorem spec_unregister (s : LiveSet) (e : Entity) : (s.unregister e).2.spec = s.spec := rfl

theorem get?_register (s : LiveSet) (tables : Tables) (e e' : Entity) :
    (s.register tables e).2.rows.get? e' =
      if e = e' then s.spec.offered? tables e else s.rows.get? e' := by
  unfold register SetSpec.offered?
  dsimp only
  by_cases he : e = e'
  · subst he
    rw [if_pos rfl]
    split <;> simp
  · rw [if_neg he]
    split
    · exact SortedMap.get?_insert_of_ne _ he _
    · exact SortedMap.get?_erase_of_ne _ he

theorem get?_unregister (s : LiveSet) (e e' : Entity) :
    (s.unregister e).2.rows.get? e' = if e = e' then none else s.rows.get? e' := by
  unfold unregister
  split
  · rename_i he
    rw [he, SortedMap.get?_erase_self]
  · rename_i he
    rw [SortedMap.get?_erase_of_ne _ he]

/-- A set is given by its declaration and its rows. -/
theorem eq_of_get? (hspec : s.spec = s'.spec) (h : ∀ e, s.rows.get? e = s'.rows.get? e) :
    s = s' := by
  cases s
  cases s'
  rw [LiveSet.mk.injEq]
  exact ⟨hspec, SortedMap.ext_get? h⟩

end LiveSet

/-! ## The sets of a stage -/

/-- A system that offers every entity to all its sets, and withdraws it from all
    of them. -/
def System.Standard {σ : Type} (s : System σ) : Prop := s = .new s.name s.sets s.update

namespace Access

/-- The sets are those of the declarations, with exactly the rows of the row
    map. -/
structure Shows (specs : List SetSpec) (rows : RowMap) (a : Access) : Prop where
  specs : a.sets.map (·.spec) = specs
  rows : ∀ s ∈ a.sets, ∀ e, s.rows.get? e = rows s.spec e

variable {specs : List SetSpec} {rows : RowMap} {a a' : Access}

theorem Shows.map (h : a.Shows specs rows) {f : LiveSet → LiveSet} {rows' : RowMap}
    (hspec : ∀ s, (f s).spec = s.spec)
    (hrows : ∀ s, (∀ e, s.rows.get? e = rows s.spec e) →
      ∀ e, (f s).rows.get? e = rows' s.spec e) : Shows specs rows' ⟨a.sets.map f⟩ := by
  constructor
  · rw [List.map_map, ← h.specs]
    exact List.map_congr_left fun s _ => hspec s
  · rw [List.forall_mem_map]
    intro s hs e
    rw [hspec]
    exact hrows s (h.rows s hs) e

theorem register_snd (a : Access) (tables : Tables) (e : Entity) :
    (a.register tables e).2 = ⟨a.sets.map fun s => (s.register tables e).2⟩ := by
  rw [Access.register, List.map_map]
  rfl

theorem Shows.register (h : a.Shows specs rows) (tables : Tables) (e : Entity) :
    (a.register tables e).2.Shows specs (rows.assign e (·.offered? tables e)) := by
  rw [register_snd]
  refine h.map (fun s => s.spec_register tables e) ?_
  intro s hs e'
  rw [s.get?_register, hs, RowMap.assign]

theorem Shows.unregister (h : a.Shows specs rows) (e : Entity) :
    (a.unregister e).Shows specs (rows.assign e fun _ => none) :=
  h.map (fun _ => rfl) fun s hs e' => by rw [s.get?_unregister, hs, RowMap.assign]

theorem Shows.congr (h : a.Shows specs rows) {rows' : RowMap}
    (heq : ∀ spec e, rows' spec e = rows spec e) : a.Shows specs rows' :=
  ⟨h.specs, fun s hs e => (h.rows s hs e).trans (heq s.spec e).symm⟩

/-- What is shown determines the sets. -/
theorem Shows.unique (h : a.Shows specs rows) (h' : a'.Shows specs rows) : a = a' := by
  obtain ⟨sets⟩ := a
  obtain ⟨sets'⟩ := a'
  congr 1
  -- equal declarations pair the sets off one by one
  induction sets generalizing specs sets' with
  | nil =>
    have hspecs := h'.specs.trans h.specs.symm
    exact (List.map_eq_nil_iff.1 hspecs).symm
  | cons s rest ih =>
    have hspecs := h'.specs.trans h.specs.symm
    obtain ⟨s', rest', rfl, hspec, hrest⟩ := List.map_eq_cons_iff.1 hspecs
    obtain ⟨hs, hall⟩ := List.forall_mem_cons.1 h.rows
    obtain ⟨hs', hall'⟩ := List.forall_mem_cons.1 h'.rows
    have hhead : s = s' :=
      LiveSet.eq_of_get? hspec.symm fun e => by rw [hs, hs', hspec]
    rw [hhead, ih ⟨rfl, hall⟩ rest' ⟨hrest, hall'⟩]

end Access

namespace Stage

variable {σ : Type} {s : Stage σ} {rows : RowMap}

/-- The system of the stage keeps its sets up to date in the usual way, and a
    stage without a system declares no sets. -/
structure Standard (s : Stage σ) : Prop where
  system : ∀ {system}, s.system = some system → system.Standard
  bare : s.system = none → s.specs = []

/-- Each set of the stage has exactly the rows of the row map. -/
def Shows (s : Stage σ) (rows : RowMap) : Prop := s.access.Shows s.specs rows

theorem shows_started (s : Stage σ) : s.started.Shows fun _ _ => none := by
  constructor
  · rw [started, List.map_map]
    exact List.map_id _
  · rw [started, List.forall_mem_map]
    exact fun spec _ e => rfl

/-- A stage without a system has no sets. -/
theorem Standard.access_eq (hs : s.Standard) (hspecs : s.access.sets.map (·.spec) = s.specs)
    (hsystem : s.system = none) : s.access = {} := by
  rw [hs.bare hsystem, List.map_eq_nil_iff] at hspecs
  rw [← hspecs]

/-- Offering an entity to a stage offers it to all its sets. -/
theorem Standard.register_eq (hs : s.Standard) (hspecs : s.access.sets.map (·.spec) = s.specs)
    (tables : Tables) (e : Entity) : s.register tables e =
      ((s.access.register tables e).1, { s with access := (s.access.register tables e).2 }) := by
  unfold Stage.register
  split
  · rename_i hsystem
    have haccess := hs.access_eq hspecs hsystem
    obtain ⟨name, system, specs, access⟩ := s
    cases haccess
    rfl
  · rename_i system hsystem
    rw [hs.system hsystem]
    rfl

theorem Standard.unregister_eq (hs : s.Standard) (hspecs : s.access.sets.map (·.spec) = s.specs)
    (e : Entity) : s.unregister e = { s with access := s.access.unregister e } := by
  unfold Stage.unregister
  split
  · rename_i hsystem
    have haccess := hs.access_eq hspecs hsystem
    obtain ⟨name, system, specs, access⟩ := s
    cases haccess
    rfl
  · rename_i system hsystem
    rw [hs.system hsystem]
    rfl

theorem Shows.register_eq (h : s.Shows rows) (hs : s.Standard) (tables : Tables) (e : Entity) :
    (s.register tables e).2 = { s with access := (s.access.register tables e).2 } := by
  rw [hs.register_eq h.specs]

theorem Shows.unregister_eq (h : s.Shows rows) (hs : s.Standard) (e : Entity) :
    s.unregister e = { s with access := s.access.unregister e } :=
  hs.unregister_eq h.specs e

theorem Standard.with_access (hs : s.Standard) (access : Access) :
    ({ s with access } : Stage σ).Standard :=
  ⟨hs.system, hs.bare⟩

theorem Shows.register (h : s.Shows rows) (hs : s.Standard) (tables : Tables) (e : Entity) :
    (s.register tables e).2.Shows (rows.assign e (·.offered? tables e)) := by
  rw [h.register_eq hs]
  exact Access.Shows.register h tables e

theorem Shows.unregister (h : s.Shows rows) (hs : s.Standard) (e : Entity) :
    (s.unregister e).Shows (rows.assign e fun _ => none) := by
  rw [h.unregister_eq hs]
  exact Access.Shows.unregister h e

/-! ## Many entities -/

/-- Offering many entities, in any order, changes the rows of just these. -/
theorem Shows.registerEach (h : s.Shows rows) (hs : s.Standard) (tables : Tables)
    (es : List Entity) : ∃ access, s.registerEach tables es = { s with access } ∧
      access.Shows s.specs fun spec e =>
        if e ∈ es then spec.offered? tables e else rows spec e := by
  induction es generalizing s rows with
  | nil => exact ⟨s.access, rfl, h.congr fun spec e => by simp⟩
  | cons e rest ih =>
    have heq := h.register_eq hs tables e
    have hshows := h.register hs tables e
    rw [heq] at hshows
    obtain ⟨access, hrest, hall⟩ := ih hshows (hs.with_access _)
    refine ⟨access, ?_, hall.congr ?_⟩
    · rw [Stage.registerEach, List.foldl_cons, heq]
      exact hrest
    · intro spec e'
      by_cases hmem : e' ∈ rest
      · simp [hmem]
      · by_cases he : e = e'
        · simp [RowMap.assign, he]
        · simp [RowMap.assign, he, Ne.symm he, hmem]

/-- A stage that shows what offering would give, to exactly the entities that
    have rows, is what starting it and offering them gives. -/
theorem Shows.rebuilt (h : s.Shows rows) (hs : s.Standard) {tables : Tables} {es : List Entity}
    (hin : ∀ e ∈ es, ∀ spec, rows spec e = spec.offered? tables e)
    (hout : ∀ e, e ∉ es → ∀ spec, rows spec e = none) : s.started.registerEach tables es = s := by
  obtain ⟨access, heq, hshows⟩ := s.shows_started.registerEach (hs.with_access _) tables es
  have haccess : access = s.access := by
    refine Access.Shows.unique (hshows.congr ?_) h
    intro spec e
    split
    · rename_i hmem
      exact hin e hmem spec
    · rename_i hmem
      exact hout e hmem spec
  rw [heq, haccess]
  rfl

end Stage

end TickEngine
