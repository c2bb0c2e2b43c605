/-
  What a store holds, and what each change of it does to look-ups.

  * `Store.Holds` ties a store to the pairs of an entity and a type that it has
    a component for;
  * `Store.Gains` is the change by storing components for one entity;
    `find?_remove` says what taking one out does.
-/
import TickEngine.Proofs.Cells
import TickEngine.Proofs.Order
import TickEngine.World.Change

namespace TickEngine

theorem Tables.find?_insert (tables : Tables) (t t' : TypeId) (table : Table) (e : Entity) :
    Tables.find? (tables.insert t table) t' e =
      if t = t' then table.find? e else tables.find? t' e := by
  unfold Tables.find?
  split
  · rename_i heq
    simp [heq]
  · rename_i hne
    rw [SortedMap.get?_insert_of_ne _ hne]

namespace Store

variable {s s' : Store} {owns : Entity → TypeId → Prop} {e : Entity} {c : Component} {t : TypeId}

/-! ## Reading a store -/

/-- The identifier and the name of a table. -/
def label? (s : Store) (t : TypeId) : Option (TypeId × String) :=
  (s.table? t).map fun table => (table.typeId, table.name)

/-- The component that an entity has of a type. -/
def value? (s : Store) (t : TypeId) (e : Entity) : Option Component :=
  (s.find? t e).bind (·.read s.cells)

theorem find?_of_table? {table : Table} (h : s.table? t = some table) (e : Entity) :
    s.find? t e = table.find? e := by
  unfold find? Tables.find?
  rw [show s.tables.get? t = some table from h, Option.bind_some]

theorem isSome_table?_of_label? (h : s'.label? t = s.label? t) :
    (s'.table? t).isSome = (s.table? t).isSome := by
  simpa [label?] using congrArg Option.isSome h

/-- The store holds a component for exactly the pairs in `owns`, each in a cell
    of its own under the identifier of its table. -/
structure Holds (s : Store) (owns : Entity → TypeId → Prop) : Prop where
  label : ∀ {t l}, s.label? t = some l → l.1 = t
  isSome_find? : ∀ e t, (s.find? t e).isSome ↔ owns e t
  typed : ∀ {e t r}, s.find? t e = some r → r.typeId = t
  valid : ∀ {e t r}, s.find? t e = some r → r.Valid s.cells
  injective : ∀ {e e' t t' r r'}, s.find? t e = some r → s.find? t' e' = some r' →
    r.cell = r'.cell → e = e' ∧ t = t'

theorem Holds.find?_eq_none (h : s.Holds owns) (hn : ¬ owns e t) : s.find? t e = none := by
  rw [← h.isSome_find?, Option.not_isSome_iff_eq_none] at hn
  exact hn

theorem Holds.congr {owns' : Entity → TypeId → Prop} (h : s.Holds owns)
    (howns : ∀ e t, owns' e t ↔ owns e t) : s.Holds owns' := by
  have heq : owns' = owns := funext fun e => funext fun t => propext (howns e t)
  rwa [heq]

theorem holds_start : ({} : Store).Holds fun _ _ => False :=
  { label := fun h => by cases h
    isSome_find? := fun _ _ => by simp [find?, Tables.find?]
    typed := fun h => by cases h
    valid := fun h => by cases h
    injective := fun h => by cases h }

/-- `s'` is `s` with the components `cs` stored for `e`. -/
structure Gains (e : Entity) (cs : List Component) (s s' : Store) : Prop where
  label? : ∀ t, s'.label? t = s.label? t
  find? : ∀ {t e'}, ¬ (e' = e ∧ t ∈ cs.map Component.typeId) → s'.find? t e' = s.find? t e'
  value? : ∀ c ∈ cs, s'.value? c.typeId e = some c
  read : ∀ {r : CellRef}, (r.read s.cells).isSome → r.read s'.cells = r.read s.cells

theorem Gains.nil (e : Entity) (s : Store) : Gains e [] s s :=
  ⟨fun _ => rfl, fun _ => rfl, by simp, fun _ => rfl⟩

theorem Gains.cons {cs : List Component} {s₁ : Store} (h : Gains e [c] s s₁)
    (h' : Gains e cs s₁ s') (hc : c.typeId ∉ cs.map Component.typeId) :
    Gains e (c :: cs) s s' := by
  have hvalue := h.value? c (by simp)
  obtain ⟨r, hr, hread⟩ := Option.bind_eq_some_iff.1 hvalue
  have hr' : s'.find? c.typeId e = some r := by
    rw [h'.find? fun hmem => hc hmem.2]
    exact hr
  refine ⟨fun t => (h'.label? t).trans (h.label? t), fun hn => ?_, fun c' hc' => ?_, fun hr => ?_⟩
  · rw [List.map_cons, List.mem_cons] at hn
    rw [h'.find? fun hmem => hn ⟨hmem.1, .inr hmem.2⟩,
      h.find? fun hmem => hn ⟨hmem.1, .inl (by simpa using hmem.2)⟩]
  · rcases List.mem_cons.1 hc' with rfl | hc'
    · rw [Store.value?, hr', Option.bind_some, h'.read (by simp [hread]), hread]
    · exact h'.value? c' hc'
  · rw [h'.read (by simp [h.read hr, hr]), h.read hr]

/-- The store with `c` for `e` in a fresh cell of the table `table`. -/
def put (s : Store) (table : Table) (e : Entity) (c : Component) : Store :=
  ⟨s.tables.insert c.typeId { table with cells := table.cells.insert e (s.cells.alloc c).1 },
    (s.cells.alloc c).2⟩

theorem insert_eq_put {table : Table} (ht : s.table? c.typeId = some table)
    (hid : table.typeId = c.typeId) (hfind : s.find? c.typeId e = none) :
    s.insert c.typeId e c = (.ok (some (s.cells.alloc c).1), s.put table e c) := by
  rw [find?_of_table? ht] at hfind
  simp [Store.insert, ht, hid, hfind, put]

theorem label?_put {table : Table} (ht : s.table? c.typeId = some table) (t : TypeId) :
    (s.put table e c).label? t = s.label? t := by
  by_cases heq : c.typeId = t
  · subst heq
    simp only [label?, ht]
    simp [put, table?]
  · simp [put, label?, table?, SortedMap.get?_insert_of_ne _ heq]

theorem find?_put_self (s : Store) (table : Table) (e : Entity) (c : Component) :
    (s.put table e c).find? c.typeId e = some (s.cells.alloc c).1 := by
  simp [put, find?, Tables.find?_insert, Table.find?]

theorem find?_put_of_ne {table : Table} (ht : s.table? c.typeId = some table) {e' : Entity}
    (hne : ¬ (e' = e ∧ t = c.typeId)) : (s.put table e c).find? t e' = s.find? t e' := by
  simp only [put, find?, Tables.find?_insert]
  split
  · rename_i heq
    have he : e ≠ e' := fun he => hne ⟨he.symm, heq.symm⟩
    rw [Table.find?, SortedMap.get?_insert_of_ne _ he, ← heq]
    exact (find?_of_table? ht e').symm
  · rfl

/-- A look-up in the new store gives the new handle or an old one. -/
theorem find?_put_cases {table : Table} (ht : s.table? c.typeId = some table) {e' : Entity}
    {r : CellRef} (hr : (s.put table e c).find? t e' = some r) :
    (e' = e ∧ t = c.typeId ∧ r = (s.cells.alloc c).1) ∨ s.find? t e' = some r := by
  by_cases hnew : e' = e ∧ t = c.typeId
  · obtain ⟨rfl, rfl⟩ := hnew
    rw [find?_put_self, Option.some.injEq] at hr
    exact .inl ⟨rfl, rfl, hr.symm⟩
  · exact .inr (by rw [← hr, find?_put_of_ne ht hnew])

theorem gains_put {table : Table} (ht : s.table? c.typeId = some table) :
    Gains e [c] s (s.put table e c) := by
  refine ⟨label?_put ht, fun hne => find?_put_of_ne ht (by simpa using hne), fun c' hc' => ?_,
    fun hr => Cells.read_alloc hr c⟩
  obtain rfl := List.mem_singleton.1 hc'
  rw [value?, find?_put_self, Option.bind_some]
  exact Cells.read_alloc_self s.cells c'

theorem Holds.put (h : s.Holds owns) {table : Table} (ht : s.table? c.typeId = some table) :
    (s.put table e c).Holds fun e' t => owns e' t ∨ e' = e ∧ t = c.typeId := by
  refine ⟨fun hl => h.label (label?_put ht _ ▸ hl), fun e' t => ?_, fun hr => ?_, fun hr => ?_, ?_⟩
  · by_cases hnew : e' = e ∧ t = c.typeId
    · obtain ⟨rfl, rfl⟩ := hnew
      simp [find?_put_self]
    · rw [find?_put_of_ne ht hnew, h.isSome_find?]
      simp [hnew]
  · rcases find?_put_cases ht hr with ⟨-, rfl, rfl⟩ | hr
    · rfl
    · exact h.typed hr
  · rcases find?_put_cases ht hr with ⟨-, -, rfl⟩ | hr
    · exact Cells.valid_alloc s.cells c
    · exact Cells.valid_alloc_of_valid (h.valid hr) c
  · intro e₁ e₂ t₁ t₂ r₁ r₂ h₁ h₂ hcell
    rcases find?_put_cases ht h₁ with ⟨rfl, rfl, rfl⟩ | hold₁ <;>
      rcases find?_put_cases ht h₂ with ⟨rfl, rfl, rfl⟩ | hold₂
    · exact ⟨rfl, rfl⟩
    · exact absurd hcell.symm (Cells.cell_ne_alloc (h.valid hold₂).isSome_read c)
    · exact absurd hcell (Cells.cell_ne_alloc (h.valid hold₁).isSome_read c)
    · exact h.injective hold₁ hold₂ hcell

/-- Storing a component that the entity lacks, under an identifier that has a
    table. -/
theorem Holds.insert (h : s.Holds owns) (ht : (s.table? c.typeId).isSome)
    (hn : ¬ owns e c.typeId) : ∃ r s', s.insert c.typeId e c = (.ok (some r), s') ∧
      Gains e [c] s s' ∧ s'.Holds fun e' t => owns e' t ∨ e' = e ∧ t = c.typeId := by
  obtain ⟨table, htable⟩ := Option.isSome_iff_exists.1 ht
  have hlabel : s.label? c.typeId = some (table.typeId, table.name) := by simp [label?, htable]
  exact ⟨_, _, insert_eq_put htable (h.label hlabel) (h.find?_eq_none hn), gains_put htable,
    h.put htable⟩

/-! ## Taking out -/

theorem find?_remove (s : Store) (t t' : TypeId) (e e' : Entity) :
    (s.remove t e).2.find? t' e' = if t = t' ∧ e = e' then none else s.find? t' e' := by
  cases ht : s.table? t with
  | none =>
    have hnone : s.find? t e' = none := by
      rw [find?, Tables.find?, show s.tables.get? t = none from ht, Option.bind_none]
    simp only [remove, ht]
    split
    · rename_i heq
      rw [← heq.1]
      exact hnone
    · rfl
  | some table =>
    simp only [remove, ht, find?, Tables.find?_insert]
    by_cases heq : t = t'
    · subst heq
      have hold := find?_of_table? ht e'
      rw [if_pos rfl, Table.find?]
      by_cases he : e = e'
      · simp [he]
      · rw [SortedMap.get?_erase_of_ne _ he, if_neg fun h => he h.2]
        exact hold.symm
    · rw [if_neg heq, if_neg fun h => heq h.1]

theorem label?_remove (s : Store) (t t' : TypeId) (e : Entity) :
    (s.remove t e).2.label? t' = s.label? t' := by
  unfold remove
  cases ht : s.table? t with
  | none => rfl
  | some table =>
    by_cases heq : t = t'
    · subst heq
      simp only [label?, ht]
      simp [table?]
    · simp [label?, table?, SortedMap.get?_insert_of_ne _ heq]

theorem cells_remove (s : Store) (t : TypeId) (e : Entity) : (s.remove t e).2.cells = s.cells := by
  unfold remove
  cases s.table? t <;> rfl

theorem find?_dropAll (e e' : Entity) (t : TypeId) (types : List TypeId) (s : Store) :
    (World.dropAll e types s).find? t e' = if e = e' ∧ t ∈ types then none else s.find? t e' := by
  induction types generalizing s with
  | nil => simp [World.dropAll]
  | cons u rest ih =>
    rw [World.dropAll, List.foldl_cons, ← World.dropAll, ih, find?_remove]
    by_cases he : e = e'
    · by_cases ht : t ∈ rest
      · simp [he, ht]
      · simp [he, ht, eq_comm]
    · simp [he]

theorem label?_dropAll (e : Entity) (t : TypeId) (types : List TypeId) (s : Store) :
    (World.dropAll e types s).label? t = s.label? t := by
  induction types generalizing s with
  | nil => rfl
  | cons u rest ih => rw [World.dropAll, List.foldl_cons, ← World.dropAll, ih, label?_remove]

theorem cells_dropAll (e : Entity) (types : List TypeId) (s : Store) :
    (World.dropAll e types s).cells = s.cells := by
  induction types generalizing s with
  | nil => rfl
  | cons u rest ih => rw [World.dropAll, List.foldl_cons, ← World.dropAll, ih, cells_remove]

/-- A store that lost some components holds the others. -/
theorem Holds.restrict (h : s.Holds owns) (keep : Entity → TypeId → Prop)
    (hlabel : ∀ t, s'.label? t = s.label? t) (hcells : s'.cells = s.cells)
    (hkeep : ∀ {e t}, keep e t → s'.find? t e = s.find? t e)
    (hdrop : ∀ {e t}, ¬ keep e t → s'.find? t e = none) :
    s'.Holds fun e t => owns e t ∧ keep e t := by
  have hold : ∀ {e t r}, s'.find? t e = some r → s.find? t e = some r := by
    intro e t r hr
    by_cases hk : keep e t
    · rw [← hkeep hk, hr]
    · rw [hdrop hk] at hr
      cases hr
  refine ⟨fun hl => h.label (hlabel _ ▸ hl), ?_, fun hr => h.typed (hold hr),
    fun hr => hcells ▸ h.valid (hold hr), fun h₁ h₂ => h.injective (hold h₁) (hold h₂)⟩
  intro e t
  by_cases hk : keep e t
  · rw [hkeep hk, h.isSome_find?]
    simp [hk]
  · simp [hdrop hk, hk]

/-! ## Overwriting -/

theorem Holds.of_sameTypes (h : s.Holds owns) {cells : Cells} (hc : s.cells.SameTypes cells) :
    ({ s with cells } : Store).Holds owns :=
  { label := h.label
    isSome_find? := h.isSome_find?
    typed := h.typed
    valid := fun hr => hc.valid (h.valid hr)
    injective := h.injective }

/-- Overwriting the cell of one component changes that component alone. -/
theorem Holds.value?_set (h : s.Holds owns) {r : CellRef} (hr : s.find? t e = some r)
    (c : Component) (t' : TypeId) (e' : Entity) :
    ({ s with cells := s.cells.set r.cell c } : Store).value? t' e' =
      if t = t' ∧ e = e' then some c else s.value? t' e' := by
  have hfind : ({ s with cells := s.cells.set r.cell c } : Store).find? t' e' = s.find? t' e' := rfl
  rw [value?, value?, hfind]
  split
  · rename_i heq
    obtain ⟨rfl, rfl⟩ := heq
    rw [hr]
    exact Cells.read_set_self (h.valid hr).isSome_read c
  · rename_i hne
    cases hr' : s.find? t' e' with
    | none => rfl
    | some r' =>
      -- no two entries share a cell, so this one is not overwritten
      refine Cells.read_set_of_ne (fun hcell => hne ?_) c
      obtain ⟨rfl, rfl⟩ := h.injective hr hr' hcell
      exact ⟨rfl, rfl⟩

/-! ## New tables -/

theorem find?_ensure (s : Store) (t t' : TypeId) (name : String) (e : Entity) :
    (s.ensure t name).find? t' e = s.find? t' e := by
  unfold ensure
  split
  · rfl
  · rename_i hnew
    rw [SortedMap.contains, Option.not_isSome_iff_eq_none] at hnew
    simp only [find?, Tables.find?_insert]
    split
    · rename_i heq
      rw [Tables.find?, ← heq, hnew]
      rfl
    · rfl

theorem label?_ensure (s : Store) (t t' : TypeId) (name : String) :
    (s.ensure t name).label? t' =
      if t = t' ∧ s.label? t = none then some (t, name) else s.label? t' := by
  unfold ensure
  split
  · rename_i hold
    have hlabel : s.label? t ≠ none := by
      rw [label?, Ne, Option.map_eq_none_iff, ← Option.not_isSome_iff_eq_none]
      exact not_not.2 hold
    rw [if_neg fun h => hlabel h.2]
  · rename_i hnew
    rw [SortedMap.contains, Option.not_isSome_iff_eq_none] at hnew
    have hlabel : s.label? t = none := by rw [label?, table?, hnew, Option.map_none]
    by_cases heq : t = t'
    · subst heq
      rw [if_pos ⟨rfl, hlabel⟩]
      simp [label?, table?, Table.new]
    · rw [if_neg fun h => heq h.1]
      simp [label?, table?, SortedMap.get?_insert_of_ne _ heq]

theorem cells_ensure (s : Store) (t : TypeId) (name : String) :
    (s.ensure t name).cells = s.cells := by
  unfold ensure
  split <;> rfl

theorem Holds.ensure (h : s.Holds owns) (t : TypeId) (name : String) :
    (s.ensure t name).Holds owns := by
  refine ⟨fun {t' l} hl => ?_, fun e' t' => ?_, fun hr => ?_, fun hr => ?_, fun h₁ h₂ => ?_⟩
  · rw [label?_ensure] at hl
    split at hl
    · rename_i heq
      rw [← Option.some.inj hl]
      exact heq.1
    · exact h.label hl
  · rw [find?_ensure, h.isSome_find?]
  · exact h.typed (find?_ensure s t _ name _ ▸ hr)
  · exact cells_ensure s t name ▸ h.valid (find?_ensure s t _ name _ ▸ hr)
  · exact h.injective (find?_ensure s t _ name _ ▸ h₁) (find?_ensure s t _ name _ ▸ h₂)

end Store

end TickEngine
