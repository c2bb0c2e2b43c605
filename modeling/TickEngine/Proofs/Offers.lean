/-
  What sets know of tables that change behind their backs.

  A set looks at the tables when an entity is offered to it, and at no other
  time.  So it shows an entity as the tables had it at its last offer, whatever
  was stored or taken out since, and whatever happened to other entities.

  * `Access.reflects_offers`: the rows, answers and counts of the sets of a system
    after any history of changes of tables, offers and withdrawals.
-/
import TickEngine.Component.Catalog
import TickEngine.Proofs.Declarations
import TickEngine.Proofs.Rows
import TickEngine.Proofs.Storage

namespace TickEngine

/-! ## Changes of tables -/

namespace Store

/-- A change of the tables, of which no set is told. -/
inductive Change where
  | ensure (t : TypeId) (name : String)
  | insert (t : TypeId) (e : Entity) (c : Component)
  | remove (t : TypeId) (e : Entity)

/-- The store after a change, which may be refused. -/
def change (s : Store) : Change → Store
  | .ensure t name => s.ensure t name
  | .insert t e c => (s.insert t e c).2
  | .remove t e => (s.remove t e).2

/-- The store that changes lead to. -/
def ofChanges (changes : List Change) : Store := changes.foldl change {}

variable {s : Store} {owns : Entity → TypeId → Prop}

/-- A component is stored under its own identifier or not at all. -/
theorem Holds.insert_cases (h : s.Holds owns) (t : TypeId) (e : Entity) (c : Component) :
    (s.insert t e c).2 = s ∨
      ∃ table, s.table? c.typeId = some table ∧ (s.insert t e c).2 = s.put table e c := by
  cases htable : s.table? t with
  | none =>
    left
    simp [Store.insert, htable]
  | some table =>
    have hlabel : s.label? t = some (table.typeId, table.name) := by
      rw [label?, htable, Option.map_some]
    have hid : table.typeId = t := h.label hlabel
    by_cases htype : c.typeId = t
    · subst htype
      cases hfind : s.find? c.typeId e with
      | none =>
        right
        exact ⟨table, htable, by rw [insert_eq_put htable hid hfind]⟩
      | some r =>
        left
        rw [find?_of_table? htable] at hfind
        simp [Store.insert, htable, hid, hfind]
    · left
      simp [Store.insert, htable, hid, htype]

theorem Holds.change (h : s.Holds owns) (change : Change) :
    ∃ owns', (s.change change).Holds owns' := by
  cases change with
  | ensure t name => exact ⟨owns, h.ensure t name⟩
  | insert t e c =>
    rcases h.insert_cases t e c with heq | ⟨table, htable, heq⟩
    · exact ⟨owns, by rwa [Store.change, heq]⟩
    · exact ⟨_, by simpa only [Store.change, heq] using h.put htable⟩
  | remove t e =>
    exact ⟨_, h.restrict (fun e' t' => ¬ (t = t' ∧ e = e')) (fun t' => label?_remove s t t' e)
      (cells_remove s t e) (fun hkeep => by rw [Store.change, find?_remove, if_neg hkeep])
      fun hdrop => by rw [Store.change, find?_remove, if_pos (not_not.1 hdrop)]⟩

theorem holds_foldl_change (h : s.Holds owns) (changes : List Change) :
    ∃ owns', (changes.foldl Store.change s).Holds owns' := by
  induction changes generalizing s owns with
  | nil => exact ⟨owns, h⟩
  | cons change rest ih =>
    obtain ⟨owns', h'⟩ := h.change change
    exact ih h'

end Store

/-! ## Admission -/

/-- Whether the tables hold for an entity what a set declares. -/
def SetSpec.Qualifies (spec : SetSpec) (tables : Tables) (e : Entity) : Prop :=
  match spec.op with
  | .intersect => ∀ t ∈ spec.types, (tables.find? t e).isSome
  | .unite => ∃ t ∈ spec.types, (tables.find? t e).isSome

/-- What the tables hold for an entity carries the identifiers of the tables. -/
theorem LiveSet.mem_capture_iff {tables : Tables} {e : Entity}
    (htyped : ∀ {t r}, tables.find? t e = some r → r.typeId = t) {types : List TypeId} {t : TypeId} :
    t ∈ (capture types tables e).map (·.typeId) ↔ t ∈ types ∧ (tables.find? t e).isSome := by
  simp only [capture, List.mem_map, List.mem_filterMap]
  constructor
  · rintro ⟨r, ⟨t', hmem, hfind⟩, rfl⟩
    rw [htyped hfind, hfind]
    exact ⟨hmem, rfl⟩
  · rintro ⟨hmem, hsome⟩
    obtain ⟨r, hfind⟩ := Option.isSome_iff_exists.1 hsome
    exact ⟨r, ⟨t, hmem, hfind⟩, htyped hfind⟩

theorem SetSpec.admits_capture_iff {spec : SetSpec} (hne : spec.types ≠ []) {tables : Tables}
    {e : Entity} (htyped : ∀ {t r}, tables.find? t e = some r → r.typeId = t) :
    spec.admits ((LiveSet.capture spec.types tables e).map (·.typeId)) ↔
      spec.Qualifies tables e := by
  have howned : ∀ t ∈ spec.types,
      t ∈ (LiveSet.capture spec.types tables e).map (·.typeId) ↔ (tables.find? t e).isSome :=
    fun t ht => (LiveSet.mem_capture_iff htyped).trans (and_iff_right ht)
  rw [admits_iff, Accepts, Qualifies]
  cases spec.op with
  | intersect => exact (and_iff_right hne).trans (forall₂_congr howned)
  | unite => exact exists_congr fun t => and_congr_right (howned t)

/-- A qualifying entity is offered a row with what the tables hold for it. -/
theorem SetSpec.offered?_eq_some_iff {spec : SetSpec} (hne : spec.types ≠ []) {tables : Tables}
    {e : Entity} (htyped : ∀ {t r}, tables.find? t e = some r → r.typeId = t) {row : Row} :
    spec.offered? tables e = some row ↔
      spec.Qualifies tables e ∧ row = ⟨e, spec.types.filterMap (tables.find? · e)⟩ := by
  unfold offered?
  dsimp only
  rw [← admits_capture_iff hne htyped]
  split
  · rename_i hadmits
    simp only [hadmits, true_and, Option.some.injEq]
    exact eq_comm
  · rename_i hnot
    simp [hnot]

/-! ## Listing -/

theorem LiveSet.map_entity_values {s : LiveSet} (h : ∀ e row, s.row? e = some row → row.entity = e) :
    s.rows.values.map Row.entity = s.rows.keys := by
  rw [SortedMap.values, SortedMap.keys, List.map_map]
  refine List.map_congr_left ?_
  rintro ⟨e, row⟩ hmem
  exact h e row (SortedMap.mem_entries_iff.1 hmem)

theorem LiveSet.mem_values_iff {s : LiveSet} (h : ∀ e row, s.row? e = some row → row.entity = e)
    (row : Row) : row ∈ s.rows.values ↔ s.row? row.entity = some row := by
  constructor
  · intro hmem
    obtain ⟨⟨e, row⟩, hentry, rfl⟩ := List.mem_map.1 hmem
    have hrow := SortedMap.mem_entries_iff.1 hentry
    rw [h e row hrow]
    exact hrow
  · exact SortedMap.mem_values_of_get?

/-! ## Histories -/

namespace Access

/-- A store, and the sets of a system over its tables. -/
structure Site where
  store : Store
  access : Access

/-- What can happen at a site. -/
inductive Event where
  /-- The tables change, and no set is told. -/
  | change (change : Store.Change)
  | register (e : Entity)
  | unregister (e : Entity)

/-- The event offers or withdraws the entity. -/
def Event.Concerns (event : Event) (e : Entity) : Prop :=
  event = .register e ∨ event = .unregister e

namespace Site

def step (x : Site) : Event → Site
  | .change change => { x with store := x.store.change change }
  | .register e => { x with access := (x.access.register x.store.tables e).2 }
  | .unregister e => { x with access := x.access.unregister e }

/-- The site after a history. -/
def after (x : Site) (events : List Event) : Site := events.foldl step x

/-- The entity was offered to sets over these tables, and neither offered again
    nor withdrawn since. -/
def Offered (x : Site) (events : List Event) (e : Entity) (tables : Tables) : Prop :=
  ∃ before later, events = before ++ .register e :: later ∧
    (∀ event ∈ later, ¬ event.Concerns e) ∧ tables = (x.after before).store.tables

variable {x : Site} {events : List Event} {event : Event} {e : Entity} {tables : Tables}

theorem after_append (x : Site) (events : List Event) (event : Event) :
    x.after (events ++ [event]) = (x.after events).step event := by
  rw [after, List.foldl_append]
  rfl

theorem not_offered_nil : ¬ x.Offered [] e tables := by
  rintro ⟨before, later, heq, -⟩
  simp at heq

theorem offered_append : x.Offered (events ++ [event]) e tables ↔
    event = .register e ∧ tables = (x.after events).store.tables ∨
      ¬ event.Concerns e ∧ x.Offered events e tables := by
  constructor
  · rintro ⟨before, later, heq, hlater, rfl⟩
    rcases List.eq_nil_or_concat' later with rfl | ⟨later, last, rfl⟩
    · obtain ⟨rfl, hlast⟩ := List.append_inj' heq rfl
      exact .inl ⟨List.singleton_inj.1 hlast, rfl⟩
    · rw [← List.cons_append, ← List.append_assoc] at heq
      obtain ⟨rfl, hlast⟩ := List.append_inj' heq rfl
      obtain rfl := List.singleton_inj.1 hlast
      rw [List.forall_mem_append, List.forall_mem_singleton] at hlater
      exact .inr ⟨hlater.2, before, later, rfl, hlater.1, rfl⟩
  · rintro (⟨rfl, rfl⟩ | ⟨hnot, before, later, rfl, hlater, rfl⟩)
    · exact ⟨events, [], rfl, by simp, rfl⟩
    · refine ⟨before, later ++ [event], by simp, ?_, rfl⟩
      rw [List.forall_mem_append, List.forall_mem_singleton]
      exact ⟨hlater, hnot⟩

end Site

/-! ## Rows after a history -/

namespace Site

theorem map_spec_after (x : Site) (events : List Event) :
    (x.after events).access.sets.map (·.spec) = x.access.sets.map (·.spec) := by
  induction events using List.reverseRecOn with
  | nil => rfl
  | append_singleton events event ih =>
    rw [after_append, ← ih]
    cases event with
    | change change => rfl
    | register e =>
      rw [step, register_snd, List.map_map]
      exact List.map_congr_left fun s _ => s.spec_register _ e
    | unregister e =>
      rw [step, unregister, List.map_map]
      rfl

/-- The row of an entity is what it was offered last. -/
theorem get?_after {x : Site} (hstart : ∀ s ∈ x.access.sets, ∀ e, s.rows.get? e = none)
    (events : List Event) : ∀ s ∈ (x.after events).access.sets, ∀ e row,
      s.rows.get? e = some row ↔
        ∃ tables, x.Offered events e tables ∧ s.spec.offered? tables e = some row := by
  induction events using List.reverseRecOn with
  | nil =>
    intro s hs e row
    simp [hstart s hs, not_offered_nil]
  | append_singleton events event ih =>
    rw [after_append]
    cases event with
    | change change =>
      intro s hs e row
      simpa [offered_append, Event.Concerns] using ih s hs e row
    | register e₀ =>
      simp only [step, register_snd, List.forall_mem_map]
      intro s hs e row
      rw [LiveSet.get?_register, LiveSet.spec_register]
      by_cases he : e₀ = e
      · subst he
        simp [offered_append, Event.Concerns]
      · simpa [offered_append, Event.Concerns, he] using ih s hs e row
    | unregister e₀ =>
      simp only [step, unregister, List.forall_mem_map]
      intro s hs e row
      rw [LiveSet.get?_unregister, LiveSet.spec_unregister]
      by_cases he : e₀ = e
      · subst he
        simp [offered_append, Event.Concerns]
      · simpa [offered_append, Event.Concerns, he] using ih s hs e row

end Site

/-! ## Counting -/

theorem get?_foldl_insert (es : List Entity) (seen : SortedMap Entity Unit) (e : Entity) :
    ((es.foldl (fun seen e => seen.insert e ()) seen).get? e).isSome ↔
      e ∈ es ∨ (seen.get? e).isSome := by
  induction es generalizing seen with
  | nil => simp
  | cons e' rest ih =>
    rw [List.foldl_cons, ih]
    by_cases he : e' = e
    · simp [he]
    · simp [SortedMap.get?_insert_of_ne _ he, Ne.symm he]

theorem get?_foldl_keys (sets : List LiveSet) (seen : SortedMap Entity Unit) (e : Entity) :
    ((sets.foldl (fun seen s => s.rows.keys.foldl (fun seen e => seen.insert e ()) seen)
      seen).get? e).isSome ↔ (∃ s ∈ sets, s.contains e) ∨ (seen.get? e).isSome := by
  induction sets generalizing seen with
  | nil => simp
  | cons s rest ih =>
    rw [List.foldl_cons, ih, get?_foldl_insert, SortedMap.mem_keys_iff]
    simp only [List.mem_cons, exists_eq_or_imp, LiveSet.contains, SortedMap.contains]
    rw [or_left_comm, or_assoc]

/-- The count is that of the members, in all three ways of counting. -/
theorem admittedCount_eq (a : Access) :
    ∃ es, Ascending es ∧ (∀ e, e ∈ es ↔ a.contains e) ∧ a.admittedCount = es.length := by
  obtain ⟨sets⟩ := a
  match sets with
  | [] => exact ⟨[], .nil, by simp [contains], rfl⟩
  | [only] =>
    refine ⟨only.rows.keys, only.rows.ascending_keys, ?_, ?_⟩
    · intro e
      rw [SortedMap.mem_keys_iff]
      simp [contains, LiveSet.contains, SortedMap.contains]
    · simp [admittedCount, LiveSet.size, SortedMap.size, SortedMap.keys]
  | s :: s' :: rest =>
    refine ⟨_, SortedMap.ascending_keys ((s :: s' :: rest).foldl (fun seen s =>
      s.rows.keys.foldl (fun seen e => seen.insert e ()) seen) .empty), ?_, ?_⟩
    · intro e
      rw [SortedMap.mem_keys_iff, get?_foldl_keys, SortedMap.get?_empty]
      simp [contains]
    · rw [SortedMap.keys, List.length_map]
      rfl

/-! ## Histories and rows -/

theorem set?_register (a : Access) (tables : Tables) (e : Entity) (i : Nat) :
    (a.register tables e).2.set? i = (a.set? i).map fun s => (s.register tables e).2 := by
  rw [register_snd, set?, List.getElem?_map]
  rfl

theorem set?_unregister (a : Access) (e : Entity) (i : Nat) :
    (a.unregister e).set? i = (a.set? i).map fun s => (s.unregister e).2 := by
  rw [unregister, set?, List.getElem?_map]
  rfl

/-- What the sets of a site show after a history. -/
structure Site.Reflects (x : Site) (specs : List SetSpec) (events : List Event) : Prop where
  /-- There is one set for each declaration. -/
  declared : (x.after events).access.sets.map (·.spec) = specs
  /-- An entity has a row just if it qualified when it was offered last and has
      not been withdrawn since; the row has the cells of that time. -/
  row : ∀ {i : Nat} {s : LiveSet}, (x.after events).access.set? i = some s →
    ∀ (e : Entity) (row : Row), s.row? e = some row ↔ ∃ tables, x.Offered events e tables ∧
      s.spec.Qualifies tables e ∧ row = ⟨e, s.spec.types.filterMap (tables.find? · e)⟩
  /-- The rows are listed by entity, each once. -/
  listed : ∀ {i : Nat} {s : LiveSet}, (x.after events).access.set? i = some s →
    Ascending (((x.after events).access.rows i).map Row.entity) ∧
      ∀ row : Row, row ∈ (x.after events).access.rows i ↔ s.row? row.entity = some row
  /-- An offer answers whether some set admits the entity now. -/
  answer : ∀ e : Entity, ((x.after events).access.register (x.after events).store.tables e).1 =
    ((x.after events).step (.register e)).access.contains e
  /-- Every set looks at an offer. -/
  reviewed : ∀ (e : Entity) {i : Nat} {s : LiveSet},
    ((x.after events).step (.register e)).access.set? i = some s → ∀ row : Row,
      s.row? e = some row ↔ s.spec.Qualifies (x.after events).store.tables e ∧
        row = ⟨e, s.spec.types.filterMap ((x.after events).store.tables.find? · e)⟩
  /-- An event leaves the rows of other entities alone, and a change of the
      tables all rows. -/
  others : ∀ {i : Nat} {s : LiveSet}, (x.after events).access.set? i = some s →
    ∀ event : Event, ∃ s', ((x.after events).step event).access.set? i = some s' ∧
      ∀ e, ¬ event.Concerns e → s'.row? e = s.row? e
  /-- Members of several sets count once. -/
  counted : ∃ es : List Entity, Ascending es ∧
    (∀ e, e ∈ es ↔ (x.after events).access.contains e) ∧
    (x.after events).access.admittedCount = es.length

theorem contains_register (a : Access) (tables : Tables) (e : Entity) :
    (a.register tables e).1 = (a.register tables e).2.contains e := by
  have hset : ∀ s : LiveSet, (s.register tables e).1 = (s.register tables e).2.contains e := by
    intro s
    unfold LiveSet.register
    dsimp only
    split <;> simp [LiveSet.contains, SortedMap.contains]
  rw [register_snd, contains, List.any_map]
  simp only [register, List.any_map]
  exact congrArg a.sets.any (funext hset)

namespace Site

variable {x : Site} {owns : Entity → TypeId → Prop}

theorem holds_after (h : x.store.Holds owns) (events : List Event) :
    ∃ owns', (x.after events).store.Holds owns' := by
  induction events using List.reverseRecOn with
  | nil => exact ⟨owns, h⟩
  | append_singleton events event ih =>
    obtain ⟨owns', h'⟩ := ih
    rw [after_append]
    cases event with
    | change change => exact h'.change change
    | register e | unregister e => exact ⟨owns', h'⟩

theorem others_step (x : Site) {i : Nat} {s : LiveSet} (h : x.access.set? i = some s)
    (event : Event) : ∃ s', (x.step event).access.set? i = some s' ∧
      ∀ e, ¬ event.Concerns e → s'.row? e = s.row? e := by
  cases event with
  | change change => exact ⟨s, h, fun _ _ => rfl⟩
  | register e₀ =>
    refine ⟨(s.register x.store.tables e₀).2, ?_, ?_⟩
    · rw [step, set?_register, h, Option.map_some]
    · intro e hnot
      have hne : e₀ ≠ e := by
        rintro rfl
        exact hnot (.inl rfl)
      rw [LiveSet.row?, LiveSet.get?_register, if_neg hne, LiveSet.row?]
  | unregister e₀ =>
    refine ⟨(s.unregister e₀).2, ?_, ?_⟩
    · rw [step, set?_unregister, h, Option.map_some]
    · intro e hnot
      have hne : e₀ ≠ e := by
        rintro rfl
        exact hnot (.inr rfl)
      rw [LiveSet.row?, LiveSet.get?_unregister, if_neg hne, LiveSet.row?]

/-- The sets of the site have just been started. -/
structure Fresh (x : Site) : Prop where
  holds : ∃ owns, x.store.Holds owns
  nonempty : ∀ s ∈ x.access.sets, s.spec.types ≠ []
  bare : ∀ s ∈ x.access.sets, ∀ e, s.rows.get? e = none

variable {events : List Event} {i : Nat} {s : LiveSet}

theorem Fresh.nonempty_after (h : x.Fresh) (hs : s ∈ (x.after events).access.sets) :
    s.spec.types ≠ [] := by
  have hspec : s.spec ∈ x.access.sets.map (·.spec) := by
    rw [← x.map_spec_after events]
    exact List.mem_map_of_mem hs
  obtain ⟨s₀, hs₀, heq⟩ := List.mem_map.1 hspec
  rw [← heq]
  exact h.nonempty s₀ hs₀

theorem Fresh.row?_iff (h : x.Fresh) (hs : s ∈ (x.after events).access.sets) (e : Entity)
    (row : Row) : s.row? e = some row ↔ ∃ tables, x.Offered events e tables ∧
      s.spec.Qualifies tables e ∧ row = ⟨e, s.spec.types.filterMap (tables.find? · e)⟩ := by
  refine (x.get?_after h.bare events s hs e row).trans ?_
  refine exists_congr fun tables => and_congr_right ?_
  rintro ⟨before, later, -, -, rfl⟩
  obtain ⟨owns, hholds⟩ := h.holds
  obtain ⟨owns', hbefore⟩ := holds_after hholds before
  exact SetSpec.offered?_eq_some_iff (h.nonempty_after hs) hbefore.typed

theorem Fresh.reflects (h : x.Fresh) {specs : List SetSpec}
    (hspecs : x.access.sets.map (·.spec) = specs) (events : List Event) :
    x.Reflects specs events := by
  have hentity : ∀ {s}, s ∈ (x.after events).access.sets →
      ∀ e row, s.row? e = some row → row.entity = e := by
    intro s hs e row hrow
    obtain ⟨tables, -, -, rfl⟩ := (h.row?_iff hs e row).1 hrow
    rfl
  constructor
  case declared => rw [x.map_spec_after, hspecs]
  case row =>
    intro i s hs
    exact h.row?_iff (List.mem_of_getElem? hs)
  case listed =>
    intro i s hs
    have hmem := List.mem_of_getElem? hs
    have hrows : (x.after events).access.rows i = s.rows.values := by rw [rows, hs]
    rw [hrows, LiveSet.map_entity_values (hentity hmem)]
    exact ⟨s.rows.ascending_keys, LiveSet.mem_values_iff (hentity hmem)⟩
  case answer => exact contains_register _ _
  case reviewed =>
    intro e i s hs row
    rw [← after_append] at hs
    rw [h.row?_iff (List.mem_of_getElem? hs)]
    simp [offered_append, Event.Concerns]
  case others => exact others_step _
  case counted => exact admittedCount_eq _

end Site

/-- **Sets reflect the last offer.**  However the tables came about and whatever
    happens to them and to the sets that were started on them, a set shows an
    entity as the tables had it when it was offered last. -/
theorem reflects_offers {owner : String} {specs : List SetSpec} {changes : List Store.Change} {a : Access}
    (h : bind? owner specs (Store.ofChanges changes).tables = .ok a) (events : List Event) :
    Site.Reflects ⟨Store.ofChanges changes, a⟩ specs events := by
  obtain ⟨hbind, hstart⟩ | ⟨err, hbind, -⟩ := bind?_cases owner specs (Store.ofChanges changes).tables
  case inr => cases hbind.symm.trans h
  obtain rfl := Except.ok.inj (h.symm.trans hbind)
  have hfresh : Site.Fresh ⟨Store.ofChanges changes, ⟨specs.map fun spec => { spec }⟩⟩ := by
    constructor
    case holds => exact Store.holds_foldl_change Store.holds_start changes
    case nonempty =>
      rw [List.forall_mem_map]
      exact fun spec hspec => (hstart spec hspec).1
    case bare =>
      rw [List.forall_mem_map]
      exact fun _ _ _ => rfl
  have hspecs : (specs.map fun spec => ({ spec } : LiveSet)).map (·.spec) = specs := by
    rw [List.map_map]
    exact List.map_id _
  exact hfresh.reflects hspecs events

/-- An entity whose only component was taken out, and which was given another,
    since it was offered to the sets. -/
theorem reflects_offers_drifted :
    let x := Catalog.x
    let y := Catalog.y
    let changes : List Store.Change := [.ensure x.id x.name, .ensure y.id y.name,
      .insert x.id ⟨1⟩ ⟨x, (5 : BitVec 32)⟩]
    let specs : List SetSpec := [.intersect [x.id, y.id], .unite [x.id, y.id]]
    let start : Site := ⟨Store.ofChanges changes, ⟨specs.map fun spec => { spec }⟩⟩
    let events : List Event := [.register ⟨1⟩, .change (.insert y.id ⟨1⟩ ⟨y, (7 : BitVec 32)⟩),
      .change (.remove x.id ⟨1⟩), .register ⟨2⟩]
    bind? "watch" specs start.store.tables = .ok start.access ∧
      (start.after events).store.find? x.id ⟨1⟩ = none ∧
      (start.after events).store.find? y.id ⟨1⟩ = some ⟨y.id, ⟨1⟩⟩ ∧
      ∃ s, (start.after events).access.set? 1 = some s ∧
        s.row? ⟨1⟩ = some ⟨⟨1⟩, [⟨x.id, ⟨0⟩⟩]⟩ := by
  intro x y changes specs start events
  have hbind : bind? "watch" specs (Store.ofChanges changes).tables = .ok start.access := by
    cbv
  have hreflects : start.Reflects specs events := reflects_offers hbind events
  have hoffered : start.Offered events ⟨1⟩ (Store.ofChanges changes).tables :=
    ⟨[], _, rfl, by simp [Event.Concerns], rfl⟩
  have hfind : (Store.ofChanges changes).tables.find? x.id ⟨1⟩ = some ⟨x.id, ⟨0⟩⟩ := by cbv
  have hset : ∃ s, (start.after events).access.set? 1 = some s ∧
      s.spec = .unite [x.id, y.id] := by
    have hat := congrArg (·[1]?) hreflects.declared
    simp only [List.getElem?_map] at hat
    exact Option.map_eq_some_iff.1 hat
  obtain ⟨s, hs, hspec⟩ := hset
  refine ⟨hbind, by cbv, by cbv, s, hs, ?_⟩
  refine (hreflects.row hs ⟨1⟩ _).2 ⟨_, hoffered, ?_, ?_⟩
  · rw [hspec]
    exact ⟨x.id, by decide +kernel, by rw [hfind]; rfl⟩
  · rw [hspec]
    cbv

end Access

end TickEngine
