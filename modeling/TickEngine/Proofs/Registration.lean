/-
  Offers to a whole tree.

  In a tree whose sets have been started, and whose systems keep them up to date
  in the usual way, an offer reaches every set of every stage, and changes the
  rows of the offered entity alone.  So does a withdrawal.

  * `Pipeline.Bound.registers`: what offers and withdrawals answer and leave,
    whatever the tables hold.
-/
import TickEngine.Proofs.Offers
import TickEngine.Proofs.Starting
import TickEngine.Proofs.Upkeep

namespace TickEngine

/-! ## One set -/

namespace LiveSet

variable {s : LiveSet}

theorem fst_register (s : LiveSet) (tables : Tables) (e : Entity) :
    (s.register tables e).1 = (s.spec.offered? tables e).isSome := by
  unfold register SetSpec.offered?
  dsimp only
  split <;> rfl

theorem register_register_self (s : LiveSet) (tables : Tables) (e : Entity) :
    ((s.register tables e).2.register tables e).2 = (s.register tables e).2 := by
  refine eq_of_get? (spec_register _ _ _) fun e' => ?_
  rw [get?_register, spec_register]
  split
  · rename_i he
    rw [get?_register, if_pos he]
  · rfl

theorem register_comm (s : LiveSet) (tables : Tables) (e e' : Entity) :
    ((s.register tables e).2.register tables e').2 =
      ((s.register tables e').2.register tables e).2 := by
  by_cases he : e = e'
  · rw [he]
  refine eq_of_get? (by simp only [spec_register]) fun e'' => ?_
  simp only [get?_register, spec_register]
  by_cases h : e = e''
  · subst h
    simp [Ne.symm he]
  · simp [h]

theorem unregister_unregister_self (s : LiveSet) (e : Entity) :
    ((s.unregister e).2.unregister e).2 = (s.unregister e).2 := by
  refine eq_of_get? rfl fun e' => ?_
  rw [get?_unregister]
  split
  · rename_i he
    rw [get?_unregister, if_pos he]
  · rfl

end LiveSet

/-! ## One stage -/

namespace Stage

variable {σ : Type} {s : Stage σ} {f : LiveSet → LiveSet}

/-- The sets of the stage are those that it declares, and each declares some
    type. -/
structure Bound (s : Stage σ) : Prop where
  specs : s.access.sets.map (·.spec) = s.specs
  types_ne_nil : ∀ spec ∈ s.specs, spec.types ≠ []

theorem Bound.spec_types_ne_nil (h : s.Bound) {set : LiveSet} (hset : set ∈ s.access.sets) :
    set.spec.types ≠ [] :=
  h.types_ne_nil _ (h.specs ▸ List.mem_map_of_mem hset)

theorem Startable.bound_started {tables : Tables} (h : s.Startable tables) : s.started.Bound :=
  ⟨by simp [started, Function.comp_def], fun spec hspec => (h spec hspec).1⟩

/-- The stage with every set changed. -/
def mapSets (f : LiveSet → LiveSet) (s : Stage σ) : Stage σ :=
  { s with access := ⟨s.access.sets.map f⟩ }

theorem Bound.mapSets (h : s.Bound) (hf : ∀ set, (f set).spec = set.spec) :
    (s.mapSets f).Bound := by
  refine ⟨?_, h.types_ne_nil⟩
  rw [Stage.mapSets, List.map_map, ← h.specs]
  exact List.map_congr_left fun set _ => hf set

theorem Bound.register_eq (h : s.Bound) (hs : s.Standard) (tables : Tables) (e : Entity) :
    s.register tables e = (s.specs.any fun spec => (spec.offered? tables e).isSome,
      s.mapSets fun set => (set.register tables e).2) := by
  rw [hs.register_eq h.specs, Stage.mapSets, Access.register_snd, Access.register, List.any_map,
    ← h.specs, List.any_map]
  refine congrArg (·, _) (List.any_congr rfl fun set => ?_)
  exact set.fst_register tables e

theorem Bound.unregister_eq (h : s.Bound) (hs : s.Standard) (e : Entity) :
    s.unregister e = s.mapSets fun set => (set.unregister e).2 :=
  hs.unregister_eq h.specs e

/-- The stages are the same but for the rows of one entity. -/
structure AlikeBut (e : Entity) (s s' : Stage σ) : Prop where
  rest : s' = { s with access := s'.access }
  sets : List.Forall₂ (fun set set' : LiveSet => set'.spec = set.spec ∧
    ∀ e', e ≠ e' → set'.row? e' = set.row? e') s.access.sets s'.access.sets

end Stage

/-! ## Trees -/

namespace Pipeline

variable {σ : Type} {p p' : Pipeline σ} {f f' : LiveSet → LiveSet}

/-- The sets of the tree are those that its stages declare. -/
def Bound (p : Pipeline σ) : Prop := ∀ s ∈ p.stages, s.Bound

/-- A tree that has been started is bound. -/
theorem bound_of_bind {tables : Tables} (h : p.bind tables = (.ok (), p')) : p'.Bound := by
  obtain ⟨heq, hstart⟩ | ⟨err, p'', heq, -⟩ := p.bind_cases tables <;> rw [heq] at h <;> cases h
  rw [Bound, forall_stages_mapStages]
  exact fun s hs => (hstart s hs).bound_started

/-- The tree with every set changed. -/
def mapSets (f : LiveSet → LiveSet) (p : Pipeline σ) : Pipeline σ := p.mapStages (Stage.mapSets f)

theorem mapSets_mapSets (f f' : LiveSet → LiveSet) (p : Pipeline σ) :
    (p.mapSets f).mapSets f' = p.mapSets fun set => f' (f set) := by
  rw [mapSets, mapSets, mapStages_mapStages]
  refine mapStages_congr fun s _ => ?_
  rw [Stage.mapSets, Stage.mapSets, List.map_map]
  rfl

theorem Bound.mapSets (h : p.Bound) (hf : ∀ set, (f set).spec = set.spec) : (p.mapSets f).Bound :=
  forall_stages_mapStages.2 fun s hs => (h s hs).mapSets hf

theorem Standard.mapSets (h : p.Standard) (f : LiveSet → LiveSet) : (p.mapSets f).Standard :=
  forall_stages_mapStages.2 fun s hs => (h s hs).with_access _

theorem Bound.register_eq (h : p.Bound) (hp : p.Standard) (tables : Tables) (e : Entity) :
    (p.register tables e).2 = p.mapSets fun set => (set.register tables e).2 := by
  rw [Pipeline.register_eq]
  exact mapStages_congr fun s hs => by rw [(h s hs).register_eq (hp s hs)]

theorem Bound.unregister_eq (h : p.Bound) (hp : p.Standard) (e : Entity) :
    p.unregister e = p.mapSets fun set => (set.unregister e).2 := by
  rw [Pipeline.unregister_eq]
  exact mapStages_congr fun s hs => (h s hs).unregister_eq (hp s hs) e

/-- What an offer answers depends on declarations and tables only. -/
theorem Bound.fst_register (h : p.Bound) (hp : p.Standard) (tables : Tables) (e : Entity) :
    (p.register tables e).1 = true ↔
      ∃ s ∈ p.stages, ∃ spec ∈ s.specs, (spec.offered? tables e).isSome = true := by
  rw [Pipeline.fst_register]
  refine exists_congr fun s => and_congr_right fun hs => ?_
  rw [(h s hs).register_eq (hp s hs), List.any_eq_true]

theorem Bound.register (h : p.Bound) (hp : p.Standard) (tables : Tables) (e : Entity) :
    (p.register tables e).2.Bound ∧ (p.register tables e).2.Standard := by
  rw [h.register_eq hp]
  exact ⟨h.mapSets fun set => set.spec_register tables e, hp.mapSets _⟩

theorem Bound.unregister (h : p.Bound) (hp : p.Standard) (e : Entity) :
    (p.unregister e).Bound ∧ (p.unregister e).Standard := by
  rw [h.unregister_eq hp]
  exact ⟨h.mapSets fun set => set.spec_unregister e, hp.mapSets _⟩

/-! ## The rows of an entity -/

theorem forall_sets_mapSets {P : LiveSet → Prop} :
    (∀ s ∈ (p.mapSets f).stages, ∀ set ∈ s.access.sets, P set) ↔
      ∀ s ∈ p.stages, ∀ set ∈ s.access.sets, P (f set) := by
  rw [Pipeline.mapSets, forall_stages_mapStages]
  simp only [Stage.mapSets, List.forall_mem_map]

/-- An offer reaches every set. -/
theorem Bound.row?_register (h : p.Bound) (hp : p.Standard) {tables : Tables} {e : Entity}
    (htyped : ∀ {t r}, tables.find? t e = some r → r.typeId = t) :
    ∀ s ∈ (p.register tables e).2.stages, ∀ set ∈ s.access.sets, ∀ row,
      set.row? e = some row ↔ set.spec.Qualifies tables e ∧
        row = ⟨e, set.spec.types.filterMap (tables.find? · e)⟩ := by
  rw [h.register_eq hp, forall_sets_mapSets]
  intro s hs set hset row
  rw [LiveSet.row?, LiveSet.get?_register, if_pos rfl, LiveSet.spec_register]
  exact SetSpec.offered?_eq_some_iff ((h s hs).spec_types_ne_nil hset) htyped

/-- So does a withdrawal. -/
theorem Bound.row?_unregister (h : p.Bound) (hp : p.Standard) (e : Entity) :
    ∀ s ∈ (p.unregister e).stages, ∀ set ∈ s.access.sets, set.row? e = none := by
  rw [h.unregister_eq hp, forall_sets_mapSets]
  intro s _ set _
  rw [LiveSet.row?, LiveSet.get?_unregister, if_pos rfl]

theorem Bound.contains_register (h : p.Bound) (hp : p.Standard) (tables : Tables) (e : Entity) :
    (p.register tables e).1 = true ↔
      ∃ s ∈ (p.register tables e).2.stages, s.access.contains e = true := by
  rw [Pipeline.fst_register, Pipeline.register_eq, stages_mapStages]
  simp only [List.mem_map, exists_exists_and_eq_and]
  refine exists_congr fun s => and_congr_right fun hs => ?_
  rw [(hp s hs).register_eq (h s hs).specs, Access.contains_register]

/-! ## Many offers -/

theorem Bound.register_register_self (h : p.Bound) (hp : p.Standard) (tables : Tables)
    (e : Entity) : ((p.register tables e).2.register tables e).2 = (p.register tables e).2 := by
  obtain ⟨h', hp'⟩ := h.register hp tables e
  rw [h'.register_eq hp', h.register_eq hp, mapSets_mapSets]
  exact congrArg (Pipeline.mapSets · p) (funext fun set => set.register_register_self tables e)

theorem Bound.register_comm (h : p.Bound) (hp : p.Standard) (tables : Tables) (e e' : Entity) :
    ((p.register tables e).2.register tables e').2 =
      ((p.register tables e').2.register tables e).2 := by
  obtain ⟨h₁, hp₁⟩ := h.register hp tables e
  obtain ⟨h₂, hp₂⟩ := h.register hp tables e'
  rw [h₁.register_eq hp₁, h₂.register_eq hp₂, h.register_eq hp, h.register_eq hp, mapSets_mapSets,
    mapSets_mapSets]
  exact congrArg (Pipeline.mapSets · p) (funext fun set => set.register_comm tables e e')

theorem Bound.unregister_unregister_self (h : p.Bound) (hp : p.Standard) (e : Entity) :
    (p.unregister e).unregister e = p.unregister e := by
  obtain ⟨h', hp'⟩ := h.unregister hp e
  rw [h'.unregister_eq hp', h.unregister_eq hp, mapSets_mapSets]
  exact congrArg (Pipeline.mapSets · p) (funext fun set => set.unregister_unregister_self e)

/-- An earlier offer does not change what a later one answers. -/
theorem Bound.fst_register_register (h : p.Bound) (hp : p.Standard) (tables : Tables)
    (e e' : Entity) : ((p.register tables e).2.register tables e').1 =
      (p.register tables e').1 := by
  obtain ⟨h', hp'⟩ := h.register hp tables e
  rw [Bool.eq_iff_iff, h'.fst_register hp', h.fst_register hp, h.register_eq hp,
    Pipeline.mapSets, stages_mapStages]
  simp [Stage.mapSets]

theorem registerEach_cons (tables : Tables) (e : Entity) (es : List Entity) (p : Pipeline σ) :
    Engine.registerEach tables (e :: es) p =
      ((p.register tables e).1.toNat + (Engine.registerEach tables es (p.register tables e).2).1,
        (Engine.registerEach tables es (p.register tables e).2).2) := rfl

/-- Entities can be offered in any order. -/
theorem Bound.registerEach_perm (h : p.Bound) (hp : p.Standard) (tables : Tables)
    {es es' : List Entity} (hes : es.Perm es') :
    Engine.registerEach tables es p = Engine.registerEach tables es' p := by
  induction hes generalizing p with
  | nil => rfl
  | cons e _ ih =>
    obtain ⟨h', hp'⟩ := h.register hp tables e
    rw [registerEach_cons, registerEach_cons, ih h' hp']
  | swap e e' es =>
    simp only [registerEach_cons, h.fst_register_register hp, h.register_comm hp tables e e',
      Nat.add_left_comm]
  | trans _ _ ih ih' => exact (ih h hp).trans (ih' h hp)

/-! ## What offers and withdrawals do -/

/-- The trees are the same but for the rows of one entity. -/
def AlikeBut (e : Entity) (p p' : Pipeline σ) : Prop :=
  ∃ f, p' = p.mapStages f ∧ ∀ s ∈ p.stages, s.AlikeBut e (f s)

theorem alikeBut_mapSets {e : Entity} (hspec : ∀ set, (f set).spec = set.spec)
    (hrows : ∀ set e', e ≠ e' → (f set).row? e' = set.row? e') (p : Pipeline σ) :
    p.AlikeBut e (p.mapSets f) := by
  refine ⟨_, rfl, fun s _ => ⟨rfl, ?_⟩⟩
  rw [Stage.mapSets, List.forall₂_map_right_iff, List.forall₂_same]
  exact fun set _ => ⟨hspec set, hrows set⟩

/-- What offers to a tree over tables, and withdrawals from it, answer and leave
    behind. -/
structure Registers (p : Pipeline σ) (tables : Tables) : Prop where
  /-- After an offer each stage still has one set for each declaration, and the
      offered entity has a row in every set for which it qualifies, with the
      cells that the tables hold now, and in no other. -/
  offered : ∀ e, ∀ s ∈ (p.register tables e).2.stages,
    s.access.sets.map (·.spec) = s.specs ∧ ∀ set ∈ s.access.sets, ∀ row,
      set.row? e = some row ↔ set.spec.Qualifies tables e ∧
        row = ⟨e, set.spec.types.filterMap (tables.find? · e)⟩
  /-- An offer answers whether the entity has a row now. -/
  answer : ∀ e, (p.register tables e).1 = true ↔
    ∃ s ∈ (p.register tables e).2.stages, s.access.contains e = true
  /-- After a withdrawal the entity has no row. -/
  withdrawn : ∀ e, ∀ s ∈ (p.unregister e).stages, ∀ set ∈ s.access.sets, set.row? e = none
  /-- Nothing but the rows of the entity has changed. -/
  others : ∀ e, p.AlikeBut e (p.register tables e).2 ∧ p.AlikeBut e (p.unregister e)
  /-- To do it twice is to do it once. -/
  again : ∀ e, (p.register tables e).2.register tables e = p.register tables e ∧
    (p.unregister e).unregister e = p.unregister e
  /-- Entities can be offered in any order. -/
  order : ∀ es es', List.Perm es es' →
    Engine.registerEach tables es p = Engine.registerEach tables es' p

/-- **An offer reaches every set of a tree and nothing else**, whatever the sets
    and the tables hold. -/
theorem Bound.registers (h : p.Bound) (hp : p.Standard) (changes : List Store.Change) :
    p.Registers (Store.ofChanges changes).tables := by
  obtain ⟨owns, hholds⟩ := Store.holds_foldl_change Store.holds_start changes
  constructor
  case offered =>
    intro e s hs
    exact ⟨((h.register hp _ e).1 s hs).specs, h.row?_register hp hholds.typed s hs⟩
  case answer => exact h.contains_register hp _
  case withdrawn => exact h.row?_unregister hp
  case others =>
    intro e
    rw [h.register_eq hp, h.unregister_eq hp]
    exact ⟨alikeBut_mapSets (fun set => set.spec_register _ e)
        (fun set e' he => (set.get?_register _ e e').trans (if_neg he)) p,
      alikeBut_mapSets (fun set => set.spec_unregister e)
        (fun set e' he => (set.get?_unregister e e').trans (if_neg he)) p⟩
  case again =>
    exact fun e => ⟨Prod.ext (h.fst_register_register hp _ e e)
      (h.register_register_self hp _ e), h.unregister_unregister_self hp e⟩
  case order => exact fun es es' => h.registerEach_perm hp _

/-- A tree with two systems, a parallel and a serial one. -/
def watchers : Pipeline Unit :=
  ((group "root").withParallel Engine.watcher).withSerial Engine.watcher

theorem standard_watchers : watchers.Standard :=
  ((standard_group "root").withParallel standard_watcher).withSerial standard_watcher

/-- Only the second entity has a component, and the sets for a single type do
    not admit it. -/
theorem registers_watchers :
    let changes : List Store.Change := [.ensure Catalog.x.id Catalog.x.name,
      .ensure Catalog.y.id Catalog.y.name, .insert Catalog.y.id ⟨2⟩ ⟨Catalog.y, (7 : BitVec 32)⟩]
    let tables := (Store.ofChanges changes).tables
    let p := watchers.mapStages Stage.started
    watchers.bind tables = (.ok (), p) ∧ p.Standard ∧
      Engine.registerEach tables [⟨1⟩, ⟨2⟩] p = Engine.registerEach tables [⟨2⟩, ⟨1⟩] p ∧
      (Engine.registerEach tables [⟨2⟩, ⟨1⟩] p).1 = 1 ∧
      ∃ s ∈ (p.register tables ⟨2⟩).2.stages, s.access.contains ⟨2⟩ = true := by
  intro changes tables p
  have hbind : watchers.bind tables = (.ok (), p) := by
    obtain ⟨heq, -⟩ | ⟨err, p', heq, -⟩ := watchers.bind_cases tables
    · exact heq
    · have hok : (watchers.bind tables).1 = .ok () := by decide +kernel
      rw [heq] at hok
      cases hok
  have hp : p.Standard :=
    forall_stages_mapStages.2 fun s hs => (standard_watchers s hs).with_access _
  have hregisters := (bound_of_bind hbind).registers hp changes
  exact ⟨hbind, hp, hregisters.order _ _ (.swap _ _ _), by decide +kernel,
    (hregisters.answer ⟨2⟩).1 (by decide +kernel)⟩

end Pipeline

end TickEngine
