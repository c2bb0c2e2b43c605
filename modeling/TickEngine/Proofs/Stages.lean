/-
  Trees as the list of their stages.

  What an engine does to the sets of a tree, it does stage by stage: offering
  and withdrawing an entity (`register_eq`, `unregister_eq`) and starting the
  sets (`bind_cases`) change every stage and keep the shape of the tree.
-/
import Mathlib
import TickEngine.Engine.Basic

namespace TickEngine

/-! ## Starting sets -/

/-- A set of the declaration can be started: it declares some type, and every
    declared type has a table. -/
def SetSpec.Startable (spec : SetSpec) (tables : Tables) : Prop :=
  spec.types ≠ [] ∧ ∀ t ∈ spec.types, tables.contains t = true

theorem LiveSet.bind?_cases (owner : String) (spec : SetSpec) (tables : Tables) :
    (LiveSet.bind? owner spec tables = .ok { spec } ∧ spec.Startable tables) ∨
      ∃ err, LiveSet.bind? owner spec tables = .error err ∧ ¬ spec.Startable tables := by
  unfold LiveSet.bind?
  split
  · rename_i hempty
    exact .inr ⟨_, rfl, fun h => h.1 (List.isEmpty_iff.1 hempty)⟩
  · rename_i hne
    split
    · rename_i t ht
      refine .inr ⟨_, rfl, ?_⟩
      intro h
      have hmissing := List.find?_some ht
      simp [h.2 t (List.mem_of_find?_eq_some ht)] at hmissing
    · rename_i hall
      refine .inl ⟨rfl, fun hnil => hne (List.isEmpty_iff.2 hnil), ?_⟩
      intro t ht
      simpa using List.find?_eq_none.1 hall t ht

theorem Access.bind?_cases (owner : String) (specs : List SetSpec) (tables : Tables) :
    (Access.bind? owner specs tables = .ok ⟨specs.map fun spec => { spec }⟩ ∧
        ∀ spec ∈ specs, spec.Startable tables) ∨
      ∃ err, Access.bind? owner specs tables = .error err ∧
        ¬ ∀ spec ∈ specs, spec.Startable tables := by
  have hsets : (specs.mapM (LiveSet.bind? owner · tables) =
        .ok (specs.map fun spec => { spec }) ∧ ∀ spec ∈ specs, spec.Startable tables) ∨
      ∃ err, specs.mapM (LiveSet.bind? owner · tables) = .error err ∧
        ¬ ∀ spec ∈ specs, spec.Startable tables := by
    induction specs with
    | nil => exact .inl ⟨rfl, by simp⟩
    | cons spec rest ih =>
      rw [List.mapM_cons, List.forall_mem_cons]
      rcases LiveSet.bind?_cases owner spec tables with ⟨heq, hspec⟩ | ⟨err, heq, hspec⟩
      · rcases ih with ⟨hrest, hall⟩ | ⟨err, hrest, hall⟩
        · exact .inl ⟨by rw [heq, hrest]; rfl, hspec, hall⟩
        · exact .inr ⟨err, by rw [heq, hrest]; rfl, fun h => hall h.2⟩
      · exact .inr ⟨err, by rw [heq]; rfl, fun h => hspec h.1⟩
  unfold Access.bind?
  rcases hsets with ⟨heq, hall⟩ | ⟨err, heq, hall⟩
  · exact .inl ⟨by rw [heq]; rfl, hall⟩
  · exact .inr ⟨err, by rw [heq]; rfl, hall⟩

namespace Stage

variable {σ : Type}

/-- All declared sets of the stage can be started. -/
def Startable (s : Stage σ) (tables : Tables) : Prop := ∀ spec ∈ s.specs, spec.Startable tables

/-- The stage with its sets started. -/
def started (s : Stage σ) : Stage σ := { s with access := ⟨s.specs.map fun spec => { spec }⟩ }

theorem bind_cases (tables : Tables) (s : Stage σ) :
    (s.bind tables = .ok s.started ∧ s.Startable tables) ∨
      ∃ err, s.bind tables = .error err ∧ ¬ s.Startable tables := by
  unfold Stage.bind
  rcases Access.bind?_cases s.name s.specs tables with ⟨heq, hall⟩ | ⟨err, heq, hall⟩
  · exact .inl ⟨by rw [heq]; rfl, hall⟩
  · exact .inr ⟨err, by rw [heq]; rfl, hall⟩

/-- Offers entities to the sets of a stage, one after the other. -/
def registerEach (tables : Tables) (es : List Entity) (s : Stage σ) : Stage σ :=
  es.foldl (fun s e => (s.register tables e).2) s

end Stage

namespace Pipeline

variable {σ : Type} {f : Stage σ → Stage σ} {p : Pipeline σ}

/-! ## Induction -/

mutual

/-- What holds of a tree whenever it holds of its children, holds of every
    tree. -/
@[elab_as_elim, induction_eliminator]
theorem children_induction {motive : Pipeline σ → Prop}
    (node : ∀ s ps ss, (∀ p ∈ ps, motive p) → (∀ p ∈ ss, motive p) → motive (.node s ps ss)) :
    ∀ p, motive p
  | .node s ps ss => node s ps ss (children_induction_all node ps) (children_induction_all node ss)

theorem children_induction_all {motive : Pipeline σ → Prop}
    (node : ∀ s ps ss, (∀ p ∈ ps, motive p) → (∀ p ∈ ss, motive p) → motive (.node s ps ss)) :
    ∀ ps : List (Pipeline σ), ∀ p ∈ ps, motive p
  | [] => by simp
  | p :: rest =>
    List.forall_mem_cons.2 ⟨children_induction node p, children_induction_all node rest⟩

end

/-! ## Stages -/

mutual

/-- The stages of a tree. -/
def stages : Pipeline σ → List (Stage σ)
  | node s ps ss => s :: (stagesAll ps ++ stagesAll ss)

/-- The stages of all the trees. -/
def stagesAll : List (Pipeline σ) → List (Stage σ)
  | [] => []
  | p :: rest => stages p ++ stagesAll rest

end

mutual

/-- The tree with every stage changed. -/
def mapStages (f : Stage σ → Stage σ) : Pipeline σ → Pipeline σ
  | node s ps ss => node (f s) (mapStagesAll f ps) (mapStagesAll f ss)

/-- All the trees with every stage changed. -/
def mapStagesAll (f : Stage σ → Stage σ) : List (Pipeline σ) → List (Pipeline σ)
  | [] => []
  | p :: rest => mapStages f p :: mapStagesAll f rest

end

theorem stagesAll_eq (ps : List (Pipeline σ)) : stagesAll ps = ps.flatMap stages := by
  induction ps with
  | nil => rfl
  | cons p rest ih => rw [stagesAll, ih, List.flatMap_cons]

theorem stages_node (s : Stage σ) (ps ss : List (Pipeline σ)) :
    (node s ps ss).stages = s :: (ps.flatMap stages ++ ss.flatMap stages) := by
  rw [stages, stagesAll_eq, stagesAll_eq]

theorem mapStages_node (f : Stage σ → Stage σ) (s : Stage σ) (ps ss : List (Pipeline σ)) :
    (node s ps ss).mapStages f = node (f s) (ps.map (mapStages f)) (ss.map (mapStages f)) := by
  have hall : ∀ ps : List (Pipeline σ), mapStagesAll f ps = ps.map (mapStages f) := by
    intro ps
    induction ps with
    | nil => rfl
    | cons p rest ih => rw [mapStagesAll, ih, List.map_cons]
  rw [mapStages, hall, hall]

/-- A statement about all stages is one about the root and the children. -/
theorem forall_stages_node {P : Stage σ → Prop} {s : Stage σ} {ps ss : List (Pipeline σ)} :
    (∀ s' ∈ (node s ps ss).stages, P s') ↔
      P s ∧ (∀ p ∈ ps, ∀ s' ∈ p.stages, P s') ∧ ∀ p ∈ ss, ∀ s' ∈ p.stages, P s' := by
  simp only [stages_node, List.forall_mem_cons, List.forall_mem_append, List.forall_mem_flatMap]

theorem stages_mapStages (f : Stage σ → Stage σ) (p : Pipeline σ) :
    (p.mapStages f).stages = p.stages.map f := by
  induction p with
  | node s ps ss ihp ihs =>
    rw [mapStages_node, stages_node, stages_node, List.map_cons, List.map_append,
      List.map_flatMap, List.map_flatMap, List.flatMap_map, List.flatMap_map]
    rw [List.flatMap_congr ihp, List.flatMap_congr ihs]

theorem mapStages_congr {f' : Stage σ → Stage σ} (h : ∀ s ∈ p.stages, f s = f' s) :
    p.mapStages f = p.mapStages f' := by
  induction p with
  | node s ps ss ihp ihs =>
    obtain ⟨hs, hp, hss⟩ := forall_stages_node.1 h
    rw [mapStages_node, mapStages_node, hs, List.map_congr_left fun p hmem => ihp p hmem (hp p hmem),
      List.map_congr_left fun p hmem => ihs p hmem (hss p hmem)]

theorem mapStages_id (p : Pipeline σ) : p.mapStages id = p := by
  induction p with
  | node s ps ss ihp ihs =>
    rw [mapStages_node, List.map_congr_left ihp, List.map_congr_left ihs, List.map_id', List.map_id',
      id]

theorem mapStages_eq_self (h : ∀ s ∈ p.stages, f s = s) : p.mapStages f = p :=
  (mapStages_congr h).trans p.mapStages_id

theorem mapStages_mapStages (f f' : Stage σ → Stage σ) (p : Pipeline σ) :
    (p.mapStages f).mapStages f' = p.mapStages fun s => f' (f s) := by
  induction p with
  | node s ps ss ihp ihs =>
    rw [mapStages_node, mapStages_node, mapStages_node, List.map_map, List.map_map,
      ← List.map_congr_left ihp, ← List.map_congr_left ihs]
    rfl

/-- The tree without its rows. -/
def bare (p : Pipeline σ) : Pipeline σ := p.mapStages fun s => { s with access := {} }

theorem bare_node (s : Stage σ) (ps ss : List (Pipeline σ)) :
    (node s ps ss).bare = node { s with access := {} } (ps.map bare) (ss.map bare) :=
  mapStages_node _ s ps ss

/-! ## Offering and withdrawing -/

theorem register_eq (tables : Tables) (e : Entity) (p : Pipeline σ) :
    (p.register tables e).2 = p.mapStages fun s => (s.register tables e).2 := by
  have hall : ∀ ps : List (Pipeline σ),
      (registerAll tables e ps).2 = ps.map fun p => (p.register tables e).2 := by
    intro ps
    induction ps with
    | nil => rfl
    | cons p rest ih => rw [registerAll, List.map_cons, ← ih]
  induction p with
  | node s ps ss ihp ihs =>
    rw [register, mapStages_node, ← List.map_congr_left ihp, ← List.map_congr_left ihs, ← hall,
      ← hall]

/-- A tree admits an entity just if some stage of it does. -/
theorem fst_register (tables : Tables) (e : Entity) (p : Pipeline σ) :
    (p.register tables e).1 = true ↔ ∃ s ∈ p.stages, (s.register tables e).1 = true := by
  have hall : ∀ ps : List (Pipeline σ),
      (∀ p ∈ ps, (p.register tables e).1 = true ↔
        ∃ s ∈ p.stages, (s.register tables e).1 = true) →
      ((registerAll tables e ps).1 = true ↔
        ∃ s ∈ ps.flatMap stages, (s.register tables e).1 = true) := by
    intro ps hps
    induction ps with
    | nil => simp [registerAll]
    | cons p rest ih =>
      obtain ⟨hp, hrest⟩ := List.forall_mem_cons.1 hps
      simp only [registerAll, Bool.or_eq_true, hp, ih hrest, List.flatMap_cons, List.mem_append,
        or_and_right, exists_or]
  induction p with
  | node s ps ss ihp ihs =>
    simp only [register, Bool.or_eq_true, hall ps ihp, hall ss ihs, stages_node, List.mem_cons,
      List.mem_append, or_and_right, exists_or, exists_eq_left]
    exact or_comm

theorem unregister_eq (e : Entity) (p : Pipeline σ) :
    p.unregister e = p.mapStages (Stage.unregister e) := by
  have hall : ∀ ps : List (Pipeline σ), unregisterAll e ps = ps.map (unregister e) := by
    intro ps
    induction ps with
    | nil => rfl
    | cons p rest ih => rw [unregisterAll, List.map_cons, ih]
  induction p with
  | node s ps ss ihp ihs =>
    rw [unregister, mapStages_node, ← List.map_congr_left ihp, ← List.map_congr_left ihs, hall,
      hall]

theorem registerEach_eq (tables : Tables) (es : List Entity) (p : Pipeline σ) :
    (Engine.registerEach tables es p).2 = p.mapStages (Stage.registerEach tables es) := by
  induction es generalizing p with
  | nil => exact p.mapStages_id.symm
  | cons e rest ih =>
    have hstep : (Engine.registerEach tables (e :: rest) p).2 =
        (Engine.registerEach tables rest (p.register tables e).2).2 := rfl
    rw [hstep, ih, register_eq, mapStages_mapStages]
    rfl

/-! ## Starting -/

/-- Starting a tree starts all its sets, or fails because one of them cannot be
    started. -/
theorem bind_cases (tables : Tables) (p : Pipeline σ) :
    (p.bind tables = (.ok (), p.mapStages Stage.started) ∧
        ∀ s ∈ p.stages, s.Startable tables) ∨
      ∃ err p', p.bind tables = (.error err, p') ∧ ¬ ∀ s ∈ p.stages, s.Startable tables := by
  induction p with
  | node s ps ss ihp ihs =>
    -- the children of a list start one after the other, up to the first that fails
    have hall : ∀ ps : List (Pipeline σ),
        (∀ p ∈ ps, (p.bind tables = (.ok (), p.mapStages Stage.started) ∧
            ∀ s ∈ p.stages, s.Startable tables) ∨
          ∃ err p', p.bind tables = (.error err, p') ∧ ¬ ∀ s ∈ p.stages, s.Startable tables) →
        (bindAll tables ps = (.ok (), ps.map (mapStages Stage.started)) ∧
            ∀ p ∈ ps, ∀ s ∈ p.stages, s.Startable tables) ∨
          ∃ err ps', bindAll tables ps = (.error err, ps') ∧
            ¬ ∀ p ∈ ps, ∀ s ∈ p.stages, s.Startable tables := by
      intro ps hps
      induction ps with
      | nil => exact .inl ⟨rfl, by simp⟩
      | cons p rest ih =>
        obtain ⟨hp, hrest⟩ := List.forall_mem_cons.1 hps
        rw [List.forall_mem_cons, bindAll]
        rcases hp with ⟨heq, hstart⟩ | ⟨err, p', heq, hstart⟩
        · rcases ih hrest with ⟨heq', hstarts⟩ | ⟨err, ps', heq', hstarts⟩
          · exact .inl ⟨by rw [heq, heq', List.map_cons], hstart, hstarts⟩
          · exact .inr ⟨err, p.mapStages Stage.started :: ps', by rw [heq, heq'],
              fun h => hstarts h.2⟩
        · exact .inr ⟨err, p' :: rest, by rw [heq], fun h => hstart h.1⟩
    rw [forall_stages_node, bind, mapStages_node]
    rcases hall ps ihp with ⟨hps, hp⟩ | ⟨err, ps', hps, hp⟩
    · rcases hall ss ihs with ⟨hss, hs⟩ | ⟨err, ss', hss, hs⟩
      · rcases s.bind_cases tables with ⟨heq, hstart⟩ | ⟨err, heq, hstart⟩
        · exact .inl ⟨by rw [hps, hss, heq], hstart, hp, hs⟩
        · exact .inr ⟨err, _, by rw [hps, hss, heq], fun h => hstart h.1⟩
      · exact .inr ⟨err, _, by rw [hps, hss], fun h => hs h.2.2⟩
    · exact .inr ⟨err, _, by rw [hps], fun h => hp h.2.1⟩

end Pipeline

end TickEngine
