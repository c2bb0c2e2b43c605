/-
  The engines that changes and ticks lead to.

  `Engine.Reaches trees n g` says that some sequence of changes leads from a
  fresh engine to `g`, with trees from `trees` installed and `n` ids handed out
  for the first time.  The next id is a word of 64 bits, so results ask for `n`
  to stay below the number of ids.  A tick counts as its pipeline followed by
  its commands one by one (`Reaches.tick`), so the engines between two commands
  of a tick are reached too.  Every write and every command is a change of its
  own: what holds of all reached engines does not depend on the order in which
  parallel children complete.

  * `performs_apply`: a command does nothing, or changes the engine once;
  * `Reaches.world`: the world of a reached engine is a reached world.
-/
import TickEngine.Engine.Run
import TickEngine.Proofs.WorldHistory

namespace TickEngine

/-! ## Writes of a pipeline -/

/-- Contents of cells before and after writes of values through handles. -/
def Cells.Written : Cells → Cells → Prop :=
  Relation.ReflTransGen fun cells cells' =>
    ∃ (r : CellRef) (t : ComponentType) (x : t.Data), cells' = (r.writeAs cells t x).2

theorem World.Reaches.withCells {n : Nat} {w : World} {cells : Cells} (h : Reaches n w)
    (hc : Cells.Written w.store.cells cells) : Reaches n (w.withCells cells) := by
  induction hc with
  | refl => exact h
  | tail _ hstep ih =>
    obtain ⟨r, t, x, rfl⟩ := hstep
    exact ih.step_of_next (.write r t x) rfl

namespace Pipeline

variable {σ : Type}

theorem written_step (u : Update σ) (cells : Cells) : Cells.Written cells (u.step cells).cells := by
  unfold Update.step
  generalize u.writes = writes
  induction writes generalizing cells with
  | nil => exact .refl
  | cons w rest ih =>
    exact .trans (.single ⟨w.target, w.component.type, w.component.value, rfl⟩) (ih _)

theorem written_run (ctx : TickContext) (s : Stage σ) (w : Workspace σ) :
    Cells.Written w.cells (s.run ctx w).2.cells := by
  unfold Stage.run
  split
  · exact .refl
  · exact written_step _ _

mutual

/-- Running a tree only writes values. -/
theorem written_execute (ctx : TickContext) :
    ∀ (p : Pipeline σ) (w : Workspace σ), Cells.Written w.cells (p.execute ctx w).2.cells
  | node s ps ss, w => by
    have hrun := written_run ctx s w
    have hfan := written_fanOut ctx ps {} (s.run ctx w).2
    rw [execute]
    rcases hs : s.run ctx w with ⟨_ | own, w₁⟩ <;> rw [hs] at hrun hfan
    · exact hrun
    rcases hp : fanOut ctx ps {} w₁ with ⟨c, w₂⟩
    rw [hp] at hfan
    rcases hc : c.result with err | inParallel <;> simp only [hp, hc]
    · exact hrun.trans hfan
    · have hturn := written_inTurn ctx ss w₂
      rcases ht : inTurn ctx ss w₂ with ⟨_ | _, w₃⟩ <;> rw [ht] at hturn <;>
        exact hrun.trans (hfan.trans hturn)

theorem written_fanOut (ctx : TickContext) : ∀ (ps : List (Pipeline σ)) (c : BatchCombiner)
    (w : Workspace σ), Cells.Written w.cells (fanOut ctx ps c w).2.cells
  | [], _, _ => .refl
  | p :: rest, c, w => by
    have hp := written_execute ctx p w
    rw [fanOut]
    exact hp.trans (written_fanOut ctx rest _ _)

theorem written_inTurn (ctx : TickContext) : ∀ (ps : List (Pipeline σ)) (w : Workspace σ),
    Cells.Written w.cells (inTurn ctx ps w).2.cells
  | [], _ => .refl
  | p :: rest, w => by
    have hp := written_execute ctx p w
    rw [inTurn]
    rcases hw : execute ctx p w with ⟨_ | b, w₁⟩ <;> rw [hw] at hp
    · exact hp
    · have hrest := written_inTurn ctx rest w₁
      rcases ht : inTurn ctx rest w₁ with ⟨_ | _, w₂⟩ <;> rw [ht] at hrest <;>
        simp only [ht] <;> exact hp.trans hrest

end

theorem written_executeContained (ctx : TickContext) (p : Pipeline σ) (w : Workspace σ) :
    Cells.Written w.cells (p.executeContained ctx w).2.cells :=
  written_execute ctx p w

end Pipeline

namespace Engine

variable {σ : Type} {trees : Pipeline σ → Prop} {g g' : Engine σ} {n : Nat}

/-! ## The two parts of a tick -/

/-- The first part of a tick, in which the installed pipeline runs. -/
def runSystems (g : Engine σ) (dt : Double) : Except ExecutionError Batch × Engine σ :=
  match g.root with
  | none => (.ok {}, { g with tick := g.tick + 1 })
  | some root =>
    let (r, w) := root.executeContained ⟨g.tick + 1, dt⟩ ⟨g.world.store.cells, g.ambient⟩
    (r, { g.withCells w.cells with tick := g.tick + 1, ambient := w.ambient })

/-- A tick runs the pipeline, and then performs its commands. -/
theorem runTick_eq (g : Engine σ) (dt : Double) : g.runTick dt =
    match g.runSystems dt with
    | (.error e, g) => (.error (.execution g.tick e), g)
    | (.ok batch, g) =>
      match Command.applyAll commands batch.commands g with
      | (.error (c, e), g) => (.error (.command g.tick c.kind e), g)
      | (.ok (), g) => (.ok batch.size, g) := by
  obtain ⟨config, world, root, tick, exitRequested, ambient⟩ := g
  cases root with
  | none => rfl
  | some root =>
    simp only [runTick, runSystems]
    rcases root.executeContained ⟨tick + 1, dt⟩ ⟨world.store.cells, ambient⟩ with ⟨_ | batch, w⟩ <;>
      rfl

/-! ## Histories -/

/-- One change of an engine, whether it succeeds or fails. -/
inductive Step (trees : Pipeline σ → Prop) (g : Engine σ) : Engine σ → Prop
  | registerType (t : ComponentType) : Step trees g (g.registerType t).2
  | setRoot (p : Pipeline σ) : trees p → Step trees g (g.setRoot p).2
  | spawn (cs : List Component) : Step trees g (g.spawn cs).2
  | despawn (e : Entity) : Step trees g (g.despawn e).2
  | insert (e : Entity) (c : Component) : Step trees g (g.insert e c).2
  | remove (e : Entity) (t : TypeId) : Step trees g (g.remove e t).2
  | requestExit : Step trees g g.requestExit
  /-- A value is written through any handle, also one that a row captured. -/
  | write (r : CellRef) (t : ComponentType) (x : t.Data) :
      Step trees g (g.withCells (r.writeAs g.world.store.cells t x).2)
  /-- A component is overwritten through a handle on a cell that a table gave
      it. -/
  | overwrite (r : CellRef) (c : Component) : r.Valid g.world.store.cells →
      Step trees g (g.withCells (r.replace g.world.store.cells c).2)
  /-- The surroundings change. -/
  | surroundings (ambient : σ) : Step trees g { g with ambient }
  /-- The first part of a tick. -/
  | runSystems (dt : Double) : Step trees g (g.runSystems dt).2
  /-- One command of a tick. -/
  | command (c : Command) : Step trees g (c.apply commands g).2

/-- The engines after changes that install trees from `trees` and hand out `n`
    ids for the first time. -/
inductive Reaches (trees : Pipeline σ → Prop) : Nat → Engine σ → Prop
  | start (config : Config) (ambient : σ) : Reaches trees 0 { config, ambient }
  | step {n : Nat} {g g' : Engine σ} : Reaches trees n g → Step trees g g' →
      Reaches trees (n + g.world.ids.newIds g'.world.ids) g'

/-- The number of ids that commands hand out for the first time, up to the
    first that fails. -/
def newIdsAll : List Command → Engine σ → Nat
  | [], _ => 0
  | c :: rest, g =>
    match c.apply commands g with
    | (.error _, g') => g.world.ids.newIds g'.world.ids
    | (.ok (), g') => g.world.ids.newIds g'.world.ids + newIdsAll rest g'

/-- The number of ids that a tick hands out for the first time. -/
def newIdsInTick (g : Engine σ) (dt : Double) : Nat :=
  match g.runSystems dt with
  | (.error _, _) => 0
  | (.ok batch, g) => newIdsAll batch.commands g

theorem ids_runSystems (g : Engine σ) (dt : Double) :
    (g.runSystems dt).2.world.ids = g.world.ids := by
  unfold runSystems
  split <;> rfl

theorem Reaches.applyAll (h : Reaches trees n g) (cs : List Command) :
    Reaches trees (n + newIdsAll cs g) (Command.applyAll commands cs g).2 := by
  induction cs generalizing n g with
  | nil => exact h
  | cons c rest ih =>
    have hstep := h.step (.command c)
    rw [newIdsAll, Command.applyAll]
    rcases hc : c.apply commands g with ⟨_ | _, g'⟩ <;> rw [hc] at hstep
    · exact hstep
    · rw [← Nat.add_assoc]
      exact ih hstep

/-- What every command keeps, commands in order keep. -/
theorem applyAll_induction {P : Engine σ → Prop}
    (hstep : ∀ (c : Command) g, P g → P (c.apply commands g).2) (cs : List Command) (h : P g) :
    P (Command.applyAll commands cs g).2 := by
  induction cs generalizing g with
  | nil => exact h
  | cons c rest ih =>
    have hfirst := hstep c g h
    rw [Command.applyAll]
    rcases hc : c.apply commands g with ⟨_ | _, g'⟩ <;> rw [hc] at hfirst
    · exact hfirst
    · exact ih hfirst

/-- **A tick leads from a reached engine to a reached one**, whether it
    succeeds, fails in the pipeline, or fails at any of its commands. -/
theorem Reaches.tick (h : Reaches trees n g) (dt : Double) :
    Reaches trees (n + g.newIdsInTick dt) (g.runTick dt).2 := by
  have hrun : Reaches trees n (g.runSystems dt).2 := by
    have hstep := h.step (.runSystems dt)
    rwa [EntityIds.newIds_eq_zero (by rw [ids_runSystems])] at hstep
  rw [runTick_eq, newIdsInTick]
  rcases hr : g.runSystems dt with ⟨_ | batch, g₁⟩ <;> rw [hr] at hrun
  · exact hrun
  · have happly := hrun.applyAll batch.commands
    rcases ha : Command.applyAll commands batch.commands g₁ with ⟨_ | _, g₂⟩ <;>
      simp only [ha] at happly ⊢ <;> exact happly

/-! ## Answers and worlds of changes -/

theorem world_setRoot (g : Engine σ) (p : Pipeline σ) : (g.setRoot p).2.world = g.world := by
  unfold setRoot
  split <;> rfl

theorem answer_spawnComponents (g : Engine σ) (cs : List Component) :
    (g.spawnComponents cs).1 = (g.world.spawn cs).1 := by
  unfold spawnComponents
  split <;> rename_i h <;> rw [h]

theorem world_spawnComponents (g : Engine σ) (cs : List Component) :
    (g.spawnComponents cs).2.world = (g.world.spawn cs).2 := by
  unfold spawnComponents
  split <;> rename_i h
  · rw [h]
  · rw [h]
    rfl

theorem world_despawn (g : Engine σ) (e : Entity) :
    (g.despawn e).2.world = (g.world.despawn e).2 := by
  unfold despawn
  split
  · rfl
  · rename_i hdead
    rw [World.contains, SortedMap.contains, Option.not_isSome_iff_eq_none] at hdead
    rw [World.despawn_of_dead hdead]

theorem answer_insertComponent (g : Engine σ) (e : Entity) (c : Component) :
    (g.insertComponent e c).1 = (g.world.insert e c).1 := by
  unfold insertComponent
  split <;> rename_i h <;> rw [h]

theorem world_insertComponent (g : Engine σ) (e : Entity) (c : Component) :
    (g.insertComponent e c).2.world = (g.world.insert e c).2 := by
  unfold insertComponent
  split <;> rename_i h
  · rw [h]
  · rw [h]
    rfl

theorem answer_removeComponent (g : Engine σ) (e : Entity) (t : TypeId) :
    (g.removeComponent e t).1 = (g.world.remove e t).1 := by
  unfold removeComponent
  split <;> rename_i h <;> rw [h]

theorem world_removeComponent (g : Engine σ) (e : Entity) (t : TypeId) :
    (g.removeComponent e t).2.world = (g.world.remove e t).2 := by
  unfold removeComponent
  split <;> rename_i h
  · rw [h]
  · rw [h]
  · rw [h]
    rfl

/-- What a command does to an engine: nothing, or one change of it. -/
inductive Performs (g : Engine σ) : Engine σ → Prop
  | nothing : Performs g g
  | spawn (cs : List Component) : Performs g (g.spawnComponents cs).2
  | despawn (e : Entity) : Performs g (g.despawn e).2
  | insert (e : Entity) (c : Component) : Performs g (g.insertComponent e c).2
  | remove (e : Entity) (t : TypeId) : Performs g (g.removeComponent e t).2
  | replace (e : Entity) (c : Component) : Performs g { g with world := (g.world.replace e c).2 }
  | exit : Performs g g.requestExit

theorem performs_apply (c : Command) (g : Engine σ) : g.Performs (c.apply commands g).2 := by
  cases c with
  | spawn records =>
    simp only [Command.apply, commands]
    cases g.world.decodeAll records with
    | error err => exact .nothing
    | ok cs => exact .spawn cs
  | despawn e => exact .despawn e
  | insert e record =>
    simp only [Command.apply, commands]
    cases g.world.decode record with
    | error err => exact .nothing
    | ok c => exact .insert e c
  | remove e t =>
    have hremove := Performs.remove (g := g) e t
    simp only [Command.apply, commands]
    split <;> rename_i heq <;> rw [heq] at hremove <;> exact hremove
  | update e record =>
    simp only [Command.apply, commands]
    cases g.world.decode record with
    | error err => exact .nothing
    | ok c => exact .replace e c
  | exit => exact .exit

/-- A command changes the world once or not at all. -/
theorem Performs.world (h : Performs g g') : g'.world = g.world ∨ World.Step g.world g'.world := by
  cases h with
  | nothing | exit => exact .inl rfl
  | spawn cs => exact .inr (world_spawnComponents g cs ▸ .spawn cs)
  | despawn e => exact .inr (world_despawn g e ▸ .despawn e)
  | insert e c => exact .inr (world_insertComponent g e c ▸ .insert e c)
  | remove e t => exact .inr (world_removeComponent g e t ▸ .remove e t)
  | replace e c => exact .inr (.replace e c)

theorem Step.world (h : Step trees g g') : World.Step g.world g'.world ∨
    ∃ cells, Cells.Written g.world.store.cells cells ∧ g'.world = g.world.withCells cells := by
  have hsame : ∀ {w : World}, w = g.world → World.Step g.world w ∨
      ∃ cells, Cells.Written g.world.store.cells cells ∧ w = g.world.withCells cells :=
    fun heq => .inr ⟨_, .refl, heq⟩
  cases h with
  | registerType t => exact .inl (.registerType t)
  | setRoot p => exact hsame (world_setRoot g p)
  | spawn cs => exact .inl (world_spawnComponents g cs ▸ .spawn cs)
  | despawn e => exact .inl (world_despawn g e ▸ .despawn e)
  | insert e c => exact .inl (world_insertComponent g e c ▸ .insert e c)
  | remove e t => exact .inl (world_removeComponent g e t ▸ .remove e t)
  | requestExit => exact hsame rfl
  | write r t x => exact .inl (.write r t x)
  | overwrite r c hr => exact .inl (.overwrite r c hr)
  | surroundings ambient => exact hsame rfl
  | runSystems dt =>
    unfold Engine.runSystems
    split
    · exact hsame rfl
    · exact .inr ⟨_, Pipeline.written_executeContained ⟨g.tick + 1, dt⟩ _
        ⟨g.world.store.cells, g.ambient⟩, rfl⟩
  | command c =>
    rcases (performs_apply c g).world with h | h
    · exact hsame h
    · exact .inl h

/-- **The world of a reached engine is a reached world.** -/
theorem Reaches.world (h : Reaches trees n g) : World.Reaches n g.world := by
  induction h with
  | start config ambient => exact .start
  | @step n g g' _ hstep ih =>
    rcases hstep.world with h | ⟨cells, hcells, h⟩
    · exact ih.step h
    · have hids : g.world.ids.newIds g'.world.ids = 0 := EntityIds.newIds_eq_zero (by rw [h]; rfl)
      rw [hids, h]
      exact ih.withCells hcells

theorem Reaches.consistent (h : Reaches trees n g) (hn : n < 2 ^ 64 - 1) : g.world.Consistent :=
  h.world.consistent hn

/-! ## An engine at work -/

/-- A tree with one system, which asks for the entities with an `x`, and for
    those with an `x` or a `y`. -/
def watcher : Pipeline Unit :=
  let sets : List SetSpec := [.intersect [Catalog.x.id], .unite [Catalog.x.id, Catalog.y.id]]
  .node ⟨"watch", some (.new "watch" sets fun _ _ _ => ⟨.batch .empty, [], ()⟩), sets, {}⟩ [] []

/-- The same with a system of other habits: it withdraws the second entity from
    its sets, whichever is destroyed. -/
def stray : Pipeline Unit :=
  let sets : List SetSpec := [.intersect [Catalog.x.id], .unite [Catalog.x.id, Catalog.y.id]]
  let system : System Unit := .new "stray" sets fun _ _ _ => ⟨.batch .empty, [], ()⟩
  .node ⟨"stray", some { system with unregister := fun _ a => a.unregister ⟨2⟩ }, sets, {}⟩ [] []

/-- An engine with a tree and two entities. -/
def filled (p : Pipeline Unit) : Engine Unit :=
  let g : Engine Unit := { config := {}, ambient := () }
  let g := (g.registerType Catalog.x).2
  let g := (g.registerType Catalog.y).2
  let g := (g.setRoot p).2
  let g := (g.spawn [⟨Catalog.x, (1 : BitVec 32)⟩]).2
  let g := (g.spawn [⟨Catalog.x, (2 : BitVec 32)⟩]).2
  (g.insert ⟨2⟩ ⟨Catalog.y, (3 : BitVec 32)⟩).2

/-- An engine in which an id is in use for the second time. -/
def stocked : Engine Unit :=
  let g : Engine Unit := { config := {}, ambient := () }
  let g := (g.registerType Catalog.x).2
  let g := (g.registerType Catalog.y).2
  let g := (g.setRoot watcher).2
  let g := (g.spawn [⟨Catalog.x, (1 : BitVec 32)⟩]).2
  let g := (g.spawn [⟨Catalog.x, (2 : BitVec 32)⟩]).2
  let g := (g.insert ⟨2⟩ ⟨Catalog.y, (3 : BitVec 32)⟩).2
  let g := (g.despawn ⟨1⟩).2
  (g.spawn [⟨Catalog.y, (4 : BitVec 32)⟩]).2

theorem reaches_filled {trees : Pipeline Unit → Prop} {p : Pipeline Unit} (h : trees p) :
    Reaches trees 2 (filled p) := by
  have hroot := (((Reaches.start {} ()).step (.registerType Catalog.x)).step
    (.registerType Catalog.y)).step (.setRoot p h)
  have hfilled := ((hroot.step (.spawn [⟨Catalog.x, (1 : BitVec 32)⟩])).step
    (.spawn [⟨Catalog.x, (2 : BitVec 32)⟩])).step (.insert ⟨2⟩ ⟨Catalog.y, (3 : BitVec 32)⟩)
  unfold filled
  convert hfilled using 1
  -- ids are handed out by the world, whatever the tree is
  simp only [insert, spawn, world_insertComponent, world_spawnComponents, world_setRoot]
  decide +kernel

theorem reaches_stocked {trees : Pipeline Unit → Prop} (h : trees watcher) :
    Reaches trees 2 stocked := by
  have hstocked := ((reaches_filled h).step (.despawn ⟨1⟩)).step
    (.spawn [⟨Catalog.y, (4 : BitVec 32)⟩])
  convert hstocked using 1
  · decide +kernel
  · rfl

end Engine

end TickEngine
