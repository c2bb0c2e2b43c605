/-
  Engines: a world with a pipeline that is kept in step with it.

  An `Engine` owns a world and the root of a pipeline.  Each change of the
  world is followed by offering the changed entity to the pipeline, so between
  ticks every set of the pipeline holds what the world calls for.

  * `Engine.setRoot` installs a pipeline;
  * `spawn`, `despawn`, `insert`, `remove` change the world from outside;
  * `Engine.commands` are the operations that commands perform.
-/
import TickEngine.Engine.Config
import TickEngine.Pipeline.Outline
import TickEngine.Pipeline.Execution
import TickEngine.World.Change

namespace TickEngine

/-! ## Errors -/

/-- Why workers could not be started. -/
inductive PoolError where
  /-- The system refused to start a worker. -/
  | spawn (index : Nat) (reason : String)
  deriving DecidableEq, Repr

def PoolError.message : PoolError → String
  | spawn index reason => s!"failed to spawn worker thread {index}: {reason}"

/-- What can go wrong with an engine. -/
inductive EngineError where
  /-- The pipeline failed in a tick. -/
  | execution (tick : UInt64) (error : ExecutionError)
  /-- A command of a tick failed. -/
  | command (tick : UInt64) (kind : String) (error : CommandError)
  /-- A change from outside failed. -/
  | world (error : CommandError)
  /-- A type could not be registered, or a set not be started. -/
  | component (error : ComponentError)
  | pool (error : PoolError)
  | config (error : ConfigError)
  deriving DecidableEq, Repr

def EngineError.message : EngineError → String
  | execution tick error => s!"tick {tick.toNat} failed: {error.message}"
  | command tick kind error => s!"tick {tick.toNat}: {kind} command failed: {error.message}"
  | world error => error.message
  | component error => error.message
  | pool error => error.message
  | config error => error.message

/-! ## Engines -/

/-- A world, a pipeline, and the count of ticks. -/
structure Engine (σ : Type) where
  config : Config := {}
  world : World := {}
  /-- The installed pipeline. -/
  root : Option (Pipeline σ) := none
  /-- The number of ticks so far. -/
  tick : UInt64 := 0
  exitRequested : Bool := false
  /-- The surroundings of the systems. -/
  ambient : σ

namespace Engine

variable {σ : Type}

def registerType (g : Engine σ) (t : ComponentType) : Except EngineError Bool × Engine σ :=
  let (r, world) := g.world.registerType t
  (r.mapError .component, { g with world })

/-- Offers every entity to a pipeline, and counts those that some set admits. -/
def registerEach (tables : Tables) : List Entity → Pipeline σ → Nat × Pipeline σ
  | [], p => (0, p)
  | e :: rest, p =>
    let (admitted, p) := p.register tables e
    let (count, p) := registerEach tables rest p
    (admitted.toNat + count, p)

/-- Installs a pipeline, with its sets started and every live entity offered
    to them.  Answers how many entities some set admitted.  If a set cannot be
    started, the installed pipeline stays. -/
def setRoot (g : Engine σ) (p : Pipeline σ) : Except EngineError Nat × Engine σ :=
  match p.bind g.world.store.tables with
  | (.error e, _) => (.error (.component e), g)
  | (.ok (), p) =>
    let (admitted, p) := registerEach g.world.store.tables g.world.entities p
    (.ok admitted, { g with root := some p })

/-! ## Changes -/

/-- Offers an entity to the installed pipeline. -/
def offer (g : Engine σ) (e : Entity) : Engine σ :=
  { g with root := g.root.map fun p => (p.register g.world.store.tables e).2 }

/-- Makes an entity with components. -/
def spawnComponents (g : Engine σ) (cs : List Component) :
    Except CommandError Entity × Engine σ :=
  match g.world.spawn cs with
  | (.error e, world) => (.error e, { g with world })
  | (.ok e, world) => (.ok e, offer { g with world } e)

/-- Destroys an entity.  Answers whether it was alive. -/
def despawn (g : Engine σ) (e : Entity) : Bool × Engine σ :=
  if g.world.contains e then
    let (removed, world) := g.world.despawn e
    (removed, { g with world, root := g.root.map fun p => p.unregister e })
  else (false, g)

/-- Gives an entity a component. -/
def insertComponent (g : Engine σ) (e : Entity) (c : Component) :
    Except CommandError Unit × Engine σ :=
  match g.world.insert e c with
  | (.error err, world) => (.error err, { g with world })
  | (.ok (), world) => (.ok (), offer { g with world } e)

/-- Takes a component from an entity.  Answers whether it had one. -/
def removeComponent (g : Engine σ) (e : Entity) (t : TypeId) :
    Except CommandError Bool × Engine σ :=
  match g.world.remove e t with
  | (.error err, world) => (.error err, { g with world })
  | (.ok false, world) => (.ok false, { g with world })
  | (.ok true, world) => (.ok true, offer { g with world } e)

/-- Makes an entity with components, from outside a tick. -/
def spawn (g : Engine σ) (cs : List Component) : Except EngineError Entity × Engine σ :=
  let (r, g) := g.spawnComponents cs
  (r.mapError .world, g)

/-- Gives an entity a component, from outside a tick. -/
def insert (g : Engine σ) (e : Entity) (c : Component) : Except EngineError Unit × Engine σ :=
  let (r, g) := g.insertComponent e c
  (r.mapError .world, g)

/-- Takes a component from an entity, from outside a tick. -/
def remove (g : Engine σ) (e : Entity) (t : TypeId) : Except EngineError Bool × Engine σ :=
  let (r, g) := g.removeComponent e t
  (r.mapError .world, g)

/-- Asks the run to stop before the next tick. -/
def requestExit (g : Engine σ) : Engine σ := { g with exitRequested := true }

/-- Changes what cells hold, through handles on them. -/
def withCells (g : Engine σ) (cells : Cells) : Engine σ :=
  { g with world := { g.world with store := { g.world.store with cells } } }

/-! ## Commands -/

/-- The operations that commands perform on an engine.  Records are read
    first.  To destroy what is not alive, or to take what is not owned, is no
    error. -/
def commands : CommandTarget (Engine σ) where
  spawn records g :=
    match g.world.decodeAll records with
    | .error e => (.error e, g)
    | .ok cs => g.spawnComponents cs
  despawn e g := (.ok (), (g.despawn e).2)
  insert e record g :=
    match g.world.decode record with
    | .error err => (.error err, g)
    | .ok c => g.insertComponent e c
  remove e t g :=
    match g.removeComponent e t with
    | (.ok _, g) => (.ok (), g)
    | (.error (.entityNotFound _), g) => (.ok (), g)
    | (.error err, g) => (.error err, g)
  update e record g :=
    match g.world.decode record with
    | .error err => (.error err, g)
    | .ok c =>
      let (r, world) := g.world.replace e c
      (r, { g with world })
  requestExit g := g.requestExit

end Engine

end TickEngine
