/-
  Pipelines: trees of systems.

  A node of a `Pipeline` is a `Stage`, which has at most one system with its
  live sets, and two lists of children: parallel ones, which run side by side
  after the stage, and serial ones, which run after them one by one.

  * `Pipeline.ofSystem?` and `Pipeline.group` make leaves, `withParallel` and
    `withSerial` add children;
  * `bind` starts all sets of the tree, children before their parent;
  * `register` and `unregister` offer an entity to every set, and withdraw it.
-/
import TickEngine.Pipeline.System

namespace TickEngine

/-! ## Stages -/

/-- What a node of a pipeline has of its own. -/
structure Stage (σ : Type) where
  name : String
  system : Option (System σ)
  /-- The sets that the system declared. -/
  specs : List SetSpec
  /-- The live sets. -/
  access : Access

namespace Stage

variable {σ : Type}

/-- Starts the sets of the stage. -/
def bind (tables : Tables) (s : Stage σ) : Except ComponentError (Stage σ) :=
  (Access.bind? s.name s.specs tables).map fun access => { s with access }

/-- Offers an entity to the sets of the stage. -/
def register (tables : Tables) (e : Entity) (s : Stage σ) : Bool × Stage σ :=
  match s.system with
  | none => (false, s)
  | some system =>
    let (admitted, access) := system.register tables e s.access
    (admitted, { s with access })

/-- Withdraws an entity from the sets of the stage. -/
def unregister (e : Entity) (s : Stage σ) : Stage σ :=
  match s.system with
  | none => s
  | some system => { s with access := system.unregister e s.access }

end Stage

/-! ## Trees -/

/-- A tree of stages. -/
inductive Pipeline (σ : Type) where
  | node (stage : Stage σ) (parallel serial : List (Pipeline σ))

namespace Pipeline

variable {σ : Type}

/-- The part of the root itself. -/
def stage : Pipeline σ → Stage σ
  | node s _ _ => s

/-- The parallel children of the root. -/
def parallel : Pipeline σ → List (Pipeline σ)
  | node _ ps _ => ps

/-- The serial children of the root. -/
def serial : Pipeline σ → List (Pipeline σ)
  | node _ _ ss => ss

/-- The name of the root. -/
def name (p : Pipeline σ) : String := p.stage.name

/-- A leaf that runs a system.  Each of its sets declares some type. -/
def ofSystem? (s : System σ) : Except ComponentError (Pipeline σ) :=
  if s.sets.any SetSpec.isEmpty then .error (.emptySet s.name)
  else .ok (node ⟨s.name, some s, s.sets, {}⟩ [] [])

/-- A leaf that runs nothing. -/
def group (name : String) : Pipeline σ := node ⟨name, none, [], {}⟩ [] []

/-- Adds a child that runs side by side with the other parallel ones. -/
def withParallel (p child : Pipeline σ) : Pipeline σ :=
  node p.stage (p.parallel ++ [child]) p.serial

/-- Adds a child that runs after all earlier ones. -/
def withSerial (p child : Pipeline σ) : Pipeline σ :=
  node p.stage p.parallel (p.serial ++ [child])

/-! ## Sets of the whole tree -/

mutual

/-- Starts all sets of the tree on the tables: parallel children, serial
    children, then the root.  The first failure ends this; what was started
    before it stays so. -/
def bind (tables : Tables) : Pipeline σ → Except ComponentError Unit × Pipeline σ
  | node s ps ss =>
    match bindAll tables ps with
    | (.error e, ps) => (.error e, node s ps ss)
    | (.ok (), ps) =>
      match bindAll tables ss with
      | (.error e, ss) => (.error e, node s ps ss)
      | (.ok (), ss) =>
        match s.bind tables with
        | .error e => (.error e, node s ps ss)
        | .ok s => (.ok (), node s ps ss)

/-- Starts all sets of consecutive trees. -/
def bindAll (tables : Tables) : List (Pipeline σ) → Except ComponentError Unit × List (Pipeline σ)
  | [] => (.ok (), [])
  | p :: rest =>
    match bind tables p with
    | (.error e, p) => (.error e, p :: rest)
    | (.ok (), p) =>
      let (r, rest) := bindAll tables rest
      (r, p :: rest)

end

mutual

/-- Offers an entity to every set of the tree.  Answers whether some set
    admitted it. -/
def register (tables : Tables) (e : Entity) : Pipeline σ → Bool × Pipeline σ
  | node s ps ss =>
    let (inParallel, ps) := registerAll tables e ps
    let (inSerial, ss) := registerAll tables e ss
    let (here, s) := s.register tables e
    (inParallel || inSerial || here, node s ps ss)

/-- Offers an entity to every set of all the trees. -/
def registerAll (tables : Tables) (e : Entity) : List (Pipeline σ) → Bool × List (Pipeline σ)
  | [] => (false, [])
  | p :: rest =>
    let (first, p) := register tables e p
    let (later, rest) := registerAll tables e rest
    (first || later, p :: rest)

end

mutual

/-- Withdraws an entity from every set of the tree. -/
def unregister (e : Entity) : Pipeline σ → Pipeline σ
  | node s ps ss => node (s.unregister e) (unregisterAll e ps) (unregisterAll e ss)

/-- Withdraws an entity from every set of all the trees. -/
def unregisterAll (e : Entity) : List (Pipeline σ) → List (Pipeline σ)
  | [] => []
  | p :: rest => unregister e p :: unregisterAll e rest

end

/-- The number of entities that the root's own sets admit. -/
def registeredCount (p : Pipeline σ) : Nat := p.stage.access.admittedCount

/-- The number of members of the root's own set at a position. -/
def setSize? (p : Pipeline σ) (i : Nat) : Option Nat := (p.stage.access.set? i).map (·.size)

end Pipeline

end TickEngine
