/-
  Systems written as data.

  A `Script` is a list of guarded actions (`Step`).  Some actions report what
  the system sees, each as an `Event` in a trace that the whole pipeline
  shares; the others ask for commands, change values, or fail.
-/
import TickEngine.Command.Draft
import TickEngine.Pipeline.System

namespace TickEngine.Script

/-! ## Events -/

/-- An entity with the components of its row. -/
abbrev Contents := Entity × List Component

/-- What can be seen of a live set. -/
structure View where
  op : SetOp
  types : List TypeId
  size : Nat
  isEmpty : Bool
  /-- The number of rows listed. -/
  rowCount : Nat
  deriving DecidableEq, Repr

/-- What an action reports. -/
inductive Report where
  | rows (tick : UInt64) (sets : List (List Contents))
  | note (tick : UInt64) (text : String)
  | clock (tick : UInt64) (dt : Double)
  /-- The number of sets, one of them, and the number of rows listed at its
      position. -/
  | view (setCount : Nat) (view : Option View) (rowCount : Nat)
  /-- Whether an entity is a member of a set, with its row. -/
  | found (result : Option (Bool × Option Contents))
  /-- For each entity of a set, whether its row has a component under a type's
      identifier, and whether it can be read as that type. -/
  | has (entities : List (Entity × Bool × Bool))
  | decoded (component : Component)
  deriving DecidableEq

/-- A report with the name of the node that made it. -/
structure Event where
  node : String
  report : Report
  deriving DecidableEq

/-- The events of a pipeline, in order. -/
abbrev Trace := List Event

/-! ## Actions -/

/-- What a system does in one step of its update. -/
inductive Action where
  | rows
  | note (text : String)
  | clock
  | view (set : Nat)
  | find (set : Nat) (entity : Entity)
  | has (set : Nat) (type : ComponentType)
  /-- Reads a record as a value of a type. -/
  | decode (record : Part) (type : ComponentType)
  /-- Asks for commands. -/
  | emit (drafts : List Draft)
  /-- Asks for commands once for each row, on the row's entity. -/
  | each (set : Nat) (drafts : List Draft)
  /-- Adds to a number in every row, wrapping around. -/
  | add (set : Nat) (type : ComponentType) (amount : Int)
  /-- Moves every position by its velocity. -/
  | integrate (set : Nat)
  /-- Counts every lifetime down by command, and destroys what has expired. -/
  | age (set : Nat)
  /-- Asks to exit if a set has no rows. -/
  | exitIfEmpty (set : Nat)
  | error (message : String)
  /-- Fails for want of memory. -/
  | outOfMemory
  | panic (panic : Panic)
  deriving DecidableEq

/-- An action with the ticks on which it runs. -/
structure Step where
  /-- Runs on this tick alone. -/
  tick : Option UInt64 := none
  /-- Runs on the multiples of this number alone. -/
  every : Option UInt64 := none
  action : Action
  deriving DecidableEq

def Step.runsOn (s : Step) (tick : UInt64) : Bool :=
  s.tick.all (· = tick) && s.every.all (tick % · = 0)

/-- A way to offer and withdraw entities other than the usual one. -/
structure Hook where
  /-- Offers only entities whose number leaves the second number as the
      remainder by the first. -/
  residue : Option (UInt64 × UInt64) := none
  /-- Does not withdraw entities. -/
  keeps : Bool := false
  deriving DecidableEq, Repr

end TickEngine.Script

namespace TickEngine

/-- A system as data. -/
structure Script where
  name : String
  sets : List SetSpec := []
  steps : List Script.Step := []
  hook : Option Script.Hook := none
  deriving DecidableEq

end TickEngine
