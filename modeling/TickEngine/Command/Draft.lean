/-
  Commands over components that are yet to be written.

  A `Draft` is a command whose components may still be values (`Part`).
  `Draft.build` writes them and gives the command, or the first failure.
-/
import TickEngine.Command.Basic

namespace TickEngine

/-- A component of a command: a value, or a record as it is. -/
inductive Part where
  | component (c : Component)
  | record (r : Record)
  deriving DecidableEq

/-- The record of a component of a command. -/
def Part.build : Part → Except ComponentError Record
  | component c => c.record
  | record r => .ok r

/-- A command to build. -/
inductive Draft where
  | spawn (components : List Part)
  | despawn (entity : Entity)
  | insert (entity : Entity) (component : Part)
  | remove (entity : Entity) (type : TypeId)
  | update (entity : Entity) (component : Part)
  | exit
  deriving DecidableEq

/-- Builds a command.  The first component that cannot be written fails it. -/
def Draft.build : Draft → Except ComponentError Command
  | spawn components => (components.mapM Part.build).map .spawn
  | despawn e => .ok (.despawn e)
  | insert e component => component.build.map (.insert e)
  | remove e t => .ok (.remove e t)
  | update e component => component.build.map (.update e)
  | exit => .ok .exit

/-- The draft on another entity. -/
def Draft.onEntity (e : Entity) : Draft → Draft
  | despawn _ => despawn e
  | insert _ component => insert e component
  | remove _ type => remove e type
  | update _ component => update e component
  | d => d

/-- Builds commands in order; the first failure counts. -/
def Draft.buildAll (ds : List Draft) : Except ComponentError (List Command) := ds.mapM build

end TickEngine
