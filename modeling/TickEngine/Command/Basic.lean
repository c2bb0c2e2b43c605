/-
  Deferred changes of the world.

  Systems do not change the world; they say what should happen to it as
  `Command`s, which are plain data.  `Command.apply` performs a command on a
  `CommandTarget`, the operations that commands need.
-/
import TickEngine.Component.Basic
import TickEngine.Entity.Basic

namespace TickEngine

/-! ## Errors -/

/-- Why a change of the world was refused. -/
inductive CommandError where
  | entityNotFound (e : Entity)
  /-- The entity already has a component of the type. -/
  | componentExists (e : Entity) (t : TypeId)
  /-- A new entity was given a type twice. -/
  | duplicateComponent (t : TypeId)
  | componentMissing (e : Entity) (t : TypeId)
  /-- A component could not be read or stored. -/
  | component (error : ComponentError)
  deriving DecidableEq, Repr

def CommandError.message : CommandError → String
  | entityNotFound e => s!"{e} does not exist"
  | componentExists e t => s!"{e} already has component {t}"
  | duplicateComponent t => s!"spawn lists component {t} more than once"
  | componentMissing e t => s!"{e} has no component {t}"
  | component error => error.message

/-! ## Commands -/

/-- A change to make to the world. -/
inductive Command where
  /-- Make an entity with the components. -/
  | spawn (components : List Record)
  /-- Destroy an entity. -/
  | despawn (entity : Entity)
  /-- Give an entity a component of a type that it lacks. -/
  | insert (entity : Entity) (component : Record)
  /-- Take a component from an entity. -/
  | remove (entity : Entity) (type : TypeId)
  /-- Overwrite a component that an entity has. -/
  | update (entity : Entity) (component : Record)
  /-- Stop the run after the current tick. -/
  | exit
  deriving DecidableEq, Repr

namespace Command

def kind : Command → String
  | spawn _ => "spawn"
  | despawn _ => "despawn"
  | insert .. => "insert"
  | remove .. => "remove"
  | update .. => "update"
  | exit => "exit"

end Command

/-! ## Performing commands -/

/-- The operations that commands perform on a state.  An operation that fails
    still says which state it leaves. -/
structure CommandTarget (σ : Type) where
  spawn : List Record → σ → Except CommandError Entity × σ
  despawn : Entity → σ → Except CommandError Unit × σ
  insert : Entity → Record → σ → Except CommandError Unit × σ
  remove : Entity → TypeId → σ → Except CommandError Unit × σ
  update : Entity → Record → σ → Except CommandError Unit × σ
  requestExit : σ → σ

/-- Performs a command.  The entity of a spawn is forgotten, and a request to
    exit cannot fail. -/
def Command.apply {σ : Type} (target : CommandTarget σ) (c : Command) (s : σ) :
    Except CommandError Unit × σ :=
  match c with
  | spawn components =>
    let (r, s) := target.spawn components s
    (r.map fun _ => (), s)
  | despawn e => target.despawn e s
  | insert e component => target.insert e component s
  | remove e type => target.remove e type s
  | update e component => target.update e component s
  | exit => (.ok (), target.requestExit s)

/-- Performs commands in order up to the first that fails, which is given with
    its error. -/
def Command.applyAll {σ : Type} (target : CommandTarget σ) : List Command → σ →
    Except (Command × CommandError) Unit × σ
  | [], s => (.ok (), s)
  | c :: rest, s =>
    match c.apply target s with
    | (.error e, s) => (.error (c, e), s)
    | (.ok (), s) => applyAll target rest s

end TickEngine
