/-
  The world: which entities are alive, what they own, and the storage of it.

  A `World` has the source of ids, the types that each live entity owns, the
  registered component types, and the store.

  * `World.registerType` registers a component type and makes its table;
  * `contains`, `types?`, `find?`, `get?`, `decode` look into the world.
-/
import TickEngine.Command.Basic
import TickEngine.Component.Registry
import TickEngine.Storage.Table

namespace TickEngine

/-- Entities, their component types, and the stored components. -/
structure World where
  ids : EntityIds := {}
  /-- The types that each live entity owns, ascending. -/
  owned : SortedMap Entity (List TypeId) := .empty
  registry : Registry := .empty
  store : Store := {}

namespace World

instance : Inhabited World := ⟨{}⟩

/-- Registers a component type and makes its table.  Answers whether the type
    is new; a type of another name under the same identifier is refused. -/
def registerType (w : World) (t : ComponentType) : Except ComponentError Bool × World :=
  let info := TypeInfo.of t
  match w.registry.register info with
  | .error e => (.error e, w)
  | .ok (added, registry) =>
    (.ok added, { w with registry, store := w.store.ensure info.id info.name })

/-- Reads a record through the registry. -/
def decode (w : World) (r : Record) : Except CommandError Component :=
  (w.registry.decode r).mapError .component

/-- Reads records through the registry; the first failure counts. -/
def decodeAll (w : World) (rs : List Record) : Except CommandError (List Component) :=
  rs.mapM w.decode

/-- Whether an entity is alive. -/
def contains (w : World) (e : Entity) : Bool := w.owned.contains e

/-- The types that a live entity owns, ascending. -/
def types? (w : World) (e : Entity) : Option (List TypeId) := w.owned.get? e

/-- The cell of an entity's component of a type. -/
def find? (w : World) (e : Entity) (t : TypeId) : Option CellRef := w.store.find? t e

/-- The value of an entity's component, for a reader of the type `t`. -/
def get? (w : World) (e : Entity) (t : ComponentType) : Option t.Data :=
  (w.find? e t.id).bind (·.readAs w.store.cells t)

/-- The live entities, ascending. -/
def entities (w : World) : List Entity := w.owned.keys

def entityCount (w : World) : Nat := w.owned.size

end World

end TickEngine
