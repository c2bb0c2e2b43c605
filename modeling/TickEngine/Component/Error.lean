/-
  What can go wrong with component types, records and sets.
-/
import TickEngine.Component.TypeId

namespace TickEngine

/-- Errors of component registration, storage and set construction. -/
inductive ComponentError where
  /-- The component type was never registered. -/
  | unknownType (id : TypeId)
  /-- Two differently named types have one identifier. -/
  | typeIdCollision (existing new : String)
  /-- A value or record of one type stands where another is expected. -/
  | typeMismatch (expected actual : TypeId)
  /-- A set was declared without component types. -/
  | emptySet (owner : String)
  /-- The component has no written form. -/
  | encode
  /-- The bytes are no component of the type. -/
  | decode
  deriving DecidableEq, Repr

/-- The wording of an error.  What the codec has to say is left open. -/
def ComponentError.message : ComponentError → String
  | unknownType id => s!"unknown component type {id}"
  | typeIdCollision existing new =>
    s!"component type id collision between '{existing}' and '{new}'"
  | typeMismatch expected actual =>
    s!"component type mismatch: expected {expected}, got {actual}"
  | emptySet owner => s!"component set declared by '{owner}' has no component types"
  | encode => "failed to encode component: <codec>"
  | decode => "failed to decode component: <codec>"

end TickEngine
