/-
  The component types that a world knows.

  Records name their type by identifier alone.  A `Registry` maps each
  identifier to the type registered first under it (`TypeInfo`), and reads
  records through that type; an identifier that was never registered is
  refused.

  * `Registry.register` adds a type once; a different name under the same
    identifier is a collision;
  * `Registry.decode` reads a record.
-/
import TickEngine.Component.Basic

namespace TickEngine

/-- What is registered under an identifier. -/
structure TypeInfo where
  id : TypeId
  name : String
  /-- The type whose values the records hold. -/
  type : ComponentType
  deriving DecidableEq, Repr

namespace TypeInfo

/-- The information of a type under its own identifier and name. -/
def of (t : ComponentType) : TypeInfo := ⟨t.id, t.name, t⟩

/-- Reads a record of the identifier. -/
def decode (info : TypeInfo) (r : Record) : Except ComponentError Component :=
  if r.typeId = info.id then (info.type.decode r.data).map (Component.mk info.type)
  else .error (.typeMismatch info.id r.typeId)

end TypeInfo

/-- The registered component types, by identifier. -/
abbrev Registry := SortedMap TypeId TypeInfo

namespace Registry

/-- Registers a type under an identifier.  A second registration of the same
    name changes nothing and answers `false`. -/
def register (reg : Registry) (info : TypeInfo) : Except ComponentError (Bool × Registry) :=
  match reg.get? info.id with
  | none => .ok (true, reg.insert info.id info)
  | some existing =>
    if existing.name = info.name then .ok (false, reg)
    else .error (.typeIdCollision existing.name info.name)

/-- Reads a record through the type registered under its identifier. -/
def decode (reg : Registry) (r : Record) : Except ComponentError Component :=
  match reg.get? r.typeId with
  | some info => info.decode r
  | none => .error (.unknownType r.typeId)

end Registry

end TickEngine
