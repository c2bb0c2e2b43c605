/-
  Live component sets.

  A `LiveSet` is a declaration with one `Row` for each admitted entity.  A row
  captures the cells that the tables held for its entity when the entity was
  last offered to the set, in the order of the declared types.

  * `LiveSet.bind?` starts a set on the tables of its types;
  * `LiveSet.register` offers an entity: it gets a fresh row if it qualifies
    now, and loses its row otherwise;
  * `LiveSet.unregister` drops an entity's row.
-/
import TickEngine.Selection.SetSpec
import TickEngine.Storage.Table

namespace TickEngine

/-! ## Rows -/

/-- An admitted entity with its components of the declared types. -/
structure Row where
  entity : Entity
  /-- The captured cells, in the order of the declared types. -/
  components : List CellRef
  deriving DecidableEq, Repr

namespace Row

/-- The captured cell of a type. -/
def get? (r : Row) (id : TypeId) : Option CellRef := r.components.find? (·.typeId = id)

/-- Whether the row captured a component under the identifier of `t`. -/
def has (r : Row) (t : ComponentType) : Bool := (r.get? t.id).isSome

/-- The row's value of the type `t`. -/
def readAs (r : Row) (cells : Cells) (t : ComponentType) : Option t.Data :=
  (r.get? t.id).bind (·.readAs cells t)

/-- Overwrites the row's value of the type `t`. -/
def writeAs (r : Row) (cells : Cells) (t : ComponentType) (x : t.Data) : Bool × Cells :=
  match r.get? t.id with
  | some c => c.writeAs cells t x
  | none => (false, cells)

/-- The entity and what the captured cells hold now. -/
def contents (r : Row) (cells : Cells) : Entity × List Component :=
  (r.entity, r.components.filterMap (·.read cells))

end Row

/-! ## Sets -/

/-- A declared set with the rows that it admits. -/
structure LiveSet where
  spec : SetSpec
  rows : SortedMap Entity Row := .empty

namespace LiveSet

/-- The cells that the tables hold for an entity, in the order of `types`. -/
def capture (types : List TypeId) (tables : Tables) (e : Entity) : List CellRef :=
  types.filterMap (tables.find? · e)

/-- Starts a set without rows.  Every declared type needs a table. -/
def bind? (owner : String) (spec : SetSpec) (tables : Tables) : Except ComponentError LiveSet :=
  if spec.isEmpty then .error (.emptySet owner)
  else
    match spec.types.find? (fun t => !tables.contains t) with
    | some t => .error (.unknownType t)
    | none => .ok { spec }

/-- Offers an entity to the set.  Answers whether it is a member now. -/
def register (s : LiveSet) (tables : Tables) (e : Entity) : Bool × LiveSet :=
  let components := capture s.spec.types tables e
  if s.spec.admits (components.map (·.typeId)) then
    (true, { s with rows := s.rows.insert e ⟨e, components⟩ })
  else (false, { s with rows := s.rows.erase e })

/-- Drops an entity's row.  Answers whether there was one. -/
def unregister (s : LiveSet) (e : Entity) : Bool × LiveSet :=
  (s.rows.contains e, { s with rows := s.rows.erase e })

/-- Whether an entity is a member. -/
def contains (s : LiveSet) (e : Entity) : Bool := s.rows.contains e

def row? (s : LiveSet) (e : Entity) : Option Row := s.rows.get? e

def size (s : LiveSet) : Nat := s.rows.size

def isEmpty (s : LiveSet) : Bool := s.rows.isEmpty

end LiveSet

end TickEngine
