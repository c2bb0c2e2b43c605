/-
  Component tables, and the store of all of them.

  There is one `Table` for each component type; it maps an entity to the cell
  of its component.  A `Store` holds the tables by type identifier, and the
  cells.

  * `Store.ensure` makes the table of a type once;
  * `Store.insert` stores a component for an entity that has none of the type,
    in a fresh cell, `Store.remove` takes the entity's cell out of a table, and
    `Store.find?` looks it up.
-/
import TickEngine.Entity.Basic
import TickEngine.Storage.Cell

namespace TickEngine

/-- The components of one type, by entity. -/
structure Table where
  typeId : TypeId
  name : String
  /-- The cell of each entity's component. -/
  cells : SortedMap Entity CellRef

namespace Table

def new (id : TypeId) (name : String) : Table := ⟨id, name, .empty⟩

/-- The cell of an entity's component. -/
def find? (t : Table) (e : Entity) : Option CellRef := t.cells.get? e

def size (t : Table) : Nat := t.cells.size

/-- The entities with a component in the table, ascending. -/
def entities (t : Table) : List Entity := t.cells.keys

end Table

/-- The tables of all component types, by identifier. -/
abbrev Tables := SortedMap TypeId Table

/-- The cell of an entity's component of a type. -/
def Tables.find? (tables : Tables) (id : TypeId) (e : Entity) : Option CellRef :=
  (tables.get? id).bind (·.find? e)

/-- The tables and the cells that they refer to. -/
structure Store where
  tables : Tables := .empty
  cells : Cells := .empty

namespace Store

instance : Inhabited Store := ⟨{}⟩

def table? (s : Store) (id : TypeId) : Option Table := s.tables.get? id

/-- Makes the table of a type, if there is none.  The name of an existing table
    stays. -/
def ensure (s : Store) (id : TypeId) (name : String) : Store :=
  if s.tables.contains id then s else { s with tables := s.tables.insert id (.new id name) }

/-- The cell of an entity's component of a type. -/
def find? (s : Store) (id : TypeId) (e : Entity) : Option CellRef := s.tables.find? id e

/-- Stores a component for an entity in the table of `id`, in a fresh cell.  An
    entity that has a component there keeps it, and the answer is `none`. -/
def insert (s : Store) (id : TypeId) (e : Entity) (c : Component) :
    Except ComponentError (Option CellRef) × Store :=
  match s.table? id with
  | none => (.error (.unknownType id), s)
  | some t =>
    if c.typeId ≠ t.typeId then (.error (.typeMismatch t.typeId c.typeId), s)
    else if (t.find? e).isSome then (.ok none, s)
    else
      let (r, cells) := s.cells.alloc c
      (.ok (some r), ⟨s.tables.insert id { t with cells := t.cells.insert e r }, cells⟩)

/-- Takes an entity's component out of the table of `id`.  Answers whether
    there was one. -/
def remove (s : Store) (id : TypeId) (e : Entity) : Bool × Store :=
  match s.table? id with
  | none => (false, s)
  | some t =>
    ((t.find? e).isSome,
      { s with tables := s.tables.insert id { t with cells := t.cells.erase e } })

end Store

end TickEngine
