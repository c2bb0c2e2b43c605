/-
  Cells, the places that hold stored components.

  A cell has an identity (`CellId`) and keeps it while its component changes,
  so every holder of a `CellRef` sees the latest component.  `Cells` holds the
  contents of all cells ever made; cells are never taken away.

  * `Cells.alloc` makes a cell, `CellRef.read` and `CellRef.readAs` look into
    one;
  * `CellRef.writeAs` changes the value of a component whose type it names,
    `CellRef.replace` the component, for one of the same identifier.
-/
import TickEngine.Component.Basic

namespace TickEngine

/-- The identity of a cell. -/
structure CellId where
  index : Nat
  deriving DecidableEq, Repr, Inhabited

/-- A handle on a cell, with the identifier of the type stored in it. -/
structure CellRef where
  typeId : TypeId
  cell : CellId
  deriving DecidableEq, Repr, Inhabited

/-- The contents of all cells, by identity. -/
structure Cells where
  contents : Array Component
  deriving DecidableEq

namespace Cells

def empty : Cells := ⟨#[]⟩

instance : Inhabited Cells := ⟨empty⟩

/-- What a cell holds. -/
def get? (cells : Cells) (id : CellId) : Option Component := cells.contents[id.index]?

/-- Puts a component into a cell. -/
def set (cells : Cells) (id : CellId) (c : Component) : Cells :=
  ⟨cells.contents.setIfInBounds id.index c⟩

/-- Makes a cell that holds `c`. -/
def alloc (cells : Cells) (c : Component) : CellRef × Cells :=
  (⟨c.typeId, ⟨cells.contents.size⟩⟩, ⟨cells.contents.push c⟩)

theorem get?_set (cells : Cells) (id id' : CellId) (c : Component) :
    (cells.set id c).get? id' =
      if id = id' then (cells.get? id).map fun _ => c else cells.get? id' := by
  obtain ⟨i⟩ := id
  obtain ⟨j⟩ := id'
  simp only [get?, set, Array.getElem?_setIfInBounds, CellId.mk.injEq]
  split
  · rename_i h
    subst h
    split
    · rename_i hlt
      simp [hlt]
    · rename_i hlt
      simp [Array.getElem?_eq_none (Nat.le_of_not_lt hlt)]
  · rfl

theorem get?_alloc (cells : Cells) (c : Component) (id : CellId) :
    (cells.alloc c).2.get? id =
      if id.index = cells.contents.size then some c else cells.get? id := by
  simp only [get?, alloc, Array.getElem?_push]

end Cells

namespace CellRef

def read (r : CellRef) (cells : Cells) : Option Component := cells.get? r.cell

/-- The value in the cell, for a reader of the type `t`. -/
def readAs (r : CellRef) (cells : Cells) (t : ComponentType) : Option t.Data :=
  (r.read cells).bind (·.as? t)

/-- Overwrites the value in the cell, if it is of the type `t`.  Answers
    whether it was. -/
def writeAs (r : CellRef) (cells : Cells) (t : ComponentType) (x : t.Data) : Bool × Cells :=
  if (r.readAs cells t).isSome then (true, cells.set r.cell ⟨t, x⟩) else (false, cells)

/-- Overwrites the component in the cell, and gives the old one.  A component
    under another identifier is refused. -/
def replace (r : CellRef) (cells : Cells) (c : Component) :
    Except ComponentError (Option Component) × Cells :=
  if c.typeId = r.typeId then (.ok (r.read cells), cells.set r.cell c)
  else (.error (.typeMismatch r.typeId c.typeId), cells)

/-- The text of a handle, which does not look into the cell. -/
def text (r : CellRef) : String :=
  "ComponentRef \x7b type_id: ComponentTypeId(" ++ toString r.typeId.hash.toNat ++ "), .. \x7d"

end CellRef

end TickEngine
