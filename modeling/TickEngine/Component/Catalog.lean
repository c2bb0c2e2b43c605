/-
  Ready-made component types.

  Numbers (`x`, `y`, `lifetime`, `mass`), points of the plane (`position`,
  `velocity`), marks and texts (`tag`, `label`), a record with optional parts
  (`inventory`), a type that shares its name with another (`xAlias`), and one
  of whose values cannot all be written (`broken`).
-/
import TickEngine.Component.Basic

namespace TickEngine.Catalog

open Schema

/-- A type whose tag is its name, over data of its own. -/
def named (name : String) (shape : Shape) : ComponentType := ⟨name, name, shape⟩

def plane : Shape := .record (.ofList [("x", .single), ("y", .single)])

def x : ComponentType := named "X" (.newtype (.signed .bits32))

def y : ComponentType := named "Y" (.newtype (.signed .bits32))

/-- A type of its own under the name of `x`. -/
def xAlias : ComponentType := ⟨"XAlias", "X", .newtype .single⟩

def position : ComponentType := named "Position" plane

def velocity : ComponentType := named "Velocity" plane

def mass : ComponentType := named "Mass" (.newtype .single)

def tag : ComponentType := named "Tag" .unit

/-- Remaining ticks. -/
def lifetime : ComponentType := named "Lifetime" (.newtype (.unsigned .bits32))

def label : ComponentType := named "Label" (.newtype .text)

def inventory : ComponentType :=
  named "Inventory" (.record (.ofList [("items", .list (.unsigned .bits16)),
    ("owner", .option (.unsigned .bits64)), ("open", .bool)]))

/-- A type whose value `true` has no written form. -/
def broken : ComponentType := named "Broken" (.newtype .falseOnly)

/-- The types of the catalog. -/
def all : List ComponentType :=
  [x, y, xAlias, position, velocity, mass, tag, lifetime, label, inventory, broken]

/-- The type of the catalog with a tag. -/
def find? (tag : String) : Option ComponentType := all.find? (·.tag = tag)

end TickEngine.Catalog
