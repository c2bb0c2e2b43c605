/-
  Declarations of component sets.

  A `SetSpec` lists component types and says whether an entity must own all of
  them or at least one.

  * `SetSpec.intersect` and `SetSpec.unite` declare a list of types; the
    declared types are kept ascending and without repeats;
  * `SetSpec.admits` decides whether an entity qualifies from the types that
    it owns.
-/
import TickEngine.Component.TypeId

namespace TickEngine

/-- How a set combines its component types. -/
inductive SetOp where
  /-- An entity owns every declared type. -/
  | intersect
  /-- An entity owns at least one declared type. -/
  | unite
  deriving DecidableEq, Repr, Inhabited

/-- Decides membership from the number of declared types and the number of
    those that are owned. -/
def SetOp.admits (op : SetOp) (declared owned : Nat) : Bool :=
  match op with
  | intersect => 0 < declared && owned == declared
  | unite => 0 < owned

def SetOp.word : SetOp → String
  | intersect => "Intersect"
  | unite => "Unite"

/-- A declared component set. -/
structure SetSpec where
  op : SetOp
  /-- The declared types. -/
  types : List TypeId
  deriving DecidableEq, Repr, Inhabited

namespace SetSpec

def new (op : SetOp) : SetSpec := ⟨op, []⟩

/-- Declares one more type. -/
def declare (s : SetSpec) (t : TypeId) : SetSpec := { s with types := t.place s.types }

/-- The set of entities that own all of the types. -/
def intersect (types : List TypeId) : SetSpec := types.foldl declare (new .intersect)

/-- The set of entities that own at least one of the types. -/
def unite (types : List TypeId) : SetSpec := types.foldl declare (new .unite)

/-- Whether a search for the type among the declared ones finds it. -/
def declares (s : SetSpec) (t : TypeId) : Bool := (Spot.search t s.types).isFound

/-- Whether no type is declared. -/
def isEmpty (s : SetSpec) : Bool := s.types.isEmpty

/-- Whether an entity that owns the types `owned` qualifies. -/
def admits (s : SetSpec) (owned : List TypeId) : Bool :=
  s.op.admits s.types.length (s.types.countP owned.contains)

def text (s : SetSpec) : String :=
  "SetSpec \x7b op: " ++ s.op.word ++ ", types: ["
    ++ ", ".intercalate (s.types.map fun t => "ComponentTypeId(" ++ toString t.hash.toNat ++ ")")
    ++ "] \x7d"

end SetSpec

end TickEngine
