/-
  The live sets of one system.

  An `Access` holds one live set for each set that a system declares.  The
  engine keeps it up to date with `register` and `unregister`; a system only
  reads it.
-/
import TickEngine.Selection.LiveSet

namespace TickEngine

/-- The live sets of a system, in the order of their declarations. -/
structure Access where
  sets : List LiveSet := []

namespace Access

instance : Inhabited Access := ⟨{}⟩

/-- Starts the declared sets without rows; the first failure counts. -/
def bind? (owner : String) (specs : List SetSpec) (tables : Tables) :
    Except ComponentError Access :=
  (specs.mapM (LiveSet.bind? owner · tables)).map Access.mk

/-- Offers an entity to every set.  Answers whether some set admitted it. -/
def register (a : Access) (tables : Tables) (e : Entity) : Bool × Access :=
  let offers := a.sets.map (·.register tables e)
  (offers.any (·.1), ⟨offers.map (·.2)⟩)

/-- Drops an entity from every set. -/
def unregister (a : Access) (e : Entity) : Access := ⟨a.sets.map fun s => (s.unregister e).2⟩

/-- Whether some set admits the entity. -/
def contains (a : Access) (e : Entity) : Bool := a.sets.any (·.contains e)

/-- The set at a position. -/
def set? (a : Access) (i : Nat) : Option LiveSet := a.sets[i]?

/-- The rows of the set at a position; none if there is no such set. -/
def rows (a : Access) (i : Nat) : List Row :=
  match a.set? i with
  | some s => s.rows.values
  | none => []

/-- The number of entities that some set admits.  With one set that is the
    number of its rows; members of several sets count once. -/
def admittedCount (a : Access) : Nat :=
  match a.sets with
  | [] => 0
  | [only] => only.size
  | sets =>
    (sets.foldl (fun (seen : SortedMap Entity Unit) s =>
      s.rows.keys.foldl (fun seen e => seen.insert e ()) seen) .empty).size

end Access

end TickEngine
