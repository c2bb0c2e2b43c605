/-
  Changes of single values: counting, moving, and ageing.

  * `addWrapping` adds to a whole number of 32 bits;
  * `moved` moves a point along a velocity for a time;
  * `aged` is the command that counts a lifetime down.
-/
import TickEngine.Command.Draft
import TickEngine.Component.Catalog

namespace TickEngine.Script

/-- Adds to the number in a component of 32 bits, wrapping around.  Other
    components stay. -/
def addWrapping (amount : Int) (c : Component) : Component :=
  match c with
  | ⟨⟨tag, name, .newtype (.signed .bits32)⟩, n⟩ =>
    ⟨⟨tag, name, .newtype (.signed .bits32)⟩, (n + BitVec.ofInt 32 amount : BitVec 32)⟩
  | ⟨⟨tag, name, .newtype (.unsigned .bits32)⟩, n⟩ =>
    ⟨⟨tag, name, .newtype (.unsigned .bits32)⟩, (n + BitVec.ofInt 32 amount : BitVec 32)⟩
  | c => c

/-- Moves a coordinate by a speed for a time. -/
def movedBy (dt position speed : Single) : Single := position + speed * dt

/-- Moves a point of the plane. -/
def moved (dt : Single) (p : Catalog.position.Data) (v : Catalog.velocity.Data) :
    Catalog.position.Data :=
  (movedBy dt p.1 v.1, movedBy dt p.2.1 v.2.1, ())

/-- The command for an entity with a remaining lifetime: it is counted down,
    and the entity destroyed on its last tick. -/
def aged (e : Entity) (remaining : BitVec 32) : Draft :=
  if remaining.toNat ≤ 1 then .despawn e
  else .update e (.component ⟨Catalog.lifetime, remaining - 1⟩)

end TickEngine.Script
