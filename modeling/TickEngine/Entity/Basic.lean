/-
  Entities, and the source of their ids.

  An `Entity` is a bare number; what it is follows from the components stored
  under it.  `EntityIds` hands the numbers out: the most recently released id
  first, else the next one that was never used.

  * `EntityIds.allocate`, `EntityIds.release` are the two transitions, and
    `release` ignores an id that was never handed out;
  * `EntityIds.count` is the number of ids in use.
-/
import TickEngine.Order.SortedMap

namespace TickEngine

/-! ## Entities -/

/-- The key under which components are stored. -/
structure Entity where
  /-- The entity's number. -/
  id : UInt64
  deriving DecidableEq, Repr, Inhabited

namespace Entity

/-- The entity that stands for no entity. -/
def invalid : Entity := ⟨0⟩

/-- Whether the entity can be alive at all. -/
def isValid (e : Entity) : Bool := e.id != 0

protected def toString (e : Entity) : String := s!"Entity({e.id.toNat})"

instance : ToString Entity := ⟨Entity.toString⟩

instance : Ranked Entity where
  rank e := e.id.toNat
  rank_injective := fun {a b} h => by
    obtain ⟨a⟩ := a
    obtain ⟨b⟩ := b
    exact congrArg mk (UInt64.toNat_inj.1 h)

end Entity

/-! ## The source of ids -/

/-- The ids handed out so far, and those that may be handed out again. -/
structure EntityIds where
  /-- The smallest id never handed out. -/
  next : UInt64 := 1
  /-- The released ids, the latest first. -/
  released : List UInt64 := []
  deriving DecidableEq, Repr, Inhabited

namespace EntityIds

/-- Hands out the latest released id, or the next unused one. -/
def allocate (ids : EntityIds) : Entity × EntityIds :=
  match ids.released with
  | id :: rest => (⟨id⟩, { ids with released := rest })
  | [] => (⟨ids.next⟩, { ids with next := ids.next + 1 })

/-- Takes an id back.  Ids that were never handed out are ignored; that the id
    is in use is the caller's part. -/
def release (ids : EntityIds) (e : Entity) : EntityIds :=
  if e.isValid ∧ e.id < ids.next then { ids with released := e.id :: ids.released } else ids

/-- The number of ids in use. -/
def count (ids : EntityIds) : UInt64 := ids.next - 1 - UInt64.ofNat ids.released.length

/-- The number of ids that wait to be handed out again. -/
def freeCount (ids : EntityIds) : Nat := ids.released.length

theorem allocate_of_released {ids : EntityIds} {id : UInt64} {rest : List UInt64}
    (h : ids.released = id :: rest) : ids.allocate = (⟨id⟩, { ids with released := rest }) := by
  simp [allocate, h]

theorem allocate_of_no_released {ids : EntityIds} (h : ids.released = []) :
    ids.allocate = (⟨ids.next⟩, { ids with next := ids.next + 1 }) := by
  simp [allocate, h]

end EntityIds

end TickEngine
