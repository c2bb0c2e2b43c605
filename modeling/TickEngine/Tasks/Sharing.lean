/-
  Shared ownership with counted handles.

  An `Allocation` counts the strong and the weak handles on its payload.  The
  payload stays while there is a strong handle; a weak handle can be turned
  into a strong one only while the payload stays.

  * `Allocation.clone`, `release`, `downgrade`, `cloneWeak`, `releaseWeak`,
    `upgrade?`, `unwrap?` are the operations on one allocation;
  * a `Heap` holds many allocations and counts the payloads that are gone.
-/
namespace TickEngine

/-- A payload and the numbers of its handles. -/
structure Allocation (α : Type) where
  payload : Option α
  strong : Nat
  weak : Nat
  deriving DecidableEq, Repr

namespace Allocation

variable {α : Type}

/-- A payload with one strong handle. -/
def new (x : α) : Allocation α := ⟨some x, 1, 0⟩

/-- Makes one more strong handle. -/
def clone (a : Allocation α) : Allocation α := { a with strong := a.strong + 1 }

/-- Gives up a strong handle, and the payload with the last one. -/
def release (a : Allocation α) : Allocation α :=
  { a with
    strong := a.strong - 1
    payload := if a.strong = 1 then none else a.payload }

/-- Makes one more weak handle. -/
def downgrade (a : Allocation α) : Allocation α := { a with weak := a.weak + 1 }

/-- Makes one more weak handle out of a weak one. -/
def cloneWeak (a : Allocation α) : Allocation α := { a with weak := a.weak + 1 }

/-- Gives up a weak handle. -/
def releaseWeak (a : Allocation α) : Allocation α := { a with weak := a.weak - 1 }

/-- Makes a strong handle out of a weak one, while there is another strong
    one. -/
def upgrade? (a : Allocation α) : Option (Allocation α) :=
  if a.strong = 0 then none else some a.clone

/-- Takes the payload out through the only strong handle. -/
def unwrap? (a : Allocation α) : Option (α × Allocation α) :=
  if a.strong = 1 then a.payload.map fun x => (x, { a with strong := 0, payload := none })
  else none

end Allocation

/-- A strong handle, by the place of its allocation. -/
structure Strong where
  index : Nat
  deriving DecidableEq, Repr

/-- A weak handle, which may be on no allocation at all. -/
structure Weak where
  index : Option Nat
  deriving DecidableEq, Repr

/-- Allocations, and the number of payloads that were dropped. -/
structure Heap (α : Type) where
  allocations : Array (Allocation α) := #[]
  dropped : Nat := 0

namespace Heap

variable {α : Type}

instance : Inhabited (Heap α) := ⟨{}⟩

/-- Changes one allocation. -/
def modify (h : Heap α) (i : Nat) (f : Allocation α → Allocation α) : Heap α :=
  { h with allocations := h.allocations.modify i f }

/-- Moves a payload into a new allocation. -/
def new (h : Heap α) (x : α) : Strong × Heap α :=
  (⟨h.allocations.size⟩, { h with allocations := h.allocations.push (.new x) })

/-- The allocation of a strong handle. -/
def get? (h : Heap α) (s : Strong) : Option (Allocation α) := h.allocations[s.index]?

/-- The number of strong handles beside a weak one. -/
def strongCount (h : Heap α) (w : Weak) : Nat :=
  ((w.index.bind (h.allocations[·]?)).map (·.strong)).getD 0

/-- Makes one more strong handle. -/
def clone (h : Heap α) (s : Strong) : Strong × Heap α := (s, h.modify s.index .clone)

/-- Gives up a strong handle.  The payload is dropped with the last one. -/
def release (h : Heap α) (s : Strong) : Heap α :=
  let last := ((h.get? s).map (·.strong)) = some 1
  { h.modify s.index .release with dropped := if last then h.dropped + 1 else h.dropped }

/-- Makes a weak handle. -/
def downgrade (h : Heap α) (s : Strong) : Weak × Heap α :=
  (⟨some s.index⟩, h.modify s.index .downgrade)

/-- Makes one more weak handle. -/
def cloneWeak (h : Heap α) (w : Weak) : Weak × Heap α :=
  (w, (w.index.map fun i => h.modify i .cloneWeak).getD h)

/-- Gives up a weak handle. -/
def releaseWeak (h : Heap α) (w : Weak) : Heap α :=
  (w.index.map fun i => h.modify i .releaseWeak).getD h

/-- Makes a strong handle out of a weak one, if the payload is still there. -/
def upgrade? (h : Heap α) (w : Weak) : Option (Strong × Heap α) := do
  let i ← w.index
  let a ← h.allocations[i]?
  let a ← a.upgrade?
  return (⟨i⟩, h.modify i fun _ => a)

/-- Takes the payload out through the only strong handle, and drops it
    outside. -/
def unwrap? (h : Heap α) (s : Strong) : Option (α × Heap α) := do
  let a ← h.get? s
  let (x, a) ← a.unwrap?
  return (x, { h.modify s.index (fun _ => a) with dropped := h.dropped + 1 })

end Heap

end TickEngine
