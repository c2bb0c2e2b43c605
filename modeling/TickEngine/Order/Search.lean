/-
  Searching ascending lists.

  `Spot.search` looks for a key by halving the part of the list in which it can
  be.  It ends at the index of the key, or at the index at which the key is to
  be inserted.
-/
import TickEngine.Order.SortedMap

namespace TickEngine

/-- Where a search in an ascending list ends. -/
inductive Spot where
  /-- The key is at this index. -/
  | found (index : Nat)
  /-- The key is not in the list, and belongs at this index. -/
  | missing (index : Nat)
  deriving DecidableEq, Repr

namespace Spot

variable {κ : Type} [Ranked κ]

def isFound : Spot → Bool
  | found _ => true
  | missing _ => false

/-- Halves the part of a list that has `size` keys from the index `base` on,
    until one key is left.  The lower half is kept if the upper one starts with
    a key beyond the wanted one. -/
def narrow (k : κ) (ks : List κ) (base size : Nat) : Nat :=
  if size ≤ 1 then base
  else if (ks[base + size / 2]?).any fun k' => rank k < rank k' then
    narrow k ks base (size - size / 2)
  else narrow k ks (base + size / 2) (size - size / 2)
termination_by size

/-- Looks for a key in an ascending list. -/
def search (k : κ) (ks : List κ) : Spot :=
  let i := narrow k ks 0 ks.length
  match ks[i]? with
  | none => missing i
  | some k' =>
    if rank k' = rank k then found i
    else if rank k' < rank k then missing (i + 1)
    else missing i

end Spot

end TickEngine
