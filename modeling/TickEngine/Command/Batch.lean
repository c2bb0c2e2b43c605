/-
  Batches of commands.

  A `Batch` is the list of commands that a system, or a part of the pipeline,
  asks for in one tick.
-/
import TickEngine.Command.Basic

namespace TickEngine

/-- Commands in the order in which to perform them. -/
structure Batch where
  commands : List Command := []
  deriving DecidableEq, Repr, Inhabited

namespace Batch

def empty : Batch := {}

/-- Adds a command at the end. -/
def push (b : Batch) (c : Command) : Batch := ⟨b.commands ++ [c]⟩

/-- Adds the commands of another batch at the end. -/
def append (b other : Batch) : Batch := ⟨b.commands ++ other.commands⟩

instance : Append Batch := ⟨append⟩

def size (b : Batch) : Nat := b.commands.length

def isEmpty (b : Batch) : Bool := b.commands.isEmpty

@[simp] theorem commands_append (a b : Batch) : (a ++ b).commands = a.commands ++ b.commands := rfl

@[simp] theorem commands_empty : empty.commands = [] := rfl

@[simp] theorem commands_push (b : Batch) (c : Command) :
    (b.push c).commands = b.commands ++ [c] := rfl

end Batch

end TickEngine
