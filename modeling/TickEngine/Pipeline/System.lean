/-
  Systems: what runs once in every tick.

  A `System` declares its component sets and has an `update`, which sees the
  rows of those sets and answers with an `Outcome`, that is commands, an error
  or a panic.  Besides, an update may change the values of cells (`Write`) and
  the surroundings that all systems of a pipeline share, of any type `σ`.  It
  cannot change what entities exist or what they own.

  * `System.new` is a system with the usual way to keep its sets up to date;
  * `Update.step` is what an update leaves behind.
-/
import TickEngine.Command.Batch
import TickEngine.Selection.Access
import TickEngine.Tasks.Panic
import TickEngine.Text.Quoted

namespace TickEngine

/-! ## Outcomes -/

/-- What an update is told about the tick. -/
structure TickContext where
  /-- The number of the tick. -/
  tick : UInt64
  /-- The seconds since the tick before. -/
  dt : Double
  deriving DecidableEq, Repr

/-- An error that a system reports. -/
structure SystemError where
  message : String
  deriving DecidableEq, Repr

/-- The wording of a batch that could not grow, as memory ran out. -/
def batchGrowthMessage : String :=
  "failed to grow command batch: memory allocation failed because the computed capacity exceeded the collection's maximum"

/-- The error of a system that could not read or write a component. -/
def SystemError.ofComponent (e : ComponentError) : SystemError := ⟨e.message⟩

/-- The error of a system whose batch could not grow. -/
def SystemError.batchGrowth : SystemError := ⟨batchGrowthMessage⟩

/-- How an update ends. -/
inductive Outcome where
  | batch (commands : Batch)
  | failed (error : SystemError)
  | panicked (panic : Panic)
  deriving DecidableEq, Repr

/-- A change of the value in a cell.  It takes place if the cell holds a
    component of the same type. -/
structure Write where
  target : CellRef
  component : Component

/-- Makes a change of a value. -/
def Write.apply (w : Write) (cells : Cells) : Cells :=
  (w.target.writeAs cells w.component.type w.component.value).2

/-- What the systems of a pipeline may change while it runs. -/
structure Workspace (σ : Type) where
  cells : Cells
  /-- The surroundings that the systems share. -/
  ambient : σ

/-- What an update does: its end, its writes in order, and the surroundings
    after it. -/
structure Update (σ : Type) where
  outcome : Outcome
  writes : List Write := []
  ambient : σ

/-- What an update leaves behind, whatever its end. -/
def Update.step {σ : Type} (u : Update σ) (cells : Cells) : Workspace σ :=
  ⟨u.writes.foldl (fun cells w => w.apply cells) cells, u.ambient⟩

/-! ## Systems -/

/-- A unit of work of one tick. -/
structure System (σ : Type) where
  name : String
  /-- The declared component sets. -/
  sets : List SetSpec
  /-- Runs one tick. -/
  update : TickContext → Access → Workspace σ → Update σ
  /-- Offers an entity to the sets. -/
  register : Tables → Entity → Access → Bool × Access
  /-- Withdraws an entity from the sets. -/
  unregister : Entity → Access → Access

namespace System

variable {σ : Type}

/-- A system that offers every entity to all its sets, and withdraws it from
    all of them. -/
def new (name : String) (sets : List SetSpec)
    (update : TickContext → Access → Workspace σ → Update σ) : System σ :=
  { name, sets, update
    register := fun tables e a => a.register tables e
    unregister := fun e a => a.unregister e }

def text (s : System σ) : String :=
  "FnSystem \x7b name: " ++ Text.quoted s.name ++ ", sets: ["
    ++ ", ".intercalate (s.sets.map SetSpec.text) ++ "], .. \x7d"

end System

end TickEngine
