/-
  Running a pipeline for one tick.

  A node runs its own system, then all parallel children, then the serial
  children one by one; the batch is the concatenation of theirs in that order.
  A failure ends a node: what comes later does not run and the batch is lost.
  Parallel siblings do not stop each other, and `BatchCombiner` joins their
  results.  A panic passes up to the nearest parallel child above it, or to
  the root, where it is turned into an error that names that node
  (`Fault.contain`).

  * `Pipeline.execute` runs a tree and lets a panic pass;
  * `Pipeline.executeContained` turns it into an error.

  Parallel children run here in their order in the list, which is one of the
  orders in which they can complete.
-/
import TickEngine.Pipeline.Tree

namespace TickEngine

/-! ## Failures -/

/-- Why a pipeline gave no batch. -/
inductive ExecutionError where
  /-- The system of a node reported an error. -/
  | system (node : String) (error : SystemError)
  /-- A batch could not grow. -/
  | batchGrowth
  | panicked (node : String) (message : String)
  deriving DecidableEq, Repr

def ExecutionError.message : ExecutionError → String
  | system node error => s!"system '{node}' failed: {error.message}"
  | batchGrowth => batchGrowthMessage
  | panicked node message => s!"pipeline node '{node}' panicked: {message}"

/-- What stops a node: an error, or a panic on its way up. -/
inductive Fault where
  | error (error : ExecutionError)
  | panic (panic : Panic)
  deriving DecidableEq, Repr

/-- The error of a fault that reaches the node called `name`, which lets no
    panic pass. -/
def Fault.contain (name : String) : Fault → ExecutionError
  | error e => e
  | panic p => .panicked name p.message

/-! ## Combining parallel results -/

/-- The batches of parallel children so far, or the first error among them. -/
structure BatchCombiner where
  batch : Batch := {}
  error : Option ExecutionError := none
  deriving DecidableEq, Repr

namespace BatchCombiner

/-- Takes in the result of one more child.  Nothing counts after an error. -/
def combine (c : BatchCombiner) (r : Except ExecutionError Batch) : BatchCombiner :=
  match c.error, r with
  | some _, _ => c
  | none, .ok b => { c with batch := c.batch ++ b }
  | none, .error e => { c with error := some e }

/-- The combined batch, or the first error. -/
def result (c : BatchCombiner) : Except ExecutionError Batch :=
  match c.error with
  | some e => .error e
  | none => .ok c.batch

end BatchCombiner

/-! ## Execution -/

/-- Runs the system of a stage. -/
def Stage.run {σ : Type} (ctx : TickContext) (s : Stage σ) (w : Workspace σ) :
    Except Fault Batch × Workspace σ :=
  match s.system with
  | none => (.ok {}, w)
  | some system =>
    let u := system.update ctx s.access w
    (match u.outcome with
      | .batch b => .ok b
      | .failed e => .error (.error (.system s.name e))
      | .panicked p => .error (.panic p), u.step w.cells)

namespace Pipeline

variable {σ : Type}

mutual

/-- Runs a tree.  A panic of the root, or of a serial descendant, passes. -/
def execute (ctx : TickContext) : Pipeline σ → Workspace σ → Except Fault Batch × Workspace σ
  | node s ps ss, w =>
    match s.run ctx w with
    | (.error f, w) => (.error f, w)
    | (.ok own, w) =>
      match fanOut ctx ps {} w with
      | (c, w) =>
        match c.result with
        | .error e => (.error (.error e), w)
        | .ok inParallel =>
          match inTurn ctx ss w with
          | (.error f, w) => (.error f, w)
          | (.ok inSerial, w) => (.ok (own ++ inParallel ++ inSerial), w)

/-- Runs all the trees, whatever the others do, and combines their results. -/
def fanOut (ctx : TickContext) : List (Pipeline σ) → BatchCombiner → Workspace σ →
    BatchCombiner × Workspace σ
  | [], c, w => (c, w)
  | p :: rest, c, w =>
    match execute ctx p w with
    | (r, w) => fanOut ctx rest (c.combine (r.mapError (Fault.contain p.name))) w

/-- Runs the trees one after the other, up to the first failure. -/
def inTurn (ctx : TickContext) : List (Pipeline σ) → Workspace σ →
    Except Fault Batch × Workspace σ
  | [], w => (.ok {}, w)
  | p :: rest, w =>
    match execute ctx p w with
    | (.error f, w) => (.error f, w)
    | (.ok b, w) =>
      match inTurn ctx rest w with
      | (.error f, w) => (.error f, w)
      | (.ok bs, w) => (.ok (b ++ bs), w)

end

/-- Runs a tree that lets no panic pass. -/
def executeContained (ctx : TickContext) (p : Pipeline σ) (w : Workspace σ) :
    Except ExecutionError Batch × Workspace σ :=
  let (r, w) := p.execute ctx w
  (r.mapError (Fault.contain p.name), w)

end Pipeline

end TickEngine
