/-
  A fixed pool of workers with a slot for each.

  A worker takes its tasks from its own slot.  A task is handed to the first
  idle slot; if there is none, a caller that is itself one of the workers runs
  the task at once, and any other caller waits.

  * `Pool.enqueue` says where a task goes (`Placement`);
  * `Pool.finish` ends the task of a worker, `Pool.close` runs what was
    accepted when the pool is given up.
-/
namespace TickEngine

inductive SlotState where
  | idle
  /-- A caller is about to put a task in. -/
  | claimed
  /-- There is a task for the worker, or the worker runs it. -/
  | assigned
  deriving DecidableEq, Repr

/-- The hand-off place of one worker. -/
structure Slot (τ : Type) where
  state : SlotState := .idle
  task : Option τ := none
  deriving DecidableEq, Repr

/-- The slots of the workers, and whether the pool is in use. -/
structure Pool (τ : Type) where
  slots : List (Slot τ)
  running : Bool := true
  deriving DecidableEq, Repr

/-- Who hands in a task. -/
inductive Caller where
  | outside
  | worker (index : Nat)
  deriving DecidableEq, Repr

/-- Where a task goes. -/
inductive Placement where
  | slot (index : Nat)
  /-- The caller runs the task itself. -/
  | inline
  /-- The caller waits for an idle slot. -/
  | wait
  deriving DecidableEq, Repr

namespace Pool

variable {τ : Type}

/-- A pool of workers, of which there is at least one. -/
def new (workers : Nat) : Pool τ := { slots := List.replicate (max workers 1) {} }

def workerCount (p : Pool τ) : Nat := p.slots.length

/-- The number of workers whose slot is not idle. -/
def busy (p : Pool τ) : Nat := p.slots.countP (·.state ≠ .idle)

/-- The first idle slot. -/
def firstIdle? (p : Pool τ) : Option Nat := p.slots.findIdx? (·.state = .idle)

/-- Hands in a task. -/
def enqueue (p : Pool τ) (caller : Caller) (task : τ) : Placement × Pool τ :=
  match p.firstIdle? with
  | some i => (.slot i, { p with slots := p.slots.set i ⟨.assigned, some task⟩ })
  | none =>
    match caller with
    | .worker _ => (.inline, p)
    | .outside => (.wait, p)

/-- Ends the task of a worker. -/
def finish (p : Pool τ) (i : Nat) : Pool τ := { p with slots := p.slots.set i {} }

def workerName (i : Nat) : String := s!"engine-worker-{i}"

/-- The worker that runs a task handed in by `caller`. -/
def worker? (caller : Caller) : Placement → Option Nat
  | .slot i => some i
  | .inline =>
    match caller with
    | .worker i => some i
    | .outside => none
  | .wait => none

def text (p : Pool τ) : String :=
  "WorkerPool \x7b workers: " ++ toString p.workerCount ++ ", busy: " ++ toString p.busy ++ " \x7d"

/-- Hands in tasks from outside, one after the other, and gives those that
    ran.  When no slot is idle, the first worker ends its task. -/
def handAll : List τ → Pool τ → List τ × Pool τ
  | [], p => ([], p)
  | t :: rest, p =>
    match p.enqueue .outside t with
    | (.slot _, p) => handAll rest p
    | (_, p) =>
      let done := (p.slots.head?.bind (·.task)).toList
      let (ran, p) := handAll rest ((p.finish 0).enqueue .outside t).2
      (done ++ ran, p)

/-- Gives up the pool: workers end the tasks in their slots. -/
def close (p : Pool τ) : List τ × Pool τ :=
  (p.slots.filterMap (·.task), { slots := p.slots.map fun _ => {}, running := false })

end Pool

end TickEngine
