/-
  Ticks and runs.

  A tick runs the installed pipeline as the only task of a session and then
  applies its commands in order.  If the pipeline fails, no command is applied;
  if a command fails, those before it stay applied.  A run repeats ticks until
  an exit is asked for, the limit of ticks is reached, or a tick fails.

  * `Engine.runTick` is one tick, `Engine.goOn` what follows on its pipeline;
  * `Engine.runTimed` is a run, with the tick budget as the time of each tick, or
    else the time that a clock shows; `Engine.run` is one on a clock that stands
    still.
-/
import TickEngine.Engine.Basic
import TickEngine.Tasks.Program

namespace TickEngine

namespace Engine

variable {σ : Type}

/-- The result of the session of a tick: that of its task, if there is one. -/
def sessionResult (root : String) (results : List (Except ExecutionError Batch)) :
    Except ExecutionError Batch :=
  (Combiner.latest.fold results).getD
    (.error (.panicked root "root task produced no result"))

/-- How a tick goes on once the tree called `root` has come to `r` and left `w`.
    Answers the number of commands. -/
def goOn (g : Engine σ) (root : String) (r : Except ExecutionError Batch) (w : Workspace σ) :
    Except EngineError Nat × Engine σ :=
  let g := { g.withCells w.cells with tick := g.tick + 1, ambient := w.ambient }
  match sessionResult root [r] with
  | .error e => (.error (.execution g.tick e), g)
  | .ok batch =>
    match Command.applyAll commands batch.commands g with
    | (.error (c, e), g) => (.error (.command g.tick c.kind e), g)
    | (.ok (), g) => (.ok batch.size, g)

/-- Runs one tick that `dt` seconds lie before. -/
def runTick (g : Engine σ) (dt : Double) : Except EngineError Nat × Engine σ :=
  match g.root with
  | none => (.ok 0, { g with tick := g.tick + 1 })
  | some root =>
    let (r, w) := root.executeContained ⟨g.tick + 1, dt⟩ ⟨g.world.store.cells, g.ambient⟩
    g.goOn root.name r w

/-- Why a run did not end by itself. -/
inductive RunFailure where
  /-- A tick failed. -/
  | error (error : EngineError)
  /-- The configured rate allows no tick budget. -/
  | panic (panic : Panic)
  /-- Nothing ended the run in as many ticks as can be counted. -/
  | endless
  deriving DecidableEq, Repr

/-- Repeats ticks, `fuel` of them at most, and counts them from `count` on.  The
    time of a tick is given by the number of ticks before it. -/
def loop (dt : Nat → Double) : (fuel : Nat) → (count : UInt64) → Engine σ →
    Except RunFailure UInt64 × Engine σ
  | 0, _, g => (.error .endless, g)
  | fuel + 1, count, g =>
    if g.exitRequested then (.ok count, g)
    else
      match g.runTick (dt count.toNat) with
      | (.error e, g) => (.error (.error e), g)
      | (.ok _, g) =>
        if 0 < g.config.maxTicks ∧ g.config.maxTicks ≤ count + 1 then (.ok (count + 1), g)
        else loop dt fuel (count + 1) g

/-- The times of the ticks of a run: the budget, or if there is none what the
    clock shows. -/
def tickTimes (budget : Option Duration) (elapsed : Nat → Double) : Nat → Double :=
  match budget with
  | some d => fun _ => d.toSeconds
  | none => elapsed

/-- Runs ticks until an exit is asked for or the limit is reached.  Answers
    the number of ticks.  The clock shows `elapsed n` seconds between the tick
    after the first `n` and what came before it. -/
def runTimed (elapsed : Nat → Double) (g : Engine σ) : Except RunFailure UInt64 × Engine σ :=
  match g.config.budget with
  | .error p => (.error (.panic p), g)
  | .ok budget => loop (tickTimes budget elapsed) UInt64.size 0 g

/-- A run on a clock that stands still. -/
def run (g : Engine σ) : Except RunFailure UInt64 × Engine σ := g.runTimed fun _ => .ofNat 0

end Engine

end TickEngine
