/-
  A pipeline on the workers of a pool.

  Each node with parallel children hands them in as the tasks of a session and
  waits for it.  The surroundings are the workspace, the results are what
  children give that let no panic pass.

  * `Pipeline.code` is what a thread does that runs a tree;
  * `Pipeline.contained` lets no panic pass, `Pipeline.alone` hands that in as
    the only task of a session.
-/
import TickEngine.Engine.Run
import TickEngine.Tasks.Machine

namespace TickEngine

/-- What runs on the pool while a pipeline does. -/
abbrev PipelineCode (σ : Type) := Code (Workspace σ) (Except ExecutionError Batch)

namespace Pipeline

variable {σ : Type}

mutual

/-- Runs a tree and goes on with its result.  If the stage fails, be it with an
    error or with a panic, no child runs. -/
def code (ctx : TickContext) : Pipeline σ → (Except Fault Batch → PipelineCode σ) → PipelineCode σ
  | node s ps ss, next =>
    .act (fun w => (s.run ctx w).2) fun w =>
      match (s.run ctx w).1 with
      | .error f => next (.error f)
      | .ok own =>
        let onward (inParallel : Batch) := codeInTurn ctx ss fun r =>
          next (r.map (own ++ inParallel ++ ·))
        if ps.isEmpty then onward {}
        else codeFanOut ctx ps (.wait 0 fun results =>
          match (results.foldl BatchCombiner.combine {}).result with
          | .error e => next (.error (.error e))
          | .ok inParallel => onward inParallel)

/-- Hands in all the trees as tasks. -/
def codeFanOut (ctx : TickContext) : List (Pipeline σ) → PipelineCode σ → PipelineCode σ
  | [], next => next
  | p :: rest, next =>
    .hand 0 (code ctx p fun r => .value (r.mapError (Fault.contain p.name)))
      (codeFanOut ctx rest next)

/-- Runs the trees one after the other, up to the first failure. -/
def codeInTurn (ctx : TickContext) :
    List (Pipeline σ) → (Except Fault Batch → PipelineCode σ) → PipelineCode σ
  | [], next => next (.ok {})
  | p :: rest, next =>
    code ctx p fun r =>
      match r with
      | .error f => next (.error f)
      | .ok b => codeInTurn ctx rest fun r => next (r.map (b ++ ·))

end

/-- Runs a tree that lets no panic pass. -/
def contained (ctx : TickContext) (p : Pipeline σ) : PipelineCode σ :=
  p.code ctx fun r => .value (r.mapError (Fault.contain p.name))

/-- Runs a tree as the only task of a session. -/
def alone (ctx : TickContext) (p : Pipeline σ) : PipelineCode σ :=
  .hand 0 (p.contained ctx) (.wait 0 fun results => .value (Engine.sessionResult p.name results))

end Pipeline

end TickEngine
