/-
  Tasks that open sessions of further tasks.

  A `Program` is what one task does: it may have effects, open sessions of
  tasks and wait for their results, and it ends with a value or a panic.  A
  `Combiner` folds the results of a session; a task that panics contributes
  nothing.  `Program.run` performs every task at the point where it is handed
  in.
-/
import TickEngine.Tasks.Panic

namespace TickEngine

/-! ## Combining results -/

/-- How the results of a session are folded, one by one. -/
structure Combiner (ρ α : Type) where
  start : α
  combine : α → ρ → α

namespace Combiner

variable {ρ α : Type}

/-- Keeps only the latest result. -/
def latest : Combiner ρ (Option ρ) := ⟨none, fun _ r => some r⟩

/-- Keeps every result, in the order of completion. -/
def collect : Combiner ρ (List ρ) := ⟨[], fun rs r => rs ++ [r]⟩

/-- Adds up whole numbers. -/
def sum : Combiner Int Int := ⟨0, (· + ·)⟩

/-- Folds results in order. -/
def fold (c : Combiner ρ α) (results : List ρ) : α := results.foldl c.combine c.start

end Combiner

/-! ## Programs -/

/-- What a task does.  Its values are whole numbers, its effects of any
    type. -/
inductive Program (ε : Type) where
  | value (n : Int)
  | panic (panic : Panic)
  | effect (e : ε) (next : Program ε)
  /-- Hands in tasks, waits for them, and goes on with the results of those
      that did not panic. -/
  | session (tasks : List (Program ε)) (next : List Int → Program ε)

namespace Program

variable {ε : Type}

instance : Inhabited (Program ε) := ⟨value 0⟩

mutual

/-- The value of a task, unless it panics, and its effects in order. -/
def run : Program ε → Except Panic Int × List ε
  | value n => (.ok n, [])
  | panic payload => (.error payload, [])
  | effect e next =>
    let (r, es) := run next
    (r, e :: es)
  | session tasks next =>
    let (results, inside) := runAll tasks
    let (r, es) := run (next results)
    (r, inside ++ es)

/-- The results of the tasks of a session, in order, and the effects. -/
def runAll : List (Program ε) → List Int × List ε
  | [] => ([], [])
  | p :: rest =>
    let (r, es) := run p
    let (results, later) := runAll rest
    (match r with
      | .ok n => n :: results
      | .error _ => results, es ++ later)

end

/-- A task that gives what a combiner makes of a session. -/
def folding {α : Type} (c : Combiner Int α) (finish : α → Int) (tasks : List (Program ε)) :
    Program ε :=
  session tasks fun results => value (finish (c.fold results))

end Program

end TickEngine
