/-
  Codes without any other thread.

  `Code.run` runs every task at the point where it is handed in, as
  `Program.run` does, and `Program.code` is the code of a program.

  What tasks do to the surroundings is seen by some `view` of them, which leaves
  out what the thread that hands them in does on its own.  By that view a code
  is `Calm` if it leaves the surroundings alone while a task that it handed in
  may be running.
-/
import Mathlib.Logic.Function.Basic
import TickEngine.Tasks.Machine
import TickEngine.Tasks.Program

namespace TickEngine

namespace Code

variable {σ ρ : Type}

/-- The end of a code and the surroundings after it, if it starts with these
    results in its sessions. -/
def run : Code σ ρ → (Nat → List ρ) → σ → Except Panic ρ × σ
  | value r, _, x => (.ok r, x)
  | panic p, _, x => (.error p, x)
  | act change next, results, x => (next x).run results (change x)
  | post task next, results, x => next.run results (task.run (fun _ => []) x).2
  | hand name task next, results, x =>
    next.run
      (Function.update results name
        (results name ++ (task.run (fun _ => []) x).1.toOption.toList))
      (task.run (fun _ => []) x).2
  | wait name next, results, x =>
    (next (results name)).run (Function.update results name []) x

/-- All that the code does with the surroundings, it does with a part of them. -/
def Sees {α : Type} (view : σ → α) : Code σ ρ → Prop
  | value _ | panic _ => True
  | act change next =>
    (∀ x y, view x = view y → view (change x) = view (change y) ∧ next x = next y) ∧
      ∀ x, (next x).Sees view
  | post task next | hand _ task next => task.Sees view ∧ next.Sees view
  | wait _ next => ∀ rs, (next rs).Sees view

/-- The code leaves a part of the surroundings alone while some tasks are not
    waited for: those of sessions with a name, and those of no session. -/
def Calm {α : Type} (view : σ → α) : Code σ ρ → List (Option Nat) → Prop
  | value _, _ | panic _, _ => True
  | act change next, awaited =>
    (awaited ≠ [] → (∀ x, view (change x) = view x) ∧ ∀ x y, next x = next y) ∧
      ∀ x, (next x).Calm view awaited
  | post _ next, awaited => next.Calm view (none :: awaited)
  | hand name _ next, awaited => next.Calm view (some name :: awaited)
  | wait name next, awaited => ∀ rs, (next rs).Calm view (awaited.filter (· ≠ some name))

end Code

namespace Program

variable {ε : Type}

mutual

/-- The code of a program.  The surroundings are the effects so far. -/
def code : Program ε → Code (List ε) Int
  | value n => .value n
  | panic payload => .panic payload
  | effect e next => .act (· ++ [e]) fun _ => code next
  | session tasks next => handAll tasks (.wait 0 fun results => code (next results))

/-- Hands in the tasks of a session. -/
def handAll : List (Program ε) → Code (List ε) Int → Code (List ε) Int
  | [], k => k
  | p :: rest, k => .hand 0 (code p) (handAll rest k)

end

end Program

end TickEngine
