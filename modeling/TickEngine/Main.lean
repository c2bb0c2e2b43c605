/-
  The command line: one run of the particles.
-/
import TickEngine.Particles.Session

/-- Runs the particles with the configuration of the environment variables. -/
def main : IO UInt32 := do
  let workers ← IO.getEnv TickEngine.Config.workersVariable
  let tickRate ← IO.getEnv TickEngine.Config.tickRateVariable
  let maxTicks ← IO.getEnv TickEngine.Config.maxTicksVariable
  let lookup := fun name =>
    if name = TickEngine.Config.workersVariable then workers
    else if name = TickEngine.Config.tickRateVariable then tickRate
    else if name = TickEngine.Config.maxTicksVariable then maxTicks
    else none
  let session := TickEngine.Particles.Session.run lookup 1
  for line in session.lines do
    IO.println line
  IO.eprint session.failure
  return session.code.toUInt32
