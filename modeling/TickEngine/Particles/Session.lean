/-
  A run of the simulation from its variables to its output.

  `Session.run` reads the configuration from named variables, sets the engine
  up, runs it, and gives the lines that it logs and how it ends.
-/
import TickEngine.Particles.Systems

namespace TickEngine.Particles

/-- What a run shows to the outside. -/
structure Session where
  /-- The exit code. -/
  code : Nat
  /-- The logged lines. -/
  lines : Log
  /-- The text of the failure, if the run failed. -/
  failure : String
  deriving DecidableEq, Repr

namespace Session

/-- A run that failed with an error. -/
def failed (lines : Log) (message : String) : Session :=
  ⟨1, lines, "Error: " ++ message ++ "\n"⟩

/-- The log lines before the pipeline is installed. -/
def openingLines (c : Config) (workers : UInt64) : Log :=
  ["INFO engine_app: engine starting config=" ++ c.text,
    s!"INFO engine_app::environment: environment created workers={workers.toNat} tick_rate="
      ++ c.tickRate.text ++ s!" max_ticks={c.maxTicks.toNat}"]

/-- The log line about an installed pipeline. -/
def installedLine (p : Pipeline Log) (entities admitted : Nat) : String :=
  "INFO engine_app::environment: pipeline installed root=" ++ Text.quoted p.name
    ++ s!" systems={p.systemCount} entities={entities} admitted={admitted}"

/-- The log line at the start of the ticks. -/
def startLine (c : Config) : String :=
  "INFO engine_app::environment: starting tick loop tick_rate=" ++ c.tickRate.text
    ++ s!" max_ticks={c.maxTicks.toNat}"

/-- The log lines at the end of a run. -/
def closingLines (ticks : UInt64) (g : Engine Log) : Log :=
  [s!"INFO engine_app::environment: tick loop complete ticks={ticks.toNat} exit_requested={g.exitRequested}",
    s!"INFO engine_app: engine shut down ticks={ticks.toNat} entities={g.world.entityCount}"]

/-- Runs an engine that is set up. -/
def drive (g : Engine Log) : Session :=
  match g.config.budget with
  | .error p => ⟨101, g.ambient, p.message ++ "\n"⟩
  | .ok _ =>
    match { g with ambient := g.ambient ++ [startLine g.config] }.run with
    | (.error (.error e), g) => failed g.ambient e.message
    | (.error (.panic p), g) => ⟨101, g.ambient, p.message ++ "\n"⟩
    | (.error .endless, g) => ⟨1, g.ambient, ""⟩
    | (.ok ticks, g) => ⟨0, g.ambient ++ closingLines ticks g, ""⟩

/-- Sets an engine up with the particles, and runs it. -/
def start (c : Config) (workers : UInt64) : Session :=
  let lines := openingLines c workers
  match registerTypes { config := c, ambient := lines } with
  | (.error e, _) => failed lines e.message
  | (.ok (), g) =>
    match pipeline? with
    | .error e => failed lines e.message
    | .ok p =>
      match g.setRoot p with
      | (.error e, _) => failed lines e.message
      | (.ok admitted, g) =>
        drive { g with ambient := lines ++ [installedLine p g.world.entityCount admitted] }

/-- A run with the configuration that the variables give, on a machine with
    `cores` cores. -/
def run (lookup : String → Option String) (cores : UInt64) : Session :=
  match Config.ofLookup lookup with
  | .error e => failed [] e.message
  | .ok c => start c (c.resolvedWorkers cores)

end Session

end TickEngine.Particles
