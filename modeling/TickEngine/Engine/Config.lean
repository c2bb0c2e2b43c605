/-
  The configuration of an engine.

  A `Config` has the number of workers, the rate of ticks, and the most ticks
  of one run.  `Config.ofLookup` takes the defaults and overrides them from
  named variables; a variable that is missing or blank overrides nothing.
  `Config.budget` is the time of one tick.
-/
import TickEngine.Number.Duration
import TickEngine.Number.Shortest
import TickEngine.Pipeline.System
import TickEngine.Text.Blank

namespace TickEngine

/-! ## Errors -/

/-- A variable that does not hold what it should. -/
structure ConfigError where
  name : String
  /-- The value of the variable, as it is shown. -/
  value : String
  reason : String
  deriving DecidableEq, Repr

def ConfigError.message (e : ConfigError) : String :=
  s!"invalid value '{e.value}' for {e.name}: {e.reason}"

/-! ## Configurations -/

/-- How an engine runs. -/
structure Config where
  /-- The number of workers; zero is one for each core. -/
  workers : UInt64 := 0
  /-- The wanted ticks per second.  Unless it is positive and finite, ticks
      run back to back. -/
  tickRate : Double := ⟨0x404e000000000000⟩
  /-- The most ticks of one run; zero is no limit. -/
  maxTicks : UInt64 := 0
  deriving DecidableEq, Repr

namespace Config

instance : Inhabited Config := ⟨{}⟩

def workersVariable : String := "ENGINE_WORKERS"

def tickRateVariable : String := "ENGINE_TICK_RATE"

def maxTicksVariable : String := "ENGINE_MAX_TICKS"

/-- The value of a variable without the white space around it, together with
    the value as given.  A blank variable has none. -/
def trimmed? (lookup : String → Option String) (name : String) : Option (List Char × String) :=
  (lookup name).bind fun raw =>
    let value := Text.trim raw.toList
    if value.isEmpty then none else some (value, raw)

/-- A variable that holds a whole number. -/
def word? (lookup : String → Option String) (name : String) :
    Except ConfigError (Option UInt64) :=
  match trimmed? lookup name with
  | none => .ok none
  | some (value, raw) =>
    match TickEngine.word? value with
    | .ok n => .ok (some n)
    | .error fault => .error ⟨name, raw, fault.message⟩

/-- A variable that holds a floating-point number.  A NaN is refused, and shown
    in its one spelling. -/
def double? (lookup : String → Option String) (name : String) :
    Except ConfigError (Option Double) :=
  match trimmed? lookup name with
  | none => .ok none
  | some (value, raw) =>
    match Literal.read? value with
    | none => .error ⟨name, raw, NumeralFault.invalidLiteral.message⟩
    | some literal =>
      if literal.toDouble.isNaN then
        .error ⟨name, literal.toDouble.text, NumeralFault.notANumber.message⟩
      else .ok (some literal.toDouble)

/-- The defaults with what the variables override, read in the order of the
    fields. -/
def ofLookup (lookup : String → Option String) : Except ConfigError Config := do
  let workers ← word? lookup workersVariable
  let tickRate ← double? lookup tickRateVariable
  let maxTicks ← word? lookup maxTicksVariable
  let base : Config := {}
  return {
    workers := workers.getD base.workers
    tickRate := tickRate.getD base.tickRate
    maxTicks := maxTicks.getD base.maxTicks }

/-- The number of workers to start, of which there is at least one. -/
def resolvedWorkers (c : Config) (cores : UInt64) : UInt64 :=
  if c.workers = 0 then cores else c.workers

/-- Whether the configuration is the default one.  Rates are compared as
    numbers. -/
def isDefault (c : Config) : Bool :=
  let base : Config := {}
  c.workers = base.workers && c.tickRate.same base.tickRate && c.maxTicks = base.maxTicks

/-- The text of the panic over a tick that is too long for a span of time. -/
def budgetPanic : Panic :=
  .text "cannot convert float seconds to Duration: value is either too big or NaN"

/-- The time of one tick, or none if ticks run back to back.  A rate so small
    that one tick does not fit a span of time panics. -/
def budget (c : Config) : Except Panic (Option Duration) :=
  match c.tickRate.positiveUnits? with
  | none => .ok none
  | some _ =>
    match Duration.ofSeconds? (Double.ofNat 1 / c.tickRate) with
    | some d => .ok (some d)
    | none => .error budgetPanic

def text (c : Config) : String :=
  "EnvironmentConfig \x7b worker_count: " ++ toString c.workers.toNat
    ++ ", tick_rate: " ++ c.tickRate.text
    ++ ", max_ticks: " ++ toString c.maxTicks.toNat ++ " \x7d"

end Config

end TickEngine
