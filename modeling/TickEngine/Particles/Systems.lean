/-
  A small simulation of particles.

  On the first tick `emitter` makes a ring of particles that fly apart.  On
  every tick `integrate` moves each particle, `age` counts its lifetime down
  and destroys it in the end, and `report` logs how many are left and asks to
  exit once there are none.

  * `pipeline?` is the tree of the four systems;
  * `registerTypes` registers the component types that they use.
-/
import TickEngine.Engine.Run
import TickEngine.Script.Motion

namespace TickEngine.Particles

open Schema

/-- The lines logged so far. -/
abbrev Log := List String

/-! ## Component types -/

def space : Shape := .record (.ofList [("x", .single), ("y", .single), ("z", .single)])

def position : ComponentType := Catalog.named "Position" space

def velocity : ComponentType := Catalog.named "Velocity" space

/-- Remaining ticks. -/
def lifetime : ComponentType := Catalog.lifetime

/-! ## Systems -/

/-- The number of particles. -/
def count : Nat := 64

/-- The direction of a particle, around the full circle. -/
def direction (i : Nat) : velocity.Data :=
  let angle : Float32 := Float32.ofNat i / Float32.ofNat count * Float32.ofBits 0x40c90fdb
  (⟨angle.cos.toBits⟩, ⟨angle.sin.toBits⟩, ⟨0⟩, ())

/-- The command that makes a particle. -/
def particle (i : Nat) : Draft :=
  .spawn [
    .component ⟨position, (⟨0⟩, ⟨0⟩, ⟨0⟩, ())⟩,
    .component ⟨velocity, direction i⟩,
    .component ⟨lifetime, BitVec.ofNat 32 (30 + i % 30)⟩]

/-- The end of an update that asks for some commands. -/
def asking (drafts : List Draft) : Outcome :=
  match Draft.buildAll drafts with
  | .ok commands => .batch ⟨commands⟩
  | .error e => .failed (.ofComponent e)

/-- Makes the particles on the first tick. -/
def emitter : System Log :=
  .new "emitter" [] fun ctx _ w =>
    { outcome := asking (if ctx.tick = 1 then (List.range count).map particle else [])
      ambient := w.ambient }

/-- Moves a point of space along a velocity. -/
def moved (dt : Single) (p : position.Data) (v : velocity.Data) : position.Data :=
  (Script.movedBy dt p.1 v.1, Script.movedBy dt p.2.1 v.2.1, Script.movedBy dt p.2.2.1 v.2.2.1, ())

/-- The write that moves the particle of a row. -/
def step? (cells : Cells) (dt : Single) (row : Row) : Option Write := do
  let v ← row.readAs cells velocity
  let cell ← row.get? position.id
  let p ← cell.readAs cells position
  return ⟨cell, ⟨position, moved dt p v⟩⟩

/-- Moves every particle. -/
def integrate : System Log :=
  .new "integrate" [.intersect [position.id, velocity.id]] fun ctx access w =>
    { outcome := .batch {}
      writes := (access.rows 0).filterMap (step? w.cells ctx.dt.toSingle)
      ambient := w.ambient }

/-- The command that ages the particle of a row. -/
def aged (cells : Cells) (row : Row) : Draft :=
  Script.aged row.entity ((row.readAs cells lifetime).getD 0#32)

/-- Counts lifetimes down. -/
def age : System Log :=
  .new "age" [.unite [lifetime.id]] fun _ access w =>
    { outcome := asking ((access.rows 0).map (aged w.cells)), ambient := w.ambient }

/-- The log line on the number of particles. -/
def liveLine (tick : UInt64) (live : Nat) : String :=
  s!"INFO engine_app: particles tick_id={tick.toNat} live={live}"

/-- Logs the number of particles on every tenth tick, and asks to exit when
    there are none left. -/
def report : System Log :=
  .new "report" [.unite [position.id]] fun ctx access w =>
    let live := (access.rows 0).length
    { outcome := asking (if 1 < ctx.tick ∧ live = 0 then [.exit] else [])
      ambient := if ctx.tick % 10 = 0 then w.ambient ++ [liveLine ctx.tick live] else w.ambient }

/-! ## The engine -/

/-- The tree of the systems. -/
def pipeline? : Except ComponentError (Pipeline Log) := do
  let root ← Pipeline.ofSystem? emitter
  let moving ← Pipeline.ofSystem? integrate
  let ageing ← Pipeline.ofSystem? age
  let reporting ← Pipeline.ofSystem? report
  return ((root.withParallel moving).withParallel ageing).withSerial reporting

/-- Registers the component types of particles. -/
def registerTypes (g : Engine Log) : Except EngineError Unit × Engine Log :=
  [position, velocity, lifetime].foldl
    (fun (r, g) t =>
      match r with
      | .error e => (.error e, g)
      | .ok () =>
        let (r, g) := g.registerType t
        (r.map fun _ => (), g))
    (.ok (), g)

end TickEngine.Particles
