/-
  Running scripts.

  The actions of a script run in order on a `Progress`: what was written,
  reported and asked for so far.  An action that fails ends the update
  (`Stop`); what was written and reported before it stays, the commands do
  not.

  * `Action.run` performs one action, `Script.update` a whole script;
  * `Script.system` is the system that a script describes.
-/
import TickEngine.Script.Action
import TickEngine.Script.Motion

namespace TickEngine.Script

/-- Why an update ends early. -/
inductive Stop where
  | failed (error : SystemError)
  | panicked (panic : Panic)
  deriving DecidableEq, Repr

/-- How far an update has come. -/
structure Progress where
  cells : Cells
  /-- The writes so far, latest first. -/
  writes : List Write := []
  trace : Trace
  batch : Batch := {}

namespace Progress

/-- Reports something. -/
def report (p : Progress) (node : String) (r : Report) : Progress :=
  { p with trace := p.trace ++ [⟨node, r⟩] }

/-- Changes the value in a cell. -/
def write (p : Progress) (target : CellRef) (c : Component) : Progress :=
  let w : Write := ⟨target, c⟩
  { p with cells := w.apply p.cells, writes := w :: p.writes }

/-- Asks for a command. -/
def push (p : Progress) (d : Draft) : Option Stop × Progress :=
  match d.build with
  | .ok c => (none, { p with batch := p.batch.push c })
  | .error e => (some (.failed (.ofComponent e)), p)

/-- Does something for each element, up to the first failure. -/
def forEach {α : Type} (f : α → Progress → Option Stop × Progress) :
    List α → Progress → Option Stop × Progress
  | [], p => (none, p)
  | x :: rest, p =>
    match f x p with
    | (some stop, p) => (some stop, p)
    | (none, p) => forEach f rest p

end Progress

/-- What can be seen of a live set. -/
def View.of (s : LiveSet) : View :=
  { op := s.spec.op
    types := s.spec.types
    size := s.size
    isEmpty := s.isEmpty
    rowCount := s.rows.values.length }

/-- Adds to the number of the type `t` in a row. -/
def addToRow (t : ComponentType) (amount : Int) (row : Row) (p : Progress) : Progress :=
  match row.get? t.id, row.readAs p.cells t with
  | some cell, some x => p.write cell (addWrapping amount ⟨t, x⟩)
  | _, _ => p

/-- Moves the position of a row along its velocity. -/
def integrateRow (dt : Single) (row : Row) (p : Progress) : Progress :=
  match row.readAs p.cells Catalog.velocity, row.get? Catalog.position.id,
      row.readAs p.cells Catalog.position with
  | some v, some cell, some x => p.write cell ⟨Catalog.position, moved dt x v⟩
  | _, _, _ => p

/-- The remaining lifetime of a row; none is no time. -/
def remaining (cells : Cells) (row : Row) : Catalog.lifetime.Data :=
  (row.readAs cells Catalog.lifetime).getD 0#32

/-- Performs an action of the node `node`. -/
def Action.run (node : String) (ctx : TickContext) (access : Access) (a : Action) (p : Progress) :
    Option Stop × Progress :=
  match a with
  | .rows =>
    let sets := access.sets.map fun s => s.rows.values.map (·.contents p.cells)
    (none, p.report node (.rows ctx.tick sets))
  | .note text => (none, p.report node (.note ctx.tick text))
  | .clock => (none, p.report node (.clock ctx.tick ctx.dt))
  | .view i =>
    (none, p.report node
      (.view access.sets.length ((access.set? i).map View.of) (access.rows i).length))
  | .find i e =>
    let result := (access.set? i).map fun s =>
      (s.contains e, (s.row? e).map (·.contents p.cells))
    (none, p.report node (.found result))
  | .has i t =>
    let entities := (access.rows i).map fun row =>
      (row.entity, row.has t, (row.readAs p.cells t).isSome)
    (none, p.report node (.has entities))
  | .decode record t =>
    match record.build.bind t.ofRecord with
    | .ok x => (none, p.report node (.decoded ⟨t, x⟩))
    | .error e => (some (.failed (.ofComponent e)), p)
  | .emit drafts => Progress.forEach (fun d p => p.push d) drafts p
  | .each i drafts =>
    Progress.forEach
      (fun row p => Progress.forEach (fun d p => p.push (d.onEntity row.entity)) drafts p)
      (access.rows i) p
  | .add i t amount => (none, (access.rows i).foldl (fun p row => addToRow t amount row p) p)
  | .integrate i =>
    (none, (access.rows i).foldl (fun p row => integrateRow ctx.dt.toSingle row p) p)
  | .age i =>
    Progress.forEach (fun row p => p.push (aged row.entity (remaining p.cells row)))
      (access.rows i) p
  | .exitIfEmpty i => if (access.rows i).isEmpty then p.push .exit else (none, p)
  | .error message => (some (.failed ⟨message⟩), p)
  | .outOfMemory => (some (.failed .batchGrowth), p)
  | .panic payload => (some (.panicked payload), p)

/-- Performs the steps that run on the tick. -/
def runSteps (node : String) (ctx : TickContext) (access : Access) (steps : List Step)
    (p : Progress) : Option Stop × Progress :=
  Progress.forEach (fun s p => s.action.run node ctx access p)
    (steps.filter (·.runsOn ctx.tick)) p

/-- The update that a script describes. -/
def update (s : Script) (ctx : TickContext) (access : Access) (w : Workspace Trace) :
    Update Trace :=
  let (stop, p) := runSteps s.name ctx access s.steps { cells := w.cells, trace := w.ambient }
  { outcome :=
      match stop with
      | none => .batch p.batch
      | some (.failed e) => .failed e
      | some (.panicked payload) => .panicked payload
    writes := p.writes.reverse
    ambient := p.trace }

/-- Offers an entity as a hook says. -/
def Hook.register (h : Hook) (tables : Tables) (e : Entity) (a : Access) : Bool × Access :=
  match h.residue with
  | some (n, r) => if e.id % n = r then a.register tables e else (false, a)
  | none => a.register tables e

/-- Withdraws an entity as a hook says. -/
def Hook.unregister (h : Hook) (e : Entity) (a : Access) : Access :=
  if h.keeps then a else a.unregister e

/-- The system that a script describes. -/
def system (s : Script) : System Trace :=
  let plain := System.new s.name s.sets s.update
  match s.hook with
  | none => plain
  | some h => { plain with register := h.register, unregister := h.unregister }

end TickEngine.Script
