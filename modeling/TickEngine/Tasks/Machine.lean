/-
  Workers and callers at the same time.

  A `Machine` has a pool with one worker for each slot, and any number of
  threads from outside.  It moves by one atomic step of one thread: a slot is
  claimed, filled, assigned, looked at or reset, a session is entered or left,
  a result is combined.

  * `Code` is what a thread does, and a `Frame` is where it is in that;
  * `Advance` are the steps of a frame that touch no slot, `Ends` is its end;
  * `Machine.Step` are all steps, `Machine.start` is a machine before them.
-/
import TickEngine.Order.SortedMap
import TickEngine.Tasks.Panic
import TickEngine.Tasks.Pool

namespace TickEngine

instance : Ranked Nat where
  rank := id
  rank_injective := id

/-! ## Codes -/

/-- What a thread does, on surroundings `σ` and with results `ρ`.  Sessions go
    by names, which mean nothing to other codes. -/
inductive Code (σ ρ : Type) where
  | value (result : ρ)
  | panic (panic : Panic)
  /-- Changes the surroundings, and goes on with what they were before. -/
  | act (change : σ → σ) (next : σ → Code σ ρ)
  /-- Hands in a task of no session. -/
  | post (task next : Code σ ρ)
  /-- Hands in a task of a session. -/
  | hand (name : Nat) (task next : Code σ ρ)
  /-- Waits for a session, and goes on with its results. -/
  | wait (name : Nat) (next : List ρ → Code σ ρ)

namespace Code

variable {σ ρ : Type}

/-- The end of a code that has nothing left to do. -/
def end? : Code σ ρ → Option (Except Panic ρ)
  | value r => some (.ok r)
  | panic p => some (.error p)
  | _ => none

/-- The session that a code is about to use. -/
def session? : Code σ ρ → Option Nat
  | hand name _ _ | wait name _ => some name
  | _ => none

/-- The code hands in no task and waits for none, and so needs no handle of the
    pool. -/
def Quiet : Code σ ρ → Prop
  | value _ | panic _ => True
  | act _ next => ∀ x, (next x).Quiet
  | post _ _ | hand _ _ _ | wait _ _ => False

end Code

/-! ## Sessions -/

/-- What the tasks of a session share. -/
structure Session (ρ : Type) where
  /-- The counter of the tasks that are not over. -/
  outstanding : Nat := 0
  /-- The number of handles, one of which the opener has. -/
  handles : Nat := 1
  /-- What was combined, in order. -/
  folded : List ρ := []
  /-- The tasks that were handed in, in order. -/
  submitted : List Nat := []
  /-- The ends of tasks, in the order of their combine steps and panics. -/
  settled : List (Nat × Except Panic ρ) := []

namespace Session

variable {ρ : Type}

/-- Counts a new task in, and makes a handle for it. -/
def enter (id : Nat) (s : Session ρ) : Session ρ :=
  { s with
    outstanding := s.outstanding + 1
    handles := s.handles + 1
    submitted := s.submitted ++ [id] }

/-- Combines the result of a task, if it has one. -/
def settle (id : Nat) (o : Except Panic ρ) (s : Session ρ) : Session ρ :=
  { s with
    folded := s.folded ++ o.toOption.toList
    settled := s.settled ++ [(id, o)] }

/-- Counts a task out. -/
def leave (s : Session ρ) : Session ρ := { s with outstanding := s.outstanding - 1 }

/-- Gives up a handle. -/
def release (s : Session ρ) : Session ρ := { s with handles := s.handles - 1 }

end Session

/-- What all threads share, apart from the pool. -/
structure Common (σ ρ : Type) where
  /-- The surroundings. -/
  shared : σ
  sessions : List (Session ρ) := []
  /-- The number of tasks that were handed in.  They are called by the numbers
      below it. -/
  given : Nat := 0

/-- Changes one session. -/
def Common.modify {σ ρ : Type} (c : Common σ ρ) (s : Nat) (f : Session ρ → Session ρ) :
    Common σ ρ :=
  { c with sessions := c.sessions.modify s f }

/-! ## Frames -/

/-- A task with its number and its session. -/
structure Job (σ ρ : Type) where
  id : Nat
  session : Option Nat
  code : Code σ ρ

/-- Who runs a code. -/
inductive Role where
  /-- A thread from outside. -/
  | outer
  | task (id : Nat) (session : Option Nat)
  deriving DecidableEq, Repr

/-- Where a thread is in a code. -/
inductive Point (σ ρ : Type) where
  | run (code : Code σ ρ)
  /-- Tries to claim a slot for a task. -/
  | scan (slot : Nat) (job : Job σ ρ) (next : Code σ ρ)
  /-- Has claimed a slot. -/
  | store (slot : Nat) (job : Job σ ρ) (next : Code σ ρ)
  /-- Has filled the claimed slot. -/
  | assign (slot : Nat) (next : Code σ ρ)
  /-- Has seen all tasks of a session counted out. -/
  | reclaim (session : Nat) (next : List ρ → Code σ ρ)
  /-- The task is over for its combiner. -/
  | leave
  /-- The task is over for its session. -/
  | drop

/-- A code that is being run. -/
structure Frame (σ ρ : Type) where
  role : Role
  /-- The open sessions, by name. -/
  env : SortedMap Nat Nat
  point : Point σ ρ

/-- The task that a thread is placing, until it is in a slot. -/
def Point.job? {σ ρ : Type} : Point σ ρ → Option (Job σ ρ)
  | .scan _ job _ | .store _ job _ => some job
  | _ => none

/-- Nothing that is left to do needs a handle of the pool.  Who waits for a
    session has one until it is over. -/
def Point.Quiet {σ ρ : Type} : Point σ ρ → Prop
  | .run code => code.Quiet
  | .scan _ _ _ | .store _ _ _ | .assign _ _ | .reclaim _ _ => False
  | .leave | .drop => True

/-- A task at its start. -/
def Job.frame {σ ρ : Type} (job : Job σ ρ) : Frame σ ρ :=
  ⟨.task job.id job.session, .empty, .run job.code⟩

/-- Steps of a frame that touch no slot.  A session is opened when its name is
    first used; one that nobody waits for keeps the handle of its opener. -/
inductive Advance {σ ρ : Type} :
    Frame σ ρ → Common σ ρ → Frame σ ρ → Common σ ρ → Prop
  | act {role env c change next} :
      Advance ⟨role, env, .run (.act change next)⟩ c
        ⟨role, env, .run (next c.shared)⟩ { c with shared := change c.shared }
  | post {role env c task next} :
      Advance ⟨role, env, .run (.post task next)⟩ c
        ⟨role, env, .scan 0 ⟨c.given, none, task⟩ next⟩ { c with given := c.given + 1 }
  | opens {role env c code name} : code.session? = some name → env.get? name = none →
      Advance ⟨role, env, .run code⟩ c
        ⟨role, env.insert name c.sessions.length, .run code⟩
        { c with sessions := c.sessions ++ [{}] }
  | hand {role env c name task next s} : env.get? name = some s →
      Advance ⟨role, env, .run (.hand name task next)⟩ c
        ⟨role, env, .scan 0 ⟨c.given, some s, task⟩ next⟩
        { c.modify s (·.enter c.given) with given := c.given + 1 }
  | check {role env c name next s session} : env.get? name = some s →
      c.sessions[s]? = some session → session.outstanding = 0 →
      Advance ⟨role, env, .run (.wait name next)⟩ c ⟨role, env.erase name, .reclaim s next⟩ c
  | reclaim {role env c s next session} : c.sessions[s]? = some session → session.handles = 1 →
      Advance ⟨role, env, .reclaim s next⟩ c
        ⟨role, env, .run (next session.folded)⟩ (c.modify s (·.release))
  | settle {id s env c code o} : code.end? = some o →
      Advance ⟨.task id (some s), env, .run code⟩ c
        ⟨.task id (some s), env, .leave⟩ (c.modify s (·.settle id o))
  | leave {id s env c} :
      Advance ⟨.task id (some s), env, .leave⟩ c
        ⟨.task id (some s), env, .drop⟩ (c.modify s (·.leave))

/-- The end of a task with its number and session.  The task of a session
    gives up its handle. -/
inductive Ends {σ ρ : Type} : Frame σ ρ → Common σ ρ → Nat × Option Nat → Common σ ρ → Prop
  | bare {id env c code o} : code.end? = some o →
      Ends ⟨.task id none, env, .run code⟩ c (id, none) c
  | drop {id s env c} :
      Ends ⟨.task id (some s), env, .drop⟩ c (id, some s) (c.modify s (·.release))

/-! ## Threads -/

/-- Where a thread is. -/
inductive Thread (σ ρ : Type) where
  /-- A worker at its slot. -/
  | look
  /-- Has seen its slot assigned. -/
  | take
  /-- Has seen its slot idle, and leaves if the pool is given up. -/
  | quit
  /-- Runs the task of its slot, or one on top of it.  The frames below go on
      when those above end. -/
  | work (top : Frame σ ρ) (below : List (Frame σ ρ))
  /-- Is done with the task of its slot. -/
  | reset
  /-- Has left. -/
  | gone
  /-- A thread from outside. -/
  | outer (top : Frame σ ρ)

namespace Thread

variable {σ ρ : Type}

/-- The frame that moves. -/
def top? : Thread σ ρ → Option (Frame σ ρ)
  | work top _ | outer top => some top
  | _ => none

/-- All frames, the one that moves first. -/
def frames : Thread σ ρ → List (Frame σ ρ)
  | work top below => top :: below
  | outer top => [top]
  | _ => []

/-- The thread with another frame that moves. -/
def withTop (f : Frame σ ρ) : Thread σ ρ → Thread σ ρ
  | work _ below => work f below
  | outer _ => outer f
  | t => t

end Thread

/-! ## Machines -/

/-- A pool with its workers and other threads.  The first threads are the
    workers, one for each slot. -/
structure Machine (σ ρ : Type) where
  pool : Pool (Job σ ρ)
  threads : List (Thread σ ρ)
  common : Common σ ρ
  /-- The tasks that were started, in order. -/
  started : List Nat := []
  /-- The tasks that ended, in order, with their sessions. -/
  done : List (Nat × Option Nat) := []

namespace Machine

variable {σ ρ : Type}

/-- A pool of workers, of which there is at least one, and threads with the
    given codes. -/
def start (workers : Nat) (shared : σ) (codes : List (Code σ ρ)) : Machine σ ρ :=
  let pool := Pool.new workers
  { pool
    threads := List.replicate pool.workerCount .look ++
      codes.map fun code => .outer ⟨.outer, .empty, .run code⟩
    common := { shared } }

/-- The frame of a thread that moves. -/
def top? (m : Machine σ ρ) (i : Nat) : Option (Frame σ ρ) := m.threads[i]?.bind Thread.top?

def setTop (m : Machine σ ρ) (i : Nat) (f : Frame σ ρ) : Machine σ ρ :=
  { m with threads := m.threads.modify i (·.withTop f) }

def setThread (m : Machine σ ρ) (i : Nat) (t : Thread σ ρ) : Machine σ ρ :=
  { m with threads := m.threads.set i t }

def setSlot (m : Machine σ ρ) (i : Nat) (s : Slot (Job σ ρ)) : Machine σ ρ :=
  { m with pool := { m.pool with slots := m.pool.slots.set i s } }

/-- Nothing that is left to do needs a handle of the pool. -/
def Quiet (m : Machine σ ρ) : Prop :=
  (∀ t ∈ m.threads, ∀ f ∈ t.frames, f.point.Quiet) ∧
    ∀ slot ∈ m.pool.slots, ∀ job, slot.task = some job → job.code.Quiet

/-- One atomic step of one thread. -/
inductive Step (m : Machine σ ρ) : Machine σ ρ → Prop
  /-- A frame moves without a slot. -/
  | advance {i f f' c} : m.top? i = some f → Advance f m.common f' c →
      Step m { m.setTop i f' with common := c }
  /-- The slot is not idle: the next one is tried. -/
  | pass {i role env j job next slot} : m.top? i = some ⟨role, env, .scan j job next⟩ →
      m.pool.slots[j]? = some slot → slot.state ≠ .idle →
      Step m (m.setTop i ⟨role, env, .scan (j + 1) job next⟩)
  /-- An idle slot is claimed. -/
  | claim {i role env j job next slot} : m.top? i = some ⟨role, env, .scan j job next⟩ →
      m.pool.slots[j]? = some slot → slot.state = .idle →
      Step m ((m.setTop i ⟨role, env, .store j job next⟩).setSlot j { slot with state := .claimed })
  /-- A thread from outside that found no idle slot tries all again. -/
  | rescan {i role env j job next} :
      m.threads[i]? = some (.outer ⟨role, env, .scan j job next⟩) → m.pool.slots[j]? = none →
      Step m (m.setTop i ⟨role, env, .scan 0 job next⟩)
  /-- A worker that found no idle slot runs the task itself. -/
  | inline {i role env j job next below} :
      m.threads[i]? = some (.work ⟨role, env, .scan j job next⟩ below) →
      m.pool.slots[j]? = none →
      Step m { m.setThread i (.work job.frame (⟨role, env, .run next⟩ :: below)) with
        started := m.started ++ [job.id] }
  /-- The task is put into the claimed slot. -/
  | put {i role env j job next slot} : m.top? i = some ⟨role, env, .store j job next⟩ →
      m.pool.slots[j]? = some slot →
      Step m ((m.setTop i ⟨role, env, .assign j next⟩).setSlot j { slot with task := some job })
  /-- The claimed slot is assigned. -/
  | assign {i role env j next slot} : m.top? i = some ⟨role, env, .assign j next⟩ →
      m.pool.slots[j]? = some slot →
      Step m ((m.setTop i ⟨role, env, .run next⟩).setSlot j { slot with state := .assigned })
  /-- A worker sees its slot assigned. -/
  | look {i slot} : m.threads[i]? = some .look → m.pool.slots[i]? = some slot →
      slot.state = .assigned → Step m (m.setThread i .take)
  /-- A worker takes the task out of its slot. -/
  | take {i slot job} : m.threads[i]? = some .take → m.pool.slots[i]? = some slot →
      slot.task = some job →
      Step m { (m.setThread i (.work job.frame [])).setSlot i { slot with task := none } with
        started := m.started ++ [job.id] }
  /-- A worker finds no task in its slot. -/
  | miss {i slot} : m.threads[i]? = some .take → m.pool.slots[i]? = some slot →
      slot.task = none → Step m (m.setThread i .reset)
  /-- A task ends that a worker ran on top of another one. -/
  | back {i f g below d c} : m.threads[i]? = some (.work f (g :: below)) → Ends f m.common d c →
      Step m { m.setThread i (.work g below) with common := c, done := m.done ++ [d] }
  /-- The task of a slot ends. -/
  | finish {i f d c} : m.threads[i]? = some (.work f []) → Ends f m.common d c →
      Step m { m.setThread i .reset with common := c, done := m.done ++ [d] }
  /-- A worker resets its slot. -/
  | reset {i slot} : m.threads[i]? = some .reset → m.pool.slots[i]? = some slot →
      Step m ((m.setThread i .look).setSlot i { slot with state := .idle })
  /-- A worker sees its slot idle. -/
  | glance {i slot} : m.threads[i]? = some .look → m.pool.slots[i]? = some slot →
      slot.state = .idle → Step m (m.setThread i .quit)
  /-- A worker that saw its slot idle sees the pool in use, and looks again. -/
  | stay {i} : m.threads[i]? = some .quit → m.pool.running = true →
      Step m (m.setThread i .look)
  /-- A worker that saw its slot idle sees the pool given up, and leaves.  It does
      not look at its slot again. -/
  | exit {i} : m.threads[i]? = some .quit → m.pool.running = false →
      Step m (m.setThread i .gone)
  /-- The last handle of the pool is dropped. -/
  | shut : m.Quiet → Step m { m with pool := { m.pool with running := false } }

end Machine

end TickEngine
