/-
  Tasks, wherever they are.

  A task that was handed in is on the way to a slot, in a slot, or in the frame
  that runs it.  The `Census` of a machine has all frames and all tasks in
  slots, and forgets whose they are; `Machine.Step.census` says what a step does
  to it.  A `Tally` weighs tasks and frames so that a task weighs the same
  wherever it is.  Its total changes only when a frame moves on its own, and
  when a task ends (`Census.Step.total`).
-/
import TickEngine.Proofs.Slots

namespace TickEngine

variable {σ ρ : Type}

/-! ## Censuses -/

/-- All frames and all tasks in slots, with what threads share. -/
structure Census (σ ρ : Type) where
  crew : Multiset (Frame σ ρ)
  held : Multiset (Job σ ρ)
  common : Common σ ρ
  started : List Nat
  done : List (Nat × Option Nat)

def Machine.census (m : Machine σ ρ) : Census σ ρ :=
  ⟨Thread.crew m.threads, Slot.held m.pool.slots, m.common, m.started, m.done⟩

/-- The thread is placing the task, and goes on with `next`. -/
inductive Point.Places : Point σ ρ → Job σ ρ → Code σ ρ → Prop
  | scan {j job next} : Places (.scan j job next) job next
  | store {j job next} : Places (.store j job next) job next

/-- What a step can do to a census. -/
inductive Census.Step : Census σ ρ → Census σ ρ → Prop
  | stay {x} : Step x x
  | advance {f f' c c' crew held st dn} : Advance f c f' c' →
      Step ⟨f ::ₘ crew, held, c, st, dn⟩ ⟨f' ::ₘ crew, held, c', st, dn⟩
  | carry {role env p p' job next c crew held st dn} :
      Point.Places p job next → Point.Places p' job next →
      Step ⟨⟨role, env, p⟩ ::ₘ crew, held, c, st, dn⟩ ⟨⟨role, env, p'⟩ ::ₘ crew, held, c, st, dn⟩
  | put {role env p job j next c crew held st dn} : Point.Places p job next →
      Step ⟨⟨role, env, p⟩ ::ₘ crew, held, c, st, dn⟩
        ⟨⟨role, env, .assign j next⟩ ::ₘ crew, job ::ₘ held, c, st, dn⟩
  | assign {role env j next c crew held st dn} :
      Step ⟨⟨role, env, .assign j next⟩ ::ₘ crew, held, c, st, dn⟩
        ⟨⟨role, env, .run next⟩ ::ₘ crew, held, c, st, dn⟩
  | inline {role env p job next c crew held st dn} : Point.Places p job next →
      Step ⟨⟨role, env, p⟩ ::ₘ crew, held, c, st, dn⟩
        ⟨job.frame ::ₘ ⟨role, env, .run next⟩ ::ₘ crew, held, c, st ++ [job.id], dn⟩
  | take {job c crew held st dn} :
      Step ⟨crew, job ::ₘ held, c, st, dn⟩ ⟨job.frame ::ₘ crew, held, c, st ++ [job.id], dn⟩
  | ends {f d c c' crew held st dn} : Ends f c d c' →
      Step ⟨f ::ₘ crew, held, c, st, dn⟩ ⟨crew, held, c', st, dn ++ [d]⟩

namespace Machine

variable {m m' : Machine σ ρ} {i j : Nat}

theorem crew_setTop {f : Frame σ ρ} (h : m.top? i = some f) :
    ∃ rest, Thread.crew m.threads = f ::ₘ rest ∧
      ∀ f', Thread.crew (m.setTop i f').threads = f' ::ₘ rest := by
  obtain ⟨t, ht, htop, hset⟩ := top?_eq_some h
  obtain ⟨rest, hcrew, hwith⟩ := Thread.crew_withTop ht htop
  exact ⟨rest, hcrew, fun f' => by rw [setTop, hset, hwith]⟩

/-- A slot with the same task holds the same. -/
theorem held_set_of_task {slot : Slot (Job σ ρ)} (h : m.pool.slots[j]? = some slot)
    (slot' : Slot (Job σ ρ)) (htask : slot'.task = slot.task) :
    Slot.held (m.pool.slots.set j slot') = Slot.held m.pool.slots := by
  obtain ⟨rest, hheld, hset⟩ := Slot.held_set h
  rw [hset, hheld, htask]

/-- A task more in a slot. -/
theorem held_set_some {slot : Slot (Job σ ρ)} (h : m.pool.slots[j]? = some slot)
    (htask : slot.task = none) (job : Job σ ρ) :
    Slot.held (m.pool.slots.set j { slot with task := some job }) =
      job ::ₘ Slot.held m.pool.slots := by
  obtain ⟨rest, hheld, hset⟩ := Slot.held_set h
  rw [hset, hheld, htask]
  exact (Multiset.singleton_add job rest).trans (congrArg (job ::ₘ ·) (zero_add rest).symm)

/-- A task less in a slot. -/
theorem held_set_none {slot : Slot (Job σ ρ)} {job : Job σ ρ} (h : m.pool.slots[j]? = some slot)
    (htask : slot.task = some job) : Slot.held m.pool.slots =
      job ::ₘ Slot.held (m.pool.slots.set j { slot with task := none }) := by
  obtain ⟨rest, hheld, hset⟩ := Slot.held_set h
  rw [hset, hheld, htask]
  exact (Multiset.singleton_add job rest).trans (congrArg (job ::ₘ ·) (zero_add rest).symm)

theorem crew_setThread_of_nil {t t' : Thread σ ρ} (h : m.threads[i]? = some t)
    (ht : t.frames = []) (ht' : t'.frames = []) :
    Thread.crew (m.threads.set i t') = Thread.crew m.threads := by
  obtain ⟨rest, hcrew, hset⟩ := Thread.crew_set h
  rw [hset, hcrew, ht, ht']

/-- **What a step does to the census.** -/
theorem Step.census (h : m.Step m') (hsound : Sound m.pool m.threads) :
    Census.Step m.census m'.census := by
  cases h with
  | advance htop hadvance =>
    obtain ⟨rest, hcrew, hset⟩ := crew_setTop htop
    simp only [Machine.census]
    rw [hcrew, hset]
    exact .advance hadvance
  | pass htop =>
    obtain ⟨rest, hcrew, hset⟩ := crew_setTop htop
    simp only [Machine.census]
    rw [hcrew, hset]
    exact .carry .scan .scan
  | @claim i role env j job next slot htop hslot hidle =>
    obtain ⟨rest, hcrew, hset⟩ := crew_setTop htop
    show Census.Step ⟨_, _, _, _, _⟩ ⟨Thread.crew (m.setTop i _).threads,
      Slot.held (m.pool.slots.set j { slot with state := .claimed }), _, _, _⟩
    rw [hcrew, hset, held_set_of_task hslot { slot with state := .claimed } rfl]
    exact .carry .scan .store
  | rescan hthread =>
    obtain ⟨rest, hcrew, hset⟩ := crew_setTop (top?_of_outer hthread)
    simp only [Machine.census]
    rw [hcrew, hset]
    exact .carry .scan .scan
  | inline hthread =>
    obtain ⟨rest, hcrew, hset⟩ := Thread.crew_set hthread
    simp only [Machine.census, setThread]
    rw [hcrew, hset, Thread.frames, Thread.frames, ← Multiset.cons_coe, ← Multiset.cons_coe,
      ← Multiset.cons_coe, Multiset.cons_add, Multiset.cons_add, Multiset.cons_add]
    exact .inline .scan
  | @put i role env j job next slot htop hslot =>
    obtain ⟨rest, hcrew, hset⟩ := crew_setTop htop
    obtain ⟨t, ht, htop', -⟩ := top?_eq_some htop
    obtain ⟨-, htask⟩ := Slot.claim?_eq_some_iff.1 (hsound.claim?_of_top ht htop' rfl hslot)
    show Census.Step ⟨_, _, _, _, _⟩ ⟨Thread.crew (m.setTop i _).threads,
      Slot.held (m.pool.slots.set j { slot with task := some job }), _, _, _⟩
    rw [hcrew, hset, held_set_some hslot (by simpa using htask)]
    exact .put .store
  | @assign i role env j next slot htop hslot =>
    obtain ⟨rest, hcrew, hset⟩ := crew_setTop htop
    show Census.Step ⟨_, _, _, _, _⟩ ⟨Thread.crew (m.setTop i _).threads,
      Slot.held (m.pool.slots.set j { slot with state := .assigned }), _, _, _⟩
    rw [hcrew, hset, held_set_of_task hslot { slot with state := .assigned } rfl]
    exact .assign
  | look ht | miss ht | glance ht | stay ht | exit ht =>
    simp only [Machine.census, setThread]
    rw [crew_setThread_of_nil ht rfl rfl]
    exact .stay
  | @take i slot job ht hslot htask =>
    obtain ⟨rest, hcrew, hset⟩ := Thread.crew_set ht
    show Census.Step ⟨Thread.crew m.threads, Slot.held m.pool.slots, _, _, _⟩
      ⟨Thread.crew (m.threads.set i _),
        Slot.held (m.pool.slots.set i { slot with task := none }), _, _, _⟩
    rw [hcrew, hset, held_set_none hslot htask, Thread.frames_eq_nil rfl,
      Thread.frames, Multiset.coe_nil, zero_add, Multiset.coe_singleton, Multiset.singleton_add]
    exact .take
  | back hthread hends =>
    obtain ⟨rest, hcrew, hset⟩ := Thread.crew_set hthread
    simp only [Machine.census, setThread]
    rw [hcrew, hset, Thread.frames, Thread.frames, ← Multiset.cons_coe, Multiset.cons_add]
    exact .ends hends
  | finish hthread hends =>
    obtain ⟨rest, hcrew, hset⟩ := Thread.crew_set hthread
    simp only [Machine.census, setThread]
    rw [hcrew, hset, Thread.frames, Thread.frames_eq_nil (t := .reset) rfl, ← Multiset.cons_coe,
      Multiset.cons_add]
    exact .ends hends
  | @reset i slot ht hslot =>
    show Census.Step ⟨_, _, _, _, _⟩ ⟨Thread.crew (m.threads.set i _),
      Slot.held (m.pool.slots.set i { slot with state := .idle }), _, _, _⟩
    rw [crew_setThread_of_nil ht rfl rfl,
      held_set_of_task hslot { slot with state := .idle } rfl]
    exact .stay
  | shut => exact .stay

end Machine

/-! ## Tallies -/

/-- A thread may hand in tasks, and nothing of its own has begun to end. -/
def Point.Up : Point σ ρ → Prop
  | .run _ | .scan _ _ _ | .store _ _ _ | .assign _ _ => True
  | .reclaim _ _ | .leave | .drop => False

/-- Weights of tasks and of frames.  A task weighs as much as the frame that it
    becomes, and to hand in another task does not change what a frame weighs. -/
structure Tally (σ ρ : Type) where
  job : Job σ ρ → Nat
  frame : Frame σ ρ → Nat
  start : ∀ j, frame j.frame = job j
  up : ∀ {role env} {p p' : Point σ ρ}, p.Up → p'.Up → frame ⟨role, env, p⟩ = frame ⟨role, env, p'⟩

namespace Tally

variable (T : Tally σ ρ)

/-- The weight of a task that a thread is placing. -/
def placed (p : Point σ ρ) : Nat := (p.job?.map T.job).getD 0

/-- What a frame weighs with the task that it is placing. -/
def whole (f : Frame σ ρ) : Nat := T.frame f + T.placed f.point

/-- The weight of all frames and tasks. -/
def total (x : Census σ ρ) : Nat := (x.crew.map T.whole).sum + (x.held.map T.job).sum

theorem placed_of_places {p : Point σ ρ} {job : Job σ ρ} {next : Code σ ρ}
    (h : p.Places job next) : T.placed p = T.job job := by
  cases h <;> rfl

end Tally

theorem Point.Places.up {p : Point σ ρ} {job : Job σ ρ} {next : Code σ ρ}
    (h : p.Places job next) : p.Up := by
  cases h <;> trivial

/-- **Tallies change with the moves of frames and the ends of tasks only.** -/
theorem Census.Step.total {x x' : Census σ ρ} (h : Census.Step x x') :
    (x'.common = x.common ∧ x'.done = x.done ∧ ∀ T : Tally σ ρ, T.total x' = T.total x) ∨
    (∃ f f', f ∈ x.crew ∧ Advance f x.common f' x'.common ∧ x'.done = x.done ∧
      ∀ T : Tally σ ρ, T.total x' + T.whole f = T.total x + T.whole f') ∨
    ∃ f d, f ∈ x.crew ∧ Ends f x.common d x'.common ∧ x'.done = x.done ++ [d] ∧
      ∀ T : Tally σ ρ, T.total x' + T.whole f = T.total x := by
  cases h with
  | stay => exact .inl ⟨rfl, rfl, fun _ => rfl⟩
  | @advance f f' c c' crew held st dn hadvance =>
    refine .inr (.inl ⟨f, f', Multiset.mem_cons_self f crew, hadvance, rfl, fun T => ?_⟩)
    simp only [Tally.total, Multiset.map_cons, Multiset.sum_cons]
    omega
  | @carry role env p p' job next c crew held st dn hp hp' =>
    refine .inl ⟨rfl, rfl, fun T => ?_⟩
    have hup : T.frame ⟨role, env, p⟩ = T.frame ⟨role, env, p'⟩ := T.up hp.up hp'.up
    have hplaced := T.placed_of_places hp
    have hplaced' := T.placed_of_places hp'
    simp only [Tally.total, Multiset.map_cons, Multiset.sum_cons, Tally.whole]
    omega
  | @put role env p job j next c crew held st dn hp =>
    refine .inl ⟨rfl, rfl, fun T => ?_⟩
    have hup : T.frame ⟨role, env, p⟩ = T.frame ⟨role, env, .assign j next⟩ := T.up hp.up trivial
    have hplaced := T.placed_of_places hp
    have hnone : T.placed (.assign j next : Point σ ρ) = 0 := rfl
    simp only [Tally.total, Multiset.map_cons, Multiset.sum_cons, Tally.whole]
    omega
  | @assign role env j next c crew held st dn =>
    refine .inl ⟨rfl, rfl, fun T => ?_⟩
    have hup : T.frame ⟨role, env, .assign j next⟩ = T.frame ⟨role, env, .run next⟩ :=
      T.up trivial trivial
    have hnone : T.placed (.assign j next : Point σ ρ) = T.placed (.run next) := rfl
    simp only [Tally.total, Multiset.map_cons, Multiset.sum_cons, Tally.whole]
    omega
  | @inline role env p job next c crew held st dn hp =>
    refine .inl ⟨rfl, rfl, fun T => ?_⟩
    have hup : T.frame ⟨role, env, p⟩ = T.frame ⟨role, env, .run next⟩ := T.up hp.up trivial
    have hplaced := T.placed_of_places hp
    have hstart := T.start job
    have hnone : T.placed (.run next) = 0 := rfl
    have hnone' : T.placed job.frame.point = 0 := rfl
    simp only [Tally.total, Multiset.map_cons, Multiset.sum_cons, Tally.whole]
    omega
  | @take job c crew held st dn =>
    refine .inl ⟨rfl, rfl, fun T => ?_⟩
    have hstart := T.start job
    have hnone : T.placed job.frame.point = 0 := rfl
    simp only [Tally.total, Multiset.map_cons, Multiset.sum_cons, Tally.whole]
    omega
  | @ends f d c c' crew held st dn hends =>
    refine .inr (.inr ⟨f, d, Multiset.mem_cons_self f crew, hends, rfl, fun T => ?_⟩)
    simp only [Tally.total, Multiset.map_cons, Multiset.sum_cons]
    omega

/-! ## Counting tasks -/

/-- A task's number and session are wanted. -/
def Role.Is (P : Nat × Option Nat → Prop) : Role → Prop
  | .outer => False
  | .task id session => P (id, session)

instance (P : Nat × Option Nat → Prop) [DecidablePred P] (role : Role) : Decidable (role.Is P) :=
  match role with
  | .outer => inferInstanceAs (Decidable False)
  | .task id session => inferInstanceAs (Decidable (P (id, session)))

@[simp] theorem Common.given_modify (c : Common σ ρ) (s : Nat) (f : Session ρ → Session ρ) :
    (c.modify s f).given = c.given := rfl

/-- How far a task is in its end. -/
def Point.phase : Point σ ρ → Nat
  | .leave => 1
  | .drop => 2
  | _ => 0

theorem Point.Up.phase {p : Point σ ρ} (h : p.Up) : p.phase = 0 := by
  cases p with
  | run | scan | store | assign => rfl
  | reclaim | leave | drop => exact h.elim

/-- Counts the wanted tasks wherever they are, until they are past a phase. -/
def Tally.tasks (σ ρ : Type) (P : Nat × Option Nat → Prop) [DecidablePred P] (phase : Nat) :
    Tally σ ρ where
  job j := if P (j.id, j.session) then 1 else 0
  frame f := if f.role.Is P ∧ f.point.phase ≤ phase then 1 else 0
  start _ := by simp [Job.frame, Role.Is, Point.phase]
  up hp hp' := by simp only [hp.phase, hp'.phase]

theorem sum_map_ite {α : Type} (s : Multiset α) (p : α → Prop) [DecidablePred p] :
    (s.map fun a => if p a then 1 else 0).sum = s.countP p := by
  induction s using Multiset.induction_on with
  | empty => rfl
  | cons a s ih => rw [Multiset.map_cons, Multiset.sum_cons, ih, Multiset.countP_cons, add_comm]

theorem Tally.whole_tasks (P : Nat × Option Nat → Prop) [DecidablePred P] (phase : Nat)
    (f : Frame σ ρ) : (tasks σ ρ P phase).whole f =
      (if f.role.Is P ∧ f.point.phase ≤ phase then 1 else 0) +
        if ∃ job, f.point.job? = some job ∧ P (job.id, job.session) then 1 else 0 := by
  rw [whole, placed]
  cases f.point.job? <;> simp [tasks]

theorem Tally.total_tasks (P : Nat × Option Nat → Prop) [DecidablePred P] (phase : Nat)
    (x : Census σ ρ) : (tasks σ ρ P phase).total x =
      x.crew.countP (fun f => ∃ job, f.point.job? = some job ∧ P (job.id, job.session)) +
        x.held.countP (fun job => P (job.id, job.session)) +
        x.crew.countP fun f => f.role.Is P ∧ f.point.phase ≤ phase := by
  have hjob : (x.held.map (tasks σ ρ P phase).job).sum =
      x.held.countP fun job => P (job.id, job.session) := sum_map_ite _ _
  rw [total, hjob, Multiset.map_congr rfl fun f _ => whole_tasks P phase f, Multiset.sum_map_add,
    sum_map_ite, sum_map_ite]
  omega

/-- Nothing is counted before the first step. -/
theorem Tally.total_start (T : Tally σ ρ) (workers : Nat) (shared : σ) (codes : List (Code σ ρ))
    (h : ∀ code, T.whole ⟨.outer, .empty, .run code⟩ = 0) :
    T.total (Machine.start workers shared codes).census = 0 := by
  have hheld : (Machine.start workers shared codes).census.held = 0 := by
    simp [Machine.census, Machine.start, Pool.new, Slot.held]
  rw [total, hheld, Multiset.map_zero, Multiset.sum_zero, add_zero]
  refine Multiset.sum_eq_zero fun n hn => ?_
  obtain ⟨f, hf, rfl⟩ := Multiset.mem_map.1 hn
  obtain ⟨code, rfl⟩ := Machine.mem_crew_start hf
  exact h code

end TickEngine
