/-
  Handing tasks to workers runs none twice, and loses none while the pool is in
  use.

  A task is unplaced until it is in a slot, stored until a worker takes it out,
  then running, and finished when it ends, with a panic or without.  In every
  reached machine each task that was handed in is just one of these
  (`Machine.Reaches.tasks`).  A worker that leaves looks at its slot first and
  at the flag of the pool after that, so a task that is assigned in between,
  just before the pool is given up, stays in the slot (`Machine.Stranded`).

  * `Machine.Reaches.handOff`: where tasks are, and who uses which slot;
  * `Machine.Step.stranded_iff`: which tasks are lost is settled when the pool
    is given up.
-/
import TickEngine.Proofs.Census

namespace TickEngine

variable {σ ρ : Type}

/-! ## Where a task is -/

/-- The task that a code belongs to. -/
def Role.id? : Role → Option Nat
  | .outer => none
  | .task id _ => some id

@[simp] theorem Role.id?_task (id : Nat) (session : Option Nat) :
    (task id session).id? = some id := rfl

/-- A worker that does not look at its slot again once the pool is given up. -/
def Thread.Leaving : Thread σ ρ → Prop
  | .quit | .gone => True
  | _ => False

namespace Machine

/-- How often the task is being placed. -/
def unplaced (m : Machine σ ρ) (k : Nat) : Nat :=
  (Thread.crew m.threads).countP fun f => f.point.job?.map Job.id = some k

/-- How often the task is in a slot. -/
def stored (m : Machine σ ρ) (k : Nat) : Nat :=
  (Slot.held m.pool.slots).countP fun job => job.id = k

/-- How often the task is being run. -/
def running (m : Machine σ ρ) (k : Nat) : Nat :=
  (Thread.crew m.threads).countP fun f => f.role.id? = some k

/-- How often the task has ended. -/
def finished (m : Machine σ ρ) (k : Nat) : Nat := m.done.countP fun d => d.1 = k

end Machine

/-- Counts a task wherever it is. -/
def Tally.task (σ ρ : Type) (k : Nat) : Tally σ ρ := tasks σ ρ (·.1 = k) 2

theorem Point.phase_le (p : Point σ ρ) : p.phase ≤ 2 := by
  cases p <;> simp [phase]

theorem Point.Quiet.job? {p : Point σ ρ} (h : p.Quiet) : p.job? = none := by
  cases p with
  | scan | store | assign => exact h.elim
  | _ => rfl

theorem Role.is_iff {role : Role} {k : Nat} : role.Is (·.1 = k) ↔ role.id? = some k := by
  cases role <;> simp [Is, id?]

theorem Machine.total_task (m : Machine σ ρ) (k : Nat) :
    (Tally.task σ ρ k).total m.census = m.unplaced k + m.stored k + m.running k := by
  simp only [Tally.task, Tally.total_tasks, Role.is_iff, Point.phase_le, and_true]
  simp only [unplaced, stored, running, Option.map_eq_some_iff]
  rfl

/-- A frame that moves hands in a new task or none. -/
theorem Advance.whole_task {f f' : Frame σ ρ} {c c' : Common σ ρ} (h : Advance f c f' c')
    (k : Nat) :
    (Tally.task σ ρ k).whole f' + (if k < c.given then 1 else 0) =
      (Tally.task σ ρ k).whole f + if k < c'.given then 1 else 0 := by
  have hnew : (if c.given = k then 1 else 0) + (if k < c.given then 1 else 0) =
      if k < c.given + 1 then 1 else 0 := by
    split_ifs <;> omega
  simp only [Tally.task, Tally.whole_tasks, Point.phase_le, and_true]
  cases h with
  | post | hand =>
    simp only [Point.job?, Option.some.injEq, exists_eq_left', reduceCtorEq, false_and,
      exists_false, if_false]
    omega
  | act | opens | check => simp only [Point.job?, reduceCtorEq, false_and, exists_false, if_false]
  | reclaim | settle | leave =>
    simp only [Point.job?, reduceCtorEq, false_and, exists_false, if_false]
    rfl

theorem Ends.whole_task {f : Frame σ ρ} {c c' : Common σ ρ} {d : Nat × Option Nat}
    (h : Ends f c d c') (k : Nat) :
    (Tally.task σ ρ k).whole f = (if d.1 = k then 1 else 0) ∧ c'.given = c.given := by
  rw [Tally.task, Tally.whole_tasks]
  cases h <;> simp [Role.Is, Point.phase, Point.job?]

theorem Ends.id?_role {f : Frame σ ρ} {c c' : Common σ ρ} {d : Nat × Option Nat}
    (h : Ends f c d c') : f.role.id? = some d.1 := by
  cases h <;> rfl

/-! ## Every task, once -/

/-- A task that was handed in is somewhere, once, and one that is run or has
    ended was started, once. -/
structure Census.Accounted (x : Census σ ρ) : Prop where
  somewhere : ∀ k, (Tally.task σ ρ k).total x + x.done.countP (fun d => d.1 = k) =
    if k < x.common.given then 1 else 0
  started : ∀ k, x.started.count k =
    x.crew.countP (fun f => f.role.id? = some k) + x.done.countP fun d => d.1 = k

theorem Census.Step.started {x x' : Census σ ρ} (h : Step x x') {k : Nat}
    (hx : x.started.count k =
      x.crew.countP (fun f => f.role.id? = some k) + x.done.countP fun d => d.1 = k) :
    x'.started.count k =
      x'.crew.countP (fun f => f.role.id? = some k) + x'.done.countP fun d => d.1 = k := by
  cases h with
  | stay => exact hx
  | advance hadvance => simpa only [Multiset.countP_cons, hadvance.role_eq] using hx
  | carry | put | assign => simpa only [Multiset.countP_cons] using hx
  | inline | take =>
    simp only [Multiset.countP_cons, List.count_append, List.count_singleton, Job.frame,
      Role.id?_task, Option.some.injEq, beq_iff_eq] at hx ⊢
    omega
  | ends hends =>
    simp only [Multiset.countP_cons, List.countP_append, List.countP_singleton, hends.id?_role,
      Option.some.injEq, decide_eq_true_eq] at hx ⊢
    omega

theorem Census.Step.accounted {x x' : Census σ ρ} (h : Step x x') (hx : x.Accounted) :
    x'.Accounted := by
  refine ⟨fun k => ?_, fun k => h.started (hx.started k)⟩
  have hk := hx.somewhere k
  rcases h.total with
    ⟨hcommon, hdone, htotal⟩ | ⟨f, f', -, hadvance, hdone, htotal⟩ | ⟨f, d, -, hends, hdone, htotal⟩
  · rw [hcommon, hdone, htotal, hk]
  · have hwhole := hadvance.whole_task k
    have htotal := htotal (Tally.task σ ρ k)
    rw [hdone]
    omega
  · have htotal := htotal (Tally.task σ ρ k)
    obtain ⟨hwhole, hgiven⟩ := hends.whole_task k
    rw [hdone, hgiven, List.countP_append, List.countP_singleton]
    simp only [decide_eq_true_eq]
    omega

namespace Machine

variable {m m' : Machine σ ρ} {i j k : Nat} {workers : Nat} {shared : σ} {codes : List (Code σ ρ)}

theorem accounted_start (workers : Nat) (shared : σ) (codes : List (Code σ ρ)) :
    (start workers shared codes).census.Accounted := by
  refine ⟨fun k => ?_, fun k => ?_⟩
  · rw [Tally.total_start _ workers shared codes fun _ => rfl]
    rfl
  · rw [Multiset.countP_eq_zero.2 fun f hf => ?_]
    · rfl
    obtain ⟨code, rfl⟩ := mem_crew_start hf
    nofun

theorem Reaches.accounted (h : m.Reaches m') (hsound : Sound m.pool m.threads)
    (hm : m.census.Accounted) : m'.census.Accounted := by
  induction h with
  | refl => exact hm
  | tail hreaches hstep ih =>
    have hmid : Sound _ _ := Reaches.sound hreaches hsound
    exact (hstep.census hmid).accounted ih

/-! ## Who writes to a slot -/

/-- **A claimed slot is changed by a thread that has claimed it.** -/
theorem Step.claimed (h : m.Step m') (hsound : Sound m.pool m.threads) {slot : Slot (Job σ ρ)}
    (hslot : m.pool.slots[j]? = some slot) (hclaimed : slot.state = .claimed)
    (hchange : m'.pool.slots[j]? ≠ some slot) :
    ∃ i f f' b, m.top? i = some f ∧ f.point.claim? = some (j, b) ∧
      m'.threads = (m.setTop i f').threads := by
  have hset : ∀ {j' slot'}, (m.pool.slots.set j' slot')[j]? ≠ some slot → j' = j := by
    intro j' slot' hne
    by_contra hjj
    exact hne (by rwa [List.getElem?_set_ne hjj])
  cases h with
  | @claim i role env j' job next slot' htop hslot' hidle =>
    obtain rfl := hset hchange
    obtain rfl := Option.some.inj (hslot.symm.trans hslot')
    exact nomatch hclaimed.symm.trans hidle
  | put htop hslot' =>
    obtain rfl := hset hchange
    exact ⟨_, _, _, _, htop, rfl, rfl⟩
  | assign htop hslot' =>
    obtain rfl := hset hchange
    exact ⟨_, _, _, _, htop, rfl, rfl⟩
  | take ht hslot' =>
    obtain rfl := hset hchange
    exact nomatch hclaimed.symm.trans (hsound.fits_of ht hslot).1
  | reset ht hslot' =>
    obtain rfl := hset hchange
    exact nomatch hclaimed.symm.trans (hsound.fits_of ht hslot).1
  | _ => exact absurd hslot hchange

theorem Step.length_slots (h : m.Step m') : m'.pool.slots.length = m.pool.slots.length := by
  cases h with
  | claim | put | assign | take | reset => exact List.length_set
  | _ => rfl

/-- A thread that runs a task is a worker. -/
theorem worker_of_task {t : Thread σ ρ} {f : Frame σ ρ} (hsound : Sound m.pool m.threads)
    (ht : m.threads[i]? = some t) (hf : f ∈ t.frames) (hrole : f.role ≠ .outer) :
    ∃ slot, m.pool.slots[i]? = some slot ∧ slot.Fits t := by
  refine hsound.slot_of_worker ht ?_
  rintro top rfl
  obtain rfl := List.mem_singleton.1 hf
  exact hrole (hsound.cast _ (List.mem_of_getElem? ht))

theorem Reaches.tasks (h : (start workers shared codes).Reaches m) (k : Nat) :
    m.unplaced k + m.stored k + m.running k + m.finished k = (if k < m.common.given then 1 else 0) ∧
      m.started.count k = m.running k + m.finished k := by
  have haccounted := h.accounted (sound_start workers shared codes)
    (accounted_start workers shared codes)
  exact ⟨total_task m k ▸ haccounted.somewhere k, haccounted.started k⟩

/-- There is a worker. -/
theorem Reaches.slots_pos (h : (start workers shared codes).Reaches m) :
    0 < m.pool.slots.length := by
  induction h with
  | refl => simp [start, Pool.new]
  | tail _ hstep ih => exact hstep.length_slots ▸ ih

/-! ## What becomes of tasks when the pool is given up -/

/-- The task is in the slot of a worker that does not look at it again. -/
def Strands (m : Machine σ ρ) (i k : Nat) : Prop :=
  ∃ (t : Thread σ ρ) (slot : Slot (Job σ ρ)) (job : Job σ ρ), m.threads[i]? = some t ∧ t.Leaving ∧
    m.pool.slots[i]? = some slot ∧ slot.task = some job ∧ job.id = k

/-- The pool is given up, and the task is left in a slot. -/
def Stranded (m : Machine σ ρ) (k : Nat) : Prop := m.pool.running = false ∧ ∃ i, m.Strands i k

/-- Some worker that is not leaving has the task in its slot or runs it. -/
def Keeps (m : Machine σ ρ) (k : Nat) : Prop :=
  ∃ (i : Nat) (t : Thread σ ρ) (slot : Slot (Job σ ρ)), m.threads[i]? = some t ∧
    m.pool.slots[i]? = some slot ∧ ¬ t.Leaving ∧
    ((∃ job, slot.task = some job ∧ job.id = k) ∨ ∃ f ∈ t.frames, f.role.id? = some k)

/-- No task is left in a slot while the pool is in use. -/
theorem not_stranded (h : m.pool.running = true) (k : Nat) : ¬ m.Stranded k :=
  fun ⟨hrun, _⟩ => nomatch h.symm.trans hrun

theorem Strands.leaving (h : m.Strands i k) {t : Thread σ ρ} (ht : m.threads[i]? = some t) :
    t.Leaving := by
  obtain ⟨t', slot, job, ht', hleaving, -⟩ := h
  obtain rfl := Option.some.inj (ht.symm.trans ht')
  exact hleaving

theorem strands_congr (hthread : m'.threads[i]? = m.threads[i]?)
    (hslot : m'.pool.slots[i]? = m.pool.slots[i]?) : m'.Strands i k ↔ m.Strands i k := by
  rw [Strands, Strands, hthread, hslot]

/-- A worker that is not leaving does something, to its slot or without it. -/
theorem strands_of_set {t t' : Thread σ ρ} (ht : m.threads[i]? = some t) (hstays : ¬ t.Leaving)
    (hstays' : ¬ t'.Leaving) (hthreads : m'.threads = m.threads.set i t')
    (hslots : ∀ j, i ≠ j → m'.pool.slots[j]? = m.pool.slots[j]?) :
    m'.Strands j k ↔ m.Strands j k := by
  by_cases hij : i = j
  · subst hij
    refine iff_of_false (fun h => hstays' (h.leaving ?_)) fun h => hstays (h.leaving ht)
    rw [hthreads, getElem?_set_of_some ht]
  · exact strands_congr (by rw [hthreads, List.getElem?_set_ne hij]) (hslots j hij)

theorem strands_setTop {f f' : Frame σ ρ} (htop : m.top? i = some f) :
    (m.setTop i f').Strands j k ↔ m.Strands j k := by
  obtain ⟨t, ht, htop, hset⟩ := top?_eq_some htop
  have hstays : ¬ t.Leaving ∧ ¬ (t.withTop f').Leaving := by
    cases t <;> first | exact ⟨id, id⟩ | cases htop
  exact strands_of_set ht hstays.1 hstays.2 (by rw [setTop, hset]) fun _ _ => rfl

/-- **Once the pool is given up, no more tasks are lost and none is found.** -/
theorem Step.stranded_iff (h : m.Step m') (hsound : Sound m.pool m.threads)
    (hrun : m.pool.running = false) (k : Nat) : m'.Stranded k ↔ m.Stranded k := by
  have hquiet : ∀ {i : Nat} {f : Frame σ ρ}, m.top? i = some f → f.point.Quiet := by
    intro i f htop
    obtain ⟨t, ht, htop, -⟩ := top?_eq_some htop
    exact hsound.quiet_of_mem hrun ht (top_mem htop)
  suffices hsame : m'.pool.running = false ∧ ∀ j, m'.Strands j k ↔ m.Strands j k by
    rw [Stranded, Stranded, hsame.1, hrun]
    exact and_congr_right fun _ => exists_congr hsame.2
  cases h with
  | advance htop => exact ⟨hrun, fun j => strands_setTop htop⟩
  | pass htop | claim htop | put htop | assign htop => exact (hquiet htop).elim
  | rescan ht => exact (hquiet (top?_of_outer ht)).elim
  | inline ht => exact (hsound.quiet_of_mem hrun ht List.mem_cons_self).elim
  | look ht | miss ht | back ht | finish ht =>
    exact ⟨hrun, fun j => strands_of_set ht id id rfl fun _ _ => rfl⟩
  | take ht | reset ht =>
    exact ⟨hrun, fun j => strands_of_set ht id id rfl fun j hij => List.getElem?_set_ne hij⟩
  | @glance i slot ht hslot hidle =>
    refine ⟨hrun, fun j => ?_⟩
    by_cases hij : i = j
    · -- its slot is empty before and after
      subst hij
      have hempty := (hsound.fits_of ht hslot).task_eq_none hidle
      refine iff_of_false ?_ fun h => h.leaving ht
      rintro ⟨t, slot', job, -, -, hslot', htask, -⟩
      obtain rfl := Option.some.inj (hslot.symm.trans hslot')
      cases hempty.symm.trans htask
    · exact strands_congr (List.getElem?_set_ne hij) rfl
  | stay _ hused => cases hused.symm.trans hrun
  | @exit i ht =>
    refine ⟨hrun, fun j => ?_⟩
    by_cases hij : i = j
    · subst hij
      have hgone : (m.setThread i .gone).threads[i]? = some .gone := getElem?_set_of_some ht _
      constructor
      · rintro ⟨t, slot, job, -, -, hslot⟩
        exact ⟨.quit, slot, job, ht, trivial, hslot⟩
      · rintro ⟨t, slot, job, -, -, hslot⟩
        exact ⟨.gone, slot, job, hgone, trivial, hslot⟩
    · exact strands_congr (List.getElem?_set_ne hij) rfl
  | shut => exact ⟨rfl, fun j => .rfl⟩

/-- Only the drop of its last handle ends the use of a pool. -/
theorem Step.quiet_of_running (h : m.Step m') (hused : m.pool.running = true)
    (hrun : m'.pool.running = false) : m.Quiet := by
  cases h with
  | shut hquiet => exact hquiet
  | _ => cases hused.symm.trans hrun

/-- A task that is left in a slot stays there. -/
theorem Reaches.stranded (h : m.Reaches m') (hsound : Sound m.pool m.threads)
    (hk : m.Stranded k) : m'.Stranded k := by
  induction h with
  | refl => exact hk
  | tail hreaches hstep ih =>
    have hmid : Sound _ _ := Reaches.sound hreaches hsound
    exact (hstep.stranded_iff hmid ih.1 k).2 ih

/-- A task that is left in a slot was not started. -/
theorem Reaches.not_started (h : (start workers shared codes).Reaches m) (hk : m.Stranded k) :
    m.started.count k = 0 ∧ m.finished k = 0 := by
  obtain ⟨-, i, t, slot, job, -, -, hslot, htask, hid⟩ := hk
  have hstored : 0 < m.stored k :=
    Multiset.countP_pos.2 ⟨job, Slot.mem_held.2 ⟨slot, List.mem_of_getElem? hslot, htask⟩, hid⟩
  obtain ⟨htotal, hstarted⟩ := h.tasks k
  split at htotal <;> omega

/-- Once the pool is given up, a task is finished, or a worker keeps it, or it
    is lost. -/
theorem Reaches.finished_or_kept (h : (start workers shared codes).Reaches m)
    (hrun : m.pool.running = false) (hk : k < m.common.given) :
    m.finished k = 1 ∨ m.Keeps k ∨ m.Stranded k := by
  have hsound := h.sound (sound_start workers shared codes)
  by_cases hkeeps : m.Keeps k
  · exact .inr (.inl hkeeps)
  by_cases hstranded : m.Stranded k
  · exact .inr (.inr hstranded)
  have hunplaced : m.unplaced k = 0 := by
    refine Multiset.countP_eq_zero.2 fun f hf hjob => ?_
    have hquiet := (hsound.quiet hrun).1 f hf
    rw [hquiet.job?] at hjob
    cases hjob
  have hstored : m.stored k = 0 := by
    refine Multiset.countP_eq_zero.2 fun job hjob hid => ?_
    obtain ⟨slot, hslot, htask⟩ := Slot.mem_held.1 hjob
    obtain ⟨i, hi⟩ := List.mem_iff_getElem?.1 hslot
    obtain ⟨t, ht, -⟩ := hsound.fits hi
    by_cases hleaving : t.Leaving
    · exact hstranded ⟨hrun, i, t, slot, job, ht, hleaving, hi, htask, hid⟩
    · exact hkeeps ⟨i, t, slot, ht, hi, hleaving, .inl ⟨job, htask, hid⟩⟩
  have hrunning : m.running k = 0 := by
    refine Multiset.countP_eq_zero.2 fun f hf hid => ?_
    obtain ⟨t, ht, hft⟩ := Thread.mem_crew.1 hf
    obtain ⟨i, hi⟩ := List.mem_iff_getElem?.1 ht
    obtain ⟨slot, hslot, -⟩ := worker_of_task hsound hi hft fun hrole => by
      rw [hrole] at hid
      cases hid
    refine hkeeps ⟨i, t, slot, hi, hslot, fun hleaving => ?_, .inr ⟨f, hft, hid⟩⟩
    cases t with
    | quit | gone => cases hft
    | _ => exact hleaving
  obtain ⟨htotal, -⟩ := h.tasks k
  rw [if_pos hk] at htotal
  exact .inl (by omega)

/-- What is true of handing tasks to workers, at any time. -/
structure HandOff (m : Machine σ ρ) : Prop where
  /-- A task that was handed in is unplaced, in a slot, running, or finished,
      and just one of these. -/
  once : ∀ k < m.common.given, m.unplaced k + m.stored k + m.running k + m.finished k = 1
  /-- A task that is running or finished was started once, and no other task
      was started. -/
  started : ∀ k < m.common.given, m.started.count k = m.running k + m.finished k
  /-- A claimed slot was claimed by one thread. -/
  claimer : ∀ {j : Nat} {slot : Slot (Job σ ρ)}, m.pool.slots[j]? = some slot →
    slot.state = .claimed → ∀ filled, Thread.claims (j, filled) (Thread.crew m.threads) =
      if slot.task.isSome = filled then 1 else 0
  /-- No other thread writes to it. -/
  writer : ∀ {j : Nat} {slot : Slot (Job σ ρ)} {m' : Machine σ ρ},
    m.pool.slots[j]? = some slot → slot.state = .claimed → m.Step m' →
      m'.pool.slots[j]? ≠ some slot → ∃ i f f' filled, m.top? i = some f ∧
        f.point.claim? = some (j, filled) ∧ m'.threads = (m.setTop i f').threads
  /-- A worker that sees its slot assigned finds a task. -/
  found : ∀ {i : Nat} {t : Thread σ ρ} {slot : Slot (Job σ ρ)}, m.threads[i]? = some t →
    m.pool.slots[i]? = some slot → t = .look ∧ slot.state = .assigned ∨ t = .take →
      slot.task.isSome
  /-- The slot of a worker that runs tasks is not idle, and nobody claims it. -/
  busy : ∀ {i : Nat} {top : Frame σ ρ} {below : List (Frame σ ρ)},
    m.threads[i]? = some (.work top below) →
      (∃ slot, m.pool.slots[i]? = some slot ∧ slot.state = .assigned) ∧
        ∀ filled, Thread.claims (i, filled) (Thread.crew m.threads) = 0
  /-- Only workers run tasks, also on top of others. -/
  inline : ∀ {i : Nat} {t : Thread σ ρ}, m.threads[i]? = some t →
    (∃ f ∈ t.frames, f.role ≠ .outer) ∨ 1 < t.frames.length → i < m.pool.slots.length
  /-- The slot of a worker that left is idle and empty, or assigned with a task
      that is lost. -/
  left : ∀ {i : Nat}, m.threads[i]? = some .gone → ∃ slot, m.pool.slots[i]? = some slot ∧
    (slot.state = .idle ∧ slot.task = none ∨
      slot.state = .assigned ∧ ∃ job, slot.task = some job ∧ m.Stranded job.id)
  /-- Once the pool is given up, a task is finished, or a worker keeps it, or it
      is lost. -/
  kept : m.pool.running = false → ∀ k < m.common.given,
    m.finished k = 1 ∨ m.Keeps k ∨ m.Stranded k
  /-- When all workers have left, every task is finished or lost. -/
  joined : (∀ i < m.pool.slots.length, m.threads[i]? = some .gone) →
    ∀ k < m.common.given, m.finished k = 1 ∨ m.Stranded k
  /-- A task that is lost is never started, and only the drop of the last handle
      loses tasks. -/
  lost : ∀ k, (m.Stranded k → ∀ m', m.Reaches m' → m'.started.count k = 0 ∧ m'.finished k = 0) ∧
    ∀ m', m.Step m' → m'.Stranded k → ¬ m.Stranded k → m.pool.running = true ∧ m.Quiet

/-- **Handing tasks to workers runs none twice, and loses none but those that are
    assigned between the two looks of a worker that leaves**, whatever the
    numbers of workers and of threads from outside, whatever they do, and
    whatever the order of their steps. -/
theorem Reaches.handOff (h : (start workers shared codes).Reaches m) : m.HandOff where
  once k hk := (h.tasks k).1.trans (if_pos hk)
  started k _ := (h.tasks k).2
  claimer {j slot} hslot hclaimed filled := by
    rw [(h.sound (sound_start workers shared codes)).claims hslot, Slot.claim?, if_pos hclaimed]
    simp only [Option.some.injEq]
  writer hslot hclaimed hstep hchange :=
    hstep.claimed (h.sound (sound_start workers shared codes)) hslot hclaimed hchange
  found ht hslot := by
    have hfits := (h.sound (sound_start workers shared codes)).fits_of ht hslot
    rintro (⟨rfl, hassigned⟩ | rfl)
    · exact hfits.2 hassigned
    · exact hfits.2
  busy {i top below} ht := by
    have hsound := h.sound (sound_start workers shared codes)
    obtain ⟨slot, hslot, hassigned, -⟩ := hsound.slot_of_worker ht fun _ heq => by cases heq
    refine ⟨⟨slot, hslot, hassigned⟩, fun filled => ?_⟩
    rw [hsound.claims hslot, Slot.claim?, hassigned]
    rfl
  inline {i t} ht htask := by
    have hsound := h.sound (sound_start workers shared codes)
    obtain ⟨slot, hslot, -⟩ := hsound.slot_of_worker ht (by
      rintro f rfl
      rcases htask with ⟨f', hf', hrole⟩ | hlength
      · obtain rfl := List.mem_singleton.1 hf'
        exact hrole (hsound.cast _ (List.mem_of_getElem? ht))
      · exact Nat.lt_irrefl 1 hlength)
    exact (List.getElem?_eq_some_iff.1 hslot).1
  left {i} ht := by
    have hsound := h.sound (sound_start workers shared codes)
    have hrun : m.pool.running = false := hsound.left (List.mem_of_getElem? ht)
    obtain ⟨slot, hslot, hidle, hassigned⟩ := hsound.slot_of_worker ht fun _ heq => by cases heq
    refine ⟨slot, hslot, ?_⟩
    cases hstate : slot.state with
    | idle => exact .inl ⟨rfl, hidle hstate⟩
    | claimed => exact absurd hstate (hsound.not_claimed hrun hslot)
    | assigned =>
      obtain ⟨job, htask⟩ := Option.isSome_iff_exists.1 (hassigned hstate)
      exact .inr ⟨rfl, job, htask, hrun, i, .gone, slot, job, ht, trivial, hslot, htask, rfl⟩
  kept hrun k hk := h.finished_or_kept hrun hk
  joined hgone k hk := by
    have hsound := h.sound (sound_start workers shared codes)
    have hrun : m.pool.running = false :=
      hsound.left (List.mem_of_getElem? (hgone 0 h.slots_pos))
    refine (h.finished_or_kept hrun hk).imp_right fun hkept => hkept.resolve_left ?_
    rintro ⟨i, t, slot, ht, hslot, hstays, -⟩
    rw [hgone i (List.getElem?_eq_some_iff.1 hslot).1] at ht
    obtain rfl := Option.some.inj ht
    exact hstays trivial
  lost k := by
    have hsound := h.sound (sound_start workers shared codes)
    refine ⟨fun hk m' hm' => Reaches.not_started (h.trans hm') (hm'.stranded hsound hk), ?_⟩
    intro m' hstep hk hnot
    have hrun : m.pool.running = true := by
      by_contra hused
      exact hnot ((hstep.stranded_iff hsound (Bool.eq_false_iff.2 hused) k).1 hk)
    exact ⟨hrun, hstep.quiet_of_running hrun hk.1⟩

/-- A task that panics on top of the one that handed it in, on a single worker
    that leaves after them. -/
theorem handOff_inline :
    ∃ m : Machine Unit Nat,
      (start 1 () [.post (.post (.panic .other) (.value 1)) (.value 0)]).Reaches m ∧
        m.HandOff ∧ m.started = [0, 1] ∧ m.done = [(1, none), (0, none)] ∧
        m.threads[0]? = some .gone ∧ m.finished 0 = 1 ∧ m.finished 1 = 1 := by
  have hreaches := (Relation.ReflTransGen.refl (r := Step)
      (a := start 1 () [.post (.post (.panic .other) (.value 1) : Code Unit Nat) (.value 0)]))
    |>.tail (.advance (i := 1) rfl .post)
    |>.tail (.claim (i := 1) rfl rfl rfl)
    |>.tail (.put (i := 1) rfl rfl)
    |>.tail (.assign (i := 1) rfl rfl)
    |>.tail (.look (i := 0) rfl rfl rfl)
    |>.tail (.take (i := 0) rfl rfl rfl)
    |>.tail (.advance (i := 0) rfl .post)
    |>.tail (.pass (i := 0) rfl rfl nofun)
    |>.tail (.inline (i := 0) rfl rfl)
    |>.tail (.back (i := 0) rfl (.bare rfl))
    |>.tail (.finish (i := 0) rfl (.bare rfl))
    |>.tail (.reset (i := 0) rfl rfl)
    |>.tail (.shut ⟨List.forall_mem_cons.2 ⟨nofun, List.forall_mem_singleton.2
      (List.forall_mem_singleton.2 trivial)⟩, List.forall_mem_singleton.2 nofun⟩)
    |>.tail (.glance (i := 0) rfl rfl rfl)
    |>.tail (.exit (i := 0) rfl rfl)
  have hoff := Reaches.handOff hreaches
  have hjoined := hoff.joined fun i hi => by
    obtain rfl : i = 0 := Nat.lt_one_iff.1 hi
    rfl
  refine ⟨_, hreaches, hoff, rfl, rfl, rfl, (hjoined 0 (by decide)).resolve_right ?_,
    (hjoined 1 (by decide)).resolve_right ?_⟩ <;>
  · rintro ⟨-, i, t, slot, job, -, -, hslot, htask, -⟩
    obtain rfl := List.mem_singleton.1 (List.mem_of_getElem? hslot)
    cases htask

/-- **A task that is handed in between the two looks is lost**: the slot is idle
    at the first one, the pool is given up at the second.  All workers have
    left, and the task will not be run. -/
theorem lost_between_looks :
    ∃ m : Machine Unit Nat, (start 1 () [.post (.value 1) (.value 0)]).Reaches m ∧
      m.pool.slots.length = 1 ∧ m.threads[0]? = some .gone ∧ m.common.given = 1 ∧
      (∃ slot, m.pool.slots[0]? = some slot ∧ slot.state = .assigned ∧ slot.task.isSome) ∧
      ∀ m', m.Reaches m' → m'.started.count 0 = 0 ∧ m'.finished 0 = 0 := by
  have hreaches := (Relation.ReflTransGen.refl (r := Step)
      (a := start 1 () [.post (.value 1 : Code Unit Nat) (.value 0)]))
    |>.tail (.glance (i := 0) rfl rfl rfl)
    |>.tail (.advance (i := 1) rfl .post)
    |>.tail (.claim (i := 1) rfl rfl rfl)
    |>.tail (.put (i := 1) rfl rfl)
    |>.tail (.assign (i := 1) rfl rfl)
    |>.tail (.shut ⟨List.forall_mem_cons.2 ⟨nofun, List.forall_mem_singleton.2
      (List.forall_mem_singleton.2 trivial)⟩, List.forall_mem_singleton.2 (by
        rintro job ⟨⟩
        trivial)⟩)
    |>.tail (.exit (i := 0) rfl rfl)
  have hsound := Reaches.sound hreaches (sound_start _ _ _)
  refine ⟨_, hreaches, rfl, rfl, rfl, ⟨_, rfl, rfl, rfl⟩, fun m' hm' => ?_⟩
  exact Reaches.not_started (hreaches.trans hm') (Reaches.stranded hm' hsound
    ⟨rfl, 0, .gone, _, _, rfl, trivial, rfl, rfl, rfl⟩)

end Machine

end TickEngine
