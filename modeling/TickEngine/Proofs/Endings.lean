/-
  One worker comes to an end.

  Wherever a machine with one worker and one thread from outside has got to, it
  can go on until the thread from outside is at the end of its code and no task
  is left (`Machine.Solo.over`).  A worker that runs a code can go on to the
  end of it, by induction on the code, since it runs the tasks of the code
  itself and they are over when it waits (`Line.Linked.free`).
-/
import TickEngine.Proofs.OneWorker

namespace TickEngine

variable {σ ρ : Type}

/-! ## Waiting -/

/-- The first frame of a line does not wait for others. -/
theorem Line.Linked.free {x : Line σ ρ} {f : Frame σ ρ} {rest : List (Frame σ ρ)} {s : Nat}
    (hx : x.Linked) (howned : x.Owned) (hall : x.all = f :: rest) (hholds : f.Holds s)
    (hjob : f.point.job? = none) :
    ∃ session, x.common.sessions[s]? = some session ∧ session.outstanding = 0 ∧
      session.handles = 1 := by
  have hmem : f ∈ x.all := hall ▸ List.mem_cons_self
  have hlt : s < x.common.sessions.length :=
    howned.opened f hmem s (hholds.elim .inl fun h => .inr (.inl h))
  have hsession := List.getElem?_eq_getElem hlt
  have halone := howned.alone
  rw [hall] at halone
  have hothers : ∀ g ∈ rest, ¬ g.Holds s :=
    fun g hg => (List.pairwise_cons.1 halone).1 g hg s hholds
  have hnone : ∀ g ∈ x.all, g.role.session? ≠ some s ∧
      ∀ job, g.point.job? = some job → job.session ≠ some s := by
    intro g hg
    refine ⟨(hall ▸ hx.hosted).session_ne hothers g (hall ▸ hg), fun job hgjob hs => ?_⟩
    have hplaced := hx.placed g hg job s hgjob hs
    rcases List.mem_cons.1 (hall ▸ hg) with rfl | hg
    · cases hjob.symm.trans hgjob
    · exact hothers g hg (.inl hplaced)
  have hfree := howned.free s hnone ⟨f, hmem, hholds⟩
  rw [Common.session_eq_of_getElem? hsession] at hfree
  exact ⟨_, hsession, hfree⟩

namespace Machine

variable {m m' : Machine σ ρ} {t : Thread σ ρ} {f f' o o' : Frame σ ρ} {below : List (Frame σ ρ)}
  {c : Common σ ρ} {s : Nat}

/-! ## Where a machine stands -/

/-- What is true of a machine with one worker and one thread from outside. -/
structure Solo (m : Machine σ ρ) : Prop where
  sound : Sound m.pool m.threads
  counts : ∀ s, (m.session s).Matches (m.census.use s)
  linked : ∃ x, m.Lines x ∧ x.Linked

theorem lines_start (shared : σ) (code : Code σ ρ) :
    (start 1 shared [code]).Lines ⟨[], ⟨.outer, .empty, .run code⟩, { shared }⟩ :=
  ⟨.look, {}, rfl, rfl, rfl, rfl⟩

theorem linked_start (shared : σ) (code : Code σ ρ) :
    Line.Linked ⟨[], ⟨.outer, .empty, .run code⟩, { shared }⟩ :=
  ⟨rfl, rfl, nofun, nofun, nofun, ⟨nofun, trivial⟩, List.forall_mem_singleton.2 nofun, fun _ => rfl⟩

theorem solo_start (shared : σ) (code : Code σ ρ) : (start 1 shared [code]).Solo :=
  ⟨sound_start _ _ _, matches_start _ _ _, _, lines_start shared code, linked_start shared code⟩

theorem Step.solo (h : m.Step m') (hm : m.Solo) : m'.Solo := by
  obtain ⟨hsound, hcounts, x, hlines, hlinked⟩ := hm
  obtain ⟨x', hlines', hstep⟩ := h.line hsound hlines
  exact ⟨h.sound hsound, fun s => (h.census hsound).matches (hcounts s), x', hlines',
    hstep.linked hlinked (hlines.owned hcounts)⟩

theorem Reaches.solo (h : m.Reaches m') (hm : m.Solo) : m'.Solo := by
  induction h with
  | refl => exact hm
  | tail _ hstep ih => exact hstep.solo ih

/-- Where the worker is, and the thread from outside.  No task is lost. -/
structure Stands (m : Machine σ ρ) (t : Thread σ ρ) (o : Frame σ ρ) : Prop where
  solo : m.Solo
  threads : m.threads = [t, .outer o]
  unlost : ∀ k, ¬ m.Stranded k

/-- No task gets lost while the pool is not given up. -/
theorem Stands.step (hm : m.Stands t o) (h : m.Step m') {t' : Thread σ ρ} {o' : Frame σ ρ}
    (ht : m'.threads = [t', .outer o']) (hrun : m'.pool.running = m.pool.running) :
    m.Reaches m' ∧ m'.Stands t' o' := by
  refine ⟨.single h, h.solo hm.solo, ht, fun k hk => ?_⟩
  exact hm.unlost k ((h.stranded_iff hm.solo.sound (hrun ▸ hk.1) k).1 hk)

/-- There is nothing for the worker to do. -/
structure Idle (m : Machine σ ρ) (o : Frame σ ρ) : Prop where
  stands : ∃ t, m.Stands t o ∧ t.frames = []
  slot : ∃ slot, m.pool.slots = [slot] ∧ slot.state = .idle ∧ slot.task = none

/-- The thread from outside is at the end of its code, and no task is left. -/
def Over (m : Machine σ ρ) (r : Except Panic ρ) : Prop :=
  ∃ t slot env code, m.threads = [t, .outer ⟨.outer, env, .run code⟩] ∧ m.pool.slots = [slot] ∧
    t.frames = [] ∧ slot.task = none ∧ code.end? = some r

theorem Idle.over {env : SortedMap Nat Nat} {code : Code σ ρ} {r : Except Panic ρ}
    (h : m.Idle ⟨.outer, env, .run code⟩) (hend : code.end? = some r) : m.Over r := by
  obtain ⟨⟨t, hat, hframes⟩, slot, hslots, -, htask⟩ := h
  exact ⟨t, slot, env, code, hat.threads, hslots, hframes, htask, hend⟩

theorem Lines.over {x : Line σ ρ} {r : Except Panic ρ} (hx : m.Lines x) (h : m.Over r) :
    x.work = [] ∧ ∃ env code, x.outer = ⟨.outer, env, .run code⟩ ∧ code.end? = some r := by
  obtain ⟨t, slot, hthreads, hslots, hwork, -⟩ := hx
  obtain ⟨t', slot', env, code, hthreads', hslots', hframes, htask, hend⟩ := h
  obtain ⟨rfl, houter⟩ : t = t' ∧ x.outer = ⟨.outer, env, .run code⟩ := by
    simpa using hthreads.symm.trans hthreads'
  obtain rfl : slot = slot' := List.singleton_inj.1 (hslots.symm.trans hslots')
  rw [hframes, htask] at hwork
  exact ⟨hwork, env, code, houter, hend⟩

theorem slot_zero {slot : Slot (Job σ ρ)} (h : m.pool.slots = [slot]) :
    m.pool.slots[0]? = some slot := by
  rw [h]
  rfl

namespace Stands

/-- What is known of the slot and of the line. -/
theorem slot (h : m.Stands t o) : ∃ slot, m.pool.slots = [slot] ∧ slot.Fits t ∧
    let x : Line σ ρ := ⟨t.frames ++ slot.task.toList.map Job.frame, o, m.common⟩
    x.Linked ∧ x.Owned := by
  obtain ⟨x, hlines, hlinked⟩ := h.solo.linked
  have howned := hlines.owned h.solo.counts
  obtain ⟨t', slot, hthreads, hslots, hwork, hcommon⟩ := hlines
  obtain ⟨work, o', c⟩ := x
  rw [h.threads] at hthreads
  cases hthreads
  dsimp only at hwork hcommon
  subst hwork hcommon
  refine ⟨slot, hslots, h.solo.sound.fits_of (i := 0) ?_ (slot_zero hslots), hlinked, howned⟩
  rw [h.threads]
  rfl

theorem worker (h : m.Stands t o) : m.threads[0]? = some t := by
  rw [h.threads]
  rfl

theorem outside (h : m.Stands t o) : m.threads[1]? = some (.outer o) := by
  rw [h.threads]
  rfl

theorem setThread (h : m.Stands t o) (t' : Thread σ ρ) :
    (m.setThread 0 t').threads = [t', .outer o] :=
  set_threads h.threads t'

theorem setTop_worker (h : m.Stands (.work f below) o) (f' : Frame σ ρ) :
    (m.setTop 0 f').threads = [.work f' below, .outer o] := by
  rw [setTop, h.threads]
  rfl

theorem setTop_outside (h : m.Stands t o) (o' : Frame σ ρ) :
    (m.setTop 1 o').threads = [t, .outer o'] := by
  rw [setTop, h.threads]
  rfl

theorem top?_worker (h : m.Stands (.work f below) o) : m.top? 0 = some f := by
  rw [top?, h.worker]
  rfl

theorem top?_outside (h : m.Stands t o) : m.top? 1 = some o :=
  top?_of_outer h.outside

theorem advance_worker (h : m.Stands (.work f below) o) (hadvance : Advance f m.common f' c) :
    ∃ m', m.Reaches m' ∧ m'.Stands (.work f' below) o :=
  ⟨_, h.step (.advance h.top?_worker hadvance) (h.setTop_worker f') rfl⟩

theorem advance_outside (h : m.Stands t o) (hadvance : Advance o m.common o' c) :
    ∃ m', m.Reaches m' ∧ m'.Stands t o' :=
  ⟨_, h.step (.advance h.top?_outside hadvance) (h.setTop_outside o') rfl⟩

/-! ## The worker -/

/-- Where a worker goes on after a task. -/
def resume : List (Frame σ ρ) → Thread σ ρ
  | [] => .reset
  | f :: below => .work f below

theorem ends (h : m.Stands (.work f below) o) {d : Nat × Option Nat} (hends : Ends f m.common d c) :
    ∃ m', m.Reaches m' ∧ m'.Stands (resume below) o := by
  cases below with
  | nil => exact ⟨_, h.step (.finish h.worker hends) (h.setThread _) rfl⟩
  | cons g below => exact ⟨_, h.step (.back h.worker hends) (h.setThread _) rfl⟩

/-- A code at its end. -/
theorem over_of_end (h : m.Stands (.work f below) o) {code : Code σ ρ} {r : Except Panic ρ}
    (hpoint : f.point = .run code) (hend : code.end? = some r) :
    ∃ m', m.Reaches m' ∧ m'.Stands (resume below) o := by
  obtain ⟨role, env, p⟩ := f
  cases hpoint
  cases role with
  | outer =>
    have hcast := h.solo.sound.cast _ (List.mem_of_getElem? h.worker)
    exact absurd rfl (hcast _ List.mem_cons_self)
  | task id session =>
    cases session with
    | none => exact h.ends (.bare hend)
    | some s =>
      obtain ⟨m₁, h₁, hat₁⟩ := h.advance_worker (.settle hend)
      obtain ⟨m₂, h₂, hat₂⟩ := hat₁.advance_worker .leave
      obtain ⟨m₃, h₃, hat₃⟩ := hat₂.ends .drop
      exact ⟨m₃, (h₁.trans h₂).trans h₃, hat₃⟩

/-- A worker that places a task comes to run it. -/
theorem inline_worker {role : Role} {env : SortedMap Nat Nat} {job : Job σ ρ} {next : Code σ ρ}
    {j : Nat} (h : m.Stands (.work ⟨role, env, .scan j job next⟩ below) o) :
    ∃ m', m.Reaches m' ∧ m'.Stands (.work job.frame (⟨role, env, .run next⟩ :: below)) o := by
  obtain ⟨slot, hslots, ⟨hassigned, -⟩, -⟩ := h.slot
  have hinline : ∀ {m : Machine σ ρ} {j}, m.Stands (.work ⟨role, env, .scan j job next⟩ below) o →
      m.pool.slots[j]? = none →
      ∃ m', m.Reaches m' ∧ m'.Stands (.work job.frame (⟨role, env, .run next⟩ :: below)) o :=
    fun h hnone => ⟨_, h.step (.inline h.worker hnone) (h.setThread _) rfl⟩
  cases j with
  | zero =>
    have hslot := slot_zero hslots
    have hpass : m.Step (m.setTop 0 ⟨role, env, .scan 1 job next⟩) :=
      .pass h.top?_worker hslot (by rw [hassigned]; nofun)
    obtain ⟨h₁, hat₁⟩ := h.step hpass (h.setTop_worker _) rfl
    obtain ⟨m₂, h₂, hat₂⟩ := hinline hat₁ (by show m.pool.slots[1]? = none; rw [hslots]; rfl)
    exact ⟨m₂, h₁.trans h₂, hat₂⟩
  | succ j => exact hinline h (by rw [hslots]; rfl)

/-- A code that is about to use a session has it opened. -/
theorem opened_worker {role : Role} {env : SortedMap Nat Nat} {code : Code σ ρ} {name : Nat}
    (h : m.Stands (.work ⟨role, env, .run code⟩ below) o) (hname : code.session? = some name) :
    ∃ m' env' s, m.Reaches m' ∧ m'.Stands (.work ⟨role, env', .run code⟩ below) o ∧
      env'.get? name = some s := by
  cases hget : env.get? name with
  | some s => exact ⟨m, env, s, .refl, h, hget⟩
  | none =>
    obtain ⟨m', hm', hat⟩ := h.advance_worker (.opens hname hget)
    exact ⟨m', _, _, hm', hat, SortedMap.get?_insert_self env _ _⟩

theorem free_worker (h : m.Stands (.work f below) o) (hholds : f.Holds s)
    (hjob : f.point.job? = none) : ∃ session, m.common.sessions[s]? = some session ∧
      session.outstanding = 0 ∧ session.handles = 1 := by
  obtain ⟨slot, -, ⟨-, hnone⟩, hlinked, howned⟩ := h.slot
  rw [hnone] at hlinked howned
  exact hlinked.free howned rfl hholds hjob

/-- A worker with this code comes to the end of it. -/
def Runs (o : Frame σ ρ) (code : Code σ ρ) : Prop :=
  ∀ {m : Machine σ ρ} {role : Role} {env : SortedMap Nat Nat} {below : List (Frame σ ρ)},
    m.Stands (.work ⟨role, env, .run code⟩ below) o →
      ∃ m', m.Reaches m' ∧ m'.Stands (resume below) o

/-- A task that was handed in is run, and then the code goes on. -/
theorem place_worker {role : Role} {env : SortedMap Nat Nat} {job : Job σ ρ} {next : Code σ ρ}
    {j : Nat} (h : m.Stands (.work ⟨role, env, .scan j job next⟩ below) o)
    (htask : Runs o job.code) (hnext : Runs o next) :
    ∃ m', m.Reaches m' ∧ m'.Stands (resume below) o := by
  obtain ⟨m₁, h₁, hat₁⟩ := h.inline_worker
  obtain ⟨m₂, h₂, hat₂⟩ := htask hat₁
  obtain ⟨m₃, h₃, hat₃⟩ := hnext hat₂
  exact ⟨m₃, (h₁.trans h₂).trans h₃, hat₃⟩

/-- A worker that waits goes on with the results. -/
theorem reclaim_worker {role : Role} {env : SortedMap Nat Nat} {next : List ρ → Code σ ρ}
    (h : m.Stands (.work ⟨role, env, .reclaim s next⟩ below) o) (hnext : ∀ rs, Runs o (next rs)) :
    ∃ m', m.Reaches m' ∧ m'.Stands (resume below) o := by
  obtain ⟨session, hsession, -, hone⟩ := h.free_worker (.inr rfl) rfl
  obtain ⟨m₁, h₁, hat₁⟩ := h.advance_worker (.reclaim hsession hone)
  obtain ⟨m₂, h₂, hat₂⟩ := hnext _ hat₁
  exact ⟨m₂, h₁.trans h₂, hat₂⟩

/-- **A worker comes to the end of every code.** -/
theorem runs (o : Frame σ ρ) (code : Code σ ρ) : Runs o code := by
  induction code with
  | value r => exact fun h => h.over_of_end rfl rfl
  | panic p => exact fun h => h.over_of_end rfl rfl
  | act change next ih =>
    intro m role env below h
    obtain ⟨m₁, h₁, hat₁⟩ := h.advance_worker .act
    obtain ⟨m₂, h₂, hat₂⟩ := ih _ hat₁
    exact ⟨m₂, h₁.trans h₂, hat₂⟩
  | post task next ihtask ihnext =>
    intro m role env below h
    obtain ⟨m₁, h₁, hat₁⟩ := h.advance_worker .post
    obtain ⟨m₂, h₂, hat₂⟩ := hat₁.place_worker ihtask ihnext
    exact ⟨m₂, h₁.trans h₂, hat₂⟩
  | hand name task next ihtask ihnext =>
    intro m role env below h
    obtain ⟨m₁, env', s, h₁, hat₁, hget⟩ := h.opened_worker rfl
    obtain ⟨m₂, h₂, hat₂⟩ := hat₁.advance_worker (.hand hget)
    obtain ⟨m₃, h₃, hat₃⟩ := hat₂.place_worker ihtask ihnext
    exact ⟨m₃, (h₁.trans h₂).trans h₃, hat₃⟩
  | wait name next ih =>
    intro m role env below h
    obtain ⟨m₁, env', s, h₁, hat₁, hget⟩ := h.opened_worker rfl
    obtain ⟨session, hsession, hzero, -⟩ :=
      hat₁.free_worker (.inl (SortedMap.mem_values_of_get? hget)) rfl
    obtain ⟨m₂, h₂, hat₂⟩ := hat₁.advance_worker (.check hget hsession hzero)
    obtain ⟨m₃, h₃, hat₃⟩ := hat₂.reclaim_worker ih
    exact ⟨m₃, (h₁.trans h₂).trans h₃, hat₃⟩

/-- A worker comes to the end of its first frame. -/
theorem top_worker (h : m.Stands (.work f below) o) :
    ∃ m', m.Reaches m' ∧ m'.Stands (resume below) o := by
  obtain ⟨slot, -, ⟨-, hnone⟩, hlinked, -⟩ := h.slot
  rw [hnone] at hlinked
  have hclaim := (List.forall_mem_cons.1 hlinked.unclaimed).1
  have hbare := (List.forall_mem_cons.1 hlinked.bare).1
  obtain ⟨role, env, p⟩ := f
  -- past its combiner a task is one of a session
  have hsession : p.phase ≠ 0 → ∃ id s, role = .task id (some s) := by
    intro hphase
    cases role with
    | outer => exact absurd (hbare rfl) hphase
    | task id session =>
      cases session with
      | none => exact absurd (hbare rfl) hphase
      | some s => exact ⟨id, s, rfl⟩
  cases p with
  | run code => exact runs o code h
  | scan j job next => exact h.place_worker (runs o job.code) (runs o next)
  | store | assign => cases hclaim
  | reclaim s next => exact h.reclaim_worker fun rs => runs o (next rs)
  | leave =>
    obtain ⟨id, s, rfl⟩ := hsession nofun
    obtain ⟨m₁, h₁, hat₁⟩ := h.advance_worker .leave
    obtain ⟨m₂, h₂, hat₂⟩ := hat₁.ends .drop
    exact ⟨m₂, h₁.trans h₂, hat₂⟩
  | drop =>
    obtain ⟨id, s, rfl⟩ := hsession nofun
    exact h.ends .drop

/-- A worker comes to the end of the task of its slot. -/
theorem work_worker (h : m.Stands (.work f below) o) :
    ∃ m', m.Reaches m' ∧ m'.Stands .reset o := by
  induction below generalizing m f with
  | nil => exact h.top_worker
  | cons g below ih =>
    obtain ⟨m₁, h₁, hat₁⟩ := h.top_worker
    obtain ⟨m₂, h₂, hat₂⟩ := ih hat₁
    exact ⟨m₂, h₁.trans h₂, hat₂⟩

theorem reset_worker (h : m.Stands .reset o) : ∃ m', m.Reaches m' ∧ m'.Idle o := by
  obtain ⟨slot, hslots, ⟨-, htask⟩, -⟩ := h.slot
  have hslot := slot_zero hslots
  obtain ⟨h₁, hat₁⟩ := h.step (.reset h.worker hslot) (h.setThread .look) rfl
  exact ⟨_, h₁, ⟨.look, hat₁, rfl⟩, _, set_slots hslots _, rfl, htask⟩

theorem take_worker (h : m.Stands .take o) : ∃ m', m.Reaches m' ∧ m'.Idle o := by
  obtain ⟨slot, hslots, ⟨-, htask⟩, -⟩ := h.slot
  have hslot := slot_zero hslots
  obtain ⟨job, hjob⟩ := Option.isSome_iff_exists.1 htask
  obtain ⟨h₁, hat₁⟩ := h.step (.take h.worker hslot hjob) (h.setThread _) rfl
  obtain ⟨m₂, h₂, hat₂⟩ := hat₁.work_worker
  obtain ⟨m₃, h₃, hidle⟩ := hat₂.reset_worker
  exact ⟨m₃, (h₁.trans h₂).trans h₃, hidle⟩

theorem look_worker (h : m.Stands .look o) (hclaim : o.point.claim? = none) :
    ∃ m', m.Reaches m' ∧ m'.Idle o := by
  obtain ⟨slot, hslots, hfits, -⟩ := h.slot
  have hslot := slot_zero hslots
  cases hstate : slot.state with
  | idle => exact ⟨m, .refl, ⟨.look, h, rfl⟩, slot, hslots, hstate, hfits.1 hstate⟩
  | claimed =>
    obtain ⟨f, hf, hclaims⟩ := h.solo.sound.claimer hslot hstate
    obtain ⟨t, ht, hft⟩ := Thread.mem_crew.1 hf
    rw [h.threads] at ht
    rcases List.mem_pair.1 ht with rfl | rfl
    · cases hft
    · obtain rfl := List.mem_singleton.1 hft
      cases hclaim.symm.trans hclaims
  | assigned =>
    obtain ⟨h₁, hat₁⟩ := h.step (.look h.worker hslot hstate) (h.setThread _) rfl
    obtain ⟨m₂, h₂, hidle⟩ := hat₁.take_worker
    exact ⟨m₂, h₁.trans h₂, hidle⟩

/-- A worker that leaves has nothing to do, as no task is lost. -/
theorem idle_of_leaving (h : m.Stands t o) (ht : t.Leaving) (hrun : m.pool.running = false) :
    m.Idle o := by
  obtain ⟨slot, hslots, hfits, -⟩ := h.slot
  have hslot := slot_zero hslots
  obtain ⟨hframes, hempty, hfull⟩ : t.frames = [] ∧ (slot.state = .idle → slot.task = none) ∧
      (slot.state = .assigned → slot.task.isSome) := by
    cases t with
    | quit | gone => exact ⟨rfl, hfits⟩
    | _ => exact ht.elim
  cases hstate : slot.state with
  | idle => exact ⟨⟨t, h, hframes⟩, slot, hslots, hstate, hempty hstate⟩
  | claimed => exact absurd hstate (h.solo.sound.not_claimed hrun hslot)
  | assigned =>
    obtain ⟨job, hjob⟩ := Option.isSome_iff_exists.1 (hfull hstate)
    exact absurd ⟨hrun, 0, t, slot, job, h.worker, ht, hslot, hjob, rfl⟩ (h.unlost job.id)

theorem quit_worker (h : m.Stands .quit o) (hclaim : o.point.claim? = none) :
    ∃ m', m.Reaches m' ∧ m'.Idle o := by
  cases hrun : m.pool.running with
  | true =>
    obtain ⟨h₁, hat₁⟩ := h.step (.stay h.worker hrun) (h.setThread .look) rfl
    obtain ⟨m₂, h₂, hidle⟩ := hat₁.look_worker hclaim
    exact ⟨m₂, h₁.trans h₂, hidle⟩
  | false => exact ⟨m, .refl, h.idle_of_leaving trivial hrun⟩

/-- **The worker comes to have nothing to do**, unless its slot is claimed. -/
theorem idle (h : m.Stands t o) (hclaim : o.point.claim? = none) :
    ∃ m', m.Reaches m' ∧ m'.Idle o := by
  obtain ⟨slot, -, hfits, -⟩ := h.slot
  cases t with
  | look => exact h.look_worker hclaim
  | take => exact h.take_worker
  | quit => exact h.quit_worker hclaim
  | work f below =>
    obtain ⟨m₁, h₁, hat₁⟩ := h.work_worker
    obtain ⟨m₂, h₂, hidle⟩ := hat₁.reset_worker
    exact ⟨m₂, h₁.trans h₂, hidle⟩
  | reset => exact h.reset_worker
  | gone =>
    have hrun := h.solo.sound.left (List.mem_of_getElem? h.worker)
    exact ⟨m, .refl, h.idle_of_leaving trivial hrun⟩
  | outer => exact hfits.elim

/-! ## The thread from outside -/

variable {role : Role} {env : SortedMap Nat Nat} {job : Job σ ρ} {next : Code σ ρ}

theorem assign_outside (h : m.Stands t ⟨role, env, .assign 0 next⟩) :
    ∃ m' t, m.Reaches m' ∧ m'.Stands t ⟨role, env, .run next⟩ := by
  obtain ⟨slot, hslots, -⟩ := h.slot
  have hslot := slot_zero hslots
  exact ⟨_, t, h.step (.assign h.top?_outside hslot) (h.setTop_outside _) rfl⟩

theorem store_outside (h : m.Stands t ⟨role, env, .store 0 job next⟩) :
    ∃ m' t, m.Reaches m' ∧ m'.Stands t ⟨role, env, .run next⟩ := by
  obtain ⟨slot, hslots, -⟩ := h.slot
  have hslot := slot_zero hslots
  obtain ⟨h₁, hat₁⟩ := h.step (.put h.top?_outside hslot) (h.setTop_outside _) rfl
  obtain ⟨m₂, t₂, h₂, hat₂⟩ := hat₁.assign_outside
  exact ⟨m₂, t₂, h₁.trans h₂, hat₂⟩

/-- A task from outside comes to be in the slot. -/
theorem scan_outside {j : Nat} (h : m.Stands t ⟨role, env, .scan j job next⟩) :
    ∃ m' t, m.Reaches m' ∧ m'.Stands t ⟨role, env, .run next⟩ := by
  have hfirst : ∀ {m : Machine σ ρ} {t slot}, m.Stands t ⟨role, env, .scan 0 job next⟩ →
      m.pool.slots = [slot] → slot.state = .idle →
      ∃ m' t, m.Reaches m' ∧ m'.Stands t ⟨role, env, .run next⟩ := by
    intro m t slot h hslots hidle
    have hslot := slot_zero hslots
    obtain ⟨h₁, hat₁⟩ := h.step (.claim h.top?_outside hslot hidle) (h.setTop_outside _) rfl
    obtain ⟨m₂, t₂, h₂, hat₂⟩ := hat₁.store_outside
    exact ⟨m₂, t₂, h₁.trans h₂, hat₂⟩
  obtain ⟨m₁, h₁, ⟨t₁, hat₁, -⟩, slot, hslots, hidle, -⟩ := h.idle rfl
  cases j with
  | zero =>
    obtain ⟨m₂, t₂, h₂, hat₂⟩ := hfirst hat₁ hslots hidle
    exact ⟨m₂, t₂, h₁.trans h₂, hat₂⟩
  | succ j =>
    have hslot : m₁.pool.slots[j + 1]? = none := by rw [hslots]; rfl
    obtain ⟨h₂, hat₂⟩ :=
      hat₁.step (.rescan hat₁.outside hslot) (hat₁.setTop_outside _) rfl
    obtain ⟨m₃, t₃, h₃, hat₃⟩ := hfirst hat₂ hslots hidle
    exact ⟨m₃, t₃, (h₁.trans h₂).trans h₃, hat₃⟩

theorem opened_outside {code : Code σ ρ} {name : Nat} (h : m.Stands t ⟨role, env, .run code⟩)
    (hname : code.session? = some name) :
    ∃ m' env' s, m.Reaches m' ∧ m'.Stands t ⟨role, env', .run code⟩ ∧ env'.get? name = some s := by
  cases hget : env.get? name with
  | some s => exact ⟨m, env, s, .refl, h, hget⟩
  | none =>
    obtain ⟨m', hm', hat⟩ := h.advance_outside (.opens hname hget)
    exact ⟨m', _, _, hm', hat, SortedMap.get?_insert_self env _ _⟩

end Stands

theorem Idle.free (h : m.Idle o) (hholds : o.Holds s) (hjob : o.point.job? = none) :
    ∃ session, m.common.sessions[s]? = some session ∧ session.outstanding = 0 ∧
      session.handles = 1 := by
  obtain ⟨⟨t, hat, hframes⟩, slot, hslots, -, htask⟩ := h
  obtain ⟨slot', hslots', -, hlinked, howned⟩ := hat.slot
  obtain rfl : slot = slot' := List.singleton_inj.1 (hslots.symm.trans hslots')
  rw [hframes, htask] at hlinked howned
  exact hlinked.free howned rfl hholds hjob

namespace Stands

variable {env : SortedMap Nat Nat}

/-- A thread from outside with this code comes to the end of it. -/
def Closes (code : Code σ ρ) : Prop :=
  ∀ {m : Machine σ ρ} {t : Thread σ ρ} {env : SortedMap Nat Nat},
    m.Stands t ⟨.outer, env, .run code⟩ → ∃ m' r, m.Reaches m' ∧ m'.Over r

theorem over_of_idle {code : Code σ ρ} {r : Except Panic ρ}
    (h : m.Stands t ⟨.outer, env, .run code⟩) (hend : code.end? = some r) :
    ∃ m' r, m.Reaches m' ∧ m'.Over r := by
  obtain ⟨m', hm', hidle⟩ := h.idle rfl
  exact ⟨m', r, hm', hidle.over hend⟩

theorem reclaim_outside {next : List ρ → Code σ ρ} (h : m.Stands t ⟨.outer, env, .reclaim s next⟩)
    (hnext : ∀ rs, Closes (next rs)) : ∃ m' r, m.Reaches m' ∧ m'.Over r := by
  obtain ⟨m₁, h₁, hidle⟩ := h.idle rfl
  obtain ⟨session, hsession, -, hone⟩ := hidle.free (.inr rfl) rfl
  obtain ⟨t₁, hat₁, -⟩ := hidle.stands
  obtain ⟨m₂, h₂, hat₂⟩ := hat₁.advance_outside (.reclaim hsession hone)
  obtain ⟨m₃, r, h₃, hover⟩ := hnext _ hat₂
  exact ⟨m₃, r, (h₁.trans h₂).trans h₃, hover⟩

/-- **The thread from outside comes to the end of every code.** -/
theorem closes (code : Code σ ρ) : Closes code := by
  induction code with
  | value r => exact fun h => h.over_of_idle rfl
  | panic p => exact fun h => h.over_of_idle rfl
  | act change next ih =>
    intro m t env h
    obtain ⟨m₁, h₁, hat₁⟩ := h.advance_outside .act
    obtain ⟨m₂, r, h₂, hover⟩ := ih _ hat₁
    exact ⟨m₂, r, h₁.trans h₂, hover⟩
  | post task next _ ih =>
    intro m t env h
    obtain ⟨m₁, h₁, hat₁⟩ := h.advance_outside .post
    obtain ⟨m₂, t₂, h₂, hat₂⟩ := hat₁.scan_outside
    obtain ⟨m₃, r, h₃, hover⟩ := ih hat₂
    exact ⟨m₃, r, (h₁.trans h₂).trans h₃, hover⟩
  | hand name task next _ ih =>
    intro m t env h
    obtain ⟨m₁, env', s, h₁, hat₁, hget⟩ := h.opened_outside rfl
    obtain ⟨m₂, h₂, hat₂⟩ := hat₁.advance_outside (.hand hget)
    obtain ⟨m₃, t₃, h₃, hat₃⟩ := hat₂.scan_outside
    obtain ⟨m₄, r, h₄, hover⟩ := ih hat₃
    exact ⟨m₄, r, ((h₁.trans h₂).trans h₃).trans h₄, hover⟩
  | wait name next ih =>
    intro m t env h
    -- the tasks of the session are over once the worker has nothing to do
    obtain ⟨m₁, env', s, h₁, hat₁, hget⟩ := h.opened_outside rfl
    obtain ⟨m₂, h₂, hidle⟩ := hat₁.idle rfl
    obtain ⟨session, hsession, hzero, -⟩ :=
      hidle.free (.inl (SortedMap.mem_values_of_get? hget)) rfl
    obtain ⟨t₂, hat₂, -⟩ := hidle.stands
    obtain ⟨m₃, h₃, hat₃⟩ := hat₂.advance_outside (.check hget hsession hzero)
    obtain ⟨m₄, r, h₄, hover⟩ := hat₃.reclaim_outside ih
    exact ⟨m₄, r, ((h₁.trans h₂).trans h₃).trans h₄, hover⟩

end Stands

/-- **From wherever it has got to, a machine with one worker and one thread from
    outside can go on until nothing is left to do**, unless a task was lost when
    the pool was given up. -/
theorem Solo.over (hm : m.Solo) (hunlost : ∀ k, ¬ m.Stranded k) :
    ∃ m' r, m.Reaches m' ∧ m'.Over r := by
  obtain ⟨x, ⟨t, slot, hthreads, -⟩, hlinked⟩ := hm.linked
  obtain ⟨work, ⟨role, env, p⟩, c⟩ := x
  obtain rfl : role = .outer := hlinked.outside
  have hat : m.Stands t ⟨.outer, env, p⟩ := ⟨hm, hthreads, hunlost⟩
  have hplaced : ∀ {next : Code σ ρ},
      (∃ m' t, m.Reaches m' ∧ m'.Stands t ⟨.outer, env, .run next⟩) →
        ∃ m' r, m.Reaches m' ∧ m'.Over r := by
    rintro next ⟨m₁, t₁, h₁, hat₁⟩
    obtain ⟨m₂, r, h₂, hover⟩ := Stands.closes next hat₁
    exact ⟨m₂, r, h₁.trans h₂, hover⟩
  cases p with
  | run code => exact Stands.closes code hat
  | scan j job next => exact hplaced hat.scan_outside
  | store j job next =>
    obtain rfl := hlinked.claims j false rfl
    exact hplaced hat.store_outside
  | assign j next =>
    obtain rfl := hlinked.claims j true rfl
    exact hplaced hat.assign_outside
  | reclaim s next => exact hat.reclaim_outside fun rs => Stands.closes (next rs)
  | leave | drop => cases hlinked.running

end Machine

end TickEngine
