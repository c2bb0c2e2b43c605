/-
  Nested sessions never block each other.

  A thread that waits for a session looks at its counter again and again, and a
  thread from outside looks for an idle slot again and again.  While a task is
  not over, some thread can do better than that: a task that waits for others
  waits for younger ones, the youngest that runs waits for none, and a task in
  a slot has a worker that is on its way.  Only when the pool is given up can a
  task be left in a slot that no worker looks at (`Machine.Stranded`).

  * `Machine.Vain` are the steps that get nowhere;
  * `Machine.Reaches.flows`: while there is something to do, some thread can
    do something else.
-/
import TickEngine.Proofs.Ages

namespace TickEngine

variable {σ ρ : Type}

/-- The thread is inside the call that hands in a task, or inside the one that
    waits for a session. -/
def Point.Inside : Point σ ρ → Prop
  | .scan _ _ _ | .store _ _ _ | .assign _ _ | .reclaim _ _ | .run (.wait _ _) => True
  | _ => False

/-- A worker that runs a task on top of another one is inside the call that
    handed it in. -/
def Thread.Inside : Thread σ ρ → Prop
  | .work top below => top.point.Inside ∨ below ≠ []
  | .outer top => top.point.Inside
  | _ => False

/-! ## Steps that get nowhere -/

/-- No slot is idle. -/
def Pool.Full {τ : Type} (p : Pool τ) : Prop := ∀ slot ∈ p.slots, slot.state ≠ .idle

namespace Machine

/-- Steps that get nowhere: a thread from outside goes on to another slot while
    none is idle, a worker sees its slot idle, or looks again at one that is not
    assigned, or leaves, or the pool is given up.  To look at a counter again is
    no step at all. -/
inductive Vain (m : Machine σ ρ) : Machine σ ρ → Prop
  | scan {i role env j j' job next} :
      m.threads[i]? = some (.outer ⟨role, env, .scan j job next⟩) → m.pool.Full →
      Vain m (m.setTop i ⟨role, env, .scan j' job next⟩)
  | glance {i} : m.threads[i]? = some .look → Vain m (m.setThread i .quit)
  | stay {i slot} : m.threads[i]? = some .quit → m.pool.slots[i]? = some slot →
      slot.state ≠ .assigned → Vain m (m.setThread i .look)
  | leave {i} : m.threads[i]? = some .quit → Vain m (m.setThread i .gone)
  | shut : Vain m { m with pool := { m.pool with running := false } }

variable {m m' : Machine σ ρ} {i j : Nat} {t : Thread σ ρ} {f f' : Frame σ ρ}

/-- Nothing is handed in, started, combined or ended by them. -/
theorem Vain.kept (h : m.Vain m') : m'.common = m.common ∧ m'.pool.slots = m.pool.slots ∧
    m'.started = m.started ∧ m'.done = m.done := by
  cases h <;> exact ⟨rfl, rfl, rfl, rfl⟩

theorem Vain.thread (h : m.Vain m') (ht : m.threads[i]? = some t) :
    m'.threads[i]? = some t ∨ (t = .look ∧ m'.threads[i]? = some .quit) ∨
      (t = .quit ∧ (m'.threads[i]? = some .look →
        ∃ slot, m.pool.slots[i]? = some slot ∧ slot.state ≠ .assigned)) ∨
      (∃ role env j job next, t = .outer ⟨role, env, .scan j job next⟩) ∧ m.pool.Full := by
  cases h with
  | @scan i' role env j j' job next hthread hfull =>
    by_cases hi : i' = i
    · subst hi
      obtain rfl := Option.some.inj (ht.symm.trans hthread)
      exact .inr (.inr (.inr ⟨⟨role, env, j, job, next, rfl⟩, hfull⟩))
    · rw [setTop, List.getElem?_modify_ne _ _ hi]
      exact .inl ht
  | @glance i' hthread =>
    by_cases hi : i' = i
    · subst hi
      obtain rfl := Option.some.inj (ht.symm.trans hthread)
      exact .inr (.inl ⟨rfl, getElem?_set_of_some hthread _⟩)
    · rw [setThread, List.getElem?_set_ne hi]
      exact .inl ht
  | @stay i' slot hthread hslot hstate =>
    by_cases hi : i' = i
    · subst hi
      obtain rfl := Option.some.inj (ht.symm.trans hthread)
      exact .inr (.inr (.inl ⟨rfl, fun _ => ⟨slot, hslot, hstate⟩⟩))
    · rw [setThread, List.getElem?_set_ne hi]
      exact .inl ht
  | @leave i' hthread =>
    by_cases hi : i' = i
    · subst hi
      obtain rfl := Option.some.inj (ht.symm.trans hthread)
      refine .inr (.inr (.inl ⟨rfl, fun hlook => ?_⟩))
      cases (getElem?_set_of_some hthread _).symm.trans hlook
    · rw [setThread, List.getElem?_set_ne hi]
      exact .inl ht
  | shut => exact .inl ht

/-- Some thread can get somewhere. -/
def Lively (m : Machine σ ρ) : Prop := ∃ m', m.Step m' ∧ ¬ m.Vain m'

end Machine

/-! ## Frames that move -/

theorem Code.act_ne (code : Code σ ρ) :
    ∀ change next x, code = .act change next → next x ≠ code := by
  induction code with
  | act change next ih =>
    rintro _ _ x ⟨⟩ heq
    exact ih x change next x heq rfl
  | _ => nofun

section Moves

variable {f f' : Frame σ ρ} {c c' : Common σ ρ} {s : Nat}

/-- A step of a frame changes something. -/
theorem Advance.ne (h : Advance f c f' c') : c' ≠ c ∨ f' ≠ f := by
  cases h with
  | @act role env c change next =>
    refine .inr fun heq => ?_
    have hpoint := congrArg Frame.point heq
    simp only [Point.run.injEq] at hpoint
    exact Code.act_ne _ change next c.shared rfl hpoint
  | opens =>
    refine .inl fun heq => ?_
    have hlength := congrArg (List.length ∘ Common.sessions) heq
    simp at hlength
  | _ =>
    refine .inr fun heq => ?_
    have hpoint := congrArg Frame.point heq
    cases hpoint

theorem Advance.job?_eq_none (h : Advance f c f' c') : f.point.job? = none := by
  cases h <;> rfl

/-- The frame waits for the tasks of a session. -/
inductive Frame.Waits (c : Common σ ρ) (s : Nat) : Frame σ ρ → Prop
  | counter {role env name next} : env.get? name = some s → (c.session s).outstanding ≠ 0 →
      Waits c s ⟨role, env, .run (.wait name next)⟩
  | handles {role env next} : (c.session s).handles ≠ 1 → Waits c s ⟨role, env, .reclaim s next⟩

theorem Frame.Waits.holds (h : f.Waits c s) : f.Holds s := by
  cases h with
  | counter hget => exact .inl (SortedMap.mem_values_of_get? hget)
  | handles => exact .inr rfl

theorem Frame.Waits.job?_eq_none (h : f.Waits c s) : f.point.job? = none := by
  cases h <;> rfl

/-- Who waits for a session has a handle of the pool. -/
theorem Frame.Waits.loud (h : f.Waits c s) : ¬ f.point.Quiet := by
  cases h <;> exact id

/-- What a frame can do next. -/
inductive Frame.Next (f : Frame σ ρ) (c : Common σ ρ) : Prop
  | advance {f₁ : Frame σ ρ} {c₁ : Common σ ρ} : Advance f c f₁ c₁ → Next f c
  | ends {d : Nat × Option Nat} {c₁ : Common σ ρ} : Ends f c d c₁ → Next f c
  | waits {s₁ : Nat} : f.Waits c s₁ → Next f c
  /-- It looks for a slot. -/
  | scan {j : Nat} {job : Job σ ρ} {next : Code σ ρ} : f.point = .scan j job next → Next f c
  /-- It has a slot to itself. -/
  | claim {j : Nat} {b : Bool} : f.point.claim? = some (j, b) → Next f c
  /-- The code of a thread from outside is at its end. -/
  | ended {code : Code σ ρ} {o : Except Panic ρ} : f.role = .outer → f.point = .run code →
      code.end? = some o → Next f c

theorem Frame.next_of_end? (role : Role) (env : SortedMap Nat Nat) {code : Code σ ρ}
    {o : Except Panic ρ} (h : code.end? = some o) : Frame.Next ⟨role, env, .run code⟩ c := by
  rcases role with _ | ⟨id, _ | s⟩
  · exact .ended rfl rfl h
  · exact .ends (.bare h)
  · exact .advance (.settle h)

theorem Frame.next_of_run (role : Role) (env : SortedMap Nat Nat) (code : Code σ ρ)
    (hopened : ∀ s, (Frame.mk role env (.run code)).Holds s → s < c.sessions.length) :
    Frame.Next ⟨role, env, .run code⟩ c := by
  cases code with
  | value r => exact next_of_end? role env rfl
  | panic p => exact next_of_end? role env rfl
  | act => exact .advance .act
  | post => exact .advance .post
  | hand name task next =>
    cases hget : env.get? name with
    | none => exact .advance (.opens rfl hget)
    | some s => exact .advance (.hand hget)
  | wait name next =>
    cases hget : env.get? name with
    | none => exact .advance (.opens rfl hget)
    | some s =>
      have hs := List.getElem?_eq_getElem (hopened s (.inl (SortedMap.mem_values_of_get? hget)))
      by_cases hzero : (c.session s).outstanding = 0
      · rw [Common.session_eq_of_getElem? hs] at hzero
        exact .advance (.check hget hs hzero)
      · exact .waits (.counter hget hzero)

/-- There is always something that a frame can do next. -/
theorem Frame.next (f : Frame σ ρ) (hopened : ∀ s, f.Holds s → s < c.sessions.length)
    (hbare : f.role.session? = none → f.point.phase = 0) : f.Next c := by
  obtain ⟨role, env, p⟩ := f
  cases p with
  | run code => exact next_of_run role env code hopened
  | scan j job next => exact .scan rfl
  | store j job next => exact .claim rfl
  | assign j next => exact .claim rfl
  | reclaim s next =>
    have hs := List.getElem?_eq_getElem (hopened s (.inr rfl))
    by_cases hone : (c.session s).handles = 1
    · rw [Common.session_eq_of_getElem? hs] at hone
      exact .advance (.reclaim hs hone)
    · exact .waits (.handles hone)
  | leave =>
    rcases role with _ | ⟨id, _ | s⟩
    · cases hbare rfl
    · cases hbare rfl
    · exact .advance .leave
  | drop =>
    rcases role with _ | ⟨id, _ | s⟩
    · cases hbare rfl
    · cases hbare rfl
    · exact .ends .drop

end Moves

/-! ## Steps that get somewhere -/

namespace Machine

variable {m m' : Machine σ ρ} {i j : Nat} {t : Thread σ ρ} {f f' : Frame σ ρ} {c : Common σ ρ}
  {slot : Slot (Job σ ρ)}

theorem setTop_getElem? (htop : m.top? i = some f) (f' : Frame σ ρ) :
    ∃ t, m.threads[i]? = some t ∧ t.top? = some f ∧
      (m.setTop i f').threads[i]? = some (t.withTop f') ∧ (t.withTop f').top? = some f' := by
  obtain ⟨t, ht, htop, hset⟩ := top?_eq_some htop
  refine ⟨t, ht, htop, ?_, ?_⟩
  · rw [setTop, hset, getElem?_set_of_some ht]
  · cases t <;> cases htop <;> rfl

/-- A frame moves that does not look for an idle slot, or not in vain. -/
theorem not_vain_of_top (htop : m.top? i = some f) (f' : Frame σ ρ) (hne : f' ≠ f)
    (hthreads : m'.threads = (m.setTop i f').threads)
    (hscan : ∀ role env j job next, m.threads[i]? = some (.outer ⟨role, env, .scan j job next⟩) →
      ¬ m.pool.Full) : ¬ m.Vain m' := by
  intro hvain
  obtain ⟨t, ht, htop, hset, htop'⟩ := setTop_getElem? htop f'
  have hnew : m'.threads[i]? = some (t.withTop f') := hthreads ▸ hset
  rcases hvain.thread ht with
    hsame | ⟨rfl, -⟩ | ⟨rfl, -⟩ | ⟨⟨role, env, j, job, next, rfl⟩, hfull⟩
  · have heq := Option.some.inj (hnew.symm.trans hsame)
    rw [heq, htop] at htop'
    exact hne (Option.some.inj htop').symm
  · cases htop
  · cases htop
  · exact hscan _ _ _ _ _ ht hfull

theorem lively_of_advance (htop : m.top? i = some f) (h : Advance f m.common f' c) : m.Lively := by
  refine ⟨_, .advance htop h, ?_⟩
  rcases h.ne with hcommon | hframe
  · exact fun hvain => hcommon hvain.kept.1
  · refine not_vain_of_top htop _ hframe rfl fun role env j job next ht => ?_
    rw [top?, ht] at htop
    cases htop
    cases h.job?_eq_none

theorem lively_of_claim {b : Bool} (htop : m.top? i = some f)
    (hclaim : f.point.claim? = some (j, b))
    (hslot : m.pool.slots[j]? = some slot) : m.Lively := by
  have hscan : ∀ role env k job next,
      m.threads[i]? = some (.outer ⟨role, env, .scan k job next⟩) → ¬ m.pool.Full := by
    intro role env k job next ht
    rw [top?, ht] at htop
    cases htop
    cases hclaim
  obtain ⟨role, env, p⟩ := f
  cases p with
  | store k job next =>
    cases hclaim
    exact ⟨_, .put htop hslot, not_vain_of_top htop ⟨role, env, .assign j next⟩ (by simp) rfl hscan⟩
  | assign k next =>
    cases hclaim
    exact ⟨_, .assign htop hslot, not_vain_of_top htop ⟨role, env, .run next⟩ (by simp) rfl hscan⟩
  | _ => cases hclaim

theorem lively_of_idle {role : Role} {env : SortedMap Nat Nat} {job : Job σ ρ} {next : Code σ ρ}
    (htop : m.top? i = some ⟨role, env, .scan j job next⟩) (hslot : m.pool.slots[j]? = some slot)
    (hidle : slot.state = .idle) : m.Lively := by
  refine ⟨_, .claim htop hslot hidle, fun hvain => ?_⟩
  have hslots : m.pool.slots.set j { slot with state := .claimed } = m.pool.slots := hvain.kept.2.1
  have hnew := getElem?_set_of_some hslot { slot with state := .claimed }
  rw [hslots, hslot] at hnew
  have hstate := congrArg Slot.state (Option.some.inj hnew)
  cases hidle.symm.trans hstate

theorem lively_of_pass {role : Role} {env : SortedMap Nat Nat} {job : Job σ ρ} {next : Code σ ρ}
    (htop : m.top? i = some ⟨role, env, .scan j job next⟩) (hslot : m.pool.slots[j]? = some slot)
    (hscan : ∀ role env j job next, m.threads[i]? = some (.outer ⟨role, env, .scan j job next⟩) →
      ¬ m.pool.Full) : m.Lively := by
  by_cases hidle : slot.state = .idle
  · exact lively_of_idle htop hslot hidle
  · refine ⟨_, .pass htop hslot hidle, not_vain_of_top htop _ (fun heq => ?_) rfl hscan⟩
    have hpoint := congrArg Frame.point heq
    simp at hpoint

/-- A worker gets on with a task that it is placing. -/
theorem lively_of_work_scan {role : Role} {env : SortedMap Nat Nat} {job : Job σ ρ}
    {next : Code σ ρ} {below : List (Frame σ ρ)}
    (ht : m.threads[i]? = some (.work ⟨role, env, .scan j job next⟩ below)) : m.Lively := by
  have htop : m.top? i = some ⟨role, env, .scan j job next⟩ := by rw [top?, ht]; rfl
  cases hslot : m.pool.slots[j]? with
  | none =>
    refine ⟨_, .inline ht hslot, fun hvain => ?_⟩
    have hstarted : m.started ++ [job.id] = m.started := hvain.kept.2.2.1
    simp at hstarted
  | some slot =>
    refine lively_of_pass htop hslot fun _ _ _ _ _ ht' => ?_
    cases ht.symm.trans ht'

/-- A thread from outside gets on with a task that it is placing, when a slot
    is idle. -/
theorem lively_of_outer_scan {role : Role} {env : SortedMap Nat Nat} {job : Job σ ρ}
    {next : Code σ ρ} (ht : m.threads[i]? = some (.outer ⟨role, env, .scan j job next⟩))
    (hpos : 0 < m.pool.slots.length) (hfull : ¬ m.pool.Full) : m.Lively := by
  cases hslot : m.pool.slots[j]? with
  | none =>
    refine ⟨_, .rescan ht hslot, ?_⟩
    refine not_vain_of_top (top?_of_outer ht) _ (fun heq => ?_) rfl fun _ _ _ _ _ _ => hfull
    have hj := congrArg Frame.point heq
    simp only [Point.scan.injEq, and_true] at hj
    rw [← hj, List.getElem?_eq_getElem hpos] at hslot
    cases hslot
  | some slot => exact lively_of_pass (top?_of_outer ht) hslot fun _ _ _ _ _ _ => hfull

theorem lively_of_ends {below : List (Frame σ ρ)} {d : Nat × Option Nat}
    (ht : m.threads[i]? = some (.work f below)) (h : Ends f m.common d c) : m.Lively := by
  have hvain : ∀ {m' : Machine σ ρ}, m'.done = m.done ++ [d] → ¬ m.Vain m' := by
    intro m' hdone hvain
    rw [hvain.kept.2.2.2] at hdone
    simp at hdone
  cases below with
  | nil => exact ⟨_, .finish ht h, hvain rfl⟩
  | cons g below => exact ⟨_, .back ht h, hvain rfl⟩

theorem lively_of_reset (ht : m.threads[i]? = some .reset) (hslot : m.pool.slots[i]? = some slot) :
    m.Lively := by
  refine ⟨_, .reset ht hslot, fun hvain => ?_⟩
  have hnew : ((m.setThread i .look).setSlot i { slot with state := .idle }).threads[i]? =
      some .look := getElem?_set_of_some ht _
  rcases hvain.thread ht with hsame | ⟨heq, -⟩ | ⟨heq, -⟩ | ⟨⟨_, _, _, _, _, heq⟩, -⟩
  · cases hnew.symm.trans hsame
  · cases heq
  · cases heq
  · cases heq

theorem lively_of_look (ht : m.threads[i]? = some .look) (hslot : m.pool.slots[i]? = some slot)
    (hassigned : slot.state = .assigned) : m.Lively := by
  refine ⟨_, .look ht hslot hassigned, fun hvain => ?_⟩
  have hnew : (m.setThread i .take).threads[i]? = some .take := getElem?_set_of_some ht _
  rcases hvain.thread ht with hsame | ⟨-, hquit⟩ | ⟨heq, -⟩ | ⟨⟨_, _, _, _, _, heq⟩, -⟩
  · cases hnew.symm.trans hsame
  · cases hnew.symm.trans hquit
  · cases heq
  · cases heq

/-- A worker of a pool in use does not leave. -/
theorem lively_of_quit (ht : m.threads[i]? = some .quit) (hslot : m.pool.slots[i]? = some slot)
    (hassigned : slot.state = .assigned) (hrun : m.pool.running = true) : m.Lively := by
  refine ⟨_, .stay ht hrun, fun hvain => ?_⟩
  have hnew : (m.setThread i .look).threads[i]? = some .look := getElem?_set_of_some ht _
  rcases hvain.thread ht with hsame | ⟨heq, -⟩ | ⟨-, hlook⟩ | ⟨⟨_, _, _, _, _, heq⟩, -⟩
  · cases hnew.symm.trans hsame
  · cases heq
  · obtain ⟨slot', hslot', hstate⟩ := hlook hnew
    obtain rfl := Option.some.inj (hslot.symm.trans hslot')
    exact hstate hassigned
  · cases heq

theorem lively_of_take {job : Job σ ρ} (ht : m.threads[i]? = some .take)
    (hslot : m.pool.slots[i]? = some slot) (htask : slot.task = some job) : m.Lively := by
  refine ⟨_, .take ht hslot htask, fun hvain => ?_⟩
  have hstarted : m.started ++ [job.id] = m.started := hvain.kept.2.2.1
  simp at hstarted

/-! ## Reached machines -/

section Reached

variable {workers : Nat} {shared : σ} {codes : List (Code σ ρ)} {s k : Nat}

theorem mem_crew_of_top? (htop : m.top? i = some f) : f ∈ Thread.crew m.threads := by
  obtain ⟨t, ht, htop, -⟩ := top?_eq_some htop
  exact Thread.mem_crew.2 ⟨t, List.mem_of_getElem? ht, top_mem htop⟩

theorem Reaches.opened (h : (start workers shared codes).Reaches m)
    (hf : f ∈ Thread.crew m.threads) (hs : f.Holds s) : s < m.common.sessions.length := by
  have hpos := holds_iff.1 hs
  have hle := (Tally.holding σ ρ s).whole_le_total (x := m.census) hf
  have hhandles := (h.matches s).le_handles
  simp only [Census.use] at hhandles
  exact Common.lt_of_handles (Nat.lt_of_lt_of_le (by omega) hhandles)

/-- A worker gets somewhere, or waits for the tasks of a session. -/
theorem Reaches.lively_or_waits (h : (start workers shared codes).Reaches m)
    {below : List (Frame σ ρ)} (ht : m.threads[i]? = some (.work f below)) :
    m.Lively ∨ ∃ s, f.Waits m.common s := by
  have htop : m.top? i = some f := by rw [top?, ht]; rfl
  have hmem := mem_crew_of_top? htop
  cases f.next (fun s => h.opened hmem) (h.upright.aged f hmem).bare with
  | advance hadvance => exact .inl (lively_of_advance htop hadvance)
  | ends hends => exact .inl (lively_of_ends ht hends)
  | waits hwaits => exact .inr ⟨_, hwaits⟩
  | scan hscan =>
    obtain ⟨role, env, p⟩ := f
    cases hscan
    exact .inl (lively_of_work_scan ht)
  | claim hclaim =>
    obtain ⟨slot, hslot⟩ := h.upright.claimed f hmem hclaim
    exact .inl (lively_of_claim htop hclaim hslot)
  | ended hrole =>
    have hcast := (h.sound (sound_start workers shared codes)).cast _ (List.mem_of_getElem? ht)
    exact absurd hrole (List.forall_mem_cons.1 hcast).1

/-- The thread that has claimed a slot gets on. -/
theorem Reaches.lively_of_claimed (h : (start workers shared codes).Reaches m)
    (hslot : m.pool.slots[j]? = some slot) (hclaimed : slot.state = .claimed) : m.Lively := by
  obtain ⟨f, hf, hclaim⟩ := (h.sound (sound_start workers shared codes)).claimer hslot hclaimed
  obtain ⟨t, ht, hft⟩ := Thread.mem_crew.1 hf
  obtain ⟨i, hi⟩ := List.mem_iff_getElem?.1 ht
  have htop : m.top? i = some f := by
    rw [top?, hi]
    cases t with
    | outer top => rw [List.mem_singleton.1 hft]; rfl
    | work top below =>
      rcases List.mem_cons.1 hft with rfl | hbelow
      · rfl
      · -- a frame below another one has claimed nothing
        cases ((h.upright.stacked _ ht).2 f hbelow).symm.trans hclaim
    | _ => cases hft
  exact lively_of_claim htop hclaim hslot

/-- A worker that runs no task gets on with its slot. -/
theorem Reaches.lively_of_assigned (h : (start workers shared codes).Reaches m)
    (hrun : m.pool.running = true) (hslot : m.pool.slots[i]? = some slot)
    (hassigned : slot.state = .assigned)
    (hidle : ∀ f ∈ Thread.crew m.threads, f.role = .outer) : m.Lively := by
  have hsound := h.sound (sound_start workers shared codes)
  obtain ⟨t, ht, hfits⟩ := hsound.fits hslot
  cases t with
  | look => exact lively_of_look ht hslot hassigned
  | quit => exact lively_of_quit ht hslot hassigned hrun
  | take =>
    obtain ⟨job, htask⟩ := Option.isSome_iff_exists.1 hfits.2
    exact lively_of_take ht hslot htask
  | work top below =>
    have hcast := hsound.cast _ (List.mem_of_getElem? ht)
    refine absurd (hidle top ?_) (List.forall_mem_cons.1 hcast).1
    exact Thread.mem_crew.2 ⟨_, List.mem_of_getElem? ht, List.mem_cons_self⟩
  | reset => exact lively_of_reset ht hslot
  | gone => cases hrun.symm.trans (hsound.left (List.mem_of_getElem? ht))
  | outer => exact hfits.elim

/-- The worker of a slot with a task is on its way, or waits for a thread that
    is, or leaves the task behind. -/
theorem Reaches.lively_of_stored (h : (start workers shared codes).Reaches m)
    (hslot : m.pool.slots[i]? = some slot) {job : Job σ ρ} (htask : slot.task = some job) :
    m.Lively ∨ m.Stranded job.id := by
  have hsound := h.sound (sound_start workers shared codes)
  obtain ⟨t, ht, hfits⟩ := hsound.fits hslot
  cases t with
  | look =>
    cases hstate : slot.state with
    | idle => cases htask.symm.trans (hfits.1 hstate)
    | claimed => exact .inl (h.lively_of_claimed hslot hstate)
    | assigned => exact .inl (lively_of_look ht hslot hstate)
  | take => exact .inl (lively_of_take ht hslot htask)
  | quit =>
    cases hrun : m.pool.running with
    | false => exact .inr ⟨hrun, i, .quit, slot, job, ht, trivial, hslot, htask, rfl⟩
    | true =>
      cases hstate : slot.state with
      | idle => cases htask.symm.trans (hfits.1 hstate)
      | claimed => exact .inl (h.lively_of_claimed hslot hstate)
      | assigned => exact .inl (lively_of_quit ht hslot hstate hrun)
  | gone =>
    have hrun := hsound.left (List.mem_of_getElem? ht)
    exact .inr ⟨hrun, i, .gone, slot, job, ht, trivial, hslot, htask, rfl⟩
  | work | reset => cases htask.symm.trans hfits.2
  | outer => exact hfits.elim

/-- A session that a frame waits for has a task that is placed, in a slot, or
    running. -/
theorem Reaches.tasks_pos (h : (start workers shared codes).Reaches m)
    (hf : f ∈ Thread.crew m.threads) (hwaits : f.Waits m.common s) :
    0 < (m.census.use s).tasks 2 := by
  have hown := (Tally.holding σ ρ s).whole_le_total (x := m.census) hf
  have hholds := holds_iff.1 hwaits.holds
  have hle := (h.matches s).le_handles
  have hge := (h.matches s).handles_le
  have hcounter := (h.matches s).outstanding
  have hmono : (m.census.use s).tasks 1 ≤ (m.census.use s).tasks 2 :=
    m.census.tasks_le_tasks s (Nat.le_succ 1)
  have hcase : (m.session s).outstanding ≠ 0 ∨ (m.session s).handles ≠ 1 := by
    cases hwaits with
    | counter _ hzero => exact .inl hzero
    | handles hone => exact .inr hone
  simp only [Census.use] at hle hge hcounter hmono ⊢
  omega

/-- A task that runs for a session was submitted to it. -/
theorem Reaches.mem_submitted (h : (start workers shared codes).Reaches m) {env : SortedMap Nat Nat}
    {p : Point σ ρ} (hg : ⟨.task k (some s), env, p⟩ ∈ Thread.crew m.threads) :
    k ∈ (m.session s).submitted := by
  have hle := (Tally.tasks σ ρ (· = (k, some s)) 2).whole_le_total (x := m.census) hg
  have hwhole : 0 < (Tally.tasks σ ρ (· = (k, some s)) 2).whole ⟨.task k (some s), env, p⟩ := by
    rw [Tally.whole_tasks, if_pos ⟨rfl, p.phase_le⟩]
    exact Nat.lt_add_right _ Nat.zero_lt_one
  rw [← List.count_pos_iff, (h.matches s).entered k]
  simp only [Census.use]
  omega

/-- A frame that waits for a session waits for a task in a slot or for one that
    runs. -/
theorem Reaches.cases_waits (h : (start workers shared codes).Reaches m)
    (hf : f ∈ Thread.crew m.threads) (hwaits : f.Waits m.common s) :
    m.Lively ∨ ∃ g ∈ Thread.crew m.threads, ∃ k, g.role.id? = some k ∧
      k ∈ (m.session s).submitted := by
  have hpos := h.tasks_pos hf hwaits
  simp only [Census.use, Tally.total_tasks, Nat.add_pos_iff_pos_or_pos, Multiset.countP_pos] at hpos
  rcases hpos with (⟨g, hg, job, hjob, hs⟩ | ⟨job, hjob, hs⟩) | ⟨⟨role, env, p⟩, hg, hrole, -⟩
  · -- only the frame itself can place a task of the session, and it places none
    exfalso
    have hholds : g.Holds s := .inl ((h.upright.aged g hg).placed job hjob s hs)
    obtain ⟨rest, hcrew⟩ := Multiset.exists_cons_of_mem hf
    rcases Multiset.mem_cons.1 ((congrArg (g ∈ ·) hcrew).mp hg) with rfl | hg
    · cases hwaits.job?_eq_none.symm.trans hjob
    · exact Census.eq_of_holds (x := m.census) hcrew (h.holding_le_one s) hg hwaits.holds hholds
  · obtain ⟨slot, hslot, htask⟩ := Slot.mem_held.1 hjob
    obtain ⟨j, hj⟩ := List.mem_iff_getElem?.1 hslot
    have hrun := (h.sound (sound_start workers shared codes)).running_of_not_quiet hf hwaits.loud
    exact .inl ((h.lively_of_stored hj htask).resolve_right (not_stranded hrun job.id))
  · rcases role with _ | ⟨k, session⟩
    · exact hrole.elim
    · obtain rfl : session = some s := hrole
      exact .inr ⟨_, hg, k, rfl, h.mem_submitted hg⟩

/-- **While a task runs, some thread gets somewhere**: the youngest task that
    runs waits for none that does. -/
theorem Reaches.lively_of_running (h : (start workers shared codes).Reaches m)
    (hf : f ∈ Thread.crew m.threads) (hk : f.role.id? = some k) : m.Lively := by
  induction hn : m.common.given - k using Nat.strong_induction_on generalizing f k with
  | _ n ih =>
    have hsound := h.sound (sound_start workers shared codes)
    obtain ⟨t, ht, hft⟩ := Thread.mem_crew.1 hf
    obtain ⟨i, hi⟩ := List.mem_iff_getElem?.1 ht
    cases t with
    | work top below =>
      have htop : top ∈ Thread.crew m.threads := Thread.mem_crew.2 ⟨_, ht, List.mem_cons_self⟩
      have hrole := (List.forall_mem_cons.1 (hsound.cast _ ht)).1
      obtain ⟨k₁, hk₁⟩ : ∃ k₁, top.role.id? = some k₁ := by
        cases hr : top.role with
        | outer => exact absurd hr hrole
        | task id session => exact ⟨id, rfl⟩
      have hle : k ≤ k₁ := by
        rcases List.mem_cons.1 hft with rfl | hbelow
        · exact (Option.some.inj (hk.symm.trans hk₁)).le
        · exact ((List.pairwise_cons.1 (h.upright.stacked _ ht).1).1 f hbelow k k₁ hk hk₁).le
      rcases h.lively_or_waits hi with hlively | ⟨s, hwaits⟩
      · exact hlively
      rcases h.cases_waits htop hwaits with hlively | ⟨g, hg, k₂, hk₂, hsubmitted⟩
      · exact hlively
      have hlt := (h.upright.aged top htop).older k₁ hk₁ s hwaits.holds k₂ hsubmitted
      have hgiven := h.lt_given hg hk₂
      exact ih (m.common.given - k₂) (by omega) hg hk₂ rfl
    | outer top =>
      obtain rfl := List.mem_singleton.1 hft
      rw [show f.role = .outer from hsound.cast _ ht] at hk
      cases hk
    | _ => cases hft

/-- While the pool is in use and no slot is idle, some thread gets somewhere. -/
theorem Reaches.lively_of_full (h : (start workers shared codes).Reaches m)
    (hrun : m.pool.running = true) (hfull : m.pool.Full) : m.Lively := by
  obtain ⟨slot, hslot⟩ : ∃ slot, m.pool.slots[0]? = some slot :=
    ⟨_, List.getElem?_eq_getElem h.slots_pos⟩
  cases hstate : slot.state with
  | idle => exact absurd hstate (hfull _ (List.mem_of_getElem? hslot))
  | claimed => exact h.lively_of_claimed hslot hstate
  | assigned =>
    by_cases hidle : ∀ f ∈ Thread.crew m.threads, f.role = .outer
    · exact h.lively_of_assigned hrun hslot hstate hidle
    · obtain ⟨f, hf, hrole⟩ : ∃ f ∈ Thread.crew m.threads, f.role ≠ .outer := by
        simpa only [not_forall, exists_prop] using hidle
      cases hr : f.role with
      | outer => exact absurd hr hrole
      | task id session => exact h.lively_of_running hf (congrArg Role.id? hr)

/-- A thread from outside is at the end of its code, or some thread gets
    somewhere. -/
theorem Reaches.lively_of_outer (h : (start workers shared codes).Reaches m)
    (ht : m.threads[i]? = some (.outer f)) :
    m.Lively ∨ ∃ code o, f.point = .run code ∧ code.end? = some o := by
  have htop := top?_of_outer ht
  have hmem := mem_crew_of_top? htop
  cases f.next (fun s => h.opened hmem) (h.upright.aged f hmem).bare with
  | advance hadvance => exact .inl (lively_of_advance htop hadvance)
  | ends hends =>
    have hcast := (h.sound (sound_start workers shared codes)).cast _ (List.mem_of_getElem? ht)
    have hid := hends.id?_role
    rw [show f.role = .outer from hcast] at hid
    cases hid
  | waits hwaits =>
    rcases h.cases_waits hmem hwaits with hlively | ⟨g, hg, k, hk, -⟩
    · exact .inl hlively
    · exact .inl (h.lively_of_running hg hk)
  | scan hscan =>
    obtain ⟨role, env, p⟩ := f
    cases hscan
    have hrun := (h.sound (sound_start workers shared codes)).running_of_not_quiet hmem id
    by_cases hfull : m.pool.Full
    · exact .inl (h.lively_of_full hrun hfull)
    · exact .inl (lively_of_outer_scan ht h.slots_pos hfull)
  | claim hclaim =>
    obtain ⟨slot, hslot⟩ := h.upright.claimed f hmem hclaim
    exact .inl (lively_of_claim htop hclaim hslot)
  | ended _ hpoint hend => exact .inr ⟨_, _, hpoint, hend⟩

end Reached

/-! ## Looking for an idle slot -/

section Scans

variable {role : Role} {env : SortedMap Nat Nat} {job : Job σ ρ} {next : Code σ ρ} {k : Nat}

theorem setTop_setTop (m : Machine σ ρ) (i : Nat) (f f' : Frame σ ρ) :
    (m.setTop i f).setTop i f' = m.setTop i f' := by
  have hwith : Thread.withTop f' ∘ Thread.withTop f = Thread.withTop f' := by
    funext t
    cases t <;> rfl
  simp only [setTop, List.modify_modify_eq, hwith]

theorem setTop_self (htop : m.top? i = some f) : m.setTop i f = m := by
  obtain ⟨t, ht, htop, hset⟩ := top?_eq_some htop
  have hsame : t.withTop f = t := by cases t <;> cases htop <;> rfl
  rw [setTop, hset, hsame]
  obtain ⟨hlt, rfl⟩ := List.getElem?_eq_some_iff.1 ht
  rw [List.set_getElem_self hlt]

/-- A thread goes on to another slot, and nothing else happens. -/
def Scans (i : Nat) (m m' : Machine σ ρ) : Prop :=
  m.Step m' ∧ ∃ role env j j' job next, m.top? i = some ⟨role, env, .scan j job next⟩ ∧
    m' = m.setTop i ⟨role, env, .scan j' job next⟩

/-- A slot that is not idle is passed. -/
theorem scans_pass {slot : Slot (Job σ ρ)} (htop : m.top? i = some ⟨role, env, .scan j job next⟩)
    (hslot : m.pool.slots[j]? = some slot) (hbusy : slot.state ≠ .idle) :
    Scans i m (m.setTop i ⟨role, env, .scan (j + 1) job next⟩) ∧
      (m.setTop i ⟨role, env, .scan (j + 1) job next⟩).top? i =
        some ⟨role, env, .scan (j + 1) job next⟩ := by
  obtain ⟨t, -, -, hset, htop'⟩ := setTop_getElem? htop ⟨role, env, .scan (j + 1) job next⟩
  refine ⟨⟨.pass htop hslot hbusy, _, _, _, _, _, _, htop, rfl⟩, ?_⟩
  rw [top?, hset]
  exact htop'

/-- An idle slot further on is found. -/
theorem scans_of_idle {d : Nat} (htop : m.top? i = some ⟨role, env, .scan j job next⟩)
    (hslot : m.pool.slots[j + d]? = some slot) (hidle : slot.state = .idle) :
    ∃ k slot, m.pool.slots[k]? = some slot ∧ slot.state = .idle ∧
      Relation.ReflTransGen (Scans i) m (m.setTop i ⟨role, env, .scan k job next⟩) := by
  induction d generalizing m j with
  | zero =>
    refine ⟨j, slot, hslot, hidle, ?_⟩
    rw [setTop_self htop]
  | succ d ih =>
    obtain ⟨slot', hj⟩ : ∃ slot', m.pool.slots[j]? = some slot' := by
      have hlt := (List.getElem?_eq_some_iff.1 hslot).1
      exact ⟨_, List.getElem?_eq_getElem (by omega)⟩
    by_cases hstate : slot'.state = .idle
    · refine ⟨j, slot', hj, hstate, ?_⟩
      rw [setTop_self htop]
    · obtain ⟨hscan, htop'⟩ := scans_pass htop hj hstate
      obtain ⟨k, slot', hk, hkidle, hscans⟩ := ih htop' (by rw [Nat.add_right_comm]; exact hslot)
      rw [setTop_setTop] at hscans
      exact ⟨k, slot', hk, hkidle, .head hscan hscans⟩

/-- At the end all slots are tried again, from the first one to the idle one. -/
theorem scans_again (ht : m.threads[i]? = some (.outer ⟨role, env, .scan j job next⟩))
    (hnone : m.pool.slots[j]? = none) (hfull : ¬ m.pool.Full) :
    ∃ k slot, m.pool.slots[k]? = some slot ∧ slot.state = .idle ∧
      Relation.ReflTransGen (Scans i) m (m.setTop i ⟨role, env, .scan k job next⟩) := by
  obtain ⟨slot, hslot, hidle⟩ : ∃ slot ∈ m.pool.slots, slot.state = .idle := by
    simpa [Pool.Full] using hfull
  obtain ⟨n, hn⟩ := List.mem_iff_getElem?.1 hslot
  have htop := top?_of_outer ht
  obtain ⟨t, -, -, hset, htop'⟩ := setTop_getElem? htop ⟨role, env, .scan 0 job next⟩
  have hfirst : (m.setTop i ⟨role, env, .scan 0 job next⟩).top? i =
      some ⟨role, env, .scan 0 job next⟩ := by rw [top?, hset]; exact htop'
  obtain ⟨k, slot', hk, hkidle, hscans⟩ :=
    scans_of_idle (d := n) hfirst (by rw [Nat.zero_add]; exact hn) hidle
  rw [setTop_setTop] at hscans
  exact ⟨k, slot', hk, hkidle, .head ⟨.rescan ht hnone, _, _, _, _, _, _, htop, rfl⟩ hscans⟩

/-- A thread from outside finds an idle slot when there is one. -/
theorem scans_of_not_full (ht : m.threads[i]? = some (.outer ⟨role, env, .scan j job next⟩))
    (hfull : ¬ m.pool.Full) :
    ∃ k slot, m.pool.slots[k]? = some slot ∧ slot.state = .idle ∧
      Relation.ReflTransGen (Scans i) m (m.setTop i ⟨role, env, .scan k job next⟩) := by
  induction hd : m.pool.slots.length - j generalizing m j with
  | zero => exact scans_again ht (List.getElem?_eq_none (Nat.le_of_sub_eq_zero hd)) hfull
  | succ d ih =>
    obtain ⟨slot, hslot⟩ : ∃ slot, m.pool.slots[j]? = some slot :=
      ⟨_, List.getElem?_eq_getElem (by omega)⟩
    have htop := top?_of_outer ht
    by_cases hidle : slot.state = .idle
    · refine ⟨j, slot, hslot, hidle, ?_⟩
      rw [setTop_self htop]
    · obtain ⟨hscan, -⟩ := scans_pass htop hslot hidle
      have hnext : (m.setTop i ⟨role, env, .scan (j + 1) job next⟩).threads[i]? =
          some (.outer ⟨role, env, .scan (j + 1) job next⟩) := by
        rw [setTop, List.getElem?_modify_eq, ht]
        rfl
      obtain ⟨k, slot', hk, hkidle, hscans⟩ := ih hnext hfull (by
        show m.pool.slots.length - (j + 1) = d
        omega)
      rw [setTop_setTop] at hscans
      exact ⟨k, slot', hk, hkidle, .head hscan hscans⟩

end Scans

/-! ## Something can always be done -/

/-- Some task is not over, and was not lost when the pool was given up, or some
    thread is inside a call that hands in a task or waits for a session. -/
def Engaged (m : Machine σ ρ) : Prop :=
  (∃ k < m.common.given, m.finished k = 0 ∧ ¬ m.Stranded k) ∨ ∃ t ∈ m.threads, t.Inside

/-- What keeps a machine going. -/
structure Flows (m : Machine σ ρ) : Prop where
  /-- While there is something to do, some thread gets somewhere. -/
  lively : m.Engaged → ∃ m', m.Step m' ∧ ¬ m.Vain m'
  /-- No task is lost while the pool is in use. -/
  unlost : m.pool.running = true → ∀ k, ¬ m.Stranded k
  /-- A thread that looks for an idle slot while there is one does not do so in
      vain: by its own steps it gets to the slot, which it can claim. -/
  found : ∀ {i : Nat} {role : Role} {env : SortedMap Nat Nat} {j : Nat} {job : Job σ ρ}
    {next : Code σ ρ}, m.threads[i]? = some (.outer ⟨role, env, .scan j job next⟩) →
      ¬ m.pool.Full → ∃ k slot, m.pool.slots[k]? = some slot ∧ slot.state = .idle ∧
        Relation.ReflTransGen (Scans i) m (m.setTop i ⟨role, env, .scan k job next⟩)

variable {workers : Nat} {shared : σ} {codes : List (Code σ ρ)} {k : Nat}

/-- While a task is not over, some thread gets somewhere, or the task is lost. -/
theorem Reaches.lively_of_unfinished (h : (start workers shared codes).Reaches m)
    (hk : k < m.common.given) (hfinished : m.finished k = 0) : m.Lively ∨ m.Stranded k := by
  have htasks := (h.tasks k).1
  rw [if_pos hk, hfinished, Nat.add_zero] at htasks
  have hpos : 0 < m.unplaced k ∨ 0 < m.stored k ∨ 0 < m.running k := by omega
  simp only [unplaced, stored, running, Multiset.countP_pos] at hpos
  rcases hpos with ⟨f, hf, hjob⟩ | ⟨job, hjob, rfl⟩ | ⟨f, hf, hid⟩
  · obtain ⟨t, ht, hft⟩ := Thread.mem_crew.1 hf
    obtain ⟨i, hi⟩ := List.mem_iff_getElem?.1 ht
    cases hrole : f.role with
    | task id session => exact .inl (h.lively_of_running hf (congrArg Role.id? hrole))
    | outer =>
      cases t with
      | outer top =>
        obtain rfl := List.mem_singleton.1 hft
        rcases h.lively_of_outer hi with hlively | ⟨code, o, hpoint, -⟩
        · exact .inl hlively
        · rw [hpoint] at hjob
          cases hjob
      | work top below =>
        have hcast := (h.sound (sound_start workers shared codes)).cast _ ht
        exact absurd hrole (hcast f hft)
      | _ => cases hft
  · obtain ⟨slot, hslot, htask⟩ := Slot.mem_held.1 hjob
    obtain ⟨i, hi⟩ := List.mem_iff_getElem?.1 hslot
    exact h.lively_of_stored hi htask
  · exact .inl (h.lively_of_running hf hid)

/-- While a thread is inside a call, some thread gets somewhere. -/
theorem Reaches.lively_of_inside (h : (start workers shared codes).Reaches m) {t : Thread σ ρ}
    (ht : t ∈ m.threads) (hinside : t.Inside) : m.Lively := by
  obtain ⟨i, hi⟩ := List.mem_iff_getElem?.1 ht
  cases t with
  | work top below =>
    have hcast := (h.sound (sound_start workers shared codes)).cast _ ht
    have htop : top ∈ Thread.crew m.threads := Thread.mem_crew.2 ⟨_, ht, List.mem_cons_self⟩
    cases hrole : top.role with
    | outer => exact absurd hrole (List.forall_mem_cons.1 hcast).1
    | task id session => exact h.lively_of_running htop (congrArg Role.id? hrole)
  | outer top =>
    rcases h.lively_of_outer hi with hlively | ⟨code, o, hpoint, hend⟩
    · exact hlively
    · rw [Thread.Inside, hpoint] at hinside
      cases code with
      | wait => cases hend
      | _ => exact hinside.elim
  | _ => exact hinside.elim

/-- **Nested sessions never block each other**, whatever the numbers of workers
    and of threads from outside, whatever they do, and whatever the order of
    their steps. -/
theorem Reaches.flows (h : (start workers shared codes).Reaches m) : m.Flows where
  lively hengaged := by
    rcases hengaged with ⟨k, hk, hfinished, hunlost⟩ | ⟨t, ht, hinside⟩
    · exact (h.lively_of_unfinished hk hfinished).resolve_right hunlost
    · exact h.lively_of_inside ht hinside
  unlost := not_stranded
  found ht hfull := scans_of_not_full ht hfull

/-- A thread waits for a session, another one looks for a slot in vain, and the
    only worker is placing a task of a session of its own. -/
theorem flows_nested :
    ∃ m : Machine Unit Nat,
      (start 1 () [.hand 0 (.hand 0 (.value 1) (.wait 0 fun rs => .value rs.sum))
        (.wait 0 fun rs => .value rs.sum), .post (.value 2) (.value 3)]).Reaches m ∧
        m.Flows ∧ m.Engaged ∧ m.pool.Full ∧ (∃ f, m.top? 1 = some f ∧ f.Waits m.common 0) ∧
        (∃ f j job next, m.top? 2 = some f ∧ f.point = .scan j job next ∧ job.id = 2) ∧
        ∃ m', m.Step m' ∧ ¬ m.Vain m' := by
  have hreaches := (Relation.ReflTransGen.refl (r := Step)
      (a := start 1 () [(.hand 0 (.hand 0 (.value 1) (.wait 0 fun rs => .value rs.sum))
        (.wait 0 fun rs => .value rs.sum) : Code Unit Nat), .post (.value 2) (.value 3)]))
    |>.tail (.advance (i := 1) rfl (.opens rfl rfl))
    |>.tail (.advance (i := 1) rfl (.hand rfl))
    |>.tail (.claim (i := 1) rfl rfl rfl)
    |>.tail (.put (i := 1) rfl rfl)
    |>.tail (.assign (i := 1) rfl rfl)
    |>.tail (.look (i := 0) rfl rfl rfl)
    |>.tail (.take (i := 0) rfl rfl rfl)
    |>.tail (.advance (i := 0) rfl (.opens rfl rfl))
    |>.tail (.advance (i := 0) rfl (.hand rfl))
    |>.tail (.advance (i := 2) rfl .post)
    |>.tail (.pass (i := 2) rfl rfl nofun)
  have hflows := Reaches.flows hreaches
  have hengaged : Engaged _ :=
    .inl ⟨1, Nat.lt_add_of_pos_left Nat.two_pos, rfl, hflows.unlost rfl 1⟩
  exact ⟨_, hreaches, hflows, hengaged,
    List.forall_mem_singleton.2 nofun, ⟨_, rfl, .counter rfl nofun⟩, ⟨_, _, _, _, rfl, rfl, rfl⟩,
    hflows.lively hengaged⟩

end Machine

end TickEngine
