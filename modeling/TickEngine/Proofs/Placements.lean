/-
  Calls of a pool are runs of its machine.

  A `Pool` says what it comes to when nobody else moves: where a task goes that
  is handed in, what is left when a worker is done, which tasks run when many
  are handed in and the pool is given up.  Each of these is a run of the
  machine, one atomic step after the other.

  * `Machine.reaches_enqueue`, `Machine.reaches_worker`: one task;
  * `Machine.ran_finish`: a worker that is done;
  * `Machine.reaches_handAll`, `Machine.reaches_close`: many tasks, and the end.
-/
import TickEngine.Proofs.Progress

namespace TickEngine

variable {σ ρ : Type}

/-! ## Where a task goes -/

/-- A task goes to the first idle slot, if there is one. -/
theorem Pool.enqueue_cases {τ : Type} (p : Pool τ) (caller : Caller) (task : τ) :
    (∃ j slot, p.slots[j]? = some slot ∧ slot.state = .idle ∧
      (∀ k < j, ∀ s, p.slots[k]? = some s → s.state ≠ .idle) ∧
      p.enqueue caller task =
        (.slot j, { p with slots := p.slots.set j ⟨.assigned, some task⟩ })) ∨
    p.Full ∧ p.enqueue caller task =
      (match caller with | .worker _ => .inline | .outside => .wait, p) := by
  cases hfirst : p.firstIdle? with
  | some j =>
    obtain ⟨hj, hidle, hbefore⟩ := List.findIdx?_eq_some_iff_getElem.1 hfirst
    refine .inl ⟨j, p.slots[j], List.getElem?_eq_getElem hj, of_decide_eq_true hidle, ?_, ?_⟩
    · intro k hk s hs
      obtain ⟨hlt, rfl⟩ := List.getElem?_eq_some_iff.1 hs
      simpa using hbefore k hk
    · simp only [enqueue, hfirst]
  | none =>
    refine .inr ⟨fun slot hslot => ?_, ?_⟩
    · simpa using List.findIdx?_eq_none_iff.1 hfirst slot hslot
    · cases caller <;> simp only [enqueue, hfirst]

/-- When no slot is idle, the first worker ends its task before the next one is
    handed in. -/
theorem Pool.handAll_of_full {τ : Type} {p : Pool τ} (h : p.Full) (task : τ) (rest : List τ) :
    p.handAll (task :: rest) =
      let p' := ((p.finish 0).enqueue .outside task).2
      ((p.slots.head?.bind (·.task)).toList ++ (p'.handAll rest).1, (p'.handAll rest).2) := by
  obtain ⟨j, slot, hslot, hidle, -⟩ | ⟨-, heq⟩ := p.enqueue_cases .outside task
  · exact absurd hidle (h slot (List.mem_of_getElem? hslot))
  · rw [handAll, heq]

/-- A task that finds an idle slot is handed in, and then the rest. -/
theorem Pool.handAll_of_slot {τ : Type} {p : Pool τ} {task : τ} {j : Nat}
    (h : (p.enqueue .outside task).1 = .slot j) (rest : List τ) :
    p.handAll (task :: rest) = (p.enqueue .outside task).2.handAll rest := by
  rw [handAll]
  rcases hcall : p.enqueue .outside task with ⟨placement, p'⟩
  rw [hcall] at h
  obtain rfl : placement = .slot j := h
  rfl

/-- Who a thread is to the pool. -/
def Thread.caller (i : Nat) : Thread σ ρ → Caller
  | .outer _ => .outside
  | _ => .worker i

/-- The task belongs to no session, and there is nothing to do in it. -/
def Job.Brief (job : Job σ ρ) : Prop := job.session = none ∧ ∃ o, job.code.end? = some o

theorem Code.quiet_of_end? {code : Code σ ρ} {o : Except Panic ρ} (h : code.end? = some o) :
    code.Quiet := by
  cases code with
  | value | panic => trivial
  | _ => cases h

/-- The slot is empty, or a brief task is assigned to it. -/
def Slot.Fresh (slot : Slot (Job σ ρ)) : Prop :=
  slot = {} ∨ ∃ job : Job σ ρ, slot = ⟨.assigned, some job⟩ ∧ job.Brief

namespace Machine

variable {m m' : Machine σ ρ} {i j : Nat} {t : Thread σ ρ} {f f' : Frame σ ρ} {role : Role}
  {env : SortedMap Nat Nat} {job : Job σ ρ} {next : Code σ ρ} {slot : Slot (Job σ ρ)}

theorem top?_setTop (htop : m.top? i = some f) (f' : Frame σ ρ) :
    (m.setTop i f').top? i = some f' := by
  obtain ⟨t, -, -, hset, htop'⟩ := setTop_getElem? htop f'
  rw [top?, hset]
  exact htop'

theorem outer_setTop (ht : m.threads[i]? = some (.outer f)) (f' : Frame σ ρ) :
    (m.setTop i f').threads[i]? = some (.outer f') := by
  rw [setTop, List.getElem?_modify_eq, ht]
  rfl

theorem setTop_setSlot (m : Machine σ ρ) (i j : Nat) (f f' : Frame σ ρ) (s : Slot (Job σ ρ)) :
    ((m.setTop i f).setSlot j s).setTop i f' = (m.setTop i f').setSlot j s :=
  congrArg (setSlot · j s) (setTop_setTop m i f f')

theorem setSlot_setSlot (m : Machine σ ρ) (j : Nat) (s s' : Slot (Job σ ρ)) :
    (m.setSlot j s).setSlot j s' = m.setSlot j s' := by
  simp only [setSlot, List.set_set]

theorem setTop_setThread (htop : m.top? i = some f) (f' : Frame σ ρ) (t : Thread σ ρ) :
    (m.setTop i f').setThread i t = m.setThread i t := by
  obtain ⟨t', -, -, hset⟩ := top?_eq_some htop
  simp only [setTop, setThread, hset, List.set_set]

theorem setThread_setThread (m : Machine σ ρ) (i : Nat) (t t' : Thread σ ρ) :
    (m.setThread i t).setThread i t' = m.setThread i t' := by
  simp only [setThread, List.set_set]

/-- Slots that are not idle are passed. -/
theorem scans_busy (htop : m.top? i = some ⟨role, env, .scan 0 job next⟩) {n : Nat}
    (hn : n ≤ m.pool.slots.length)
    (hbusy : ∀ k < n, ∀ slot, m.pool.slots[k]? = some slot → slot.state ≠ .idle) :
    Relation.ReflTransGen (Scans i) m (m.setTop i ⟨role, env, .scan n job next⟩) := by
  induction n with
  | zero => rw [setTop_self htop]
  | succ n ih =>
    have hslot := List.getElem?_eq_getElem hn
    have hscans := ih (Nat.le_of_succ_le hn) fun k hk => hbusy k (Nat.lt_succ_of_lt hk)
    have hpass := (scans_pass (m := m.setTop i ⟨role, env, .scan n job next⟩)
      (top?_setTop htop _) hslot (hbusy n (Nat.lt_succ_self n) _ hslot)).1
    rw [setTop_setTop] at hpass
    exact hscans.tail hpass

theorem reaches_of_scans (h : Relation.ReflTransGen (Scans i) m m') : m.Reaches m' :=
  h.lift id fun _ _ hscan => hscan.1

/-- A thread that has found an idle slot puts its task there. -/
theorem reaches_place (htop : m.top? i = some ⟨role, env, .scan j job next⟩)
    (hslot : m.pool.slots[j]? = some slot) (hidle : slot.state = .idle) :
    m.Reaches ((m.setTop i ⟨role, env, .run next⟩).setSlot j ⟨.assigned, some job⟩) := by
  have hplacing : ∀ f s, ((m.setTop i f).setSlot j s).top? i = some f ∧
      ((m.setTop i f).setSlot j s).pool.slots[j]? = some s :=
    fun f s => ⟨top?_setTop htop f, getElem?_set_of_some hslot s⟩
  have hclaim := Step.claim htop hslot hidle
  obtain ⟨htop₁, hslot₁⟩ := hplacing ⟨role, env, .store j job next⟩ { slot with state := .claimed }
  have hput := Step.put htop₁ hslot₁
  rw [setTop_setSlot, setSlot_setSlot] at hput
  obtain ⟨htop₂, hslot₂⟩ := hplacing ⟨role, env, .assign j next⟩ ⟨.claimed, some job⟩
  have hassign := Step.assign htop₂ hslot₂
  rw [setTop_setSlot, setSlot_setSlot] at hassign
  exact ((Relation.ReflTransGen.single hclaim).tail hput).tail hassign

/-- **A call that hands in a task comes to what `Pool.enqueue` says**: the task is
    in a slot, or the worker runs it, or all slots were tried in vain. -/
theorem reaches_enqueue (ht : m.threads[i]? = some t)
    (htop : t.top? = some ⟨role, env, .scan 0 job next⟩) :
    match m.pool.enqueue (t.caller i) job with
    | (.slot _, pool) => m.Reaches { m.setTop i ⟨role, env, .run next⟩ with pool }
    | (.inline, pool) => pool = m.pool ∧ ∃ below,
        t = .work ⟨role, env, .scan 0 job next⟩ below ∧
          m.Reaches { m.setThread i (.work job.frame (⟨role, env, .run next⟩ :: below)) with
            started := m.started ++ [job.id] }
    | (.wait, pool) => pool = m.pool ∧ m.pool.Full ∧ Relation.TransGen (Scans i) m m := by
  have htop' : m.top? i = some ⟨role, env, .scan 0 job next⟩ := by
    rw [top?, ht]
    exact htop
  obtain ⟨j, slot, hslot, hidle, hbefore, heq⟩ | ⟨hfull, heq⟩ :=
    m.pool.enqueue_cases (t.caller i) job
  · obtain ⟨hj, -⟩ := List.getElem?_eq_some_iff.1 hslot
    have hplace := reaches_place (top?_setTop htop' ⟨role, env, .scan j job next⟩) hslot hidle
    rw [setTop_setTop] at hplace
    rw [heq]
    exact (reaches_of_scans (scans_busy htop' hj.le hbefore)).trans hplace
  · have hscans := scans_busy htop' le_rfl fun k _ slot hslot =>
      hfull slot (List.mem_of_getElem? hslot)
    have hnone := List.getElem?_eq_none (l := m.pool.slots) le_rfl
    rw [heq]
    cases t with
    | work top below =>
      cases htop
      have hthread : (m.setTop i ⟨role, env, .scan m.pool.slots.length job next⟩).threads[i]? =
          some (.work ⟨role, env, .scan m.pool.slots.length job next⟩ below) := by
        rw [setTop, List.getElem?_modify_eq, ht]
        rfl
      have hinline := Step.inline hthread hnone
      rw [setTop_setThread htop'] at hinline
      exact ⟨rfl, below, rfl, (reaches_of_scans hscans).tail hinline⟩
    | outer top =>
      cases htop
      have hthread := outer_setTop ht ⟨role, env, .scan m.pool.slots.length job next⟩
      have hagain : (m.setTop i ⟨role, env, .scan m.pool.slots.length job next⟩).setTop i
          ⟨role, env, .scan 0 job next⟩ = m := by rw [setTop_setTop, setTop_self htop']
      have hrescan := Step.rescan hthread hnone
      rw [hagain] at hrescan
      exact ⟨rfl, hfull, .tail' hscans
        ⟨hrescan, _, _, _, _, _, _, top?_of_outer hthread, hagain.symm⟩⟩
    | _ => cases htop

/-- A worker that looks at its slot takes the task out of it. -/
theorem reaches_take (ht : m.threads[i]? = some .look)
    (hslot : m.pool.slots[i]? = some ⟨.assigned, some job⟩) :
    m.Reaches { (m.setThread i (.work job.frame [])).setSlot i ⟨.assigned, none⟩ with
      started := m.started ++ [job.id] } := by
  have hlook := Step.look ht hslot rfl
  have htake := Step.take (m := m.setThread i .take) (getElem?_set_of_some ht _) hslot rfl
  rw [setThread_setThread] at htake
  exact (Relation.ReflTransGen.single hlook).tail htake

theorem top?_setThread_work (ht : m.threads[i]? = some t) (f : Frame σ ρ)
    (below : List (Frame σ ρ)) : (m.setThread i (.work f below)).top? i = some f :=
  congrArg (Option.bind · Thread.top?) (getElem?_set_of_some ht _)

/-- So does one that is about to look at its slot again. -/
theorem comes_to_take (hrun : m.pool.running = true)
    (ht : m.threads[i]? = some .look ∨ m.threads[i]? = some .quit)
    (hslot : m.pool.slots[i]? = some ⟨.assigned, some job⟩) :
    ∃ m', m.Reaches m' ∧ m'.top? i = some job.frame := by
  rcases ht with hlook | hquit
  · exact ⟨_, reaches_take hlook hslot, top?_setThread_work hlook job.frame []⟩
  · have hlook : (m.setThread i .look).threads[i]? = some .look := getElem?_set_of_some hquit _
    exact ⟨_, .head (.stay hquit hrun) (reaches_take hlook hslot),
      top?_setThread_work hlook job.frame []⟩

/-- **The task is run by the worker that `Pool.worker?` says**, in a pool in use. -/
theorem reaches_worker (hsound : Sound m.pool m.threads) (hrun : m.pool.running = true)
    (ht : m.threads[i]? = some t) (htop : t.top? = some ⟨role, env, .scan 0 job next⟩) {w : Nat}
    (hw : Pool.worker? (t.caller i) (m.pool.enqueue (t.caller i) job).1 = some w) :
    ∃ m', m.Reaches m' ∧ m'.top? w = some job.frame := by
  have hcall := reaches_enqueue ht htop
  obtain ⟨j, slot, hslot, hidle, -, heq⟩ | ⟨-, heq⟩ := m.pool.enqueue_cases (t.caller i) job
  · rw [heq] at hcall hw
    obtain rfl := Option.some.inj hw
    obtain ⟨t', ht', hfits⟩ := hsound.fits hslot
    have hlooks : m.threads[j]? = some .look ∨ m.threads[j]? = some .quit := by
      cases t' with
      | look => exact .inl ht'
      | quit => exact .inr ht'
      | gone => cases hrun.symm.trans (hsound.left (List.mem_of_getElem? ht'))
      | outer => exact hfits.elim
      | _ => cases hidle.symm.trans hfits.1
    -- so its worker is not the thread that hands in the task
    have hne : i ≠ j := by
      rintro rfl
      rcases hlooks with hlook | hquit
      · cases ht.symm.trans hlook
        cases htop
      · cases ht.symm.trans hquit
        cases htop
    obtain ⟨m', hm', htop'⟩ := comes_to_take (i := j)
      (m := (m.setTop i ⟨role, env, .run next⟩).setSlot j ⟨.assigned, some job⟩) hrun
      ((List.getElem?_modify_ne _ _ hne).symm ▸ hlooks) (getElem?_set_of_some hslot _)
    exact ⟨m', Relation.ReflTransGen.trans hcall hm', htop'⟩
  · rw [heq] at hcall hw
    cases t with
    | work top below =>
      obtain rfl := Option.some.inj hw
      obtain ⟨-, below, -, hreaches⟩ := hcall
      exact ⟨_, hreaches, top?_setThread_work ht job.frame _⟩
    | outer => cases hw
    | _ => cases htop

/-! ## Tasks that end at once -/

/-- Workers have run brief tasks, in this order. -/
structure Ran (m : Machine σ ρ) (jobs : List (Job σ ρ)) (m' : Machine σ ρ) : Prop where
  reaches : m.Reaches m'
  started : m'.started = m.started ++ jobs.map Job.id
  done : m'.done = m.done ++ jobs.map fun job => (job.id, none)

theorem Reaches.ran_nil (h : m.Reaches m') (hstarted : m'.started = m.started)
    (hdone : m'.done = m.done) : m.Ran [] m' :=
  ⟨h, by simpa using hstarted, by simpa using hdone⟩

theorem Ran.trans {m'' : Machine σ ρ} {jobs jobs' : List (Job σ ρ)} (h : m.Ran jobs m')
    (h' : m'.Ran jobs' m'') : m.Ran (jobs ++ jobs') m'' where
  reaches := Relation.ReflTransGen.trans h.reaches h'.reaches
  started := by rw [h'.started, h.started, List.map_append, List.append_assoc]
  done := by rw [h'.done, h.done, List.map_append, List.append_assoc]

/-- **A worker that ends a brief task leaves what `Pool.finish` says.** -/
theorem ran_finish (ht : m.threads[i]? = some .look)
    (hslot : m.pool.slots[i]? = some ⟨.assigned, some job⟩) (hjob : job.Brief) :
    ∃ m', m.Ran [job] m' ∧ m'.pool = m.pool.finish i ∧ m'.threads = m.threads ∧
      m'.common = m.common := by
  obtain ⟨id, session, code⟩ := job
  obtain ⟨rfl, o, hend⟩ := hjob
  let taken : Machine σ ρ :=
    { (m.setThread i (.work (Job.frame ⟨id, none, code⟩) [])).setSlot i ⟨.assigned, none⟩ with
      started := m.started ++ [id] }
  let ended : Machine σ ρ :=
    { taken.setThread i .reset with done := taken.done ++ [(id, none)] }
  have htake : m.Reaches taken := reaches_take ht hslot
  have hfinish : taken.Step ended := .finish (getElem?_set_of_some ht _) (.bare hend)
  have hreset := Step.reset (m := ended)
    (getElem?_set_of_some (getElem?_set_of_some ht _) _) (getElem?_set_of_some hslot _)
  refine ⟨_, ⟨(htake.tail hfinish).tail hreset, rfl, rfl⟩, ?_, ?_, rfl⟩
  · simp only [ended, taken, Pool.finish, setSlot, setThread, List.set_set]
  · simp only [ended, taken, setSlot, setThread, List.set_set]
    obtain ⟨hlt, hlook⟩ := List.getElem?_eq_some_iff.1 ht
    rw [← hlook, List.set_getElem_self]

/-! ## Many tasks -/

/-- The tasks of codes that are handed in one after the other. -/
def jobs : Nat → List (Code σ ρ) → List (Job σ ρ)
  | _, [] => []
  | given, code :: rest => ⟨given, none, code⟩ :: jobs (given + 1) rest

/-- Every worker looks at its slot, which is empty or has a brief task. -/
structure Ready (m : Machine σ ρ) : Prop where
  look : ∀ w < m.pool.slots.length, m.threads[w]? = some .look
  fresh : ∀ slot ∈ m.pool.slots, slot.Fresh

/-- Workers stay where they are, and one slot changes. -/
theorem Ready.set (h : m.Ready)
    (hthreads : ∀ w : Nat, m.threads[w]? = some .look → m'.threads[w]? = some .look)
    (hslots : m'.pool.slots = m.pool.slots.set j slot) (hfresh : slot.Fresh) : m'.Ready where
  look w hw := hthreads w (h.look w (by rwa [hslots, List.length_set] at hw))
  fresh slot' hslot' := by
    rw [hslots] at hslot'
    rcases List.mem_or_eq_of_mem_set hslot' with hold | rfl
    · exact h.fresh slot' hold
    · exact hfresh

theorem look_setTop {w : Nat} (h : m.threads[w]? = some .look) (i : Nat) (f : Frame σ ρ) :
    (m.setTop i f).threads[w]? = some .look := by
  rw [setTop, List.getElem?_modify, h]
  split <;> rfl

/-- A brief task from outside is put into an idle slot. -/
theorem Ready.place (h : m.Ready) (ht : m.threads[i]? = some (.outer ⟨role, env, .scan 0 job next⟩))
    (hjob : job.Brief) (hfull : ¬ m.pool.Full) :
    ∃ j m', (m.pool.enqueue .outside job).1 = .slot j ∧ m.Ran [] m' ∧
      m'.pool = (m.pool.enqueue .outside job).2 ∧ m'.Ready ∧ 0 < m'.pool.slots.length ∧
      m'.common = m.common ∧ m'.threads = m.threads.set i (.outer ⟨role, env, .run next⟩) := by
  have hcall := reaches_enqueue ht rfl
  obtain ⟨j, slot, hslot, -, -, heq⟩ | ⟨hfull', -⟩ := m.pool.enqueue_cases .outside job
  · rw [Thread.caller, heq] at hcall
    rw [heq]
    refine ⟨j, _, rfl, Reaches.ran_nil hcall rfl rfl, rfl, ?_, ?_, rfl, modify_eq_set ht _⟩
    · exact h.set (fun w hw => look_setTop hw i _) rfl (.inr ⟨job, rfl, hjob⟩)
    · obtain ⟨hlt, -⟩ := List.getElem?_eq_some_iff.1 hslot
      exact List.length_set.symm ▸ Nat.zero_lt_of_lt hlt
  · exact absurd hfull' hfull

/-- When no slot is idle, the first worker ends its task. -/
theorem Ready.finish (h : m.Ready) (hpos : 0 < m.pool.slots.length) (hfull : m.pool.Full) :
    ∃ job m', (m.pool.slots.head?.bind (·.task)).toList = [job] ∧ m.Ran [job] m' ∧
      m'.pool = m.pool.finish 0 ∧ m'.Ready ∧ m'.common = m.common ∧ m'.threads = m.threads := by
  have hslot := List.getElem?_eq_getElem hpos
  rcases h.fresh _ (List.getElem_mem hpos) with hempty | ⟨job, hassigned, hjob⟩
  · exact absurd (congrArg Slot.state hempty) (hfull _ (List.getElem_mem hpos))
  · rw [hassigned] at hslot
    obtain ⟨m', hran, hpool, hthreads, hcommon⟩ := ran_finish (h.look 0 hpos) hslot hjob
    refine ⟨job, m', ?_, hran, hpool, ?_, hcommon, hthreads⟩
    · rw [List.head?_eq_getElem?, hslot]
      rfl
    · exact h.set (fun w hw => hthreads ▸ hw) (by rw [hpool]; rfl) (.inl rfl)

/-- One task more comes to what `Pool.handAll` says of it. -/
theorem Ready.hand (h : m.Ready) (hpos : 0 < m.pool.slots.length)
    (ht : m.threads[i]? = some (.outer ⟨role, env, .scan 0 job next⟩)) (hjob : job.Brief)
    (rest : List (Job σ ρ)) :
    ∃ ran m', m.Ran ran m' ∧
      m.pool.handAll (job :: rest) = (ran ++ (m'.pool.handAll rest).1, (m'.pool.handAll rest).2) ∧
      m'.Ready ∧ 0 < m'.pool.slots.length ∧ m'.common = m.common ∧
      m'.threads = m.threads.set i (.outer ⟨role, env, .run next⟩) := by
  by_cases hfull : m.pool.Full
  · -- the first worker ends its task, and then its slot is idle
    obtain ⟨first, m₁, hfirst, hran₁, hpool₁, hready₁, hcommon₁, hthreads₁⟩ := h.finish hpos hfull
    have hidle : ¬ m₁.pool.Full := fun hfull₁ =>
      hfull₁ {} (hpool₁ ▸ List.mem_set hpos {}) rfl
    obtain ⟨j, m₂, -, hran₂, hpool₂, hready₂, hpos₂, hcommon₂, ht₂⟩ :=
      hready₁.place (hthreads₁ ▸ ht) hjob hidle
    refine ⟨[first], m₂, hran₁.trans hran₂, ?_, hready₂, hpos₂, hcommon₂.trans hcommon₁,
      hthreads₁ ▸ ht₂⟩
    rw [Pool.handAll_of_full hfull, hfirst, ← hpool₁, ← hpool₂]
  · obtain ⟨j, m₁, hslot, hran₁, hpool₁, hready₁, hpos₁, hcommon₁, ht₁⟩ := h.place ht hjob hfull
    refine ⟨[], m₁, hran₁, ?_, hready₁, hpos₁, hcommon₁, ht₁⟩
    rw [Pool.handAll_of_slot hslot, ← hpool₁]
    rfl

/-- **Many tasks from outside come to what `Pool.handAll` says.** -/
theorem reaches_handAll {codes : List (Code σ ρ)} (hends : ∀ code ∈ codes, ∃ o, code.end? = some o)
    (h : m.Ready) (hpos : 0 < m.pool.slots.length)
    (ht : m.threads[i]? = some (.outer ⟨role, env, .run (codes.foldr .post next)⟩)) :
    ∃ m', m.Ran (m.pool.handAll (jobs m.common.given codes)).1 m' ∧
      m'.pool = (m.pool.handAll (jobs m.common.given codes)).2 ∧ m'.Ready ∧
      m'.common.given = m.common.given + codes.length ∧
      m'.threads = m.threads.set i (.outer ⟨role, env, .run next⟩) := by
  induction codes generalizing m with
  | nil =>
    obtain ⟨hlt, hsame⟩ := List.getElem?_eq_some_iff.1 ht
    exact ⟨m, Reaches.ran_nil .refl rfl rfl, rfl, h, rfl, hsame ▸ (List.set_getElem_self hlt).symm⟩
  | cons code rest ih =>
    obtain ⟨hend, hends⟩ := List.forall_mem_cons.1 hends
    let posted : Machine σ ρ :=
      { m.setTop i ⟨role, env, .scan 0 ⟨m.common.given, none, code⟩ (rest.foldr .post next)⟩ with
        common := { m.common with given := m.common.given + 1 } }
    have hposted : m.Step posted := .advance (top?_of_outer ht) .post
    obtain ⟨ran, m₁, hran₁, hsame, hready₁, hpos₁, hcommon₁, ht₁⟩ := Ready.hand (m := posted)
      ⟨fun w hw => look_setTop (h.look w hw) i _, h.fresh⟩ hpos (outer_setTop ht _) ⟨rfl, hend⟩
      (jobs (m.common.given + 1) rest)
    change m.pool.handAll _ = _ at hsame
    have hset : posted.threads.set i (.outer ⟨role, env, .run (rest.foldr .post next)⟩) =
        m.threads.set i (.outer ⟨role, env, .run (rest.foldr .post next)⟩) :=
      (congrArg (List.set · i _) (modify_eq_set ht _)).trans (List.set_set ..)
    obtain ⟨m₂, hran₂, hpool₂, hready₂, hgiven₂, ht₂⟩ := ih hends hready₁ hpos₁
      (by rw [ht₁, hset, getElem?_set_of_some ht])
    have hgiven₁ : m₁.common.given = m.common.given + 1 := congrArg Common.given hcommon₁
    rw [hgiven₁] at hran₂ hpool₂ hgiven₂
    refine ⟨m₂, ?_, ?_, hready₂, ?_, by rw [ht₂, ht₁, hset, List.set_set]⟩
    · rw [jobs, hsame]
      exact (Reaches.ran_nil (.single hposted) rfl rfl).trans (hran₁.trans hran₂)
    · rw [jobs, hsame, hpool₂]
    · rw [hgiven₂, List.length_cons]
      omega

/-! ## The end -/

/-- Workers end the tasks of the first slots. -/
theorem Ready.finish_take (h : m.Ready) {n : Nat} (hn : n ≤ m.pool.slots.length) :
    ∃ m', m.Ran ((m.pool.slots.take n).filterMap (·.task)) m' ∧ m'.Ready ∧
      m'.pool = { m.pool with
        slots := (m.pool.slots.take n).map (fun _ => {}) ++ m.pool.slots.drop n } := by
  induction n with
  | zero => exact ⟨m, Reaches.ran_nil .refl rfl rfl, h, rfl⟩
  | succ n ih =>
    obtain ⟨m₁, hran₁, hready₁, hpool₁⟩ := ih (Nat.le_of_succ_le hn)
    have hmin : min n m.pool.slots.length = n := Nat.min_eq_left (Nat.le_of_succ_le hn)
    have hslot : m₁.pool.slots[n]? = some m.pool.slots[n] := by
      simp [hpool₁, List.getElem?_append_right, hmin]
    have hset : ((m.pool.slots.take (n + 1)).map (fun _ => ({} : Slot (Job σ ρ)))) ++
        m.pool.slots.drop (n + 1) = m₁.pool.slots.set n {} := by
      have hlength : ((m.pool.slots.take n).map fun _ => ({} : Slot (Job σ ρ))).length = n := by
        rw [List.length_map, List.length_take, hmin]
      rw [hpool₁, List.take_succ_eq_append_getElem hn, List.drop_eq_getElem_cons hn,
        List.map_append, List.append_assoc, List.set_append_right _ _ hlength.le, hlength,
        Nat.sub_self]
      rfl
    rw [hset, List.take_succ_eq_append_getElem hn, List.filterMap_append]
    rcases h.fresh _ (List.getElem_mem hn) with hempty | ⟨job, hassigned, hjob⟩
    · rw [hempty] at hslot ⊢
      refine ⟨m₁, (List.append_nil _).symm ▸ hran₁, hready₁, ?_⟩
      obtain ⟨hlt, hsame⟩ := List.getElem?_eq_some_iff.1 hslot
      rw [← hsame, List.set_getElem_self, hpool₁]
    · rw [hassigned] at hslot ⊢
      have hlt := (List.getElem?_eq_some_iff.1 hslot).1
      obtain ⟨m₂, hran₂, hpool₂, hthreads₂, -⟩ := ran_finish (hready₁.look n hlt) hslot hjob
      refine ⟨m₂, hran₁.trans hran₂, ?_, ?_⟩
      · exact hready₁.set (fun w hw => hthreads₂ ▸ hw) (by rw [hpool₂]; rfl) (.inl rfl)
      · rw [hpool₂, Pool.finish, hpool₁]

/-- **When the last handle is dropped, workers end what `Pool.close` says.** -/
theorem reaches_close (h : m.Ready) (hquiet : m.Quiet) :
    ∃ m', m.Ran m.pool.close.1 m' ∧ m'.pool = m.pool.close.2 := by
  have hshut : m.Step { m with pool := { m.pool with running := false } } := .shut hquiet
  obtain ⟨m', hran, -, hpool⟩ := Ready.finish_take
    (m := { m with pool := { m.pool with running := false } }) ⟨h.look, h.fresh⟩ le_rfl
  refine ⟨m', ?_, ?_⟩
  · have hall := (Reaches.ran_nil (.single hshut) rfl rfl).trans hran
    simpa [Pool.close] using hall
  · rw [hpool]
    simp [Pool.close, List.map_const']

variable {workers : Nat} {shared : σ}

theorem threads_start (workers : Nat) (shared : σ) (codes : List (Code σ ρ)) :
    (start workers shared codes).threads =
      List.replicate (max workers 1) .look ++
        codes.map fun code => .outer ⟨.outer, .empty, .run code⟩ := by
  simp [start, Pool.new, Pool.workerCount]

theorem ready_start (codes : List (Code σ ρ)) : (start workers shared codes).Ready where
  look w hw := by
    have hlt : w < max workers 1 := by simpa [start, Pool.new] using hw
    rw [threads_start, List.getElem?_append_left (by simpa using hlt),
      List.getElem?_replicate_of_lt hlt]
  fresh slot hslot := .inl (List.eq_of_mem_replicate hslot)

/-- **A thread that hands in brief tasks and drops the pool has all of them run**,
    as many as `Pool.handAll` says by the time the last one is handed in, and the
    others when the pool is closed. -/
theorem reaches_drop {codes : List (Code σ ρ)} (hends : ∀ code ∈ codes, ∃ o, code.end? = some o)
    (r : ρ) :
    let handed := (Pool.new workers).handAll (jobs 0 codes)
    ∃ m, (start workers shared [codes.foldr .post (.value r)]).Reaches m ∧
      m.pool = handed.2.close.2 ∧ m.started = (handed.1 ++ handed.2.close.1).map Job.id ∧
      m.done = (handed.1 ++ handed.2.close.1).map fun job => (job.id, none) := by
  intro handed
  have hthreads := threads_start workers shared [codes.foldr .post (.value r)]
  have hout : (start workers shared [codes.foldr .post (.value r)]).threads[max workers 1]? =
      some (.outer ⟨.outer, .empty, .run (codes.foldr .post (.value r))⟩) := by
    rw [hthreads, List.getElem?_append_right (by simp)]
    simp
  obtain ⟨m₁, hran₁, hpool₁, hready₁, -, hthreads₁⟩ :=
    reaches_handAll hends (ready_start _) (Reaches.slots_pos .refl) hout
  have hquiet : m₁.Quiet := by
    refine ⟨fun t ht => ?_, fun slot hslot job hjob => ?_⟩
    · rw [hthreads₁, hthreads, List.set_append_right _ _ (by simp)] at ht
      rcases List.mem_append.1 ht with ht | ht
      · rw [List.eq_of_mem_replicate ht]
        exact nofun
      · obtain rfl : t = .outer ⟨.outer, .empty, .run (.value r)⟩ := by simpa using ht
        exact List.forall_mem_singleton.2 trivial
    · rcases hready₁.fresh slot hslot with rfl | ⟨job', rfl, -, o, hend⟩
      · cases hjob
      · cases hjob
        exact Code.quiet_of_end? hend
  obtain ⟨m₂, hran₂, hpool₂⟩ := reaches_close hready₁ hquiet
  have hall := hran₁.trans hran₂
  rw [hpool₁] at hall hpool₂
  exact ⟨m₂, hall.reaches, hpool₂, hall.started, hall.done⟩

end Machine

end TickEngine
