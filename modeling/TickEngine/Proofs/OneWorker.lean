/-
  Who stands in a line, and in what order.

  In a machine with one worker and one thread from outside a session is held
  by one frame (`Line.Owned`), the tasks of a session stand in front of its
  holder, and they end in the order in which they were handed in
  (`Line.Linked`).
-/
import TickEngine.Proofs.Line

namespace TickEngine

variable {σ ρ : Type}

/-! ## Holders -/

/-- The frame has a handle on the session for itself. -/
def Frame.Holds (f : Frame σ ρ) (s : Nat) : Prop := s ∈ f.env.values ∨ f.point.reclaim? = some s

/-- The session of a task. -/
def Role.session? : Role → Option Nat
  | .outer => none
  | .task _ session => session

theorem Role.is_session {role : Role} {s : Nat} :
    role.Is (·.2 = some s) ↔ role.session? = some s := by
  cases role <;> simp [Is, session?]

/-- What sessions say about the frames of a line. -/
structure Line.Owned (x : Line σ ρ) : Prop where
  /-- A session is held by one frame. -/
  alone : x.all.Pairwise fun f g => ∀ s, f.Holds s → ¬ g.Holds s
  /-- A frame holds a session under one name. -/
  once : ∀ f ∈ x.all, ∀ s, f.env.values.count s ≤ 1
  opened : ∀ f ∈ x.all, ∀ s, f.Uses s → s < x.common.sessions.length
  /-- With the last handle on a session, its holder is alone. -/
  last : ∀ f ∈ x.all, ∀ s, f.point.reclaim? = some s → (x.common.session s).handles = 1 →
    ∀ g ∈ x.all, g.role.session? ≠ some s ∧ ∀ job, g.point.job? = some job → job.session ≠ some s
  /-- When all its tasks are over, its holder can go on. -/
  free : ∀ s, (∀ g ∈ x.all, g.role.session? ≠ some s ∧
    ∀ job, g.point.job? = some job → job.session ≠ some s) → (∃ f ∈ x.all, f.Holds s) →
      (x.common.session s).outstanding = 0 ∧ (x.common.session s).handles = 1

/-- Of members that weigh one together, just one has a weight. -/
theorem pairwise_of_sum_le_one {α : Type} {w : Nat → α → Nat} {l : List α}
    (h : ∀ s, (l.map (w s)).sum ≤ 1) : l.Pairwise fun a b => ∀ s, 0 < w s a → ¬ 0 < w s b := by
  induction l with
  | nil => exact .nil
  | cons a l ih =>
    simp only [List.map_cons, List.sum_cons] at h
    refine List.pairwise_cons.2 ⟨fun b hb s ha hpos => ?_,
      ih fun s => (Nat.le_add_left _ _).trans (h s)⟩
    have hle := List.single_le_sum (fun _ _ => Nat.zero_le _) _ (List.mem_map_of_mem (f := w s) hb)
    have := h s
    omega

namespace Machine

variable {m m' : Machine σ ρ} {x : Line σ ρ} {f : Frame σ ρ} {s : Nat}

theorem Lines.total (hx : m.Lines x) (T : Tally σ ρ) :
    T.total m.census = (x.all.map T.whole).sum := by
  obtain ⟨t, slot, hthreads, hslots, hwork, -⟩ := hx
  have hcrew : m.census.crew = (t.frames ++ [x.outer] : List (Frame σ ρ)) := by
    show Thread.crew m.threads = _
    rw [hthreads]
    simp only [Thread.crew, List.map_cons, List.map_nil, List.sum_cons, List.sum_nil, add_zero,
      Multiset.coe_add]
    rfl
  have hheld : m.census.held = (slot.task.toList : Multiset (Job σ ρ)) := by
    show Slot.held m.pool.slots = _
    rw [hslots]
    simp [Slot.held]
  have hjob : ∀ job : Job σ ρ, T.whole job.frame = T.job job := by
    intro job
    rw [Tally.whole, T.start]
    rfl
  rw [Tally.total, hcrew, hheld, Line.all, hwork]
  have hjobs : T.whole ∘ Job.frame = T.job := funext hjob
  simp only [Multiset.map_coe, Multiset.sum_coe, List.map_append, List.sum_append, List.map_map,
    hjobs]
  omega

theorem holds_iff : f.Holds s ↔ 0 < (Tally.holding σ ρ s).whole f := by
  rw [Tally.whole_holding, Frame.Holds, Nat.add_pos_iff_pos_or_pos, List.count_pos_iff]
  refine or_congr_right ?_
  split
  · exact iff_of_true ‹_› one_pos
  · exact iff_of_false ‹_› (Nat.lt_irrefl 0)

/-- What the counts of sessions mean for the line. -/
theorem Lines.owned (hx : m.Lines x) (hm : ∀ s, (m.session s).Matches (m.census.use s)) :
    x.Owned := by
  have hown : ∀ s, (x.all.map (Tally.holding σ ρ s).whole).sum ≤ 1 := by
    intro s
    rw [← hx.total]
    have hle := (hm s).le_handles
    have hge := (hm s).handles_le
    simp only [Census.use] at hle hge
    omega
  have hcommon := hx.common_eq
  have hle : ∀ f ∈ x.all, ∀ T : Tally σ ρ, T.whole f ≤ T.total m.census := by
    intro f hf T
    rw [hx.total]
    exact List.single_le_sum (fun _ _ => Nat.zero_le _) _ (List.mem_map_of_mem hf)
  have hnone : ∀ s, (Tally.tasks σ ρ (·.2 = some s) 2).total m.census = 0 ↔
      ∀ g ∈ x.all, g.role.session? ≠ some s ∧
        ∀ job, g.point.job? = some job → job.session ≠ some s := by
    intro s
    rw [hx.total, List.sum_eq_zero_iff, List.forall_mem_map]
    refine forall₂_congr fun g _ => ?_
    simp [Tally.whole_tasks, Role.is_session, g.point.phase_le]
  have hpos : ∀ f ∈ x.all, ∀ s, f.Holds s → 0 < (Tally.holding σ ρ s).total m.census :=
    fun f hf s hholds => Nat.lt_of_lt_of_le (holds_iff.1 hholds) (hle f hf _)
  constructor
  · refine (pairwise_of_sum_le_one hown).imp fun h s => ?_
    rw [holds_iff, holds_iff]
    exact h s
  · intro f hf s
    have hwhole := (hle f hf (Tally.holding σ ρ s)).trans (hx.total _ ▸ hown s)
    rw [Tally.whole_holding] at hwhole
    omega
  · intro f hf s huses
    have hhandles := (hm s).le_handles
    have huse := huses.pos
    have htasks := hle f hf (Tally.tasks σ ρ (·.2 = some s) 2)
    have hholding := hle f hf (Tally.holding σ ρ s)
    simp only [Census.use] at hhandles
    rw [hcommon]
    exact Common.lt_of_handles (Nat.lt_of_lt_of_le (by omega) hhandles)
  · intro f hf s hreclaim hone
    have hhandles := (hm s).le_handles
    have hholding := hpos f hf s (.inr hreclaim)
    rw [hcommon] at hone
    rw [session, hone] at hhandles
    simp only [Census.use] at hhandles
    exact (hnone s).1 (by omega)
  · rintro s hs ⟨f, hf, hholds⟩
    have hzero := (hnone s).2 hs
    have hout := (hm s).outstanding
    have hle1 := m.census.tasks_le_tasks s (Nat.le_succ 1)
    have hhandles := (hm s).le_handles
    have hge := (hm s).handles_le
    have hholding := hpos f hf s hholds
    rw [hcommon]
    simp only [session, Census.use, hzero] at hout hle1 hhandles hge
    omega

end Machine

/-! ## Places -/

/-- The task of a session that a frame runs, until its result is combined. -/
def Frame.due (s : Nat) (f : Frame σ ρ) : List Nat :=
  match f.role with
  | .outer => []
  | .task id session => if session = some s ∧ f.point.phase = 0 then [id] else []

/-- The task of a session that a frame is placing. -/
def Frame.placing (s : Nat) (f : Frame σ ρ) : List Nat :=
  match f.point.job? with
  | none => []
  | some job => if job.session = some s then [job.id] else []

theorem Frame.due_eq_nil {f : Frame σ ρ} {s : Nat} (h : f.role.session? ≠ some s) :
    f.due s = [] := by
  obtain ⟨role, env, p⟩ := f
  cases role with
  | outer => rfl
  | task id session => exact if_neg fun hs => h hs.1

theorem Frame.placing_eq_nil {f : Frame σ ρ} {s : Nat}
    (h : ∀ job, f.point.job? = some job → job.session ≠ some s) : f.placing s = [] := by
  rw [placing]
  cases hjob : f.point.job? with
  | none => rfl
  | some job => exact if_neg (h job hjob)

/-- The tasks of a session that are not over for its combiner, in the order in
    which they will be. -/
def Line.pending (x : Line σ ρ) (s : Nat) : List Nat :=
  x.work.flatMap (Frame.due s) ++ x.all.flatMap (Frame.placing s)

theorem Line.pending_eq_nil {x : Line σ ρ} {s : Nat} (h : ∀ f ∈ x.all, f.role.session? ≠ some s ∧
    ∀ job, f.point.job? = some job → job.session ≠ some s) : x.pending s = [] := by
  rw [pending, List.append_eq_nil_iff, List.flatMap_eq_nil_iff, List.flatMap_eq_nil_iff]
  exact ⟨fun f hf => Frame.due_eq_nil (h f (List.mem_append_left _ hf)).1,
    fun f hf => Frame.placing_eq_nil (h f hf).2⟩

/-- Each task of a session stands in front of a holder. -/
def Hosted : List (Frame σ ρ) → Prop
  | [] => True
  | f :: rest => (∀ s, f.role.session? = some s → ∃ g ∈ rest, g.Holds s) ∧ Hosted rest

/-- Tasks stand in front of the holders of their sessions, and in order. -/
structure Line.Linked (x : Line σ ρ) : Prop where
  outside : x.outer.role = .outer
  /-- The thread from outside is not at an end of a task. -/
  running : x.outer.point.phase = 0
  /-- It claims the only slot. -/
  claims : ∀ j b, x.outer.point.claim? = some (j, b) → j = 0
  /-- The worker claims none. -/
  unclaimed : ∀ f ∈ x.work, f.point.claim? = none
  /-- A task of no session just ends. -/
  bare : ∀ f ∈ x.work, f.role.session? = none → f.point.phase = 0
  hosted : Hosted x.all
  /-- A task is placed by the holder of its session. -/
  placed : ∀ f ∈ x.all, ∀ job s, f.point.job? = some job → job.session = some s →
    s ∈ f.env.values
  /-- Tasks end in the order in which they were handed in. -/
  inOrder : ∀ s, (x.common.session s).submitted =
    (x.common.session s).settled.map (·.1) ++ x.pending s

/-! ### Moves -/

section Moves

variable {f f' : Frame σ ρ} {c c' : Common σ ρ} {s : Nat}

/-- What a move does to the order of a session: nothing, or a task is handed
    in, or one is over for the combiner. -/
theorem Advance.turn (h : Advance f c f' c') (hopened : ∀ s, f.Uses s → s < c.sessions.length)
    (s : Nat) :
    ((c'.session s).submitted = (c.session s).submitted ∧
      (c'.session s).settled = (c.session s).settled ∧
      f'.due s = f.due s ∧ f'.placing s = f.placing s) ∨
    ((c'.session s).submitted = (c.session s).submitted ++ [c.given] ∧
      (c'.session s).settled = (c.session s).settled ∧ s ∈ f.env.values ∧
      f'.due s = f.due s ∧ f.placing s = [] ∧ f'.placing s = [c.given]) ∨
    ∃ id o, (c'.session s).submitted = (c.session s).submitted ∧
      (c'.session s).settled = (c.session s).settled ++ [(id, o)] ∧
      f.due s = [id] ∧ f'.due s = [] ∧ f.placing s = [] ∧ f'.placing s = [] := by
  cases h with
  | act | check => exact .inl ⟨rfl, rfl, rfl, rfl⟩
  | post =>
    refine .inl ⟨rfl, rfl, rfl, Frame.placing_eq_nil fun job hjob => ?_⟩
    cases hjob
    nofun
  | opens =>
    refine .inl ?_
    rcases c.session_opened_cases s with hsame | ⟨hold, hnew⟩
    · exact ⟨congrArg Session.submitted hsame, congrArg Session.settled hsame, rfl, rfl⟩
    · rw [hold, hnew]
      exact ⟨rfl, rfl, rfl, rfl⟩
  | @hand role env _ name task next t hget =>
    have hmem := SortedMap.mem_values_of_get? hget
    by_cases hts : t = s
    · subst hts
      have hnew := Common.session_modify_self_of_lt (hopened t (.inl hmem)) (·.enter c.given)
      have hsubmitted := congrArg Session.submitted hnew
      have hsettled := congrArg Session.settled hnew
      exact .inr (.inl ⟨hsubmitted, hsettled, hmem, rfl, rfl, if_pos rfl⟩)
    · have hsame := Common.session_modify_of_ne (c := c) hts (·.enter c.given)
      exact .inl ⟨congrArg Session.submitted hsame, congrArg Session.settled hsame, rfl,
        if_neg fun h => hts (Option.some.inj h)⟩
  | reclaim =>
    refine .inl ?_
    rcases c.session_modify_cases s _ _ with hsame | ⟨-, hsame⟩ <;> rw [hsame] <;>
      exact ⟨rfl, rfl, rfl, rfl⟩
  | @settle id t env _ code o hend =>
    by_cases hts : t = s
    · subst hts
      have hnew := Common.session_modify_self_of_lt (hopened t (.inr (.inr (.inl rfl))))
        (·.settle id o)
      have hsubmitted := congrArg Session.submitted hnew
      have hsettled := congrArg Session.settled hnew
      exact .inr (.inr ⟨id, o, hsubmitted, hsettled, if_pos ⟨rfl, rfl⟩, if_neg nofun, rfl, rfl⟩)
    · have hsame := Common.session_modify_of_ne (c := c) hts (·.settle id o)
      have hne : some t ≠ some s := fun h => hts (Option.some.inj h)
      exact .inl ⟨congrArg Session.submitted hsame, congrArg Session.settled hsame,
        (if_neg fun h => hne h.1).trans (if_neg fun h => hne h.1).symm, rfl⟩
  | leave =>
    refine .inl ?_
    rcases c.session_modify_cases s _ _ with hsame | ⟨-, hsame⟩ <;> rw [hsame] <;>
      exact ⟨rfl, rfl, (if_neg nofun).trans (if_neg nofun).symm, rfl⟩

theorem Advance.bare (h : Advance f c f' c') (hf : f.role.session? = none → f.point.phase = 0)
    (hrole : f'.role.session? = none) : f'.point.phase = 0 := by
  cases h with
  | opens => exact hf hrole
  | settle | leave => cases hrole
  | _ => rfl

/-- A frame keeps what it holds, unless it had the last handle. -/
theorem Advance.holds (h : Advance f c f' c') (hs : f.Holds s) :
    f'.Holds s ∨ f.point.reclaim? = some s ∧ (c.session s).handles = 1 := by
  cases h with
  | act | post | hand => exact .inl hs
  | opens hname hget =>
    rcases hs with hmem | hreclaim
    · exact .inl (.inl ((SortedMap.perm_values_insert hget _).mem_iff.2
        (List.mem_cons_of_mem _ hmem)))
    · cases hreclaim
  | check hget =>
    rcases hs with hmem | hreclaim
    · rcases List.mem_cons.1 ((SortedMap.perm_values_erase hget).mem_iff.1 hmem) with rfl | hmem
      · exact .inl (.inr rfl)
      · exact .inl (.inl hmem)
    · cases hreclaim
  | reclaim hsession hone =>
    rcases hs with hmem | hreclaim
    · exact .inl (.inl hmem)
    · cases hreclaim
      exact .inr ⟨rfl, Common.session_eq_of_getElem? hsession ▸ hone⟩
  | settle => exact .inl hs
  | leave => exact .inl hs

theorem Advance.placed (h : Advance f c f' c') {job : Job σ ρ} (hjob : f'.point.job? = some job)
    (hs : job.session = some s) : s ∈ f'.env.values := by
  cases h with
  | post =>
    cases hjob
    cases hs
  | hand hget =>
    cases hjob
    cases hs
    exact SortedMap.mem_values_of_get? hget
  | opens hname =>
    cases hjob
  | _ => cases hjob

theorem Ends.turn {d : Nat × Option Nat} (h : Ends f c d c') (s : Nat) :
    f.due s = [] ∧ f.placing s = [] := by
  cases h with
  | bare => exact ⟨Frame.due_eq_nil nofun, rfl⟩
  | drop => exact ⟨if_neg nofun, rfl⟩

end Moves

/-- The tasks of a session that the head holds are not in the line. -/
theorem Hosted.session_ne {f : Frame σ ρ} {rest : List (Frame σ ρ)} {s : Nat}
    (h : Hosted (f :: rest)) (halone : ∀ g ∈ rest, ¬ g.Holds s) :
    ∀ g ∈ f :: rest, g.role.session? ≠ some s := by
  have hrest : ∀ {l : List (Frame σ ρ)}, Hosted l → (∀ g ∈ l, ¬ g.Holds s) →
      ∀ g ∈ l, g.role.session? ≠ some s := by
    intro l hl hno
    induction l with
    | nil => exact nofun
    | cons g l ih =>
      obtain ⟨-, hno⟩ := List.forall_mem_cons.1 hno
      refine List.forall_mem_cons.2 ⟨fun hs => ?_, ih hl.2 hno⟩
      obtain ⟨g', hg', hholds⟩ := hl.1 s hs
      exact hno g' hg' hholds
  refine List.forall_mem_cons.2 ⟨fun hs => ?_, hrest h.2 halone⟩
  obtain ⟨g, hg, hholds⟩ := h.1 s hs
  exact halone g hg hholds

/-- The last frame changes. -/
theorem Hosted.concat {fs : List (Frame σ ρ)} {o o' : Frame σ ρ} (h : Hosted (fs ++ [o]))
    (hrole : o'.role.session? = none) (hholds : ∀ s, o.Holds s →
      (∃ f ∈ fs, f.role.session? = some s) → o'.Holds s) : Hosted (fs ++ [o']) := by
  induction fs with
  | nil => exact ⟨fun s hs => (nomatch hrole.symm.trans hs), trivial⟩
  | cons f fs ih =>
    refine ⟨fun s hs => ?_, ih h.2 fun s ho ⟨g, hg, hs⟩ =>
      hholds s ho ⟨g, List.mem_cons_of_mem f hg, hs⟩⟩
    obtain ⟨g, hg, hg'⟩ := h.1 s hs
    rcases List.mem_append.1 hg with hg | hg
    · exact ⟨g, List.mem_append_left _ hg, hg'⟩
    · obtain rfl := List.mem_singleton.1 hg
      exact ⟨o', List.mem_append_right _ (List.mem_singleton_self o'),
        hholds s hg' ⟨f, List.mem_cons_self, hs⟩⟩

theorem Frame.placing_of_job {f : Frame σ ρ} {job : Job σ ρ} (h : f.point.job? = some job)
    (s : Nat) : f.placing s = if job.session = some s then [job.id] else [] := by
  rw [placing, h]

theorem Frame.due_frame (job : Job σ ρ) (s : Nat) :
    job.frame.due s = if job.session = some s then [job.id] else [] := by
  simp [due, Job.frame, Point.phase]

namespace Line

variable {x x' : Line σ ρ} {f o : Frame σ ρ} {fs : List (Frame σ ρ)} {s : Nat}

/-- Nobody but its holder places a task of a session. -/
theorem Linked.placing_eq_nil (hx : x.Linked) {g : Frame σ ρ} (hg : g ∈ x.all)
    (hno : ¬ g.Holds s) : g.placing s = [] :=
  Frame.placing_eq_nil fun job hjob hs => hno (.inl (hx.placed g hg job s hjob hs))

/-- Nothing is said of the tasks that a frame places which places none. -/
theorem placed_of_none (h : f.point.job? = none) (job : Job σ ρ) (s : Nat)
    (hjob : f.point.job? = some job) : job.session = some s → s ∈ f.env.values := by
  cases h.symm.trans hjob

/-- The thread from outside moves on, and the line stays. -/
theorem Linked.outside_moves {c : Common σ ρ} (hx : Linked ⟨fs, o, c⟩) {o' : Frame σ ρ}
    (hrole : o'.role = o.role) (henv : o'.env = o.env) (hreclaim : o.point.reclaim? = none)
    (hrunning : o'.point.phase = 0) (hclaims : ∀ j b, o'.point.claim? = some (j, b) → j = 0)
    (hjob : o'.point.job? = none ∨ o'.point.job? = o.point.job?)
    (hplacing : ∀ s, o'.placing s = o.placing s) : Linked ⟨fs, o', c⟩ := by
  have hmem : o ∈ fs ++ [o] := List.mem_append_right _ (List.mem_singleton_self o)
  refine ⟨hrole.trans hx.outside, hrunning, hclaims, hx.unclaimed, hx.bare, ?_, ?_, fun s => ?_⟩
  · refine hx.hosted.concat (by rw [hrole.trans hx.outside]; rfl) fun s hs _ => ?_
    rcases hs with hs | hs
    · exact .inl (henv ▸ hs)
    · cases hreclaim.symm.trans hs
  · refine List.forall_mem_append.2 ⟨fun f hf => hx.placed f (List.mem_append_left _ hf), ?_⟩
    rintro f hf job s hjob' hs
    obtain rfl := List.mem_singleton.1 hf
    rcases hjob with hnone | hsame
    · cases hnone.symm.trans hjob'
    · exact henv ▸ hx.placed o hmem job s (hsame ▸ hjob') hs
  · have horder := hx.inOrder s
    simp only [pending, all, List.flatMap_append, List.flatMap_singleton, hplacing] at horder ⊢
    exact horder

/-- The first frame of the line moves. -/
theorem Linked.work {f' : Frame σ ρ} {c c' : Common σ ρ} (hx : Linked ⟨f :: fs, o, c⟩)
    (howned : Owned ⟨f :: fs, o, c⟩) (h : Advance f c f' c') : Linked ⟨f' :: fs, o, c'⟩ := by
  obtain ⟨halone, -⟩ := List.pairwise_cons.1 howned.alone
  obtain ⟨hplaced, hplaced'⟩ := List.forall_mem_cons.1 hx.placed
  obtain ⟨hbare, hbare'⟩ := List.forall_mem_cons.1 hx.bare
  refine ⟨hx.outside, hx.running, hx.claims, ?_, ?_, ?_, ?_, fun s => ?_⟩
  · exact List.forall_mem_cons.2 ⟨h.claim?_eq_none.2, (List.forall_mem_cons.1 hx.unclaimed).2⟩
  · exact List.forall_mem_cons.2 ⟨h.bare hbare, hbare'⟩
  · exact ⟨fun s hs => hx.hosted.1 s (h.role_eq ▸ hs), hx.hosted.2⟩
  · exact List.forall_mem_cons.2 ⟨fun job s hjob hs => h.placed hjob hs, hplaced'⟩
  · have horder := hx.inOrder s
    simp only [pending, all, List.cons_append, List.flatMap_cons] at horder ⊢
    rcases h.turn (howned.opened f List.mem_cons_self) s with
      ⟨hsub, hset, hdue, hplacing⟩ | ⟨hsub, hset, hmem, hdue, hplacing, hplacing'⟩ |
        ⟨id, r, hsub, hset, hdue, hdue', hplacing, hplacing'⟩
    · rw [hsub, hset, hdue, hplacing, horder]
    · -- nobody else places a task of the session, so the new one is the last
      have hothers : (fs ++ [o]).flatMap (Frame.placing s) = [] :=
        List.flatMap_eq_nil_iff.2 fun g hg =>
          hx.placing_eq_nil (List.mem_cons_of_mem f hg) (halone g hg s (.inl hmem))
      rw [hothers, hplacing] at horder
      rw [hsub, hset, hdue, hplacing', hothers, horder]
      simp
    · rw [hdue, hplacing] at horder
      rw [hsub, hset, hdue', hplacing', horder]
      simp

/-- The thread from outside moves without a slot. -/
theorem Linked.outer {o' : Frame σ ρ} {c c' : Common σ ρ} (hx : Linked ⟨fs, o, c⟩)
    (howned : Owned ⟨fs, o, c⟩) (h : Advance o c o' c') : Linked ⟨fs, o', c'⟩ := by
  have hmem : o ∈ fs ++ [o] := List.mem_append_right _ (List.mem_singleton_self o)
  have hrole : o'.role = .outer := h.role_eq.trans hx.outside
  refine ⟨hrole, ?_, ?_, hx.unclaimed, hx.bare, ?_, ?_, fun s => ?_⟩
  · cases h with
    | settle | leave => cases hx.outside
    | _ => rfl
  · intro j b hclaim
    cases h.claim?_eq_none.2.symm.trans hclaim
  · refine hx.hosted.concat (by rw [hrole]; rfl) fun s hs hrun => ?_
    rcases h.holds hs with hs' | ⟨hreclaim, hone⟩
    · exact hs'
    · obtain ⟨f, hf, hsession⟩ := hrun
      exact absurd hsession (howned.last o hmem s hreclaim hone f (List.mem_append_left _ hf)).1
  · refine List.forall_mem_append.2 ⟨fun f hf => hx.placed f (List.mem_append_left _ hf), ?_⟩
    rintro f hf job s hjob hs
    obtain rfl := List.mem_singleton.1 hf
    exact h.placed hjob hs
  · have horder := hx.inOrder s
    have hnone : o.role.session? ≠ some s := by
      rw [hx.outside]
      exact (Option.some_ne_none s).symm
    have houter : o.due s = [] := Frame.due_eq_nil hnone
    simp only [pending, all, List.flatMap_append, List.flatMap_singleton] at horder ⊢
    rcases h.turn (howned.opened o hmem) s with
      ⟨hsub, hset, -, hplacing⟩ | ⟨hsub, hset, -, -, hplacing, hplacing'⟩ | ⟨id, r, -, -, hdue, -⟩
    · rw [hsub, hset, hplacing, horder]
    · rw [hplacing] at horder
      rw [hsub, hset, hplacing', horder]
      simp
    · cases houter.symm.trans hdue

/-- The worker runs the task that it was placing. -/
theorem Linked.inline {role : Role} {env : SortedMap Nat Nat} {j : Nat} {job : Job σ ρ}
    {next : Code σ ρ} {c : Common σ ρ} (hx : Linked ⟨⟨role, env, .scan j job next⟩ :: fs, o, c⟩)
    (howned : Owned ⟨⟨role, env, .scan j job next⟩ :: fs, o, c⟩) :
    Linked ⟨job.frame :: ⟨role, env, .run next⟩ :: fs, o, c⟩ := by
  obtain ⟨halone, -⟩ := List.pairwise_cons.1 howned.alone
  obtain ⟨hplaced, hplaced'⟩ := List.forall_mem_cons.1 hx.placed
  refine ⟨hx.outside, hx.running, hx.claims, ?_, ?_, ?_, ?_, fun s => ?_⟩
  · exact List.forall_mem_cons.2 ⟨rfl, List.forall_mem_cons.2
      ⟨rfl, (List.forall_mem_cons.1 hx.unclaimed).2⟩⟩
  · exact List.forall_mem_cons.2 ⟨fun _ => rfl, List.forall_mem_cons.2
      ⟨fun _ => rfl, (List.forall_mem_cons.1 hx.bare).2⟩⟩
  · exact ⟨fun s hs => ⟨_, List.mem_cons_self, .inl (hplaced job s rfl hs)⟩, hx.hosted⟩
  · exact List.forall_mem_cons.2 ⟨placed_of_none rfl,
      List.forall_mem_cons.2 ⟨placed_of_none rfl, hplaced'⟩⟩
  · have horder := hx.inOrder s
    have hjob := Frame.placing_of_job (f := ⟨role, env, .scan j job next⟩) rfl s
    have hnone : Frame.placing s job.frame = [] := rfl
    have hnone' : Frame.placing s ⟨role, env, .run next⟩ = [] := rfl
    have hdue : Frame.due s ⟨role, env, .run next⟩ =
      Frame.due s ⟨role, env, .scan j job next⟩ := rfl
    simp only [pending, all, List.cons_append, List.flatMap_cons, Frame.due_frame, hnone, hnone',
      hdue, hjob, List.nil_append] at horder ⊢
    by_cases hs : job.session = some s
    · -- the tasks of a session that the head holds are over
      have hholds : Frame.Holds ⟨role, env, .scan j job next⟩ s := .inl (hplaced job s rfl hs)
      have hother : ∀ g ∈ fs ++ [o], ¬ g.Holds s := fun g hg => halone g hg s hholds
      obtain ⟨hhead, htail⟩ := List.forall_mem_cons.1 (hx.hosted.session_ne hother)
      have hdues : fs.flatMap (Frame.due s) = [] := List.flatMap_eq_nil_iff.2 fun g hg =>
        Frame.due_eq_nil (htail g (List.mem_append_left _ hg))
      have hplacings : (fs ++ [o]).flatMap (Frame.placing s) = [] :=
        List.flatMap_eq_nil_iff.2 fun g hg =>
          hx.placing_eq_nil (List.mem_cons_of_mem _ hg) (hother g hg)
      rw [hdues, hplacings, Frame.due_eq_nil hhead, if_pos hs] at horder ⊢
      simpa using horder
    · rw [if_neg hs] at horder ⊢
      simpa using horder

/-- The thread from outside puts the task into the slot. -/
theorem Linked.put {role : Role} {env : SortedMap Nat Nat} {job : Job σ ρ} {next : Code σ ρ}
    {c : Common σ ρ} (hx : Linked ⟨[], ⟨role, env, .store 0 job next⟩, c⟩) :
    Linked ⟨[job.frame], ⟨role, env, .assign 0 next⟩, c⟩ := by
  have hplaced := List.forall_mem_singleton.1 hx.placed job
  refine ⟨hx.outside, rfl, fun j b hclaim => by cases hclaim; rfl, List.forall_mem_singleton.2 rfl,
    List.forall_mem_singleton.2 fun _ => rfl, ⟨fun s hs => ?_, hx.hosted⟩, ?_, fun s => ?_⟩
  · exact ⟨_, List.mem_singleton_self _, .inl (hplaced s rfl hs)⟩
  · exact List.forall_mem_cons.2
      ⟨placed_of_none rfl, List.forall_mem_singleton.2 (placed_of_none rfl)⟩
  · have horder := hx.inOrder s
    have hjob := Frame.placing_of_job (f := ⟨role, env, .store 0 job next⟩) rfl s
    have hnone : Frame.placing s job.frame = [] := rfl
    have hnone' : Frame.placing s ⟨role, env, .assign 0 next⟩ = [] := rfl
    simp only [pending, all, List.nil_append, List.flatMap_nil, List.flatMap_singleton, hjob]
      at horder
    simp only [pending, all, List.flatMap_append, List.flatMap_singleton, Frame.due_frame, hnone,
      hnone', List.append_nil]
    exact horder

/-- **Every step keeps the line in order.** -/
theorem Step.linked (h : Step x x') (hx : x.Linked) (howned : x.Owned) : x'.Linked := by
  cases h with
  | stay => exact hx
  | work hadvance => exact hx.work howned hadvance
  | outer hadvance => exact hx.outer howned hadvance
  | scanWork =>
    obtain ⟨hplaced, hplaced'⟩ := List.forall_mem_cons.1 hx.placed
    exact ⟨hx.outside, hx.running, hx.claims, List.forall_mem_cons.2 ⟨rfl,
      (List.forall_mem_cons.1 hx.unclaimed).2⟩, List.forall_mem_cons.2 ⟨fun _ => rfl,
      (List.forall_mem_cons.1 hx.bare).2⟩, hx.hosted,
      List.forall_mem_cons.2 ⟨hplaced, hplaced'⟩, hx.inOrder⟩
  | scanOuter =>
    exact hx.outside_moves rfl rfl rfl rfl (fun _ _ h => by cases h) (.inr rfl) fun _ => rfl
  | claim =>
    exact hx.outside_moves rfl rfl rfl rfl (fun _ _ h => by cases h; rfl) (.inr rfl) fun _ => rfl
  | put => exact hx.put
  | assign =>
    exact hx.outside_moves rfl rfl rfl rfl (fun _ _ h => by cases h) (.inl rfl) fun _ => rfl
  | inline => exact hx.inline howned
  | @ends f d fs o c c' hends =>
    refine ⟨hx.outside, hx.running, hx.claims, (List.forall_mem_cons.1 hx.unclaimed).2,
      (List.forall_mem_cons.1 hx.bare).2, hx.hosted.2, (List.forall_mem_cons.1 hx.placed).2,
      fun s => ?_⟩
    have horder := hx.inOrder s
    obtain ⟨hsub, hset⟩ := hends.told (s := s)
    obtain ⟨hdue, hplacing⟩ := hends.turn s
    simp only [pending, all, List.cons_append, List.flatMap_cons, hdue, hplacing, List.nil_append]
      at horder
    rw [hsub, hset, horder]
    rfl

end Line

end TickEngine
