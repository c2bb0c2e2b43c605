/-
  A session gets the result of each of its tasks once.

  A task of a session is counted in before it is handed over, and counted out
  after its result was combined; it has a handle on the session until after
  that, and the thread that waits goes on when its own handle is the last one.
  What is counted is always what is there (`Census.Balanced`), and every step
  keeps it so.

  * `Machine.Reaches.folds`: what a session has got, at any time and when the
    thread that waits goes on.
-/
import TickEngine.Proofs.HandOff
import TickEngine.Proofs.Order

namespace TickEngine

variable {σ ρ : Type}

/-! ## One session -/

/-- A session.  One that was not opened has no handle. -/
def Common.session (c : Common σ ρ) (s : Nat) : Session ρ := c.sessions.getD s { handles := 0 }

namespace Common

variable {c : Common σ ρ} {s t : Nat}

theorem sessions_modify (c : Common σ ρ) (s : Nat) (f : Session ρ → Session ρ) :
    (c.modify s f).sessions = c.sessions.modify s f := rfl

theorem session_modify_of_ne (h : t ≠ s) (f : Session ρ → Session ρ) :
    (c.modify t f).session s = c.session s := by
  rw [session, session, sessions_modify, List.getD_eq_getElem?_getD, List.getD_eq_getElem?_getD,
    List.getElem?_modify_ne _ _ h]

/-- A session with a handle was opened. -/
theorem lt_of_handles (h : 0 < (c.session s).handles) : s < c.sessions.length := by
  by_contra hlen
  rw [session, List.getD_eq_default _ _ (Nat.le_of_not_lt hlen)] at h
  exact Nat.lt_irrefl 0 h

theorem session_eq_of_getElem? {session : Session ρ} (h : c.sessions[s]? = some session) :
    c.session s = session := by
  rw [Common.session, List.getD_eq_getElem?_getD, h]
  rfl

theorem session_modify_self_of_lt (h : s < c.sessions.length) (f : Session ρ → Session ρ) :
    (c.modify s f).session s = f (c.session s) := by
  have hs := List.getElem?_eq_getElem h
  rw [session_eq_of_getElem? hs]
  refine session_eq_of_getElem? ?_
  rw [sessions_modify, List.getElem?_modify_eq, hs]
  rfl

theorem session_modify_self (h : 0 < (c.session s).handles) (f : Session ρ → Session ρ) :
    (c.modify s f).session s = f (c.session s) :=
  session_modify_self_of_lt (lt_of_handles h) f

theorem session_modify_cases (c : Common σ ρ) (s t : Nat) (f : Session ρ → Session ρ) :
    (c.modify t f).session s = c.session s ∨
      t = s ∧ (c.modify t f).session s = f (c.session s) := by
  by_cases hts : t = s
  · subst hts
    by_cases hlt : t < c.sessions.length
    · exact .inr ⟨rfl, session_modify_self_of_lt hlt f⟩
    · refine .inl ?_
      rw [session, session, sessions_modify, List.getD_eq_default _ _ (Nat.le_of_not_lt hlt),
        List.getD_eq_default _ _ (by simpa using hlt)]
  · exact .inl (session_modify_of_ne hts f)

theorem session_opened (c : Common σ ρ) (s : Nat) :
    ({ c with sessions := c.sessions ++ [{}] } : Common σ ρ).session s =
      if s = c.sessions.length then {} else c.session s := by
  rw [session, session, List.getD_eq_getElem?_getD, List.getD_eq_getElem?_getD]
  split
  · rename_i h
    subst h
    rw [List.getElem?_concat_length]
    rfl
  · rename_i h
    rcases Nat.lt_or_gt_of_ne h with hlt | hgt
    · rw [List.getElem?_append_left hlt]
    · rw [List.getElem?_eq_none (by simpa using hgt), List.getElem?_eq_none hgt.le]

end Common

/-! ## What is counted -/

/-- The session that a waiting thread is about to take apart. -/
def Point.reclaim? : Point σ ρ → Option Nat
  | .reclaim s _ => some s
  | _ => none

theorem Point.Up.reclaim? {p : Point σ ρ} (h : p.Up) : p.reclaim? = none := by
  cases p with
  | run | scan | store | assign => rfl
  | reclaim | leave | drop => exact h.elim

/-- Counts the handles on a session that threads have for themselves. -/
def Tally.holding (σ ρ : Type) (s : Nat) : Tally σ ρ where
  job _ := 0
  frame f := f.env.values.count s + if f.point.reclaim? = some s then 1 else 0
  start _ := rfl
  up hp hp' := by simp only [hp.reclaim?, hp'.reclaim?]

theorem Tally.whole_holding (s : Nat) (f : Frame σ ρ) : (holding σ ρ s).whole f =
    f.env.values.count s + if f.point.reclaim? = some s then 1 else 0 := by
  rw [whole, placed]
  cases f.point.job? <;> rfl

/-- What the frame of a task counts. -/
theorem Tally.whole_tasks_task (P : Nat × Option Nat → Prop) [DecidablePred P] (n : Nat) {id : Nat}
    {session : Option Nat} {env : SortedMap Nat Nat} {p : Point σ ρ} (hp : p.job? = none) :
    (tasks σ ρ P n).whole ⟨.task id session, env, p⟩ =
      if P (id, session) ∧ p.phase ≤ n then 1 else 0 := by
  rw [whole_tasks]
  by_cases hP : P (id, session) ∧ p.phase ≤ n <;> simp [Role.Is, hp, hP]

/-- The frame of a task that goes on to the next phase is past the one before. -/
theorem Tally.whole_tasks_next (P : Nat × Option Nat → Prop) [DecidablePred P] (n : Nat)
    {id k : Nat} {session : Option Nat} {env env' : SortedMap Nat Nat} {p p' : Point σ ρ}
    (hp : p.job? = none) (hp' : p'.job? = none) (hphase : p.phase = k)
    (hphase' : p'.phase = k + 1) :
    (tasks σ ρ P n).whole ⟨.task id session, env', p'⟩ +
        (if P (id, session) ∧ n = k then 1 else 0) =
      (tasks σ ρ P n).whole ⟨.task id session, env, p⟩ := by
  rw [whole_tasks_task P n hp, whole_tasks_task P n hp', hphase, hphase']
  by_cases hP : P (id, session)
  · simp only [hP, true_and]
    split_ifs <;> omega
  · simp only [hP, false_and, if_false]

theorem Tally.whole_le_total (T : Tally σ ρ) {x : Census σ ρ} {f : Frame σ ρ} (h : f ∈ x.crew) :
    T.whole f ≤ T.total x := by
  obtain ⟨rest, hrest⟩ := Multiset.exists_cons_of_mem h
  rw [total, hrest, Multiset.map_cons, Multiset.sum_cons, Nat.add_assoc]
  exact Nat.le_add_right _ _

/-- What there is of a session. -/
@[ext]
structure Use where
  /-- The number of its tasks that are not past a phase. -/
  tasks : Nat → Nat
  /-- How often a task of it is there and not past a phase. -/
  task : Nat → Nat → Nat
  /-- The number of handles that threads have for themselves. -/
  own : Nat
  /-- Its tasks that ended, in order. -/
  ended : List Nat

def Census.use (x : Census σ ρ) (s : Nat) : Use where
  tasks phase := (Tally.tasks σ ρ (·.2 = some s) phase).total x
  task k phase := (Tally.tasks σ ρ (· = (k, some s)) phase).total x
  own := (Tally.holding σ ρ s).total x
  ended := x.done.filterMap fun d => if d.2 = some s then some d.1 else none

/-- Nothing of a session changes. -/
theorem Census.use_eq {x x' : Census σ ρ} {s : Nat} (hdone : x'.done = x.done)
    (htasks : ∀ (P : Nat × Option Nat → Prop) [DecidablePred P] (n : Nat),
      (∀ d, P d → d.2 = some s) →
        (Tally.tasks σ ρ P n).total x' = (Tally.tasks σ ρ P n).total x)
    (hown : (Tally.holding σ ρ s).total x' = (Tally.holding σ ρ s).total x) :
    x'.use s = x.use s := by
  ext n
  · exact htasks _ n fun _ h => h
  · exact htasks _ _ fun _ h => h ▸ rfl
  · exact hown
  · rw [use, use, hdone]

/-- The counter and the handles of a session say the truth, and what it has got
    is from the tasks that were handed in. -/
structure Session.Matches (S : Session ρ) (u : Use) : Prop where
  outstanding : S.outstanding = u.tasks 1
  length : S.submitted.length = u.tasks 2 + u.ended.length
  handles_le : S.handles ≤ u.tasks 2 + 1
  le_handles : u.tasks 2 + u.own ≤ S.handles
  entered : ∀ k, S.submitted.count k = u.task k 2 + u.ended.count k
  settled : ∀ k, S.submitted.count k = u.task k 0 + (S.settled.map (·.1)).count k
  folded : S.folded = S.settled.filterMap fun e => e.2.toOption

namespace Session.Matches

variable {S : Session ρ} {u u' : Use}

/-- A session is opened. -/
theorem opened (h : Matches ({ handles := 0 } : Session ρ) u) (htasks : u'.tasks = u.tasks)
    (htask : u'.task = u.task) (hown : u'.own = u.own + 1) (hended : u'.ended = u.ended) :
    Matches ({} : Session ρ) u' := by
  have hzero := Nat.le_zero.1 h.le_handles
  constructor
  · rw [htasks, ← h.outstanding]
  · rw [htasks, hended, ← h.length]
  · exact Nat.le_add_left 1 _
  · show u'.tasks 2 + u'.own ≤ 1
    rw [htasks, hown]
    omega
  · intro k
    rw [htask, hended, ← h.entered]
  · intro k
    rw [htask, ← h.settled]
  · rfl

/-- A task is counted in. -/
theorem enter (h : S.Matches u) {id : Nat} (htasks : ∀ n, u'.tasks n = u.tasks n + 1)
    (htask : ∀ k n, u'.task k n = u.task k n + if id = k then 1 else 0) (hown : u'.own = u.own)
    (hended : u'.ended = u.ended) : (S.enter id).Matches u' := by
  have hcount : ∀ k, (S.submitted ++ [id]).count k =
      S.submitted.count k + if id = k then 1 else 0 := by
    intro k
    rw [List.count_append, List.count_singleton]
    simp only [beq_iff_eq]
  constructor
  · rw [htasks, ← h.outstanding, Session.enter]
  · rw [htasks, hended, Session.enter, List.length_append, h.length, List.length_singleton]
    omega
  · rw [htasks, Session.enter]
    exact Nat.succ_le_succ h.handles_le
  · rw [htasks, hown, Session.enter]
    have := h.le_handles
    dsimp only
    omega
  · intro k
    rw [htask, hended, Session.enter, hcount, h.entered]
    omega
  · intro k
    show (S.submitted ++ [id]).count k = _ + (S.settled.map (·.1)).count k
    rw [htask, hcount, h.settled]
    omega
  · exact h.folded

/-- The result of a task is combined, or there is none. -/
theorem settle (h : S.Matches u) {id : Nat} {o : Except Panic ρ}
    (htasks : ∀ n, 0 < n → u'.tasks n = u.tasks n)
    (htask : ∀ k n, 0 < n → u'.task k n = u.task k n)
    (hgone : ∀ k, u'.task k 0 + (if id = k then 1 else 0) = u.task k 0) (hown : u'.own = u.own)
    (hended : u'.ended = u.ended) : (S.settle id o).Matches u' := by
  constructor
  · rw [htasks 1 (by decide)]
    exact h.outstanding
  · rw [htasks 2 (by decide), hended]
    exact h.length
  · rw [htasks 2 (by decide)]
    exact h.handles_le
  · rw [htasks 2 (by decide), hown]
    exact h.le_handles
  · intro k
    rw [htask k 2 (by decide), hended]
    exact h.entered k
  · intro k
    have hk := hgone k
    show S.submitted.count k = _
    rw [h.settled, Session.settle, List.map_append, List.count_append, List.map_singleton,
      List.count_singleton]
    simp only [beq_iff_eq]
    omega
  · rw [Session.settle, h.folded, List.filterMap_append]
    cases o <;> rfl

/-- A task is counted out. -/
theorem leave (h : S.Matches u) (htasks : ∀ n, n ≠ 1 → u'.tasks n = u.tasks n)
    (htask : ∀ k n, n ≠ 1 → u'.task k n = u.task k n) (hout : u'.tasks 1 + 1 = u.tasks 1)
    (hown : u'.own = u.own) (hended : u'.ended = u.ended) : S.leave.Matches u' := by
  constructor
  · have := h.outstanding
    rw [Session.leave]
    dsimp only
    omega
  · rw [htasks 2 (by decide), hended]
    exact h.length
  · rw [htasks 2 (by decide)]
    exact h.handles_le
  · rw [htasks 2 (by decide), hown]
    exact h.le_handles
  · intro k
    rw [htask k 2 (by decide), hended]
    exact h.entered k
  · intro k
    rw [htask k 0 (by decide)]
    exact h.settled k
  · exact h.folded

/-- The thread that waits gives up its handle, which is the only one. -/
theorem reclaim (h : S.Matches u) (hone : S.handles = 1) (htasks : u'.tasks = u.tasks)
    (htask : u'.task = u.task) (hown : u'.own + 1 = u.own) (hended : u'.ended = u.ended) :
    S.release.Matches u' := by
  have hle := h.le_handles
  constructor
  · rw [htasks]
    exact h.outstanding
  · rw [htasks, hended]
    exact h.length
  · rw [release, hone]
    exact Nat.zero_le _
  · rw [htasks, release]
    dsimp only
    omega
  · intro k
    rw [htask, hended]
    exact h.entered k
  · intro k
    rw [htask]
    exact h.settled k
  · exact h.folded

/-- A task ends and gives up its handle. -/
theorem drop (h : S.Matches u) (id : Nat) (htasks : ∀ n, n < 2 → u'.tasks n = u.tasks n)
    (hgone : u'.tasks 2 + 1 = u.tasks 2)
    (htask : ∀ k n, n < 2 → u'.task k n = u.task k n)
    (hone : ∀ k, u'.task k 2 + (if id = k then 1 else 0) = u.task k 2) (hown : u'.own ≤ u.own)
    (hended : u'.ended = u.ended ++ [id]) : S.release.Matches u' := by
  have hle := h.le_handles
  have hge := h.handles_le
  constructor
  · rw [htasks 1 (by decide)]
    exact h.outstanding
  · show S.submitted.length = _
    rw [hended, h.length, List.length_append, List.length_singleton]
    omega
  · rw [release]
    dsimp only
    omega
  · rw [release]
    dsimp only
    omega
  · intro k
    have hk := hone k
    show S.submitted.count k = _
    rw [h.entered, hended, List.count_append, List.count_singleton]
    simp only [beq_iff_eq]
    omega
  · intro k
    rw [htask k 0 (by decide)]
    exact h.settled k
  · exact h.folded

/-- Threads give up handles that they have for themselves. -/
theorem forget (h : S.Matches u) (htasks : u'.tasks = u.tasks) (htask : u'.task = u.task)
    (hown : u'.own ≤ u.own) (hended : u'.ended = u.ended) : S.Matches u' := by
  constructor
  · rw [htasks]
    exact h.outstanding
  · rw [htasks, hended]
    exact h.length
  · rw [htasks]
    exact h.handles_le
  · rw [htasks]
    exact (Nat.add_le_add_left hown _).trans h.le_handles
  · intro k
    rw [htask, hended]
    exact h.entered k
  · intro k
    rw [htask]
    exact h.settled k
  · exact h.folded

end Session.Matches

/-! ### Its tasks among all tasks -/

theorem Tally.total_tasks_mono {P Q : Nat × Option Nat → Prop} [DecidablePred P] [DecidablePred Q]
    (h : ∀ d, P d → Q d) {n n' : Nat} (hn : n ≤ n') (x : Census σ ρ) :
    (tasks σ ρ P n).total x ≤ (tasks σ ρ Q n').total x := by
  have hite : ∀ {p q : Prop} [Decidable p] [Decidable q], (p → q) →
      (if p then 1 else 0) ≤ if q then 1 else 0 := by
    intro p q _ _ hpq
    split_ifs with hp hq
    · exact le_refl 1
    · exact absurd (hpq hp) hq
    · exact Nat.zero_le 1
    · exact le_refl 0
  have hrole : ∀ role : Role, role.Is P → role.Is Q := by
    intro role hP
    cases role with
    | outer => exact hP
    | task id session => exact h _ hP
  refine Nat.add_le_add (Multiset.sum_map_le_sum_map _ _ fun f _ => ?_)
    (Multiset.sum_map_le_sum_map _ _ fun job _ => hite (h _))
  rw [whole_tasks, whole_tasks]
  exact Nat.add_le_add (hite fun hf => ⟨hrole _ hf.1, hf.2.trans hn⟩)
    (hite fun ⟨job, hjob, hP⟩ => ⟨job, hjob, h _ hP⟩)

/-- A task of a session is one of its tasks. -/
theorem Census.task_le_tasks (x : Census σ ρ) (s k : Nat) {n n' : Nat} (hn : n ≤ n') :
    (x.use s).task k n ≤ (x.use s).tasks n' :=
  Tally.total_tasks_mono (fun _ hd => congrArg Prod.snd hd) hn x

theorem Census.tasks_le_tasks (x : Census σ ρ) (s : Nat) {n n' : Nat} (hn : n ≤ n') :
    (x.use s).tasks n ≤ (x.use s).tasks n' :=
  Tally.total_tasks_mono (fun _ hd => hd) hn x

theorem Census.length_ended (x : Census σ ρ) (s : Nat) :
    (x.use s).ended.length = x.done.countP fun d => d.2 = some s := by
  rw [use, List.length_filterMap_eq_countP]
  refine List.countP_congr fun d _ => ?_
  by_cases hd : d.2 = some s <;> simp [hd]

theorem Census.count_ended_le (x : Census σ ρ) (s k : Nat) :
    (x.use s).ended.count k ≤ x.done.countP fun d => d.1 = k := by
  rw [use, List.count_filterMap]
  refine List.countP_mono_left fun d _ hd => ?_
  by_cases hs : d.2 = some s
  · simpa [hs] using hd
  · simp [hs] at hd

/-! ## Steps -/

theorem eq_of_add_ite {p : Prop} [Decidable p] {a b : Nat} (h : a + (if p then 1 else 0) = b)
    (hp : ¬ p) : a = b := by
  rwa [if_neg hp] at h

section Steps

variable {x x' : Census σ ρ} {c c' : Common σ ρ} {s : Nat}

/-- A frame that moves. -/
theorem Advance.matches {f f' : Frame σ ρ} (h : Advance f c f' c')
    (hx : (c.session s).Matches (x.use s)) (hmem : f ∈ x.crew) (hdone : x'.done = x.done)
    (htotal : ∀ T : Tally σ ρ, T.total x' + T.whole f = T.total x + T.whole f') :
    (c'.session s).Matches (x'.use s) := by
  have hown := htotal (Tally.holding σ ρ s)
  have hhas := (Tally.holding σ ρ s).whole_le_total hmem
  have hin := (Tally.tasks σ ρ (·.2 = some s) 2).whole_le_total hmem
  have hended : (x'.use s).ended = (x.use s).ended := by rw [Census.use, Census.use, hdone]
  rw [Tally.whole_holding, Tally.whole_holding] at hown
  rw [Tally.whole_holding] at hhas
  rw [Tally.whole_tasks] at hin
  have hhandles := hx.le_handles
  cases h with
  | act =>
    rw [Census.use_eq hdone (fun P _ n _ => ?_) (by simpa [Point.reclaim?] using hown)]
    · exact hx
    simpa [Tally.whole_tasks, Point.phase, Point.job?] using htotal (Tally.tasks σ ρ P n)
  | post =>
    rw [Census.use_eq hdone (fun P _ n hP => ?_) (by simpa [Point.reclaim?] using hown)]
    · exact hx
    have hnone : ¬ P (c.given, none) := fun h => by cases hP _ h
    simpa [Tally.whole_tasks, Point.phase, Point.job?, hnone] using htotal (Tally.tasks σ ρ P n)
  | @opens role env _ code name hname hget =>
    have htasks : ∀ (P : Nat × Option Nat → Prop) [DecidablePred P] (n : Nat),
        (Tally.tasks σ ρ P n).total x' = (Tally.tasks σ ρ P n).total x := by
      intro P _ n
      simpa [Tally.whole_tasks, Point.phase, Point.job?] using htotal (Tally.tasks σ ρ P n)
    have hcount := (SortedMap.perm_values_insert hget c.sessions.length).count_eq s
    simp only [Point.reclaim?, reduceCtorEq, if_false, add_zero, hcount, List.count_cons,
      beq_iff_eq] at hown
    rw [Common.session_opened]
    split
    · rename_i hs
      have hclosed : c.session s = { handles := 0 } := List.getD_eq_default _ _ hs.ge
      rw [hclosed] at hx
      rw [if_pos hs.symm] at hown
      refine hx.opened (funext fun n => htasks _ n) (funext₂ fun k n => htasks _ n) ?_ hended
      simp only [Census.use]
      omega
    · rename_i hs
      rw [if_neg (Ne.symm hs)] at hown
      rw [Census.use_eq hdone (fun P _ n _ => htasks P n) (by omega)]
      exact hx
  | @hand role env _ name task next t hget =>
    have htasks : ∀ (P : Nat × Option Nat → Prop) [DecidablePred P] (n : Nat),
        (Tally.tasks σ ρ P n).total x' =
          (Tally.tasks σ ρ P n).total x + if P (c.given, some t) then 1 else 0 := by
      intro P _ n
      have := htotal (Tally.tasks σ ρ P n)
      simp only [Tally.whole_tasks, Point.phase, Point.job?, Nat.zero_le, and_true, reduceCtorEq,
        false_and, exists_false, if_false, Option.some.injEq, exists_eq_left'] at this
      omega
    simp only [Point.reclaim?, reduceCtorEq, if_false, add_zero, Nat.add_right_cancel_iff] at hown
    by_cases hts : t = s
    · subst hts
      have hpos : 0 < (c.session t).handles := by
        have hcount := List.count_pos_iff.2 (SortedMap.mem_values_of_get? hget)
        simp only [Census.use] at hhandles
        dsimp only at hhas
        omega
      show ((c.modify t _).session t).Matches _
      rw [Common.session_modify_self hpos]
      refine hx.enter (fun n => ?_) (fun k n => ?_) hown hended
      · exact (htasks (·.2 = some t) n).trans (congrArg (_ + ·) (if_pos rfl))
      · exact (htasks (· = (k, some t)) n).trans (by simp [Census.use])
    · show ((c.modify t _).session s).Matches _
      rw [Common.session_modify_of_ne hts, Census.use_eq hdone (fun P _ n hP => ?_) hown]
      · exact hx
      rw [htasks, if_neg fun h => hts (Option.some.inj (hP _ h)), Nat.add_zero]
  | @check role env _ name next t session hget hsession hzero =>
    have hcount := (SortedMap.perm_values_erase hget).count_eq s
    simp only [Point.reclaim?, reduceCtorEq, if_false, add_zero, hcount, List.count_cons,
      beq_iff_eq, Option.some.injEq] at hown
    rw [Census.use_eq hdone (fun P _ n _ => ?_) (by omega)]
    · exact hx
    simpa [Tally.whole_tasks, Point.phase, Point.job?] using htotal (Tally.tasks σ ρ P n)
  | @reclaim role env _ t next session hsession hone =>
    have htasks : ∀ (P : Nat × Option Nat → Prop) [DecidablePred P] (n : Nat),
        (Tally.tasks σ ρ P n).total x' = (Tally.tasks σ ρ P n).total x := by
      intro P _ n
      simpa [Tally.whole_tasks, Point.phase, Point.job?] using htotal (Tally.tasks σ ρ P n)
    simp only [Point.reclaim?, reduceCtorEq, if_false, add_zero, Option.some.injEq] at hown
    by_cases hts : t = s
    · subst hts
      have hsame := Common.session_eq_of_getElem? hsession
      rw [Common.session_modify_self (by rw [hsame, hone]; decide)]
      refine hx.reclaim (hsame ▸ hone) (funext fun n => htasks _ n)
        (funext₂ fun k n => htasks _ n) ?_ hended
      rw [if_pos rfl] at hown
      simp only [Census.use]
      omega
    · rw [if_neg hts] at hown
      rw [Common.session_modify_of_ne hts,
        Census.use_eq hdone (fun P _ n _ => htasks P n) (by omega)]
      exact hx
  | @settle id t env _ code o hend =>
    have htasks : ∀ (P : Nat × Option Nat → Prop) [DecidablePred P] (n : Nat),
        (Tally.tasks σ ρ P n).total x' + (if P (id, some t) ∧ n = 0 then 1 else 0) =
          (Tally.tasks σ ρ P n).total x := by
      intro P _ n
      have hnext : (Tally.tasks σ ρ P n).whole ⟨.task id (some t), env, .leave⟩ +
          (if P (id, some t) ∧ n = 0 then 1 else 0) =
            (Tally.tasks σ ρ P n).whole ⟨.task id (some t), env, .run code⟩ :=
        Tally.whole_tasks_next P n rfl rfl rfl rfl
      have hwhole := htotal (Tally.tasks σ ρ P n)
      rw [← hnext] at hwhole
      omega
    simp only [Point.reclaim?, reduceCtorEq, if_false, add_zero, Nat.add_right_cancel_iff] at hown
    by_cases hts : t = s
    · subst hts
      have hpos : 0 < (c.session t).handles := by
        simp only [Role.Is, Point.phase, Nat.zero_le, and_self, if_true] at hin
        simp only [Census.use] at hhandles
        omega
      rw [Common.session_modify_self hpos]
      refine hx.settle (fun n hn => ?_) (fun k n hn => ?_) (fun k => ?_) hown hended
      · exact eq_of_add_ite (htasks (·.2 = some t) n) fun h => hn.ne' h.2
      · exact eq_of_add_ite (htasks (· = (k, some t)) n) fun h => hn.ne' h.2
      · simpa [Census.use] using htasks (· = (k, some t)) 0
    · rw [Common.session_modify_of_ne hts, Census.use_eq hdone (fun P _ n hP => ?_) hown]
      · exact hx
      exact eq_of_add_ite (htasks P n) fun h => hts (Option.some.inj (hP _ h.1))
  | @leave id t env _ =>
    have htasks : ∀ (P : Nat × Option Nat → Prop) [DecidablePred P] (n : Nat),
        (Tally.tasks σ ρ P n).total x' + (if P (id, some t) ∧ n = 1 then 1 else 0) =
          (Tally.tasks σ ρ P n).total x := by
      intro P _ n
      have hnext : (Tally.tasks σ ρ P n).whole ⟨.task id (some t), env, .drop⟩ +
          (if P (id, some t) ∧ n = 1 then 1 else 0) =
            (Tally.tasks σ ρ P n).whole ⟨.task id (some t), env, .leave⟩ :=
        Tally.whole_tasks_next P n rfl rfl rfl rfl
      have hwhole := htotal (Tally.tasks σ ρ P n)
      rw [← hnext] at hwhole
      omega
    simp only [Point.reclaim?, reduceCtorEq, if_false, add_zero, Nat.add_right_cancel_iff] at hown
    by_cases hts : t = s
    · subst hts
      have hpos : 0 < (c.session t).handles := by
        simp only [Role.Is, Point.phase, Nat.one_le_ofNat, and_self, if_true] at hin
        simp only [Census.use] at hhandles
        omega
      rw [Common.session_modify_self hpos]
      refine hx.leave (fun n hn => ?_) (fun k n hn => ?_) ?_ hown hended
      · exact eq_of_add_ite (htasks (·.2 = some t) n) fun h => hn h.2
      · exact eq_of_add_ite (htasks (· = (k, some t)) n) fun h => hn h.2
      · simpa [Census.use] using htasks (·.2 = some t) 1
    · rw [Common.session_modify_of_ne hts, Census.use_eq hdone (fun P _ n hP => ?_) hown]
      · exact hx
      exact eq_of_add_ite (htasks P n) fun h => hts (Option.some.inj (hP _ h.1))

/-- A task that ends. -/
theorem Ends.matches {f : Frame σ ρ} {d : Nat × Option Nat} (h : Ends f c d c')
    (hx : (c.session s).Matches (x.use s)) (hmem : f ∈ x.crew) (hdone : x'.done = x.done ++ [d])
    (htotal : ∀ T : Tally σ ρ, T.total x' + T.whole f = T.total x) :
    (c'.session s).Matches (x'.use s) := by
  have hown := htotal (Tally.holding σ ρ s)
  have hin := (Tally.tasks σ ρ (·.2 = some s) 2).whole_le_total hmem
  have hhandles := hx.le_handles
  rw [Tally.whole_tasks] at hin
  have hle : (x'.use s).own ≤ (x.use s).own := Nat.le.intro hown
  cases h with
  | @bare id env _ code o hend =>
    have htasks : ∀ (P : Nat × Option Nat → Prop) [DecidablePred P] (n : Nat),
        (∀ d, P d → d.2 = some s) →
          (Tally.tasks σ ρ P n).total x' = (Tally.tasks σ ρ P n).total x := by
      intro P _ n hP
      have hnone : ¬ P (id, none) := fun h => by cases hP _ h
      simpa [Tally.whole_tasks, Role.Is, Point.phase, Point.job?, hnone] using
        htotal (Tally.tasks σ ρ P n)
    refine hx.forget (funext fun n => htasks _ n fun _ h => h)
      (funext₂ fun k n => htasks _ n fun _ h => h ▸ rfl) hle ?_
    rw [Census.use, Census.use, hdone, List.filterMap_append]
    exact List.append_nil _
  | @drop id t env _ =>
    have htasks : ∀ (P : Nat × Option Nat → Prop) [DecidablePred P] (n : Nat),
        (Tally.tasks σ ρ P n).total x' + (if P (id, some t) ∧ 2 ≤ n then 1 else 0) =
          (Tally.tasks σ ρ P n).total x := by
      intro P _ n
      exact Tally.whole_tasks_task P n (p := .drop) rfl ▸ htotal (Tally.tasks σ ρ P n)
    by_cases hts : t = s
    · subst hts
      have hpos : 0 < (c.session t).handles := by
        simp only [Role.Is, Point.phase, le_refl, and_self, if_true] at hin
        simp only [Census.use] at hhandles
        omega
      rw [Common.session_modify_self hpos]
      refine hx.drop id (fun n hn => ?_) ?_ (fun k n hn => ?_) (fun k => ?_) hle ?_
      · exact eq_of_add_ite (htasks (·.2 = some t) n) fun h => hn.not_ge h.2
      · simpa [Census.use] using htasks (·.2 = some t) 2
      · exact eq_of_add_ite (htasks (· = (k, some t)) n) fun h => hn.not_ge h.2
      · simpa [Census.use] using htasks (· = (k, some t)) 2
      · rw [Census.use, Census.use, hdone, List.filterMap_append]
        simp
    · rw [Common.session_modify_of_ne hts]
      have hsame : ∀ (P : Nat × Option Nat → Prop) [DecidablePred P] (n : Nat),
          (∀ d, P d → d.2 = some s) →
            (Tally.tasks σ ρ P n).total x' = (Tally.tasks σ ρ P n).total x := by
        intro P _ n hP
        exact eq_of_add_ite (htasks P n) fun h => hts (Option.some.inj (hP _ h.1))
      refine hx.forget (funext fun n => hsame _ n fun _ h => h)
        (funext₂ fun k n => hsame _ n fun _ h => h ▸ rfl) hle ?_
      rw [Census.use, Census.use, hdone, List.filterMap_append]
      simp [hts]

/-- Every step keeps what is said of a session true. -/
theorem Census.Step.matches (h : Census.Step x x')
    (hx : (x.common.session s).Matches (x.use s)) : (x'.common.session s).Matches (x'.use s) := by
  rcases h.total with
    ⟨hcommon, hdone, htotal⟩ | ⟨f, f', hmem, hadvance, hdone, htotal⟩ |
      ⟨f, d, hmem, hends, hdone, htotal⟩
  · rw [hcommon, Census.use_eq hdone (fun P _ n _ => htotal _) (htotal _)]
    exact hx
  · exact hadvance.matches hx hmem hdone htotal
  · exact hends.matches hx hmem hdone htotal

end Steps

/-! ## Sessions that are over -/

/-- The frame can get at the session. -/
def Frame.Uses (f : Frame σ ρ) (s : Nat) : Prop :=
  s ∈ f.env.values ∨ f.point.reclaim? = some s ∨ f.role.Is (·.2 = some s) ∨
    ∃ job, f.point.job? = some job ∧ job.session = some s

/-- No frame and no task can get at the session. -/
def Census.Unused (x : Census σ ρ) (s : Nat) : Prop :=
  (∀ f ∈ x.crew, ¬ f.Uses s) ∧ ∀ job ∈ x.held, job.session ≠ some s

section Over

variable {x x' : Census σ ρ} {c c' : Common σ ρ} {f f' : Frame σ ρ} {s : Nat}

theorem Frame.Uses.pos (h : f.Uses s) :
    0 < (Tally.tasks σ ρ (·.2 = some s) 2).whole f + (Tally.holding σ ρ s).whole f := by
  rw [Tally.whole_tasks, Tally.whole_holding]
  rcases h with hmem | hreclaim | hrole | hjob
  · have := List.count_pos_iff.2 hmem
    omega
  · rw [if_pos hreclaim]
    omega
  · rw [if_pos ⟨hrole, f.point.phase_le⟩]
    omega
  · rw [if_pos hjob]
    omega

/-- A session without handles is out of reach. -/
theorem Session.Matches.unused {S : Session ρ} (h : S.Matches (x.use s)) (hzero : S.handles = 0) :
    x.Unused s := by
  have hle : (Tally.tasks σ ρ (·.2 = some s) 2).total x + (Tally.holding σ ρ s).total x ≤ 0 :=
    hzero ▸ h.le_handles
  refine ⟨fun f hf huses => ?_, fun job hjob hsession => ?_⟩
  · have hpos := huses.pos
    have htasks := (Tally.tasks σ ρ (·.2 = some s) 2).whole_le_total hf
    have hown := (Tally.holding σ ρ s).whole_le_total hf
    omega
  · have htasks := (Nat.add_eq_zero_iff.1 (Nat.le_zero.1 hle)).1
    rw [Tally.total_tasks, Nat.add_eq_zero_iff, Nat.add_eq_zero_iff] at htasks
    exact Multiset.countP_eq_zero.1 htasks.1.2 job hjob hsession

theorem Common.lt_sessions_modify (t : Nat) (g : Session ρ → Session ρ)
    (hs : s < c.sessions.length) : s < (c.modify t g).sessions.length := by
  rwa [sessions_modify, List.length_modify]

/-- A frame leaves a session alone that it cannot get at. -/
theorem Advance.session_eq (h : Advance f c f' c') (hf : ¬ f.Uses s)
    (hs : s < c.sessions.length) : c'.session s = c.session s ∧ s < c'.sessions.length := by
  cases h with
  | act | post | check => exact ⟨rfl, hs⟩
  | opens =>
    refine ⟨(c.session_opened s).trans (if_neg hs.ne), ?_⟩
    rw [List.length_append]
    exact Nat.lt_add_right _ hs
  | @hand role env _ name task next t hget =>
    have hts : t ≠ s := by
      rintro rfl
      exact hf (.inl (SortedMap.mem_values_of_get? hget))
    exact ⟨Common.session_modify_of_ne hts _, Common.lt_sessions_modify t _ hs⟩
  | @reclaim role env _ t next session hsession hone =>
    have hts : t ≠ s := by
      rintro rfl
      exact hf (.inr (.inl rfl))
    exact ⟨Common.session_modify_of_ne hts _, Common.lt_sessions_modify t _ hs⟩
  | @settle id t | @leave id t =>
    have hts : t ≠ s := by
      rintro rfl
      exact hf (.inr (.inr (.inl rfl)))
    exact ⟨Common.session_modify_of_ne hts _, Common.lt_sessions_modify t _ hs⟩

theorem Ends.session_eq {d : Nat × Option Nat} (h : Ends f c d c') (hf : ¬ f.Uses s)
    (hs : s < c.sessions.length) : c'.session s = c.session s ∧ s < c'.sessions.length := by
  cases h with
  | bare => exact ⟨rfl, hs⟩
  | @drop id t =>
    have hts : t ≠ s := by
      rintro rfl
      exact hf (.inr (.inr (.inl rfl)))
    exact ⟨Common.session_modify_of_ne hts _, Common.lt_sessions_modify t _ hs⟩

/-- No step changes a session that is out of reach. -/
theorem Census.Step.session_eq (h : Census.Step x x') (hx : x.Unused s)
    (hs : s < x.common.sessions.length) :
    x'.common.session s = x.common.session s ∧ s < x'.common.sessions.length := by
  rcases h.total with ⟨hcommon, -⟩ | ⟨f, f', hmem, hadvance, -⟩ | ⟨f, d, hmem, hends, -⟩
  · rw [hcommon]
    exact ⟨rfl, hs⟩
  · exact hadvance.session_eq (hx.1 f hmem) hs
  · exact hends.session_eq (hx.1 f hmem) hs

end Over

/-! ## What a session is told -/

section Told

variable {x x' : Census σ ρ} {c c' : Common σ ρ} {f f' : Frame σ ρ} {s : Nat}

/-- A new session was told nothing. -/
theorem Common.session_opened_cases (c : Common σ ρ) (s : Nat) :
    ({ c with sessions := c.sessions ++ [{}] } : Common σ ρ).session s = c.session s ∨
      c.session s = { handles := 0 } ∧
        ({ c with sessions := c.sessions ++ [{}] } : Common σ ρ).session s = {} := by
  by_cases hs : s = c.sessions.length
  · exact .inr ⟨List.getD_eq_default _ _ hs.ge, (c.session_opened s).trans (if_pos hs)⟩
  · exact .inl ((c.session_opened s).trans (if_neg hs))

/-- A task is handed in by a frame with a handle of its own. -/
theorem Advance.submitted (h : Advance f c f' c')
    (hne : (c'.session s).submitted ≠ (c.session s).submitted) :
    s ∈ f.env.values ∧ f'.point.job?.map Job.id = some c.given ∧
      c'.session s = (c.session s).enter c.given := by
  cases h with
  | act | post | check => exact absurd rfl hne
  | opens =>
    rcases c.session_opened_cases s with hsame | ⟨hold, hnew⟩
    · exact absurd (congrArg Session.submitted hsame) hne
    · rw [hold, hnew] at hne
      exact absurd rfl hne
  | @hand role env _ name task next t hget =>
    rcases c.session_modify_cases s t (·.enter c.given) with hsame | ⟨rfl, hnew⟩
    · exact absurd (congrArg Session.submitted hsame) hne
    · exact ⟨SortedMap.mem_values_of_get? hget, rfl, hnew⟩
  | reclaim | settle | leave =>
    rcases c.session_modify_cases s _ _ with hsame | ⟨-, hsame⟩ <;>
      exact absurd (congrArg Session.submitted hsame) hne

/-- A result is combined by the frame of its task. -/
theorem Advance.settled (h : Advance f c f' c')
    (hne : (c'.session s).settled ≠ (c.session s).settled) :
    ∃ id code o, f.role = .task id (some s) ∧ f.point = .run code ∧ code.end? = some o ∧
      c'.session s = (c.session s).settle id o := by
  cases h with
  | act | post | check => exact absurd rfl hne
  | opens =>
    rcases c.session_opened_cases s with hsame | ⟨hold, hnew⟩
    · exact absurd (congrArg Session.settled hsame) hne
    · rw [hold, hnew] at hne
      exact absurd rfl hne
  | @settle id t env _ code o hend =>
    rcases c.session_modify_cases s t (·.settle id o) with hsame | ⟨rfl, hnew⟩
    · exact absurd (congrArg Session.settled hsame) hne
    · exact ⟨id, code, o, rfl, rfl, hend, hnew⟩
  | hand | reclaim | leave =>
    rcases c.session_modify_cases s _ _ with hsame | ⟨-, hsame⟩ <;>
      exact absurd (congrArg Session.settled hsame) hne

/-- A task that ends tells its session nothing. -/
theorem Ends.told {d : Nat × Option Nat} (h : Ends f c d c') :
    (c'.session s).submitted = (c.session s).submitted ∧
      (c'.session s).settled = (c.session s).settled := by
  cases h with
  | bare => exact ⟨rfl, rfl⟩
  | drop =>
    rcases c.session_modify_cases s _ _ with hsame | ⟨-, hsame⟩ <;> rw [hsame] <;>
      exact ⟨rfl, rfl⟩

theorem Census.Step.submitted (h : Census.Step x x')
    (hne : (x'.common.session s).submitted ≠ (x.common.session s).submitted) :
    ∃ f ∈ x.crew, s ∈ f.env.values ∧
      x'.common.session s = (x.common.session s).enter x.common.given := by
  rcases h.total with ⟨hcommon, -⟩ | ⟨f, f', hmem, hadvance, -⟩ | ⟨f, d, hmem, hends, -⟩
  · exact absurd (by rw [hcommon]) hne
  · obtain ⟨hvalues, -, hnew⟩ := hadvance.submitted hne
    exact ⟨f, hmem, hvalues, hnew⟩
  · exact absurd hends.told.1 hne

theorem Census.Step.settled (h : Census.Step x x')
    (hne : (x'.common.session s).settled ≠ (x.common.session s).settled) :
    ∃ f ∈ x.crew, ∃ id code o, f.role = .task id (some s) ∧ f.point = .run code ∧
      code.end? = some o ∧ x'.common.session s = (x.common.session s).settle id o := by
  rcases h.total with ⟨hcommon, -⟩ | ⟨f, f', hmem, hadvance, -⟩ | ⟨f, d, hmem, hends, -⟩
  · exact absurd (by rw [hcommon]) hne
  · exact ⟨f, hmem, hadvance.settled hne⟩
  · exact absurd hends.told.2 hne

end Told

/-! ## Runs -/

namespace Machine

variable {m m' : Machine σ ρ} {i k s : Nat} {workers : Nat} {shared : σ} {codes : List (Code σ ρ)}

/-- A session. -/
def session (m : Machine σ ρ) (s : Nat) : Session ρ := m.common.session s

/-- The number of tasks of a session that were counted in and not out: they are
    being placed, in slots, or running. -/
def owing (m : Machine σ ρ) (s : Nat) : Nat :=
  (Thread.crew m.threads).countP
      (fun f => ∃ job, f.point.job? = some job ∧ job.session = some s) +
    (Slot.held m.pool.slots).countP (fun job => job.session = some s) +
    (Thread.crew m.threads).countP fun f => f.role.Is (·.2 = some s) ∧ f.point.phase ≤ 1

/-- The number of tasks of a session that were counted out. -/
def countedOut (m : Machine σ ρ) (s : Nat) : Nat :=
  (Thread.crew m.threads).countP (fun f => f.role.Is (·.2 = some s) ∧ f.point.phase = 2) +
    m.done.countP fun d => d.2 = some s

theorem matches_start (workers : Nat) (shared : σ) (codes : List (Code σ ρ)) (s : Nat) :
    ((start workers shared codes).session s).Matches
      ((start workers shared codes).census.use s) := by
  have htasks : ∀ (P : Nat × Option Nat → Prop) [DecidablePred P] (n : Nat),
      (Tally.tasks σ ρ P n).total (start workers shared codes).census = 0 :=
    fun P _ n => Tally.total_start _ workers shared codes fun _ => rfl
  have hown : (Tally.holding σ ρ s).total (start workers shared codes).census = 0 :=
    Tally.total_start _ workers shared codes fun _ => rfl
  constructor
  · exact (htasks _ 1).symm
  · exact (htasks _ 2).symm
  · exact Nat.zero_le _
  · exact Nat.le_of_eq (congrArg₂ (· + ·) (htasks _ 2) hown)
  · exact fun k => (htasks _ 2).symm
  · exact fun k => (htasks _ 0).symm
  · rfl

theorem Reaches.matches (h : (start workers shared codes).Reaches m) (s : Nat) :
    (m.session s).Matches (m.census.use s) := by
  induction h with
  | refl => exact matches_start workers shared codes s
  | tail hreaches hstep ih =>
    exact (hstep.census (Reaches.sound hreaches (sound_start workers shared codes))).matches ih

/-- What there is of a task of a session, among all tasks. -/
theorem Reaches.task_le (h : (start workers shared codes).Reaches m) (s k : Nat) :
    (m.census.use s).task k 2 + (m.census.use s).ended.count k ≤
      if k < m.common.given then 1 else 0 := by
  have htask : (m.census.use s).task k 2 ≤ m.unplaced k + m.stored k + m.running k :=
    total_task m k ▸ Tally.total_tasks_mono (fun d hd => congrArg Prod.fst hd) le_rfl m.census
  have hended : (m.census.use s).ended.count k ≤ m.finished k := m.census.count_ended_le s k
  have htasks := (h.tasks k).1
  omega

/-- What is true of a session, at any time. -/
structure Folds (m : Machine σ ρ) (s : Nat) : Prop where
  /-- The counter is the number of tasks that were counted in and not out. -/
  counter : (m.session s).outstanding = m.owing s
  /-- All tasks that were counted in are counted, or were counted out. -/
  counted : (m.session s).submitted.length = (m.session s).outstanding + m.countedOut s
  /-- A task is counted until it was counted out. -/
  positive : ∀ f ∈ Thread.crew m.threads, f.role.Is (·.2 = some s) → f.point.phase ≤ 1 →
    0 < (m.session s).outstanding
  /-- Each task is handed in once, by a thread with a handle of its own. -/
  handed : (m.session s).submitted.Nodup ∧ ∀ m', m.Step m' →
    (m'.session s).submitted ≠ (m.session s).submitted →
      ∃ f ∈ Thread.crew m.threads, s ∈ f.env.values ∧
        m'.session s = (m.session s).enter m.common.given
  /-- Each result is combined once, when its task has ended. -/
  combined : ((m.session s).settled.map (·.1)).Nodup ∧ ∀ m', m.Step m' →
    (m'.session s).settled ≠ (m.session s).settled →
      ∃ f ∈ Thread.crew m.threads, ∃ id code o, f.role = .task id (some s) ∧
        f.point = .run code ∧ code.end? = some o ∧ m'.session s = (m.session s).settle id o
  /-- The combiner gets the results of the tasks that did not panic, in the
      order of their combine steps. -/
  received : (m.session s).folded = (m.session s).settled.filterMap fun e => e.2.toOption
  /-- The counter is zero only when every task has ended. -/
  drained : (m.session s).outstanding = 0 →
    ((m.session s).settled.map (·.1)).Perm (m.session s).submitted
  /-- The thread that waits gets what the combiner got, when every task was
      run and combined.  Nobody gets at the session from then on. -/
  returned : ∀ {i : Nat} {role : Role} {env : SortedMap Nat Nat} {next : List ρ → Code σ ρ}
    {f' : Frame σ ρ} {c : Common σ ρ}, m.top? i = some ⟨role, env, .reclaim s next⟩ →
      Advance ⟨role, env, .reclaim s next⟩ m.common f' c →
        f' = ⟨role, env, .run (next (m.session s).folded)⟩ ∧
        ((m.session s).settled.map (·.1)).Perm (m.session s).submitted ∧
        (∀ k ∈ (m.session s).submitted, m.started.count k = 1 ∧ m.finished k = 1) ∧
        ∀ m', Reaches { m.setTop i f' with common := c } m' →
          m'.session s = (m.session s).release ∧ m'.census.Unused s

/-- A session without handles is never used again. -/
theorem Reaches.session_eq (h : m.Reaches m') (hsound : Sound m.pool m.threads)
    (hmatches : (m.session s).Matches (m.census.use s)) (hzero : (m.session s).handles = 0)
    (hs : s < m.common.sessions.length) :
    m'.session s = m.session s ∧ m'.census.Unused s := by
  suffices hall : m'.session s = m.session s ∧ s < m'.common.sessions.length ∧
      (m'.session s).Matches (m'.census.use s) by
    obtain ⟨hsame, -, hmatches'⟩ := hall
    exact ⟨hsame, hmatches'.unused (hsame ▸ hzero)⟩
  induction h with
  | refl => exact ⟨rfl, hs, hmatches⟩
  | tail hreaches hstep ih =>
    obtain ⟨hsame, hlt, hmid⟩ := ih
    have hcensus := hstep.census (Reaches.sound hreaches hsound)
    obtain ⟨hnext, hlt'⟩ := hcensus.session_eq (hmid.unused (hsame ▸ hzero)) hlt
    exact ⟨hnext.trans hsame, hlt', hcensus.matches hmid⟩

/-- When the counter is zero, every task of the session has ended. -/
theorem perm_submitted (h : (m.session s).Matches (m.census.use s))
    (hzero : (m.session s).outstanding = 0) :
    ((m.session s).settled.map (·.1)).Perm (m.session s).submitted := by
  refine List.perm_iff_count.2 fun k => ?_
  have hnone := m.census.task_le_tasks s k (Nat.zero_le 1)
  rw [← h.outstanding, hzero] at hnone
  rw [h.settled, Nat.le_zero.1 hnone, Nat.zero_add]

/-- Tasks that are past their last phase but one have been counted out. -/
theorem tasks_eq_add (m : Machine σ ρ) (s : Nat) :
    (m.census.use s).tasks 2 = (m.census.use s).tasks 1 +
      (Thread.crew m.threads).countP fun f => f.role.Is (·.2 = some s) ∧ f.point.phase = 2 := by
  have hsplit : ∀ fs : Multiset (Frame σ ρ),
      (fs.countP fun f => f.role.Is (·.2 = some s) ∧ f.point.phase ≤ 2) =
        (fs.countP fun f => f.role.Is (·.2 = some s) ∧ f.point.phase ≤ 1) +
          fs.countP fun f => f.role.Is (·.2 = some s) ∧ f.point.phase = 2 := by
    intro fs
    induction fs using Multiset.induction_on with
    | empty => rfl
    | cons f fs ih =>
      have hf : (if f.role.Is (·.2 = some s) ∧ f.point.phase ≤ 2 then 1 else 0) =
          (if f.role.Is (·.2 = some s) ∧ f.point.phase ≤ 1 then 1 else 0) +
            if f.role.Is (·.2 = some s) ∧ f.point.phase = 2 then 1 else 0 := by
        split_ifs <;> grind
      rw [Multiset.countP_cons, Multiset.countP_cons, Multiset.countP_cons, ih, hf]
      omega
  simp only [Census.use, Tally.total_tasks, hsplit, Nat.add_assoc]
  rfl

/-- The thread that waits has the last handle: all tasks of the session are
    over. -/
theorem tasks_eq_zero {role : Role} {env : SortedMap Nat Nat} {next : List ρ → Code σ ρ}
    (h : (m.session s).Matches (m.census.use s))
    (htop : m.top? i = some ⟨role, env, .reclaim s next⟩) (hone : (m.session s).handles = 1) :
    (m.census.use s).tasks 2 = 0 := by
  obtain ⟨rest, hcrew, -⟩ := crew_setTop htop
  have hmem : ⟨role, env, .reclaim s next⟩ ∈ m.census.crew :=
    (congrArg (_ ∈ ·) hcrew).mpr (Multiset.mem_cons_self _ rest)
  have hown := (Tally.holding σ ρ s).whole_le_total hmem
  rw [Tally.whole_holding, Point.reclaim?, if_pos rfl] at hown
  have hle := h.le_handles
  rw [hone] at hle
  simp only [Census.use] at hle ⊢
  omega

/-- **A session gets the result of each of its tasks once**, whatever the number
    of workers, whatever threads and tasks do, and whatever the order of their
    steps. -/
theorem Reaches.folds (h : (start workers shared codes).Reaches m) (s : Nat) : m.Folds s where
  counter := (h.matches s).outstanding.trans (Tally.total_tasks _ 1 m.census)
  counted := by
    rw [(h.matches s).length, (h.matches s).outstanding, tasks_eq_add, Census.length_ended,
      countedOut, Nat.add_assoc]
    rfl
  positive f hf hrole hphase := by
    have hle := (Tally.tasks σ ρ (·.2 = some s) 1).whole_le_total (x := m.census) hf
    rw [Tally.whole_tasks, if_pos ⟨hrole, hphase⟩] at hle
    rw [(h.matches s).outstanding]
    exact Nat.lt_of_lt_of_le (Nat.lt_add_right _ Nat.zero_lt_one) hle
  handed := by
    refine ⟨List.nodup_iff_count_le_one.2 fun k => ?_, fun m' hstep hne => ?_⟩
    · have hle := h.task_le s k
      rw [(h.matches s).entered]
      split_ifs at hle <;> omega
    · exact (hstep.census (h.sound (sound_start workers shared codes))).submitted hne
  combined := by
    refine ⟨List.nodup_iff_count_le_one.2 fun k => ?_, fun m' hstep hne => ?_⟩
    · have hle := h.task_le s k
      have hentered := (h.matches s).entered k
      have hsettled := (h.matches s).settled k
      split_ifs at hle <;> omega
    · exact (hstep.census (h.sound (sound_start workers shared codes))).settled hne
  received := (h.matches s).folded
  drained := perm_submitted (h.matches s)
  returned {i role env next f' c} htop hadvance := by
    have hmatches := h.matches s
    have hstep : m.Step { m.setTop i f' with common := c } := .advance htop hadvance
    cases hadvance with
    | reclaim hsession hone =>
      have hsame : m.session s = _ := Common.session_eq_of_getElem? hsession
      have hlt := (List.getElem?_eq_some_iff.1 hsession).1
      rw [← hsame] at hone hstep ⊢
      have hzero := tasks_eq_zero hmatches htop hone
      have hnone : (m.session s).outstanding = 0 := by
        rw [hmatches.outstanding]
        exact Nat.le_zero.1 (hzero ▸ m.census.tasks_le_tasks s (Nat.le_succ 1))
      refine ⟨rfl, perm_submitted hmatches hnone, fun k hk => ?_, fun m' hm' => ?_⟩
      · have hentered := hmatches.entered k
        have htask := hzero ▸ m.census.task_le_tasks s k (le_refl 2)
        have hcount := List.count_pos_iff.2 hk
        have hended : _ ≤ m.finished k := m.census.count_ended_le s k
        obtain ⟨honce, hstarted⟩ := h.tasks k
        split_ifs at honce <;> omega
      · have hrelease := Common.session_modify_self_of_lt hlt Session.release
        obtain ⟨hsame', hunused⟩ := hm'.session_eq (s := s)
          ((Reaches.sound (h.tail hstep) (sound_start workers shared codes)))
          (Reaches.matches (h.tail hstep) s)
          ((congrArg Session.handles hrelease).trans (congrArg (· - 1) hone))
          (Common.lt_sessions_modify s _ hlt)
        exact ⟨hsame'.trans hrelease, hunused⟩

/-- Two workers, of which the second one is faster, and a task that panics. -/
theorem folds_faster_second :
    ∃ m : Machine Unit Nat,
      (start 2 () [.hand 0 (.value 1) (.hand 0 (.panic .other)
        (.wait 0 fun rs => .value rs.sum))]).Reaches m ∧
        m.Folds 0 ∧ (m.session 0).submitted = [0, 1] ∧
        (m.session 0).settled = [(1, .error .other), (0, .ok 1)] ∧ (m.session 0).folded = [1] ∧
        (m.top? 2).map (·.point.reclaim?) = some (some 0) ∧
        m.started.count 0 = 1 ∧ m.finished 0 = 1 ∧ m.started.count 1 = 1 ∧ m.finished 1 = 1 := by
  have hreaches := (Relation.ReflTransGen.refl (r := Step)
      (a := start 2 () [(.hand 0 (.value 1) (.hand 0 (.panic .other)
        (.wait 0 fun rs => .value rs.sum)) : Code Unit Nat)]))
    |>.tail (.advance (i := 2) rfl (.opens rfl rfl))
    |>.tail (.advance (i := 2) rfl (.hand rfl))
    |>.tail (.claim (i := 2) rfl rfl rfl)
    |>.tail (.put (i := 2) rfl rfl)
    |>.tail (.assign (i := 2) rfl rfl)
    |>.tail (.advance (i := 2) rfl (.hand rfl))
    |>.tail (.pass (i := 2) rfl rfl nofun)
    |>.tail (.claim (i := 2) rfl rfl rfl)
    |>.tail (.put (i := 2) rfl rfl)
    |>.tail (.assign (i := 2) rfl rfl)
    |>.tail (.look (i := 0) rfl rfl rfl)
    |>.tail (.look (i := 1) rfl rfl rfl)
    |>.tail (.take (i := 0) rfl rfl rfl)
    |>.tail (.take (i := 1) rfl rfl rfl)
    |>.tail (.advance (i := 1) rfl (.settle rfl))
    |>.tail (.advance (i := 0) rfl (.settle rfl))
    |>.tail (.advance (i := 1) rfl .leave)
    |>.tail (.advance (i := 0) rfl .leave)
    |>.tail (.finish (i := 1) rfl .drop)
    |>.tail (.advance (i := 2) rfl (.check rfl rfl rfl))
    |>.tail (.finish (i := 0) rfl .drop)
  have hfolds := Reaches.folds hreaches 0
  obtain ⟨-, -, honce, -⟩ := hfolds.returned (i := 2) rfl (.reclaim rfl rfl)
  have h₀ := honce 0 (by decide)
  have h₁ := honce 1 (by decide)
  exact ⟨_, hreaches, hfolds, rfl, rfl, rfl, rfl, h₀.1, h₀.2, h₁.1, h₁.2⟩

end Machine

end TickEngine
