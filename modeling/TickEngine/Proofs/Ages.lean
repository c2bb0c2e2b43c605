/-
  A task is older than the tasks that it hands in.

  Tasks are called by the order in which they are handed in.  A frame places a
  task, and has a session whose tasks were handed in, only when its own task
  came before them (`Frame.Aged`); a worker runs a task on top of the one that
  handed it in, so the frames of a stack are older the deeper they are
  (`Thread.Stacked`).  Every step keeps both.

  * `Machine.Reaches.upright`: ages, stacks and claims in every reached machine.
-/
import TickEngine.Proofs.OneWorker

namespace TickEngine

variable {σ ρ : Type}

/-! ## Ages -/

/-- What a frame places and what was handed in to its sessions came after its
    own task.  A task of no session has not begun to end, and a task of a
    session is placed by a frame that has the session. -/
structure Frame.Aged (c : Common σ ρ) (f : Frame σ ρ) : Prop where
  bare : f.role.session? = none → f.point.phase = 0
  placed : ∀ job, f.point.job? = some job → ∀ s, job.session = some s → s ∈ f.env.values
  before : ∀ k, f.role.id? = some k → ∀ job, f.point.job? = some job → k < job.id
  older : ∀ k, f.role.id? = some k → ∀ s, f.Holds s → ∀ k' ∈ (c.session s).submitted, k < k'

section Frames

variable {c c' : Common σ ρ} {f f' : Frame σ ρ} {role : Role} {env : SortedMap Nat Nat}
  {p p' : Point σ ρ} {s : Nat}

theorem Frame.Holds.of_up (h : Frame.Holds ⟨role, env, p'⟩ s) (hp : p'.Up) :
    Frame.Holds ⟨role, env, p⟩ s := by
  rcases h with hmem | hreclaim
  · exact .inl hmem
  · cases hp.reclaim?.symm.trans hreclaim

/-- A frame that goes on with the same task, or with none. -/
theorem Frame.Aged.up (h : Frame.Aged c ⟨role, env, p⟩) (hp : p'.Up)
    (hjob : ∀ job, p'.job? = some job → p.job? = some job) : Frame.Aged c ⟨role, env, p'⟩ where
  bare _ := hp.phase
  placed job hjob' := h.placed job (hjob job hjob')
  before k hk job hjob' := h.before k hk job (hjob job hjob')
  older k hk s hs := h.older k hk s (hs.of_up hp)

/-- A task that starts has no session open. -/
theorem Job.aged (job : Job σ ρ) (c : Common σ ρ) : job.frame.Aged c where
  bare _ := rfl
  placed := nofun
  before := nofun
  older _ _ _ hs := by rcases hs with hs | hs <;> cases hs

/-- Nobody hands in a task to the sessions of the frame. -/
theorem Frame.Aged.of_submitted (h : f.Aged c)
    (hsame : ∀ s, f.Holds s → (c'.session s).submitted = (c.session s).submitted) :
    f.Aged c' where
  bare := h.bare
  placed := h.placed
  before := h.before
  older k hk s hs := hsame s hs ▸ h.older k hk s hs

theorem Advance.job?_id (h : Advance f c f' c') {job : Job σ ρ} (hjob : f'.point.job? = some job) :
    job.id = c.given := by
  cases h with
  | post | hand => cases hjob; rfl
  | _ => cases hjob

/-- What a frame gets is a new session. -/
theorem Advance.holds_cases (h : Advance f c f' c') (hs : f'.Holds s) :
    f.Holds s ∨ (c'.session s).submitted = [] := by
  cases h with
  | act | post | hand | reclaim =>
    rcases hs with hmem | hreclaim
    · exact .inl (.inl hmem)
    · cases hreclaim
  | @opens role env c code name hname hget =>
    rcases hs with hmem | hreclaim
    · rcases List.mem_cons.1 ((SortedMap.perm_values_insert hget _).mem_iff.1 hmem) with rfl | hmem
      · refine .inr ?_
        rw [Common.session_opened, if_pos rfl]
      · exact .inl (.inl hmem)
    · cases hreclaim
  | check hget =>
    rcases hs with hmem | hreclaim
    · refine .inl (.inl ((SortedMap.perm_values_erase hget).mem_iff.2 ?_))
      exact List.mem_cons_of_mem _ hmem
    · cases hreclaim
      exact .inl (.inl (SortedMap.mem_values_of_get? hget))
  | settle | leave => exact .inl hs

/-- A frame that moves hands in a task that comes after its own. -/
theorem Advance.aged (h : Advance f c f' c') (hf : f.Aged c)
    (hgiven : ∀ k, f.role.id? = some k → k < c.given) : f'.Aged c' where
  bare := h.bare hf.bare
  placed _ hjob _ hs := h.placed hjob hs
  before k hk job hjob := by
    rw [h.job?_id hjob]
    exact hgiven k (h.role_eq ▸ hk)
  older k hk s hs k' hk' := by
    have hrole : f.role.id? = some k := h.role_eq ▸ hk
    rcases h.holds_cases hs with hholds | hnone
    · by_cases hsame : (c'.session s).submitted = (c.session s).submitted
      · exact hf.older k hrole s hholds k' (hsame ▸ hk')
      · obtain ⟨-, -, hnew⟩ := h.submitted hsame
        rw [hnew, Session.enter, List.mem_append, List.mem_singleton] at hk'
        rcases hk' with hk' | rfl
        · exact hf.older k hrole s hholds k' hk'
        · exact hgiven k hrole
    · rw [hnone] at hk'
      cases hk'

end Frames

/-! ### Holders -/

namespace Census

variable {x x' : Census σ ρ}

/-- The frames of a session that one frame holds. -/
theorem eq_of_holds {f g : Frame σ ρ} {rest : Multiset (Frame σ ρ)} {s : Nat}
    (hcrew : x.crew = f ::ₘ rest) (hone : (Tally.holding σ ρ s).total x ≤ 1) (hg : g ∈ rest)
    (hf : f.Holds s) : ¬ g.Holds s := by
  intro hholds
  obtain ⟨rest', rfl⟩ := Multiset.exists_cons_of_mem hg
  have hfpos := Machine.holds_iff.1 hf
  have hgpos := Machine.holds_iff.1 hholds
  rw [Tally.total, hcrew, Multiset.map_cons, Multiset.map_cons, Multiset.sum_cons,
    Multiset.sum_cons] at hone
  omega

/-- **Every step keeps ages**, when a session is held by one frame. -/
theorem Step.aged (h : Step x x') (hx : ∀ f ∈ x.crew, f.Aged x.common)
    (hgiven : ∀ f ∈ x.crew, ∀ k, f.role.id? = some k → k < x.common.given)
    (hone : ∀ s, (Tally.holding σ ρ s).total x ≤ 1) : ∀ f ∈ x'.crew, f.Aged x'.common := by
  cases h with
  | stay => exact hx
  | @advance f f' c c' crew held st dn hadvance =>
    obtain ⟨hf, hrest⟩ := Multiset.forall_mem_cons.1 hx
    refine Multiset.forall_mem_cons.2 ⟨?_, fun g hg => ?_⟩
    · exact hadvance.aged hf (hgiven f (Multiset.mem_cons_self f crew))
    · refine (hrest g hg).of_submitted fun s hs => ?_
      by_contra hne
      exact eq_of_holds rfl (hone s) hg (.inl (hadvance.submitted hne).1) hs
  | carry hp hp' =>
    obtain ⟨hf, hrest⟩ := Multiset.forall_mem_cons.1 hx
    refine Multiset.forall_mem_cons.2 ⟨hf.up hp'.up fun job hjob => ?_, hrest⟩
    cases hp' <;> cases hjob <;> cases hp <;> rfl
  | put =>
    obtain ⟨hf, hrest⟩ := Multiset.forall_mem_cons.1 hx
    exact Multiset.forall_mem_cons.2 ⟨hf.up trivial nofun, hrest⟩
  | assign =>
    obtain ⟨hf, hrest⟩ := Multiset.forall_mem_cons.1 hx
    exact Multiset.forall_mem_cons.2 ⟨hf.up trivial nofun, hrest⟩
  | @inline role env p job =>
    obtain ⟨hf, hrest⟩ := Multiset.forall_mem_cons.1 hx
    refine Multiset.forall_mem_cons.2 ⟨job.aged _, ?_⟩
    exact Multiset.forall_mem_cons.2 ⟨hf.up trivial nofun, hrest⟩
  | @take job => exact Multiset.forall_mem_cons.2 ⟨job.aged _, hx⟩
  | ends hends =>
    obtain ⟨-, hrest⟩ := Multiset.forall_mem_cons.1 hx
    exact fun g hg => (hrest g hg).of_submitted fun s _ => hends.told.1

end Census

/-! ## Stacks -/

/-- The frame comes before another one, when both run tasks. -/
def Frame.Before (f g : Frame σ ρ) : Prop :=
  ∀ k k', f.role.id? = some k → g.role.id? = some k' → k < k'

/-- The frames of a worker are older the deeper they are, and those that wait
    for others to end have claimed no slot. -/
def Thread.Stacked : Thread σ ρ → Prop
  | .work top below =>
    (top :: below).Pairwise (fun f g => g.Before f) ∧ ∀ g ∈ below, g.point.claim? = none
  | _ => True

theorem Thread.Stacked.withTop {t : Thread σ ρ} {f f' : Frame σ ρ} (h : t.Stacked)
    (htop : t.top? = some f) (hrole : f'.role = f.role) : (t.withTop f').Stacked := by
  cases t with
  | work top below =>
    cases htop
    obtain ⟨hpairwise, hclaims⟩ := h
    obtain ⟨htop, hbelow⟩ := List.pairwise_cons.1 hpairwise
    refine ⟨List.pairwise_cons.2 ⟨fun g hg k k' hk hk' => ?_, hbelow⟩, hclaims⟩
    exact htop g hg k k' hk (hrole ▸ hk')
  | outer => trivial
  | _ => cases htop

namespace Machine

variable {m m' : Machine σ ρ} {i : Nat} {f f' : Frame σ ρ}

theorem stacked_setTop (hm : ∀ t ∈ m.threads, t.Stacked) (htop : m.top? i = some f)
    (hrole : f'.role = f.role) : ∀ t ∈ (m.setTop i f').threads, t.Stacked := by
  obtain ⟨t, ht, htop, hset⟩ := top?_eq_some htop
  intro t' ht'
  rw [setTop, hset] at ht'
  rcases List.mem_or_eq_of_mem_set ht' with ht' | rfl
  · exact hm t' ht'
  · exact (hm t (List.mem_of_getElem? ht)).withTop htop hrole

theorem stacked_setThread (hm : ∀ t ∈ m.threads, t.Stacked) (t : Thread σ ρ) (ht : t.Stacked) :
    ∀ t' ∈ (m.setThread i t).threads, t'.Stacked := by
  intro t' ht'
  rcases List.mem_or_eq_of_mem_set ht' with hold | hnew
  · exact hm t' hold
  · exact hnew ▸ ht

/-- **Every step keeps stacks**: a task is run on top of the one that placed it. -/
theorem Step.stacked (h : m.Step m') (hm : ∀ t ∈ m.threads, t.Stacked)
    (hcast : ∀ t ∈ m.threads, t.Cast) (haged : ∀ f ∈ Thread.crew m.threads, f.Aged m.common) :
    ∀ t ∈ m'.threads, t.Stacked := by
  cases h with
  | advance htop hadvance => exact stacked_setTop hm htop hadvance.role_eq
  | pass htop => exact stacked_setTop hm htop rfl
  | claim htop => exact stacked_setTop hm htop rfl
  | rescan hthread => exact stacked_setTop hm (top?_of_outer hthread) rfl
  | put htop => exact stacked_setTop hm htop rfl
  | assign htop => exact stacked_setTop hm htop rfl
  | @inline i role env j job next below hthread =>
    have hmem := List.mem_of_getElem? hthread
    obtain ⟨hpairwise, hclaims⟩ := hm _ hmem
    obtain ⟨htop, hbelow⟩ := List.pairwise_cons.1 hpairwise
    have hage := haged _ (Thread.mem_crew.2 ⟨_, hmem, List.mem_cons_self⟩)
    have hrole := (List.forall_mem_cons.1 (hcast _ hmem)).1
    refine stacked_setThread hm (.work _ _) ⟨List.pairwise_cons.2 ⟨?_, ?_⟩, ?_⟩
    · -- the new task is younger than the one that placed it, and so than all below
      refine List.forall_mem_cons.2 ⟨fun k k' hk hk' => ?_, fun g hg k k' hk hk' => ?_⟩
      · cases hk'
        exact hage.before k hk job rfl
      · cases hk'
        cases role with
        | outer => exact absurd rfl hrole
        | task id session => exact (htop g hg k id hk rfl).trans (hage.before id rfl job rfl)
    · exact List.pairwise_cons.2 ⟨htop, hbelow⟩
    · exact List.forall_mem_cons.2 ⟨rfl, hclaims⟩
  | look => exact stacked_setThread hm .take trivial
  | take => exact stacked_setThread hm (.work _ _) ⟨List.pairwise_singleton _ _, nofun⟩
  | miss | finish => exact stacked_setThread hm .reset trivial
  | back hthread =>
    obtain ⟨hpairwise, hclaims⟩ := hm _ (List.mem_of_getElem? hthread)
    exact stacked_setThread hm (.work _ _)
      ⟨(List.pairwise_cons.1 hpairwise).2, (List.forall_mem_cons.1 hclaims).2⟩
  | reset => exact stacked_setThread hm .look trivial
  | glance => exact stacked_setThread hm .quit trivial
  | stay => exact stacked_setThread hm .look trivial
  | exit => exact stacked_setThread hm .gone trivial
  | shut => exact hm

/-! ## Claims -/

theorem mem_crew_setTop {g : Frame σ ρ} (htop : m.top? i = some f)
    (hg : g ∈ Thread.crew (m.setTop i f').threads) : g = f' ∨ g ∈ Thread.crew m.threads := by
  obtain ⟨rest, hcrew, hset⟩ := crew_setTop htop
  rw [hset, Multiset.mem_cons] at hg
  rw [hcrew]
  exact hg.imp_right (Multiset.mem_cons_of_mem ·)

theorem mem_crew_setThread {g : Frame σ ρ} {t : Thread σ ρ}
    (hg : g ∈ Thread.crew (m.setThread i t).threads) :
    g ∈ t.frames ∨ g ∈ Thread.crew m.threads := by
  obtain ⟨t', ht', hg⟩ := Thread.mem_crew.1 hg
  rcases List.mem_or_eq_of_mem_set ht' with hold | hnew
  · exact .inr (Thread.mem_crew.2 ⟨t', hold, hg⟩)
  · exact .inl (hnew ▸ hg)

/-- A claim is one that there was, or on a slot of the pool. -/
theorem Step.claim_cases (h : m.Step m') {g : Frame σ ρ} (hg : g ∈ Thread.crew m'.threads) {j : Nat}
    {b : Bool} (hclaim : g.point.claim? = some (j, b)) :
    g ∈ Thread.crew m.threads ∨ ∃ slot, m.pool.slots[j]? = some slot := by
  cases h with
  | advance htop hadvance =>
    rcases mem_crew_setTop htop hg with rfl | hold
    · cases hadvance.claim?_eq_none.2.symm.trans hclaim
    · exact .inl hold
  | pass htop =>
    rcases mem_crew_setTop htop hg with rfl | hold
    · cases hclaim
    · exact .inl hold
  | rescan hthread =>
    rcases mem_crew_setTop (top?_of_outer hthread) hg with rfl | hold
    · cases hclaim
    · exact .inl hold
  | claim htop hslot | put htop hslot =>
    rcases mem_crew_setTop htop hg with rfl | hold
    · cases hclaim
      exact .inr ⟨_, hslot⟩
    · exact .inl hold
  | assign htop =>
    rcases mem_crew_setTop htop hg with rfl | hold
    · cases hclaim
    · exact .inl hold
  | inline hthread =>
    refine .inl ((mem_crew_setThread hg).elim (fun hnew => ?_) id)
    rcases List.mem_cons.1 hnew with rfl | hnew
    · cases hclaim
    rcases List.mem_cons.1 hnew with rfl | hbelow
    · cases hclaim
    · exact Thread.mem_crew.2
        ⟨_, List.mem_of_getElem? hthread, List.mem_cons_of_mem _ hbelow⟩
  | take =>
    refine .inl ((mem_crew_setThread hg).elim (fun hnew => ?_) id)
    obtain rfl := List.mem_singleton.1 hnew
    cases hclaim
  | back hthread =>
    refine .inl ((mem_crew_setThread hg).elim (fun hbelow => ?_) id)
    exact Thread.mem_crew.2 ⟨_, List.mem_of_getElem? hthread, List.mem_cons_of_mem _ hbelow⟩
  | look | miss | finish | reset | glance | stay | exit =>
    exact .inl ((mem_crew_setThread hg).resolve_left nofun)
  | shut => exact .inl hg

/-! ## Runs -/

/-- Frames and stacks are in order of their ages, and claims are on slots that
    there are. -/
structure Upright (m : Machine σ ρ) : Prop where
  aged : ∀ f ∈ Thread.crew m.threads, f.Aged m.common
  stacked : ∀ t ∈ m.threads, t.Stacked
  claimed : ∀ f ∈ Thread.crew m.threads, ∀ {j b}, f.point.claim? = some (j, b) →
    ∃ slot, m.pool.slots[j]? = some slot

variable {workers : Nat} {shared : σ} {codes : List (Code σ ρ)} {k s : Nat}

theorem upright_start (workers : Nat) (shared : σ) (codes : List (Code σ ρ)) :
    (start workers shared codes).Upright where
  aged f hf := by
    obtain ⟨code, rfl⟩ := mem_crew_start hf
    exact ⟨fun _ => rfl, nofun, nofun, nofun⟩
  stacked t ht := by
    rcases mem_threads_start ht with rfl | ⟨code, rfl⟩ <;> trivial
  claimed f hf := by
    obtain ⟨code, rfl⟩ := mem_crew_start hf
    nofun

/-- A task that runs was handed in. -/
theorem Reaches.lt_given (h : (start workers shared codes).Reaches m)
    (hf : f ∈ Thread.crew m.threads) (hk : f.role.id? = some k) : k < m.common.given := by
  have hrunning : 0 < m.running k := Multiset.countP_pos.2 ⟨f, hf, hk⟩
  have htasks := (h.tasks k).1
  by_contra hnot
  rw [if_neg hnot] at htasks
  omega

/-- A session is held by one frame. -/
theorem Reaches.holding_le_one (h : (start workers shared codes).Reaches m) (s : Nat) :
    (Tally.holding σ ρ s).total m.census ≤ 1 := by
  have hge := (h.matches s).le_handles
  have hle := (h.matches s).handles_le
  simp only [Census.use] at hge hle
  omega

/-- **In every reached machine, tasks are older than those they hand in.** -/
theorem Reaches.upright (h : (start workers shared codes).Reaches m) : m.Upright := by
  induction h with
  | refl => exact upright_start workers shared codes
  | @tail m m' hreaches hstep ih =>
    have hsound := Reaches.sound hreaches (sound_start workers shared codes)
    refine ⟨?_, ?_, ?_⟩
    · exact (hstep.census hsound).aged ih.aged (fun f hf k hk => Reaches.lt_given hreaches hf hk)
        (Reaches.holding_le_one hreaches)
    · exact hstep.stacked ih.stacked hsound.cast ih.aged
    · intro f hf j b hclaim
      have hlength := hstep.length_slots
      have hold : ∃ slot, m.pool.slots[j]? = some slot := by
        rcases hstep.claim_cases hf hclaim with hold | hslot
        · exact ih.claimed f hold hclaim
        · exact hslot
      obtain ⟨slot, hslot⟩ := hold
      have hlt := (List.getElem?_eq_some_iff.1 hslot).1
      exact ⟨_, List.getElem?_eq_getElem (hlength ▸ hlt)⟩

end Machine

end TickEngine
