/-
  One worker and one thread from outside.

  What the worker has to do stands in a line: the frames that it runs, the one
  that moves first, or the task in its slot.  A step moves the head of the
  `Line` or the thread from outside, puts a task in front, or puts one into a
  line that is empty (`Machine.Step.line`).
-/
import TickEngine.Proofs.Sessions

namespace TickEngine

variable {σ ρ : Type}

/-- What the worker has to do, and the frame of the thread from outside. -/
structure Line (σ ρ : Type) where
  work : List (Frame σ ρ)
  outer : Frame σ ρ
  common : Common σ ρ

/-- What a step can do to a line. -/
inductive Line.Step : Line σ ρ → Line σ ρ → Prop
  | stay {x} : Step x x
  | work {f f' fs o c c'} : Advance f c f' c' → Step ⟨f :: fs, o, c⟩ ⟨f' :: fs, o, c'⟩
  | outer {fs o o' c c'} : Advance o c o' c' → Step ⟨fs, o, c⟩ ⟨fs, o', c'⟩
  | scanWork {role env j j' job next fs o c} :
      Step ⟨⟨role, env, .scan j job next⟩ :: fs, o, c⟩ ⟨⟨role, env, .scan j' job next⟩ :: fs, o, c⟩
  | scanOuter {role env j j' job next fs c} :
      Step ⟨fs, ⟨role, env, .scan j job next⟩, c⟩ ⟨fs, ⟨role, env, .scan j' job next⟩, c⟩
  | claim {role env job next c} :
      Step ⟨[], ⟨role, env, .scan 0 job next⟩, c⟩ ⟨[], ⟨role, env, .store 0 job next⟩, c⟩
  | put {role env job next c} :
      Step ⟨[], ⟨role, env, .store 0 job next⟩, c⟩ ⟨[job.frame], ⟨role, env, .assign 0 next⟩, c⟩
  | assign {role env next fs c} :
      Step ⟨fs, ⟨role, env, .assign 0 next⟩, c⟩ ⟨fs, ⟨role, env, .run next⟩, c⟩
  | inline {role env j job next fs o c} :
      Step ⟨⟨role, env, .scan j job next⟩ :: fs, o, c⟩
        ⟨job.frame :: ⟨role, env, .run next⟩ :: fs, o, c⟩
  | ends {f d fs o c c'} : Ends f c d c' → Step ⟨f :: fs, o, c⟩ ⟨fs, o, c'⟩

/-- All frames of a line, the one from outside last. -/
def Line.all (x : Line σ ρ) : List (Frame σ ρ) := x.work ++ [x.outer]

namespace Machine

/-- The line of a machine with one worker and one thread from outside. -/
def Lines (m : Machine σ ρ) (x : Line σ ρ) : Prop :=
  ∃ t slot, m.threads = [t, .outer x.outer] ∧ m.pool.slots = [slot] ∧
    x.work = t.frames ++ slot.task.toList.map Job.frame ∧ x.common = m.common

variable {m m' : Machine σ ρ} {x : Line σ ρ} {t t' : Thread σ ρ} {f o : Frame σ ρ}
  {slot slot' : Slot (Job σ ρ)} {i j : Nat}

theorem Lines.common_eq (hx : m.Lines x) : x.common = m.common := by
  obtain ⟨t, slot, -, -, -, hcommon⟩ := hx
  exact hcommon

theorem getElem?_pair {α : Type} {a b c : α} (h : [a, b][i]? = some c) :
    (i = 0 ∧ c = a) ∨ i = 1 ∧ c = b := by
  match i, h with
  | 0, h => exact .inl ⟨rfl, (Option.some.inj h).symm⟩
  | 1, h => exact .inr ⟨rfl, (Option.some.inj h).symm⟩

theorem getElem?_singleton {α : Type} {a b : α} (h : [a][i]? = some b) : i = 0 ∧ b = a := by
  match i, h with
  | 0, h => exact ⟨rfl, (Option.some.inj h).symm⟩

theorem set_threads (h : m.threads = [t, .outer o]) (t' : Thread σ ρ) :
    m.threads.set 0 t' = [t', .outer o] := by
  rw [h]
  rfl

theorem set_slots (h : m.pool.slots = [slot]) (slot' : Slot (Job σ ρ)) :
    m.pool.slots.set 0 slot' = [slot'] := by
  rw [h]
  rfl

theorem worker_pair (hthreads : m.threads = [t, .outer o]) (h : m.threads[i]? = some t')
    (hworker : ∀ f, t' ≠ .outer f) : i = 0 ∧ t' = t := by
  rw [hthreads] at h
  exact (getElem?_pair h).resolve_right fun houter => hworker o houter.2

/-- A frame that moves is in the line. -/
theorem Lines.top_mem (hx : m.Lines x) (htop : m.top? i = some f) : f ∈ x.all := by
  obtain ⟨t, slot, hthreads, -, hwork, -⟩ := hx
  obtain ⟨t', ht', htop', -⟩ := top?_eq_some htop
  rw [hthreads] at ht'
  rw [Line.all, hwork]
  rcases getElem?_pair ht' with ⟨-, rfl⟩ | ⟨-, rfl⟩
  · exact List.mem_append_left _ (List.mem_append_left _ (Machine.top_mem htop'))
  · cases htop'
    exact List.mem_append_right _ (List.mem_singleton_self _)

/-- Who moves: the worker or the thread from outside. -/
theorem top?_pair (hthreads : m.threads = [t, .outer o]) (hfits : slot.Fits t)
    (htop : m.top? i = some f) :
    (∃ below, i = 0 ∧ t = .work f below ∧ slot.state = .assigned ∧ slot.task = none ∧
      ∀ f', (m.setTop i f').threads = [.work f' below, .outer o]) ∨
    (i = 1 ∧ f = o ∧ ∀ f', (m.setTop i f').threads = [t, .outer f']) := by
  obtain ⟨t', ht', htop', hset⟩ := top?_eq_some htop
  rw [hthreads] at ht'
  rcases getElem?_pair ht' with ⟨rfl, rfl⟩ | ⟨rfl, rfl⟩
  · cases t' with
    | work top below =>
      cases htop'
      refine .inl ⟨below, rfl, rfl, hfits.1, hfits.2, fun f' => ?_⟩
      rw [setTop, hset, hthreads]
      rfl
    | outer => exact hfits.elim
    | _ => cases htop'
  · cases htop'
    refine .inr ⟨rfl, rfl, fun f' => ?_⟩
    rw [setTop, hset, hthreads]
    rfl

/-- **What a step does to the line.** -/
theorem Step.line (h : m.Step m') (hsound : Sound m.pool m.threads) (hx : m.Lines x) :
    ∃ x', m'.Lines x' ∧ Line.Step x x' := by
  obtain ⟨t, slot, hthreads, hslots, hwork, hcommon⟩ := hx
  obtain ⟨work, o, c⟩ := x
  dsimp only at hthreads hwork hcommon
  subst hwork hcommon
  have hfits : slot.Fits t := hsound.fits_of (i := 0) (by rw [hthreads]; rfl) (by rw [hslots]; rfl)
  -- a thread that has claimed the slot is not the worker, and the line is empty
  have hclaimed : ∀ {i j f b}, m.top? i = some f → f.point.claim? = some (j, b) →
      m.pool.slots[j]? = some slot → i = 1 ∧ f = o ∧ slot.task.isSome = b ∧ t.frames = [] ∧
        ∀ f', (m.setTop i f').threads = [t, .outer f'] := by
    intro i j f b htop hclaim hslot
    obtain ⟨t', ht', htop', -⟩ := top?_eq_some htop
    obtain ⟨hstate, htask⟩ :=
      Slot.claim?_eq_some_iff.1 (hsound.claim?_of_top ht' htop' hclaim hslot)
    rcases top?_pair hthreads hfits htop with ⟨below, -, -, hassigned, -⟩ | ⟨hi, hf, hset⟩
    · cases hstate.symm.trans hassigned
    · refine ⟨hi, hf, htask, ?_, hset⟩
      cases t with
      | look | quit | gone => rfl
      | outer => exact hfits.elim
      | _ => cases hstate.symm.trans hfits.1
  cases h with
  | @advance i f f' c htop hadvance =>
    rcases top?_pair hthreads hfits htop with ⟨below, rfl, rfl, -, htask, hset⟩ | ⟨rfl, rfl, hset⟩
    · refine ⟨⟨f' :: below, o, _⟩, ⟨_, slot, hset _, hslots, ?_, rfl⟩, ?_⟩
      · simp [Thread.frames, htask]
      · simp only [Thread.frames, htask, Option.toList_none, List.map_nil, List.append_nil]
        exact .work hadvance
    · exact ⟨⟨_, _, _⟩, ⟨t, slot, hset _, hslots, rfl, rfl⟩, .outer hadvance⟩
  | @pass i role env j job next slot' htop hslot hne =>
    rcases top?_pair hthreads hfits htop with ⟨below, rfl, rfl, -, htask, hset⟩ | ⟨rfl, rfl, hset⟩
    · refine ⟨⟨⟨role, env, .scan (j + 1) job next⟩ :: below, o, _⟩,
        ⟨_, slot, hset _, hslots, ?_, rfl⟩, ?_⟩
      · simp [Thread.frames, htask]
      · simp only [Thread.frames, htask, Option.toList_none, List.map_nil, List.append_nil]
        exact .scanWork
    · exact ⟨⟨_, _, _⟩, ⟨t, slot, hset _, hslots, rfl, rfl⟩, .scanOuter⟩
  | @claim i role env j job next slot' htop hslot hidle =>
    rw [hslots] at hslot
    obtain ⟨rfl, rfl⟩ := getElem?_singleton hslot
    rcases top?_pair hthreads hfits htop with ⟨below, -, -, hassigned, -⟩ | ⟨rfl, rfl, hset⟩
    · cases hidle.symm.trans hassigned
    have hframes : t.frames = [] := by
      cases t with
      | look | quit | gone => rfl
      | outer => exact hfits.elim
      | _ => cases hidle.symm.trans hfits.1
    have htask := hfits.task_eq_none hidle
    refine ⟨⟨[], ⟨role, env, .store 0 job next⟩, m.common⟩,
      ⟨t, { slot' with state := .claimed }, hset _, ?_, ?_, rfl⟩, ?_⟩
    · exact set_slots hslots _
    · rw [hframes, htask]
      rfl
    · rw [hframes, htask]
      exact .claim
  | @rescan i role env j job next hthread hslot =>
    rcases top?_pair hthreads hfits (top?_of_outer hthread) with
      ⟨below, rfl, rfl, -, -, -⟩ | ⟨rfl, rfl, hset⟩
    · rw [hthreads] at hthread
      cases hthread
    · exact ⟨⟨_, _, _⟩, ⟨t, slot, hset _, hslots, rfl, rfl⟩, .scanOuter⟩
  | @inline i role env j job next below hthread hslot =>
    obtain ⟨rfl, rfl⟩ := worker_pair hthreads hthread fun _ heq => by cases heq
    refine ⟨⟨job.frame :: ⟨role, env, .run next⟩ :: below, o, m.common⟩,
      ⟨.work job.frame (⟨role, env, .run next⟩ :: below), slot, set_threads hthreads _, hslots,
        ?_, rfl⟩, ?_⟩
    · rw [hfits.2]
      simp [Thread.frames]
    · rw [hfits.2]
      simp only [Thread.frames, Option.toList_none, List.map_nil, List.append_nil]
      exact .inline
  | @put i role env j job next slot' htop hslot =>
    have hslot' := hslot
    rw [hslots] at hslot'
    obtain ⟨rfl, rfl⟩ := getElem?_singleton hslot'
    obtain ⟨rfl, rfl, htask, hframes, hset⟩ := hclaimed htop rfl hslot
    simp only [Option.isSome_eq_false_iff, Option.isNone_iff_eq_none] at htask
    refine ⟨⟨[job.frame], ⟨role, env, .assign 0 next⟩, m.common⟩,
      ⟨t, { slot' with task := some job }, hset _, ?_, ?_, rfl⟩, ?_⟩
    · exact set_slots hslots _
    · rw [hframes]
      rfl
    · rw [hframes, htask]
      exact .put
  | @assign i role env j next slot' htop hslot =>
    have hslot' := hslot
    rw [hslots] at hslot'
    obtain ⟨rfl, rfl⟩ := getElem?_singleton hslot'
    obtain ⟨rfl, rfl, -, -, hset⟩ := hclaimed htop rfl hslot
    exact ⟨⟨t.frames ++ slot'.task.toList.map Job.frame, ⟨role, env, .run next⟩, m.common⟩,
      ⟨t, { slot' with state := .assigned }, hset _, set_slots hslots _, rfl, rfl⟩, .assign⟩
  | @take i slot' job hthread hslot htask =>
    obtain ⟨rfl, rfl⟩ := worker_pair hthreads hthread fun _ heq => by cases heq
    rw [hslots] at hslot
    obtain ⟨-, rfl⟩ := getElem?_singleton hslot
    refine ⟨⟨_, o, m.common⟩,
      ⟨.work job.frame [], { slot' with task := none }, ?_, ?_, ?_, rfl⟩, .stay⟩
    · exact set_threads hthreads _
    · exact set_slots hslots _
    · rw [htask]
      rfl
  | @back i f g below d c hthread hends =>
    obtain ⟨rfl, rfl⟩ := worker_pair hthreads hthread fun _ heq => by cases heq
    refine ⟨⟨g :: below, o, c⟩, ⟨.work g below, slot, ?_, hslots, ?_, rfl⟩, ?_⟩
    · exact set_threads hthreads _
    · rw [hfits.2]
      simp [Thread.frames]
    · rw [hfits.2]
      simp only [Thread.frames, Option.toList_none, List.map_nil, List.append_nil]
      exact .ends hends
  | @finish i f d c hthread hends =>
    obtain ⟨rfl, rfl⟩ := worker_pair hthreads hthread fun _ heq => by cases heq
    refine ⟨⟨[], o, c⟩, ⟨.reset, slot, ?_, hslots, ?_, rfl⟩, ?_⟩
    · exact set_threads hthreads _
    · rw [hfits.2]
      rfl
    · rw [hfits.2]
      exact .ends hends
  | @reset i slot' hthread hslot =>
    obtain ⟨rfl, rfl⟩ := worker_pair hthreads hthread fun _ heq => by cases heq
    rw [hslots] at hslot
    obtain ⟨-, rfl⟩ := getElem?_singleton hslot
    exact ⟨⟨_, o, m.common⟩, ⟨.look, { slot' with state := .idle }, set_threads hthreads _,
      set_slots hslots _, rfl, rfl⟩, .stay⟩
  | look hthread | miss hthread | glance hthread | stay hthread | exit hthread =>
    obtain ⟨rfl, rfl⟩ := worker_pair hthreads hthread fun _ heq => by cases heq
    exact ⟨⟨_, o, m.common⟩, ⟨_, slot, set_threads hthreads _, hslots, rfl, rfl⟩, .stay⟩
  | shut => exact ⟨⟨_, o, m.common⟩, ⟨t, slot, hthreads, hslots, rfl, rfl⟩, .stay⟩

end Machine

end TickEngine
