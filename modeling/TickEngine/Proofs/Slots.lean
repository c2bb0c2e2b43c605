/-
  Slots, and the threads that use them.

  The state of a slot says where its worker is (`Slot.Fits`), and whether a
  thread has claimed it (`Slot.claim?`).  That it says the truth is what makes
  a machine `Sound`; every step keeps it so (`Machine.Step.sound`).
-/
import TickEngine.Proofs.Crew

namespace TickEngine

variable {σ ρ : Type}

/-! ## What slots say -/

namespace Slot

/-- The slot fits where its worker is.  One that is about to leave, or has
    left, does not see what becomes of its slot. -/
def Fits (slot : Slot (Job σ ρ)) : Thread σ ρ → Prop
  | .look | .quit | .gone =>
    (slot.state = .idle → slot.task = none) ∧ (slot.state = .assigned → slot.task.isSome)
  | .take => slot.state = .assigned ∧ slot.task.isSome
  | .work _ _ | .reset => slot.state = .assigned ∧ slot.task = none
  | .outer _ => False

/-- Whether a claimed slot is filled. -/
def claim? (slot : Slot (Job σ ρ)) : Option Bool :=
  if slot.state = .claimed then some slot.task.isSome else none

theorem claim?_eq_some_iff {slot : Slot (Job σ ρ)} {b : Bool} :
    slot.claim? = some b ↔ slot.state = .claimed ∧ slot.task.isSome = b := by
  simp [claim?]

theorem Fits.task_eq_none {slot : Slot (Job σ ρ)} {t : Thread σ ρ} (h : slot.Fits t)
    (hidle : slot.state = .idle) : slot.task = none := by
  cases t with
  | look | quit | gone => exact h.1 hidle
  | take => exact nomatch hidle.symm.trans h.1
  | work | reset => exact h.2
  | outer => exact h.elim

theorem fits_withTop {slot : Slot (Job σ ρ)} {t : Thread σ ρ} (h : slot.Fits t) (f : Frame σ ρ) :
    slot.Fits (t.withTop f) := by
  cases t <;> exact h

end Slot

/-- The slot that a thread has claimed, and whether it has filled it. -/
def Point.claim? : Point σ ρ → Option (Nat × Bool)
  | .store j _ _ => some (j, false)
  | .assign j _ => some (j, true)
  | _ => none

/-- The number of frames with that claim. -/
def Thread.claims (claim : Nat × Bool) (fs : Multiset (Frame σ ρ)) : Nat :=
  fs.countP fun f => f.point.claim? = some claim

theorem Thread.claims_cons_of_none {p : Nat × Bool} {f : Frame σ ρ} (h : f.point.claim? = none)
    (fs : List (Frame σ ρ)) :
    claims p ((f :: fs : List (Frame σ ρ)) : Multiset (Frame σ ρ)) =
      claims p (fs : Multiset (Frame σ ρ)) := by
  rw [claims, ← Multiset.cons_coe, Multiset.countP_cons_of_neg]
  · rfl
  · rw [h]
    nofun

/-- Threads from outside run codes of their own, and workers run tasks. -/
def Thread.Cast : Thread σ ρ → Prop
  | .work top below => ∀ f ∈ top :: below, f.role ≠ .outer
  | .outer top => top.role = .outer
  | _ => True

/-- Each slot has a worker, and says where that is and who has claimed the
    slot. -/
structure Sound (pool : Pool (Job σ ρ)) (threads : List (Thread σ ρ)) : Prop where
  fits : ∀ {k : Nat} {slot : Slot (Job σ ρ)}, pool.slots[k]? = some slot →
    ∃ t, threads[k]? = some t ∧ slot.Fits t
  outside : ∀ {k : Nat} {t : Thread σ ρ}, threads[k]? = some t → pool.slots[k]? = none →
    ∃ f, t = .outer f
  cast : ∀ t ∈ threads, t.Cast
  claims : ∀ {k : Nat} {slot : Slot (Job σ ρ)} {b : Bool}, pool.slots[k]? = some slot →
    Thread.claims (k, b) (Thread.crew threads) = if slot.claim? = some b then 1 else 0
  left : .gone ∈ threads → pool.running = false
  quiet : pool.running = false → (∀ f ∈ Thread.crew threads, f.point.Quiet) ∧
    ∀ slot ∈ pool.slots, ∀ job, slot.task = some job → job.code.Quiet

namespace Sound

variable {pool : Pool (Job σ ρ)} {threads : List (Thread σ ρ)} {i j : Nat} {t t' : Thread σ ρ}
  {f f' : Frame σ ρ} {slot slot' : Slot (Job σ ρ)}

theorem fits_of (h : Sound pool threads) (ht : threads[i]? = some t)
    (hslot : pool.slots[i]? = some slot) : slot.Fits t := by
  obtain ⟨t', ht', hfits⟩ := h.fits hslot
  rw [ht] at ht'
  cases ht'
  exact hfits

/-- A worker has a slot. -/
theorem slot_of_worker (h : Sound pool threads) (ht : threads[i]? = some t)
    (hworker : ∀ f, t ≠ .outer f) : ∃ slot, pool.slots[i]? = some slot ∧ slot.Fits t := by
  cases hslot : pool.slots[i]? with
  | none =>
    obtain ⟨f, rfl⟩ := h.outside ht hslot
    exact absurd rfl (hworker f)
  | some slot => exact ⟨slot, rfl, h.fits_of ht hslot⟩

theorem quiet_of_mem (h : Sound pool threads) (hrun : pool.running = false)
    (ht : threads[i]? = some t) (hf : f ∈ t.frames) : f.point.Quiet :=
  (h.quiet hrun).1 f (Thread.mem_crew.2 ⟨t, List.mem_of_getElem? ht, hf⟩)

/-- While something is left to do that needs a handle, the pool is in use. -/
theorem running_of_not_quiet (h : Sound pool threads) (hf : f ∈ Thread.crew threads)
    (hnot : ¬ f.point.Quiet) : pool.running = true := by
  by_contra hrun
  exact hnot ((h.quiet (Bool.eq_false_iff.2 hrun)).1 f hf)

/-- Some thread has claimed a claimed slot. -/
theorem claimer (h : Sound pool threads) (hslot : pool.slots[i]? = some slot)
    (hclaimed : slot.state = .claimed) :
    ∃ f ∈ Thread.crew threads, f.point.claim? = some (i, slot.task.isSome) := by
  have hcount := h.claims (b := slot.task.isSome) hslot
  rw [if_pos (Slot.claim?_eq_some_iff.2 ⟨hclaimed, rfl⟩)] at hcount
  exact Multiset.countP_pos.1 (Nat.lt_of_lt_of_eq Nat.zero_lt_one hcount.symm)

/-- No slot is claimed when the pool is given up. -/
theorem not_claimed (h : Sound pool threads) (hrun : pool.running = false)
    (hslot : pool.slots[i]? = some slot) : slot.state ≠ .claimed := by
  intro hclaimed
  obtain ⟨f, hf, hclaim⟩ := h.claimer hslot hclaimed
  have hquiet := (h.quiet hrun).1 f hf
  obtain ⟨role, env, p⟩ := f
  cases p with
  | store | assign => exact hquiet.elim
  | _ => cases hclaim

/-- A claim is on a slot that says so. -/
theorem claim?_of_top (h : Sound pool threads) (ht : threads[i]? = some t)
    (htop : t.top? = some f) {b : Bool} (hf : f.point.claim? = some (j, b))
    (hslot : pool.slots[j]? = some slot) : slot.claim? = some b := by
  obtain ⟨rest, hcrew, -⟩ := Thread.crew_withTop ht htop
  have hcount := h.claims (b := b) hslot
  rw [hcrew, Thread.claims, Multiset.countP_cons, if_pos hf] at hcount
  split at hcount
  · assumption
  · omega

/-- A thread changes, and its slot with it. -/
theorem setThread (h : Sound pool threads) (ht : threads[i]? = some t)
    (hslot : pool.slots[i]? = some slot) (slot' : Slot (Job σ ρ)) (t' : Thread σ ρ)
    (hfits : slot'.Fits t') (hcast : t'.Cast)
    (hclaims : ∀ p, Thread.claims p (t'.frames : Multiset (Frame σ ρ)) =
      Thread.claims p (t.frames : Multiset (Frame σ ρ)))
    (hsame : slot'.claim? = slot.claim?) (hgone : t' = .gone → pool.running = false)
    (hquiet : pool.running = false → (∀ f ∈ t'.frames, f.point.Quiet) ∧
      ∀ job, slot'.task = some job → job.code.Quiet) :
    Sound { pool with slots := pool.slots.set i slot' } (threads.set i t') := by
  obtain ⟨rest, hcrew, hset⟩ := Thread.crew_set ht
  refine ⟨?_, ?_, ?_, ?_, ?_, ?_⟩
  · intro k s hs
    rcases getElem?_set_cases hs with ⟨rfl, rfl⟩ | ⟨hne, hs⟩
    · exact ⟨t', getElem?_set_of_some ht t', hfits⟩
    · obtain ⟨t₁, ht₁, hfits₁⟩ := h.fits hs
      exact ⟨t₁, by rwa [List.getElem?_set_ne hne], hfits₁⟩
  · intro k t₁ ht₁ hk
    rcases getElem?_set_cases ht₁ with ⟨rfl, rfl⟩ | ⟨hne, ht₁⟩
    · rw [getElem?_set_of_some hslot slot'] at hk
      cases hk
    · rw [List.getElem?_set_ne hne] at hk
      exact h.outside ht₁ hk
  · intro t₁ ht₁
    rcases List.mem_or_eq_of_mem_set ht₁ with ht₁ | rfl
    · exact h.cast t₁ ht₁
    · exact hcast
  · intro k s b hs
    have hcount : Thread.claims (k, b) (Thread.crew (threads.set i t')) =
        Thread.claims (k, b) (Thread.crew threads) := by
      rw [hset, hcrew, Thread.claims, Thread.claims, Multiset.countP_add, Multiset.countP_add]
      exact congrArg (· + _) (hclaims (k, b))
    rw [hcount]
    rcases getElem?_set_cases hs with ⟨rfl, rfl⟩ | ⟨-, hs⟩
    · rw [h.claims hslot, hsame]
    · exact h.claims hs
  · intro hmem
    rcases List.mem_or_eq_of_mem_set hmem with hmem | heq
    · exact h.left hmem
    · exact hgone heq.symm
  · intro hrun
    obtain ⟨hall, htasks⟩ := h.quiet hrun
    obtain ⟨hnew, htask⟩ := hquiet hrun
    refine ⟨fun f hf => ?_, fun s hs job hjob => ?_⟩
    · rw [hset, Multiset.mem_add] at hf
      rcases hf with hf | hf
      · exact hnew f hf
      · exact hall f (hcrew ▸ Multiset.mem_add.2 (.inr hf))
    · rcases List.mem_or_eq_of_mem_set hs with hs | rfl
      · exact htasks s hs job hjob
      · exact htask job hjob

/-- A frame moves, and slots with it. -/
theorem setTop (h : Sound pool threads) (ht : threads[i]? = some t) (htop : t.top? = some f)
    (hrole : f'.role = f.role) {slots : List (Slot (Job σ ρ))}
    (hlength : slots.length = pool.slots.length)
    (hslots : ∀ {k : Nat} {slot' : Slot (Job σ ρ)}, slots[k]? = some slot' →
      ∃ slot, pool.slots[k]? = some slot ∧
        (∀ t, threads[k]? = some t → slot.Fits t → slot'.Fits t) ∧
        ∀ b, (if slot'.claim? = some b then 1 else 0) +
            (if f.point.claim? = some (k, b) then 1 else 0) =
          (if slot.claim? = some b then 1 else 0) +
            if f'.point.claim? = some (k, b) then 1 else 0)
    (hquiet : f.point.Quiet → f'.point.Quiet ∧ slots = pool.slots) :
    Sound { pool with slots } (threads.set i (t.withTop f')) := by
  obtain ⟨rest, hcrew, hset⟩ := Thread.crew_withTop ht htop
  refine ⟨?_, ?_, ?_, ?_, ?_, ?_⟩
  · intro k slot' hslot'
    obtain ⟨slot, hslot, hfits, -⟩ := hslots hslot'
    obtain ⟨t₁, ht₁, hfits₁⟩ := h.fits hslot
    by_cases hik : i = k
    · subst hik
      obtain rfl := Option.some.inj (ht₁.symm.trans ht)
      exact ⟨_, getElem?_set_of_some ht _, Slot.fits_withTop (hfits _ ht₁ hfits₁) f'⟩
    · exact ⟨t₁, by rwa [List.getElem?_set_ne hik], hfits _ ht₁ hfits₁⟩
  · intro k t₁ ht₁ hk
    have hk' : pool.slots[k]? = none := by
      rw [List.getElem?_eq_none_iff] at hk ⊢
      exact hlength ▸ hk
    rcases getElem?_set_cases ht₁ with ⟨rfl, rfl⟩ | ⟨-, ht₁⟩
    · obtain ⟨f₁, rfl⟩ := h.outside ht hk'
      exact ⟨f', rfl⟩
    · exact h.outside ht₁ hk'
  · intro t₁ ht₁
    rcases List.mem_or_eq_of_mem_set ht₁ with ht₁ | rfl
    · exact h.cast t₁ ht₁
    · have hcast := h.cast t (List.mem_of_getElem? ht)
      cases t with
      | work top below =>
        cases htop
        exact List.forall_mem_cons.2 ⟨hrole ▸ (List.forall_mem_cons.1 hcast).1,
          (List.forall_mem_cons.1 hcast).2⟩
      | outer top =>
        cases htop
        exact hrole.trans hcast
      | _ => cases htop
  · intro k slot' b hslot'
    obtain ⟨slot, hslot, -, hclaim⟩ := hslots hslot'
    have hcount := h.claims (b := b) hslot
    have hchange := hclaim b
    rw [hcrew, Thread.claims, Multiset.countP_cons] at hcount
    rw [hset, Thread.claims, Multiset.countP_cons]
    omega
  · intro hmem
    rcases List.mem_or_eq_of_mem_set hmem with hmem | heq
    · exact h.left hmem
    · cases t <;> cases heq
      cases htop
  · intro hrun
    obtain ⟨hall, htasks⟩ := h.quiet hrun
    rw [hcrew] at hall
    obtain ⟨hf, hrest⟩ := Multiset.forall_mem_cons.1 hall
    obtain ⟨hf', hsame⟩ := hquiet hf
    rw [hset]
    exact ⟨Multiset.forall_mem_cons.2 ⟨hf', hrest⟩, fun slot hslot => htasks slot (hsame ▸ hslot)⟩

end Sound

/-! ## Steps -/

section Steps

variable {f f' : Frame σ ρ} {c c' : Common σ ρ} {d : Nat × Option Nat}

theorem Advance.role_eq (h : Advance f c f' c') : f'.role = f.role := by
  cases h <;> rfl

theorem Advance.claim?_eq_none (h : Advance f c f' c') :
    f.point.claim? = none ∧ f'.point.claim? = none := by
  cases h <;> exact ⟨rfl, rfl⟩

/-- What needs no handle of the pool stays so. -/
theorem Advance.quiet (h : Advance f c f' c') (hf : f.point.Quiet) : f'.point.Quiet := by
  cases h with
  | act => exact hf _
  | opens => exact hf
  | post | hand | check | reclaim => exact hf.elim
  | settle | leave => trivial

theorem Ends.claim?_eq_none (h : Ends f c d c') : f.point.claim? = none := by
  cases h <;> rfl

namespace Machine

variable {m m' : Machine σ ρ} {i j : Nat}

theorem top_mem {t : Thread σ ρ} (h : t.top? = some f) : f ∈ t.frames := by
  obtain ⟨below, hframes, -⟩ := Thread.frames_withTop h
  exact hframes ▸ List.mem_cons_self

theorem top?_of_outer (h : m.threads[i]? = some (.outer f)) : m.top? i = some f := by
  rw [top?, h]
  rfl

/-- A frame without a claim moves, and has none after it. -/
theorem sound_setTop (h : Sound m.pool m.threads) (htop : m.top? i = some f)
    (hrole : f'.role = f.role) (hclaim : f.point.claim? = none ∧ f'.point.claim? = none)
    (hquiet : f.point.Quiet → f'.point.Quiet) :
    Sound (m.setTop i f').pool (m.setTop i f').threads := by
  obtain ⟨t, ht, htop, hset⟩ := top?_eq_some htop
  rw [setTop, hset]
  refine h.setTop ht htop hrole rfl (fun hslot => ⟨_, hslot, fun _ _ hfits => hfits, ?_⟩)
    fun hf => ⟨hquiet hf, rfl⟩
  simp [hclaim.1, hclaim.2]

/-- A thread that is placing a task changes a slot. -/
theorem sound_setTop_setSlot (h : Sound m.pool m.threads) (htop : m.top? i = some f)
    (f' : Frame σ ρ) (hrole : f'.role = f.role) {slot slot' : Slot (Job σ ρ)}
    (hslot : m.pool.slots[j]? = some slot)
    (hfits : ∀ t, m.threads[j]? = some t → slot.Fits t → slot'.Fits t)
    (hclaim : ∀ b, (if slot'.claim? = some b then 1 else 0) +
        (if f.point.claim? = some (j, b) then 1 else 0) =
      (if slot.claim? = some b then 1 else 0) + if f'.point.claim? = some (j, b) then 1 else 0)
    (hother : ∀ k b, k ≠ j → f.point.claim? ≠ some (k, b) ∧ f'.point.claim? ≠ some (k, b))
    (hquiet : ¬ f.point.Quiet) :
    Sound ((m.setTop i f').setSlot j slot').pool ((m.setTop i f').setSlot j slot').threads := by
  obtain ⟨t, ht, htop, hset⟩ := top?_eq_some htop
  simp only [setSlot, setTop, hset]
  refine h.setTop ht htop hrole (by simp) (fun {k slot₁} hslot₁ => ?_) fun hf => (hquiet hf).elim
  rcases getElem?_set_cases hslot₁ with ⟨rfl, rfl⟩ | ⟨hne, hslot₁⟩
  · exact ⟨slot, hslot, hfits, hclaim⟩
  · refine ⟨slot₁, hslot₁, fun _ _ hfits => hfits, fun b => ?_⟩
    obtain ⟨hf, hf'⟩ := hother k b (Ne.symm hne)
    simp [hf, hf']

/-- A thread changes, and its slot stays. -/
theorem sound_setThread (h : Sound m.pool m.threads) {t t' : Thread σ ρ}
    (ht : m.threads[i]? = some t) {slot : Slot (Job σ ρ)} (hslot : m.pool.slots[i]? = some slot)
    (hfits : slot.Fits t') (hcast : t'.Cast)
    (hclaims : ∀ p, Thread.claims p (t'.frames : Multiset (Frame σ ρ)) =
      Thread.claims p (t.frames : Multiset (Frame σ ρ)))
    (hgone : t' = .gone → m.pool.running = false)
    (hquiet : m.pool.running = false → ∀ f ∈ t'.frames, f.point.Quiet) :
    Sound (m.setThread i t').pool (m.setThread i t').threads := by
  have hsame : m.pool.slots.set i slot = m.pool.slots := by
    obtain ⟨hlt, rfl⟩ := List.getElem?_eq_some_iff.1 hslot
    exact List.set_getElem_self hlt
  have hsound := h.setThread ht hslot slot t' hfits hcast hclaims rfl hgone fun hrun =>
    ⟨hquiet hrun, (h.quiet hrun).2 slot (List.mem_of_getElem? hslot)⟩
  rw [hsame] at hsound
  exact hsound

/-- **Every step keeps what slots say true.** -/
theorem Step.sound (hstep : m.Step m') (h : Sound m.pool m.threads) :
    Sound m'.pool m'.threads := by
  cases hstep with
  | advance htop hadvance =>
    exact sound_setTop h htop hadvance.role_eq hadvance.claim?_eq_none hadvance.quiet
  | pass htop => exact sound_setTop h htop rfl ⟨rfl, rfl⟩ False.elim
  | @claim i role env j job next slot htop hslot hidle =>
    obtain ⟨t₁, -, hfits₁⟩ := h.fits hslot
    have htask := hfits₁.task_eq_none hidle
    refine sound_setTop_setSlot h htop ⟨role, env, .store j job next⟩ rfl hslot ?_ ?_ ?_ id
    · intro t₂ ht₂ hfits
      cases t₂ with
      | look | quit | gone => exact ⟨nofun, nofun⟩
      | outer => exact hfits
      | _ => exact nomatch hidle.symm.trans hfits.1
    · intro b
      cases b <;> simp [Slot.claim?, Point.claim?, hidle, htask]
    · intro k b hk
      simp [Point.claim?, Ne.symm hk]
  | rescan hthread =>
    exact sound_setTop h (top?_of_outer hthread) rfl ⟨rfl, rfl⟩ False.elim
  | @inline i role env j job next below hthread =>
    obtain ⟨slot, hslot, hfits⟩ := h.slot_of_worker hthread nofun
    have hcast := h.cast _ (List.mem_of_getElem? hthread)
    refine sound_setThread h hthread hslot hfits ?_ ?_ nofun ?_
    · obtain ⟨htop, hbelow⟩ := List.forall_mem_cons.1 hcast
      exact List.forall_mem_cons.2 ⟨nofun, List.forall_mem_cons.2 ⟨htop, hbelow⟩⟩
    · intro p
      rw [Thread.frames, Thread.frames, Thread.claims_cons_of_none rfl,
        Thread.claims_cons_of_none rfl, Thread.claims_cons_of_none rfl]
    · exact fun hrun => (h.quiet_of_mem hrun hthread List.mem_cons_self).elim
  | @put i role env j job next slot htop hslot =>
    obtain ⟨t, ht, htop', -⟩ := top?_eq_some htop
    obtain ⟨hclaimed, htask⟩ := Slot.claim?_eq_some_iff.1 (h.claim?_of_top ht htop' rfl hslot)
    refine sound_setTop_setSlot h htop ⟨role, env, .assign j next⟩ rfl hslot ?_ ?_ ?_ id
    · intro t₂ _ hfits
      cases t₂ with
      | look | quit | gone => exact ⟨fun hidle => (nomatch hclaimed.symm.trans hidle), fun _ => rfl⟩
      | outer => exact hfits
      | _ => exact nomatch hclaimed.symm.trans hfits.1
    · intro b
      cases b <;> simp [Slot.claim?, Point.claim?, hclaimed, htask]
    · intro k b hk
      simp [Point.claim?, Ne.symm hk]
  | @assign i role env j next slot htop hslot =>
    obtain ⟨t, ht, htop', -⟩ := top?_eq_some htop
    obtain ⟨hclaimed, htask⟩ := Slot.claim?_eq_some_iff.1 (h.claim?_of_top ht htop' rfl hslot)
    refine sound_setTop_setSlot h htop ⟨role, env, .run next⟩ rfl hslot ?_ ?_ ?_ id
    · intro t₂ _ hfits
      cases t₂ with
      | look | quit | gone => exact ⟨nofun, fun _ => htask⟩
      | outer => exact hfits
      | _ => exact nomatch hclaimed.symm.trans hfits.1
    · intro b
      cases b <;> simp [Slot.claim?, Point.claim?, hclaimed, htask]
    · intro k b hk
      simp [Point.claim?, Ne.symm hk]
  | @look i slot ht hslot hassigned =>
    have hfits := h.fits_of ht hslot
    exact sound_setThread h ht hslot ⟨hassigned, hfits.2 hassigned⟩ trivial (fun _ => rfl) nofun
      fun _ => nofun
  | @take i slot job ht hslot htask =>
    have hfits := h.fits_of ht hslot
    refine h.setThread ht hslot { slot with task := none } (.work job.frame [])
      ⟨hfits.1, rfl⟩ ?_ ?_ ?_ nofun ?_
    · exact List.forall_mem_singleton.2 nofun
    · exact fun p => Thread.claims_cons_of_none rfl []
    · simp [Slot.claim?, hfits.1]
    · intro hrun
      refine ⟨List.forall_mem_singleton.2 ?_, nofun⟩
      exact (h.quiet hrun).2 slot (List.mem_of_getElem? hslot) job htask
  | @miss i slot ht hslot htask =>
    have hfits := h.fits_of ht hslot
    rw [Slot.Fits, htask] at hfits
    cases hfits.2
  | @back i f g below d c hthread hends =>
    obtain ⟨slot, hslot, hfits⟩ := h.slot_of_worker hthread nofun
    have hcast := h.cast _ (List.mem_of_getElem? hthread)
    refine sound_setThread h hthread hslot hfits ?_ ?_ nofun ?_
    · exact (List.forall_mem_cons.1 hcast).2
    · exact fun p => (Thread.claims_cons_of_none hends.claim?_eq_none _).symm
    · exact fun hrun f' hf' => h.quiet_of_mem hrun hthread (List.mem_cons_of_mem f hf')
  | @finish i f d c hthread hends =>
    obtain ⟨slot, hslot, hfits⟩ := h.slot_of_worker hthread nofun
    exact sound_setThread h hthread hslot hfits trivial
      (fun p => (Thread.claims_cons_of_none hends.claim?_eq_none []).symm) nofun fun _ => nofun
  | @reset i slot ht hslot =>
    have hfits := h.fits_of ht hslot
    refine h.setThread ht hslot { slot with state := .idle } .look
      ⟨fun _ => hfits.2, nofun⟩ trivial (fun _ => rfl) ?_ nofun ?_
    · simp [Slot.claim?, hfits.1]
    · exact fun hrun => ⟨nofun, (h.quiet hrun).2 slot (List.mem_of_getElem? hslot)⟩
  | @glance i slot ht hslot =>
    exact sound_setThread h ht hslot (h.fits_of ht hslot :) trivial (fun _ => rfl) nofun
      fun _ => nofun
  | stay ht =>
    obtain ⟨slot, hslot, hfits⟩ := h.slot_of_worker ht nofun
    exact sound_setThread h ht hslot (hfits :) trivial (fun _ => rfl) nofun fun _ => nofun
  | exit ht hrun =>
    obtain ⟨slot, hslot, hfits⟩ := h.slot_of_worker ht nofun
    exact sound_setThread h ht hslot (hfits :) trivial (fun _ => rfl) (fun _ => hrun)
      fun _ => nofun
  | shut hquiet =>
    refine ⟨h.fits, h.outside, h.cast, h.claims, fun _ => rfl, fun _ => ⟨?_, hquiet.2⟩⟩
    intro f hf
    obtain ⟨t, ht, hf⟩ := Thread.mem_crew.1 hf
    exact hquiet.1 t ht f hf

/-! ### Before the first step -/

variable {workers : Nat} {shared : σ} {codes : List (Code σ ρ)}

theorem mem_threads_start {t : Thread σ ρ} (h : t ∈ (start workers shared codes).threads) :
    t = .look ∨ ∃ code, t = .outer ⟨.outer, .empty, .run code⟩ := by
  rcases List.mem_append.1 h with h | h
  · exact .inl (List.eq_of_mem_replicate h)
  · obtain ⟨code, -, rfl⟩ := List.mem_map.1 h
    exact .inr ⟨code, rfl⟩

theorem mem_crew_start (h : f ∈ Thread.crew (start workers shared codes).threads) :
    ∃ code, f = ⟨.outer, .empty, .run code⟩ := by
  obtain ⟨t, ht, hf⟩ := Thread.mem_crew.1 h
  rcases mem_threads_start ht with rfl | ⟨code, rfl⟩
  · cases hf
  · exact ⟨code, List.mem_singleton.1 hf⟩

theorem getElem?_slots_start {k : Nat} {slot : Slot (Job σ ρ)}
    (h : (start workers shared codes).pool.slots[k]? = some slot) :
    k < max workers 1 ∧ slot = {} := by
  obtain ⟨hlt, heq⟩ := List.getElem?_eq_some_iff.1 h
  have hlength : (start workers shared codes).pool.slots.length = max workers 1 :=
    List.length_replicate
  exact ⟨hlength ▸ hlt, heq ▸ List.getElem_replicate _⟩

theorem sound_start (workers : Nat) (shared : σ) (codes : List (Code σ ρ)) :
    Sound (start workers shared codes).pool (start workers shared codes).threads where
  fits h := by
    obtain ⟨hlt, rfl⟩ := getElem?_slots_start h
    refine ⟨.look, ?_, fun _ => rfl, nofun⟩
    rw [start, List.getElem?_append_left (by simpa [Pool.new, Pool.workerCount] using hlt),
      List.getElem?_replicate_of_lt (by simpa [Pool.new, Pool.workerCount] using hlt)]
  outside {k t} ht hk := by
    have hle : (Pool.new workers : Pool (Job σ ρ)).workerCount ≤ k :=
      List.getElem?_eq_none_iff.1 hk
    rw [start, List.getElem?_append_right (by simpa using hle)] at ht
    obtain ⟨code, -, rfl⟩ := List.mem_map.1 (List.mem_of_getElem? ht)
    exact ⟨_, rfl⟩
  cast t ht := by
    rcases mem_threads_start ht with rfl | ⟨code, rfl⟩
    · trivial
    · rfl
  claims {k slot b} h := by
    obtain ⟨-, rfl⟩ := getElem?_slots_start h
    refine Multiset.countP_eq_zero.2 fun f hf => ?_
    obtain ⟨code, rfl⟩ := mem_crew_start hf
    nofun
  left h := by
    rcases mem_threads_start h with h | ⟨code, h⟩ <;> cases h
  quiet := nofun

/-- Some steps lead from one machine to the other. -/
def Reaches (m m' : Machine σ ρ) : Prop := Relation.ReflTransGen Step m m'

theorem Reaches.sound (h : m.Reaches m') (hm : Sound m.pool m.threads) :
    Sound m'.pool m'.threads := by
  induction h with
  | refl => exact hm
  | tail _ hstep ih => exact hstep.sound ih

end Machine

end Steps

end TickEngine
