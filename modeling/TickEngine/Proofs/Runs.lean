/-
  How many ticks a run has.

  A run goes on as long as its ticks succeed, nobody asks for an exit, and its
  limit is not reached (`Engine.Lasts`); it ends at once if an exit was asked for
  before, and otherwise after the first tick that breaks this (`Engine.Ends`).
  Nothing that is done to an engine takes back the wish to exit.

  * `Engine.Later.runs_out`: the answer and the engine of every run, now or later.
-/
import TickEngine.Proofs.Ticks

namespace TickEngine.Engine

variable {σ : Type} {trees : Pipeline σ → Prop} {g g' g'' : Engine σ}

/-! ## What nothing takes back -/

/-- The configuration is the same, and so is a wish to exit. -/
structure Keeps (g g' : Engine σ) : Prop where
  config : g'.config = g.config
  exit : g.exitRequested = true → g'.exitRequested = true

theorem Keeps.refl (g : Engine σ) : g.Keeps g := ⟨rfl, id⟩

theorem Keeps.trans (h : g.Keeps g') (h' : g'.Keeps g'') : g.Keeps g'' :=
  ⟨h'.config.trans h.config, fun hexit => h'.exit (h.exit hexit)⟩

theorem Performs.keeps (h : Performs g g') : g.Keeps g' := by
  cases h with
  | nothing => exact .refl g
  | spawn cs =>
    unfold spawnComponents
    split <;> exact ⟨rfl, id⟩
  | despawn e =>
    unfold Engine.despawn
    split <;> exact ⟨rfl, id⟩
  | insert e c =>
    unfold insertComponent
    split <;> exact ⟨rfl, id⟩
  | remove e t =>
    unfold removeComponent
    split <;> exact ⟨rfl, id⟩
  | replace e c => exact ⟨rfl, id⟩
  | exit => exact ⟨rfl, fun _ => rfl⟩

theorem keeps_runSystems (g : Engine σ) (dt : Double) : g.Keeps (g.runSystems dt).2 := by
  unfold runSystems
  split <;> exact ⟨rfl, id⟩

theorem keeps_runTick (g : Engine σ) (dt : Double) : g.Keeps (g.runTick dt).2 :=
  runTick_induction (fun c g' h => h.trans (performs_apply c g').keeps) g dt (keeps_runSystems g dt)

theorem Step.keeps (h : Step trees g g') : g.Keeps g' := by
  cases h with
  | registerType | write | overwrite | surroundings => exact ⟨rfl, id⟩
  | setRoot p =>
    unfold Engine.setRoot
    split <;> exact ⟨rfl, id⟩
  | spawn cs => exact (Performs.spawn cs).keeps
  | despawn e => exact (Performs.despawn e).keeps
  | insert e c => exact (Performs.insert e c).keeps
  | remove e t => exact (Performs.remove e t).keeps
  | requestExit => exact Performs.exit.keeps
  | runSystems dt => exact keeps_runSystems g dt
  | command c => exact (performs_apply c g).keeps

/-! ## Ticks in a row -/

/-- The engine after the first `n` ticks, whatever they answer. -/
def ticked (dt : Nat → Double) (g : Engine σ) : Nat → Engine σ
  | 0 => g
  | n + 1 => ((ticked dt g n).runTick (dt n)).2

/-- What the tick after the first `n` answers. -/
def answered (dt : Nat → Double) (g : Engine σ) (n : Nat) : Except EngineError Nat :=
  ((g.ticked dt n).runTick (dt n)).1

theorem keeps_ticked (dt : Nat → Double) (g : Engine σ) (n : Nat) : g.Keeps (g.ticked dt n) := by
  induction n with
  | zero => exact .refl g
  | succ n ih => exact ih.trans (keeps_runTick _ _)

theorem tick_ticked (dt : Nat → Double) (g : Engine σ) (n : Nat) :
    (g.ticked dt n).tick = g.tick + .ofNat n := by
  induction n with
  | zero => exact (UInt64.add_zero g.tick).symm
  | succ n ih => rw [ticked, tick_runTick, ih, UInt64.ofNat_add, UInt64.add_assoc]; rfl

/-! ## How a run ends -/

/-- After `n` ticks that succeeded, the run has a reason to end. -/
def Halts (dt : Nat → Double) (g : Engine σ) (n : Nat) : Prop :=
  (g.ticked dt n).exitRequested = true ∨ 0 < g.config.maxTicks ∧ g.config.maxTicks.toNat = n

/-- The first `n` ticks succeed, and after none of them the run has a reason to
    end. -/
def Lasts (dt : Nat → Double) (g : Engine σ) (n : Nat) : Prop :=
  ∀ k < n, (∃ count, g.answered dt k = .ok count) ∧ ¬ g.Halts dt (k + 1)

/-- A run ends after `n` ticks with the answer `r`. -/
inductive Ends (dt : Nat → Double) (g : Engine σ) : Nat → Except RunFailure UInt64 → Prop
  /-- An exit was asked for before. -/
  | atOnce : g.exitRequested = true → Ends dt g 0 (.ok 0)
  /-- The last tick fails. -/
  | failed {n : Nat} {err : EngineError} : g.exitRequested = false → g.Lasts dt n →
      g.answered dt n = .error err → Ends dt g (n + 1) (.error (.error err))
  /-- After the last tick an exit is asked for, or the limit is reached.  The
      answer is the number of ticks. -/
  | halted {n count : Nat} {total : UInt64} : g.exitRequested = false → g.Lasts dt n →
      g.answered dt n = .ok count → g.Halts dt (n + 1) → total.toNat = n + 1 →
      Ends dt g (n + 1) (.ok total)

variable {dt : Nat → Double} {n : Nat} {r : Except RunFailure UInt64}

theorem Lasts.zero : g.Lasts dt 0 := fun _ hk => absurd hk (Nat.not_lt_zero _)

theorem Lasts.of_succ (h : g.Lasts dt (n + 1)) : g.Lasts dt n := fun k hk => h k (by omega)

theorem Lasts.succ {count : Nat} (h : g.Lasts dt n) (hanswer : g.answered dt n = .ok count)
    (hgoes : ¬ g.Halts dt (n + 1)) : g.Lasts dt (n + 1) := by
  intro k hk
  obtain hk | rfl := Nat.lt_succ_iff_lt_or_eq.mp hk
  · exact h k hk
  · exact ⟨⟨count, hanswer⟩, hgoes⟩

theorem Lasts.exitRequested (hexit : g.exitRequested = false) (h : g.Lasts dt n) :
    (g.ticked dt n).exitRequested = false := by
  cases n with
  | zero => exact hexit
  | succ n => exact Bool.eq_false_iff.mpr fun hasked => (h n n.lt_succ_self).2 (.inl hasked)

theorem Lasts.lt_maxTicks (h : g.Lasts dt n) (hm : 0 < g.config.maxTicks) :
    n < g.config.maxTicks.toNat := by
  induction n with
  | zero => exact UInt64.lt_iff_toNat_lt.mp hm
  | succ n ih =>
    have hn := ih h.of_succ
    have hne : g.config.maxTicks.toNat ≠ n + 1 := fun heq => (h n n.lt_succ_self).2 (.inr ⟨hm, heq⟩)
    omega

/-- Counting in words of 64 bits reaches the limit when the number of ticks
    does. -/
theorem Lasts.limit_iff (h : g.Lasts dt n) (hn : n < UInt64.size) :
    0 < g.config.maxTicks ∧ g.config.maxTicks ≤ .ofNat (n + 1) ↔
      0 < g.config.maxTicks ∧ g.config.maxTicks.toNat = n + 1 := by
  refine and_congr_right fun hm => ?_
  have hbelow := h.lt_maxTicks hm
  have hword := g.config.maxTicks.toNat_lt_size
  rw [UInt64.le_iff_toNat_le, UInt64.toNat_ofNat_of_lt' (by omega)]
  omega

/-- One turn of the loop, after `n` ticks. -/
theorem loop_ticked (fuel : Nat) (hexit : (g.ticked dt n).exitRequested = false)
    (hn : n < UInt64.size) :
    loop dt (fuel + 1) (.ofNat n) (g.ticked dt n) =
      match g.answered dt n with
      | .error err => (.error (.error err), g.ticked dt (n + 1))
      | .ok _ =>
        if 0 < g.config.maxTicks ∧ g.config.maxTicks ≤ .ofNat (n + 1) then
          (.ok (.ofNat (n + 1)), g.ticked dt (n + 1))
        else loop dt fuel (.ofNat (n + 1)) (g.ticked dt (n + 1)) := by
  have hconfig : ((g.ticked dt n).runTick (dt n)).2.config = g.config :=
    (keeps_ticked dt g (n + 1)).config
  have hcount : (UInt64.ofNat n).toNat = n := UInt64.toNat_ofNat_of_lt' hn
  have hsucc : UInt64.ofNat n + 1 = .ofNat (n + 1) := (UInt64.ofNat_add n 1).symm
  rw [loop, hexit, hcount, hsucc, answered, ticked]
  rcases htick : (g.ticked dt n).runTick (dt n) with ⟨_ | _, g'⟩
  · rfl
  · replace hconfig : g'.config = g.config := by rw [← hconfig, htick]
    simp only [hconfig, Bool.false_eq_true, if_false]

/-- As long as the run lasts, the loop takes one turn for each tick. -/
theorem loop_lasts (fuel : Nat) (hexit : g.exitRequested = false) (h : g.Lasts dt n)
    (hn : n ≤ UInt64.size) :
    loop dt (fuel + n) 0 g = loop dt fuel (.ofNat n) (g.ticked dt n) := by
  induction n generalizing fuel with
  | zero => rfl
  | succ n ih =>
    obtain ⟨⟨count, hanswer⟩, hgoes⟩ := h n n.lt_succ_self
    have hlimit : ¬ (0 < g.config.maxTicks ∧ g.config.maxTicks ≤ .ofNat (n + 1)) :=
      fun hreached => hgoes (.inr ((h.of_succ.limit_iff (by omega)).mp hreached))
    calc loop dt (fuel + (n + 1)) 0 g
        = loop dt ((fuel + 1) + n) 0 g := by rw [Nat.add_right_comm, Nat.add_assoc]
      _ = loop dt (fuel + 1) (.ofNat n) (g.ticked dt n) := ih (fuel + 1) h.of_succ (by omega)
      _ = loop dt fuel (.ofNat (n + 1)) (g.ticked dt (n + 1)) := by
          rw [loop_ticked fuel (h.of_succ.exitRequested hexit) (by omega), hanswer]
          exact if_neg hlimit

/-- A loop with fuel for one turn more than its ticks answers as its run ends. -/
theorem loop_ends {fuel : Nat} (h : g.Ends dt n r) (hn : n ≤ UInt64.size) (hfuel : n ≤ fuel)
    (hmore : ∀ total, r = .ok total → n < fuel) : loop dt fuel 0 g = (r, g.ticked dt n) := by
  cases h with
  | atOnce hexit =>
    obtain ⟨fuel, rfl⟩ := Nat.exists_eq_add_of_lt (hmore 0 rfl)
    rw [Nat.zero_add, loop, if_pos hexit]
    rfl
  | @failed n err hexit hlasts hanswer =>
    obtain ⟨fuel, rfl⟩ := Nat.exists_eq_add_of_le hfuel
    rw [show n + 1 + fuel = (fuel + 1) + n by omega, loop_lasts _ hexit hlasts (by omega),
      loop_ticked fuel (hlasts.exitRequested hexit) (by omega), hanswer]
  | @halted n count total hexit hlasts hanswer hhalts htotal =>
    obtain ⟨fuel, rfl⟩ := Nat.exists_eq_add_of_lt (hmore total rfl)
    have hword : UInt64.ofNat (n + 1) = total := by rw [← htotal, UInt64.ofNat_toNat]
    rw [show n + 1 + fuel + 1 = (fuel + 1 + 1) + n by omega, loop_lasts _ hexit hlasts (by omega),
      loop_ticked _ (hlasts.exitRequested hexit) (by omega), hanswer]
    simp only [hword]
    split
    · rfl
    · rename_i hlimit
      have hasked : (g.ticked dt (n + 1)).exitRequested = true := by
        obtain hasked | hreached := hhalts
        · exact hasked
        · rw [← hword] at hlimit
          exact absurd ((hlasts.limit_iff (by omega)).mpr hreached) hlimit
      rw [loop, if_pos hasked]

/-- Up to any number of ticks, a run has ended or lasts. -/
theorem ends_or_lasts (dt : Nat → Double) (hexit : g.exitRequested = false) (hn : n < UInt64.size) :
    (∃ k r, k ≤ n ∧ g.Ends dt k r) ∨ g.Lasts dt n := by
  induction n with
  | zero => exact .inr .zero
  | succ n ih =>
    obtain ⟨k, r, hk, hends⟩ | hlasts := ih (by omega)
    · exact .inl ⟨k, r, by omega, hends⟩
    cases hanswer : g.answered dt n with
    | error err => exact .inl ⟨n + 1, _, le_rfl, .failed hexit hlasts hanswer⟩
    | ok count =>
      by_cases hhalts : g.Halts dt (n + 1)
      · exact .inl ⟨n + 1, .ok (.ofNat (n + 1)), le_rfl,
          .halted hexit hlasts hanswer hhalts (UInt64.toNat_ofNat_of_lt' hn)⟩
      · exact .inr (hlasts.succ hanswer hhalts)

/-! ## Runs now and later -/

/-- One use of an engine: a change, a tick, or a run, whatever they answer. -/
inductive Use (g : Engine σ) : Engine σ → Prop
  | change {g' : Engine σ} : Step (fun _ => True) g g' → Use g g'
  | tick (dt : Double) : Use g (g.runTick dt).2
  | run (elapsed : Nat → Double) : Use g (g.runTimed elapsed).2

/-- The second engine comes from the first by any uses of it. -/
def Later : Engine σ → Engine σ → Prop := Relation.ReflTransGen Use

theorem keeps_loop (dt : Nat → Double) (fuel : Nat) (count : UInt64) (g : Engine σ) :
    g.Keeps (loop dt fuel count g).2 := by
  induction fuel generalizing count g with
  | zero => exact .refl g
  | succ fuel ih =>
    have htick := keeps_runTick g (dt count.toNat)
    rw [loop]
    split
    · exact .refl g
    · rcases hanswer : g.runTick (dt count.toNat) with ⟨_ | _, g'⟩ <;> rw [hanswer] at htick
      · exact htick
      · simp only
        split
        · exact htick
        · exact htick.trans (ih _ g')

theorem keeps_runTimed (elapsed : Nat → Double) (g : Engine σ) :
    g.Keeps (g.runTimed elapsed).2 := by
  unfold runTimed
  split
  · exact .refl g
  · exact keeps_loop _ _ _ g

theorem Use.keeps (h : Use g g') : g.Keeps g' := by
  cases h with
  | change h => exact h.keeps
  | tick dt => exact keeps_runTick g dt
  | run elapsed => exact keeps_runTimed elapsed g

theorem Later.keeps (h : Later g g') : g.Keeps g' := by
  induction h with
  | refl => exact .refl g
  | tail _ huse ih => exact ih.trans huse.keeps

/-- A run with these tick times gives `result`, an answer and an engine. -/
structure RunsOut (dt : Nat → Double) (g : Engine σ)
    (result : Except RunFailure UInt64 × Engine σ) : Prop where
  /-- A run that ends leaves what its ticks leave. -/
  ends : ∀ n r, n ≤ UInt64.size → g.Ends dt n r → result = (r, g.ticked dt n)
  /-- A run that lasts longer than ticks can be counted does not end. -/
  endless : g.exitRequested = false → g.Lasts dt UInt64.size →
    result = (.error .endless, g.ticked dt UInt64.size)
  /-- With a limit, the run ends within that many ticks. -/
  limited : 0 < g.config.maxTicks → ∃ n r, n ≤ g.config.maxTicks.toNat ∧ g.Ends dt n r
  /-- Each tick, the last one too, is counted by the engine. -/
  counted : ∀ n, (g.ticked dt n).tick = g.tick + .ofNat n

theorem runsOut_runTimed {budget : Option Duration} (h : g.config.budget = .ok budget)
    (elapsed : Nat → Double) : g.RunsOut (tickTimes budget elapsed) (g.runTimed elapsed) := by
  have hrun : g.runTimed elapsed = loop (tickTimes budget elapsed) UInt64.size 0 g := by
    simp only [runTimed, h]
  refine ⟨fun n r hn hends => ?_, fun hexit hlasts => ?_, fun hm => ?_, tick_ticked _ g⟩
  · refine hrun.trans (loop_ends hends hn hn fun total htotal => ?_)
    subst htotal
    cases hends with
    | atOnce => decide
    | halted _ _ _ _ hcount => exact hcount ▸ total.toNat_lt_size
  · have hloop := loop_lasts 0 hexit hlasts le_rfl
    rw [Nat.zero_add] at hloop
    exact hrun.trans hloop
  · by_cases hexit : g.exitRequested = true
    · exact ⟨0, _, Nat.zero_le _, .atOnce hexit⟩
    · obtain hends | hlasts := ends_or_lasts (tickTimes budget elapsed)
        (Bool.eq_false_iff.mpr hexit) g.config.maxTicks.toNat_lt_size
      · exact hends
      · exact absurd (hlasts.lt_maxTicks hm) (lt_irrefl _)

/-- **Every run, now or later, ends when a tick fails, an exit is asked for, or
    it has had the configured number of ticks**, and it counts the ticks of its
    own.  The wish to exit is kept, so that from then on no run has a tick. -/
theorem Later.runs_out {budget : Option Duration} (h : g.config.budget = .ok budget)
    (hlater : Later g g') :
    g'.config = g.config ∧
    (∀ elapsed, g'.RunsOut (tickTimes budget elapsed) (g'.runTimed elapsed)) ∧
    (g.exitRequested = true →
      g'.exitRequested = true ∧ ∀ elapsed, g'.runTimed elapsed = (.ok 0, g')) := by
  have hkeeps := hlater.keeps
  have hbudget : g'.config.budget = .ok budget := by rw [hkeeps.config, h]
  refine ⟨hkeeps.config, runsOut_runTimed hbudget, fun hexit => ⟨hkeeps.exit hexit, fun elapsed => ?_⟩⟩
  exact (runsOut_runTimed hbudget elapsed).ends 0 (.ok 0) (Nat.zero_le _)
    (.atOnce (hkeeps.exit hexit))

/-- An engine that runs three ticks at most, back to back, with a system that
    asks for an exit in the fifth tick. -/
def leaving : Engine Unit :=
  let leave : System Unit := .new "leave" [] fun ctx _ _ =>
    ⟨.batch ⟨if ctx.tick = 5 then [.exit] else []⟩, [], ()⟩
  let g : Engine Unit := { config := { tickRate := ⟨0⟩, maxTicks := 3 }, ambient := () }
  (g.setRoot (.node ⟨"leave", some leave, [], {}⟩ [] [])).2

/-- The first run has three ticks, the second has two and asks for an exit, and
    the third has none. -/
theorem runs_out_leaving :
    let g := leaving
    let g₁ := g.run.2
    let g₂ := g₁.run.2
    g.config.budget = .ok none ∧ Later g g₁ ∧ Later g₁ g₂ ∧
      g.run.1 = .ok 3 ∧ g₁.tick = 3 ∧ g₁.run.1 = .ok 2 ∧ g₂.tick = 5 ∧
      g₁.RunsOut (tickTimes none fun _ => .ofNat 0) g₁.run ∧ g₂.run = (.ok 0, g₂) := by
  intro g g₁ g₂
  have hbudget : g.config.budget = .ok none := by decide +kernel
  have hfirst : Later g g₁ := .single (.run _)
  have hsecond : Later g₁ g₂ := .single (.run _)
  obtain ⟨-, hruns, -⟩ := hfirst.runs_out hbudget
  have hexit : g₂.exitRequested = true := by decide +kernel
  have hboth : Later g g₂ := hfirst.trans hsecond
  have hbudget₂ : g₂.config.budget = .ok none := by rw [(hboth.runs_out hbudget).1, hbudget]
  have hstays : Later g₂ g₂ := .refl
  obtain ⟨-, hnone⟩ := (hstays.runs_out hbudget₂).2.2 hexit
  exact ⟨hbudget, hfirst, hsecond, by decide +kernel, by decide +kernel, by decide +kernel,
    by decide +kernel, hruns _, hnone _⟩

end TickEngine.Engine
