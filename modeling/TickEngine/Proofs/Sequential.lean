/-
  One worker is no worker at all.

  On a pool with one worker that one thread from outside uses, everything goes
  as if each task was run at the point where it is handed in, be it that the
  worker runs it in place or takes it out of its slot.

  * `Machine.Reaches.sequential`: codes in general;
  * `Machine.runs_in_order`: codes, programs, pipelines and ticks.
-/
import TickEngine.Pipeline.Dispatch
import TickEngine.Proofs.Endings
import TickEngine.Proofs.Forecast
import TickEngine.Proofs.Preorder
import TickEngine.Proofs.Ticks

namespace TickEngine

/-! ## Codes of programs -/

theorem Code.sees_id {σ ρ : Type} (code : Code σ ρ) : code.Sees id := by
  induction code with
  | value | panic => trivial
  | act change next ih => exact ⟨fun x y h => by cases h; exact ⟨rfl, rfl⟩, ih⟩
  | post task next ihtask ihnext | hand name task next ihtask ihnext => exact ⟨ihtask, ihnext⟩
  | wait name next ih => exact ih

/-- Nothing is awaited any more after the only session. -/
theorem Code.calm_wait {σ ρ α : Type} {view : σ → α} {next : List ρ → Code σ ρ}
    (hnext : ∀ rs, (next rs).Calm view []) {name : Nat} {awaited : List (Option Nat)}
    (h : ∀ a ∈ awaited, a = some name) : (Code.wait name next).Calm view awaited := by
  have hnone : awaited.filter (· ≠ some name) = [] :=
    List.filter_eq_nil_iff.2 fun a ha => by simp [h a ha]
  exact fun rs => hnone ▸ hnext rs

namespace Program

variable {ε : Type}

mutual

theorem run_code (p : Program ε) {results : Nat → List Int} (h : results 0 = []) (log : List ε) :
    p.code.run results log = (p.run.1, log ++ p.run.2) := by
  cases p with
  | value n => simp [code, Code.run, run]
  | panic payload => simp [code, Code.run, run]
  | effect e next =>
    rw [code, Code.run, run_code next h, run]
    simp
  | session tasks next =>
    rw [code, run_handAll tasks, h, List.nil_append, ← h, Function.update_eq_self, run_code _ h,
      run]
    simp

/-- A session goes on with the results of its tasks. -/
theorem run_handAll (tasks : List (Program ε)) (next : List Int → Code (List ε) Int)
    (results : Nat → List Int) (log : List ε) :
    (handAll tasks (.wait 0 next)).run results log =
      (next (results 0 ++ (runAll tasks).1)).run (Function.update results 0 [])
        (log ++ (runAll tasks).2) := by
  cases tasks with
  | nil => simp [handAll, Code.run, runAll]
  | cons p rest =>
    rw [handAll, Code.run, run_code p rfl, run_handAll rest, Function.update_self,
      Function.update_idem, runAll]
    rcases p.run with ⟨_ | n, es⟩ <;> simp [Except.toOption]

end

mutual

theorem calm_code (p : Program ε) : p.code.Calm id [] := by
  cases p with
  | value | panic => trivial
  | effect e next => exact ⟨fun h => absurd rfl h, fun _ => calm_code next⟩
  | session tasks next => exact calm_handAll tasks (fun rs => calm_code (next rs)) nofun

theorem calm_handAll (tasks : List (Program ε)) {next : List Int → Code (List ε) Int}
    (hnext : ∀ rs, (next rs).Calm id []) {awaited : List (Option Nat)}
    (h : ∀ a ∈ awaited, a = some 0) : (handAll tasks (.wait 0 next)).Calm id awaited := by
  cases tasks with
  | nil => exact Code.calm_wait hnext h
  | cons p rest => exact calm_handAll rest hnext (List.forall_mem_cons.2 ⟨rfl, h⟩)

end

end Program

/-! ## Codes of pipelines -/

namespace Pipeline

variable {σ : Type} (ctx : TickContext)

mutual

theorem run_code (p : Pipeline σ) (next : Except Fault Batch → PipelineCode σ)
    {results : Nat → List (Except ExecutionError Batch)} (h : results 0 = []) (w : Workspace σ) :
    (p.code ctx next).run results w =
      (next (p.execute ctx w).1).run results (p.execute ctx w).2 := by
  cases p with
  | node s ps ss =>
    rw [code, Code.run, execute]
    rcases s.run ctx w with ⟨f | own, w'⟩
    · rfl
    have honward : ∀ inParallel w, (codeInTurn ctx ss fun r =>
        next (r.map (own ++ inParallel ++ ·))).run results w =
          (match inTurn ctx ss w with
            | (.error f, w) => (next (.error f)).run results w
            | (.ok inSerial, w) => (next (.ok (own ++ inParallel ++ inSerial))).run results w) := by
      intro inParallel w
      rw [run_codeInTurn ss _ h]
      rcases inTurn ctx ss w with ⟨f | bs, w''⟩ <;> rfl
    cases ps with
    | nil =>
      simp only [List.isEmpty_nil, if_true, fanOut, honward, BatchCombiner.result]
      rcases inTurn ctx ss w' with ⟨f | bs, w''⟩ <;> rfl
    | cons p rest =>
      simp only [List.isEmpty_cons]
      obtain ⟨rs, hfold, hrun⟩ := run_codeFanOut (p :: rest) _ results w'
      rw [if_neg nofun, hrun, h, List.nil_append, ← h, Function.update_eq_self, ← hfold]
      rcases fanOut ctx (p :: rest) {} w' with ⟨c, w₁⟩
      simp only
      rcases c.result with e | inParallel
      · rfl
      · simp only [honward]
        rcases inTurn ctx ss w₁ with ⟨f | bs, w''⟩ <;> rfl

/-- A session goes on with what parallel children give, in order. -/
theorem run_codeFanOut (ps : List (Pipeline σ))
    (next : List (Except ExecutionError Batch) → PipelineCode σ)
    (results : Nat → List (Except ExecutionError Batch)) (w : Workspace σ) :
    ∃ rs, (∀ c, (fanOut ctx ps c w).1 = rs.foldl BatchCombiner.combine c) ∧
      (codeFanOut ctx ps (.wait 0 next)).run results w =
        (next (results 0 ++ rs)).run (Function.update results 0 []) (fanOut ctx ps {} w).2 := by
  cases ps with
  | nil =>
    refine ⟨[], fun c => ?_, ?_⟩
    · rw [fanOut, List.foldl_nil]
    · simp [codeFanOut, Code.run, fanOut]
  | cons p rest =>
    obtain ⟨rs, hfold, hrun⟩ := run_codeFanOut rest next (Function.update results 0
      (results 0 ++ [(p.execute ctx w).1.mapError (Fault.contain p.name)])) (p.execute ctx w).2
    refine ⟨(p.execute ctx w).1.mapError (Fault.contain p.name) :: rs, fun c => ?_, ?_⟩
    · rw [fanOut_cons, hfold, List.foldl_cons]
    · rw [codeFanOut, Code.run, run_code p _ rfl]
      simp only [Code.run, Except.toOption, Option.toList_some]
      rw [hrun, fanOut_cons, Function.update_self, Function.update_idem, List.append_assoc,
        fanOut_workspace ctx rest {}]
      rfl

theorem run_codeInTurn (ss : List (Pipeline σ)) (next : Except Fault Batch → PipelineCode σ)
    {results : Nat → List (Except ExecutionError Batch)} (h : results 0 = []) (w : Workspace σ) :
    (codeInTurn ctx ss next).run results w =
      (next (inTurn ctx ss w).1).run results (inTurn ctx ss w).2 := by
  cases ss with
  | nil => rw [codeInTurn, inTurn]
  | cons p rest =>
    rw [codeInTurn, run_code p _ h, inTurn]
    rcases p.execute ctx w with ⟨f | b, w'⟩
    · rfl
    · simp only
      rw [run_codeInTurn rest _ h]
      rcases inTurn ctx rest w' with ⟨f | bs, w''⟩ <;> rfl

end

mutual

theorem calm_code (p : Pipeline σ) {next : Except Fault Batch → PipelineCode σ}
    (hnext : ∀ r, (next r).Calm id []) : (p.code ctx next).Calm id [] := by
  cases p with
  | node s ps ss =>
    rw [code]
    refine ⟨fun h => absurd rfl h, fun w => ?_⟩
    dsimp only
    cases (s.run ctx w).1 with
    | error f => exact hnext _
    | ok own =>
      have honward : ∀ inParallel : Batch, (codeInTurn ctx ss fun r =>
          next (r.map (own ++ inParallel ++ ·))).Calm id [] :=
        fun inParallel => calm_codeInTurn ss fun r => hnext _
      cases ps with
      | nil => exact honward {}
      | cons p rest =>
        refine calm_codeFanOut (p :: rest) (fun rs => ?_) nofun
        cases (rs.foldl BatchCombiner.combine {}).result with
        | error e => exact hnext _
        | ok inParallel => exact honward inParallel

theorem calm_codeFanOut (ps : List (Pipeline σ))
    {next : List (Except ExecutionError Batch) → PipelineCode σ}
    (hnext : ∀ rs, (next rs).Calm id []) {awaited : List (Option Nat)}
    (h : ∀ a ∈ awaited, a = some 0) : (codeFanOut ctx ps (.wait 0 next)).Calm id awaited := by
  cases ps with
  | nil => exact Code.calm_wait hnext h
  | cons p rest => exact calm_codeFanOut rest hnext (List.forall_mem_cons.2 ⟨rfl, h⟩)

theorem calm_codeInTurn (ss : List (Pipeline σ)) {next : Except Fault Batch → PipelineCode σ}
    (hnext : ∀ r, (next r).Calm id []) : (codeInTurn ctx ss next).Calm id [] := by
  cases ss with
  | nil => exact hnext _
  | cons p rest =>
    refine calm_code p fun r => ?_
    cases r with
    | error f => exact hnext _
    | ok b => exact calm_codeInTurn rest fun r => hnext _

end

variable (p : Pipeline σ) (w : Workspace σ)

theorem run_contained : (p.contained ctx).run (fun _ => []) w =
    (.ok (p.executeContained ctx w).1, (p.executeContained ctx w).2) := by
  rw [contained, run_code ctx p _ rfl]
  rfl

theorem run_alone : (p.alone ctx).run (fun _ => []) w =
    (.ok (p.executeContained ctx w).1, (p.executeContained ctx w).2) := by
  rw [alone, Code.run, run_contained]
  rfl

theorem calm_contained : (p.contained ctx).Calm id [] :=
  calm_code ctx p fun _ => trivial

theorem calm_alone : (p.alone ctx).Calm id [] :=
  fun _ => trivial

end Pipeline

/-! ## Machines -/

namespace Machine

variable {σ ρ α : Type} {view : σ → α} {m m' : Machine σ ρ} {shared : σ} {code : Code σ ρ}
  {r : Except Panic ρ × σ} {o : Except Panic ρ}

/-- What the machine will come to looks like this. -/
structure Expects (view : σ → α) (m : Machine σ ρ) (r : Except Panic ρ × σ) : Prop where
  solo : m.Solo
  line : ∃ x awaited r', m.Lines x ∧ x.Linked ∧ x.Steady view awaited ∧
    x.forecast = some r' ∧ Alike view r r'

theorem expects_start (hsees : code.Sees view) (hcalm : code.Calm view []) :
    (start 1 shared [code]).Expects view (code.run (fun _ => []) shared) := by
  refine ⟨solo_start shared code, _, [], _, lines_start shared code, linked_start shared code, ?_,
    rfl, .refl _⟩
  exact ⟨List.forall_mem_singleton.2 hsees, hcalm, nofun, nofun, nofun⟩

theorem Step.expects (h : m.Step m') (hm : m.Expects view r) : m'.Expects view r := by
  obtain ⟨hsolo, x, awaited, r', hlines, hlinked, hsteady, hforecast, halike⟩ := hm
  have howned := hlines.owned hsolo.counts
  obtain ⟨x', hlines', hstep⟩ := h.line hsolo.sound hlines
  obtain ⟨awaited', hsteady'⟩ := hstep.steady hlinked hsteady
  have hsame := hstep.forecast hlinked howned hsteady
  rw [hforecast] at hsame
  obtain ⟨r'', hforecast', halike'⟩ : ∃ r'', x'.forecast = some r'' ∧ Alike view r' r'' := by
    generalize x'.forecast = q at hsame
    cases hsame with
    | some hr => exact ⟨_, rfl, hr⟩
  exact ⟨h.solo hsolo, x', awaited', r'', hlines', hstep.linked hlinked howned, hsteady',
    hforecast', halike.trans halike'⟩

theorem Reaches.expects (h : m.Reaches m') (hm : m.Expects view r) : m'.Expects view r := by
  induction h with
  | refl => exact hm
  | tail _ hstep ih => exact hstep.expects ih

/-- At the end the machine has come to what was expected. -/
theorem Expects.over (h : m.Expects view r) (hover : m.Over o) :
    Alike view r (o, m.common.shared) := by
  obtain ⟨-, x, awaited, r', hlines, -, -, hforecast, halike⟩ := h
  have hcommon := hlines.common_eq
  obtain ⟨hwork, env, code, houter, hend⟩ := hlines.over hover
  have hlast : x.forecast = some (o, m.common.shared) := by
    rw [Line.forecast, hwork, houter, hcommon]
    show some (code.run _ m.common.shared) = _
    rw [Code.run_of_end hend]
  obtain rfl := Option.some.inj (hforecast.symm.trans hlast)
  exact halike

/-- **Tasks settle in the order in which they were handed in.**  A thread that
    has waited goes on with the values of those that did not panic. -/
theorem Solo.collected (hm : m.Solo) {i s : Nat} {f f' : Frame σ ρ} {c : Common σ ρ}
    {next : List ρ → Code σ ρ} (htop : m.top? i = some f) (hpoint : f.point = .reclaim s next)
    (hadvance : Advance f m.common f' c) :
    (m.session s).settled.map (·.1) = (m.session s).submitted ∧
      f'.point = .run (next ((m.session s).settled.filterMap fun e => e.2.toOption)) := by
  obtain ⟨x, hlines, hlinked⟩ := hm.linked
  have howned := hlines.owned hm.counts
  have hcommon := hlines.common_eq
  have hmem : f ∈ x.all := hlines.top_mem htop
  obtain ⟨role, env, p⟩ := f
  cases hpoint
  cases hadvance with
  | @reclaim _ _ _ _ _ session hsession hone =>
    have hsame : m.session s = session := Common.session_eq_of_getElem? hsession
    have hlast : (m.session s).handles = 1 := hsame ▸ hone
    have hpending := Line.pending_eq_nil (howned.last _ hmem s rfl (by rwa [hcommon]))
    have horder := hlinked.inOrder s
    rw [hcommon, hpending, List.append_nil] at horder
    refine ⟨horder.symm, ?_⟩
    rw [← (hm.counts s).folded, hsame]

/-- At the end every task was started once, and has ended once. -/
theorem Over.tasks (hover : m.Over o) (h : (start 1 shared [code]).Reaches m) {k : Nat}
    (hk : k < m.common.given) : m.started.count k = 1 ∧ m.finished k = 1 := by
  obtain ⟨t, slot, env, code, hthreads, hslots, hframes, htask, -⟩ := hover
  have hcrew : ∀ f ∈ Thread.crew m.threads, f = ⟨.outer, env, .run code⟩ := by
    intro f hf
    obtain ⟨t', ht', hft⟩ := Thread.mem_crew.1 hf
    rw [hthreads] at ht'
    rcases List.mem_pair.1 ht' with rfl | rfl
    · rw [hframes] at hft
      cases hft
    · exact List.mem_singleton.1 hft
  have hunplaced : m.unplaced k = 0 := by
    refine Multiset.countP_eq_zero.2 fun f hf => ?_
    rw [hcrew f hf]
    nofun
  have hstored : m.stored k = 0 := by
    refine Multiset.countP_eq_zero.2 fun job hjob => ?_
    obtain ⟨slot', hslot', htask'⟩ := Slot.mem_held.1 hjob
    rw [hslots] at hslot'
    obtain rfl := List.mem_singleton.1 hslot'
    cases htask.symm.trans htask'
  have hrunning : m.running k = 0 := by
    refine Multiset.countP_eq_zero.2 fun f hf => ?_
    rw [hcrew f hf]
    nofun
  obtain ⟨honce, hstarted⟩ := h.tasks k
  rw [if_pos hk] at honce
  omega

/-- What is true of one worker and one thread from outside, at any time. -/
structure Sequential (shared : σ) (code : Code σ ρ) (m : Machine σ ρ) : Prop where
  /-- The tasks of a session settle in the order in which they were handed in,
      and who has waited for it gets the values of those that did not panic. -/
  collected : ∀ {i s : Nat} {f f' : Frame σ ρ} {c : Common σ ρ} {next : List ρ → Code σ ρ},
    m.top? i = some f → f.point = .reclaim s next → Advance f m.common f' c →
      (m.session s).settled.map (·.1) = (m.session s).submitted ∧
        f'.point = .run (next ((m.session s).settled.filterMap fun e => e.2.toOption))
  /-- No task is started twice. -/
  once : ∀ k, m.started.count k ≤ 1
  /-- Nothing is stuck, unless a task was lost when the pool was given up. -/
  ends : (∀ k, ¬ m.Stranded k) → ∃ m' o, m.Reaches m' ∧ m'.Over o
  /-- No task is lost while the pool is in use. -/
  unlost : m.pool.running = true → ∀ k, ¬ m.Stranded k
  /-- At the end every task was started once, and has ended once. -/
  all : ∀ o, m.Over o → ∀ k < m.common.given, m.started.count k = 1 ∧ m.finished k = 1
  /-- At the end all is as if each task was run where it was handed in, as far as
      it is seen by a view of which the thread from outside is calm. -/
  outcome : ∀ o, m.Over o → ∀ {α : Type} (view : σ → α), code.Sees view → code.Calm view [] →
    o = (code.run (fun _ => []) shared).1 ∧
      view m.common.shared = view (code.run (fun _ => []) shared).2

theorem Reaches.sequential (h : (start 1 shared [code]).Reaches m) : m.Sequential shared code := by
  have hsolo := h.solo (solo_start shared code)
  refine ⟨hsolo.collected, fun k => ?_, hsolo.over, not_stranded,
    fun o hover k => hover.tasks h, ?_⟩
  · have htasks := h.tasks k
    split_ifs at htasks <;> omega
  · intro o hover α view hsees hcalm
    obtain ⟨houtcome, hview⟩ := (h.expects (expects_start hsees hcalm)).over hover
    exact ⟨houtcome.symm, hview.symm⟩

end Machine

/-! ## Ticks -/

/-- The tick in which the pipeline gave `r` and left `w`. -/
structure Engine.GoesOn {σ : Type} (g : Engine σ) (dt : Double) (r : Except ExecutionError Batch)
    (w : Workspace σ) : Prop where
  failed : ∀ e, r = .error e →
    g.runTick dt = (.error (.execution (g.tick + 1) e), g.afterSystems w)
  performed : ∀ b, r = .ok b → g.runTick dt =
    match Command.applyAll commands b.commands (g.afterSystems w) with
    | (.error (c, e), g) => (.error (.command g.tick c.kind e), g)
    | (.ok (), g) => (.ok b.size, g)

theorem Engine.goesOn_of_root {σ : Type} {g : Engine σ} {root : Pipeline σ} {dt : Double}
    (hroot : g.root = some root) :
    let run := root.executeContained ⟨g.tick + 1, dt⟩ ⟨g.world.store.cells, g.ambient⟩
    g.GoesOn dt run.1 run.2 := by
  intro run
  have hrun : g.runSystems dt = (run.1, g.afterSystems run.2) := runSystems_of_root hroot rfl
  have htick := runTick_eq g dt
  rw [hrun] at htick
  refine ⟨fun e he => ?_, fun b hb => ?_⟩
  · rw [he] at htick
    exact htick
  · rw [hb] at htick
    exact htick

namespace Machine

/-- **A pool with one worker that one thread from outside uses is no more than a
    call of each task**, whatever the order of steps:

    * sessions give values in the order in which tasks were handed in, every
      task is run once, and what tasks do is in the order in which it is done
      without a pool;
    * the same goes for a program that opens sessions at any depth;
    * a tree of systems that lets no panic pass gives the batches in pre-order, or
      the error of the first system in pre-order that fails;
    * so does the tree of an engine as the only task of the session of a tick. -/
theorem one_worker_sequential :
    (∀ {σ ρ : Type} {shared : σ} {code : Code σ ρ} {m : Machine σ ρ},
      (start 1 shared [code]).Reaches m → m.Sequential shared code) ∧
    (∀ {ε : Type} {log : List ε} {p : Program ε} {m : Machine (List ε) Int} {o : Except Panic Int},
      (start 1 log [p.code]).Reaches m → m.Over o →
        o = p.run.1 ∧ m.common.shared = log ++ p.run.2) ∧
    (∀ {σ : Type} {ctx : TickContext} {p : Pipeline σ} {w : Workspace σ}
        {m : Machine (Workspace σ) (Except ExecutionError Batch)}
        {o : Except Panic (Except ExecutionError Batch)},
      (start 1 w [p.contained ctx]).Reaches m → m.Over o →
        ∃ r, o = .ok r ∧ p.executeContained ctx w = (r, m.common.shared) ∧
          p.InPreorder ctx w r m.common.shared) ∧
    ∀ {σ : Type} {g : Engine σ} {root : Pipeline σ} {dt : Double}
        {m : Machine (Workspace σ) (Except ExecutionError Batch)}
        {o : Except Panic (Except ExecutionError Batch)},
      g.root = some root →
      (start 1 ⟨g.world.store.cells, g.ambient⟩ [root.alone ⟨g.tick + 1, dt⟩]).Reaches m →
      m.Over o →
        ∃ r, o = .ok r ∧ g.GoesOn dt r m.common.shared ∧
          root.InPreorder ⟨g.tick + 1, dt⟩ ⟨g.world.store.cells, g.ambient⟩ r m.common.shared := by
  refine ⟨Reaches.sequential, ?_, ?_, ?_⟩
  · intro ε log p m o h hover
    have hsame := h.sequential.outcome o hover id p.code.sees_id p.calm_code
    rwa [Program.run_code p rfl] at hsame
  · intro σ ctx p w m o h hover
    have hsame := h.sequential.outcome o hover id (Code.sees_id _) (p.calm_contained ctx)
    rw [Pipeline.run_contained] at hsame
    obtain ⟨houtcome, hshared⟩ := hsame
    rw [show m.common.shared = _ from hshared]
    exact ⟨_, houtcome, rfl, p.executeContained_preorder ctx w⟩
  · intro σ g root dt m o hroot h hover
    have hsame := h.sequential.outcome o hover id (Code.sees_id _) (root.calm_alone _)
    rw [Pipeline.run_alone] at hsame
    obtain ⟨houtcome, hshared⟩ := hsame
    rw [show m.common.shared = _ from hshared]
    exact ⟨_, houtcome, Engine.goesOn_of_root hroot, root.executeContained_preorder _ _⟩

/-- A thread that has effects of its own while a task runs and another one
    panics; a program with a session inside a task; two parallel children that
    fail. -/
theorem one_worker_sequential_mixed :
    let driver : Code (List (Bool × Nat)) Int :=
      .hand 0 (.act (· ++ [(true, 0)]) fun _ => .value 5)
        (.act (· ++ [(false, 7)]) fun _ =>
          .hand 0 (.act (· ++ [(true, 1)]) fun _ => .panic .other)
            (.wait 0 fun rs => .value rs.sum))
    let program : Program Nat :=
      .session [.effect 0 (.session [.effect 1 (.value 10), .effect 2 (.panic .other)] fun rs =>
        .effect 3 (.value rs.sum)), .effect 4 (.value 1)] fun rs => .value rs.sum
    let leaf (name : String) : Pipeline Unit :=
      .node ⟨name, some (.new name [] fun _ _ _ => ⟨.failed ⟨name⟩, [], ()⟩), [], {}⟩ [] []
    let tree := ((Pipeline.group "root").withParallel (leaf "first")).withParallel (leaf "second")
    let engine : Engine Unit := { ambient := (), root := some tree }
    (∃ m : Machine (List (Bool × Nat)) Int, (start 1 [] [driver]).Reaches m ∧ m.Over (.ok 5) ∧
      m.common.shared.filter (·.1) = [(true, 0), (true, 1)]) ∧
    (∃ m : Machine (List Nat) Int, (start 1 [] [program.code]).Reaches m ∧ m.Over (.ok 11) ∧
      m.common.shared = [0, 1, 2, 3, 4]) ∧
    (∃ m, (start 1 ⟨⟨#[]⟩, ()⟩ [tree.contained ⟨1, ⟨0⟩⟩]).Reaches m ∧
      m.Over (.ok (.error (.system "first" ⟨"first"⟩)))) ∧
    (∃ m, (start 1 ⟨engine.world.store.cells, ()⟩ [tree.alone ⟨1, ⟨0⟩⟩]).Reaches m ∧
      m.Over (.ok (.error (.system "first" ⟨"first"⟩)))) ∧
    (engine.runTick ⟨0⟩).1 = .error (.execution 1 (.system "first" ⟨"first"⟩)) := by
  intro driver program leaf tree engine
  obtain ⟨hcodes, hprograms, htrees, hticks⟩ := one_worker_sequential
  refine ⟨?_, ?_, ?_, ?_⟩
  · obtain ⟨m, o, hm, hover⟩ := (hcodes (m := start 1 [] [driver]) .refl).ends (not_stranded rfl)
    have hview : ∀ (e : Bool × Nat) (x y : List (Bool × Nat)), x.filter (·.1) = y.filter (·.1) →
        (x ++ [e]).filter (·.1) = (y ++ [e]).filter (·.1) := by
      intro e x y h
      rw [List.filter_append, List.filter_append, h]
    obtain ⟨rfl, hshared⟩ := (hcodes hm).outcome o hover (·.filter (·.1))
      ⟨⟨fun x y h => ⟨hview _ x y h, rfl⟩, fun _ => trivial⟩,
        fun x y h => ⟨hview _ x y h, rfl⟩, fun _ =>
          ⟨⟨fun x y h => ⟨hview _ x y h, rfl⟩, fun _ => trivial⟩, fun _ => trivial⟩⟩
      ⟨fun _ => ⟨fun x => by simp, fun _ _ => rfl⟩, fun _ _ => trivial⟩
    exact ⟨m, hm, hover, hshared⟩
  · obtain ⟨m, o, hm, hover⟩ :=
      (hcodes (m := start 1 [] [program.code]) .refl).ends (not_stranded rfl)
    obtain ⟨rfl, hshared⟩ := hprograms hm hover
    exact ⟨m, hm, hover, hshared⟩
  · obtain ⟨m, o, hm, hover⟩ :=
      (hcodes (m := start 1 ⟨⟨#[]⟩, ()⟩ [tree.contained ⟨1, ⟨0⟩⟩]) .refl).ends (not_stranded rfl)
    obtain ⟨r, rfl, hexecute, -⟩ := htrees hm hover
    obtain rfl : Except.error (.system "first" ⟨"first"⟩) = r := congrArg Prod.fst hexecute
    exact ⟨m, hm, hover⟩
  · obtain ⟨m, o, hm, hover⟩ := (hcodes (m := start 1 ⟨engine.world.store.cells, ()⟩
      [tree.alone ⟨engine.tick + 1, ⟨0⟩⟩]) .refl).ends (not_stranded rfl)
    obtain ⟨r, rfl, hgoes, hpre⟩ := hticks (g := engine) rfl hm hover
    have houtcome := ((hcodes hm).outcome _ hover id (Code.sees_id _) (tree.calm_alone _)).1
    obtain rfl : r = Except.error (.system "first" ⟨"first"⟩) := Except.ok.inj houtcome
    exact ⟨⟨m, hm, hover⟩, congrArg Prod.fst (hgoes.failed _ rfl)⟩

end Machine

end TickEngine
