/-
  What all executions of a tree have in common.

  How the update of a system ends on what it finds (`Pipeline.outcome?`) says
  whether the system fails and what it asks for.  A system is ready
  (`Pipeline.Ready`) if nothing that has to be over before it fails.  Whatever
  the schedule, the systems that run are the ready ones, and a tree fails just
  if one of its systems does; a failure in one parallel child does not keep the
  others from running, and one in a serial child does not undo what ran before
  it.

  * `Pipeline.executions`: which systems run, when there is a batch, what it
    lists, and whose error there is otherwise.
-/
import TickEngine.Proofs.Schedules

namespace TickEngine

variable {b : Branch} {π : Path} {log : List Path}

/-! ## Logs -/

theorem Path.after?_eq_some {π π' : Path} : Path.after? b π = some π' ↔ π = b :: π' := by
  unfold Path.after?
  cases π with
  | nil => simp
  | cons b' π => simp

theorem Interleaved.mem_iff {logs : Nat → List Path} {n : Nat} (h : Interleaved logs n log) :
    π ∈ log ↔ ∃ i < n, ∃ π' ∈ logs i, π = .parallel i :: π' := by
  have hmem : ∀ i < n, ∀ π', π' ∈ logs i ↔ .parallel i :: π' ∈ log := by
    intro i hi π'
    simp [← h.2 i hi, List.mem_filterMap, Path.after?_eq_some]
  constructor
  · intro hπ
    obtain ⟨i, hi, π', rfl⟩ := h.1 π hπ
    exact ⟨i, hi, π', (hmem i hi π').2 hπ, rfl⟩
  · rintro ⟨i, hi, π', hπ', rfl⟩
    exact (hmem i hi π').1 hπ'

/-- Logs of parallel children can only go wrong each on its own. -/
theorem Interleaved.pairwise {R : Path → Path → Prop} {logs : Nat → List Path} {n : Nat}
    (h : Interleaved logs n log)
    (hsame : ∀ i < n, (logs i).Pairwise fun π π' => R (.parallel i :: π) (.parallel i :: π'))
    (hother : ∀ i j π π', i ≠ j → R (.parallel i :: π) (.parallel j :: π')) :
    log.Pairwise R := by
  induction log generalizing logs with
  | nil => exact .nil
  | cons π rest ih =>
    obtain ⟨⟨i, hi, π', rfl⟩, hrest⟩ := List.forall_mem_cons.1 h.1
    refine List.pairwise_cons.2 ⟨fun π'' hπ'' => ?_, ih ⟨hrest, fun j _ => rfl⟩ fun j hj => ?_⟩
    · obtain ⟨j, -, π₃, rfl⟩ := hrest π'' hπ''
      by_cases hij : i = j
      · subst hij
        have hown := hsame i hi
        rw [← h.2 i hi, List.filterMap_cons_some (Path.after?_eq_some.2 rfl),
          List.pairwise_cons] at hown
        exact hown.1 π₃ (List.mem_filterMap.2 ⟨_, hπ'', Path.after?_eq_some.2 rfl⟩)
      · exact hother i j π' π₃ hij
    · have hsublist := (List.sublist_cons_self (.parallel i :: π') rest).filterMap
        (Path.after? (.parallel j))
      exact (h.2 j hj ▸ hsame j hj).sublist hsublist

/-- Nothing is logged twice, and what has to be over first is logged first. -/
def InOrder (log : List Path) : Prop := log.Pairwise fun π π' => π ≠ π' ∧ ¬ Precedes π' π

theorem precedes_cons_self {π π' : Path} : Precedes (b :: π) (b :: π') ↔ Precedes π π' := by
  constructor
  · rintro (_ | _ | h | h)
    · exact absurd h (Nat.lt_irrefl _)
    · exact h
  · exact .under

theorem InOrder.map (h : InOrder log) (b : Branch) : InOrder (log.map (b :: ·)) := by
  refine List.pairwise_map.2 (h.imp ?_)
  rintro π π' ⟨hne, hprec⟩
  exact ⟨fun heq => hne (List.cons.inj heq).2, fun h => hprec (precedes_cons_self.1 h)⟩

/-- The node that a panic stops at below a step: the child if it is a parallel
    one, else the node above. -/
def Branch.keeper (above child : String) : Branch → String
  | .parallel _ => child
  | .serial _ => above

/-! ## Outcomes -/

namespace Stage

variable {σ : Type} {ctx : TickContext} {s : Stage σ} {w : Workspace σ}

/-- How the update of the system ends, if there is one. -/
def outcome? (ctx : TickContext) (s : Stage σ) (w : Workspace σ) : Option Outcome :=
  s.system.map fun system => (system.update ctx s.access w).outcome

/-- What a stage makes of the end of its update. -/
theorem fst_run (ctx : TickContext) (s : Stage σ) (w : Workspace σ) :
    (s.run ctx w).1 = match s.outcome? ctx w with
      | none => .ok {}
      | some (.batch b) => .ok b
      | some (.failed e) => .error (.error (.system s.name e))
      | some (.panicked payload) => .error (.panic payload) := by
  unfold run outcome?
  cases s.system with
  | none => rfl
  | some system =>
    simp only [Option.map_some]
    cases (system.update ctx s.access w).outcome <;> rfl

theorem run_eq_ok {b : Batch} (h : (s.run ctx w).1 = .ok b) :
    s.outcome? ctx w = some (.batch b) ∨ s.system = none ∧ b = {} := by
  rw [fst_run] at h
  split at h
  · rename_i hnone
    cases h
    exact .inr ⟨by simpa [outcome?] using hnone, rfl⟩
  · rename_i hbatch
    cases h
    exact .inl hbatch
  · cases h
  · cases h

theorem run_eq_error {f : Fault} (h : (s.run ctx w).1 = .error f) :
    (∃ e, s.outcome? ctx w = some (.failed e) ∧ f = .error (.system s.name e)) ∨
      ∃ payload, s.outcome? ctx w = some (.panicked payload) ∧ f = .panic payload := by
  rw [fst_run] at h
  split at h
  · cases h
  · cases h
  · rename_i hfailed
    cases h
    exact .inl ⟨_, hfailed, rfl⟩
  · rename_i hpanicked
    cases h
    exact .inr ⟨_, hpanicked, rfl⟩

theorem isSome_of_outcome? {o : Outcome} (h : s.outcome? ctx w = some o) : s.system.isSome := by
  rw [outcome?, Option.map_eq_some_iff] at h
  obtain ⟨system, hsystem, -⟩ := h
  rw [hsystem]
  rfl

theorem isSome_of_error {f : Fault} (h : (s.run ctx w).1 = .error f) : s.system.isSome := by
  obtain ⟨e, he, -⟩ | ⟨payload, hpayload, -⟩ := run_eq_error h
  · exact isSome_of_outcome? he
  · exact isSome_of_outcome? hpayload

end Stage

namespace Pipeline

variable {σ : Type} {ctx : TickContext} {t : Schedule σ} {p c : Pipeline σ} {s : Stage σ}
  {ps : List (Pipeline σ)} {r : Except Fault Batch}

/-- How the update of the system at a path ends on what it finds. -/
def outcome? (ctx : TickContext) (t : Schedule σ) (p : Pipeline σ) (π : Path) : Option Outcome :=
  (p.stage? π).bind fun s => s.outcome? ctx (t.seen π)

theorem outcome?_of_stage? (h : p.stage? π = some s) :
    outcome? ctx t p π = s.outcome? ctx (t.seen π) := by
  rw [outcome?, h]
  rfl

theorem outcome?_eq_some_iff {o : Outcome} : outcome? ctx t p π = some o ↔
    ∃ s system, p.stage? π = some s ∧ s.system = some system ∧
      (system.update ctx s.access (t.seen π)).outcome = o := by
  simp only [outcome?, Stage.outcome?, Option.bind_eq_some_iff, Option.map_eq_some_iff]
  constructor
  · rintro ⟨s, hs, system, hsystem, ho⟩
    exact ⟨s, system, hs, hsystem, ho⟩
  · rintro ⟨s, system, hs, hsystem, ho⟩
    exact ⟨s, hs, system, hsystem, ho⟩

theorem outcome?_under (h : p.child? b = some c) (π : Path) :
    outcome? ctx t p (b :: π) = outcome? ctx (t.under b) c π := by
  rw [outcome?, stage?_cons_of_child h]
  rfl

theorem outcome?_withSerial (h : p.stage? π = some s) (c : Pipeline σ) :
    outcome? ctx t (p.withSerial c) π = outcome? ctx t p π := by
  rw [outcome?_of_stage? h, outcome?_of_stage? (stage?_withSerial h c)]

/-! ## Failures -/

/-- The update of the system at the path ends with an error or a panic. -/
def Fails (ctx : TickContext) (t : Schedule σ) (p : Pipeline σ) (π : Path) : Prop :=
  (∃ e, outcome? ctx t p π = some (.failed e)) ∨
    ∃ payload, outcome? ctx t p π = some (.panicked payload)

/-- There is a system at the path, and none that has to be over before it
    fails. -/
def Ready (ctx : TickContext) (t : Schedule σ) (p : Pipeline σ) (π : Path) : Prop :=
  p.HasSystem π ∧ ∀ π', Precedes π' π → ¬ Fails ctx t p π'

theorem Fails.exists_stage (h : Fails ctx t p π) : ∃ s, p.stage? π = some s := by
  obtain ⟨e, he⟩ | ⟨payload, he⟩ := h <;>
    obtain ⟨s, -, hs, -⟩ := outcome?_eq_some_iff.1 he <;>
    exact ⟨s, hs⟩

/-- A stage gives no batch just if the update of its system fails. -/
theorem fails_iff (h : p.stage? π = some s) :
    Fails ctx t p π ↔ ∃ f, (s.run ctx (t.seen π)).1 = .error f := by
  rw [Fails, outcome?_of_stage? h]
  constructor
  · rintro (⟨e, he⟩ | ⟨payload, he⟩)
    · exact ⟨_, by rw [Stage.fst_run, he]⟩
    · exact ⟨_, by rw [Stage.fst_run, he]⟩
  · rintro ⟨f, hf⟩
    obtain ⟨e, he, -⟩ | ⟨payload, he, -⟩ := Stage.run_eq_error hf
    · exact .inl ⟨e, he⟩
    · exact .inr ⟨payload, he⟩

theorem fails_nil : Fails ctx t p [] ↔ ∃ f, (p.stage.run ctx (t.seen [])).1 = .error f :=
  fails_iff p.stage?_nil

theorem not_fails_nil {own : Batch} (h : (p.stage.run ctx (t.seen [])).1 = .ok own) :
    ¬ Fails ctx t p [] := by
  rw [fails_nil]
  rintro ⟨f, hf⟩
  exact nomatch h.symm.trans hf

theorem fails_under (h : p.child? b = some c) :
    Fails ctx t p (b :: π) ↔ Fails ctx (t.under b) c π := by
  rw [Fails, Fails, outcome?_under h]

theorem hasSystem_under (h : p.child? b = some c) :
    p.HasSystem (b :: π) ↔ c.HasSystem π := by
  rw [HasSystem, stage?_cons_of_child h]
  rfl

theorem child?_parallel {ss : List (Pipeline σ)} {i : Nat} (h : ps[i]? = some c) :
    (node s ps ss).child? (.parallel i) = some c := h

/-- In a tree without serial children a path stays at the root, or leads to a
    parallel child. -/
theorem childless_cases {s' : Stage σ} (h : (node s ps []).stage? π = some s') :
    π = [] ∨ ∃ i c π', ps[i]? = some c ∧ π = .parallel i :: π' := by
  cases π with
  | nil => exact .inl rfl
  | cons b π =>
    obtain ⟨c, hc, -⟩ := exists_child_of_stage? h
    cases b with
    | parallel i => exact .inr ⟨i, c, π, hc, rfl⟩
    | serial i => cases hc

theorem Fails.withSerial (h : Fails ctx t p π) (c : Pipeline σ) :
    Fails ctx t (p.withSerial c) π := by
  obtain ⟨s, hs⟩ := h.exists_stage
  rwa [Fails, outcome?_withSerial hs]

theorem HasSystem.withSerial (h : p.HasSystem π) (c : Pipeline σ) :
    (p.withSerial c).HasSystem π := by
  obtain ⟨s, hs, hsome⟩ := h
  exact ⟨s, stage?_withSerial hs c, hsome⟩

theorem fails_withSerial :
    Fails ctx t (p.withSerial c) π ↔ Fails ctx t p π ∨
      ∃ π', π = .serial p.serial.length :: π' ∧
        Fails ctx (t.under (.serial p.serial.length)) c π' := by
  constructor
  · intro h
    obtain ⟨s, hs⟩ := h.exists_stage
    obtain hs' | ⟨π', rfl, -⟩ := stage?_withSerial_cases hs
    · rw [Fails, outcome?_withSerial hs'] at h
      exact .inl h
    · exact .inr ⟨π', rfl, (fails_under (child?_withSerial_self p c)).1 h⟩
  · rintro (h | ⟨π', rfl, h⟩)
    · exact h.withSerial c
    · exact (fails_under (child?_withSerial_self p c)).2 h

theorem hasSystem_withSerial :
    (p.withSerial c).HasSystem π ↔ p.HasSystem π ∨
      ∃ π', π = .serial p.serial.length :: π' ∧ c.HasSystem π' := by
  constructor
  · rintro ⟨s, hs, hsome⟩
    obtain hs' | ⟨π', rfl, hs'⟩ := stage?_withSerial_cases hs
    · exact .inl ⟨s, hs', hsome⟩
    · exact .inr ⟨π', rfl, s, hs', hsome⟩
  · rintro (h | ⟨π', rfl, h⟩)
    · exact h.withSerial c
    · exact (hasSystem_under (child?_withSerial_self p c)).2 h

/-- What runs in a tree with a serial child more is what runs without it, and
    the child if nothing else fails. -/
theorem ready_withSerial :
    Ready ctx t (p.withSerial c) π ↔ Ready ctx t p π ∨
      (∀ π', ¬ Fails ctx t p π') ∧ ∃ π', π = .serial p.serial.length :: π' ∧
        Ready ctx (t.under (.serial p.serial.length)) c π' := by
  constructor
  · rintro ⟨hsys, hbefore⟩
    obtain hsys' | ⟨π', rfl, hsys'⟩ := hasSystem_withSerial.1 hsys
    · exact .inl ⟨hsys', fun π' hprec hf => hbefore π' hprec (hf.withSerial c)⟩
    · refine .inr ⟨fun π'' hf => ?_, π', rfl, hsys', fun π'' hprec hf => ?_⟩
      · obtain ⟨s, hs⟩ := hf.exists_stage
        exact hbefore π'' (precedes_of_stage? hs π') (hf.withSerial c)
      · exact hbefore _ (.under hprec) (fails_withSerial.2 (.inr ⟨π'', rfl, hf⟩))
  · rintro (⟨hsys, hbefore⟩ | ⟨hno, π', rfl, hsys, hbefore⟩)
    · refine ⟨hsys.withSerial c, fun π' hprec hf => ?_⟩
      obtain hf | ⟨π'', rfl, -⟩ := fails_withSerial.1 hf
      · exact hbefore π' hprec hf
      · obtain ⟨s, hs, -⟩ := hsys
        exact not_precedes_of_stage? hs π'' hprec
    · refine ⟨hasSystem_withSerial.2 (.inr ⟨π', rfl, hsys⟩), fun π'' hprec hf => ?_⟩
      obtain hf' | ⟨π₃, rfl, hf'⟩ := fails_withSerial.1 hf
      · exact hno π'' hf'
      · obtain ⟨j, π₄, heq, hlt⟩ | ⟨π₄, heq, hprec'⟩ := precedes_serial_iff.1 hprec
        · cases heq
          exact Nat.lt_irrefl _ hlt
        · cases heq
          exact hbefore π₃ hprec' hf'

theorem ready_parallel {i : Nat} (hc : ps[i]? = some c) :
    Ready ctx t (node s ps []) (.parallel i :: π) ↔
      ¬ Fails ctx t (node s ps []) [] ∧ Ready ctx (t.under (.parallel i)) c π := by
  have hchild : (node s ps []).child? (.parallel i) = some c := hc
  rw [Ready, Ready, hasSystem_under hchild]
  constructor
  · rintro ⟨hsys, hbefore⟩
    exact ⟨hbefore [] .own, hsys, fun π' hprec hf =>
      hbefore _ (.under hprec) ((fails_under hchild).2 hf)⟩
  · rintro ⟨hown, hsys, hbefore⟩
    refine ⟨hsys, fun π' hprec hf => ?_⟩
    obtain rfl | ⟨π'', rfl, hprec'⟩ := precedes_parallel_iff.1 hprec
    · exact hown hf
    · exact hbefore π'' hprec' ((fails_under hchild).1 hf)

/-! ## Results -/

theorem foldl_combine_of_error {combiner : BatchCombiner} {e : ExecutionError}
    (h : combiner.error = some e) (answers : List (Except ExecutionError Batch)) :
    answers.foldl BatchCombiner.combine combiner = combiner := by
  induction answers with
  | nil => rfl
  | cons answer rest ih =>
    have hskip : combiner.combine answer = combiner := by simp only [BatchCombiner.combine, h]
    rw [List.foldl_cons, hskip, ih]

/-- The commands of a result. -/
def commandsOf : Except Fault Batch → List Command
  | .ok b => b.commands
  | .error _ => []

/-- Parallel children give their batches as they complete, or one of their
    failures. -/
theorem foldl_arriving (results : Nat → Except Fault Batch) {order : List Nat}
    (horder : ∀ i ∈ order, i < ps.length) (combiner : BatchCombiner)
    (hcombiner : combiner.error = none) :
    ((∀ i ∈ order, ∃ b, results i = .ok b) ∧
      ((arriving ps results order).foldl BatchCombiner.combine combiner).result =
        .ok ⟨combiner.batch.commands ++ order.flatMap fun i => commandsOf (results i)⟩) ∨
    ∃ i ∈ order, ∃ c f, ps[i]? = some c ∧ results i = .error f ∧
      ((arriving ps results order).foldl BatchCombiner.combine combiner).result =
        .error (f.contain c.name) := by
  induction order generalizing combiner with
  | nil =>
    refine .inl ⟨by simp, ?_⟩
    simp [arriving, BatchCombiner.result, hcombiner]
  | cons i order ih =>
    obtain ⟨hi, horder⟩ := List.forall_mem_cons.1 horder
    have hc : ps[i]? = some ps[i] := List.getElem?_eq_getElem hi
    have hcons : arriving ps results (i :: order) =
        (results i).mapError (Fault.contain ps[i].name) :: arriving ps results order := by
      simp [arriving, hc]
    rw [hcons, List.foldl_cons]
    cases hresult : results i with
    | error f =>
      refine .inr ⟨i, List.mem_cons_self, ps[i], f, hc, hresult, ?_⟩
      have hfirst : combiner.combine ((Except.error f : Except Fault Batch).mapError
          (Fault.contain ps[i].name)) =
          { combiner with error := some (f.contain ps[i].name) } := by
        simp [BatchCombiner.combine, hcombiner, Except.mapError]
      rw [hfirst, foldl_combine_of_error rfl, BatchCombiner.result]
    | ok b =>
      have hnext : combiner.combine ((Except.ok b : Except Fault Batch).mapError
          (Fault.contain ps[i].name)) = { combiner with batch := combiner.batch ++ b } := by
        simp [BatchCombiner.combine, hcombiner, Except.mapError]
      rw [hnext]
      obtain ⟨hall, heq⟩ | ⟨j, hj, c, f, hcj, hf, heq⟩ :=
        ih horder { combiner with batch := combiner.batch ++ b } hcombiner
      · refine .inl ⟨List.forall_mem_cons.2 ⟨⟨b, hresult⟩, hall⟩, ?_⟩
        rw [heq, List.flatMap_cons, hresult, commandsOf, Batch.commands_append, List.append_assoc]
      · exact .inr ⟨j, List.mem_cons_of_mem _ hj, c, f, hcj, hf, heq⟩

theorem mem_order_iff {order : List Nat} (h : order.Perm (List.range ps.length)) {i : Nat} :
    i ∈ order ↔ ∃ c, ps[i]? = some c := by
  rw [h.mem_iff, List.mem_range]
  simp [List.getElem?_eq_some_iff]

theorem joined_cases (results : Nat → Except Fault Batch) {order : List Nat}
    (horder : order.Perm (List.range ps.length)) (own : Batch) :
    ((∀ i c, ps[i]? = some c → ∃ b, results i = .ok b) ∧ joined own (arriving ps results order) =
      .ok ⟨own.commands ++ order.flatMap fun i => commandsOf (results i)⟩) ∨
    ∃ i c f, ps[i]? = some c ∧ results i = .error f ∧
      joined own (arriving ps results order) = .error (.error (f.contain c.name)) := by
  have hlt : ∀ i ∈ order, i < ps.length := fun i hi => List.mem_range.1 (horder.mem_iff.1 hi)
  obtain ⟨hall, heq⟩ | ⟨i, hi, c, f, hc, hf, heq⟩ :=
    foldl_arriving results hlt {} rfl
  · refine .inl ⟨fun i c hc => hall i ((mem_order_iff horder).2 ⟨c, hc⟩), ?_⟩
    rw [joined, heq]
    rfl
  · refine .inr ⟨i, c, f, hc, hf, ?_⟩
    rw [joined, heq]
    rfl

theorem fails_childless (hown : ¬ Fails ctx t (node s ps []) []) :
    (∃ π, Fails ctx t (node s ps []) π) ↔
      ∃ i c, ps[i]? = some c ∧ ∃ π, Fails ctx (t.under (.parallel i)) c π := by
  constructor
  · rintro ⟨π, hf⟩
    obtain ⟨s', hs'⟩ := hf.exists_stage
    obtain rfl | ⟨i, c, π', hc, rfl⟩ := childless_cases hs'
    · exact absurd hf hown
    · exact ⟨i, c, hc, π', (fails_under (child?_parallel hc)).1 hf⟩
  · rintro ⟨i, c, hc, π, hf⟩
    exact ⟨.parallel i :: π, (fails_under (child?_parallel hc)).2 hf⟩

/-- **A tree fails just if one of its systems does.** -/
theorem Executes.error_iff (h : Executes ctx t p log r) (ht : t.Legal p) :
    (∃ f, r = .error f) ↔ ∃ π, Fails ctx t p π := by
  induction h with
  | @stops t s ps f hown =>
    exact iff_of_true ⟨f, rfl⟩ ⟨[], fails_nil.2 ⟨f, hown⟩⟩
  | @fansOut t s ps own logs results log hown hps hlog ih =>
    have hstage : ¬ Fails ctx t (node s ps []) [] := not_fails_nil hown
    rw [fails_childless hstage]
    obtain ⟨hall, heq⟩ | ⟨i, c, f, hc, hf, heq⟩ :=
      joined_cases results ht.order_nil own
    · rw [parallel] at heq
      rw [heq]
      refine iff_of_false (by rintro ⟨f, ⟨⟩⟩) ?_
      rintro ⟨i, c, hc, hfails⟩
      obtain ⟨f, hf⟩ := (ih i c hc (ht.under (child?_parallel hc))).2 hfails
      obtain ⟨b, hb⟩ := hall i c hc
      cases hb.symm.trans hf
    · refine iff_of_true ⟨_, heq⟩ ⟨i, c, hc, ?_⟩
      exact (ih i c hc (ht.under (child?_parallel hc))).1 ⟨f, hf⟩
  | @goesOn t p c log log' b r hp hc ihp ihc =>
    have hno : ¬ ∃ π, Fails ctx t p π := by
      rw [← ihp ht.of_withSerial]
      rintro ⟨f, ⟨⟩⟩
    have hlast := ihc (ht.under (Pipeline.child?_withSerial_self p c))
    constructor
    · rintro ⟨f, hf⟩
      cases r with
      | ok b' => cases hf
      | error f' =>
        obtain ⟨π, hπ⟩ := hlast.1 ⟨f', rfl⟩
        exact ⟨_, fails_withSerial.2 (.inr ⟨π, rfl, hπ⟩)⟩
    · rintro ⟨π, hπ⟩
      obtain hπ | ⟨π', rfl, hπ'⟩ := fails_withSerial.1 hπ
      · exact absurd ⟨π, hπ⟩ hno
      · obtain ⟨f, rfl⟩ := hlast.2 ⟨π', hπ'⟩
        exact ⟨f, rfl⟩
  | @breaksOff t p c log f hp ih =>
    obtain ⟨π, hπ⟩ := (ih ht.of_withSerial).1 ⟨f, rfl⟩
    exact iff_of_true ⟨f, rfl⟩ ⟨π, hπ.withSerial c⟩

/-! ## Logs of executions -/

theorem mem_stage_log : π ∈ s.log ↔ π = [] ∧ s.system.isSome := by
  unfold Stage.log
  split <;> simp_all

theorem ready_nil : Ready ctx t p [] ↔ p.stage.system.isSome := by
  simp [Ready, HasSystem, not_precedes_nil]

/-- **The systems that run are those that nothing stops.** -/
theorem Executes.mem_log_iff (h : Executes ctx t p log r) (ht : t.Legal p) :
    π ∈ log ↔ Ready ctx t p π := by
  induction h generalizing π with
  | @stops t s ps f hown =>
    rw [mem_stage_log]
    constructor
    · rintro ⟨rfl, hsys⟩
      exact ready_nil.2 hsys
    · intro hready
      cases π with
      | nil => exact ⟨rfl, ready_nil.1 hready⟩
      | cons b π => exact absurd (fails_nil.2 ⟨f, hown⟩) (hready.2 [] .own)
  | @fansOut t s ps own logs results log hown hps hlog ih =>
    have hstage : ¬ Fails ctx t (node s ps []) [] := not_fails_nil hown
    rw [List.mem_append, mem_stage_log, hlog.mem_iff]
    constructor
    · rintro (⟨rfl, hsys⟩ | ⟨i, hi, π', hπ', rfl⟩)
      · exact ready_nil.2 hsys
      · have hc : ps[i]? = some ps[i] := List.getElem?_eq_getElem hi
        exact (ready_parallel hc).2 ⟨hstage, (ih i _ hc (ht.under (child?_parallel hc))).1 hπ'⟩
    · intro hready
      obtain ⟨s', hs', -⟩ := hready.1
      obtain rfl | ⟨i, c, π', hc, rfl⟩ := childless_cases hs'
      · exact .inl ⟨rfl, ready_nil.1 hready⟩
      · refine .inr ⟨i, (List.getElem?_eq_some_iff.1 hc).1, π', ?_, rfl⟩
        exact (ih i c hc (ht.under (child?_parallel hc))).2 ((ready_parallel hc).1 hready).2
  | @goesOn t p c log log' b r hp hc ihp ihc =>
    have hno : ∀ π, ¬ Fails ctx t p π := by
      intro π hπ
      exact nomatch (hp.error_iff ht.of_withSerial).2 ⟨π, hπ⟩
    have hlast := fun π => @ihc π (ht.under (child?_withSerial_self p c))
    rw [ready_withSerial, List.mem_append, ihp ht.of_withSerial, List.mem_map]
    refine or_congr_right ⟨?_, ?_⟩
    · rintro ⟨π', hπ', rfl⟩
      exact ⟨hno, π', rfl, (hlast π').1 hπ'⟩
    · rintro ⟨-, π', rfl, hπ'⟩
      exact ⟨π', (hlast π').2 hπ', rfl⟩
  | @breaksOff t p c log f hp ih =>
    rw [ready_withSerial, ih ht.of_withSerial]
    refine (or_iff_left ?_).symm
    rintro ⟨hno, -⟩
    obtain ⟨π', hπ'⟩ := (hp.error_iff ht.of_withSerial).1 ⟨f, rfl⟩
    exact hno π' hπ'

/-- **Systems run once, and in order.** -/
theorem Executes.inOrder (h : Executes ctx t p log r) (ht : t.Legal p) : InOrder log := by
  induction h with
  | @stops t s ps f hown =>
    unfold Stage.log
    split <;> simp [InOrder]
  | @fansOut t s ps own logs results log hown hps hlog ih =>
    refine List.pairwise_append.2 ⟨?_, hlog.pairwise (fun i hi => ?_) ?_, ?_⟩
    · unfold Stage.log
      split <;> simp
    · have hc : ps[i]? = some ps[i] := List.getElem?_eq_getElem hi
      exact List.pairwise_map.1 ((ih i _ hc (ht.under (child?_parallel hc))).map _)
    · rintro i j π π' hij
      refine ⟨fun heq => hij (by cases heq; rfl), fun hprec => ?_⟩
      obtain hnil | ⟨π'', heq, -⟩ := precedes_parallel_iff.1 hprec
      · cases hnil
      · cases heq
        exact hij rfl
    · intro π hπ π' hπ'
      obtain ⟨rfl, -⟩ := mem_stage_log.1 hπ
      obtain ⟨i, -, π'', rfl⟩ := hlog.1 π' hπ'
      exact ⟨nofun, not_precedes_nil _⟩
  | @goesOn t p c log log' b r hp hc ihp ihc =>
    have hlast := ihc (ht.under (child?_withSerial_self p c))
    refine List.pairwise_append.2 ⟨ihp ht.of_withSerial, hlast.map _, ?_⟩
    intro π hπ π' hπ'
    obtain ⟨⟨s, hs, -⟩, -⟩ := (hp.mem_log_iff ht.of_withSerial).1 hπ
    obtain ⟨π', -, rfl⟩ := List.mem_map.1 hπ'
    refine ⟨?_, not_precedes_of_stage? hs π'⟩
    rintro rfl
    rw [stage?_serial_length] at hs
    cases hs
  | @breaksOff t p c log f hp ih => exact ih ht.of_withSerial

/-! ## Commands -/

/-- What the system at a path asks for. -/
def commandsAt (ctx : TickContext) (t : Schedule σ) (p : Pipeline σ) (π : Path) : List Command :=
  match outcome? ctx t p π with
  | some (.batch b) => b.commands
  | _ => []

/-- An order of all systems of a tree in which those of a child follow each
    other: first the root, then the parallel children in some order, then the
    serial children in the order of the list. -/
inductive Arranged : Pipeline σ → List Path → Prop
  | parallel {s : Stage σ} {ps : List (Pipeline σ)} {order : List Nat} {blocks : Nat → List Path}
      (horder : order.Perm (List.range ps.length))
      (hps : ∀ i p, ps[i]? = some p → Arranged p (blocks i)) :
      Arranged (.node s ps []) (s.log ++ order.flatMap fun i => (blocks i).map (.parallel i :: ·))
  | serial {p c : Pipeline σ} {listing block : List Path} (hp : Arranged p listing)
      (hc : Arranged c block) :
      Arranged (p.withSerial c) (listing ++ block.map (.serial p.serial.length :: ·))

theorem Arranged.mem_iff {listing : List Path} (h : Arranged p listing) :
    π ∈ listing ↔ p.HasSystem π := by
  induction h generalizing π with
  | @parallel s ps order blocks horder hps ih =>
    rw [List.mem_append, mem_stage_log]
    constructor
    · rintro (⟨rfl, hsys⟩ | hmem)
      · exact ⟨s, rfl, hsys⟩
      · obtain ⟨i, hi, hmem⟩ := List.mem_flatMap.1 hmem
        obtain ⟨π', hπ', rfl⟩ := List.mem_map.1 hmem
        obtain ⟨c, hc⟩ := (mem_order_iff horder).1 hi
        exact (hasSystem_under (child?_parallel hc)).2 ((ih i _ hc).1 hπ')
    · intro hsys
      obtain ⟨s', hs', hsome⟩ := id hsys
      obtain rfl | ⟨i, c, π', hc, rfl⟩ := childless_cases hs'
      · cases hs'
        exact .inl ⟨rfl, hsome⟩
      · refine .inr (List.mem_flatMap.2 ⟨i, ?_, List.mem_map.2 ⟨π', ?_, rfl⟩⟩)
        · exact (mem_order_iff horder).2 ⟨c, hc⟩
        · exact (ih i c hc).2 ((hasSystem_under (child?_parallel hc)).1 hsys)
  | @serial p c listing block hp hc ihp ihc =>
    simp only [List.mem_append, ihp, List.mem_map, ihc, hasSystem_withSerial, eq_comm, and_comm]

theorem nodup_map_cons {block : List Path} (h : block.Nodup) (b : Branch) :
    (block.map (b :: ·)).Nodup :=
  h.map fun _ _ heq => (List.cons.inj heq).2

theorem Arranged.nodup {listing : List Path} (h : Arranged p listing) : listing.Nodup := by
  induction h with
  | @parallel s ps order blocks horder hps ih =>
    refine List.Nodup.append ?_ (List.nodup_flatMap.2 ⟨fun i hi => ?_, ?_⟩) ?_
    · unfold Stage.log
      split <;> simp
    · obtain ⟨c, hc⟩ := (mem_order_iff horder).1 hi
      exact nodup_map_cons (ih i _ hc) _
    · have hnodup : order.Nodup := horder.nodup_iff.2 List.nodup_range
      refine hnodup.imp fun {i j} hij π hπ hπ' => ?_
      obtain ⟨π₁, -, rfl⟩ := List.mem_map.1 hπ
      obtain ⟨π₂, -, heq⟩ := List.mem_map.1 hπ'
      cases heq
      exact hij rfl
    · intro π hπ hπ'
      obtain ⟨rfl, -⟩ := mem_stage_log.1 hπ
      simp at hπ'
  | @serial p c listing block hp hc ihp ihc =>
    refine List.Nodup.append ihp (nodup_map_cons ihc _) fun π hπ hπ' => ?_
    obtain ⟨s, hs, -⟩ := hp.mem_iff.1 hπ
    obtain ⟨π', -, rfl⟩ := List.mem_map.1 hπ'
    rw [stage?_serial_length] at hs
    cases hs

theorem commandsAt_under (h : p.child? b = some c) (π : Path) :
    commandsAt ctx t p (b :: π) = commandsAt ctx (t.under b) c π := by
  rw [commandsAt, commandsAt, outcome?_under h]

theorem flatMap_commandsAt_under (h : p.child? b = some c) (block : List Path) :
    (block.map (b :: ·)).flatMap (commandsAt ctx t p) =
      block.flatMap (commandsAt ctx (t.under b) c) := by
  rw [List.flatMap_map]
  exact List.flatMap_congr fun π _ => commandsAt_under h π

theorem commandsAt_withSerial (h : p.stage? π = some s) (c : Pipeline σ) :
    commandsAt ctx t (p.withSerial c) π = commandsAt ctx t p π := by
  rw [commandsAt, commandsAt, outcome?_withSerial h]

theorem flatMap_log {ss : List (Pipeline σ)} {own : Batch}
    (h : (s.run ctx (t.seen [])).1 = .ok own) :
    s.log.flatMap (commandsAt ctx t (node s ps ss)) = own.commands := by
  unfold Stage.log
  obtain hbatch | ⟨hnone, rfl⟩ := Stage.run_eq_ok h
  · rw [if_pos (Stage.isSome_of_outcome? hbatch), List.flatMap_singleton, commandsAt,
      outcome?_of_stage? (stage?_nil _), stage, hbatch]
  · rw [hnone]
    rfl

/-- **The batch of a tree lists the commands of all its systems.** -/
theorem Executes.arranged {own : Batch} (h : Executes ctx t p log (.ok own)) (ht : t.Legal p) :
    ∃ listing, Arranged p listing ∧ own.commands = listing.flatMap (commandsAt ctx t p) := by
  generalize hr : Except.ok own = r at h
  induction h generalizing own with
  | stops | breaksOff => cases hr
  | @fansOut t s ps own' logs results log hown hps hlog ih =>
    obtain ⟨hall, heq⟩ | ⟨i, c, f, -, -, heq⟩ :=
      joined_cases results ht.order_nil own'
    · have hblock : ∀ i, ∃ block, ∀ c, ps[i]? = some c → Arranged c block ∧
          commandsOf (results i) = block.flatMap (commandsAt ctx (t.under (.parallel i)) c) := by
        intro i
        cases hc : ps[i]? with
        | none => exact ⟨[], by simp⟩
        | some c =>
          obtain ⟨b, hb⟩ := hall i c hc
          obtain ⟨block, hblock, hcommands⟩ := ih i c hc (ht.under (child?_parallel hc)) hb.symm
          refine ⟨block, ?_⟩
          rintro _ ⟨⟩
          exact ⟨hblock, by rw [hb, commandsOf, hcommands]⟩
      choose blocks hblocks using hblock
      refine ⟨_, .parallel ht.order_nil fun i c hc => (hblocks i c hc).1, ?_⟩
      cases hr.trans heq
      rw [List.flatMap_append, flatMap_log hown, List.flatMap_assoc]
      refine congrArg (own'.commands ++ ·) ?_
      refine List.flatMap_congr fun i hi => ?_
      obtain ⟨c, hc⟩ : ∃ c, ps[i]? = some c := (mem_order_iff ht.order_nil).1 hi
      rw [flatMap_commandsAt_under (child?_parallel hc), (hblocks i c hc).2]
    · exact nomatch hr.trans heq
  | @goesOn t p c log log' b r hp hc ihp ihc =>
    cases r with
    | error f => cases hr
    | ok b' =>
      obtain ⟨listing, hlisting, hcommands⟩ := ihp ht.of_withSerial rfl
      have hchild := child?_withSerial_self p c
      obtain ⟨block, hblock, hcommands'⟩ := ihc (ht.under hchild) rfl
      refine ⟨_, .serial hlisting hblock, ?_⟩
      cases hr
      rw [Batch.commands_append, hcommands, hcommands', List.flatMap_append,
        flatMap_commandsAt_under hchild]
      congr 1
      refine List.flatMap_congr fun π hπ => ?_
      obtain ⟨s, hs, -⟩ := hlisting.mem_iff.1 hπ
      exact (commandsAt_withSerial hs c).symm

/-! ## Errors -/

/-- The node that a panic at a path stops at: the last parallel child on the
    path, or the node called `name` if there is none. -/
def keeper (name : String) : Pipeline σ → Path → String
  | _, [] => name
  | p, b :: π =>
    match p.child? b with
    | some c => c.keeper (b.keeper name c.name) π
    | none => name

/-- The error is what the system at the path ended with, or tells of its panic
    and of the node that the panic stopped at. -/
def Blames (ctx : TickContext) (t : Schedule σ) (p : Pipeline σ) (name : String) (π : Path)
    (e : ExecutionError) : Prop :=
  ∃ s, p.stage? π = some s ∧
    ((∃ err, outcome? ctx t p π = some (.failed err) ∧ e = .system s.name err) ∨
      ∃ payload, outcome? ctx t p π = some (.panicked payload) ∧
        e = .panicked (p.keeper name π) payload.message)

theorem blames_nil {f : Fault} (h : (p.stage.run ctx (t.seen [])).1 = .error f) (name : String) :
    Blames ctx t p name [] (f.contain name) := by
  refine ⟨p.stage, p.stage?_nil, ?_⟩
  rw [outcome?_of_stage? p.stage?_nil]
  obtain ⟨e, he, rfl⟩ | ⟨payload, hpayload, rfl⟩ := Stage.run_eq_error h
  · exact .inl ⟨e, he, rfl⟩
  · exact .inr ⟨payload, hpayload, by rw [keeper]; rfl⟩

theorem keeper_withSerial {name : String} (h : p.stage? π = some s) (c : Pipeline σ) :
    (p.withSerial c).keeper name π = p.keeper name π := by
  cases π with
  | nil => rfl
  | cons b π =>
    obtain ⟨q, hq, -⟩ := exists_child_of_stage? h
    rw [keeper, keeper, child?_withSerial hq, hq]

theorem Blames.of_under {name : String} {e : ExecutionError} (hc : p.child? b = some c)
    (h : Blames ctx (t.under b) c (b.keeper name c.name) π e) :
    Blames ctx t p name (b :: π) e := by
  obtain ⟨s, hs, hcases⟩ := h
  refine ⟨s, stage?_cons_of_child hc π ▸ hs, ?_⟩
  rwa [outcome?_under hc, keeper, hc]

theorem Blames.withSerial {name : String} {e : ExecutionError} (h : Blames ctx t p name π e)
    (c : Pipeline σ) : Blames ctx t (p.withSerial c) name π e := by
  obtain ⟨s, hs, hcases⟩ := h
  refine ⟨s, stage?_withSerial hs c, ?_⟩
  rwa [outcome?_withSerial hs, keeper_withSerial hs c]

/-- **What fails a tree is the failure of a system that ran.** -/
theorem Executes.blames {f : Fault} (h : Executes ctx t p log (.error f)) (ht : t.Legal p) :
    ∃ π ∈ log, ∀ name, Blames ctx t p name π (f.contain name) := by
  -- a fault has no container yet while it is inside the tree, so the induction is for any name
  generalize hr : Except.error f = r at h
  induction h generalizing f with
  | @stops t s ps f' hown =>
    cases hr
    exact ⟨[], mem_stage_log.2 ⟨rfl, Stage.isSome_of_error hown⟩, blames_nil hown⟩
  | @fansOut t s ps own logs results log hown hps hlog ih =>
    obtain ⟨-, heq⟩ | ⟨i, c, f', hc, hf', heq⟩ :=
      joined_cases results ht.order_nil own
    · exact nomatch hr.trans heq
    · cases hr.trans heq
      obtain ⟨π, hπ, hblames⟩ := ih i c hc (ht.under (child?_parallel hc)) hf'.symm
      refine ⟨.parallel i :: π, List.mem_append_right _ ?_, fun name => ?_⟩
      · exact hlog.mem_iff.2 ⟨i, (List.getElem?_eq_some_iff.1 hc).1, π, hπ, rfl⟩
      · exact (hblames c.name).of_under (child?_parallel hc)
  | @goesOn t p c log log' b r hp hc ihp ihc =>
    cases r with
    | ok b' => cases hr
    | error f' =>
      cases hr
      obtain ⟨π, hπ, hblames⟩ := ihc (ht.under (child?_withSerial_self p c)) rfl
      refine ⟨_, List.mem_append_right _ (List.mem_map_of_mem hπ), fun name => ?_⟩
      exact (hblames name).of_under (child?_withSerial_self p c)
  | @breaksOff t p c log f' hp ih =>
    obtain ⟨π, hπ, hblames⟩ := ih ht.of_withSerial hr
    exact ⟨π, hπ, fun name => (hblames name).withSerial c⟩

theorem Blames.cases {name : String} {e : ExecutionError} (h : Blames ctx t p name π e) :
    ∃ s system, p.stage? π = some s ∧ s.system = some system ∧
      ((∃ err, (system.update ctx s.access (t.seen π)).outcome = .failed err ∧
          e = .system s.name err) ∨
        ∃ payload, (system.update ctx s.access (t.seen π)).outcome = .panicked payload ∧
          e = .panicked (p.keeper name π) payload.message) := by
  obtain ⟨s, hs, hcases⟩ := h
  have hsame : ∀ {s' : Stage σ}, p.stage? π = some s' → s' = s :=
    fun hs' => Option.some.inj (hs'.symm.trans hs)
  obtain ⟨err, herr, rfl⟩ | ⟨payload, hpayload, rfl⟩ := hcases
  · obtain ⟨s', system, hs', hsys, houtcome⟩ := outcome?_eq_some_iff.1 herr
    obtain rfl := hsame hs'
    exact ⟨s', system, hs', hsys, .inl ⟨err, houtcome, rfl⟩⟩
  · obtain ⟨s', system, hs', hsys, houtcome⟩ := outcome?_eq_some_iff.1 hpayload
    exact ⟨s', system, hs', hsys, .inr ⟨payload, houtcome, rfl⟩⟩

/-- **Executions of a tree that lets no panic pass.**  There are some for every
    order in which parallel children can complete, running the tree is one of
    them, and in each:

    * a system runs once if nothing that has to be over before it fails, and
      else not at all, and systems run after those that have to be over;
    * there is a batch unless some system fails;
    * the batch lists the commands of each system once, those of a child next to
      each other;
    * an error is that of a system that ran and failed. -/
theorem executions {ctx : TickContext} {p : Pipeline σ} {t : Schedule σ} (ht : t.Legal p) :
    (∃ log r, Executes ctx t p log r) ∧
    (∀ w, (p.inListOrder ctx w).Legal p ∧ ∃ log r, Executes ctx (p.inListOrder ctx w) p log r ∧
      (p.executeContained ctx w).1 = r.mapError (Fault.contain p.name)) ∧
    ∀ log r, Executes ctx t p log r →
      ((∀ π, (Ready ctx t p π → log.count π = 1) ∧ (¬ Ready ctx t p π → log.count π = 0)) ∧
        log.Pairwise fun π π' => ¬ Precedes π' π) ∧
      ((∃ b, r.mapError (Fault.contain p.name) = .ok b) ↔ ∀ π, ¬ Fails ctx t p π) ∧
      (∀ b, r.mapError (Fault.contain p.name) = .ok b →
        ∃ listing, p.Arranged listing ∧ listing.Nodup ∧ (∀ π, π ∈ listing ↔ p.HasSystem π) ∧
          b.commands = listing.flatMap (commandsAt ctx t p)) ∧
      ∀ e, r.mapError (Fault.contain p.name) = .error e →
        ∃ π ∈ log, ∃ s system, p.stage? π = some s ∧ s.system = some system ∧
          ((∃ err, (system.update ctx s.access (t.seen π)).outcome = .failed err ∧
              e = .system s.name err) ∨
            ∃ payload, (system.update ctx s.access (t.seen π)).outcome = .panicked payload ∧
              e = .panicked (p.keeper p.name π) payload.message) := by
  have hruns : ∀ w, ∃ log r, Executes ctx (p.inListOrder ctx w) p log r ∧
      (p.executeContained ctx w).1 = r.mapError (Fault.contain p.name) := by
    intro w
    obtain ⟨log, hlog⟩ := executes_inListOrder ctx p w
    exact ⟨log, _, hlog, rfl⟩
  refine ⟨exists_executes ctx p t, fun w => ⟨legal_inListOrder ctx p w, hruns w⟩, ?_⟩
  intro log r h
  have hnodup : log.Nodup := (h.inOrder ht).imp And.left
  have hcount : ∀ π, (Ready ctx t p π → log.count π = 1) ∧
      (¬ Ready ctx t p π → log.count π = 0) := by
    intro π
    rw [← h.mem_log_iff ht]
    exact ⟨List.count_eq_one_of_mem hnodup, List.count_eq_zero.2⟩
  refine ⟨⟨hcount, (h.inOrder ht).imp And.right⟩, ?_⟩
  have hfails := h.error_iff ht
  cases r with
  | ok own =>
    obtain ⟨listing, hlisting, hcommands⟩ := h.arranged ht
    have hno : ∀ π, ¬ Fails ctx t p π := fun π hπ => nomatch hfails.2 ⟨π, hπ⟩
    refine ⟨iff_of_true ⟨own, rfl⟩ hno, ?_, nofun⟩
    rintro b ⟨⟩
    exact ⟨listing, hlisting, hlisting.nodup, fun π => hlisting.mem_iff, hcommands⟩
  | error f =>
    obtain ⟨π, hπ⟩ := hfails.1 ⟨f, rfl⟩
    refine ⟨iff_of_false nofun (fun hno => hno π hπ), nofun, ?_⟩
    rintro e ⟨⟩
    obtain ⟨π, hπ, hblames⟩ := h.blames ht
    exact ⟨π, hπ, (hblames p.name).cases⟩

/-- A panic inside the first parallel child, which completes last: its sibling
    runs, and what follows does not. -/
theorem executions_panic :
    let leaf (name : String) (outcome : Outcome) : Pipeline Unit :=
      node ⟨name, some (.new name [] fun _ _ _ => ⟨outcome, [], ()⟩), [], {}⟩ [] []
    let p : Pipeline Unit :=
      ((((group "tick").withParallel ((group "left").withSerial
        (leaf "inner" (.panicked (.text "boom"))))).withParallel
        (leaf "right" (.batch ⟨[.exit]⟩))).withSerial (leaf "after" (.batch {})))
    let ctx : TickContext := ⟨1, ⟨0⟩⟩
    let t : Schedule Unit := ⟨fun _ => ⟨⟨#[]⟩, ()⟩, fun π =>
      (List.range (((p.at? π).map (·.parallel.length)).getD 0)).reverse⟩
    t.order [] = [1, 0] ∧ t.Legal p ∧ ∃ log r, Executes ctx t p log r ∧
      log.count [.parallel 1] = 1 ∧ log.count [.serial 0] = 0 ∧
      ¬ ∃ b, r.mapError (Fault.contain p.name) = .ok b := by
  intro leaf p ctx t
  have ht : t.Legal p := by
    intro π q hq
    simp [t, hq, List.reverse_perm]
  have hfails : Fails ctx t p [.parallel 0, .serial 0] := .inr ⟨_, rfl⟩
  have hready : Ready ctx t p [.parallel 1] := by
    refine ⟨⟨_, rfl, rfl⟩, fun π hprec => ?_⟩
    obtain rfl | ⟨π', -, hprec⟩ := precedes_parallel_iff.1 hprec
    · rintro (⟨e, ⟨⟩⟩ | ⟨payload, ⟨⟩⟩)
    · exact absurd hprec (not_precedes_nil π')
  have hnot : ¬ Ready ctx t p [.serial 0] := fun h => h.2 _ .parallel hfails
  obtain ⟨⟨log, r, h⟩, -, hall⟩ := @executions Unit ctx p t ht
  obtain ⟨⟨hcount, -⟩, hok, -⟩ := hall log r h
  exact ⟨rfl, ht, log, r, h, (hcount _).1 hready, (hcount _).2 hnot, fun hb => hok.1 hb _ hfails⟩

end Pipeline

end TickEngine
