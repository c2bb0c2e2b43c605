/-
  The ways in which a tree of systems can run.

  Parallel children run side by side, so what they do is interleaved, what one
  system finds may be the work of another, and they complete in any order.  A
  `Schedule` fixes what each system finds, which may be anything, and in which
  order the children of each node complete.  `Pipeline.Executes` then relates a
  tree to the logs of its systems, one entry for each run, and to its result.
  Serial children are taken from the last, so a tree is another one with a
  serial child more, or has parallel children only.

  * `Pipeline.exists_executes`: a tree can run under every schedule.
  * `Pipeline.executes_inListOrder`: `Pipeline.execute` is what happens if
    children complete in the order of the list.
-/
import TickEngine.Pipeline.Execution
import TickEngine.Proofs.Stages

namespace TickEngine

namespace Batch

theorem append_empty (b : Batch) : b ++ ({} : Batch) = b := congrArg mk (List.append_nil _)

theorem append_assoc (a b c : Batch) : a ++ b ++ c = a ++ (b ++ c) :=
  congrArg mk (List.append_assoc ..)

end Batch

/-! ## Paths -/

/-- A step from a node to one of its children. -/
inductive Branch where
  | parallel (i : Nat)
  | serial (i : Nat)
  deriving DecidableEq, Repr

/-- The steps from the root to a node. -/
abbrev Path := List Branch

/-- What has to be over before a system runs: the system of a node comes before
    the children, parallel children come before serial ones, and a serial child
    comes before the later ones. -/
inductive Precedes : Path → Path → Prop
  | own {b π} : Precedes [] (b :: π)
  | parallel {i j π π'} : Precedes (.parallel i :: π) (.serial j :: π')
  | serial {i j π π'} : i < j → Precedes (.serial i :: π) (.serial j :: π')
  | under {b π π'} : Precedes π π' → Precedes (b :: π) (b :: π')

theorem not_precedes_nil (π : Path) : ¬ Precedes π [] := nofun

theorem precedes_parallel_iff {π π' : Path} {i : Nat} :
    Precedes π (.parallel i :: π') ↔
      π = [] ∨ ∃ π'', π = .parallel i :: π'' ∧ Precedes π'' π' := by
  constructor
  · rintro (_ | _ | _ | h)
    · exact .inl rfl
    · exact .inr ⟨_, rfl, h⟩
  · rintro (rfl | ⟨π'', rfl, h⟩)
    · exact .own
    · exact .under h

theorem precedes_serial_iff {π π' : Path} {i : Nat} :
    Precedes (.serial i :: π) π' ↔
      (∃ j π'', π' = .serial j :: π'' ∧ i < j) ∨
        ∃ π'', π' = .serial i :: π'' ∧ Precedes π π'' := by
  constructor
  · rintro (_ | _ | h | h)
    · exact .inl ⟨_, _, rfl, h⟩
    · exact .inr ⟨_, rfl, h⟩
  · rintro (⟨j, π'', rfl, h⟩ | ⟨π'', rfl, h⟩)
    · exact .serial h
    · exact .under h

namespace Pipeline

variable {σ : Type} {p c q : Pipeline σ} {s : Stage σ} {ps : List (Pipeline σ)} {b : Branch}
  {π : Path}

/-- The child at the end of a step. -/
def child? (p : Pipeline σ) : Branch → Option (Pipeline σ)
  | .parallel i => p.parallel[i]?
  | .serial i => p.serial[i]?

/-- The subtree at a path. -/
def at? : Pipeline σ → Path → Option (Pipeline σ)
  | p, [] => some p
  | p, b :: π => (p.child? b).bind fun c => c.at? π

/-- The stage at a path. -/
def stage? (p : Pipeline σ) (π : Path) : Option (Stage σ) := (p.at? π).map stage

/-- There is a system at the path. -/
def HasSystem (p : Pipeline σ) (π : Path) : Prop := ∃ s, p.stage? π = some s ∧ s.system.isSome

@[simp] theorem stage?_nil (p : Pipeline σ) : p.stage? [] = some p.stage := rfl

theorem at?_cons (p : Pipeline σ) (b : Branch) (π : Path) :
    p.at? (b :: π) = (p.child? b).bind fun c => c.at? π := rfl

theorem stage?_cons_of_child (h : p.child? b = some c) (π : Path) :
    p.stage? (b :: π) = c.stage? π := by
  rw [stage?, at?_cons, h]
  rfl

theorem exists_child_of_stage? (h : p.stage? (b :: π) = some s) :
    ∃ c, p.child? b = some c ∧ c.stage? π = some s := by
  cases hc : p.child? b with
  | none =>
    rw [stage?, at?_cons, hc] at h
    cases h
  | some c => exact ⟨c, rfl, stage?_cons_of_child hc π ▸ h⟩

/-! ### Adding a serial child -/

theorem child?_withSerial_self (p c : Pipeline σ) :
    (p.withSerial c).child? (.serial p.serial.length) = some c := by
  simp [child?, withSerial, serial]

theorem child?_serial_length (p : Pipeline σ) : p.child? (.serial p.serial.length) = none := by
  simp [child?]

theorem child?_withSerial_of_ne (p c : Pipeline σ) (h : b ≠ .serial p.serial.length) :
    (p.withSerial c).child? b = p.child? b := by
  cases b with
  | parallel i => rfl
  | serial i =>
    have hi : i ≠ p.serial.length := fun heq => h (congrArg Branch.serial heq)
    change (p.serial ++ [c])[i]? = p.serial[i]?
    obtain hlt | hgt := Nat.lt_or_gt_of_ne hi
    · exact List.getElem?_append_left hlt
    · rw [List.getElem?_eq_none (by simpa using hgt), List.getElem?_eq_none (Nat.le_of_lt hgt)]

theorem child?_withSerial (h : p.child? b = some q) (c : Pipeline σ) :
    (p.withSerial c).child? b = some q := by
  rw [child?_withSerial_of_ne, h]
  rintro rfl
  rw [child?_serial_length] at h
  cases h

theorem stage?_withSerial_self (p c : Pipeline σ) (π : Path) :
    (p.withSerial c).stage? (.serial p.serial.length :: π) = c.stage? π :=
  stage?_cons_of_child (child?_withSerial_self p c) π

theorem stage?_withSerial (h : p.stage? π = some s) (c : Pipeline σ) :
    (p.withSerial c).stage? π = some s := by
  cases π with
  | nil => exact h
  | cons b π =>
    obtain ⟨q, hq, h⟩ := exists_child_of_stage? h
    rw [stage?_cons_of_child (child?_withSerial hq c), h]

theorem stage?_withSerial_cases (h : (p.withSerial c).stage? π = some s) :
    p.stage? π = some s ∨ ∃ π', π = .serial p.serial.length :: π' ∧ c.stage? π' = some s := by
  cases π with
  | nil => exact .inl h
  | cons b π =>
    by_cases hb : b = .serial p.serial.length
    · subst hb
      exact .inr ⟨π, rfl, stage?_withSerial_self p c π ▸ h⟩
    · obtain ⟨q, hq, h⟩ := exists_child_of_stage? h
      rw [child?_withSerial_of_ne p c hb] at hq
      exact .inl (stage?_cons_of_child hq π ▸ h)

theorem stage?_serial_length (p : Pipeline σ) (π : Path) :
    p.stage? (.serial p.serial.length :: π) = none := by
  rw [stage?, at?_cons, child?_serial_length]
  rfl

theorem serial_lt_of_stage? {i : Nat} (h : p.stage? (.serial i :: π) = some s) :
    i < p.serial.length := by
  obtain ⟨c, hc, -⟩ := exists_child_of_stage? h
  exact (List.getElem?_eq_some_iff.1 hc).1

/-- All of a tree comes before a serial child that is added to it. -/
theorem precedes_of_stage? (h : p.stage? π = some s) (π' : Path) :
    Precedes π (.serial p.serial.length :: π') := by
  cases π with
  | nil => exact .own
  | cons b π =>
    cases b with
    | parallel i => exact .parallel
    | serial i => exact .serial (serial_lt_of_stage? h)

theorem not_precedes_of_stage? (h : p.stage? π = some s) (π' : Path) :
    ¬ Precedes (.serial p.serial.length :: π') π := by
  intro hprec
  obtain ⟨j, π'', rfl, hlt⟩ | ⟨π'', rfl, -⟩ := precedes_serial_iff.1 hprec
  · exact Nat.lt_asymm hlt (serial_lt_of_stage? h)
  · exact Nat.lt_irrefl _ (serial_lt_of_stage? h)

end Pipeline

/-! ## Schedules -/

/-- What is open when a tree runs. -/
structure Schedule (σ : Type) where
  /-- What the system at a path finds. -/
  seen : Path → Workspace σ
  /-- The positions of the parallel children at a path, as they complete. -/
  order : Path → List Nat

namespace Schedule

variable {σ : Type} {p c : Pipeline σ} {b : Branch} {t : Schedule σ}

/-- The schedule of a child. -/
def under (t : Schedule σ) (b : Branch) : Schedule σ :=
  ⟨fun π => t.seen (b :: π), fun π => t.order (b :: π)⟩

/-- Every parallel child of the tree completes once. -/
def Legal (t : Schedule σ) (p : Pipeline σ) : Prop :=
  ∀ π q, p.at? π = some q → (t.order π).Perm (List.range q.parallel.length)

theorem Legal.order_nil (h : t.Legal p) : (t.order []).Perm (List.range p.parallel.length) :=
  h [] p rfl

theorem Legal.under (h : t.Legal p) (hc : p.child? b = some c) : (t.under b).Legal c := by
  intro π q hq
  exact h (b :: π) q (by rw [Pipeline.at?_cons, hc, Option.bind_some, hq])

theorem Legal.of_withSerial (h : t.Legal (p.withSerial c)) : t.Legal p := by
  intro π q hq
  cases π with
  | nil =>
    cases hq
    exact h.order_nil
  | cons b π =>
    obtain ⟨q', hq', hq⟩ := Option.bind_eq_some_iff.1 hq
    refine h (b :: π) q ?_
    rw [Pipeline.at?_cons, Pipeline.child?_withSerial hq', Option.bind_some, hq]

end Schedule

/-! ## Executions -/

/-- The rest of a path that starts with a step. -/
def Path.after? (b : Branch) : Path → Option Path
  | [] => none
  | c :: π => if c = b then some π else none

/-- The log of parallel children that run side by side: each has its own log in
    it, in order. -/
def Interleaved (logs : Nat → List Path) (n : Nat) (log : List Path) : Prop :=
  (∀ π ∈ log, ∃ i < n, ∃ π', π = .parallel i :: π') ∧
    ∀ i < n, log.filterMap (Path.after? (.parallel i)) = logs i

/-- The log of a stage that ran. -/
def Stage.log {σ : Type} (s : Stage σ) : List Path := if s.system.isSome then [[]] else []

namespace Pipeline

variable {σ : Type} {ctx : TickContext} {p c q : Pipeline σ} {b : Branch} {π : Path}

/-- The contained results of parallel children, as they complete. -/
def arriving (ps : List (Pipeline σ)) (results : Nat → Except Fault Batch) (order : List Nat) :
    List (Except ExecutionError Batch) :=
  order.filterMap fun i => ps[i]?.map fun p => (results i).mapError (Fault.contain p.name)

/-- The result of a node with parallel children only, after its own batch. -/
def joined (own : Batch) (answers : List (Except ExecutionError Batch)) : Except Fault Batch :=
  ((answers.foldl BatchCombiner.combine {}).result.map (own ++ ·)).mapError Fault.error

/-- How a tree can run under a schedule, with the log of its systems and its
    result. -/
inductive Executes (ctx : TickContext) :
    Schedule σ → Pipeline σ → List Path → Except Fault Batch → Prop
  /-- The stage fails, and the children do not start. -/
  | stops {t s ps f} (hown : (s.run ctx (t.seen [])).1 = .error f) :
      Executes ctx t (.node s ps []) s.log (.error f)
  /-- All parallel children run, whether or not some of them fail. -/
  | fansOut {t s ps own logs results log} (hown : (s.run ctx (t.seen [])).1 = .ok own)
      (hps : ∀ i p, ps[i]? = some p →
        Executes ctx (t.under (.parallel i)) p (logs i) (results i))
      (hlog : Interleaved logs ps.length log) :
      Executes ctx t (.node s ps []) (s.log ++ log)
        (joined own (arriving ps results (t.order [])))
  /-- The last serial child runs after all the rest. -/
  | goesOn {t p c log log' b r} (hp : Executes ctx t p log (.ok b))
      (hc : Executes ctx (t.under (.serial p.serial.length)) c log' r) :
      Executes ctx t (p.withSerial c) (log ++ log'.map (.serial p.serial.length :: ·))
        (r.map (b ++ ·))
  /-- The rest fails, and the last serial child does not start. -/
  | breaksOff {t p c log f} (hp : Executes ctx t p log (.error f)) :
      Executes ctx t (p.withSerial c) log (.error f)

/-! ### Existence -/

theorem filterMap_after?_map (b : Branch) (log : List Path) :
    (log.map (b :: ·)).filterMap (Path.after? b) = log := by
  simp [List.filterMap_map, Function.comp_def, Path.after?]

/-- Logs can be interleaved one after the other. -/
theorem exists_interleaved (logs : Nat → List Path) (n : Nat) : ∃ log, Interleaved logs n log := by
  induction n with
  | zero => exact ⟨[], by simp, by simp⟩
  | succ n ih =>
    obtain ⟨log, hmem, hlog⟩ := ih
    have hskip : ∀ i, i ≠ n →
        ((logs n).map (.parallel n :: ·)).filterMap (Path.after? (.parallel i)) = [] := by
      intro i hi
      simp [List.filterMap_map, Function.comp_def, Path.after?, Ne.symm hi]
    have hlast : log.filterMap (Path.after? (.parallel n)) = [] := by
      rw [List.filterMap_eq_nil_iff]
      intro π hπ
      obtain ⟨i, hi, π', rfl⟩ := hmem π hπ
      simp [Path.after?, Nat.ne_of_lt hi]
    refine ⟨log ++ (logs n).map (.parallel n :: ·), ?_, ?_⟩
    · rw [List.forall_mem_append, List.forall_mem_map]
      refine ⟨fun π hπ => ?_, fun π _ => ⟨n, Nat.lt_succ_self n, π, rfl⟩⟩
      obtain ⟨i, hi, π', rfl⟩ := hmem π hπ
      exact ⟨i, Nat.lt_succ_of_lt hi, π', rfl⟩
    · intro i hi
      rw [List.filterMap_append]
      obtain hlt | rfl := Nat.lt_succ_iff_lt_or_eq.1 hi
      · rw [hlog i hlt, hskip i (Nat.ne_of_lt hlt), List.append_nil]
      · rw [hlast, List.nil_append, filterMap_after?_map]

/-- **A tree can run under every schedule.** -/
theorem exists_executes (ctx : TickContext) (p : Pipeline σ) (t : Schedule σ) :
    ∃ log r, Executes ctx t p log r := by
  induction p generalizing t with
  | node s ps ss ihp ihs =>
    -- parallel children run at once, serial ones one after the other
    induction ss using List.reverseRecOn with
    | nil =>
      cases hown : (s.run ctx (t.seen [])).1 with
      | error f => exact ⟨_, _, .stops hown⟩
      | ok own =>
        have hchild : ∀ i, ∃ log r, ∀ p, ps[i]? = some p →
            Executes ctx (t.under (.parallel i)) p log r := by
          intro i
          cases hp : ps[i]? with
          | none => exact ⟨[], .ok {}, by simp⟩
          | some p =>
            obtain ⟨log, r, h⟩ := ihp p (List.mem_of_getElem? hp) (t.under (.parallel i))
            exact ⟨log, r, fun q hq => by cases hq; exact h⟩
        choose logs results hps using hchild
        obtain ⟨log, hlog⟩ := exists_interleaved logs ps.length
        exact ⟨_, _, .fansOut hown hps hlog⟩
    | append_singleton ss c ih =>
      have hc := ihs c (by simp) (t.under (.serial ss.length))
      obtain ⟨log, r, hp⟩ := ih fun q hq => ihs q (List.mem_append_left _ hq)
      cases r with
      | error f => exact ⟨_, _, .breaksOff (c := c) hp⟩
      | ok b =>
        obtain ⟨log', r, hc⟩ := hc
        exact ⟨_, _, .goesOn hp hc⟩

/-! ### Children in the order of the list -/

/-- What a child finds when children complete in the order of the list. -/
def childWorkspace (ctx : TickContext) (p : Pipeline σ) (w : Workspace σ) : Branch → Workspace σ
  | .parallel i => (fanOut ctx (p.parallel.take i) {} (p.stage.run ctx w).2).2
  | .serial i =>
    (inTurn ctx (p.serial.take i) (fanOut ctx p.parallel {} (p.stage.run ctx w).2).2).2

/-- What the node at a path finds when children complete in the order of the
    list. -/
def workspaceAt (ctx : TickContext) : Pipeline σ → Workspace σ → Path → Workspace σ
  | _, w, [] => w
  | p, w, b :: π =>
    match p.child? b with
    | some c => c.workspaceAt ctx (p.childWorkspace ctx w b) π
    | none => w

/-- The schedule in which children complete in the order of the list. -/
def inListOrder (ctx : TickContext) (p : Pipeline σ) (w : Workspace σ) : Schedule σ :=
  ⟨p.workspaceAt ctx w, fun π => List.range (((p.at? π).map (·.parallel.length)).getD 0)⟩

theorem legal_inListOrder (ctx : TickContext) (p : Pipeline σ) (w : Workspace σ) :
    (p.inListOrder ctx w).Legal p := by
  intro π q hq
  simp [inListOrder, hq]

theorem fanOut_cons (ctx : TickContext) (p : Pipeline σ) (rest : List (Pipeline σ))
    (c : BatchCombiner) (w : Workspace σ) :
    fanOut ctx (p :: rest) c w = fanOut ctx rest
      (c.combine ((execute ctx p w).1.mapError (Fault.contain p.name))) (execute ctx p w).2 := by
  rw [fanOut]

theorem fanOut_append (ctx : TickContext) (ps qs : List (Pipeline σ)) (c : BatchCombiner)
    (w : Workspace σ) :
    fanOut ctx (ps ++ qs) c w = fanOut ctx qs (fanOut ctx ps c w).1 (fanOut ctx ps c w).2 := by
  induction ps generalizing c w with
  | nil => rw [List.nil_append, fanOut.eq_1]
  | cons p rest ih => rw [List.cons_append, fanOut_cons, fanOut_cons, ih]

theorem fanOut_workspace (ctx : TickContext) (ps : List (Pipeline σ)) (c c' : BatchCombiner)
    (w : Workspace σ) : (fanOut ctx ps c w).2 = (fanOut ctx ps c' w).2 := by
  induction ps generalizing c c' w with
  | nil => rw [fanOut, fanOut]
  | cons p rest ih =>
    rw [fanOut_cons, fanOut_cons]
    exact ih _ _ _

theorem arriving_concat (ps : List (Pipeline σ)) (p : Pipeline σ)
    (results : Nat → Except Fault Batch) :
    arriving (ps ++ [p]) results (List.range (ps.length + 1)) =
      arriving ps results (List.range ps.length) ++
        [(results ps.length).mapError (Fault.contain p.name)] := by
  rw [arriving, List.range_succ, List.filterMap_append]
  congr 1
  · refine List.filterMap_congr fun i hi => ?_
    rw [List.getElem?_append_left (List.mem_range.1 hi)]
  · simp

theorem fanOut_combiner {ctx : TickContext} {ps : List (Pipeline σ)} {w : Workspace σ}
    {results : Nat → Except Fault Batch} (h : ∀ i p, ps[i]? = some p →
      results i = (execute ctx p (fanOut ctx (ps.take i) {} w).2).1) (c : BatchCombiner) :
    (fanOut ctx ps c w).1 =
      (arriving ps results (List.range ps.length)).foldl BatchCombiner.combine c := by
  induction ps using List.reverseRecOn generalizing c with
  | nil => rfl
  | append_singleton ps p ih =>
    have hlast : results ps.length = (execute ctx p (fanOut ctx ps c w).2).1 := by
      rw [h ps.length p (by simp), List.take_left, fanOut_workspace ctx ps c {}]
    have hps := ih (fun i q hq => ?_) c
    · rw [List.length_append, List.length_singleton, arriving_concat, List.foldl_append, ← hps,
        hlast, fanOut_append, fanOut_cons, fanOut, List.foldl_cons, List.foldl_nil]
    · have hi := (List.getElem?_eq_some_iff.1 hq).1
      rw [h i q (by rw [List.getElem?_append_left hi, hq]), List.take_append_of_le_length
        (Nat.le_of_lt hi)]

section AndThen

variable {ε : Type}

/-- Goes on after a success, with one batch after the other. -/
def andThen (r : Except ε Batch × Workspace σ)
    (next : Workspace σ → Except ε Batch × Workspace σ) : Except ε Batch × Workspace σ :=
  match r with
  | (.error f, w) => (.error f, w)
  | (.ok b, w) =>
    match next w with
    | (.error f, w) => (.error f, w)
    | (.ok b', w) => (.ok (b ++ b'), w)

theorem andThen_ok (b : Batch) (w : Workspace σ)
    (next : Workspace σ → Except ε Batch × Workspace σ) :
    (andThen (.ok b, w) next).1 = (next w).1.map (b ++ ·) := by
  simp only [andThen]
  rcases next w with ⟨_ | b', w'⟩ <;> rfl

theorem andThen_empty (r : Except ε Batch × Workspace σ) :
    andThen r (fun w => (.ok {}, w)) = r := by
  obtain ⟨_ | b, w⟩ := r
  · rfl
  · simp only [andThen, Batch.append_empty]

theorem workspace_of_andThen {r : Except ε Batch × Workspace σ}
    {next : Workspace σ → Except ε Batch × Workspace σ} {b : Batch} {w : Workspace σ}
    (h : andThen r next = (.ok b, w)) : (next r.2).2 = w := by
  obtain ⟨_ | b₁, w₁⟩ := r
  · cases h
  · simp only [andThen] at h
    rcases hnext : next w₁ with ⟨_ | b₂, w₂⟩ <;> rw [hnext] at h <;> cases h
    rfl

theorem andThen_assoc (r : Except ε Batch × Workspace σ)
    (f g : Workspace σ → Except ε Batch × Workspace σ) :
    andThen (andThen r f) g = andThen r fun w => andThen (f w) g := by
  obtain ⟨_ | b, w⟩ := r
  · rfl
  · simp only [andThen]
    rcases f w with ⟨_ | b', w'⟩
    · rfl
    · simp only
      rcases g w' with ⟨_ | b'', w''⟩
      · rfl
      · simp only [Batch.append_assoc]

end AndThen

theorem inTurn_nil (ctx : TickContext) (w : Workspace σ) : inTurn ctx [] w = (.ok {}, w) := by
  rw [inTurn]

theorem inTurn_cons (ctx : TickContext) (p : Pipeline σ) (rest : List (Pipeline σ))
    (w : Workspace σ) : inTurn ctx (p :: rest) w = andThen (execute ctx p w) (inTurn ctx rest) := by
  rw [inTurn]
  rcases execute ctx p w with ⟨f | b, w'⟩
  · rfl
  · simp only [andThen]
    rcases inTurn ctx rest w' with ⟨f | bs, w''⟩ <;> rfl

theorem andThen_inTurn_nil (ctx : TickContext) (r : Except Fault Batch × Workspace σ) :
    andThen r (inTurn ctx []) = r := by
  rw [show inTurn ctx [] = fun w => (.ok {}, w) from funext (inTurn_nil ctx), andThen_empty]

theorem inTurn_concat (ctx : TickContext) (ss : List (Pipeline σ)) (c : Pipeline σ)
    (w : Workspace σ) : inTurn ctx (ss ++ [c]) w = andThen (inTurn ctx ss w) (execute ctx c) := by
  induction ss generalizing w with
  | nil =>
    rw [List.nil_append, inTurn_cons, andThen_inTurn_nil, inTurn_nil]
    simp only [andThen]
    rcases execute ctx c w with ⟨_ | b, w'⟩ <;> rfl
  | cons p rest ih =>
    rw [List.cons_append, inTurn_cons, inTurn_cons, andThen_assoc]
    exact congrArg (andThen _) (funext ih)

/-- Serial children run after all the rest. -/
theorem execute_eq_andThen (ctx : TickContext) (s : Stage σ) (ps ss : List (Pipeline σ))
    (w : Workspace σ) :
    execute ctx (node s ps ss) w = andThen (execute ctx (node s ps []) w) (inTurn ctx ss) := by
  rw [execute, execute]
  rcases s.run ctx w with ⟨_ | own, w₁⟩
  · rfl
  · rcases hresult : (fanOut ctx ps {} w₁).1.result with _ | inParallel
    · simp only [hresult, andThen]
    · simp only [hresult, inTurn_nil, andThen]
      rcases inTurn ctx ss (fanOut ctx ps {} w₁).2 with ⟨_ | b, w₂⟩ <;>
        simp only [Batch.append_empty]

theorem execute_childless {s : Stage σ} {ps : List (Pipeline σ)} {own : Batch}
    {w w' : Workspace σ} (h : s.run ctx w = (.ok own, w')) :
    execute ctx (node s ps []) w =
      (((fanOut ctx ps {} w').1.result.map (own ++ ·)).mapError Fault.error,
        (fanOut ctx ps {} w').2) := by
  rw [execute, h]
  rcases hresult : (fanOut ctx ps {} w').1.result with _ | inParallel
  · simp only [hresult]
    rfl
  · simp only [hresult, inTurn_nil, Batch.append_empty]
    rfl

/-- A tree with a serial child more runs as before, and goes on with the child
    unless it failed. -/
theorem execute_withSerial (ctx : TickContext) (p c : Pipeline σ) (w : Workspace σ) :
    execute ctx (p.withSerial c) w = andThen (execute ctx p w) (execute ctx c) := by
  obtain ⟨s, ps, ss⟩ := p
  change execute ctx (node s ps (ss ++ [c])) w = _
  rw [execute_eq_andThen ctx s ps ss, execute_eq_andThen ctx s ps (ss ++ [c]), andThen_assoc]
  exact congrArg (andThen _) (funext (inTurn_concat ctx ss c))

theorem childWorkspace_withSerial (h : p.child? b = some q) (ctx : TickContext) (c : Pipeline σ)
    (w : Workspace σ) :
    (p.withSerial c).childWorkspace ctx w b = p.childWorkspace ctx w b := by
  cases b with
  | parallel i => rfl
  | serial i =>
    have hi := Nat.le_of_lt (List.getElem?_eq_some_iff.1 h).1
    change (inTurn ctx ((p.serial ++ [c]).take i) _).2 = _
    rw [List.take_append_of_le_length hi]
    rfl

theorem childWorkspace_withSerial_self {own : Batch} {w w' : Workspace σ}
    (h : execute ctx p w = (.ok own, w')) (c : Pipeline σ) :
    (p.withSerial c).childWorkspace ctx w (.serial p.serial.length) = w' := by
  obtain ⟨s, ps, ss⟩ := p
  change (inTurn ctx ((ss ++ [c]).take ss.length) (fanOut ctx ps {} (s.run ctx w).2).2).2 = w'
  rw [List.take_left]
  rcases hown : s.run ctx w with ⟨_ | own', w₁⟩
  · rw [execute, hown] at h
    cases h
  · rw [execute_eq_andThen, execute_childless hown] at h
    exact workspace_of_andThen h

theorem workspaceAt_withSerial (h : p.at? π = some q) (ctx : TickContext) (c : Pipeline σ)
    (w : Workspace σ) : (p.withSerial c).workspaceAt ctx w π = p.workspaceAt ctx w π := by
  cases π with
  | nil => rfl
  | cons b π =>
    obtain ⟨q', hq', -⟩ := Option.bind_eq_some_iff.1 h
    rw [workspaceAt, workspaceAt, child?_withSerial hq', hq', childWorkspace_withSerial hq']

/-- As far as the tree goes, the schedule has children complete in the order of
    the list. -/
def Follows (ctx : TickContext) (t : Schedule σ) (p : Pipeline σ) (w : Workspace σ) : Prop :=
  ∀ π q, p.at? π = some q →
    t.seen π = p.workspaceAt ctx w π ∧ t.order π = List.range q.parallel.length

variable {t : Schedule σ} {w : Workspace σ}

theorem Follows.under (h : Follows ctx t p w) (hc : p.child? b = some c) :
    Follows ctx (t.under b) c (p.childWorkspace ctx w b) := by
  intro π q hq
  obtain ⟨hseen, horder⟩ := h (b :: π) q (by rw [at?_cons, hc, Option.bind_some, hq])
  rw [workspaceAt, hc] at hseen
  exact ⟨hseen, horder⟩

theorem Follows.of_withSerial (h : Follows ctx t (p.withSerial c) w) : Follows ctx t p w := by
  intro π q hq
  rw [← workspaceAt_withSerial hq ctx c w]
  cases π with
  | nil =>
    cases hq
    exact h [] (p.withSerial c) rfl
  | cons b π =>
    obtain ⟨q', hq', hq⟩ := Option.bind_eq_some_iff.1 hq
    exact h (b :: π) q (by rw [at?_cons, child?_withSerial hq', Option.bind_some, hq])

theorem Follows.fansOut {s : Stage σ} {ps : List (Pipeline σ)} {own : Batch} {w' : Workspace σ}
    (h : Follows ctx t (node s ps []) w) (hown : s.run ctx w = (.ok own, w'))
    (ih : ∀ p ∈ ps, ∀ {t w}, Follows ctx t p w → ∃ log, Executes ctx t p log (p.execute ctx w).1) :
    ∃ log, Executes ctx t (node s ps []) log (execute ctx (node s ps []) w).1 := by
  obtain ⟨hseen, horder⟩ := h [] _ rfl
  have hchild : ∀ i, ∃ log r, ∀ p, ps[i]? = some p →
      Executes ctx (t.under (.parallel i)) p log r ∧
        r = (execute ctx p (fanOut ctx (ps.take i) {} w').2).1 := by
    intro i
    cases hp : ps[i]? with
    | none => exact ⟨[], .ok {}, by simp⟩
    | some p =>
      have hfollows := h.under (b := .parallel i) hp
      simp only [childWorkspace, parallel, stage, hown] at hfollows
      obtain ⟨log, hlog⟩ := ih p (List.mem_of_getElem? hp) hfollows
      refine ⟨log, (execute ctx p (fanOut ctx (ps.take i) {} w').2).1, ?_⟩
      rintro _ ⟨⟩
      exact ⟨hlog, rfl⟩
  choose logs results hps using hchild
  obtain ⟨log, hlog⟩ := exists_interleaved logs ps.length
  have hstage : (s.run ctx (t.seen [])).1 = .ok own := by rw [hseen, workspaceAt, hown]
  have hrun := Executes.fansOut hstage (fun i p hp => (hps i p hp).1) hlog
  have hcombiner := fanOut_combiner (fun i p hp => (hps i p hp).2) {}
  rw [horder, joined, parallel, ← hcombiner] at hrun
  rw [execute_childless hown]
  exact ⟨_, hrun⟩

theorem Follows.executes {t : Schedule σ} {w : Workspace σ} (h : Follows ctx t p w) :
    ∃ log, Executes ctx t p log (p.execute ctx w).1 := by
  induction p generalizing t w with
  | node s ps ss ihp ihs =>
    induction ss using List.reverseRecOn with
    | nil =>
      obtain ⟨hseen, -⟩ := h [] _ rfl
      cases hown : s.run ctx w with
      | mk r w' =>
        cases r with
        | ok own => exact h.fansOut hown ihp
        | error f =>
          rw [execute, hown]
          exact ⟨_, .stops (by rw [hseen, workspaceAt, hown])⟩
    | append_singleton ss c ih =>
      have hp : Follows ctx t (node s ps ss) w := h.of_withSerial (c := c)
      obtain ⟨log, hlog⟩ := ih (fun q hq => ihs q (List.mem_append_left _ hq)) hp
      change ∃ log, Executes ctx t ((node s ps ss).withSerial c) log
        (execute ctx ((node s ps ss).withSerial c) w).1
      rw [execute_withSerial]
      cases hrun : execute ctx (node s ps ss) w with
      | mk r w₁ =>
        rw [hrun] at hlog
        cases r with
        | error f => exact ⟨_, .breaksOff hlog⟩
        | ok b =>
          have hc : Follows ctx (t.under (.serial ss.length)) c w₁ :=
            childWorkspace_withSerial_self hrun c ▸
              h.under (child?_withSerial_self (node s ps ss) c)
          obtain ⟨log', hlog'⟩ := ihs c (by simp) hc
          rw [andThen_ok]
          exact ⟨_, .goesOn hlog hlog'⟩

/-- **Running a tree is one of its executions.** -/
theorem executes_inListOrder (ctx : TickContext) (p : Pipeline σ) (w : Workspace σ) :
    ∃ log, Executes ctx (p.inListOrder ctx w) p log (p.execute ctx w).1 := by
  refine Follows.executes fun π q hq => ⟨rfl, ?_⟩
  simp [inListOrder, hq]

end Pipeline

end TickEngine
