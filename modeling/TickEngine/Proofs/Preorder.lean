/-
  Children in the order of the list.

  The pre-order of a tree lists its systems: that of the root, then those of
  the parallel children, and then those of the serial ones, child by child.  If
  parallel children complete in the order of the list, the batch of the tree
  lists the commands in pre-order, and its error is that of the first system in
  pre-order that fails.  It is as if there was no tree, but a list of systems
  that run one after the other (`Pipeline.inSequence`).

  * `Pipeline.executeContained_preorder`: running a tree is of this kind.
-/
import TickEngine.Proofs.Executions

namespace TickEngine

namespace Pipeline

variable {σ : Type} {ctx : TickContext} {t : Schedule σ} {p c : Pipeline σ} {s : Stage σ}
  {ps ss : List (Pipeline σ)} {log : List Path} {π : Path}

/-! ## The pre-order of a tree -/

mutual

/-- The paths of all systems of a tree, in pre-order. -/
def preorder : Pipeline σ → List Path
  | node s ps ss => s.log ++ preorderAll .parallel 0 ps ++ preorderAll .serial 0 ss

/-- The paths of all systems of consecutive children, the first of which is at
    position `i`. -/
def preorderAll (b : Nat → Branch) (i : Nat) : List (Pipeline σ) → List Path
  | [] => []
  | p :: rest => (preorder p).map (b i :: ·) ++ preorderAll b (i + 1) rest

end

theorem preorderAll_concat (b : Nat → Branch) (i : Nat) (ps : List (Pipeline σ)) (p : Pipeline σ) :
    preorderAll b i (ps ++ [p]) =
      preorderAll b i ps ++ p.preorder.map (b (i + ps.length) :: ·) := by
  induction ps generalizing i with
  | nil => simp [preorderAll]
  | cons q rest ih =>
    rw [List.cons_append, preorderAll, ih, preorderAll, List.append_assoc, List.length_cons,
      Nat.add_right_comm, Nat.add_assoc]

/-- The systems of the child at a position, in pre-order. -/
def block (ps : List (Pipeline σ)) (i : Nat) : List Path := (ps[i]?.map preorder).getD []

theorem block_of_get (h : ps[i]? = some c) : block ps i = c.preorder := by
  rw [block, h]
  rfl

theorem preorderAll_eq_flatMap (b : Nat → Branch) (ps : List (Pipeline σ)) :
    preorderAll b 0 ps =
      (List.range ps.length).flatMap fun i => (block ps i).map (b i :: ·) := by
  induction ps using List.reverseRecOn with
  | nil => rw [preorderAll]; rfl
  | append_singleton ps p ih =>
    rw [preorderAll_concat, ih, List.length_append, List.length_singleton, List.range_succ,
      List.flatMap_append, List.flatMap_singleton, block_of_get List.getElem?_concat_length,
      Nat.zero_add]
    congr 1
    refine List.flatMap_congr fun i hi => ?_
    rw [block, block, List.getElem?_append_left (List.mem_range.1 hi)]

theorem preorder_childless (s : Stage σ) (ps : List (Pipeline σ)) :
    (node s ps []).preorder =
      s.log ++ (List.range ps.length).flatMap fun i => (block ps i).map (.parallel i :: ·) := by
  rw [preorder, preorderAll_eq_flatMap, preorderAll, List.append_nil]

theorem preorder_withSerial (p c : Pipeline σ) :
    (p.withSerial c).preorder =
      p.preorder ++ c.preorder.map (.serial p.serial.length :: ·) := by
  obtain ⟨s, ps, ss⟩ := p
  show (node s ps (ss ++ [c])).preorder = _
  rw [preorder, preorderAll_concat, preorder, Nat.zero_add, ← List.append_assoc]
  rfl

theorem arranged_preorder (p : Pipeline σ) : p.Arranged p.preorder := by
  induction p with
  | node s ps ss ihp ihs =>
    induction ss using List.reverseRecOn with
    | nil =>
      rw [preorder_childless]
      refine .parallel (.refl _) fun i c hc => ?_
      rw [block_of_get hc]
      exact ihp c (List.mem_of_getElem? hc)
    | append_singleton ss c ih =>
      have hp := ih fun q hq => ihs q (List.mem_append_left _ hq)
      show ((node s ps ss).withSerial c).Arranged ((node s ps ss).withSerial c).preorder
      rw [preorder_withSerial]
      exact .serial hp (ihs c (by simp))

end Pipeline

/-! ## Schedules -/

/-- Parallel children complete in the order of the list. -/
def Schedule.Listed {σ : Type} (t : Schedule σ) (p : Pipeline σ) : Prop :=
  ∀ π q, p.at? π = some q → t.order π = List.range q.parallel.length

namespace Schedule.Listed

variable {σ : Type} {p c : Pipeline σ} {b : Branch} {t : Schedule σ}

theorem legal (h : t.Listed p) : t.Legal p := by
  intro π q hq
  rw [h π q hq]

theorem under (h : t.Listed p) (hc : p.child? b = some c) : (t.under b).Listed c := by
  intro π q hq
  exact h (b :: π) q (by rw [Pipeline.at?_cons, hc, Option.bind_some, hq])

theorem of_withSerial (h : t.Listed (p.withSerial c)) : t.Listed p := by
  intro π q hq
  cases π with
  | nil =>
    cases hq
    exact h [] (p.withSerial c) rfl
  | cons b π =>
    obtain ⟨q', hq', hq⟩ := Option.bind_eq_some_iff.1 hq
    refine h (b :: π) q ?_
    rw [Pipeline.at?_cons, Pipeline.child?_withSerial hq', Option.bind_some, hq]

end Schedule.Listed

namespace Pipeline

variable {σ : Type} {ctx : TickContext} {t : Schedule σ} {p c : Pipeline σ} {s : Stage σ}
  {ps ss : List (Pipeline σ)} {log : List Path} {π : Path}

/-! ## Batches -/

theorem Executes.commands_eq {own : Batch} (h : Executes ctx t p log (.ok own))
    (ht : t.Listed p) : own.commands = p.preorder.flatMap (commandsAt ctx t p) := by
  generalize hr : Except.ok own = r at h
  induction h generalizing own with
  | stops | breaksOff => cases hr
  | @fansOut t s ps own' logs results log hown hps hlog ih =>
    have horder : t.order [] = List.range ps.length := ht [] _ rfl
    rw [horder] at hr
    obtain ⟨hall, heq⟩ | ⟨i, c, f, -, -, heq⟩ :=
      joined_cases results (.refl (List.range ps.length)) own'
    · cases hr.trans heq
      rw [preorder_childless, List.flatMap_append, flatMap_log hown, List.flatMap_assoc]
      refine congrArg (own'.commands ++ ·) (List.flatMap_congr fun i hi => ?_)
      obtain ⟨c, hc⟩ := (mem_order_iff (.refl _)).1 hi
      obtain ⟨b, hb⟩ := hall i c hc
      rw [block_of_get hc, flatMap_commandsAt_under (child?_parallel hc), hb, commandsOf,
        ih i c hc (ht.under (child?_parallel hc)) hb.symm]
    · cases hr.trans heq
  | @goesOn t p c log log' b r hp hc ihp ihc =>
    cases r with
    | error f => cases hr
    | ok b' =>
      have hchild := child?_withSerial_self p c
      have hcommands := ihp ht.of_withSerial rfl
      have hcommands' := ihc (ht.under hchild) rfl
      cases hr
      rw [Batch.commands_append, hcommands, hcommands', preorder_withSerial, List.flatMap_append,
        flatMap_commandsAt_under hchild]
      congr 1
      refine List.flatMap_congr fun π hπ => ?_
      obtain ⟨s, hs, -⟩ := (arranged_preorder p).mem_iff.1 hπ
      exact (commandsAt_withSerial hs c).symm

/-! ## Errors -/

/-- The error of parallel children is that of the first one that fails. -/
theorem exists_first_error (results : Nat → Except Fault Batch) {order : List Nat}
    (horder : ∀ i ∈ order, i < ps.length) {combiner : BatchCombiner}
    (hcombiner : combiner.error = none) {e : ExecutionError}
    (h : ((arriving ps results order).foldl BatchCombiner.combine combiner).result = .error e) :
    ∃ before i after c f, order = before ++ i :: after ∧ (∀ j ∈ before, ∃ b, results j = .ok b) ∧
      ps[i]? = some c ∧ results i = .error f ∧ e = f.contain c.name := by
  induction order generalizing combiner with
  | nil =>
    rw [arriving, List.filterMap_nil, List.foldl_nil, BatchCombiner.result, hcombiner] at h
    cases h
  | cons i order ih =>
    obtain ⟨hi, horder⟩ := List.forall_mem_cons.1 horder
    have hc : ps[i]? = some ps[i] := List.getElem?_eq_getElem hi
    have hcons : arriving ps results (i :: order) =
        (results i).mapError (Fault.contain ps[i].name) :: arriving ps results order := by
      simp [arriving, hc]
    rw [hcons, List.foldl_cons] at h
    cases hresult : results i with
    | error f =>
      refine ⟨[], i, order, ps[i], f, rfl, List.forall_mem_nil _, hc, hresult, ?_⟩
      have hfirst : (combiner.combine ((results i).mapError (Fault.contain ps[i].name))).error =
          some (f.contain ps[i].name) := by
        simp [BatchCombiner.combine, hcombiner, hresult, Except.mapError]
      rw [foldl_combine_of_error hfirst, BatchCombiner.result, hfirst] at h
      exact (Except.error.inj h).symm
    | ok b =>
      have hnext : (combiner.combine ((results i).mapError (Fault.contain ps[i].name))).error =
          none := by
        simp [BatchCombiner.combine, hcombiner, hresult, Except.mapError]
      obtain ⟨before, j, after, c, f, rfl, hbefore, hcf⟩ := ih horder hnext h
      exact ⟨i :: before, j, after, c, f, rfl,
        List.forall_mem_cons.2 ⟨⟨b, hresult⟩, hbefore⟩, hcf⟩

theorem not_fails_of_ok {b : Batch} (h : Executes ctx t p log (.ok b)) (ht : t.Legal p) (π : Path) :
    ¬ Fails ctx t p π :=
  fun hf => nomatch (h.error_iff ht).2 ⟨π, hf⟩

/-- Of the systems in pre-order, this one is the first that fails. -/
def FirstFails (ctx : TickContext) (t : Schedule σ) (p : Pipeline σ) (π : Path) : Prop :=
  Fails ctx t p π ∧ ∃ before after, p.preorder = before ++ π :: after ∧
    ∀ π' ∈ before, ¬ Fails ctx t p π'

/-- A serial child more comes after all systems of the tree. -/
theorem not_fails_withSerial (h : π ∈ p.preorder) (hno : ¬ Fails ctx t p π) (c : Pipeline σ) :
    ¬ Fails ctx t (p.withSerial c) π := by
  intro hf
  rcases fails_withSerial.1 hf with hf | ⟨π', rfl, -⟩
  · exact hno hf
  · obtain ⟨s, hs, -⟩ := (arranged_preorder p).mem_iff.1 h
    exact nomatch hs.symm.trans (stage?_serial_length p π')

namespace FirstFails

/-- The first failure of a parallel child comes first in the tree, if neither the
    root nor a child before it fails. -/
theorem parallel {before after : List Nat} {i : Nat}
    (h : FirstFails ctx (t.under (.parallel i)) c π) (hc : ps[i]? = some c)
    (hrange : List.range ps.length = before ++ i :: after)
    (hroot : ¬ Fails ctx t (node s ps []) [])
    (hbefore : ∀ j ∈ before, ∀ c', ps[j]? = some c' →
      ∀ π', ¬ Fails ctx (t.under (.parallel j)) c' π') :
    FirstFails ctx t (node s ps []) (.parallel i :: π) := by
  obtain ⟨hfails, before', after', hlist, hno⟩ := h
  have hchild : (node s ps []).child? (.parallel i) = some c := hc
  refine ⟨(fails_under hchild).2 hfails,
    s.log ++ (before.flatMap fun j => (block ps j).map (.parallel j :: ·)) ++
      before'.map (.parallel i :: ·),
    after'.map (.parallel i :: ·) ++ after.flatMap fun j => (block ps j).map (.parallel j :: ·),
    ?_, ?_⟩
  · rw [preorder_childless, hrange, List.flatMap_append, List.flatMap_cons, block_of_get hc, hlist]
    simp
  · simp only [List.forall_mem_append, List.forall_mem_flatMap, List.forall_mem_map]
    refine ⟨⟨fun π' hπ' => ?_, fun j hj π' hπ' => ?_⟩, fun π' hπ' => ?_⟩
    · obtain ⟨rfl, -⟩ := mem_stage_log.1 hπ'
      exact hroot
    · have hmem : j ∈ List.range ps.length := hrange ▸ List.mem_append_left _ hj
      obtain ⟨c', hc'⟩ := (mem_order_iff (.refl _)).1 hmem
      have hchild' : (node s ps []).child? (.parallel j) = some c' := hc'
      exact fun hf => hbefore j hj c' hc' π' ((fails_under hchild').1 hf)
    · exact fun hf => hno π' hπ' ((fails_under hchild).1 hf)

/-- The first failure of the last serial child comes first in the tree, if
    nothing before it fails. -/
theorem serial (h : FirstFails ctx (t.under (.serial p.serial.length)) c π)
    (hp : ∀ π', ¬ Fails ctx t p π') :
    FirstFails ctx t (p.withSerial c) (.serial p.serial.length :: π) := by
  obtain ⟨hfails, before, after, hlist, hno⟩ := h
  have hchild := child?_withSerial_self p c
  refine ⟨(fails_under hchild).2 hfails, p.preorder ++ before.map (.serial p.serial.length :: ·),
    after.map (.serial p.serial.length :: ·), ?_, ?_⟩
  · rw [preorder_withSerial, hlist]
    simp
  · rw [List.forall_mem_append, List.forall_mem_map]
    exact ⟨fun π' hπ' => not_fails_withSerial hπ' (hp π') c,
      fun π' hπ' hf => hno π' hπ' ((fails_under hchild).1 hf)⟩

theorem withSerial (h : FirstFails ctx t p π) (c : Pipeline σ) :
    FirstFails ctx t (p.withSerial c) π := by
  obtain ⟨hfails, before, after, hlist, hno⟩ := h
  refine ⟨hfails.withSerial c, before, after ++ c.preorder.map (.serial p.serial.length :: ·),
    ?_, ?_⟩
  · rw [preorder_withSerial, hlist, List.append_assoc]
    rfl
  · exact fun π' hπ' => not_fails_withSerial (hlist ▸ List.mem_append_left _ hπ') (hno π' hπ') c

end FirstFails

/-- **What fails a tree is the first failure in pre-order.** -/
theorem Executes.first_fails {f : Fault} (h : Executes ctx t p log (.error f)) (ht : t.Listed p) :
    ∃ π, FirstFails ctx t p π ∧ ∀ name, Blames ctx t p name π (f.contain name) := by
  -- as in `Executes.blames`, but with the children before the one that failed
  generalize hr : Except.error f = r at h
  induction h generalizing f with
  | @stops t s ps f' hown =>
    cases hr
    refine ⟨[], ⟨fails_nil.2 ⟨_, hown⟩, [],
      (List.range ps.length).flatMap fun i => (block ps i).map (.parallel i :: ·), ?_,
      List.forall_mem_nil _⟩, blames_nil hown⟩
    rw [preorder_childless, Stage.log, if_pos (Stage.isSome_of_error hown)]
    rfl
  | @fansOut t s ps own logs results log hown hps hlog ih =>
    have horder : t.order [] = List.range ps.length := ht [] _ rfl
    rw [horder] at hr
    cases hresult : ((arriving ps results (List.range ps.length)).foldl BatchCombiner.combine
        {}).result with
    | ok b =>
      rw [joined, hresult] at hr
      cases hr
    | error e =>
      rw [joined, hresult] at hr
      cases hr
      obtain ⟨before, i, after, c, f, hrange, hbefore, hc, hf, rfl⟩ :=
        exists_first_error results (fun i hi => List.mem_range.1 hi) rfl hresult
      have hchild : (node s ps []).child? (.parallel i) = some c := hc
      have hroot : ¬ Fails ctx t (node s ps []) [] := not_fails_nil hown
      obtain ⟨π, hfirst, hblames⟩ := ih i c hc (ht.under hchild) hf.symm
      refine ⟨.parallel i :: π, hfirst.parallel hc hrange hroot fun j hj c' hc' => ?_,
        fun name => (hblames c.name).of_under hchild⟩
      have hchild' : (node s ps []).child? (.parallel j) = some c' := hc'
      obtain ⟨b, hb⟩ := hbefore j hj
      exact not_fails_of_ok (hb ▸ hps j c' hc') (ht.under hchild').legal
  | @goesOn t p c log log' b r hp hc ihp ihc =>
    cases r with
    | ok b' => cases hr
    | error f' =>
      cases hr
      have hchild := child?_withSerial_self p c
      obtain ⟨π, hfirst, hblames⟩ := ihc (ht.under hchild) rfl
      exact ⟨_, hfirst.serial (not_fails_of_ok hp ht.of_withSerial.legal),
        fun name => (hblames name).of_under hchild⟩
  | @breaksOff t p c log f' hp ih =>
    obtain ⟨π, hfirst, hblames⟩ := ih ht.of_withSerial hr
    exact ⟨π, hfirst.withSerial c, fun name => (hblames name).withSerial c⟩

/-! ## One system after the other -/

section Sequence

variable {name : String} {w : Workspace σ}

/-- Runs the system at a path, if there is one. -/
def updateAt (ctx : TickContext) (p : Pipeline σ) (name : String) (π : Path) (w : Workspace σ) :
    Except ExecutionError Batch × Workspace σ :=
  match p.stage? π with
  | none => (.ok {}, w)
  | some s =>
    match s.system with
    | none => (.ok {}, w)
    | some system =>
      let u := system.update ctx s.access w
      (match u.outcome with
        | .batch b => .ok b
        | .failed e => .error (.system s.name e)
        | .panicked payload => .error (.panicked (p.keeper name π) payload.message),
        u.step w.cells)

/-- Runs the systems at some paths one after the other, up to the first one that
    fails. -/
def inSequence (ctx : TickContext) (p : Pipeline σ) (name : String) :
    List Path → Workspace σ → Except ExecutionError Batch × Workspace σ
  | [], w => (.ok {}, w)
  | π :: rest, w => andThen (p.updateAt ctx name π w) (p.inSequence ctx name rest)

theorem inSequence_singleton (p : Pipeline σ) (π : Path) :
    p.inSequence ctx name [π] w = p.updateAt ctx name π w :=
  andThen_empty _

theorem inSequence_append (p : Pipeline σ) (πs πs' : List Path) (w : Workspace σ) :
    p.inSequence ctx name (πs ++ πs') w =
      andThen (p.inSequence ctx name πs w) (p.inSequence ctx name πs') := by
  induction πs generalizing w with
  | nil =>
    rw [List.nil_append, inSequence]
    simp only [andThen]
    rcases p.inSequence ctx name πs' w with ⟨_ | b, w'⟩ <;> rfl
  | cons π πs ih =>
    rw [List.cons_append, inSequence, inSequence, andThen_assoc]
    exact congrArg (andThen _) (funext ih)

theorem inSequence_under {b : Branch} (h : p.child? b = some c) (πs : List Path)
    (w : Workspace σ) : p.inSequence ctx name (πs.map (b :: ·)) w =
      c.inSequence ctx (b.keeper name c.name) πs w := by
  induction πs generalizing w with
  | nil => rfl
  | cons π πs ih =>
    have hupdate : p.updateAt ctx name (b :: π) w = c.updateAt ctx (b.keeper name c.name) π w := by
      rw [updateAt, updateAt, stage?_cons_of_child h, keeper, h]
    rw [List.map_cons, inSequence, inSequence, hupdate]
    exact congrArg (andThen _) (funext ih)

theorem inSequence_withSerial {πs : List Path} (h : ∀ π ∈ πs, ∃ s, p.stage? π = some s)
    (c : Pipeline σ) (w : Workspace σ) :
    (p.withSerial c).inSequence ctx name πs w = p.inSequence ctx name πs w := by
  induction πs generalizing w with
  | nil => rfl
  | cons π πs ih =>
    obtain ⟨⟨s, hs⟩, hrest⟩ := List.forall_mem_cons.1 h
    have hupdate : (p.withSerial c).updateAt ctx name π w = p.updateAt ctx name π w := by
      rw [updateAt, updateAt, stage?_withSerial hs, hs, keeper_withSerial hs]
    rw [inSequence, inSequence, hupdate]
    exact congrArg (andThen _) (funext (ih hrest))

/-- Both give the same batch and leave the same, or the second one gives the
    error that the fault of the first one is at the node called `name`. -/
structure Agrees (name : String) (r : Except Fault Batch × Workspace σ)
    (q : Except ExecutionError Batch × Workspace σ) : Prop where
  ok : ∀ b, r.1 = .ok b → q = (.ok b, r.2)
  error : ∀ f, r.1 = .error f → q.1 = .error (f.contain name)

theorem agrees_ok (name : String) (b : Batch) (w : Workspace σ) :
    Agrees name (.ok b, w) (.ok b, w) :=
  ⟨fun _ hb => by cases hb; rfl, nofun⟩

theorem agrees_error {f : Fault} {q : Except ExecutionError Batch × Workspace σ}
    (h : q.1 = .error (f.contain name)) (w : Workspace σ) : Agrees name (.error f, w) q :=
  ⟨nofun, fun _ hf => by cases hf; exact h⟩

theorem andThen_of_error {ε : Type} {q : Except ε Batch × Workspace σ} {e : ε}
    (h : q.1 = .error e) (g : Workspace σ → Except ε Batch × Workspace σ) :
    (andThen q g).1 = .error e := by
  obtain ⟨r, w⟩ := q
  obtain rfl : r = .error e := h
  rfl

theorem Agrees.andThen {r : Except Fault Batch × Workspace σ}
    {q : Except ExecutionError Batch × Workspace σ}
    {f : Workspace σ → Except Fault Batch × Workspace σ}
    {g : Workspace σ → Except ExecutionError Batch × Workspace σ} (h : Agrees name r q)
    (hnext : ∀ w, Agrees name (f w) (g w)) :
    Agrees name (Pipeline.andThen r f) (Pipeline.andThen q g) := by
  obtain ⟨fault | b, w⟩ := r
  · exact agrees_error (andThen_of_error (h.error fault rfl) g) w
  obtain rfl := h.ok b rfl
  have hw := hnext w
  have hfst := andThen_ok b w g
  simp only [Pipeline.andThen] at hfst ⊢
  generalize f w = x at hw
  obtain ⟨fault | b', w'⟩ := x
  · refine agrees_error ?_ w'
    rw [hfst, hw.error fault rfl]
    rfl
  · rw [hw.ok b' rfl]
    exact agrees_ok name _ w'

theorem agrees_stage (s : Stage σ) (ps ss : List (Pipeline σ)) (w : Workspace σ) :
    Agrees name (s.run ctx w) ((node s ps ss).inSequence ctx name s.log w) := by
  unfold Stage.run Stage.log
  cases hsystem : s.system with
  | none => exact agrees_ok name {} w
  | some system =>
    simp only [Option.isSome_some, if_true, inSequence_singleton, updateAt, stage?_nil, stage,
      hsystem]
    cases (system.update ctx s.access w).outcome with
    | batch b => exact agrees_ok name b _
    | failed e => exact agrees_error rfl _
    | panicked payload => exact agrees_error rfl _

/-- What parallel children give and leave. -/
def fanned (ctx : TickContext) (ps : List (Pipeline σ)) (w : Workspace σ) :
    Except Fault Batch × Workspace σ :=
  ((fanOut ctx ps {} w).1.result.mapError Fault.error, (fanOut ctx ps {} w).2)

theorem execute_eq_fanned (s : Stage σ) (ps : List (Pipeline σ)) (w : Workspace σ) :
    execute ctx (node s ps []) w = andThen (s.run ctx w) (fanned ctx ps) := by
  rcases hown : s.run ctx w with ⟨f | own, w'⟩
  · rw [execute, hown]
    rfl
  · rw [execute_childless hown]
    simp only [andThen, fanned]
    cases (fanOut ctx ps {} w').1.result <;> rfl

/-- A parallel child more. -/
theorem agrees_fanned_concat {qs : List (Pipeline σ)}
    {q : Except ExecutionError Batch × Workspace σ}
    {g : Workspace σ → Except ExecutionError Batch × Workspace σ}
    (h : Agrees name (fanned ctx qs w) q) (hc : ∀ w, Agrees c.name (execute ctx c w) (g w)) :
    Agrees name (fanned ctx (qs ++ [c]) w) (andThen q g) := by
  simp only [fanned] at h
  simp only [fanned, fanOut_append, fanOut]
  generalize fanOut ctx qs {} w = x at h
  obtain ⟨⟨batch, error⟩, w'⟩ := x
  cases error with
  | some e =>
    -- nothing counts after an error
    exact agrees_error (f := .error e) (andThen_of_error (h.error (.error e) rfl) g) _
  | none =>
    obtain rfl := h.ok batch rfl
    have hw := hc w'
    generalize execute ctx c w' = x at hw
    obtain ⟨fault | b, w''⟩ := x
    · refine agrees_error (f := .error (fault.contain c.name)) ?_ w''
      rw [andThen_ok, hw.error fault rfl]
      rfl
    · simp only [andThen, hw.ok b rfl]
      exact agrees_ok name _ w''

/-- Parallel children run as their systems do one after the other. -/
theorem agrees_fanned (s : Stage σ) (ps : List (Pipeline σ)) (name : String) (w : Workspace σ)
    (ih : ∀ c ∈ ps, ∀ name w,
      Agrees name (execute ctx c w) (c.inSequence ctx name c.preorder w)) :
    Agrees name (fanned ctx ps w) ((node s ps []).inSequence ctx name
      ((List.range ps.length).flatMap fun i => (block ps i).map (.parallel i :: ·)) w) := by
  have hfirst : ∀ n ≤ ps.length, Agrees name (fanned ctx (ps.take n) w)
      ((node s ps []).inSequence ctx name
        ((List.range n).flatMap fun i => (block ps i).map (.parallel i :: ·)) w) := by
    intro n hn
    induction n with
    | zero => exact ⟨fun b hb => by cases hb; rfl, nofun⟩
    | succ n ihn =>
      have hc : ps[n]? = some ps[n] := List.getElem?_eq_getElem hn
      rw [List.take_add_one, hc, Option.toList_some, List.range_succ, List.flatMap_append,
        List.flatMap_singleton, block_of_get hc, inSequence_append]
      refine agrees_fanned_concat (ihn (Nat.le_of_lt hn)) fun w => ?_
      rw [inSequence_under (child?_parallel hc)]
      exact ih _ (List.getElem_mem hn) _ w
  have hall := hfirst ps.length le_rfl
  rwa [List.take_length] at hall

/-- **A tree runs as its systems do one after the other**, in pre-order. -/
theorem agrees_execute (p : Pipeline σ) (name : String) (w : Workspace σ) :
    Agrees name (execute ctx p w) (p.inSequence ctx name p.preorder w) := by
  induction p generalizing name w with
  | node s ps ss ihp ihs =>
    induction ss using List.reverseRecOn generalizing w with
    | nil =>
      rw [execute_eq_fanned, preorder_childless, inSequence_append]
      exact (agrees_stage s ps [] w).andThen fun w => agrees_fanned s ps name w ihp
    | append_singleton ss c ih =>
      have hp := ih (fun q hq => ihs q (List.mem_append_left _ hq)) w
      have hmem : ∀ π ∈ (node s ps ss).preorder, ∃ s', (node s ps ss).stage? π = some s' := by
        intro π hπ
        obtain ⟨s', hs', -⟩ := (arranged_preorder _).mem_iff.1 hπ
        exact ⟨s', hs'⟩
      change Agrees name (execute ctx ((node s ps ss).withSerial c) w)
        (((node s ps ss).withSerial c).inSequence ctx name ((node s ps ss).withSerial c).preorder w)
      rw [execute_withSerial, preorder_withSerial, inSequence_append, inSequence_withSerial hmem]
      refine hp.andThen fun w => ?_
      rw [inSequence_under (child?_withSerial_self (node s ps ss) c)]
      exact ihs c (by simp) name w

end Sequence

/-! ## Running a tree -/

theorem listed_inListOrder (ctx : TickContext) (p : Pipeline σ) (w : Workspace σ) :
    (p.inListOrder ctx w).Listed p := by
  intro π q hq
  simp [inListOrder, hq]

/-- What a tree gives and leaves that lets no panic pass, in terms of its
    pre-order. -/
structure InPreorder (p : Pipeline σ) (ctx : TickContext) (w : Workspace σ)
    (r : Except ExecutionError Batch) (w' : Workspace σ) : Prop where
  /-- A batch lists the commands of all systems, none of which fails. -/
  batch : ∀ b, r = .ok b → (∀ π, ¬ Fails ctx (p.inListOrder ctx w) p π) ∧
    b.commands = p.preorder.flatMap (commandsAt ctx (p.inListOrder ctx w) p)
  /-- An error is that of the first system that fails. -/
  error : ∀ e, r = .error e → ∃ π, FirstFails ctx (p.inListOrder ctx w) p π ∧
    Blames ctx (p.inListOrder ctx w) p p.name π e
  /-- It is what the systems give one after the other. -/
  sequence : (p.inSequence ctx p.name p.preorder w).1 = r
  /-- With a batch they leave the same. -/
  left : ∀ b, r = .ok b → (p.inSequence ctx p.name p.preorder w).2 = w'

/-- **Running a tree goes through it in pre-order.** -/
theorem executeContained_preorder (p : Pipeline σ) (ctx : TickContext) (w : Workspace σ) :
    p.InPreorder ctx w (p.executeContained ctx w).1 (p.executeContained ctx w).2 := by
  obtain ⟨log, hlog⟩ := executes_inListOrder ctx p w
  have hlisted := listed_inListOrder ctx p w
  have hagrees : Agrees p.name (p.execute ctx w) (p.inSequence ctx p.name p.preorder w) :=
    agrees_execute p p.name w
  rw [executeContained]
  rcases hr : p.execute ctx w with ⟨f | own, w'⟩
  · rw [hr] at hlog hagrees
    refine ⟨nofun, ?_, hagrees.error f rfl, nofun⟩
    rintro e ⟨⟩
    obtain ⟨π, hfirst, hblames⟩ := hlog.first_fails hlisted
    exact ⟨π, hfirst, hblames p.name⟩
  · rw [hr] at hlog hagrees
    have hsame := hagrees.ok own rfl
    refine ⟨?_, nofun, congrArg Prod.fst hsame, fun _ _ => congrArg Prod.snd hsame⟩
    rintro b ⟨⟩
    exact ⟨not_fails_of_ok hlog hlisted.legal, hlog.commands_eq hlisted⟩

end Pipeline

end TickEngine
