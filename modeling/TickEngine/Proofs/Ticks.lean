/-
  How a tick ends.

  Commands are performed in order up to the first that fails, and that one
  leaves nothing behind, so after a tick the engine is what the pipeline left
  with a prefix of the commands performed: none if the pipeline failed, all if
  the tick succeeded.

  * `Engine.Reaches.goOn_cases`: the ways in which a tick can end, in whatever
    order parallel children complete;
  * `Engine.Reaches.runTick_cases`: the same in the order of the list.
-/
import TickEngine.Proofs.Executions
import TickEngine.Proofs.Failure
import TickEngine.Proofs.Ledger

namespace TickEngine.Engine

variable {σ : Type} {trees : Pipeline σ → Prop} {g g' : Engine σ} {n : Nat}

/-! ## Commands in order -/

/-- The engine after commands, whether or not some of them fail. -/
def perform (cs : List Command) (g : Engine σ) : Engine σ :=
  cs.foldl (fun g c => (c.apply commands g).2) g

/-- None of the commands fails when they are performed in order. -/
def Succeeds : List Command → Engine σ → Prop
  | [], _ => True
  | c :: rest, g => (c.apply commands g).1 = .ok () ∧ Succeeds rest (c.apply commands g).2

theorem perform_cons (c : Command) (cs : List Command) (g : Engine σ) :
    perform (c :: cs) g = perform cs (c.apply commands g).2 := rfl

/-- A command leads from a reached world to a reached one. -/
theorem reaches_world_apply (h : World.Reaches n g.world) (c : Command) :
    World.Reaches (n + g.world.ids.newIds (c.apply commands g).2.world.ids)
      (c.apply commands g).2.world := by
  rcases (performs_apply c g).world with hsame | hstep
  · rw [hsame, EntityIds.newIds_eq_zero rfl]
    exact h
  · exact h.step hstep

/-- Commands are performed up to the first that fails, and that one leaves
    nothing behind. -/
theorem applyAll_cases (h : World.Reaches n g.world) (cs : List Command)
    (hn : n + newIdsAll cs g < 2 ^ 64 - 1) :
    (Succeeds cs g ∧ Command.applyAll commands cs g = (.ok (), perform cs g)) ∨
      ∃ done c rest err, cs = done ++ c :: rest ∧ Succeeds done g ∧
        (c.apply commands (perform done g)).1 = .error err ∧
        Command.applyAll commands cs g = (.error (c, err), perform done g) := by
  induction cs generalizing n g with
  | nil => exact .inl ⟨trivial, rfl⟩
  | cons c rest ih =>
    have hstep := reaches_world_apply h c
    rw [newIdsAll] at hn
    rw [Command.applyAll]
    cases hc : c.apply commands g with
    | mk answer g' =>
      cases answer with
      | error err =>
        have hfail : (c.apply commands g).1 = .error err := by rw [hc]
        have hsame : g' = g := by
          have hleft := apply_of_error (h.consistent (by omega)) hfail
          rwa [hc] at hleft
        exact .inr ⟨[], c, rest, err, rfl, trivial, hfail, by rw [hsame]; rfl⟩
      | ok u =>
        have hfirst : (c.apply commands g).1 = .ok () := by rw [hc]
        have hnext : (c.apply commands g).2 = g' := by rw [hc]
        simp only [hc] at hn hstep
        obtain ⟨hall, heq⟩ | ⟨done, c', rest', err, rfl, hdone, hfail, heq⟩ :=
          ih hstep (by omega)
        · left
          rw [Succeeds, perform_cons, hnext]
          exact ⟨⟨hfirst, hall⟩, heq⟩
        · refine .inr ⟨c :: done, c', rest', err, rfl, ?_, ?_, ?_⟩
          · rw [Succeeds, hnext]
            exact ⟨hfirst, hdone⟩
          · rw [perform_cons, hnext]
            exact hfail
          · rw [perform_cons, hnext]
            exact heq

/-! ## What commands leave alone -/

theorem Performs.tick (h : Performs g g') : g'.tick = g.tick := by
  cases h with
  | nothing | exit | replace e c => rfl
  | spawn cs =>
    unfold spawnComponents
    split <;> rfl
  | despawn e =>
    unfold Engine.despawn
    split <;> rfl
  | insert e c =>
    unfold insertComponent
    split <;> rfl
  | remove e t =>
    unfold removeComponent
    split <;> rfl

theorem tick_apply (c : Command) (g : Engine σ) : (c.apply commands g).2.tick = g.tick :=
  (performs_apply c g).tick

theorem exitRequested_apply (c : Command) (g : Engine σ) :
    (c.apply commands g).2.exitRequested = true ↔ g.exitRequested = true ∨ c = .exit := by
  cases c with
  | spawn records =>
    simp only [Command.apply, commands]
    cases g.world.decodeAll records with
    | error err => simp
    | ok cs => simp [exitRequested_spawnComponents]
  | despawn e => simp [Command.apply, commands, exitRequested_despawn]
  | insert e record =>
    simp only [Command.apply, commands]
    cases g.world.decode record with
    | error err => simp
    | ok c => simp [exitRequested_insertComponent]
  | remove e t =>
    have hexit := exitRequested_removeComponent g e t
    simp only [Command.apply, commands]
    split <;> rename_i heq <;> rw [heq] at hexit <;> simpa using hexit
  | update e record =>
    simp only [Command.apply, commands]
    cases g.world.decode record <;> simp
  | exit => simp [Command.apply, commands, requestExit]

theorem tick_perform (cs : List Command) (g : Engine σ) : (perform cs g).tick = g.tick := by
  induction cs generalizing g with
  | nil => rfl
  | cons c rest ih => rw [perform_cons, ih, tick_apply]

theorem exitRequested_perform (cs : List Command) (g : Engine σ) :
    (perform cs g).exitRequested = true ↔ g.exitRequested = true ∨ .exit ∈ cs := by
  induction cs generalizing g with
  | nil => simp [perform]
  | cons c rest ih =>
    rw [perform_cons, ih, exitRequested_apply, List.mem_cons, or_assoc, eq_comm (a := c)]

/-! ## Ticks -/

/-- The engine after the pipeline ran and left `w`: values, the count of ticks
    and the surroundings are new. -/
def afterSystems (g : Engine σ) (w : Workspace σ) : Engine σ :=
  { g with
    world := g.world.withCells w.cells
    tick := g.tick + 1
    ambient := w.ambient }

theorem runTick_of_none (h : g.root = none) (dt : Double) :
    g.runTick dt = (.ok 0, { g with tick := g.tick + 1 }) := by
  simp only [runTick, h]

theorem runSystems_of_root {root : Pipeline σ} {dt : Double} {r : Except ExecutionError Batch}
    {w : Workspace σ} (hroot : g.root = some root)
    (hrun : root.executeContained ⟨g.tick + 1, dt⟩ ⟨g.world.store.cells, g.ambient⟩ = (r, w)) :
    g.runSystems dt = (r, g.afterSystems w) := by
  simp only [runSystems, hroot, hrun]
  rfl

theorem runTick_of_root {root : Pipeline σ} {dt : Double} {r : Except ExecutionError Batch}
    {w : Workspace σ} (hroot : g.root = some root)
    (hrun : root.executeContained ⟨g.tick + 1, dt⟩ ⟨g.world.store.cells, g.ambient⟩ = (r, w)) :
    g.runTick dt = g.goOn root.name r w := by
  simp only [runTick, hroot, hrun]

theorem goOn_of_error (g : Engine σ) (root : String) (e : ExecutionError) (w : Workspace σ) :
    g.goOn root (.error e) w = (.error (.execution (g.tick + 1) e), g.afterSystems w) := rfl

theorem goOn_of_ok (root : String) {w : Workspace σ} {batch : Batch}
    (h : Command.applyAll commands batch.commands (g.afterSystems w) = (.ok (), g')) :
    g.goOn root (.ok batch) w = (.ok batch.size, g') := by
  have hresult : sessionResult root [.ok batch] = .ok batch := rfl
  simp only [afterSystems, World.withCells] at h
  simp only [goOn, hresult, withCells, h]

theorem goOn_of_refused (root : String) {w : Workspace σ} {batch : Batch} {c : Command}
    {err : CommandError}
    (h : Command.applyAll commands batch.commands (g.afterSystems w) = (.error (c, err), g')) :
    g.goOn root (.ok batch) w = (.error (.command g'.tick c.kind err), g') := by
  have hresult : sessionResult root [.ok batch] = .ok batch := rfl
  simp only [afterSystems, World.withCells] at h
  simp only [goOn, hresult, withCells, h]

/-- A batch is performed on what the pipeline left. -/
theorem goOn_of_batch (h : World.Reaches n g.world) {w : Workspace σ}
    (hw : Cells.Written g.world.store.cells w.cells) (root : String) {batch : Batch}
    (hn : n + newIdsAll batch.commands (g.afterSystems w) < 2 ^ 64 - 1) :
    (Succeeds batch.commands (g.afterSystems w) ∧ g.goOn root (.ok batch) w =
        (.ok batch.commands.length, perform batch.commands (g.afterSystems w))) ∨
      ∃ done c rest err, batch.commands = done ++ c :: rest ∧ Succeeds done (g.afterSystems w) ∧
        (c.apply commands (perform done (g.afterSystems w))).1 = .error err ∧
        g.goOn root (.ok batch) w =
          (.error (.command (g.tick + 1) c.kind err), perform done (g.afterSystems w)) := by
  have hleft : World.Reaches n (g.afterSystems w).world := h.withCells hw
  obtain ⟨hall, heq⟩ | ⟨done, c, rest, err, hsplit, hdone, hfail, heq⟩ :=
    applyAll_cases hleft batch.commands hn
  · exact .inl ⟨hall, goOn_of_ok root heq⟩
  · refine .inr ⟨done, c, rest, err, hsplit, hdone, hfail, ?_⟩
    rw [goOn_of_refused root heq, tick_perform]
    rfl

/-- **However the systems of a tick run**, the tick performs all that they ask
    for or what comes before the first command that fails, and nothing if a
    system fails.  `r` is what the tree comes to under a legal schedule, and `w`
    what is left of writes to cells. -/
theorem Reaches.goOn_cases (h : Reaches trees n g) {root : Pipeline σ} {ctx : TickContext}
    {t : Schedule σ} {log : List Path} {r : Except Fault Batch} {w : Workspace σ}
    (ht : t.Legal root) (hrun : Pipeline.Executes ctx t root log r)
    (hw : Cells.Written g.world.store.cells w.cells)
    (hn : ∀ batch, r = .ok batch →
      n + newIdsAll batch.commands (g.afterSystems w) < 2 ^ 64 - 1) :
    let ended := g.goOn root.name (r.mapError (Fault.contain root.name)) w
    ((∃ π, Pipeline.Fails ctx t root π) ∧ ∃ π ∈ log, ∃ e,
        Pipeline.Blames ctx t root root.name π e ∧
          ended = (.error (.execution (g.tick + 1) e), g.afterSystems w)) ∨
      ((∀ π, ¬ Pipeline.Fails ctx t root π) ∧ ∃ listing cs, root.Arranged listing ∧
        cs = listing.flatMap (Pipeline.commandsAt ctx t root) ∧
        ((Succeeds cs (g.afterSystems w) ∧
            ended = (.ok cs.length, perform cs (g.afterSystems w))) ∨
          ∃ done c rest err, cs = done ++ c :: rest ∧ Succeeds done (g.afterSystems w) ∧
            (c.apply commands (perform done (g.afterSystems w))).1 = .error err ∧
            ended = (.error (.command (g.tick + 1) c.kind err),
              perform done (g.afterSystems w)))) := by
  intro ended
  have hfails := hrun.error_iff ht
  cases r with
  | error f =>
    obtain ⟨π, hπ, hblames⟩ := hrun.blames ht
    exact .inl ⟨hfails.1 ⟨f, rfl⟩, π, hπ, _, hblames root.name, goOn_of_error g root.name _ w⟩
  | ok batch =>
    obtain ⟨listing, hlisting, hcommands⟩ := hrun.arranged ht
    have hnone : ∀ π, ¬ Pipeline.Fails ctx t root π := fun π hπ => nomatch hfails.2 ⟨π, hπ⟩
    exact .inr ⟨hnone, listing, batch.commands, hlisting, hcommands,
      goOn_of_batch h.world hw root.name (hn batch rfl)⟩

/-- A tick is one of these, with children in the order of the list. -/
theorem runTick_executes {root : Pipeline σ} (hroot : g.root = some root) (dt : Double) :
    let found : Workspace σ := ⟨g.world.store.cells, g.ambient⟩
    let t := root.inListOrder ⟨g.tick + 1, dt⟩ found
    t.Legal root ∧ ∃ log r w, Pipeline.Executes ⟨g.tick + 1, dt⟩ t root log r ∧
      Cells.Written found.cells w.cells ∧
      g.runTick dt = g.goOn root.name (r.mapError (Fault.contain root.name)) w := by
  intro found t
  obtain ⟨log, hlog⟩ := Pipeline.executes_inListOrder ⟨g.tick + 1, dt⟩ root found
  exact ⟨Pipeline.legal_inListOrder _ root found, log, _, _, hlog,
    Pipeline.written_execute _ root found, runTick_of_root hroot rfl⟩

/-- What the pipeline leads to, and every command keeps, a tick leads to. -/
theorem runTick_induction {P : Engine σ → Prop}
    (hstep : ∀ (c : Command) g, P g → P (c.apply commands g).2) (g : Engine σ) (dt : Double)
    (h : P (g.runSystems dt).2) : P (g.runTick dt).2 := by
  rw [runTick_eq]
  rcases hrun : g.runSystems dt with ⟨_ | batch, g'⟩ <;> rw [hrun] at h
  · exact h
  · have hall := applyAll_induction hstep batch.commands h
    rcases hc : Command.applyAll commands batch.commands g' with ⟨_ | _, g''⟩ <;>
      rw [hc] at hall <;>
      simp only [hc] <;> exact hall

theorem tick_runTick (g : Engine σ) (dt : Double) : (g.runTick dt).2.tick = g.tick + 1 := by
  refine runTick_induction (P := fun g' => g'.tick = g.tick + 1)
    (fun c g' h => (tick_apply c g').trans h) g dt ?_
  unfold runSystems
  split <;> rfl

/-- **A tick performs all of its commands, or those before the first that
    fails.**  The session of a tick has the one result of the pipeline.  If that
    is an error, nothing but values has changed; if it is a batch, the commands
    are performed on what the pipeline left. -/
theorem Reaches.runTick_cases (h : Reaches trees n g) (dt : Double)
    (hn : n + g.newIdsInTick dt < 2 ^ 64 - 1) :
    (g.runTick dt).2.tick = g.tick + 1 ∧
    (g.root = none → g.runTick dt = (.ok 0, { g with tick := g.tick + 1 })) ∧
    ∀ root r w, g.root = some root →
      root.executeContained ⟨g.tick + 1, dt⟩ ⟨g.world.store.cells, g.ambient⟩ = (r, w) →
      sessionResult root.name [r] = r ∧ Cells.Written g.world.store.cells w.cells ∧
      (∀ e, r = .error e →
        g.runTick dt = (.error (.execution (g.tick + 1) e), g.afterSystems w) ∧
        (g.afterSystems w).world.owned = g.world.owned ∧
        (g.afterSystems w).world.ids = g.world.ids ∧ (g.afterSystems w).root = g.root ∧
        (g.afterSystems w).exitRequested = g.exitRequested) ∧
      ∀ batch, r = .ok batch →
        (Succeeds batch.commands (g.afterSystems w) ∧
          g.runTick dt =
            (.ok batch.commands.length, perform batch.commands (g.afterSystems w)) ∧
          ((g.runTick dt).2.exitRequested = true ↔
            g.exitRequested = true ∨ .exit ∈ batch.commands)) ∨
        ∃ done c rest err, batch.commands = done ++ c :: rest ∧
          Succeeds done (g.afterSystems w) ∧
          (c.apply commands (perform done (g.afterSystems w))).1 = .error err ∧
          g.runTick dt =
            (.error (.command (g.tick + 1) c.kind err), perform done (g.afterSystems w)) := by
  refine ⟨tick_runTick g dt, fun hroot => runTick_of_none hroot dt, ?_⟩
  intro root r w hroot hexecute
  have hgoes := runTick_of_root hroot hexecute
  have hwritten := Pipeline.written_executeContained ⟨g.tick + 1, dt⟩ root
    ⟨g.world.store.cells, g.ambient⟩
  rw [hexecute] at hwritten
  refine ⟨rfl, hwritten, ?_, ?_⟩
  · rintro e rfl
    exact ⟨hgoes.trans (goOn_of_error g root.name e w), rfl, rfl, rfl, rfl⟩
  · rintro batch rfl
    rw [newIdsInTick, runSystems_of_root hroot hexecute] at hn
    rw [hgoes]
    obtain ⟨hall, heq⟩ | hfailed := goOn_of_batch h.world hwritten root.name hn
    · refine .inl ⟨hall, heq, ?_⟩
      rw [heq]
      exact exitRequested_perform batch.commands (g.afterSystems w)
    · exact .inr hfailed

/-- A system that asks for an exit, for an entity of an unknown type, and for
    the end of entity 1. -/
def asking : Pipeline Unit :=
  let wishes : List Command := [.exit, .spawn [⟨Catalog.mass.id, []⟩], .despawn ⟨1⟩]
  .node ⟨"ask", some (.new "ask" [] fun _ _ _ => ⟨.batch ⟨wishes⟩, [], ()⟩), [], {}⟩ [] []

/-- The exit is performed, the spawn fails, and the entity lives on. -/
theorem runTick_cases_stocked :
    let g := (stocked.setRoot asking).2
    Reaches (fun _ => True) 2 g ∧ 2 + g.newIdsInTick ⟨0⟩ < 2 ^ 64 - 1 ∧
      (g.runTick ⟨0⟩).1 =
        .error (.command 1 "spawn" (.component (.unknownType Catalog.mass.id))) ∧
      (g.runTick ⟨0⟩).2.tick = 1 ∧ (g.runTick ⟨0⟩).2.exitRequested = true ∧
      (g.runTick ⟨0⟩).2.world.contains ⟨1⟩ = true := by
  intro g
  have hreaches : Reaches (fun _ => True) 2 g := by
    have hstocked : Reaches (fun _ => True) 2 stocked := reaches_stocked trivial
    have hstep := hstocked.step (.setRoot asking trivial)
    rwa [EntityIds.newIds_eq_zero (by rw [world_setRoot])] at hstep
  have hn : 2 + g.newIdsInTick ⟨0⟩ < 2 ^ 64 - 1 := by decide +kernel
  obtain ⟨htick, -⟩ := hreaches.runTick_cases ⟨0⟩ hn
  exact ⟨hreaches, hn, by decide +kernel, htick.trans (by decide +kernel), by decide +kernel,
    by decide +kernel⟩

end TickEngine.Engine
