/-
  How far the sets of a tree get started.

  The sets are started stage by stage in post-order: the stages of the parallel
  children, those of the serial children, and then the root.  A declared type
  without a table stops this, and what was started before it stays so.

  * `Pipeline.bind_eq`: starting a tree is starting its stages in post-order;
  * `Pipeline.Built.starts_in_order`: what starting a tree answers, and which of
    its stages have been started after it.
-/
import TickEngine.Component.Catalog
import TickEngine.Proofs.Stages

namespace TickEngine

/-! ## One stage -/

/-- The first of the types that has no table. -/
def Tables.missing? (tables : Tables) (types : List TypeId) : Option TypeId :=
  types.find? fun t => !tables.contains t

theorem Tables.missing?_eq_none_iff {tables : Tables} {types : List TypeId} :
    tables.missing? types = none ↔ ∀ t ∈ types, tables.contains t = true := by
  simp [missing?]

theorem LiveSet.bind?_eq {spec : SetSpec} (hne : spec.types ≠ []) (owner : String)
    (tables : Tables) : LiveSet.bind? owner spec tables =
      match tables.missing? spec.types with
      | some t => .error (.unknownType t)
      | none => .ok { spec } := by
  rw [bind?, if_neg (by simpa [SetSpec.isEmpty] using hne)]
  rfl

/-- The declarations of a system fail at the first type without a table. -/
theorem Access.bind?_eq {specs : List SetSpec} (hne : ∀ spec ∈ specs, spec.types ≠ [])
    (owner : String) (tables : Tables) : Access.bind? owner specs tables =
      match tables.missing? (specs.flatMap (·.types)) with
      | some t => .error (.unknownType t)
      | none => .ok ⟨specs.map fun spec => { spec }⟩ := by
  have hsets : specs.mapM (LiveSet.bind? owner · tables) =
      match tables.missing? (specs.flatMap (·.types)) with
      | some t => .error (.unknownType t)
      | none => .ok (specs.map fun spec => { spec }) := by
    induction specs with
    | nil => rfl
    | cons spec rest ih =>
      obtain ⟨hspec, hrest⟩ := List.forall_mem_cons.1 hne
      rw [List.mapM_cons, LiveSet.bind?_eq hspec, ih hrest, List.flatMap_cons, Tables.missing?,
        Tables.missing?, Tables.missing?, List.find?_append]
      cases spec.types.find? fun t => !tables.contains t with
      | some t => rfl
      | none =>
        cases (rest.flatMap (·.types)).find? fun t => !tables.contains t <;> rfl
  rw [bind?, hsets]
  cases tables.missing? (specs.flatMap (·.types)) <;> rfl

namespace Stage

variable {σ : Type} {s : Stage σ}

/-- The types that the stage declares, set by set. -/
def declared (s : Stage σ) : List TypeId := s.specs.flatMap (·.types)

/-- The stage is that of a new leaf, whatever sets it has. -/
inductive Built : Stage σ → Prop
  | ofSystem {system : System σ} {p : Pipeline σ} (access : Access) :
      Pipeline.ofSystem? system = .ok p → Built { p.stage with access }
  | group (name : String) (access : Access) : Built { (Pipeline.group name).stage with access }

theorem Built.types_ne_nil (h : s.Built) : ∀ spec ∈ s.specs, spec.types ≠ [] := by
  cases h with
  | @ofSystem system p access hp =>
    unfold Pipeline.ofSystem? at hp
    split at hp
    · cases hp
    · rename_i hnone
      obtain rfl := Except.ok.inj hp
      intro spec hspec hnil
      exact hnone (List.any_eq_true.2 ⟨spec, hspec, List.isEmpty_iff.2 hnil⟩)
  | group name access => exact List.forall_mem_nil _

theorem Built.bind_eq (h : s.Built) (tables : Tables) : s.bind tables =
    match tables.missing? s.declared with
    | some t => .error (.unknownType t)
    | none => .ok s.started := by
  rw [bind, Access.bind?_eq h.types_ne_nil, declared]
  cases tables.missing? (s.specs.flatMap (·.types)) <;> rfl

/-- Starting a stage changes nothing but its sets. -/
theorem bare_of_bind {s' : Stage σ} {tables : Tables} (h : s.bind tables = .ok s') :
    { s' with access := {} } = { s with access := {} } := by
  unfold Stage.bind at h
  cases ha : Access.bind? s.name s.specs tables with
  | error e => cases ha ▸ h
  | ok access =>
    cases ha ▸ h
    rfl

/-! ## Stages one after the other -/

/-- Starts the stages in order, up to the first that fails. -/
def startEach (tables : Tables) : List (Stage σ) → Except ComponentError Unit × List (Stage σ)
  | [] => (.ok (), [])
  | s :: rest =>
    match s.bind tables with
    | .error e => (.error e, s :: rest)
    | .ok s => ((startEach tables rest).1, s :: (startEach tables rest).2)

theorem startEach_append (tables : Tables) (ss rest : List (Stage σ)) :
    startEach tables (ss ++ rest) =
      match startEach tables ss with
      | (.error e, ss) => (.error e, ss ++ rest)
      | (.ok (), ss) => ((startEach tables rest).1, ss ++ (startEach tables rest).2) := by
  induction ss with
  | nil => rfl
  | cons s ss ih =>
    rw [List.cons_append, startEach, startEach]
    cases s.bind tables with
    | error e => rfl
    | ok s =>
      rcases hss : startEach tables ss with ⟨_ | _, ss'⟩ <;> simp [ih, hss]

/-- The stages get started up to the first that declares a type without a
    table. -/
theorem startEach_cases {ss : List (Stage σ)} (h : ∀ s ∈ ss, s.Built) (tables : Tables) :
    (startEach tables ss = (.ok (), ss.map started) ∧
        ∀ s ∈ ss, tables.missing? s.declared = none) ∨
      ∃ before s after t, ss = before ++ s :: after ∧
        (∀ s' ∈ before, tables.missing? s'.declared = none) ∧
        tables.missing? s.declared = some t ∧
        startEach tables ss = (.error (.unknownType t), before.map started ++ s :: after) := by
  induction ss with
  | nil => exact .inl ⟨rfl, List.forall_mem_nil _⟩
  | cons s rest ih =>
    obtain ⟨hs, hrest⟩ := List.forall_mem_cons.1 h
    rw [startEach, hs.bind_eq]
    cases hmissing : tables.missing? s.declared with
    | some t => exact .inr ⟨[], s, rest, t, rfl, List.forall_mem_nil _, hmissing, rfl⟩
    | none =>
      obtain ⟨heq, hall⟩ | ⟨before, s', after, t, rfl, hbefore, ht, heq⟩ := ih hrest
      · exact .inl ⟨by rw [heq]; rfl, List.forall_mem_cons.2 ⟨hmissing, hall⟩⟩
      · exact .inr ⟨s :: before, s', after, t, rfl, List.forall_mem_cons.2 ⟨hmissing, hbefore⟩, ht,
          by rw [heq]; rfl⟩

end Stage

namespace Pipeline

variable {σ : Type} {p : Pipeline σ}

/-! ## Trees in post-order -/

mutual

/-- The stages of a tree, children before their parent. -/
def postorder : Pipeline σ → List (Stage σ)
  | node s ps ss => postorderAll ps ++ (postorderAll ss ++ [s])

/-- The stages of all the trees, tree by tree. -/
def postorderAll : List (Pipeline σ) → List (Stage σ)
  | [] => []
  | p :: rest => postorder p ++ postorderAll rest

end

theorem postorderAll_eq (ps : List (Pipeline σ)) : postorderAll ps = ps.flatMap postorder := by
  induction ps with
  | nil => rfl
  | cons p rest ih => rw [postorderAll, ih, List.flatMap_cons]

theorem perm_postorder (p : Pipeline σ) : p.postorder.Perm p.stages := by
  induction p with
  | node s ps ss ihp ihs =>
    rw [postorder, stages_node, postorderAll_eq, postorderAll_eq, ← List.append_assoc]
    refine List.perm_append_singleton _ _ |>.trans (.cons s (.append ?_ ?_))
    · exact List.Perm.flatMap_left ps ihp
    · exact List.Perm.flatMap_left ss ihs

theorem forall_postorder_iff {P : Stage σ → Prop} :
    (∀ s ∈ p.postorder, P s) ↔ ∀ s ∈ p.stages, P s := by
  simp only [p.perm_postorder.mem_iff]

/-- Starting a tree is starting its stages in post-order. -/
theorem bind_eq (tables : Tables) (p : Pipeline σ) :
    Stage.startEach tables p.postorder = ((p.bind tables).1, (p.bind tables).2.postorder) := by
  induction p with
  | node s ps ss ihp ihs =>
    have hall : ∀ ps : List (Pipeline σ),
        (∀ p ∈ ps, Stage.startEach tables p.postorder =
          ((p.bind tables).1, (p.bind tables).2.postorder)) →
        Stage.startEach tables (postorderAll ps) =
          ((bindAll tables ps).1, postorderAll (bindAll tables ps).2) := by
      intro ps hps
      induction ps with
      | nil => rfl
      | cons p rest ih =>
        obtain ⟨hp, hrest⟩ := List.forall_mem_cons.1 hps
        rw [postorderAll, Stage.startEach_append, hp, ih hrest, bindAll]
        rcases p.bind tables with ⟨_ | _, p'⟩ <;> rfl
    rw [postorder, Stage.startEach_append, hall ps ihp, bind]
    rcases bindAll tables ps with ⟨_ | _, ps'⟩
    · rfl
    · dsimp only
      rw [Stage.startEach_append, hall ss ihs]
      rcases bindAll tables ss with ⟨_ | _, ss'⟩
      · rfl
      · simp only [Stage.startEach]
        rcases s.bind tables with _ | s' <;> rfl

/-- Starting a tree changes nothing but its sets. -/
theorem bare_bind (tables : Tables) (p : Pipeline σ) : (p.bind tables).2.bare = p.bare := by
  induction p with
  | node s ps ss ihp ihs =>
    have hall : ∀ ps : List (Pipeline σ), (∀ p ∈ ps, (p.bind tables).2.bare = p.bare) →
        (bindAll tables ps).2.map bare = ps.map bare := by
      intro ps hps
      induction ps with
      | nil => rfl
      | cons p rest ih =>
        obtain ⟨hp, hrest⟩ := List.forall_mem_cons.1 hps
        rw [bindAll]
        rcases hbind : p.bind tables with ⟨_ | _, p'⟩ <;> rw [hbind] at hp
        · rw [List.map_cons, hp, List.map_cons]
        · rw [List.map_cons, hp, List.map_cons, ih hrest]
    have hparallel := hall ps ihp
    have hserial := hall ss ihs
    rw [bind, bare_node]
    rcases hps : bindAll tables ps with ⟨_ | _, ps'⟩ <;> rw [hps] at hparallel
    · rw [bare_node, hparallel]
    rcases hss : bindAll tables ss with ⟨_ | _, ss'⟩ <;> rw [hss] at hserial
    · rw [bare_node, hparallel, hserial]
    rcases hs : s.bind tables with _ | s'
    · rw [bare_node, hparallel, hserial]
    · rw [bare_node, hparallel, hserial, Stage.bare_of_bind hs]

/-! ## What starting answers and leaves -/

/-- The stages of the tree are those of new leaves, whatever sets they have. -/
def Built (p : Pipeline σ) : Prop := ∀ s ∈ p.stages, s.Built

/-- The types that the tree declares, in post-order. -/
def declared (p : Pipeline σ) : List TypeId := p.postorder.flatMap Stage.declared

theorem missing?_declared_eq_none_iff {tables : Tables} :
    tables.missing? p.declared = none ↔ ∀ s ∈ p.postorder, tables.missing? s.declared = none := by
  simp only [Tables.missing?_eq_none_iff, declared, List.forall_mem_flatMap]

/-- The first missing type of a tree is that of the first stage that misses
    one. -/
theorem missing?_declared_eq_some {tables : Tables} {before after : List (Stage σ)} {s : Stage σ}
    {t : TypeId} (hp : p.postorder = before ++ s :: after)
    (hbefore : ∀ s' ∈ before, tables.missing? s'.declared = none)
    (hs : tables.missing? s.declared = some t) : tables.missing? p.declared = some t := by
  have hnone : tables.missing? (before.flatMap Stage.declared) = none := by
    rw [Tables.missing?_eq_none_iff, List.forall_mem_flatMap]
    exact fun s' hs' => Tables.missing?_eq_none_iff.1 (hbefore s' hs')
  rw [Tables.missing?] at hnone hs
  rw [declared, hp, List.flatMap_append, List.flatMap_cons, Tables.missing?, List.find?_append,
    List.find?_append, hnone, hs]
  rfl

/-- What starting a tree on tables answers and leaves behind. -/
structure StartsInOrder (p : Pipeline σ) (tables : Tables) : Prop where
  /-- The tree stays the same but for its sets. -/
  shape : (p.bind tables).2.bare = p.bare
  /-- The tree starts just if every declared type has a table. -/
  ok_iff : (p.bind tables).1 = .ok () ↔
    ∀ s ∈ p.stages, ∀ spec ∈ s.specs, ∀ t ∈ spec.types, tables.contains t = true
  /-- Then each stage has one set without rows for each declaration, in order. -/
  started : (p.bind tables).1 = .ok () → (p.bind tables).2 = p.mapStages Stage.started
  /-- The only error is that of the first type without a table. -/
  error_iff : ∀ err, (p.bind tables).1 = .error err ↔
    ∃ t, tables.missing? p.declared = some t ∧ err = .unknownType t
  /-- Then the stages before the one that declares this type have been started,
      and this one and those after it are as they were. -/
  stopped : ∀ t, tables.missing? p.declared = some t → ∃ before s after,
    p.postorder = before ++ s :: after ∧
      (∀ s' ∈ before, ∀ t' ∈ s'.declared, tables.contains t' = true) ∧
      tables.missing? s.declared = some t ∧
      (p.bind tables).2.postorder = before.map Stage.started ++ s :: after

/-- **A tree starts in post-order, up to the first missing table.** -/
theorem Built.starts_in_order (h : p.Built) (tables : Tables) : p.StartsInOrder tables := by
  have hall : tables.missing? p.declared = none ↔
      ∀ s ∈ p.stages, ∀ spec ∈ s.specs, ∀ t ∈ spec.types, tables.contains t = true := by
    rw [missing?_declared_eq_none_iff, forall_postorder_iff]
    simp only [Tables.missing?_eq_none_iff, Stage.declared, List.forall_mem_flatMap]
  have hstart := Stage.startEach_cases (forall_postorder_iff.2 h) tables
  rw [bind_eq, Prod.mk.injEq] at hstart
  obtain ⟨⟨hok, -⟩, hnone⟩ | ⟨before, s, after, t, hsplit, hbefore, hs, hstop⟩ := hstart
  · have hdeclared := missing?_declared_eq_none_iff.2 hnone
    refine ⟨bare_bind tables p, ?_, ?_, ?_, ?_⟩
    · simp [hok, ← hall, hdeclared]
    · intro _
      obtain ⟨heq, -⟩ | ⟨err, p', heq, -⟩ := p.bind_cases tables
      · rw [heq]
      · rw [heq] at hok
        cases hok
    · simp [hok, hdeclared]
    · simp [hdeclared]
  · have hdeclared := missing?_declared_eq_some hsplit hbefore hs
    rw [Prod.mk.injEq] at hstop
    obtain ⟨herr, hleft⟩ := hstop
    refine ⟨bare_bind tables p, ?_, ?_, ?_, ?_⟩
    · simp [herr, ← hall, hdeclared]
    · simp [herr]
    · simp [herr, hdeclared, eq_comm]
    · rw [hdeclared]
      rintro _ ⟨⟩
      exact ⟨before, s, after, hsplit,
        fun s' hs' => Tables.missing?_eq_none_iff.1 (hbefore s' hs'), hs, hleft⟩

/-- A leaf with a system that does nothing, and with the sets of an earlier
    start. -/
def held (name : String) (sets : List SetSpec) : Pipeline Unit :=
  .node ⟨name, some (.new name sets fun _ _ _ => ⟨.batch .empty, [], ()⟩), sets,
    ⟨[⟨.unite [Catalog.x.id], SortedMap.empty.insert ⟨1⟩ ⟨⟨1⟩, []⟩⟩]⟩⟩ [] []

theorem built_held {name : String} {sets : List SetSpec} (h : sets.any SetSpec.isEmpty = false) :
    (held name sets).stage.Built := by
  have hleaf : ofSystem? (.new name sets fun _ _ _ => ⟨.batch .empty, [], ()⟩ : System Unit) =
      .ok (.node ⟨name, some (.new name sets fun _ _ _ => ⟨.batch .empty, [], ()⟩), sets, {}⟩
        [] []) := if_neg (ne_true_of_eq_false h)
  exact .ofSystem _ hleaf

/-- A tree whose serial child declares a type that has no table. -/
def halfKnown : Pipeline Unit :=
  .node ⟨"root", none, [], {}⟩ [held "known" [.unite [Catalog.x.id]]]
    [held "unknown" [.unite [Catalog.x.id], .intersect [Catalog.x.id, Catalog.y.id]]]

/-- The parallel child loses its row; the serial child keeps its own. -/
theorem starts_in_order_halfKnown :
    let tables := (({} : Store).ensure Catalog.x.id Catalog.x.name).tables
    halfKnown.Built ∧ (halfKnown.bind tables).1 = .error (.unknownType Catalog.y.id) ∧
      (halfKnown.bind tables).2.postorder.map (fun s => (s.name, s.access.admittedCount)) =
        [("known", 0), ("unknown", 1), ("root", 0)] := by
  intro tables
  have hbuilt : halfKnown.Built := by
    rw [Built, halfKnown, forall_stages_node]
    refine ⟨.group "root" {}, ?_, ?_⟩ <;> rw [List.forall_mem_singleton, held, forall_stages_node]
    · exact ⟨built_held (by decide +kernel), List.forall_mem_nil _, List.forall_mem_nil _⟩
    · exact ⟨built_held (by decide +kernel), List.forall_mem_nil _, List.forall_mem_nil _⟩
  have hmissing : tables.missing? halfKnown.declared = some Catalog.y.id := by decide +kernel
  obtain ⟨-, -, -, herror, -⟩ := hbuilt.starts_in_order tables
  exact ⟨hbuilt, (herror _).2 ⟨_, hmissing, rfl⟩, by decide +kernel⟩

end Pipeline

end TickEngine
