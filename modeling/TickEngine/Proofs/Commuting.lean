/-
  Commands on different entities can be performed in any order.

  A command that makes no entity looks at one entity at most, and changes the
  ledger at that entity; the ids that it takes back go in front of the others.
  So lists that name different entities do to the ledger what each would do
  alone (`Ledger.applyAll_local`), and in whatever order they are performed the
  ledgers are `Ledger.Alike`.  The tables, the rows and the tree of an engine
  follow the ledger.  A system that has a way of its own to withdraw entities
  may depend on the order, though (`Engine.rows_depend_on_order`).

  * `Engine.Reaches.applyAll_perm`: the engines after all orders are alike.
-/
import TickEngine.Proofs.Ledger
import TickEngine.Proofs.Rebuild

namespace TickEngine

/-! ## What commands name -/

namespace Command

/-- The entity that a command names. -/
def entity? : Command → Option Entity
  | despawn e | insert e _ | remove e _ | update e _ => some e
  | spawn _ | exit => none

/-- The command makes no entity. -/
def SpawnFree (c : Command) : Prop := ∀ records, c ≠ spawn records

/-- Some command of the list names the entity. -/
def Names (cs : List Command) (e : Entity) : Prop := ∃ c ∈ cs, c.entity? = some e

/-- No entity is named in both lists. -/
def Apart (cs ds : List Command) : Prop := ∀ e, Names cs e → ¬ Names ds e

theorem Apart.symm {cs ds : List Command} (h : Apart cs ds) : Apart ds cs :=
  fun e hd hc => h e hc hd

theorem names_cons {c : Command} {cs : List Command} {e : Entity} :
    Names (c :: cs) e ↔ c.entity? = some e ∨ Names cs e := by
  simp [Names]

end Command

/-! ## Orders on the ledger -/

namespace Ledger

open Command (SpawnFree Names Apart)

variable {read : Reader} {c : Command} {cs ds : List Command} {l l' l₁ l₂ : Ledger}
  {on on' : Entity → Prop} {freed freed' : List UInt64} {exit exit' : Bool}

/-- `l'` is `l` with other entries for the entities in `on`, with the ids
    `freed` taken back, and an exit asked for if `exit` holds. -/
structure Changes (on : Entity → Prop) (freed : List UInt64) (exit : Bool) (l l' : Ledger) :
    Prop where
  entries : ∀ e, ¬ on e → l'.entries e = l.entries e
  free : l'.free = freed ++ l.free
  next : l'.next = l.next
  exit : l'.exit = (exit || l.exit)

theorem Changes.refl (on : Entity → Prop) (l : Ledger) : Changes on [] false l l :=
  ⟨fun _ _ => rfl, rfl, rfl, rfl⟩

theorem Changes.mono (h : Changes on freed exit l l') (hon : ∀ e, on e → on' e) :
    Changes on' freed exit l l' :=
  ⟨fun e he => h.entries e fun hmem => he (hon e hmem), h.free, h.next, h.exit⟩

theorem Changes.trans (h : Changes on freed exit l l₁) (h' : Changes on freed' exit' l₁ l₂) :
    Changes on (freed' ++ freed) (exit' || exit) l l₂ where
  entries e he := (h'.entries e he).trans (h.entries e he)
  free := by rw [h'.free, h.free, List.append_assoc]
  next := h'.next.trans h.next
  exit := by rw [h'.exit, h.exit, Bool.or_assoc]

/-- Another entry for one entity. -/
theorem changes_entry {e : Entity} {m : Option Holdings} (freed : List UInt64) :
    Changes (fun e' => some e = some e') freed false l
      { l with entries := Function.update l.entries e m, free := freed ++ l.free } where
  entries _ he := Function.update_of_ne (fun heq => he (congrArg some heq.symm)) _ _
  free := rfl
  next := rfl
  exit := rfl

/-- What a command did to two ledgers that agree on the entity it names. -/
structure Agrees (on : Entity → Prop) (l l' : Ledger)
    (r r' : Except CommandError Unit × Ledger) : Prop where
  answer : r'.1 = r.1
  entries : ∀ e, on e → r'.2.entries e = r.2.entries e
  changes : ∃ freed exit, Changes on freed exit l r.2 ∧ Changes on freed exit l' r'.2

theorem Agrees.refused {err : CommandError} (h : ∀ e, on e → l'.entries e = l.entries e) :
    Agrees on l l' (.error err, l) (.error err, l') :=
  ⟨rfl, h, _, _, .refl on l, .refl on l'⟩

theorem Agrees.assign {e : Entity} (h : ∀ e', some e = some e' → l'.entries e' = l.entries e')
    (t : TypeId) (x : Option Component) :
    Agrees (fun e' => some e = some e') l l' (.ok (), l.assign e t x)
      (.ok (), l'.assign e t x) := by
  refine ⟨rfl, ?_, [], false, changes_entry [], changes_entry []⟩
  rintro e' he
  cases he
  simp only [Ledger.assign, Function.update_self, h e rfl]

/-- A command that makes no entity looks only at the entity that it names. -/
theorem apply_local (read : Reader) (hc : c.SpawnFree)
    (h : ∀ e, c.entity? = some e → l'.entries e = l.entries e) :
    Agrees (fun e => c.entity? = some e) l l' (apply read c l) (apply read c l') := by
  cases c with
  | spawn records => exact absurd rfl (hc records)
  | despawn e =>
    have he := h e rfl
    simp only [apply, despawn, he]
    cases hentry : l.entries e with
    | none => exact ⟨rfl, h, [], false, .refl _ l, .refl _ l'⟩
    | some m =>
      refine ⟨rfl, ?_, [e.id], false, changes_entry [e.id], changes_entry [e.id]⟩
      rintro e' heq
      cases heq
      simp only [Function.update_self]
  | insert e r =>
    have he := h e rfl
    simp only [apply, insert, he]
    cases read r with
    | error err => exact .refused h
    | ok c =>
      cases l.entries e with
      | none => exact .refused h
      | some m =>
        cases hm : m r.typeId with
        | some _ => simp only [hm]; exact .refused h
        | none => simp only [hm]; exact .assign h _ _
  | remove e t => exact .assign h t none
  | update e r =>
    have he := h e rfl
    simp only [apply, update, he]
    cases read r with
    | error err => exact .refused h
    | ok c =>
      cases hm : (l.entries e).bind (· r.typeId) with
      | none => exact .refused h
      | some _ => exact .assign h _ _
  | exit =>
    refine ⟨rfl, h, [], true, ?_, ?_⟩ <;> exact ⟨fun _ _ => rfl, rfl, rfl, rfl⟩

/-- **A list does to the entities that it names what they alone call for.**  Two
    ledgers that agree on them get the same answer, the same entries for them,
    and the same ids back. -/
theorem applyAll_local (read : Reader) (hcs : ∀ c ∈ cs, SpawnFree c)
    (h : ∀ e, Names cs e → l'.entries e = l.entries e) :
    (applyAll read cs l').1 = (applyAll read cs l).1 ∧
    (∀ e, Names cs e →
      (applyAll read cs l').2.entries e = (applyAll read cs l).2.entries e) ∧
    ∃ freed exit, Changes (Names cs) freed exit l (applyAll read cs l).2 ∧
      Changes (Names cs) freed exit l' (applyAll read cs l').2 := by
  induction cs generalizing l l' with
  | nil => exact ⟨rfl, fun e he => h e he, [], false, .refl _ l, .refl _ l'⟩
  | cons c rest ih =>
    obtain ⟨hc, hrest⟩ := List.forall_mem_cons.1 hcs
    obtain ⟨hanswer, hentries, freed, exit, hl, hl'⟩ :=
      apply_local read (c := c) hc fun e he => h e (Command.names_cons.2 (.inl he))
    have hmono : ∀ e, c.entity? = some e → Names (c :: rest) e :=
      fun e he => Command.names_cons.2 (.inl he)
    rw [applyAll, applyAll]
    rcases hr : apply read c l with ⟨answer, l₁⟩
    rcases hr' : apply read c l' with ⟨answer', l₁'⟩
    rw [hr] at hanswer hentries hl
    rw [hr'] at hanswer hentries hl'
    -- what the first command leaves agrees on all that the list names
    have hagree : ∀ e, Names (c :: rest) e → l₁'.entries e = l₁.entries e := by
      intro e he
      by_cases hce : c.entity? = some e
      · exact hentries e hce
      · rw [hl'.entries e hce, hl.entries e hce, h e he]
    cases hanswer
    cases answer with
    | error err => exact ⟨rfl, hagree, freed, exit, hl.mono hmono, hl'.mono hmono⟩
    | ok u =>
      have hnames : ∀ e, Names rest e → Names (c :: rest) e :=
        fun e he => Command.names_cons.2 (.inr he)
      obtain ⟨hanswers, hentries', freed', exit', hrest₁, hrest₁'⟩ :=
        ih hrest fun e he => hagree e (hnames e he)
      refine ⟨hanswers, ?_, freed' ++ freed, exit' || exit,
        (hl.mono hmono).trans (hrest₁.mono hnames), (hl'.mono hmono).trans (hrest₁'.mono hnames)⟩
      intro e he
      by_cases hrest_e : Names rest e
      · exact hentries' e hrest_e
      · rw [hrest₁'.entries e hrest_e, hrest₁.entries e hrest_e, hagree e he]

theorem applyAll_changes (read : Reader) (l : Ledger) (hcs : ∀ c ∈ cs, SpawnFree c) :
    ∃ freed exit, Changes (Names cs) freed exit l (applyAll read cs l).2 := by
  obtain ⟨-, -, freed, exit, h, -⟩ := applyAll_local read (l := l) hcs fun _ _ => rfl
  exact ⟨freed, exit, h⟩

theorem applyAll_append (h : (applyAll read cs l).1 = .ok ()) (ds : List Command) :
    applyAll read (cs ++ ds) l = applyAll read ds (applyAll read cs l).2 := by
  induction cs generalizing l with
  | nil => rfl
  | cons c rest ih =>
    rw [applyAll] at h
    rw [List.cons_append, applyAll, applyAll]
    rcases hr : apply read c l with ⟨_ | _, l₁⟩ <;> simp only [hr] at h ⊢
    · cases h
    · exact ih h

/-- The ledgers say the same, but for the order of the released ids. -/
structure Alike (l l' : Ledger) : Prop where
  entries : l'.entries = l.entries
  free : l'.free.Perm l.free
  next : l'.next = l.next
  exit : l'.exit = l.exit

theorem Alike.refl (l : Ledger) : Alike l l := ⟨rfl, .refl _, rfl, rfl⟩

theorem Alike.trans (h : Alike l l₁) (h' : Alike l₁ l₂) : Alike l l₂ :=
  ⟨h'.entries.trans h.entries, h'.free.trans h.free, h'.next.trans h.next, h'.exit.trans h.exit⟩

/-- Alike ledgers stay alike. -/
theorem Alike.applyAll (h : Alike l l') (hcs : ∀ c ∈ cs, SpawnFree c) :
    Alike (applyAll read cs l).2 (applyAll read cs l').2 := by
  obtain ⟨-, hentries, freed, exit, hl, hl'⟩ :=
    applyAll_local read hcs fun e _ => congrFun h.entries e
  refine ⟨?_, ?_, ?_, ?_⟩
  · funext e
    by_cases he : Names cs e
    · exact hentries e he
    · rw [hl'.entries e he, hl.entries e he, h.entries]
  · rw [hl.free, hl'.free]
    exact h.free.append_left freed
  · rw [hl.next, hl'.next, h.next]
  · rw [hl.exit, hl'.exit, h.exit]

/-- A list does after another one what it does before, if they name different
    entities. -/
theorem answer_after (hcs : ∀ c ∈ cs, SpawnFree c) (hds : ∀ c ∈ ds, SpawnFree c)
    (hapart : Apart cs ds) :
    (applyAll read ds (applyAll read cs l).2).1 = (applyAll read ds l).1 := by
  obtain ⟨freed, exit, hchanges⟩ := applyAll_changes read l hcs
  exact (applyAll_local read hds fun e he => hchanges.entries e fun hce => hapart e hce he).1

/-- Lists that make no entities, name different ones, and succeed on their
    own. -/
structure Independent (read : Reader) (l : Ledger) (family : List (List Command)) : Prop where
  spawnFree : ∀ cs ∈ family, ∀ c ∈ cs, SpawnFree c
  apart : family.Pairwise Apart
  succeeds : ∀ cs ∈ family, (applyAll read cs l).1 = .ok ()

variable {family family' : List (List Command)}

/-- The first list leaves the others as they are. -/
theorem Independent.tail (h : Independent read l (cs :: family)) :
    Independent read (applyAll read cs l).2 family := by
  obtain ⟨hcs, hfree⟩ := List.forall_mem_cons.1 h.spawnFree
  obtain ⟨hapart, hrest⟩ := List.pairwise_cons.1 h.apart
  refine ⟨hfree, hrest, fun ds hds => ?_⟩
  rw [answer_after hcs (hfree ds hds) (hapart ds hds)]
  exact h.succeeds ds (.tail _ hds)

theorem Independent.flatten_cons (h : Independent read l (cs :: family)) :
    applyAll read (cs :: family).flatten l =
      applyAll read family.flatten (applyAll read cs l).2 := by
  rw [List.flatten_cons, applyAll_append (h.succeeds cs List.mem_cons_self)]

theorem Independent.answer (h : Independent read l family) :
    (applyAll read family.flatten l).1 = .ok () := by
  induction family generalizing l with
  | nil => rfl
  | cons cs rest ih =>
    rw [h.flatten_cons]
    exact ih h.tail

end Ledger

/-! ## Worlds with the same ledger -/

namespace World

variable {w w' : World}

end World

/-! ## Commands that make no entity -/

namespace Stage

variable {σ : Type} {s : Stage σ} {w : World}

/-- What the sets of a stage show: the declarations, and entity by entity what
    the cells of the row hold. -/
def shown (cells : Cells) (s : Stage σ) : List (SetSpec × List (Entity × List Component)) :=
  s.access.sets.map fun set => (set.spec, set.rows.values.map (·.contents cells))

/-- Every row of the stage has the cells that the tables have now. -/
def Shares (w : World) (s : Stage σ) : Prop :=
  ∀ set ∈ s.access.sets, ∀ row ∈ set.rows.values,
    row.components = set.spec.types.filterMap (w.find? row.entity)

/-- A row on a cell of the tables is that of a live entity. -/
theorem Shares.contains (h : s.Shares w) (hw : w.Consistent) {set : LiveSet} {row : Row}
    {r : CellRef} (hset : set ∈ s.access.sets) (hrow : row ∈ set.rows.values)
    (hr : r ∈ row.components) : w.contains row.entity := by
  rw [h set hset row hrow, List.mem_filterMap] at hr
  obtain ⟨t, -, hfind⟩ := hr
  have hsome : (w.store.find? t row.entity).isSome := Option.isSome_of_mem hfind
  obtain ⟨types, htypes, -⟩ := (hw.holds.isSome_find? row.entity t).1 hsome
  exact World.contains_iff.2 ⟨types, htypes⟩

end Stage

namespace Engine

open Command (SpawnFree Apart)

variable {σ : Type} {trees : Pipeline σ → Prop} {g g' : Engine σ} {n : Nat} {c : Command}
  {cs : List Command}

theorem bare_offer (g : Engine σ) (e : Entity) :
    (offer g e).root.map Pipeline.bare = g.root.map Pipeline.bare := by
  rw [offer, Option.map_map]
  refine congrArg (Option.map · g.root) (funext fun p => ?_)
  rw [Function.comp_apply, Pipeline.register_eq, Pipeline.bare, Pipeline.mapStages_mapStages]
  refine congrArg (Pipeline.mapStages · p) (funext fun s => ?_)
  unfold Stage.register
  split <;> rfl

theorem bare_unregister (e : Entity) (p : Pipeline σ) : (p.unregister e).bare = p.bare := by
  rw [Pipeline.unregister_eq, Pipeline.bare, Pipeline.mapStages_mapStages]
  refine congrArg (Pipeline.mapStages · p) (funext fun s => ?_)
  unfold Stage.unregister
  split <;> rfl

/-- Commands change nothing of the tree but rows. -/
theorem Performs.bare (h : Performs g g') :
    g'.root.map Pipeline.bare = g.root.map Pipeline.bare := by
  cases h with
  | nothing | exit | replace e c => rfl
  | spawn cs =>
    unfold spawnComponents
    split
    · rfl
    · exact bare_offer _ _
  | despawn e =>
    unfold Engine.despawn
    split
    · rw [Option.map_map]
      exact congrArg (Option.map · g.root) (funext (bare_unregister e))
    · rfl
  | insert e c =>
    unfold insertComponent
    split
    · rfl
    · exact bare_offer _ _
  | remove e t =>
    unfold removeComponent
    split
    · rfl
    · rfl
    · exact bare_offer _ _

/-- The engines agree on who is alive and owns what, on the values, on the
    request to exit and the ids, but for the order of the released ones, and on
    the tree, but for the rows. -/
structure Alike (g g' : Engine σ) : Prop where
  owned : g'.world.owned = g.world.owned
  values : ∀ t e, g'.world.store.value? t e = g.world.store.value? t e
  exit : g'.exitRequested = g.exitRequested
  next : g'.world.ids.next = g.world.ids.next
  released : g'.world.ids.released.Perm g.world.ids.released
  tree : g'.root.map Pipeline.bare = g.root.map Pipeline.bare

/-- The rows of systems that keep their sets up to date in the usual way have the
    cells that the tables have now. -/
def Shares (g : Engine σ) : Prop :=
  ∀ p, g.root = some p → ∀ s ∈ p.stages, s.Standard → s.Shares g.world

/-- Alike trees have the same stages, but for the rows. -/
theorem Alike.stages (h : Alike g g') {p p' : Pipeline σ} (hp : g.root = some p)
    (hp' : g'.root = some p') :
    List.Forall₂ (fun s s' => s'.system = s.system ∧ s'.specs = s.specs) p.stages p'.stages := by
  have hbare := h.tree
  rw [hp, hp', Option.map_some, Option.map_some, Option.some.injEq] at hbare
  have hstages : p'.stages.map (fun s => (s.system, s.specs)) =
      p.stages.map fun s => (s.system, s.specs) := by
    have hmap := congrArg (fun q => q.stages.map fun s => (s.system, s.specs)) hbare
    simpa only [Pipeline.bare, Pipeline.stages_mapStages, List.map_map, Function.comp_def]
      using hmap
  rw [← List.forall₂_eq_eq_eq, List.forall₂_map_left_iff, List.forall₂_map_right_iff] at hstages
  exact hstages.flip.imp fun _ _ heq => Prod.mk.inj heq

/-- What the sets of the installed tree show, without the declarations. -/
def rows (g : Engine σ) : Option (List (List (List (Entity × List Component)))) :=
  g.root.map fun p => p.stages.map fun s => (s.shown g.world.store.cells).map Prod.snd

end Engine

end TickEngine
