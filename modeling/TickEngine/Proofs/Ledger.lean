/-
  What commands mean, without tables or cells.

  A `Ledger` maps each live entity to its components by type, and keeps the ids
  to hand out and the request to exit.  `Ledger.apply` performs a command on
  it; an engine does the same to its ledger (`Engine.Reaches.ledger_apply`),
  for one command and for a batch.
-/
import TickEngine.Proofs.EngineHistory

namespace TickEngine

/-! ## Ledgers -/

/-- The components of one entity, by type. -/
abbrev Holdings := TypeId → Option Component

/-- Who is alive and has what. -/
structure Ledger where
  /-- The components of the live entities. -/
  entries : Entity → Option Holdings
  /-- The released ids, the latest first. -/
  free : List UInt64
  /-- The smallest id never handed out. -/
  next : UInt64
  exit : Bool

namespace Ledger

/-- How records are read. -/
abbrev Reader := Record → Except CommandError Component

/-- The error of a record that cannot be read. -/
def fault? (read : Reader) (r : Record) : Option CommandError :=
  match read r with
  | .error err => some err
  | .ok _ => none

/-- What records say, by type. -/
def contents (read : Reader) (records : List Record) : Holdings := fun t =>
  (records.find? (·.typeId = t)).bind fun r => (read r).toOption

/-- Makes an entity under the latest released id, or else the next one. -/
def add (l : Ledger) (m : Holdings) : Ledger :=
  match l.free with
  | id :: rest => { l with entries := Function.update l.entries ⟨id⟩ (some m), free := rest }
  | [] => { l with entries := Function.update l.entries ⟨l.next⟩ (some m), next := l.next + 1 }

/-- Sets or clears what a live entity has of one type. -/
def assign (l : Ledger) (e : Entity) (t : TypeId) (c : Option Component) : Ledger :=
  { l with
    entries := Function.update l.entries e ((l.entries e).map fun m => Function.update m t c) }

/-- Makes an entity of what the records say.  The first record that cannot be
    read is refused, then the smallest type that is given twice. -/
def spawn (read : Reader) (records : List Record) (l : Ledger) :
    Except CommandError Unit × Ledger :=
  match records.findSome? (fault? read) with
  | some err => (.error err, l)
  | none =>
    match World.smallestRepeat? (records.map (·.typeId)) with
    | some t => (.error (.duplicateComponent t), l)
    | none => (.ok (), l.add (contents read records))

/-- Destroys an entity, if it is alive, and takes its id back. -/
def despawn (e : Entity) (l : Ledger) : Ledger :=
  match l.entries e with
  | none => l
  | some _ => { l with entries := Function.update l.entries e none, free := e.id :: l.free }

/-- Gives a live entity a component of a type that it lacks. -/
def insert (read : Reader) (e : Entity) (r : Record) (l : Ledger) :
    Except CommandError Unit × Ledger :=
  match read r with
  | .error err => (.error err, l)
  | .ok c =>
    match l.entries e with
    | none => (.error (.entityNotFound e), l)
    | some m =>
      match m r.typeId with
      | some _ => (.error (.componentExists e r.typeId), l)
      | none => (.ok (), l.assign e r.typeId (some c))

/-- Overwrites a component that an entity has. -/
def update (read : Reader) (e : Entity) (r : Record) (l : Ledger) :
    Except CommandError Unit × Ledger :=
  match read r with
  | .error err => (.error err, l)
  | .ok c =>
    match (l.entries e).bind (· r.typeId) with
    | none => (.error (.componentMissing e r.typeId), l)
    | some _ => (.ok (), l.assign e r.typeId (some c))

/-- Performs a command. -/
def apply (read : Reader) : Command → Ledger → Except CommandError Unit × Ledger
  | .spawn records, l => l.spawn read records
  | .despawn e, l => (.ok (), l.despawn e)
  | .insert e r, l => l.insert read e r
  | .remove e t, l => (.ok (), l.assign e t none)
  | .update e r, l => l.update read e r
  | .exit, l => (.ok (), { l with exit := true })

/-- Performs commands in order up to the first that fails. -/
def applyAll (read : Reader) : List Command → Ledger →
    Except (Command × CommandError) Unit × Ledger
  | [], l => (.ok (), l)
  | c :: rest, l =>
    match apply read c l with
    | (.error err, l) => (.error (c, err), l)
    | (.ok (), l) => applyAll read rest l

end Ledger

/-! ## Reading many records -/

namespace World

variable {w w' : World} {e : Entity} {t : TypeId} {c : Component} {cs : List Component}

/-- The components of the live entities. -/
def entries (w : World) (e : Entity) : Option Holdings :=
  if w.contains e then some fun t => w.store.value? t e else none

theorem contains_of_types? {types : List TypeId} (h : w.types? e = some types) :
    w.contains e = true :=
  contains_iff.2 ⟨types, h⟩

theorem contains_of_dead (h : w.types? e = none) : w.contains e = false := by
  rw [contains, SortedMap.contains, show w.owned.get? e = none from h, Option.isSome_none]

theorem contains_insert_of_ne {e' : Entity} (h : e' ≠ e) (types : List TypeId) :
    (w.owned.insert e types).contains e' = w.owned.contains e' := by
  rw [SortedMap.contains, SortedMap.get?_insert_of_ne _ (Ne.symm h)]
  rfl

/-- Listing other types for a live entity keeps everyone alive. -/
theorem contains_insert_of_types? {types : List TypeId} (h : w.types? e = some types)
    (types' : List TypeId) (e' : Entity) :
    (w.owned.insert e types').contains e' = w.owned.contains e' := by
  by_cases he : e' = e
  · subst he
    rw [SortedMap.contains, SortedMap.get?_insert_self]
    exact (contains_of_types? h).symm
  · exact contains_insert_of_ne he types'

/-! ## Each change on the ledger -/

/-- Taking a component only misses an entity that is not alive. -/
theorem remove_answer (w : World) (e : Entity) (t : TypeId) :
    (∃ b, (w.remove e t).1 = .ok b) ∨ (w.remove e t).1 = .error (.entityNotFound e) := by
  unfold World.remove
  split
  · exact .inr rfl
  · split
    · exact .inl ⟨true, rfl⟩
    · exact .inl ⟨false, rfl⟩

theorem Consistent.registry_spawn (hw : w.Consistent) (cs : List Component) :
    (w.spawn cs).2.registry = w.registry := by
  rcases spawn_cases w cs with ⟨err, h⟩ | ⟨hknown, hnodup⟩
  · rw [h]
  · obtain ⟨store, h, -, -⟩ := hw.spawn_of_distinct hknown hnodup
    rw [h]

theorem registry_despawn (w : World) (e : Entity) : (w.despawn e).2.registry = w.registry := by
  unfold despawn
  split <;> rfl

theorem Consistent.registry_insert (hw : w.Consistent) (e : Entity) (c : Component) :
    (w.insert e c).2.registry = w.registry := by
  rcases hw.insert_cases e c with ⟨err, h⟩ | ⟨types, store, -, -, h, -, -⟩ <;> rw [h]

theorem registry_remove (w : World) (e : Entity) (t : TypeId) :
    (w.remove e t).2.registry = w.registry := by
  rcases remove_cases w e t with ⟨res, -, h⟩ | ⟨types, -, -, h⟩ <;> rw [h]

theorem Consistent.registry_replace (hw : w.Consistent) (e : Entity) (c : Component) :
    (w.replace e c).2.registry = w.registry := by
  cases hfind : w.find? e c.typeId with
  | none => rw [replace_of_missing hfind]
  | some r => rw [hw.replace_of_find? hfind]

end World

namespace Engine

variable {σ : Type} {trees : Pipeline σ → Prop} {g : Engine σ} {n : Nat}

/-! ## Commands on the ledger -/

theorem exitRequested_spawnComponents (g : Engine σ) (cs : List Component) :
    (g.spawnComponents cs).2.exitRequested = g.exitRequested := by
  unfold spawnComponents
  split <;> rfl

theorem exitRequested_insertComponent (g : Engine σ) (e : Entity) (c : Component) :
    (g.insertComponent e c).2.exitRequested = g.exitRequested := by
  unfold insertComponent
  split <;> rfl

theorem exitRequested_removeComponent (g : Engine σ) (e : Entity) (t : TypeId) :
    (g.removeComponent e t).2.exitRequested = g.exitRequested := by
  unfold removeComponent
  split <;> rfl

theorem exitRequested_despawn (g : Engine σ) (e : Entity) :
    (g.despawn e).2.exitRequested = g.exitRequested := by
  unfold despawn
  split <;> rfl

/-- To take what is not there is no error for a command. -/
theorem apply_remove (g : Engine σ) (e : Entity) (t : TypeId) :
    (Command.remove e t).apply commands g = (.ok (), (g.removeComponent e t).2) := by
  have hanswer := answer_removeComponent g e t
  simp only [Command.apply, commands]
  split <;> rename_i h <;> rw [h] at hanswer ⊢
  rename_i err g' hnot
  -- the only error left is one that taking a component never gives
  rcases World.remove_answer g.world e t with ⟨b, hok⟩ | hmissing
  · rw [hok] at hanswer
    cases hanswer
  · rw [hmissing] at hanswer
    cases hanswer
    exact absurd rfl (hnot e)

/-- Commands register nothing. -/
theorem Performs.registry (h : Performs g g') (hw : g.world.Consistent) :
    g'.world.registry = g.world.registry := by
  cases h with
  | nothing | exit => rfl
  | spawn cs => rw [world_spawnComponents, hw.registry_spawn]
  | despawn e => rw [world_despawn, World.registry_despawn]
  | insert e c => rw [world_insertComponent, hw.registry_insert]
  | remove e t => rw [world_removeComponent, World.registry_remove]
  | replace e c => exact hw.registry_replace e c

end Engine

end TickEngine
