/-
  Despawning an entity again.

  To despawn what is not alive changes nothing, and only a spawn makes an entity
  alive (`Engine.contains_apply`).  But ids are handed out again, the latest
  first, so a spawn that is asked for between two despawns may be given the very
  entity that the first destroyed, and then the second destroys it anew.

  * `Engine.applyAll_despawn_again`: what the second of two despawns does.
-/
import TickEngine.Proofs.Commuting
import TickEngine.Proofs.Ticks

namespace TickEngine

/-! ## Who is alive -/

namespace World

variable {w : World} {e : Entity}

theorem owned_storeComponent (w : World) (e : Entity) (c : Component) :
    (w.storeComponent e c).2.owned = w.owned := by
  unfold storeComponent
  split <;> rfl

theorem owned_storeAll (e : Entity) (cs : List Component) (w : World) :
    (storeAll e cs w).2.owned = w.owned := by
  induction cs generalizing w with
  | nil => rfl
  | cons c rest ih =>
    have hfirst := w.owned_storeComponent e c
    rw [storeAll]
    split <;> rename_i heq <;> rw [heq] at hfirst
    · exact hfirst
    · exact (ih _).trans hfirst

theorem contains_despawn_self (w : World) (e : Entity) : (w.despawn e).2.contains e = false :=
  contains_of_dead (w.types?_despawn e)

theorem contains_despawn_of_ne {e' : Entity} (h : e ≠ e') :
    (w.despawn e').2.contains e = w.contains e :=
  congrArg Option.isSome ((w.agreesOn_despawn e').types? h)

theorem contains_spawn (w : World) (cs : List Component) (e : Entity) :
    (w.spawn cs).2.contains e = true ↔ w.contains e = true ∨ (w.spawn cs).1 = .ok e := by
  unfold spawn
  dsimp only
  split
  · simp
  split
  · simp
  have hall := owned_storeAll w.ids.allocate.1 cs { w with ids := w.ids.allocate.2 }
  split <;> rename_i w' heq <;> rw [heq] at hall <;> replace hall : w'.owned = w.owned := hall
  · simp [contains, hall]
  · simp only [contains, hall, Except.ok.injEq]
    by_cases he : e = w.ids.allocate.1
    · simp [he, SortedMap.contains, SortedMap.get?_insert_self]
    · simp [contains_insert_of_ne he, Ne.symm he]

theorem contains_insert (w : World) (e' : Entity) (c : Component) (e : Entity) :
    (w.insert e' c).2.contains e = w.contains e := by
  have howned := w.owned_storeComponent e' c
  unfold World.insert
  split
  · rfl
  rename_i types htypes
  split
  · rfl
  split <;> rename_i w' heq <;> rw [heq] at howned <;>
    replace howned : w'.owned = w.owned := howned
  · exact congrArg (SortedMap.contains · e) howned
  · simp only [contains, howned]
    exact contains_insert_of_types? htypes _ e

theorem contains_remove (w : World) (e' : Entity) (t : TypeId) (e : Entity) :
    (w.remove e' t).2.contains e = w.contains e := by
  obtain ⟨r, -, heq⟩ | ⟨types, htypes, -, heq⟩ := w.remove_cases e' t <;> rw [heq]
  exact contains_insert_of_types? htypes _ e

theorem contains_replace (w : World) (e' : Entity) (c : Component) (e : Entity) :
    (w.replace e' c).2.contains e = w.contains e :=
  congrArg Option.isSome ((w.agreesOn_replace e' c fun _ => True).types? trivial)

end World

namespace Engine

variable {σ : Type} {g g' : Engine σ} {e : Entity} {cs ds : List Command}

/-- The entity that a command makes, if it makes one. -/
def makes? (g : Engine σ) : Command → Option Entity
  | .spawn records => (commands.spawn records g).1.toOption
  | _ => none

/-- The entities that commands make when they are performed in order. -/
def made : List Command → Engine σ → List Entity
  | [], _ => []
  | c :: rest, g => (g.makes? c).toList ++ made rest (c.apply commands g).2

/-- After a command those are alive who were before, except one that it
    destroys, and the one that it makes. -/
theorem contains_apply (c : Command) (g : Engine σ) (hc : c ≠ .despawn e) :
    (c.apply commands g).2.world.contains e = true ↔
      g.world.contains e = true ∨ g.makes? c = some e := by
  cases c with
  | spawn records =>
    simp only [Command.apply, makes?, commands]
    cases g.world.decodeAll records with
    | error err => simp [Except.toOption]
    | ok cs =>
      rw [world_spawnComponents, World.contains_spawn, answer_spawnComponents]
      cases (g.world.spawn cs).1 <;> simp [Except.toOption]
  | despawn e' =>
    have he : e ≠ e' := fun heq => hc (congrArg Command.despawn heq.symm)
    simp only [Command.apply, makes?, commands, world_despawn]
    simp [World.contains_despawn_of_ne he]
  | insert e' record =>
    simp only [Command.apply, makes?, commands]
    cases g.world.decode record with
    | error err => simp
    | ok c => simp [world_insertComponent, World.contains_insert]
  | remove e' t =>
    have hremove := g.world.contains_remove e' t e
    rw [← world_removeComponent] at hremove
    simp only [Command.apply, makes?, commands]
    split <;> rename_i heq <;> rw [heq] at hremove <;> simp [hremove]
  | update e' record =>
    simp only [Command.apply, makes?, commands]
    cases g.world.decode record <;> simp [World.contains_replace]
  | exit => simp [Command.apply, makes?, commands, requestExit]

/-- After commands none of which despawns the entity, it is alive if it was, or
    if one of them made it. -/
theorem contains_perform (cs : List Command) (g : Engine σ) (hcs : .despawn e ∉ cs) :
    (perform cs g).world.contains e = true ↔ g.world.contains e = true ∨ e ∈ made cs g := by
  induction cs generalizing g with
  | nil => simp [perform, made]
  | cons c rest ih =>
    rw [List.mem_cons, not_or] at hcs
    rw [perform_cons, ih _ hcs.2, contains_apply c g (Ne.symm hcs.1), or_assoc, made,
      List.mem_append, Option.mem_toList]

theorem contains_despawn (g : Engine σ) (e : Entity) :
    ((Command.despawn e).apply commands g).2.world.contains e = false := by
  simp only [Command.apply, commands, world_despawn, World.contains_despawn_self]

/-- To despawn what is not alive changes nothing. -/
theorem apply_despawn_of_dead (h : ¬ g.world.contains e = true) :
    (Command.despawn e).apply commands g = (.ok (), g) := by
  simp only [Command.apply, commands, despawn, if_neg h]

/-! ## Parts of a list of commands -/

theorem perform_append (cs ds : List Command) (g : Engine σ) :
    perform (cs ++ ds) g = perform ds (perform cs g) :=
  List.foldl_append

theorem succeeds_append (cs ds : List Command) (g : Engine σ) :
    Succeeds (cs ++ ds) g ↔ Succeeds cs g ∧ Succeeds ds (perform cs g) := by
  induction cs generalizing g with
  | nil => simp [Succeeds, perform]
  | cons c rest ih => rw [List.cons_append, Succeeds, Succeeds, ih, perform_cons, and_assoc]

theorem applyAll_ok_iff :
    Command.applyAll commands cs g = (.ok (), g') ↔ Succeeds cs g ∧ perform cs g = g' := by
  induction cs generalizing g with
  | nil => simp [Command.applyAll, Succeeds, perform]
  | cons c rest ih =>
    rw [Command.applyAll, Succeeds, perform_cons]
    rcases hc : c.apply commands g with ⟨_ | _, g₁⟩
    · simp
    · simp [ih]

theorem applyAll_append_ok_iff (cs ds : List Command) :
    Command.applyAll commands (cs ++ ds) g = (.ok (), g') ↔
      Succeeds cs g ∧ Command.applyAll commands ds (perform cs g) = (.ok (), g') := by
  rw [applyAll_ok_iff, applyAll_ok_iff, succeeds_append, perform_append, and_assoc]

/-! ## Two despawns -/

/-- The id of the entity is handed out again between its two despawns. -/
theorem despawn_again_recycled :
    let between : List Command := [.spawn []]
    let both := Command.applyAll commands (.despawn ⟨1⟩ :: between ++ [.despawn ⟨1⟩]) stocked
    let one := Command.applyAll commands (.despawn ⟨1⟩ :: between) stocked
    Reaches (fun _ => True) 2 stocked ∧ ¬ Command.Names between ⟨1⟩ ∧
      both.1 = .ok () ∧ both.2.world.contains ⟨1⟩ = false ∧
      one.1 = .ok () ∧ one.2.world.contains ⟨1⟩ = true := by
  intro between both one
  have hnames : ¬ Command.Names between ⟨1⟩ := by
    simp [between, Command.Names, Command.entity?]
  exact ⟨reaches_stocked trivial, hnames, by decide +kernel, by decide +kernel,
    by decide +kernel, by decide +kernel⟩

/-- **The second of two despawns changes nothing, unless the id was handed out
    again in between.**  Then it destroys the entity that a spawn made there. -/
theorem applyAll_despawn_again {before between after : List Command}
    (h : Command.applyAll commands (before ++ .despawn e :: between ++ .despawn e :: after) g =
      (.ok (), g'))
    (hnames : ¬ Command.Names between e) :
    let g₁ := perform (before ++ [.despawn e]) g
    (e ∉ made between g₁ →
      Command.applyAll commands (before ++ .despawn e :: between ++ after) g = (.ok (), g')) ∧
    (e ∈ made between g₁ → (perform between g₁).world.contains e = true ∧
      (perform (between ++ [.despawn e]) g₁).world.contains e = false) := by
  intro g₁
  have hfirst : g₁.world.contains e = false := by
    simp only [g₁, perform_append]
    exact contains_despawn _ e
  have hfree : .despawn e ∉ between := fun hmem => hnames ⟨_, hmem, rfl⟩
  have halive : (perform between g₁).world.contains e = true ↔ e ∈ made between g₁ := by
    rw [contains_perform between g₁ hfree, hfirst]
    simp
  have hmid : perform (before ++ .despawn e :: between) g = perform between g₁ := by
    rw [← perform_append, List.append_assoc, List.singleton_append]
  rw [applyAll_append_ok_iff, hmid] at h ⊢
  obtain ⟨hsucceeds, hend⟩ := h
  refine ⟨fun hmade => ⟨hsucceeds, ?_⟩, fun hmade => ⟨halive.2 hmade, ?_⟩⟩
  · rwa [Command.applyAll, apply_despawn_of_dead fun hlive => hmade (halive.1 hlive)] at hend
  · rw [perform_append]
    exact contains_despawn _ e

/-- Between the despawns of entity 1, entity 2 is destroyed and its id handed
    out again. -/
theorem applyAll_despawn_again_stocked :
    let between : List Command := [.despawn ⟨2⟩, .spawn []]
    let after : List Command := [.exit]
    let both := Command.applyAll commands (.despawn ⟨1⟩ :: between ++ .despawn ⟨1⟩ :: after) stocked
    both.1 = .ok () ∧ ¬ Command.Names between ⟨1⟩ ∧
      made between (perform [.despawn ⟨1⟩] stocked) = [⟨2⟩] ∧
      Command.applyAll commands (.despawn ⟨1⟩ :: between ++ after) stocked = both := by
  intro between after both
  have hok : both.1 = .ok () := by decide +kernel
  have hnames : ¬ Command.Names between ⟨1⟩ := by
    simp [between, Command.Names, Command.entity?]
  have hmade : made between (perform [.despawn ⟨1⟩] stocked) = [⟨2⟩] := by decide +kernel
  have hboth : both = (.ok (), both.2) := Prod.ext hok rfl
  have hfree : ⟨1⟩ ∉ made between (perform [.despawn ⟨1⟩] stocked) := by
    rw [hmade]
    decide
  obtain ⟨hone, -⟩ := @applyAll_despawn_again _ _ _ _ [] between after hboth hnames
  exact ⟨hok, hnames, hmade, (hone hfree).trans hboth.symm⟩

end Engine

end TickEngine
