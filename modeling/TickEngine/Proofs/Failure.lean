/-
  A change that fails changes nothing.

  Each change of a world checks all that can go wrong before it touches
  anything; that the checks are enough rests on the consistency of the world.
-/
import TickEngine.Proofs.EngineHistory

namespace TickEngine

/-! ## Changes of a world -/

namespace World

variable {w : World} {err : CommandError}

theorem registerType_of_error {t : ComponentType} {err : ComponentError}
    (h : (w.registerType t).1 = .error err) : w.registerType t = (.error err, w) := by
  rcases registerType_cases w t with ⟨err', heq⟩ | ⟨-, heq⟩ | ⟨info, -, -, heq⟩ <;>
    rw [heq] at h ⊢ <;> cases h
  rfl

theorem Consistent.spawn_of_error (hw : w.Consistent) {cs : List Component}
    (h : (w.spawn cs).1 = .error err) : w.spawn cs = (.error err, w) := by
  rcases spawn_cases w cs with ⟨err', heq⟩ | ⟨hknown, hnodup⟩
  · rw [heq] at h ⊢
    cases h
    rfl
  · obtain ⟨store, heq, -, -⟩ := hw.spawn_of_distinct hknown hnodup
    rw [heq] at h
    cases h

theorem Consistent.insert_of_error (hw : w.Consistent) {e : Entity} {c : Component}
    (h : (w.insert e c).1 = .error err) : w.insert e c = (.error err, w) := by
  rcases hw.insert_cases e c with ⟨err', heq⟩ | ⟨types, store, -, -, heq, -, -⟩ <;>
    rw [heq] at h ⊢ <;> cases h
  rfl

theorem remove_of_error {e : Entity} {t : TypeId} (h : (w.remove e t).1 = .error err) :
    w.remove e t = (.error err, w) := by
  rcases remove_cases w e t with ⟨res, -, heq⟩ | ⟨types, -, -, heq⟩ <;> rw [heq] at h ⊢ <;> cases h
  rfl

theorem Consistent.replace_of_error (hw : w.Consistent) {e : Entity} {c : Component}
    (h : (w.replace e c).1 = .error err) : w.replace e c = (.error err, w) := by
  cases hfind : w.find? e c.typeId with
  | none =>
    rw [replace_of_missing hfind] at h ⊢
    cases h
    rfl
  | some r =>
    rw [hw.replace_of_find? hfind] at h
    cases h

end World

/-! ## Changes of an engine -/

namespace Engine

variable {σ : Type} {trees : Pipeline σ → Prop} {g : Engine σ} {n : Nat} {err : CommandError}

theorem mapError_eq_error_iff {ε ε' α : Type} {f : ε → ε'} {r : Except ε α} {err : ε'} :
    r.mapError f = .error err ↔ ∃ err', r = .error err' ∧ f err' = err := by
  cases r <;> simp [Except.mapError]

theorem mapError_eq_ok_iff {ε ε' α : Type} {f : ε → ε'} {r : Except ε α} {x : α} :
    r.mapError f = .ok x ↔ r = .ok x := by
  cases r <;> simp [Except.mapError]

theorem registerType_of_error {t : ComponentType} {err : EngineError}
    (h : (g.registerType t).1 = .error err) : (g.registerType t).2 = g := by
  obtain ⟨err', h', -⟩ := mapError_eq_error_iff.1 h
  simp only [registerType, World.registerType_of_error h']

theorem setRoot_of_error {p : Pipeline σ} {err : EngineError}
    (h : (g.setRoot p).1 = .error err) : (g.setRoot p).2 = g := by
  unfold setRoot at h ⊢
  split
  · rfl
  · rename_i heq
    rw [heq] at h
    cases h

theorem spawnComponents_of_error (hw : g.world.Consistent) {cs : List Component}
    (h : (g.spawnComponents cs).1 = .error err) : (g.spawnComponents cs).2 = g := by
  rw [answer_spawnComponents] at h
  rw [spawnComponents, hw.spawn_of_error h]

theorem insertComponent_of_error (hw : g.world.Consistent) {e : Entity} {c : Component}
    (h : (g.insertComponent e c).1 = .error err) : (g.insertComponent e c).2 = g := by
  rw [answer_insertComponent] at h
  rw [insertComponent, hw.insert_of_error h]

theorem removeComponent_of_error {e : Entity} {t : TypeId}
    (h : (g.removeComponent e t).1 = .error err) : (g.removeComponent e t).2 = g := by
  rw [answer_removeComponent] at h
  rw [removeComponent, World.remove_of_error h]

theorem spawn_of_error (hw : g.world.Consistent) {cs : List Component} {err : EngineError}
    (h : (g.spawn cs).1 = .error err) : (g.spawn cs).2 = g := by
  obtain ⟨err', h', -⟩ := mapError_eq_error_iff.1 h
  exact spawnComponents_of_error hw h'

theorem insert_of_error (hw : g.world.Consistent) {e : Entity} {c : Component} {err : EngineError}
    (h : (g.insert e c).1 = .error err) : (g.insert e c).2 = g := by
  obtain ⟨err', h', -⟩ := mapError_eq_error_iff.1 h
  exact insertComponent_of_error hw h'

theorem remove_of_error {e : Entity} {t : TypeId} {err : EngineError}
    (h : (g.remove e t).1 = .error err) : (g.remove e t).2 = g := by
  obtain ⟨err', h', -⟩ := mapError_eq_error_iff.1 h
  exact removeComponent_of_error h'

theorem apply_of_error (hw : g.world.Consistent) {c : Command}
    (h : (c.apply commands g).1 = .error err) : (c.apply commands g).2 = g := by
  cases c with
  | spawn records =>
    simp only [Command.apply, commands] at h ⊢
    cases hread : g.world.decodeAll records with
    | error err' => rfl
    | ok cs =>
      simp only [hread] at h
      cases hs : (g.spawnComponents cs).1 with
      | error err' => exact spawnComponents_of_error hw hs
      | ok e =>
        rw [hs] at h
        cases h
  | despawn e => cases h
  | insert e record =>
    simp only [Command.apply, commands] at h ⊢
    cases hread : g.world.decode record with
    | error err' => rfl
    | ok c =>
      simp only [hread] at h
      exact insertComponent_of_error hw h
  | remove e t =>
    simp only [Command.apply, commands] at h ⊢
    split at h
    · cases h
    · cases h
    · rename_i err' g' hnot heq
      have hsame := removeComponent_of_error (congrArg Prod.fst heq)
      simp only [heq] at hsame ⊢
      exact hsame
  | update e record =>
    simp only [Command.apply, commands] at h ⊢
    cases hread : g.world.decode record with
    | error err' => rfl
    | ok c =>
      simp only [hread] at h
      simp only [hw.replace_of_error h]
  | exit => cases h

/-- **A failed change leaves the engine as it was**: its world with the ids, its
    pipeline with every row, the count of ticks and the request to exit. -/
theorem Reaches.unchanged_of_error (h : Reaches trees n g) (hn : n < 2 ^ 64 - 1) :
    (∀ t err, (g.registerType t).1 = .error err → (g.registerType t).2 = g) ∧
    (∀ p err, (g.setRoot p).1 = .error err → (g.setRoot p).2 = g) ∧
    (∀ cs err, (g.spawn cs).1 = .error err → (g.spawn cs).2 = g) ∧
    (∀ e c err, (g.insert e c).1 = .error err → (g.insert e c).2 = g) ∧
    (∀ e t err, (g.remove e t).1 = .error err → (g.remove e t).2 = g) ∧
    ∀ c err, (Command.apply commands c g).1 = .error err → (Command.apply commands c g).2 = g := by
  have hw := h.consistent hn
  exact ⟨fun _ _ => registerType_of_error, fun _ _ => setRoot_of_error,
    fun _ _ => spawn_of_error hw, fun _ _ _ => insert_of_error hw,
    fun _ _ _ => remove_of_error, fun _ _ => apply_of_error hw⟩

theorem unchanged_of_error_stocked :
    Reaches (fun _ => True) 2 stocked ∧ 2 < 2 ^ 64 - 1 ∧
      (stocked.insert ⟨1⟩ ⟨Catalog.y, (5 : BitVec 32)⟩).1 =
        .error (.world (.componentExists ⟨1⟩ Catalog.y.id)) ∧
      (stocked.insert ⟨1⟩ ⟨Catalog.y, (5 : BitVec 32)⟩).2 = stocked := by
  have hreaches : Reaches (fun _ => True) 2 stocked := reaches_stocked trivial
  have hfail : (stocked.insert ⟨1⟩ ⟨Catalog.y, (5 : BitVec 32)⟩).1 =
      .error (.world (.componentExists ⟨1⟩ Catalog.y.id)) := by decide +kernel
  obtain ⟨-, -, -, hinsert, -⟩ := hreaches.unchanged_of_error (by decide)
  exact ⟨hreaches, by decide, hfail, hinsert _ _ _ hfail⟩

end Engine

end TickEngine
