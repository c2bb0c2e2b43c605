/-
  Sets kept up to date are those that a rebuild would give.

  In a reached engine with systems that keep their sets up to date in the usual
  way, every stage of the installed tree has exactly the rows that the world
  calls for (`Engine.Step.kept` for one change, `Engine.Reaches.kept` for all).
  So starting the tree anew and offering every live entity, in any order, gives
  the installed tree again (`Engine.Reaches.sets_eq_rebuild`).
-/
import TickEngine.Proofs.Upkeep

namespace TickEngine

/-! ## Engines -/

namespace Engine

variable {σ : Type} {g g' : Engine σ} {w : World} {e : Entity} {n : Nat}

/-- Every stage of the installed tree has the rows that the world calls for. -/
def Kept (g : Engine σ) : Prop := ∀ p, g.root = some p → ∀ s ∈ p.stages, s.Kept g.world

theorem Updates.kept (h : g.Updates g') (hg : g.Kept) : g'.Kept := by
  obtain ⟨f, hf, hroot⟩ := h
  intro p hp
  rw [hroot, Option.map_eq_some_iff] at hp
  obtain ⟨q, hq, rfl⟩ := hp
  rw [Pipeline.forall_stages_mapStages]
  exact fun s hs => hf.kept (hg q hq s hs)

theorem Kept.setRoot (h : g.Kept) (hw : g.world.Consistent) {p : Pipeline σ} (hp : p.Standard) :
    (g.setRoot p).2.Kept := by
  unfold Engine.setRoot
  rcases p.bind_cases g.world.store.tables with ⟨heq, hstart⟩ | ⟨err, p', heq, -⟩ <;> rw [heq]
  · intro q hq
    obtain rfl := Option.some.inj hq
    rw [Pipeline.registerEach_eq, Pipeline.forall_stages_mapStages,
      Pipeline.forall_stages_mapStages]
    exact fun s hs => (hp s hs).kept_registerEach (hstart s hs) hw
  · exact h

/-- A change keeps the sets of the installed tree up to date. -/
theorem Step.kept (hstep : Step Pipeline.Standard g g') (h : g.Kept) (hw : g.world.Consistent)
    (hw' : g'.world.Consistent) : g'.Kept := by
  rcases hstep.updates hw hw' with hupdates | ⟨p, hp, rfl⟩
  · exact hupdates.kept h
  · exact h.setRoot hw hp

theorem Reaches.kept (h : Reaches Pipeline.Standard n g) (hn : n < 2 ^ 64 - 1) : g.Kept := by
  induction h with
  | start config ambient => exact fun p hp => by cases hp
  | step hg hstep ih =>
    exact hstep.kept (ih (by omega)) (hg.consistent (by omega)) ((hg.step hstep).consistent hn)

/-- **The sets of the installed tree are those that a rebuild would give.**  A
    set has a row for each live entity that its declaration admits, with the
    cells of the declared types that the entity owns, and no other row; and the
    tree is what starting it anew and offering the live entities would make of
    it, in any order. -/
theorem Reaches.sets_eq_rebuild (h : Reaches Pipeline.Standard n g) (hn : n < 2 ^ 64 - 1)
    {p : Pipeline σ} (hp : g.root = some p) :
    (∀ s ∈ p.stages, s.access.sets.map (·.spec) = s.specs ∧
      ∀ set ∈ s.access.sets, (∀ e, set.row? e = g.world.row? set.spec e) ∧
        set.rows.values = g.world.entities.filterMap (g.world.row? set.spec)) ∧
    (∀ e owned, g.world.types? e = some owned → ∀ t ∈ owned, (g.world.find? e t).isSome) ∧
    ∀ es, es.Perm g.world.entities → ∃ p', p.bind g.world.store.tables = (.ok (), p') ∧
      (registerEach g.world.store.tables es p').2 = p := by
  have hw := h.consistent hn
  have hkept := h.kept hn p hp
  refine ⟨?_, ?_, ?_⟩
  · intro s hs
    refine ⟨(hkept s hs).shows.specs, ?_⟩
    intro set hset
    exact ⟨(hkept s hs).shows.rows set hset, (hkept s hs).values_eq hset⟩
  · intro e owned htypes t ht
    exact (hw.holds.isSome_find? e t).2 ((World.owns_iff_of_types? htypes).2 ht)
  · intro es hes
    rcases p.bind_cases g.world.store.tables with ⟨heq, -⟩ | ⟨err, p', -, hnot⟩
    · refine ⟨_, heq, ?_⟩
      rw [Pipeline.registerEach_eq, Pipeline.mapStages_mapStages]
      exact Pipeline.mapStages_eq_self fun s hs => (hkept s hs).rebuilt hw hes
    · exact absurd (fun s hs => (hkept s hs).startable) hnot

theorem sets_eq_rebuild_stocked :
    Reaches Pipeline.Standard 2 stocked ∧ 2 < 2 ^ 64 - 1 ∧ ∃ p, stocked.root = some p ∧
      p.setSize? 0 = some 1 ∧ p.setSize? 1 = some 2 ∧
      ∃ p', p.bind stocked.world.store.tables = (.ok (), p') ∧
        (registerEach stocked.world.store.tables [⟨2⟩, ⟨1⟩] p').2 = p := by
  have hreaches := reaches_stocked Pipeline.standard_watcher
  have hsizes : stocked.root.bind (·.setSize? 0) = some 1 ∧
      stocked.root.bind (·.setSize? 1) = some 2 := by decide +kernel
  obtain ⟨p, hp⟩ : ∃ p, stocked.root = some p := Option.isSome_iff_exists.1 (by decide +kernel)
  obtain ⟨-, -, hrebuild⟩ := hreaches.sets_eq_rebuild (by decide) hp
  rw [hp] at hsizes
  exact ⟨hreaches, by decide, p, hp, hsizes.1, hsizes.2, hrebuild _ (by decide +kernel)⟩

end Engine

end TickEngine
