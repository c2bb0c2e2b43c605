/-
  Lists of type identifiers: placing one, ordering them, and the smallest one
  that is listed twice.
-/
import TickEngine.Proofs.Search
import TickEngine.World.Change

namespace TickEngine

/-! ## Ascending lists -/

namespace TypeId

theorem mem_place {t u : TypeId} {ts : List TypeId} (h : Ascending ts) :
    u ∈ t.place ts ↔ u = t ∨ u ∈ ts := by
  unfold place
  rcases Spot.search t ts, Spot.marks_search t h with ⟨_, ⟨before, after⟩ | _⟩
  · have hmem : t ∈ before ++ t :: after := by simp
    exact (or_iff_right_of_imp fun heq => heq ▸ hmem).symm
  · simp only [insertIdx_append_length, List.mem_append, List.mem_cons]
    exact or_left_comm

theorem ascending_place (t : TypeId) {ts : List TypeId} (h : Ascending ts) :
    Ascending (t.place ts) := by
  unfold place
  rcases Spot.search t ts, Spot.marks_search t h with ⟨_, _ | ⟨hbefore, hafter⟩⟩
  · exact h
  · simp only [insertIdx_append_length]
    obtain ⟨hfirst, hlast, hacross⟩ := List.pairwise_append.1 h
    refine List.pairwise_append.2 ⟨hfirst, List.pairwise_cons.2 ⟨hafter, hlast⟩, ?_⟩
    intro a ha b hb
    rcases List.mem_cons.1 hb with rfl | hb
    · exact hbefore a ha
    · exact hacross a ha b hb

end TypeId

theorem Ascending.mem_erase_iff {ts : List TypeId} (h : Ascending ts) {t u : TypeId} :
    u ∈ ts.erase t ↔ u ≠ t ∧ u ∈ ts :=
  h.nodup.mem_erase_iff

namespace World

theorem perm_ascending (types : List TypeId) : (ascending types).Perm types :=
  List.mergeSort_perm types _

theorem pairwise_ascending (types : List TypeId) :
    (ascending types).Pairwise fun t u => rank t ≤ rank u := by
  refine (List.pairwise_mergeSort ?_ ?_ types).imp ?_
  · intro a b c hab hbc
    simp only [decide_eq_true_eq] at *
    omega
  · intro a b
    simp only [Bool.or_eq_true, decide_eq_true_eq]
    omega
  · intro t u h
    exact of_decide_eq_true h

/-- Identifiers without repeats are strictly ascending once they are ordered. -/
theorem ascending_ascending {types : List TypeId} (h : types.Nodup) :
    Ascending (ascending types) := by
  have hnodup : (ascending types).Pairwise (· ≠ ·) := (perm_ascending types).nodup_iff.2 h
  refine List.Pairwise.imp ?_ ((pairwise_ascending types).and hnodup)
  intro t u htu
  exact Nat.lt_of_le_of_ne htu.1 fun heq => htu.2 (Ranked.rank_injective heq)

/-! ## Repeats -/

/-- The smallest of the identifiers that a list has more than once. -/
def smallestRepeat? (types : List TypeId) : Option TypeId :=
  (types.filter fun t => 1 < types.count t).argmin rank

theorem smallestRepeat?_eq_none_iff {types : List TypeId} :
    smallestRepeat? types = none ↔ types.Nodup := by
  simp only [smallestRepeat?, List.argmin_eq_none, List.filter_eq_nil_iff, decide_eq_true_eq,
    not_lt, List.nodup_iff_count_le_one]
  constructor
  · intro h t
    by_cases ht : t ∈ types
    · exact h t ht
    · simp [List.count_eq_zero_of_not_mem ht]
  · exact fun h t _ => h t

theorem smallestRepeat?_eq_some {types : List TypeId} {t : TypeId} (ht : 1 < types.count t)
    (hmin : ∀ u, 1 < types.count u → rank t ≤ rank u) : smallestRepeat? types = some t := by
  have hmem : t ∈ types.filter fun t => 1 < types.count t := by
    rw [List.mem_filter, decide_eq_true_eq]
    exact ⟨List.one_le_count_iff.1 (by omega), ht⟩
  cases h : smallestRepeat? types with
  | none =>
    rw [smallestRepeat?, List.argmin_eq_none] at h
    simp [h] at hmem
  | some u =>
    have hu : 1 < types.count u := by simpa using (List.mem_filter.1 (List.argmin_mem h)).2
    have hle : rank u ≤ rank t := List.le_of_mem_argmin hmem h
    exact congrArg some (Ranked.rank_injective (Nat.le_antisymm hle (hmin u hu)))

/-- In a list in order, equal neighbours are the smallest repeat. -/
theorem firstRepeat?_eq_of_pairwise {ts : List TypeId}
    (h : ts.Pairwise fun t u => rank t ≤ rank u) : firstRepeat? ts = smallestRepeat? ts := by
  induction ts with
  | nil => rfl
  | cons t rest ih =>
    obtain ⟨ht, hrest⟩ := List.pairwise_cons.1 h
    cases rest with
    | nil => exact (smallestRepeat?_eq_none_iff.2 (List.nodup_singleton t)).symm
    | cons u rest =>
      simp only [firstRepeat?]
      split
      · rename_i heq
        subst heq
        refine (smallestRepeat?_eq_some (by simp) fun v hv => ?_).symm
        have hv : v ∈ t :: t :: rest := List.one_le_count_iff.1 (by omega)
        rcases List.mem_cons.1 hv with rfl | hv
        · exact Nat.le_refl _
        · exact ht v hv
      · rename_i hne
        -- the head stands alone: all that follows is at least its neighbour, which is larger
        have hnot : t ∉ u :: rest := by
          intro hmem
          rcases List.mem_cons.1 hmem with rfl | hmem
          · exact hne rfl
          · have h₁ := ht u (by simp)
            have h₂ := (List.pairwise_cons.1 hrest).1 t hmem
            exact hne (Ranked.rank_injective (Nat.le_antisymm h₁ h₂))
        rw [ih hrest]
        cases hr : smallestRepeat? (u :: rest) with
        | none =>
          rw [smallestRepeat?_eq_none_iff] at hr
          exact (smallestRepeat?_eq_none_iff.2 (List.nodup_cons.2 ⟨hnot, hr⟩)).symm
        | some v =>
          have hv := List.mem_filter.1 (List.argmin_mem hr)
          have hcount : ∀ w, 1 < (t :: u :: rest).count w → 1 < (u :: rest).count w := by
            intro w hw
            rw [List.count_cons] at hw
            split at hw
            · rename_i heq
              rw [← beq_iff_eq.1 heq, List.count_eq_zero_of_not_mem hnot] at hw
              omega
            · exact hw
          refine (smallestRepeat?_eq_some ?_ fun w hw => ?_).symm
          · exact Nat.lt_of_lt_of_le (by simpa using hv.2) List.count_le_count_cons
          · have hw := hcount w hw
            refine List.le_of_mem_argmin (List.mem_filter.2 ⟨?_, by simpa using hw⟩) hr
            exact List.one_le_count_iff.1 (by omega)

theorem smallestRepeat?_perm {ts us : List TypeId} (h : ts.Perm us) :
    smallestRepeat? ts = smallestRepeat? us := by
  cases ht : smallestRepeat? us with
  | none =>
    rw [smallestRepeat?_eq_none_iff] at ht ⊢
    exact h.nodup_iff.2 ht
  | some t =>
    have hmem := List.mem_filter.1 (List.argmin_mem ht)
    refine smallestRepeat?_eq_some ?_ fun u hu => ?_
    · rw [h.count_eq]
      simpa using hmem.2
    · rw [h.count_eq] at hu
      refine List.le_of_mem_argmin (List.mem_filter.2 ⟨?_, by simpa using hu⟩) ht
      exact List.one_le_count_iff.1 (by omega)

/-- **The first repeat in order is the smallest repeat.** -/
theorem firstRepeat?_ascending (types : List TypeId) :
    firstRepeat? (ascending types) = smallestRepeat? types := by
  rw [firstRepeat?_eq_of_pairwise (pairwise_ascending types),
    smallestRepeat?_perm (perm_ascending types)]

end World

end TickEngine
