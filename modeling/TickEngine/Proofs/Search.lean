/-
  Searching an ascending list by halving finds a key just if it is listed, and
  otherwise the place where it belongs.

  * `Spot.marks_search` says what the end of a search says of the list;
  * `Spot.isFound_search`: a key is found if and only if it is listed.
-/
import TickEngine.Order.Search
import TickEngine.Proofs.Order

namespace TickEngine

theorem insertIdx_append_length {α : Type} (before after : List α) (a : α) :
    (before ++ after).insertIdx before.length a = before ++ a :: after := by
  induction before with
  | nil => rfl
  | cons b before ih => simp [ih]

namespace Spot

variable {κ : Type} [Ranked κ] {k : κ} {ks : List κ}

/-! ## Halving -/

/-- Halving a part of the list ends at `i`: at the last key of the part that is
    not beyond the wanted one, or at its start if all are beyond. -/
structure Narrows (k : κ) (ks : List κ) (base size i : Nat) : Prop where
  base_le : base ≤ i
  lt : i < base + size
  reached : base < i → ∀ k', ks[i]? = some k' → rank k' ≤ rank k
  beyond : ∀ j k', i < j → j < base + size → ks[j]? = some k' → rank k < rank k'

theorem narrows_narrow (h : Ascending ks) {base size : Nat} (hpos : 0 < size)
    (hle : base + size ≤ ks.length) : Narrows k ks base size (narrow k ks base size) := by
  fun_induction narrow k ks base size with
  | case1 base size hsmall =>
    exact ⟨le_rfl, by omega, fun hlt => absurd hlt (lt_irrefl _), fun j k' hj hlt => by omega⟩
  | case2 base size hlarge hbeyond ih =>
    have hn := ih (by omega) (by omega)
    have hmiddle : base + size / 2 < ks.length := by omega
    rw [List.getElem?_eq_getElem hmiddle, Option.any_some, decide_eq_true_eq] at hbeyond
    refine ⟨hn.base_le, Nat.lt_of_lt_of_le hn.lt (by omega), hn.reached, fun j k' hj hlt hk' => ?_⟩
    by_cases hpart : j < base + (size - size / 2)
    · exact hn.beyond j k' hj hpart hk'
    · -- what was given up starts at the middle, and all of it is at least as large
      obtain ⟨hj', rfl⟩ := List.getElem?_eq_some_iff.1 hk'
      obtain heq | hlt' := Nat.eq_or_lt_of_le (show base + size / 2 ≤ j by omega)
      · subst heq
        exact hbeyond
      · exact hbeyond.trans (List.pairwise_iff_getElem.1 h _ _ hmiddle hj' hlt')
  | case3 base size hlarge hbeyond ih =>
    have hn := ih (by omega) (by omega)
    have hlow := hn.base_le
    have hhigh := hn.lt
    have hmiddle : base + size / 2 < ks.length := by omega
    rw [List.getElem?_eq_getElem hmiddle, Option.any_some, decide_eq_true_eq] at hbeyond
    refine ⟨by omega, by omega, fun _ k' hk' => ?_,
      fun j k' hj hlt => hn.beyond j k' hj (by omega)⟩
    obtain heq | hlt := Nat.eq_or_lt_of_le hlow
    · rw [← heq, List.getElem?_eq_getElem hmiddle, Option.some.injEq] at hk'
      exact hk' ▸ Nat.le_of_not_lt hbeyond
    · exact hn.reached hlt k' hk'

/-! ## Searching -/

/-- What the end of a search says of the list. -/
inductive Marks (k : κ) : List κ → Spot → Prop
  | found (before after : List κ) : Marks k (before ++ k :: after) (.found before.length)
  | missing {before after : List κ} : (∀ a ∈ before, rank a < rank k) →
      (∀ a ∈ after, rank k < rank a) → Marks k (before ++ after) (.missing before.length)

/-- **A search in an ascending list finds the key, or the place where it
    belongs.** -/
theorem marks_search (k : κ) (h : Ascending ks) : Marks k ks (search k ks) := by
  obtain rfl | hne := eq_or_ne ks []
  · have hnone : search k ([] : List κ) = .missing 0 := by simp [search, narrow]
    rw [hnone]
    exact @Marks.missing κ _ k [] [] (by simp) (by simp)
  have hn := narrows_narrow (k := k) h (List.length_pos_iff.2 hne) (Nat.zero_add _).le
  unfold search
  generalize narrow k ks 0 ks.length = i at hn
  have hi : i < ks.length := by simpa using hn.lt
  have hbefore : ∀ a ∈ ks.take i, rank a < rank ks[i] := by
    intro a ha
    obtain ⟨j, hj, rfl⟩ := List.mem_take_iff_getElem.1 ha
    exact List.pairwise_iff_getElem.1 h j i (by omega) hi (by omega)
  have hafter : ∀ a ∈ ks.drop (i + 1), rank k < rank a := by
    intro a ha
    obtain ⟨j, hj, rfl⟩ := List.mem_drop_iff_getElem.1 ha
    exact hn.beyond (i + 1 + j) _ (by omega) (by omega) (List.getElem?_eq_getElem _)
  simp only [List.getElem?_eq_getElem hi]
  split
  · rename_i heq
    obtain rfl := Ranked.rank_injective heq
    have hmarks := Marks.found (k := ks[i]) (ks.take i) (ks.drop (i + 1))
    rwa [List.length_take_of_le hi.le, ← List.drop_eq_getElem_cons hi, List.take_append_drop]
      at hmarks
  split
  · rename_i hlt
    have hmarks : Marks k (ks.take (i + 1) ++ ks.drop (i + 1))
        (.missing (ks.take (i + 1)).length) := by
      refine .missing ?_ hafter
      rw [List.take_succ_eq_append_getElem hi, List.forall_mem_append, List.forall_mem_singleton]
      exact ⟨fun a ha => (hbefore a ha).trans hlt, hlt⟩
    rwa [List.length_take_of_le hi, List.take_append_drop] at hmarks
  · rename_i hne hnot
    -- halving ends at a key beyond the wanted one only at the start of the list
    have hzero : i = 0 := by
      by_contra hpos
      have hreached := hn.reached (Nat.pos_of_ne_zero hpos) _ (List.getElem?_eq_getElem hi)
      omega
    subst hzero
    have hall : ∀ a ∈ ks.drop 0, rank k < rank a := by
      rw [List.drop_eq_getElem_cons hi, List.forall_mem_cons]
      exact ⟨by omega, hafter⟩
    exact @Marks.missing κ _ k [] ks (by simp) hall

theorem isFound_search (h : Ascending ks) : (search k ks).isFound = true ↔ k ∈ ks := by
  rcases search k ks, marks_search k h with ⟨_, ⟨before, after⟩ | ⟨hbefore, hafter⟩⟩
  · simp [isFound]
  · simp only [isFound, Bool.false_eq_true, false_iff, List.mem_append, not_or]
    exact ⟨fun hmem => lt_irrefl _ (hbefore k hmem), fun hmem => lt_irrefl _ (hafter k hmem)⟩

end Spot

end TickEngine
