/-
  The frames and the slots of a machine, all together.

  The `crew` of threads are their frames, and what slots have `held` are the
  tasks in them, as multisets: a step of one thread replaces its frames and
  leaves the rest alone.
-/
import Mathlib
import TickEngine.Tasks.Machine

namespace TickEngine

variable {σ ρ : Type}

/-! ## Lists with one member changed -/

theorem exists_sum_map_set {α M : Type} [AddCommMonoid M] (f : α → M) {l : List α} {i : Nat}
    {a : α} (h : l[i]? = some a) :
    ∃ rest, (l.map f).sum = f a + rest ∧ ∀ b, ((l.set i b).map f).sum = f b + rest := by
  induction l generalizing i with
  | nil => cases h
  | cons x l ih =>
    cases i with
    | zero =>
      cases h
      exact ⟨(l.map f).sum, by simp, by simp⟩
    | succ i =>
      obtain ⟨rest, hsum, hset⟩ := ih h
      refine ⟨f x + rest, ?_, fun b => ?_⟩
      · rw [List.map_cons, List.sum_cons, hsum, add_left_comm]
      · rw [List.set_cons_succ, List.map_cons, List.sum_cons, hset, add_left_comm]

theorem modify_eq_set {α : Type} {l : List α} {i : Nat} {a : α} (h : l[i]? = some a)
    (f : α → α) : l.modify i f = l.set i (f a) := by
  refine List.ext_getElem? fun j => ?_
  rw [List.getElem?_modify, List.getElem?_set']
  by_cases hij : i = j
  · subst hij
    simp [h]
  · simp [hij]

theorem getElem?_set_cases {α : Type} {l : List α} {i j : Nat} {a b : α}
    (h : (l.set i a)[j]? = some b) : (i = j ∧ b = a) ∨ (i ≠ j ∧ l[j]? = some b) := by
  rw [List.getElem?_set'] at h
  split at h
  · rename_i hij
    cases hj : l[j]? with
    | none =>
      rw [hj] at h
      cases h
    | some c =>
      rw [hj] at h
      cases h
      exact .inl ⟨hij, rfl⟩
  · rename_i hij
    exact .inr ⟨hij, h⟩

theorem getElem?_set_of_some {α : Type} {l : List α} {i : Nat} {a : α} (h : l[i]? = some a)
    (b : α) : (l.set i b)[i]? = some b := by
  rw [List.getElem?_set_self' , h]
  rfl

/-! ## The frames of threads -/

/-- All frames of the threads. -/
def Thread.crew (ts : List (Thread σ ρ)) : Multiset (Frame σ ρ) :=
  (ts.map fun t => (t.frames : Multiset (Frame σ ρ))).sum

/-- All tasks in the slots. -/
def Slot.held (ss : List (Slot (Job σ ρ))) : Multiset (Job σ ρ) :=
  (ss.map fun s => (s.task.toList : Multiset (Job σ ρ))).sum

namespace Thread

variable {ts : List (Thread σ ρ)} {i : Nat} {t : Thread σ ρ} {f : Frame σ ρ}

theorem frames_eq_nil (h : t.top? = none) : t.frames = [] := by
  cases t with
  | work | outer => cases h
  | _ => rfl

theorem frames_withTop (h : t.top? = some f) :
    ∃ below, t.frames = f :: below ∧ ∀ f', (t.withTop f').frames = f' :: below := by
  cases t with
  | work top below => exact ⟨below, by cases h; rfl, fun _ => rfl⟩
  | outer top => exact ⟨[], by cases h; rfl, fun _ => rfl⟩
  | _ => cases h

/-- One thread changes. -/
theorem crew_set (h : ts[i]? = some t) :
    ∃ rest, crew ts = t.frames + rest ∧ ∀ t', crew (ts.set i t') = t'.frames + rest :=
  exists_sum_map_set (fun t : Thread σ ρ => (t.frames : Multiset (Frame σ ρ))) h

/-- One frame moves. -/
theorem crew_withTop (ht : ts[i]? = some t) (htop : t.top? = some f) :
    ∃ rest, crew ts = f ::ₘ rest ∧ ∀ f', crew (ts.set i (t.withTop f')) = f' ::ₘ rest := by
  obtain ⟨below, hframes, hwith⟩ := frames_withTop htop
  obtain ⟨rest, hcrew, hset⟩ := crew_set ht
  refine ⟨below + rest, ?_, fun f' => ?_⟩
  · rw [hcrew, hframes, ← Multiset.cons_coe, Multiset.cons_add]
  · rw [hset, hwith, ← Multiset.cons_coe, Multiset.cons_add]

theorem mem_crew : f ∈ crew ts ↔ ∃ t ∈ ts, f ∈ t.frames := by
  induction ts with
  | nil => simp [crew]
  | cons t ts ih =>
    have hcons : crew (t :: ts) = t.frames + crew ts := rfl
    rw [hcons, Multiset.mem_add, Multiset.mem_coe, ih, List.exists_mem_cons_iff]

end Thread

/-- One slot changes. -/
theorem Slot.held_set {ss : List (Slot (Job σ ρ))} {i : Nat} {s : Slot (Job σ ρ)}
    (h : ss[i]? = some s) :
    ∃ rest, held ss = s.task.toList + rest ∧ ∀ s', held (ss.set i s') = s'.task.toList + rest :=
  exists_sum_map_set (fun s : Slot (Job σ ρ) => (s.task.toList : Multiset (Job σ ρ))) h

theorem Slot.mem_held {ss : List (Slot (Job σ ρ))} {job : Job σ ρ} :
    job ∈ held ss ↔ ∃ s ∈ ss, s.task = some job := by
  induction ss with
  | nil => simp [held]
  | cons s ss ih =>
    have hcons : held (s :: ss) = s.task.toList + held ss := rfl
    rw [hcons, Multiset.mem_add, Multiset.mem_coe, ih, List.exists_mem_cons_iff, Option.mem_toList]

theorem Machine.top?_eq_some {m : Machine σ ρ} {i : Nat} {f : Frame σ ρ} (h : m.top? i = some f) :
    ∃ t, m.threads[i]? = some t ∧ t.top? = some f ∧
      ∀ f', m.threads.modify i (·.withTop f') = m.threads.set i (t.withTop f') := by
  obtain ⟨t, ht, htop⟩ := Option.bind_eq_some_iff.1 h
  exact ⟨t, ht, htop, fun f' => modify_eq_set ht _⟩

end TickEngine
