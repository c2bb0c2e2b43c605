/-
  Counted handles in the hands of many threads.

  Threads make, lend, pass on and give up handles.  Each operation on a handle
  is one step, and the steps of different threads come in any order.

  * `Heap.Counts` says what a heap is, given how many handles there are on each
    allocation; one lemma for each operation says how it changes with them;
  * `Sharing.Step` is a step of a thread and `Sharing.Records` a history of
    steps;
  * `Sharing.Records.tells_exactly`: what the counts tell, which attempts
    succeed, and when payloads go, after every history.
-/
import Mathlib
import TickEngine.Tasks.Sharing

namespace TickEngine

variable {α : Type}

/-! ## One allocation -/

namespace Allocation

/-- An allocation made with `x`, on which there are `n` strong and `w` weak
    handles. -/
def withHandles (x : α) (n w : Nat) : Allocation α := ⟨if n = 0 then none else some x, n, w⟩

variable {x : α} {n w : Nat}

@[simp]
theorem strong_withHandles : (withHandles x n w).strong = n := rfl

theorem clone_withHandles (hn : n ≠ 0) : (withHandles x n w).clone = withHandles x (n + 1) w := by
  simp [clone, withHandles, hn]

theorem release_withHandles : (withHandles x (n + 1) w).release = withHandles x n w := by
  simp [release, withHandles]

theorem upgrade?_withHandles :
    (withHandles x n w).upgrade? = if n = 0 then none else some (withHandles x n w).clone := rfl

theorem unwrap?_withHandles : (withHandles x n w).unwrap? =
    if n = 1 then some (x, (withHandles x n w).release) else none := by
  by_cases hn : n = 1 <;> simp [unwrap?, release, withHandles, hn]

end Allocation

/-! ## A heap, given the numbers of handles -/

namespace Heap

/-- The payload at a place, while it is there. -/
def payload? (h : Heap α) (i : Nat) : Option α := h.allocations[i]?.bind (·.payload)

/-- The heap has the allocations that were made with these payloads, with these
    numbers of strong and of weak handles, and counts the payloads of those
    without a strong one as dropped. -/
structure Counts (made : Nat → Option α) (n w : Nat → Nat) (h : Heap α) : Prop where
  get : ∀ i, h.allocations[i]? = (made i).map fun x => .withHandles x (n i) (w i)
  unmade : ∀ i, made i = none → n i = 0 ∧ w i = 0
  dropped : h.dropped = ∑ i ∈ Finset.range h.allocations.size, if n i = 0 then 1 else 0

theorem counts_empty : Counts (fun _ => none) 0 0 ({} : Heap α) :=
  ⟨fun _ => rfl, fun _ _ => ⟨rfl, rfl⟩, rfl⟩

variable {made : Nat → Option α} {n w : Nat → Nat} {h : Heap α} {i : Nat} {x : α}

theorem Counts.made_of_strong (hc : Counts made n w h) (hn : n i ≠ 0) : ∃ x, made i = some x :=
  Option.ne_none_iff_exists'.1 fun hnone => hn (hc.unmade i hnone).1

theorem Counts.made_of_weak (hc : Counts made n w h) (hw : w i ≠ 0) : ∃ x, made i = some x :=
  Option.ne_none_iff_exists'.1 fun hnone => hw (hc.unmade i hnone).2

theorem Counts.lt_size_iff (hc : Counts made n w h) :
    i < h.allocations.size ↔ ∃ x, made i = some x := by
  rw [← Option.isSome_iff_exists, ← Nat.not_le, ← Array.getElem?_eq_none_iff, hc.get,
    Option.map_eq_none_iff, ← ne_eq, Option.ne_none_iff_isSome]

theorem Counts.made_size (hc : Counts made n w h) : made h.allocations.size = none := by
  simpa using (hc.get h.allocations.size).symm

theorem Counts.payload?_eq (hc : Counts made n w h) :
    h.payload? i = if n i = 0 then none else made i := by
  rw [payload?, hc.get]
  cases hm : made i with
  | none => simp
  | some x => simp [Allocation.withHandles]

/-- An operation on one allocation gives other numbers of handles there. -/
theorem Counts.modify (hc : Counts made n w h) {f : Allocation α → Allocation α}
    {n' w' d : Nat} (hi : made i = some x)
    (hf : f (.withHandles x (n i) (w i)) = .withHandles x n' w')
    (hd : d + (if n i = 0 then 1 else 0) = h.dropped + if n' = 0 then 1 else 0) :
    Counts made (Function.update n i n') (Function.update w i w')
      { h.modify i f with dropped := d } := by
  refine ⟨fun j => ?_, fun j hj => ?_, ?_⟩
  · obtain rfl | hne := eq_or_ne i j
    · simp [Heap.modify, Array.getElem?_modify, hc.get, hi, hf]
    · simp [Heap.modify, Array.getElem?_modify, hc.get, hne, hne.symm]
  · have hne : j ≠ i := by
      rintro rfl
      simp [hi] at hj
    simpa [hne] using hc.unmade j hj
  · -- the sum changes by its summand at the place
    have hmem : i ∈ Finset.range h.allocations.size :=
      Finset.mem_range.2 (hc.lt_size_iff.2 ⟨x, hi⟩)
    have hupdate : (fun j => if Function.update n i n' j = 0 then 1 else 0) =
        Function.update (fun j => if n j = 0 then 1 else 0) i (if n' = 0 then 1 else 0) :=
      Function.comp_update (fun k => if k = 0 then 1 else 0) n i n'
    have hsplit := Finset.sum_eq_add_sum_sdiff_singleton_of_mem hmem
      fun j => if n j = 0 then 1 else 0
    simp only [Heap.modify, Array.size_modify]
    rw [hupdate, Finset.sum_update_of_mem hmem]
    have hdropped := hc.dropped
    omega

theorem Counts.new (hc : Counts made n w h) (x : α) :
    Counts (Function.update made h.allocations.size (some x))
      (Function.update n h.allocations.size (n h.allocations.size + 1)) w (h.new x).2 := by
  obtain ⟨hn, hw⟩ := hc.unmade _ hc.made_size
  refine ⟨fun j => ?_, fun j hj => ?_, ?_⟩
  · obtain rfl | hne := eq_or_ne j h.allocations.size
    · simp [Heap.new, hn, hw, Allocation.new, Allocation.withHandles]
    · simp [Heap.new, Array.getElem?_push, hne, hc.get]
  · have hne : j ≠ h.allocations.size := by
      rintro rfl
      simp at hj
    rw [Function.update_of_ne hne] at hj ⊢
    exact hc.unmade j hj
  · simp only [Heap.new, Array.size_push, Finset.sum_range_succ, Function.update_self]
    rw [if_neg (Nat.succ_ne_zero _), Nat.add_zero, hc.dropped]
    refine Finset.sum_congr rfl fun j hj => ?_
    rw [Function.update_of_ne (Finset.mem_range.1 hj).ne]

theorem Counts.clone (hc : Counts made n w h) (hn : n i ≠ 0) :
    Counts made (Function.update n i (n i + 1)) w (h.clone ⟨i⟩).2 := by
  obtain ⟨x, hi⟩ := hc.made_of_strong hn
  have hmodify := hc.modify hi (Allocation.clone_withHandles hn) (d := h.dropped) (by simp [hn])
  rwa [Function.update_eq_self] at hmodify

theorem Counts.release (hc : Counts made (Function.update n i (n i + 1)) w h) :
    Counts made n w (h.release ⟨i⟩) := by
  obtain ⟨x, hi⟩ := hc.made_of_strong (i := i) (by simp)
  have hget : h.get? ⟨i⟩ = some (.withHandles x (n i + 1) (w i)) := by
    simp [get?, hc.get, hi]
  have hrelease : Allocation.release (.withHandles x (Function.update n i (n i + 1) i) (w i)) =
      .withHandles x (n i) (w i) := by
    simpa using Allocation.release_withHandles
  have hmodify := hc.modify hi hrelease (d := if n i = 0 then h.dropped + 1 else h.dropped)
    (by by_cases hn : n i = 0 <;> simp [hn])
  rw [Function.update_idem, Function.update_eq_self, Function.update_eq_self] at hmodify
  simpa [Heap.release, hget, Allocation.withHandles] using hmodify

theorem Counts.downgrade (hc : Counts made n w h) (hn : n i ≠ 0) :
    Counts made n (Function.update w i (w i + 1)) (h.downgrade ⟨i⟩).2 := by
  obtain ⟨x, hi⟩ := hc.made_of_strong hn
  have hmodify := hc.modify hi (f := Allocation.downgrade) (d := h.dropped) rfl rfl
  rwa [Function.update_eq_self] at hmodify

theorem Counts.cloneWeak (hc : Counts made n w h) (hw : w i ≠ 0) :
    Counts made n (Function.update w i (w i + 1)) (h.cloneWeak ⟨some i⟩).2 := by
  obtain ⟨x, hi⟩ := hc.made_of_weak hw
  have hmodify := hc.modify hi (f := Allocation.cloneWeak) (d := h.dropped) rfl rfl
  rwa [Function.update_eq_self] at hmodify

theorem Counts.releaseWeak (hc : Counts made n (Function.update w i (w i + 1)) h) :
    Counts made n w (h.releaseWeak ⟨some i⟩) := by
  obtain ⟨x, hi⟩ := hc.made_of_weak (i := i) (by simp)
  have hrelease : Allocation.releaseWeak
      (.withHandles x (n i) (Function.update w i (w i + 1) i)) = .withHandles x (n i) (w i) := by
    simp [Allocation.releaseWeak, Allocation.withHandles]
  have hmodify := hc.modify hi hrelease (d := h.dropped) rfl
  rwa [Function.update_idem, Function.update_eq_self, Function.update_eq_self] at hmodify

/-- A place where `f` gives `a` can as well be set to `a`. -/
theorem modify_const {f : Allocation α → Allocation α} {a b : Allocation α}
    (hget : h.allocations[i]? = some a) (hf : f a = b) :
    h.modify i (fun _ => b) = h.modify i f := by
  subst hf
  simp only [Heap.modify]
  congr 1
  refine Array.ext_getElem? fun j => ?_
  obtain rfl | hne := eq_or_ne i j
  · simp [Array.getElem?_modify, hget]
  · simp [Array.getElem?_modify, hne]

/-- An upgrade is a clone of a strong handle, if there is one. -/
theorem Counts.upgrade?_eq (hc : Counts made n w h) :
    h.upgrade? ⟨some i⟩ = if n i = 0 then none else some (h.clone ⟨i⟩) := by
  cases hm : made i with
  | none => simp [upgrade?, hc.get, hm, (hc.unmade i hm).1]
  | some x =>
    have hget : h.allocations[i]? = some (.withHandles x (n i) (w i)) := by simp [hc.get, hm]
    split <;> rename_i hn
    · simp [upgrade?, hget, Allocation.upgrade?_withHandles, hn]
    · simp [upgrade?, hget, Allocation.upgrade?_withHandles, hn, Heap.clone,
        modify_const hget rfl]

/-- Taking a payload out leaves the heap as giving up the last handle does. -/
theorem Counts.unwrap?_eq (hc : Counts made n w h) (hi : made i = some x) :
    h.unwrap? ⟨i⟩ = if n i = 1 then some (x, h.release ⟨i⟩) else none := by
  have hget : h.allocations[i]? = some (.withHandles x (n i) (w i)) := by simp [hc.get, hi]
  split <;> rename_i hn
  · rw [hn] at hget
    simp [unwrap?, get?, hget, Allocation.unwrap?_withHandles, Heap.release,
      modify_const hget rfl]
  · simp [unwrap?, get?, hget, Allocation.unwrap?_withHandles, hn]

theorem Counts.upgrade?_eq_some_iff (hc : Counts made n w h) {k : Weak} {s : Strong}
    {h' : Heap α} : h.upgrade? k = some (s, h') ↔
      k.index = some s.index ∧ n s.index ≠ 0 ∧ h' = (h.clone s).2 := by
  obtain ⟨_ | i⟩ := k
  · simp [upgrade?]
  · rw [hc.upgrade?_eq]
    constructor
    · intro hup
      split at hup
      · cases hup
      · rename_i hn
        cases hup
        exact ⟨rfl, hn, rfl⟩
    · rintro ⟨⟨⟩, hn, rfl⟩
      exact if_neg hn

theorem Counts.upgrade?_eq_none_iff (hc : Counts made n w h) {k : Weak} :
    h.upgrade? k = none ↔ ∀ i, k.index = some i → n i = 0 := by
  obtain ⟨_ | i⟩ := k
  · simp [upgrade?]
  · rw [hc.upgrade?_eq]
    simp

theorem Counts.unwrap?_eq_some_iff (hc : Counts made n w h) {s : Strong} {h' : Heap α} :
    h.unwrap? s = some (x, h') ↔
      made s.index = some x ∧ n s.index = 1 ∧ h' = h.release s := by
  cases hm : made s.index with
  | none => simp [unwrap?, get?, hc.get, hm]
  | some y =>
    rw [hc.unwrap?_eq hm]
    constructor
    · intro hout
      split at hout
      · rename_i hn
        cases hout
        exact ⟨rfl, hn, rfl⟩
      · cases hout
    · rintro ⟨⟨⟩, hn, rfl⟩
      exact if_pos hn

theorem Counts.unwrap?_eq_none_iff (hc : Counts made n w h) {s : Strong}
    (hn : n s.index ≠ 0) : h.unwrap? s = none ↔ n s.index ≠ 1 := by
  obtain ⟨x, hm⟩ := hc.made_of_strong hn
  rw [hc.unwrap?_eq hm]
  simp

theorem Counts.strongCount_eq (hc : Counts made n w h) : h.strongCount ⟨some i⟩ = n i := by
  cases hm : made i with
  | none => simp [strongCount, hc.get, hm, (hc.unmade i hm).1]
  | some x => simp [strongCount, hc.get, hm, Allocation.withHandles]

end Heap

/-! ## Handles and the threads that hold them -/

/-- A heap, and the handles on it with the threads that hold them. -/
structure Sharing (α : Type) where
  heap : Heap α
  strong : Multiset (Nat × Strong)
  weak : Multiset (Nat × Weak)

/-- The number of strong handles on an allocation. -/
def Strong.on (held : Multiset (Nat × Strong)) (i : Nat) : Nat := held.countP (·.2.index = i)

/-- The number of weak handles on an allocation. -/
def Weak.on (held : Multiset (Nat × Weak)) (i : Nat) : Nat := held.countP (·.2.index = some i)

theorem Strong.on_cons (t : Nat) (s : Strong) (held : Multiset (Nat × Strong)) :
    Strong.on ((t, s) ::ₘ held) = Function.update (Strong.on held) s.index
      (Strong.on held s.index + 1) := by
  funext i
  obtain rfl | hne := eq_or_ne i s.index
  · simp [Strong.on]
  · simp [Strong.on, hne, hne.symm]

theorem Strong.on_ne_zero {held : Multiset (Nat × Strong)} {t : Nat} {s : Strong}
    (hmem : (t, s) ∈ held) : Strong.on held s.index ≠ 0 := by
  rw [← Nat.pos_iff_ne_zero, Strong.on, Multiset.countP_pos]
  exact ⟨_, hmem, rfl⟩

theorem Weak.on_cons_some (t i : Nat) (held : Multiset (Nat × Weak)) :
    Weak.on ((t, ⟨some i⟩) ::ₘ held) = Function.update (Weak.on held) i (Weak.on held i + 1) := by
  funext j
  obtain rfl | hne := eq_or_ne j i
  · simp [Weak.on]
  · simp [Weak.on, hne, hne.symm]

theorem Weak.on_cons_none (t : Nat) (held : Multiset (Nat × Weak)) :
    Weak.on ((t, ⟨none⟩) ::ₘ held) = Weak.on held := by
  funext j
  simp [Weak.on]

theorem Weak.on_ne_zero {held : Multiset (Nat × Weak)} {t i : Nat}
    (hmem : (t, ⟨some i⟩) ∈ held) : Weak.on held i ≠ 0 := by
  rw [← Nat.pos_iff_ne_zero, Weak.on, Multiset.countP_pos]
  exact ⟨_, hmem, rfl⟩

namespace Sharing

/-- The number of strong handles on the allocation of a weak one. -/
def beside (st : Sharing α) (w : Weak) : Nat := (w.index.map (Strong.on st.strong)).getD 0

/-- What a thread does, and what it gets. -/
inductive Deed (α : Type) where
  /-- A payload is moved into a new allocation. -/
  | new (x : α) (s : Strong)
  | clone (s : Strong)
  | release (s : Strong)
  | downgrade (s : Strong)
  /-- A weak handle is made that is on no allocation. -/
  | empty
  /-- A weak handle is upgraded, or not. -/
  | upgrade (w : Weak) (got : Option Strong)
  | cloneWeak (w : Weak)
  | releaseWeak (w : Weak)
  /-- The payload is taken out, or not, and then the thread keeps the handle. -/
  | unwrap (s : Strong) (got : Option α)
  /-- A handle is given to another thread. -/
  | pass (s : Strong)
  | passWeak (w : Weak)

/-- A step of a thread `t`.  To give up a handle, to take the payload out
    through it or to pass it on, the thread has to hold it.  For the rest it is
    enough that some thread `t'` holds it and lends it. -/
inductive Step : Sharing α → Nat → Deed α → Sharing α → Prop
  | new {h S W t x} : Step ⟨h, S, W⟩ t (.new x (h.new x).1) ⟨(h.new x).2, (t, (h.new x).1) ::ₘ S, W⟩
  | clone {h S W t t' s} : (t', s) ∈ S →
      Step ⟨h, S, W⟩ t (.clone s) ⟨(h.clone s).2, (t, (h.clone s).1) ::ₘ S, W⟩
  | release {h S W t s} : Step ⟨h, (t, s) ::ₘ S, W⟩ t (.release s) ⟨h.release s, S, W⟩
  | downgrade {h S W t t' s} : (t', s) ∈ S →
      Step ⟨h, S, W⟩ t (.downgrade s) ⟨(h.downgrade s).2, S, (t, (h.downgrade s).1) ::ₘ W⟩
  | empty {h S W t} : Step ⟨h, S, W⟩ t .empty ⟨h, S, (t, ⟨none⟩) ::ₘ W⟩
  | upgrade {h h' S W t t' w s} : (t', w) ∈ W → h.upgrade? w = some (s, h') →
      Step ⟨h, S, W⟩ t (.upgrade w (some s)) ⟨h', (t, s) ::ₘ S, W⟩
  | refuse {h S W t t' w} : (t', w) ∈ W → h.upgrade? w = none →
      Step ⟨h, S, W⟩ t (.upgrade w none) ⟨h, S, W⟩
  | cloneWeak {h S W t t' w} : (t', w) ∈ W →
      Step ⟨h, S, W⟩ t (.cloneWeak w) ⟨(h.cloneWeak w).2, S, (t, (h.cloneWeak w).1) ::ₘ W⟩
  | releaseWeak {h S W t w} :
      Step ⟨h, S, (t, w) ::ₘ W⟩ t (.releaseWeak w) ⟨h.releaseWeak w, S, W⟩
  | unwrap {h h' S W t s x} : h.unwrap? s = some (x, h') →
      Step ⟨h, (t, s) ::ₘ S, W⟩ t (.unwrap s (some x)) ⟨h', S, W⟩
  | keep {h S W t s} : (t, s) ∈ S → h.unwrap? s = none →
      Step ⟨h, S, W⟩ t (.unwrap s none) ⟨h, S, W⟩
  | pass {h S W t t' s} : Step ⟨h, (t, s) ::ₘ S, W⟩ t (.pass s) ⟨h, (t', s) ::ₘ S, W⟩
  | passWeak {h S W t t' w} :
      Step ⟨h, S, (t, w) ::ₘ W⟩ t (.passWeak w) ⟨h, S, (t', w) ::ₘ W⟩

/-- There are steps of some threads that lead from one to the other. -/
def Leads (st st' : Sharing α) : Prop :=
  Relation.ReflTransGen (fun a b => ∃ t d, Step a t d b) st st'

/-- A step that was made, with what was there before and after. -/
structure Moment (α : Type) where
  before : Sharing α
  thread : Nat
  deed : Deed α
  after : Sharing α

/-- What came of a heap without allocations, and how, the latest step first. -/
inductive Records : List (Moment α) → Sharing α → Prop
  | start : Records [] ⟨{}, 0, 0⟩
  | step {ms : List (Moment α)} {st st' : Sharing α} {t : Nat} {d : Deed α} :
      Records ms st → Step st t d st' → Records (⟨st, t, d, st'⟩ :: ms) st'

/-- The payloads that allocations were made with, after a deed. -/
def Deed.record : Deed α → (Nat → Option α) → Nat → Option α
  | .new x s, made => Function.update made s.index (some x)
  | _, made => made

/-- The payload that the allocation at a place was made with. -/
def made : List (Moment α) → Nat → Option α
  | [] => fun _ => none
  | m :: ms => m.deed.record (made ms)

/-- The payload that goes from an allocation at that moment. -/
def Moment.leaves (m : Moment α) (i : Nat) : Option α :=
  match m.before.heap.payload? i, m.after.heap.payload? i with
  | some x, none => some x
  | _, _ => none

/-- The payloads that went from an allocation. -/
def departures (ms : List (Moment α)) (i : Nat) : List α := ms.filterMap (·.leaves i)

/-! ## What a step does to the counts -/

variable {st st' : Sharing α} {t i : Nat} {d : Deed α} {f : Nat → Option α} {x : α}

/-- The heap counts the handles that threads hold. -/
def Counted (f : Nat → Option α) (st : Sharing α) : Prop :=
  st.heap.Counts f (Strong.on st.strong) (Weak.on st.weak)

theorem Step.counted (hstep : Step st t d st') (hc : Counted f st) :
    Counted (d.record f) st' := by
  unfold Counted at hc ⊢
  cases hstep with
  | new =>
    rw [Strong.on_cons]
    exact hc.new _
  | clone hmem =>
    rw [Strong.on_cons]
    exact hc.clone (Strong.on_ne_zero hmem)
  | release =>
    rw [Strong.on_cons] at hc
    exact hc.release
  | downgrade hmem =>
    rw [Heap.downgrade, Weak.on_cons_some]
    exact hc.downgrade (Strong.on_ne_zero hmem)
  | empty =>
    rw [Weak.on_cons_none]
    exact hc
  | upgrade _ hup =>
    obtain ⟨-, hn, rfl⟩ := hc.upgrade?_eq_some_iff.1 hup
    rw [Strong.on_cons]
    exact hc.clone hn
  | refuse => exact hc
  | @cloneWeak _ _ _ _ _ w hmem =>
    obtain ⟨_ | i⟩ := w
    · rw [Heap.cloneWeak, Weak.on_cons_none]
      exact hc
    · rw [Heap.cloneWeak, Weak.on_cons_some]
      exact hc.cloneWeak (Weak.on_ne_zero hmem)
  | @releaseWeak _ _ _ _ w =>
    obtain ⟨_ | i⟩ := w
    · rw [Weak.on_cons_none] at hc
      exact hc
    · rw [Weak.on_cons_some] at hc
      exact hc.releaseWeak
  | unwrap hout =>
    obtain ⟨-, -, rfl⟩ := hc.unwrap?_eq_some_iff.1 hout
    rw [Strong.on_cons] at hc
    exact hc.release
  | keep => exact hc
  | pass =>
    rw [Strong.on_cons] at hc ⊢
    exact hc
  | @passWeak _ _ _ _ _ w =>
    obtain ⟨_ | i⟩ := w
    · rw [Weak.on_cons_none] at hc ⊢
      exact hc
    · rw [Weak.on_cons_some] at hc ⊢
      exact hc

/-- What a deed can do to the allocations that were made and the numbers of
    strong handles on them. -/
inductive Deed.Changes : (Nat → Option α) → (Nat → Nat) → Deed α → (Nat → Option α) →
    (Nat → Nat) → Prop
  | made {f n x s} : f s.index = none → Changes f n (.new x s)
      (Function.update f s.index (some x)) (Function.update n s.index (n s.index + 1))
  | more {f n d i} : n i ≠ 0 → Changes f n d f (Function.update n i (n i + 1))
  | same {f n d} : Changes f n d f n
  | release {f n s} : Changes f (Function.update n s.index (n s.index + 1)) (.release s) f n
  | unwrap {f n s x} : f s.index = some x →
      Changes f (Function.update n s.index (n s.index + 1)) (.unwrap s (some x)) f n

theorem Step.changes (hstep : Step st t d st') (hc : Counted f st) :
    d.Changes f (Strong.on st.strong) (d.record f) (Strong.on st'.strong) := by
  cases hstep with
  | new =>
    rw [Strong.on_cons]
    exact .made hc.made_size
  | clone hmem =>
    rw [Strong.on_cons]
    exact .more (Strong.on_ne_zero hmem)
  | upgrade _ hup =>
    obtain ⟨-, hn, -⟩ := hc.upgrade?_eq_some_iff.1 hup
    rw [Strong.on_cons]
    exact .more hn
  | release =>
    rw [Strong.on_cons]
    exact .release
  | unwrap hout =>
    obtain ⟨hmade, -, -⟩ := hc.unwrap?_eq_some_iff.1 hout
    rw [Strong.on_cons]
    exact .unwrap hmade
  | pass =>
    rw [Strong.on_cons, Strong.on_cons]
    exact .same
  | downgrade | empty | refuse | cloneWeak | releaseWeak | keep | passWeak => exact .same

variable {f' : Nat → Option α} {n n' : Nat → Nat}

theorem Deed.Changes.made_eq (hd : d.Changes f n f' n') (hi : f i = some x) : f' i = some x := by
  cases hd with
  | made hnone =>
    rwa [Function.update_of_ne]
    rintro rfl
    simp [hnone] at hi
  | _ => exact hi

/-- An allocation that is there and has no strong handles gets none. -/
theorem Deed.Changes.eq_zero (hd : d.Changes f n f' n') (hi : f i = some x) (hn : n i = 0) :
    n' i = 0 := by
  cases hd with
  | made hnone =>
    rwa [Function.update_of_ne]
    rintro rfl
    simp [hnone] at hi
  | more hne =>
    rwa [Function.update_of_ne]
    rintro rfl
    exact hne hn
  | same => exact hn
  | release | unwrap =>
    rwa [Function.update_of_ne] at hn
    rintro rfl
    simp at hn

theorem Deed.Changes.ne_zero_of_new (hd : d.Changes f n f' n') (hi : f i = none)
    (hi' : f' i = some x) : n' i ≠ 0 := by
  cases hd with
  | @made _ _ s _ =>
    obtain rfl | hne := eq_or_ne i s.index
    · simp
    · simp [hne, hi] at hi'
  | _ => simp [hi] at hi'

/-- The last strong handle goes when it is given up or the payload is taken
    out through it. -/
theorem Deed.Changes.last (hd : d.Changes f n f' n') (hn : n i ≠ 0) (hn' : n' i = 0) :
    n i = 1 ∧ (d = .release ⟨i⟩ ∨ ∃ x, f i = some x ∧ d = .unwrap ⟨i⟩ (some x)) := by
  cases hd with
  | @made _ _ s _ =>
    obtain rfl | hne := eq_or_ne i s.index
    · simp at hn'
    · simp [hne, hn] at hn'
  | @more _ _ j _ =>
    obtain rfl | hne := eq_or_ne i j
    · simp at hn'
    · simp [hne, hn] at hn'
  | same => exact absurd hn' hn
  | @release _ s =>
    obtain rfl | hne := eq_or_ne i s.index
    · simp [hn']
    · simp [hne, hn'] at hn
  | @unwrap _ s x hmade =>
    obtain rfl | hne := eq_or_ne i s.index
    · simp [hn', hmade]
    · simp [hne, hn'] at hn

/-! ## Histories -/

variable {ms : List (Moment α)} {m : Moment α}

theorem Records.counted (h : Records ms st) : Counted (made ms) st := by
  induction h with
  | start => exact Heap.counts_empty
  | step _ hstep ih => exact hstep.counted ih

theorem Records.moment (h : Records ms st) (hm : m ∈ ms) :
    ∃ f, Counted f m.before ∧ Step m.before m.thread m.deed m.after ∧
      ∀ i x, f i = some x → made ms i = some x := by
  induction h with
  | start => cases hm
  | @step ms _ _ _ _ h hstep ih =>
    have hmade := fun i x => (hstep.changes h.counted).made_eq (i := i) (x := x)
    obtain rfl | hm := List.mem_cons.1 hm
    · exact ⟨made ms, h.counted, hstep, hmade⟩
    · obtain ⟨f, hc, hstep', hf⟩ := ih hm
      exact ⟨f, hc, hstep', fun i x hi => hmade i x (hf i x hi)⟩

theorem Moment.leaves_eq (hstep : Step m.before m.thread m.deed m.after)
    (hc : Counted f m.before) : m.leaves i =
      if Strong.on m.before.strong i ≠ 0 ∧ Strong.on m.after.strong i = 0 then f i else none := by
  have hbefore := hc.payload?_eq (i := i)
  have hafter := (hstep.counted hc).payload?_eq (i := i)
  cases hi : f i with
  | none => simp [leaves, hbefore, hi]
  | some y =>
    rw [(hstep.changes hc).made_eq hi] at hafter
    by_cases hn : Strong.on m.before.strong i = 0 <;>
      by_cases hn' : Strong.on m.after.strong i = 0 <;>
        simp [leaves, hbefore, hafter, hi, hn, hn']

theorem departures_cons (m : Moment α) (ms : List (Moment α)) (i : Nat) :
    departures (m :: ms) i = (m.leaves i).toList ++ departures ms i := by
  rw [departures, List.filterMap_cons]
  cases m.leaves i <;> rfl

/-- The payload goes once from each allocation without a strong handle. -/
theorem Records.departures_eq (h : Records ms st) (i : Nat) :
    departures ms i = if Strong.on st.strong i = 0 then (made ms i).toList else [] := by
  induction h with
  | start => rfl
  | @step ms st st' _ d h hstep ih =>
    have hchanges := hstep.changes h.counted
    rw [departures_cons, Moment.leaves_eq hstep h.counted, ih, made]
    cases hi : made ms i with
    | none =>
      -- nothing was there, and what is made now has a handle
      cases hi' : d.record (made ms) i with
      | none => simp
      | some x => simp [hchanges.ne_zero_of_new hi hi']
    | some x =>
      rw [hchanges.made_eq hi]
      by_cases hn : Strong.on st.strong i = 0
      · simp [hn, hchanges.eq_zero hi hn]
      · by_cases hn' : Strong.on st'.strong i = 0 <;> simp [hn, hn']

/-- A payload goes, as it was moved in, when the last strong handle goes. -/
theorem Records.leaves_iff (h : Records ms st) (hm : m ∈ ms) : m.leaves i = some x ↔
    made ms i = some x ∧ Strong.on m.before.strong i = 1 ∧ Strong.on m.after.strong i = 0 := by
  obtain ⟨f, hc, hstep, hf⟩ := h.moment hm
  rw [Moment.leaves_eq hstep hc]
  constructor
  · intro hleaves
    split at hleaves
    · rename_i hgone
      obtain ⟨hone, -⟩ := (hstep.changes hc).last hgone.1 hgone.2
      exact ⟨hf i x hleaves, hone, hgone.2⟩
    · cases hleaves
  · rintro ⟨hx, hone, hnone⟩
    have hne : Strong.on m.before.strong i ≠ 0 := by simp [hone]
    obtain ⟨y, hy⟩ := hc.made_of_strong hne
    rw [if_pos ⟨hne, hnone⟩, hy, ← hf i y hy, hx]

theorem Records.deed_of_leaves (h : Records ms st) (hm : m ∈ ms) (hleaves : m.leaves i = some x) :
    m.deed = .release ⟨i⟩ ∨ m.deed = .unwrap ⟨i⟩ (some x) := by
  obtain ⟨f, hc, hstep, -⟩ := h.moment hm
  rw [Moment.leaves_eq hstep hc] at hleaves
  split at hleaves
  · rename_i hgone
    obtain ⟨-, hdeed⟩ := (hstep.changes hc).last hgone.1 hgone.2
    refine hdeed.imp_right ?_
    rintro ⟨y, hy, hdeed⟩
    rw [hdeed, ← hy, hleaves]
  · cases hleaves

/-- Later steps keep the allocations, and those without strong handles get
    none. -/
theorem Leads.counted (hl : Leads st st') (hc : Counted f st) : ∃ f', Counted f' st' ∧
    ∀ i x, f i = some x →
      f' i = some x ∧ (Strong.on st.strong i = 0 → Strong.on st'.strong i = 0) := by
  induction hl with
  | refl => exact ⟨f, hc, fun i x hi => ⟨hi, id⟩⟩
  | tail _ hlast ih =>
    obtain ⟨f', hc', hf'⟩ := ih
    obtain ⟨t, d, hstep⟩ := hlast
    have hchanges := hstep.changes hc'
    refine ⟨_, hstep.counted hc', fun i x hi => ?_⟩
    obtain ⟨hi', hzero⟩ := hf' i x hi
    exact ⟨hchanges.made_eq hi', fun hn => hchanges.eq_zero hi' (hzero hn)⟩

theorem Leads.beside_eq_zero (hl : Leads st st') (hc : Counted f st) {w : Weak}
    (hmem : (t, w) ∈ st.weak) (hn : st.beside w = 0) : st'.beside w = 0 := by
  obtain ⟨_ | i⟩ := w
  · rfl
  · obtain ⟨f', -, hf'⟩ := hl.counted hc
    obtain ⟨x, hx⟩ := hc.made_of_weak (Weak.on_ne_zero hmem)
    exact (hf' i x hx).2 hn

theorem Counted.get?_eq (hc : Counted f st) {s : Strong} (hmem : (t, s) ∈ st.strong) :
    ∃ x, f s.index = some x ∧
      st.heap.get? s = some ⟨some x, Strong.on st.strong s.index, Weak.on st.weak s.index⟩ := by
  have hne := Strong.on_ne_zero hmem
  obtain ⟨x, hx⟩ := hc.made_of_strong hne
  refine ⟨x, hx, ?_⟩
  simp [Heap.get?, hc.get, hx, Allocation.withHandles, hne]

theorem Counted.strongCount_eq (hc : Counted f st) (w : Weak) :
    st.heap.strongCount w = st.beside w := by
  obtain ⟨_ | i⟩ := w
  · rfl
  · exact Heap.Counts.strongCount_eq hc

theorem Counted.upgrade?_eq_none (hc : Counted f st) {w : Weak} :
    st.heap.upgrade? w = none ↔ st.beside w = 0 := by
  rw [hc.upgrade?_eq_none_iff]
  obtain ⟨_ | i⟩ := w <;> simp [beside]

/-- What the counts of a heap tell after a history, which attempts succeed, and
    when payloads go. -/
structure TellsExactly (ms : List (Moment α)) (st : Sharing α) : Prop where
  /-- Through a strong handle are seen the payload that was moved in and the
      numbers of strong and of weak handles. -/
  get : ∀ t s, (t, s) ∈ st.strong → ∃ x, made ms s.index = some x ∧
    st.heap.get? s = some ⟨some x, Strong.on st.strong s.index, Weak.on st.weak s.index⟩
  /-- Through a weak handle is seen the number of strong ones. -/
  strongCount : ∀ t w, (t, w) ∈ st.weak → st.heap.strongCount w = st.beside w
  /-- An upgrade succeeds if and only if there is a strong handle, of which it
      makes one more. -/
  upgrade : ∀ t t' w, (t', w) ∈ st.weak → ∀ got st', Step st t (.upgrade w got) st' ↔
    if st.beside w = 0 then got = none ∧ st' = st
    else ∃ s, w.index = some s.index ∧ got = some s ∧
      st' = ⟨(st.heap.clone s).2, (t, s) ::ₘ st.strong, st.weak⟩
  /-- Without a strong handle it fails for ever. -/
  forever : ∀ t w, (t, w) ∈ st.weak → st.beside w = 0 → ∀ st', Leads st st' →
    st'.beside w = 0 ∧ st'.heap.strongCount w = 0 ∧ st'.heap.upgrade? w = none
  /-- A weak handle on no allocation is never upgraded. -/
  empty : ∀ t got st', Step st t (.upgrade ⟨none⟩ got) st' → got = none ∧ st' = st
  /-- Through the only strong handle the payload is taken out.  With others the
      thread keeps the handle, and nothing changes. -/
  unwrap : ∀ t s, (t, s) ∈ st.strong → ∀ got st', Step st t (.unwrap s got) st' ↔
    if Strong.on st.strong s.index = 1 then
      got = made ms s.index ∧ st' = ⟨st.heap.release s, st.strong.erase (t, s), st.weak⟩
    else got = none ∧ st' = st
  /-- A payload goes at the moments when the last strong handle goes, as it was
      moved in. -/
  leaves : ∀ m ∈ ms, ∀ i x, m.leaves i = some x ↔ made ms i = some x ∧
    Strong.on m.before.strong i = 1 ∧ Strong.on m.after.strong i = 0
  /-- The handle is given up then, or the payload taken out through it. -/
  leaves_deed : ∀ m ∈ ms, ∀ i x, m.leaves i = some x →
    m.deed = .release ⟨i⟩ ∨ m.deed = .unwrap ⟨i⟩ (some x)
  /-- There was one such moment for each allocation without strong handles, and
      none for the others. -/
  departures : ∀ i, departures ms i =
    if Strong.on st.strong i = 0 then (made ms i).toList else []
  /-- The counter of dropped payloads counts these allocations. -/
  dropped : st.heap.dropped = ((Finset.range st.heap.allocations.size).filter
    fun i => Strong.on st.strong i = 0).card

theorem Counted.step_upgrade_iff (hc : Counted f st) {t' : Nat} {w : Weak}
    (hmem : (t', w) ∈ st.weak) {got : Option Strong} : Step st t (.upgrade w got) st' ↔
      if st.beside w = 0 then got = none ∧ st' = st
      else ∃ s, w.index = some s.index ∧ got = some s ∧
        st' = ⟨(st.heap.clone s).2, (t, s) ::ₘ st.strong, st.weak⟩ := by
  obtain ⟨h, S, W⟩ := st
  constructor
  · intro hstep
    cases hstep with
    | upgrade _ hup =>
      have hne : Sharing.beside ⟨h, S, W⟩ w ≠ 0 := by
        rw [ne_eq, ← hc.upgrade?_eq_none, hup]
        exact Option.some_ne_none _
      obtain ⟨hw, -, rfl⟩ := hc.upgrade?_eq_some_iff.1 hup
      rw [if_neg hne]
      exact ⟨_, hw, rfl, rfl⟩
    | refuse _ hup =>
      rw [if_pos (hc.upgrade?_eq_none.1 hup)]
      exact ⟨rfl, rfl⟩
  · intro hgot
    split at hgot <;> rename_i hn
    · obtain ⟨rfl, rfl⟩ := hgot
      exact .refuse hmem (hc.upgrade?_eq_none.2 hn)
    · obtain ⟨s, hw, rfl, rfl⟩ := hgot
      refine .upgrade hmem (hc.upgrade?_eq_some_iff.2 ⟨hw, ?_, rfl⟩)
      simpa [beside, hw] using hn

theorem Counted.step_unwrap_iff (hc : Counted f st) {s : Strong} (hmem : (t, s) ∈ st.strong)
    {got : Option α} : Step st t (.unwrap s got) st' ↔
      if Strong.on st.strong s.index = 1 then
        got = f s.index ∧ st' = ⟨st.heap.release s, st.strong.erase (t, s), st.weak⟩
      else got = none ∧ st' = st := by
  have hne := Strong.on_ne_zero hmem
  obtain ⟨x, hx⟩ := hc.made_of_strong hne
  obtain ⟨h, S, W⟩ := st
  constructor
  · intro hstep
    cases hstep with
    | unwrap hout =>
      obtain ⟨hmade, hn, rfl⟩ := hc.unwrap?_eq_some_iff.1 hout
      rw [if_pos hn, Multiset.erase_cons_head]
      exact ⟨hmade.symm, rfl⟩
    | keep _ hout =>
      rw [if_neg ((hc.unwrap?_eq_none_iff hne).1 hout)]
      exact ⟨rfl, rfl⟩
  · intro hgot
    split at hgot <;> rename_i hn
    · obtain ⟨rfl, rfl⟩ := hgot
      obtain ⟨S, rfl⟩ := Multiset.exists_cons_of_mem hmem
      rw [hx, Multiset.erase_cons_head]
      exact .unwrap (hc.unwrap?_eq_some_iff.2 ⟨hx, hn, rfl⟩)
    · obtain ⟨rfl, rfl⟩ := hgot
      exact .keep hmem ((hc.unwrap?_eq_none_iff hne).2 hn)

/-- **Counts, upgrades and departures** after every history of every number of
    threads. -/
theorem Records.tells_exactly (h : Records ms st) : TellsExactly ms st := by
  have hc := h.counted
  constructor
  case get => exact fun t s hmem => hc.get?_eq hmem
  case strongCount => exact fun _ w _ => hc.strongCount_eq w
  case upgrade => exact fun t t' w hmem got st' => hc.step_upgrade_iff hmem
  case forever =>
    intro t w hmem hn st' hl
    have hn' := hl.beside_eq_zero hc hmem hn
    obtain ⟨f', hc', -⟩ := hl.counted hc
    exact ⟨hn', (hc'.strongCount_eq w).trans hn', hc'.upgrade?_eq_none.2 hn'⟩
  case empty =>
    intro t got st' hstep
    cases hstep with
    | upgrade _ hup => cases hup
    | refuse => exact ⟨rfl, rfl⟩
  case unwrap => exact fun t s hmem got st' => hc.step_unwrap_iff hmem
  case leaves => exact fun m hm i x => h.leaves_iff hm
  case leaves_deed => exact fun m hm i x => h.deed_of_leaves hm
  case departures => exact h.departures_eq
  case dropped => rw [hc.dropped, Finset.card_filter]

/-- A thread takes the payload out after another has given up the handle that
    it got by an upgrade.  The next upgrade fails. -/
theorem tells_exactly_two_threads : ∃ (ms : List (Moment Nat)) (st : Sharing Nat),
    ms.map (fun m => (m.thread, m.deed)) =
      [(1, .upgrade ⟨some 0⟩ none), (0, .unwrap ⟨0⟩ (some 7)), (1, .release ⟨0⟩),
        (0, .unwrap ⟨0⟩ none), (1, .upgrade ⟨some 0⟩ (some ⟨0⟩)), (0, .downgrade ⟨0⟩),
        (0, .new 7 ⟨0⟩)] ∧
      Records ms st ∧ TellsExactly ms st := by
  have hnew := Records.start.step (t := 0) (d := .new 7 ⟨0⟩) .new
  have hdowngrade := hnew.step (t := 0) (d := .downgrade ⟨0⟩)
    (.downgrade (Multiset.mem_cons_self (0, _) _))
  have hupgrade := hdowngrade.step (t := 1) (d := .upgrade ⟨some 0⟩ (some ⟨0⟩))
    (.upgrade (Multiset.mem_cons_self (0, _) _) rfl)
  have hkeep := hupgrade.step (t := 0) (d := .unwrap ⟨0⟩ none)
    (.keep (Multiset.mem_cons_of_mem (Multiset.mem_cons_self (0, _) _)) rfl)
  have hrelease := hkeep.step (t := 1) (d := .release ⟨0⟩) .release
  have hunwrap := hrelease.step (t := 0) (d := .unwrap ⟨0⟩ (some 7)) (.unwrap rfl)
  have hrefuse := hunwrap.step (t := 1) (d := .upgrade ⟨some 0⟩ none)
    (.refuse (Multiset.mem_cons_self (0, _) _) rfl)
  exact ⟨_, _, rfl, hrefuse, hrefuse.tells_exactly⟩

end Sharing

end TickEngine
