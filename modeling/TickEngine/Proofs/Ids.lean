/-
  The source of ids accounts for every id that it handed out: each is in use or
  released, and none is both.
-/
import Mathlib
import TickEngine.Entity.Basic

namespace TickEngine

namespace EntityIds

variable {ids : EntityIds} {live : Entity → Prop}

/-- The ids handed out so far are those of the live entities and the released
    ones, which are listed once each. -/
structure Accounts (ids : EntityIds) (live : Entity → Prop) : Prop where
  nodup : ids.released.Nodup
  disjoint : ∀ id ∈ ids.released, ¬ live ⟨id⟩
  issued_iff : ∀ id, live ⟨id⟩ ∨ id ∈ ids.released ↔ 0 < id ∧ id < ids.next

theorem Accounts.congr {live' : Entity → Prop} (h : ids.Accounts live)
    (hlive : ∀ e, live' e ↔ live e) : ids.Accounts live' := by
  have heq : live' = live := funext fun e => propext (hlive e)
  rwa [heq]

theorem accounts_start : ({} : EntityIds).Accounts fun _ => False := by
  refine ⟨List.nodup_nil, by simp, ?_⟩
  intro id
  simp only [List.not_mem_nil, or_self, false_iff, not_and, UInt64.lt_iff_toNat_lt]
  intro hpos hlt
  simp at hpos hlt
  omega

/-! ## Handing out -/

/-- What is handed out is not in use. -/
theorem Accounts.not_live_allocate (h : ids.Accounts live) : ¬ live ids.allocate.1 := by
  cases hr : ids.released with
  | nil =>
    rw [allocate_of_no_released hr]
    intro hlive
    have := ((h.issued_iff ids.next).1 (.inl hlive)).2
    simp at this
  | cons id rest =>
    rw [allocate_of_released hr]
    exact h.disjoint id (by simp [hr])

theorem toNat_succ {next : UInt64} (h : next.toNat + 1 < 2 ^ 64) :
    (next + 1).toNat = next.toNat + 1 := by
  rw [UInt64.toNat_add]
  simpa using h

/-- The number of ids that a change takes for the first time: one, if it moves
    the next id on. -/
def newIds (ids ids' : EntityIds) : Nat := if ids'.next = ids.next then 0 else 1

theorem newIds_eq_zero {ids' : EntityIds} (h : ids'.next = ids.next) : ids.newIds ids' = 0 :=
  if_pos h

theorem newIds_allocate (h : ids.released = []) : ids.newIds ids.allocate.2 = 1 := by
  simp [newIds, allocate_of_no_released h]

theorem toNat_next_allocate (hroom : ids.newIds ids.allocate.2 = 1 → ids.next.toNat + 1 < 2 ^ 64) :
    ids.allocate.2.next.toNat = ids.next.toNat + ids.newIds ids.allocate.2 := by
  cases hr : ids.released with
  | nil =>
    have hnew := newIds_allocate hr
    rw [hnew, allocate_of_no_released hr]
    exact toNat_succ (hroom hnew)
  | cons id rest => simp [newIds, allocate_of_released hr]

theorem Accounts.allocate (h : ids.Accounts live)
    (hroom : ids.newIds ids.allocate.2 = 1 → ids.next.toNat + 1 < 2 ^ 64) (hpos : 0 < ids.next) :
    ids.allocate.2.Accounts fun e => live e ∨ e = ids.allocate.1 := by
  cases hr : ids.released with
  | nil =>
    rw [allocate_of_no_released hr]
    refine ⟨by simp [hr], by simp [hr], ?_⟩
    intro id
    have hissued := h.issued_iff id
    have hne : id = ids.next ↔ id.toNat = ids.next.toNat := UInt64.toNat_inj.symm
    simp only [hr, List.not_mem_nil, or_false, Entity.mk.injEq, UInt64.lt_iff_toNat_lt,
      toNat_succ (hroom (newIds_allocate hr)), UInt64.toNat_zero] at hissued hpos ⊢
    rw [hissued, hne]
    omega
  | cons id rest =>
    rw [allocate_of_released hr]
    have hnodup := h.nodup
    rw [hr, List.nodup_cons] at hnodup
    refine ⟨hnodup.2, ?_, ?_⟩
    · intro id' hid' hlive
      rcases hlive with hlive | heq
      · exact h.disjoint id' (by simp [hr, hid']) hlive
      · obtain rfl : id' = id := by simpa using heq
        exact hnodup.1 hid'
    · intro id'
      have hissued := h.issued_iff id'
      rw [hr, List.mem_cons] at hissued
      simp only [Entity.mk.injEq]
      rw [← hissued, or_assoc]

/-! ## Taking back -/

theorem next_release (ids : EntityIds) (e : Entity) : (ids.release e).next = ids.next := by
  unfold release
  split <;> rfl

/-- An id in use is taken back. -/
theorem Accounts.release_eq (h : ids.Accounts live) {e : Entity} (he : live e) :
    ids.release e = { ids with released := e.id :: ids.released } := by
  obtain ⟨hpos, hlt⟩ := (h.issued_iff e.id).1 (.inl he)
  have hvalid : e.isValid = true := by
    simp only [Entity.isValid, bne_iff_ne]
    exact (UInt64.ne_of_lt hpos).symm
  exact if_pos ⟨hvalid, hlt⟩

theorem Accounts.release (h : ids.Accounts live) {e : Entity} (he : live e) :
    (ids.release e).Accounts fun e' => live e' ∧ e' ≠ e := by
  rw [h.release_eq he]
  have hnot : e.id ∉ ids.released := fun hmem => h.disjoint e.id hmem he
  refine ⟨List.nodup_cons.2 ⟨hnot, h.nodup⟩, ?_, ?_⟩
  · intro id hid hlive
    rcases List.mem_cons.1 hid with rfl | hid
    · exact hlive.2 rfl
    · exact h.disjoint id hid hlive.1
  · intro id
    rw [← h.issued_iff id, List.mem_cons]
    by_cases heq : id = e.id
    · subst heq
      simp [he]
    · have hne : (⟨id⟩ : Entity) ≠ e := fun h => heq (congrArg Entity.id h)
      simp [heq, hne]

/-! ## Counting -/

/-- The released ids and those in use fill the ids below the next one. -/
theorem Accounts.length_add_length (h : ids.Accounts live) {es : List Entity} (hes : es.Nodup)
    (hmem : ∀ e, e ∈ es ↔ live e) :
    es.length + ids.released.length = ids.next.toNat - 1 := by
  have hinj : Function.Injective Entity.id := fun ⟨a⟩ ⟨b⟩ hab => congrArg Entity.mk hab
  have hdisjoint : (es.map Entity.id).Disjoint ids.released := by
    intro id hid hr
    obtain ⟨e, he, rfl⟩ := List.mem_map.1 hid
    exact h.disjoint e.id hr ((hmem e).1 he)
  have hnodup : ((es.map Entity.id ++ ids.released).map UInt64.toNat).Nodup := by
    refine List.Nodup.map (fun a b hab => UInt64.toNat_inj.1 hab) ?_
    exact List.Nodup.append (hes.map hinj) h.nodup hdisjoint
  have hperm : ((es.map Entity.id ++ ids.released).map UInt64.toNat).Perm
      (List.range' 1 (ids.next.toNat - 1)) := by
    refine (List.perm_ext_iff_of_nodup hnodup List.nodup_range').2 ?_
    intro n
    simp only [List.mem_map, List.mem_append, List.mem_range'_1]
    constructor
    · rintro ⟨id, hid, rfl⟩
      have hissued : 0 < id ∧ id < ids.next := by
        refine (h.issued_iff id).1 (hid.imp_left ?_)
        rintro ⟨e, he, rfl⟩
        exact (hmem e).1 he
      simp only [UInt64.lt_iff_toNat_lt, UInt64.toNat_zero] at hissued
      omega
    · intro hn
      have hlt : ids.next.toNat < UInt64.size := ids.next.toNat_lt
      have hn' : (UInt64.ofNat n).toNat = n := UInt64.toNat_ofNat_of_lt' (by omega)
      refine ⟨UInt64.ofNat n, ?_, hn'⟩
      have hissued : 0 < UInt64.ofNat n ∧ UInt64.ofNat n < ids.next := by
        simp only [UInt64.lt_iff_toNat_lt, UInt64.toNat_zero, hn']
        omega
      refine ((h.issued_iff _).2 hissued).imp_left ?_
      intro hlive
      exact ⟨⟨UInt64.ofNat n⟩, (hmem _).2 hlive, rfl⟩
  simpa using hperm.length_eq

/-- **The count of ids in use is the number of live entities.** -/
theorem Accounts.toNat_count (h : ids.Accounts live) {es : List Entity} (hes : es.Nodup)
    (hmem : ∀ e, e ∈ es ↔ live e) (hpos : 0 < ids.next) : ids.count.toNat = es.length := by
  have hsum := h.length_add_length hes hmem
  have hlt : ids.next.toNat < UInt64.size := ids.next.toNat_lt
  have hle : 1 ≤ ids.next := by
    rw [UInt64.le_iff_toNat_le]
    rw [UInt64.lt_iff_toNat_lt] at hpos
    exact hpos
  have hlen : (UInt64.ofNat ids.released.length).toNat = ids.released.length :=
    UInt64.toNat_ofNat_of_lt' (by omega)
  have hsub : (ids.next - 1).toNat = ids.next.toNat - 1 := UInt64.toNat_sub_of_le _ _ hle
  have hle' : UInt64.ofNat ids.released.length ≤ ids.next - 1 := by
    rw [UInt64.le_iff_toNat_le, hlen, hsub]
    omega
  rw [count, UInt64.toNat_sub_of_le _ _ hle', hlen, hsub]
  omega

end EntityIds

end TickEngine
