/-
  What a source of ids does in the course of its history.

  A history says which ids were handed out and which were given back, the latest
  event first.  An id is in use if the last that happened to it is that it was
  handed out, and waits if that is that it was given back.  Callers may give
  back an id in use, or one that was never handed out, which is ignored.

  * `EntityIds.Records.keeps_account`: what the source answers after every
    history with fewer than `2 ^ 64 - 1` different ids.
-/
import TickEngine.Proofs.Ids

namespace TickEngine.EntityIds

/-! ## Histories -/

/-- What can happen to an id. -/
inductive Event where
  /-- The id is handed out. -/
  | issued (e : Entity)
  /-- The id is given back. -/
  | released (e : Entity)
  deriving DecidableEq

def Event.entity : Event → Entity
  | issued e | released e => e

/-- The event is in the history, and the later events are about other ids. -/
def Last (event : Event) (es later : List Event) : Prop :=
  ∃ before, es = later ++ event :: before ∧ ∀ other ∈ later, other.entity ≠ event.entity

/-- The id was handed out and not given back since. -/
def InUse (es : List Event) (e : Entity) : Prop := ∃ later, Last (.issued e) es later

/-- The id was handed out once, and was given back before the later events, of
    which none is about it. -/
def Waits (es : List Event) (e : Entity) (later : List Event) : Prop :=
  .issued e ∈ es ∧ Last (.released e) es later

/-- The ids that were ever handed out. -/
def everIssued (es : List Event) : Finset Entity :=
  ((es.filter fun event => event = .issued event.entity).map Event.entity).toFinset

/-- The source of ids after a history in which only ids in use are given back,
    or ids that were never handed out. -/
inductive Records : List Event → EntityIds → Prop
  | start : Records [] {}
  | allocate {es : List Event} {ids : EntityIds} : Records es ids →
      Records (.issued ids.allocate.1 :: es) ids.allocate.2
  | release {es : List Event} {ids : EntityIds} (e : Entity) : Records es ids →
      InUse es e ∨ .issued e ∉ es → Records (.released e :: es) (ids.release e)

variable {es later : List Event} {event event' : Event} {e e' : Entity} {ids : EntityIds}

theorem not_last_nil : ¬ Last event [] later := by
  rintro ⟨before, heq, -⟩
  simp at heq

theorem last_cons : Last event (event' :: es) later ↔
    event' = event ∧ later = [] ∨
      event'.entity ≠ event.entity ∧ ∃ rest, later = event' :: rest ∧ Last event es rest := by
  constructor
  · rintro ⟨before, heq, hothers⟩
    cases later with
    | nil => exact .inl ⟨(List.cons.inj heq).1, rfl⟩
    | cons other rest =>
      obtain ⟨rfl, hrest⟩ := List.cons.inj heq
      rw [List.forall_mem_cons] at hothers
      exact .inr ⟨hothers.1, rest, rfl, before, hrest, hothers.2⟩
  · rintro (⟨rfl, rfl⟩ | ⟨hne, rest, rfl, before, rfl, hothers⟩)
    · exact ⟨es, rfl, by simp⟩
    · exact ⟨before, rfl, List.forall_mem_cons.2 ⟨hne, hothers⟩⟩

theorem Last.unique {later' : List Event} (h : Last event es later) (h' : Last event es later') :
    later = later' := by
  induction es generalizing later later' with
  | nil => exact absurd h not_last_nil
  | cons first es ih =>
    obtain ⟨rfl, rfl⟩ | ⟨hne, rest, rfl, hrest⟩ := last_cons.1 h
    · obtain ⟨-, rfl⟩ | ⟨hne, -⟩ := last_cons.1 h'
      · rfl
      · exact absurd rfl hne
    · obtain ⟨rfl, -⟩ | ⟨-, rest', rfl, hrest'⟩ := last_cons.1 h'
      · exact absurd rfl hne
      · rw [ih hrest hrest']

theorem Last.mem (h : Last event es later) : event ∈ es := by
  obtain ⟨before, rfl, -⟩ := h
  simp

theorem InUse.mem (h : InUse es e) : .issued e ∈ es := h.elim fun _ hlast => hlast.mem

theorem not_inUse_nil : ¬ InUse [] e := fun h => h.elim fun _ hlast => not_last_nil hlast

theorem not_waits_nil : ¬ Waits [] e later := fun h => not_last_nil h.2

theorem inUse_issued : InUse (.issued e' :: es) e ↔ InUse es e ∨ e = e' := by
  simp only [InUse, last_cons, Event.issued.injEq, Event.entity]
  constructor
  · rintro ⟨later, ⟨rfl, -⟩ | ⟨-, rest, -, hrest⟩⟩
    · exact .inr rfl
    · exact .inl ⟨rest, hrest⟩
  · intro h
    by_cases he : e' = e
    · exact ⟨[], .inl ⟨he, rfl⟩⟩
    · obtain ⟨rest, hrest⟩ := h.resolve_right (Ne.symm he)
      exact ⟨_, .inr ⟨he, rest, rfl, hrest⟩⟩

theorem inUse_released : InUse (.released e' :: es) e ↔ InUse es e ∧ e ≠ e' := by
  simp only [InUse, last_cons, reduceCtorEq, false_and, false_or, Event.entity]
  constructor
  · rintro ⟨later, hne, rest, -, hrest⟩
    exact ⟨⟨rest, hrest⟩, hne.symm⟩
  · rintro ⟨⟨rest, hrest⟩, hne⟩
    exact ⟨_, hne.symm, rest, rfl, hrest⟩

theorem waits_issued : Waits (.issued e' :: es) e later ↔
    e' ≠ e ∧ ∃ rest, later = .issued e' :: rest ∧ Waits es e rest := by
  simp only [Waits, last_cons, reduceCtorEq, false_and, false_or, Event.entity, List.mem_cons,
    Event.issued.injEq]
  constructor
  · rintro ⟨hissued, hne, rest, rfl, hrest⟩
    exact ⟨hne, rest, rfl, hissued.resolve_left (Ne.symm hne), hrest⟩
  · rintro ⟨hne, rest, rfl, hissued, hrest⟩
    exact ⟨.inr hissued, hne, rest, rfl, hrest⟩

theorem waits_released : Waits (.released e' :: es) e later ↔
    (e' = e ∧ .issued e ∈ es ∧ later = []) ∨
      e' ≠ e ∧ ∃ rest, later = .released e' :: rest ∧ Waits es e rest := by
  simp only [Waits, last_cons, Event.entity, List.mem_cons, Event.released.injEq, reduceCtorEq,
    false_or]
  constructor
  · rintro ⟨hissued, ⟨rfl, rfl⟩ | ⟨hne, rest, rfl, hrest⟩⟩
    · exact .inl ⟨rfl, hissued, rfl⟩
    · exact .inr ⟨hne, rest, rfl, hissued, hrest⟩
  · rintro (⟨rfl, hissued, rfl⟩ | ⟨hne, rest, rfl, hissued, hrest⟩)
    · exact ⟨hissued, .inl ⟨rfl, rfl⟩⟩
    · exact ⟨hissued, .inr ⟨hne, rest, rfl, hrest⟩⟩

theorem mem_everIssued : e ∈ everIssued es ↔ .issued e ∈ es := by
  simp only [everIssued, List.mem_toFinset, List.mem_map, List.mem_filter, decide_eq_true_eq]
  constructor
  · rintro ⟨event, ⟨hmem, heq⟩, rfl⟩
    rwa [← heq]
  · intro hmem
    exact ⟨_, ⟨hmem, rfl⟩, rfl⟩

theorem everIssued_issued : everIssued (.issued e :: es) = insert e (everIssued es) := by
  ext e'
  simp [mem_everIssued]

theorem everIssued_released : everIssued (.released e :: es) = everIssued es := by
  ext e'
  simp [mem_everIssued]

/-! ## What the source keeps -/

/-- The source knows which ids were handed out, and has those that wait in the
    order in which they were given back. -/
structure Tracks (es : List Event) (ids : EntityIds) : Prop where
  accounts : ids.Accounts (InUse es)
  pos : 0 < ids.next
  issued_iff : ∀ e, .issued e ∈ es ↔ 0 < e.id ∧ e.id < ids.next
  card : (everIssued es).card + 1 = ids.next.toNat
  released_iff : ∀ id, id ∈ ids.released ↔ ∃ later, Waits es ⟨id⟩ later
  ordered : ids.released.Pairwise fun a b =>
    ∀ la lb, Waits es ⟨a⟩ la → Waits es ⟨b⟩ lb → la.length < lb.length

theorem tracks_start : Tracks [] {} := by
  refine ⟨accounts_start.congr fun e => ?_, by decide, fun e => ?_, rfl, fun id => ?_, .nil⟩
  · simp [not_inUse_nil]
  · have hissued := accounts_start.issued_iff e.id
    simpa using hissued
  · simp [not_waits_nil]

/-- The orders of two lists of later events are those of what remains of them
    without the latest event. -/
theorem ordered_cons {xs : List UInt64}
    (hwaits : ∀ id ∈ xs, ∀ later, Waits (event :: es) ⟨id⟩ later →
      ∃ rest, later = event :: rest ∧ Waits es ⟨id⟩ rest)
    (h : xs.Pairwise fun a b =>
      ∀ la lb, Waits es ⟨a⟩ la → Waits es ⟨b⟩ lb → la.length < lb.length) :
    xs.Pairwise fun a b => ∀ la lb, Waits (event :: es) ⟨a⟩ la → Waits (event :: es) ⟨b⟩ lb →
      la.length < lb.length := by
  refine h.imp_of_mem fun {a b} ha hb hab la lb hla hlb => ?_
  obtain ⟨ra, rfl, hra⟩ := hwaits a ha la hla
  obtain ⟨rb, rfl, hrb⟩ := hwaits b hb lb hlb
  exact Nat.succ_lt_succ (hab ra rb hra hrb)

/-- A new id makes room for itself among the words. -/
theorem Tracks.toNat_next (h : Tracks es ids)
    (hroom : (everIssued (.issued ids.allocate.1 :: es)).card < 2 ^ 64 - 1) :
    ids.newIds ids.allocate.2 = 1 → ids.next.toNat + 1 < 2 ^ 64 := by
  intro hnew
  have hcard := h.card
  cases hr : ids.released with
  | cons id rest => simp [newIds, allocate_of_released hr] at hnew
  | nil =>
    have hnot : (⟨ids.next⟩ : Entity) ∉ everIssued es := by
      rw [mem_everIssued, h.issued_iff]
      exact fun hlt => UInt64.lt_irrefl _ hlt.2
    rw [allocate_of_no_released hr, everIssued_issued, Finset.card_insert_of_notMem hnot] at hroom
    omega

/-- A new id, when none waits. -/
theorem Tracks.allocate_new (h : Tracks es ids) (hr : ids.released = [])
    (hroom : (everIssued (.issued ids.allocate.1 :: es)).card < 2 ^ 64 - 1) :
    Tracks (.issued ids.allocate.1 :: es) ids.allocate.2 := by
  have hnext := toNat_next_allocate (h.toNat_next hroom)
  have haccounts := (h.accounts.allocate (h.toNat_next hroom) h.pos).congr fun e =>
    inUse_issued (e := e)
  rw [newIds_allocate hr] at hnext
  rw [allocate_of_no_released hr] at haccounts hnext ⊢
  have hnot : (⟨ids.next⟩ : Entity) ∉ everIssued es := by
    rw [mem_everIssued, h.issued_iff]
    exact fun hlt => UInt64.lt_irrefl _ hlt.2
  have hnone : ∀ id later, ¬ Waits es ⟨id⟩ later := by
    intro id later hwaits
    have hmem := (h.released_iff id).2 ⟨later, hwaits⟩
    rw [hr] at hmem
    exact List.not_mem_nil hmem
  refine ⟨haccounts, ?_, fun e => ?_, ?_, fun id => ?_, by simp [hr]⟩
  · rw [UInt64.lt_iff_toNat_lt, hnext]
    exact Nat.succ_pos _
  · have hissued := h.issued_iff e
    have hpos := h.pos
    have heq : e = ⟨ids.next⟩ ↔ e.id.toNat = ids.next.toNat := by
      rw [UInt64.toNat_inj]
      exact ⟨congrArg Entity.id, fun h => congrArg Entity.mk h⟩
    simp only [List.mem_cons, Event.issued.injEq, hissued, heq, UInt64.lt_iff_toNat_lt, hnext,
      UInt64.toNat_zero] at hpos ⊢
    omega
  · rw [everIssued_issued, Finset.card_insert_of_notMem hnot, hnext, h.card]
  · simp [hr, waits_issued, hnone]

/-- The id that has waited for the shortest time is handed out again. -/
theorem Tracks.allocate_again (h : Tracks es ids) {id : UInt64} {rest : List UInt64}
    (hr : ids.released = id :: rest)
    (hroom : (everIssued (.issued ids.allocate.1 :: es)).card < 2 ^ 64 - 1) :
    Tracks (.issued ids.allocate.1 :: es) ids.allocate.2 := by
  have haccounts := (h.accounts.allocate (h.toNat_next hroom) h.pos).congr fun e =>
    inUse_issued (e := e)
  rw [allocate_of_released hr] at haccounts ⊢
  obtain ⟨hid, hnodup⟩ := List.nodup_cons.1 (hr ▸ h.accounts.nodup)
  obtain ⟨-, hordered⟩ := List.pairwise_cons.1 (hr ▸ h.ordered)
  have hissued : .issued ⟨id⟩ ∈ es := by
    obtain ⟨later, hwaits⟩ := (h.released_iff id).1 (by simp [hr])
    exact hwaits.1
  have hwaits : ∀ id' later, Waits (.issued ⟨id⟩ :: es) ⟨id'⟩ later → id' ≠ id ∧
      ∃ rest, later = .issued ⟨id⟩ :: rest ∧ Waits es ⟨id'⟩ rest := by
    intro id' later hlater
    obtain ⟨hne, hrest⟩ := waits_issued.1 hlater
    exact ⟨fun heq => hne (congrArg Entity.mk heq.symm), hrest⟩
  refine ⟨haccounts, h.pos, fun e => ?_, ?_, fun id' => ?_, ?_⟩
  · rw [List.mem_cons, Event.issued.injEq, ← h.issued_iff e]
    exact or_iff_right_of_imp fun heq => heq ▸ hissued
  · rw [everIssued_issued, Finset.insert_eq_of_mem (mem_everIssued.2 hissued), h.card]
  · have hreleased := h.released_iff id'
    rw [hr, List.mem_cons] at hreleased
    constructor
    · intro hmem
      obtain ⟨later, hlater⟩ := hreleased.1 (.inr hmem)
      have hne : (⟨id⟩ : Entity) ≠ ⟨id'⟩ := by
        rintro ⟨⟩
        exact hid hmem
      exact ⟨_, waits_issued.2 ⟨hne, later, rfl, hlater⟩⟩
    · rintro ⟨later, hlater⟩
      obtain ⟨hne, rest', -, hrest⟩ := hwaits id' later hlater
      exact (hreleased.2 ⟨rest', hrest⟩).resolve_left hne
  · exact ordered_cons (fun id' _ later hlater => (hwaits id' later hlater).2) hordered

theorem Tracks.allocate (h : Tracks es ids)
    (hroom : (everIssued (.issued ids.allocate.1 :: es)).card < 2 ^ 64 - 1) :
    Tracks (.issued ids.allocate.1 :: es) ids.allocate.2 := by
  cases hr : ids.released with
  | nil => exact h.allocate_new hr hroom
  | cons id rest => exact h.allocate_again hr hroom

theorem Tracks.release_used (h : Tracks es ids) (huse : InUse es e) :
    Tracks (.released e :: es) (ids.release e) := by
  have haccounts := (h.accounts.release huse).congr fun e' => inUse_released (e := e')
  rw [h.accounts.release_eq huse] at haccounts ⊢
  have hne : ∀ id ∈ ids.released, e ≠ ⟨id⟩ := by
    rintro id hid rfl
    exact h.accounts.disjoint id hid huse
  refine ⟨haccounts, h.pos, fun e' => by simp [h.issued_iff], ?_, fun id => ?_,
    List.pairwise_cons.2 ⟨?_, ?_⟩⟩
  · rw [everIssued_released, h.card]
  · rw [List.mem_cons]
    constructor
    · rintro (rfl | hid)
      · exact ⟨[], waits_released.2 (.inl ⟨rfl, huse.mem, rfl⟩)⟩
      · obtain ⟨later, hlater⟩ := (h.released_iff id).1 hid
        exact ⟨_, waits_released.2 (.inr ⟨hne id hid, later, rfl, hlater⟩)⟩
    · rintro ⟨later, hlater⟩
      obtain ⟨rfl, -⟩ | ⟨-, rest, -, hrest⟩ := waits_released.1 hlater
      · exact .inl rfl
      · exact .inr ((h.released_iff id).2 ⟨rest, hrest⟩)
  · -- no event is later than the new one
    intro id hid la lb hla hlb
    obtain ⟨-, -, rfl⟩ | ⟨hsame, -⟩ := waits_released.1 hla
    · obtain ⟨rfl, -⟩ | ⟨-, rest, rfl, -⟩ := waits_released.1 hlb
      · exact absurd rfl (hne id hid)
      · exact Nat.succ_pos _
    · exact absurd rfl hsame
  · refine ordered_cons (fun id hid later hlater => ?_) h.ordered
    obtain ⟨rfl, -⟩ | ⟨-, hrest⟩ := waits_released.1 hlater
    · exact absurd rfl (hne id hid)
    · exact hrest

theorem waits_released_of_never (hnever : .issued e ∉ es) :
    Waits (.released e :: es) e' later ↔
      ∃ rest, later = .released e :: rest ∧ Waits es e' rest := by
  rw [waits_released]
  constructor
  · rintro (⟨rfl, hmem, -⟩ | ⟨-, hrest⟩)
    · exact absurd hmem hnever
    · exact hrest
  · rintro ⟨rest, rfl, hrest⟩
    refine .inr ⟨?_, rest, rfl, hrest⟩
    rintro rfl
    exact hnever hrest.1

/-- An id that was never handed out is ignored. -/
theorem Tracks.release_foreign (h : Tracks es ids) (hnever : .issued e ∉ es) :
    Tracks (.released e :: es) (ids.release e) := by
  have hsame : ids.release e = ids := by
    refine if_neg fun hvalid => hnever ((h.issued_iff e).2 ⟨?_, hvalid.2⟩)
    exact UInt64.pos_iff_ne_zero.2 (by simpa [Entity.isValid] using hvalid.1)
  rw [hsame]
  refine ⟨h.accounts.congr fun e' => ?_, h.pos, fun e' => by simp [h.issued_iff], ?_,
    fun id => ?_, ?_⟩
  · rw [inUse_released, and_iff_left_iff_imp]
    rintro huse rfl
    exact hnever huse.mem
  · rw [everIssued_released, h.card]
  · simp only [h.released_iff, waits_released_of_never hnever]
    constructor
    · rintro ⟨later, hlater⟩
      exact ⟨_, later, rfl, hlater⟩
    · rintro ⟨-, rest, -, hrest⟩
      exact ⟨rest, hrest⟩
  · exact ordered_cons (fun id _ later => (waits_released_of_never hnever).1) h.ordered

theorem Tracks.release (h : Tracks es ids) (he : InUse es e ∨ .issued e ∉ es) :
    Tracks (.released e :: es) (ids.release e) :=
  he.elim h.release_used h.release_foreign

theorem Records.tracks (h : Records es ids) (hfew : (everIssued es).card < 2 ^ 64 - 1) :
    Tracks es ids := by
  induction h with
  | start => exact tracks_start
  | allocate _ ih =>
    have hless := hfew
    rw [everIssued_issued] at hless
    exact (ih (Nat.lt_of_le_of_lt (Finset.card_le_card (Finset.subset_insert _ _)) hless)).allocate
      hfew
  | release e _ he ih =>
    rw [everIssued_released] at hfew
    exact (ih hfew).release he

/-! ## What the source answers -/

/-- The answers of the source after a history. -/
structure KeepsAccount (es : List Event) (ids : EntityIds) : Prop where
  /-- What is handed out next is an entity, and not one in use. -/
  allocate_valid : ids.allocate.1 ≠ Entity.invalid
  allocate_unused : ¬ InUse es ids.allocate.1
  /-- It is the id that was given back last of those that wait, or if none
      waits, the one after all that were ever handed out. -/
  allocate_latest :
    (∃ later, Waits es ids.allocate.1 later ∧
      ∀ e' later', Waits es e' later' → later.length ≤ later'.length) ∨
    (∀ e' later', ¬ Waits es e' later') ∧
      ids.allocate.1.id.toNat = ids.count.toNat + ids.freeCount + 1
  /-- The counts are those of the ids in use, and of the others that were ever
      handed out. -/
  count_eq : ∃ us : Finset Entity, (∀ e, e ∈ us ↔ InUse es e) ∧ ids.count.toNat = us.card
  freeCount_eq : ∃ ws : Finset Entity,
    (∀ e, e ∈ ws ↔ .issued e ∈ es ∧ ¬ InUse es e) ∧ ids.freeCount = ws.card
  /-- The ids ever handed out are the numbers from one to both counts
      together. -/
  issued_iff : ∀ e, .issued e ∈ es ↔
    1 ≤ e.id.toNat ∧ e.id.toNat ≤ ids.count.toNat + ids.freeCount
  /-- The difference of which the count is taken is one of natural numbers. -/
  next_eq : ids.next.toNat = ids.count.toNat + ids.freeCount + 1

theorem Tracks.mem_released_iff (h : Tracks es ids) (id : UInt64) :
    id ∈ ids.released ↔ .issued ⟨id⟩ ∈ es ∧ ¬ InUse es ⟨id⟩ := by
  rw [h.issued_iff, ← h.accounts.issued_iff]
  constructor
  · exact fun hid => ⟨.inr hid, h.accounts.disjoint id hid⟩
  · rintro ⟨hissued, hnot⟩
    exact hissued.resolve_left hnot

theorem Tracks.count_eq (h : Tracks es ids) :
    ∃ us : Finset Entity, (∀ e, e ∈ us ↔ InUse es e) ∧ ids.count.toNat = us.card ∧
      us.card + ids.freeCount = ids.next.toNat - 1 := by
  classical
  have hmem : ∀ e, e ∈ (everIssued es).filter (InUse es) ↔ InUse es e := by
    intro e
    rw [Finset.mem_filter, mem_everIssued]
    exact and_iff_right_of_imp InUse.mem
  have hlist : ∀ e, e ∈ ((everIssued es).filter (InUse es)).toList ↔ InUse es e := by
    intro e
    rw [Finset.mem_toList, hmem]
  refine ⟨_, hmem, ?_, ?_⟩
  · rw [h.accounts.toNat_count (Finset.nodup_toList _) hlist h.pos, Finset.length_toList]
  · have hsum := h.accounts.length_add_length (Finset.nodup_toList _) hlist
    rwa [Finset.length_toList] at hsum

theorem Tracks.freeCount_eq (h : Tracks es ids) : ∃ ws : Finset Entity,
    (∀ e, e ∈ ws ↔ .issued e ∈ es ∧ ¬ InUse es e) ∧ ids.freeCount = ws.card := by
  have hinj : Function.Injective Entity.mk := fun a b hab => congrArg Entity.id hab
  refine ⟨(ids.released.map Entity.mk).toFinset, fun e => ?_, ?_⟩
  · rw [List.mem_toFinset, ← h.mem_released_iff e.id]
    exact List.mem_map_of_injective hinj
  · rw [List.toFinset_card_of_nodup (h.accounts.nodup.map hinj), List.length_map, freeCount]

theorem Tracks.keepsAccount (h : Tracks es ids) : KeepsAccount es ids := by
  obtain ⟨us, hus, hcount, hsum⟩ := h.count_eq
  have hpos := h.pos
  rw [UInt64.lt_iff_toNat_lt, UInt64.toNat_zero] at hpos
  have hnext : ids.next.toNat = ids.count.toNat + ids.freeCount + 1 := by omega
  constructor
  case allocate_valid =>
    intro hinvalid
    cases hr : ids.released with
    | nil =>
      rw [allocate_of_no_released hr] at hinvalid
      have hzero : ids.next = 0 := congrArg Entity.id hinvalid
      simp [hzero] at hpos
    | cons id rest =>
      rw [allocate_of_released hr] at hinvalid
      have hzero : id = 0 := congrArg Entity.id hinvalid
      have hissued := ((h.mem_released_iff id).1 (by simp [hr])).1
      exact UInt64.ne_of_lt ((h.issued_iff _).1 hissued).1 hzero.symm
  case allocate_unused => exact h.accounts.not_live_allocate
  case allocate_latest =>
    cases hr : ids.released with
    | nil =>
      right
      rw [allocate_of_no_released hr]
      refine ⟨fun e later hwaits => ?_, hnext⟩
      have hmem := (h.released_iff e.id).2 ⟨later, hwaits⟩
      rw [hr] at hmem
      exact List.not_mem_nil hmem
    | cons id rest =>
      left
      rw [allocate_of_released hr]
      obtain ⟨hfirst, -⟩ := List.pairwise_cons.1 (hr ▸ h.ordered)
      obtain ⟨later, hlater⟩ := (h.released_iff id).1 (by simp [hr])
      refine ⟨later, hlater, fun e later' hlater' => ?_⟩
      have hmem := (h.released_iff e.id).2 ⟨later', hlater'⟩
      rw [hr] at hmem
      obtain rfl | hmem := List.mem_cons.1 hmem
      · exact (hlater.2.unique hlater'.2).symm ▸ le_rfl
      · exact (hfirst _ hmem later later' hlater hlater').le
  case count_eq => exact ⟨us, hus, hcount⟩
  case freeCount_eq => exact h.freeCount_eq
  case issued_iff =>
    intro e
    rw [h.issued_iff, UInt64.lt_iff_toNat_lt, UInt64.lt_iff_toNat_lt, UInt64.toNat_zero, hnext]
    omega
  case next_eq => exact hnext

/-- **An id is handed out again only when it is out of use, and the one that was
    given back last comes first.**  The counts of a source are those of the ids
    in use and of the others, as long as there are words for new ids. -/
theorem Records.keeps_account (h : Records es ids) (hfew : (everIssued es).card < 2 ^ 64 - 1) :
    KeepsAccount es ids :=
  (h.tracks hfew).keepsAccount

/-- Two ids are given back in turn, and one that was never handed out in
    between; then one of the two is handed out again. -/
theorem keeps_account_recycled :
    let es : List Event := [.issued ⟨2⟩, .released ⟨2⟩, .released ⟨99⟩, .released ⟨1⟩,
      .issued ⟨2⟩, .issued ⟨1⟩]
    let ids : EntityIds := { next := 3, released := [1] }
    Records es ids ∧ (everIssued es).card < 2 ^ 64 - 1 ∧ KeepsAccount es ids ∧
      ids.allocate.1 = ⟨1⟩ ∧ ids.count = 1 ∧ ids.freeCount = 1 := by
  intro es ids
  have htwo : Records [.issued ⟨2⟩, .issued ⟨1⟩] { next := 3 } := .allocate (.allocate .start)
  have hfirst := htwo.release ⟨1⟩ (.inl ⟨[.issued ⟨2⟩], [], rfl, by simp [Event.entity]⟩)
  have hforeign := hfirst.release ⟨99⟩ (.inr (by simp))
  have hsecond := hforeign.release ⟨2⟩ (.inl ⟨[.released ⟨99⟩, .released ⟨1⟩], [.issued ⟨1⟩], rfl,
    by simp [Event.entity]⟩)
  have h : Records es ids := hsecond.allocate
  have hfew : (everIssued es).card < 2 ^ 64 - 1 := by decide +kernel
  exact ⟨h, hfew, h.keeps_account hfew, rfl, by decide, rfl⟩

end TickEngine.EntityIds
