/-
  What a declared set says.

  Declaring types one by one, in any order and with repeats, gives one form for
  each collection of types: an ascending list (`SetSpec.Lists`).  Whether an
  entity qualifies is decided by counting, and says the same as the words *all*
  and *some* (`SetSpec.Accepts`), also for lists that are in no order.

  * `SetSpec.canonical_meaning` puts both together.
-/
import TickEngine.Proofs.Identifiers
import TickEngine.Selection.SetSpec

namespace TickEngine.SetSpec

variable {s : SetSpec} {op : SetOp} {types : List TypeId} {t : TypeId}

/-! ## The form of a declaration -/

/-- The declaration has the types of a list, ascending. -/
structure Lists (s : SetSpec) (op : SetOp) (types : List TypeId) : Prop where
  op : s.op = op
  ascending : Ascending s.types
  mem_iff : ∀ t, t ∈ s.types ↔ t ∈ types

theorem lists_new (op : SetOp) : (new op).Lists op [] := ⟨rfl, .nil, fun _ => Iff.rfl⟩

theorem Lists.declare (h : s.Lists op types) (t : TypeId) :
    (s.declare t).Lists op (types ++ [t]) := by
  refine ⟨h.op, TypeId.ascending_place t h.ascending, fun u => ?_⟩
  rw [SetSpec.declare, TypeId.mem_place h.ascending, h.mem_iff, List.mem_append,
    List.mem_singleton, or_comm]

theorem Lists.foldl_declare (h : s.Lists op types) (more : List TypeId) :
    (more.foldl SetSpec.declare s).Lists op (types ++ more) := by
  induction more generalizing s types with
  | nil => rwa [List.append_nil]
  | cons t rest ih =>
    rw [List.append_cons]
    exact ih (h.declare t)

theorem lists_intersect (types : List TypeId) : (intersect types).Lists .intersect types :=
  (lists_new .intersect).foldl_declare types

theorem lists_unite (types : List TypeId) : (unite types).Lists .unite types :=
  (lists_new .unite).foldl_declare types

/-- Declarations of lists are equal just if the lists have the same members. -/
theorem Lists.eq_iff {s' : SetSpec} {types' : List TypeId} (h : s.Lists op types)
    (h' : s'.Lists op types') : s = s' ↔ ∀ t, t ∈ types ↔ t ∈ types' := by
  constructor
  · rintro rfl t
    rw [← h.mem_iff, h'.mem_iff]
  · intro hmem
    have htypes : s.types = s'.types := by
      refine h.ascending.eq_of_mem_iff h'.ascending fun t => ?_
      rw [h.mem_iff, hmem, h'.mem_iff]
    have hop : s.op = s'.op := h.op.trans h'.op.symm
    obtain ⟨_, _⟩ := s
    obtain ⟨_, _⟩ := s'
    exact congrArg₂ SetSpec.mk hop htypes

/-- In a declaration of a list the types of the list are declared, and nothing
    else changes it. -/
structure Canonical (s : SetSpec) (op : SetOp) (types : List TypeId) : Prop
    extends s.Lists op types where
  declares_iff : ∀ t, s.declares t = true ↔ t ∈ types
  declare_eq_iff : ∀ t, s.declare t = s ↔ t ∈ types

theorem Lists.canonical (h : s.Lists op types) : s.Canonical op types := by
  refine ⟨h, fun t => ?_, fun t => ?_⟩
  · rw [declares, Spot.isFound_search h.ascending, h.mem_iff]
  · rw [(h.declare t).eq_iff h]
    constructor
    · intro hmem
      exact (hmem t).1 (by simp)
    · rintro ht u
      simp only [List.mem_append, List.mem_singleton, or_iff_left_iff_imp]
      rintro rfl
      exact ht

/-! ## The meaning of a declaration -/

/-- What a declaration asks of the types that an entity owns. -/
def Accepts (s : SetSpec) (owned : List TypeId) : Prop :=
  match s.op with
  | .intersect => s.types ≠ [] ∧ ∀ t ∈ s.types, t ∈ owned
  | .unite => ∃ t ∈ s.types, t ∈ owned

/-- Counting tells whether all are owned, or some: a type that is listed again
    counts again on both sides. -/
theorem admits_iff (s : SetSpec) (owned : List TypeId) :
    s.admits owned = true ↔ s.Accepts owned := by
  rw [admits, Accepts]
  cases s.op with
  | intersect =>
    simp only [SetOp.admits, Bool.and_eq_true, decide_eq_true_eq, beq_iff_eq,
      List.length_pos_iff, List.countP_eq_length, List.contains_iff_mem]
  | unite =>
    simp only [SetOp.admits, decide_eq_true_eq, List.countP_pos_iff, List.contains_iff_mem]

/-- **Declarations are canonical and mean what they say.**  A declared list is
    kept ascending, whatever its order and repeats, and only its members tell
    declarations apart.  Every declaration, also one that is not in this form,
    admits the owners of all its types, of which there are some, or the owners
    of some of them. -/
theorem canonical_meaning :
    (∀ types, (intersect types).Canonical .intersect types ∧
      (unite types).Canonical .unite types) ∧
    (∀ types types', (intersect types = intersect types' ↔ ∀ t, t ∈ types ↔ t ∈ types') ∧
      (unite types = unite types' ↔ ∀ t, t ∈ types ↔ t ∈ types')) ∧
    ∀ s owned, admits s owned = true ↔ s.Accepts owned := by
  refine ⟨fun types => ⟨(lists_intersect types).canonical, (lists_unite types).canonical⟩,
    fun types types' => ⟨?_, ?_⟩, admits_iff⟩
  · exact (lists_intersect types).eq_iff (lists_intersect types')
  · exact (lists_unite types).eq_iff (lists_unite types')

/-- A declaration that lists a type twice, and out of order. -/
example : (⟨.intersect, [⟨2⟩, ⟨1⟩, ⟨2⟩]⟩ : SetSpec).admits [⟨1⟩, ⟨2⟩, ⟨1⟩] = true := by decide

end TickEngine.SetSpec
