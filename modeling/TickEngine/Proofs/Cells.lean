/-
  Cells keep the identifier of what they hold, and a new cell leaves the others
  alone.
-/
import Mathlib
import TickEngine.Storage.Cell

namespace TickEngine

/-- The handle names the identifier of what its cell holds. -/
def CellRef.Valid (r : CellRef) (cells : Cells) : Prop :=
  ∃ c, r.read cells = some c ∧ c.typeId = r.typeId

theorem CellRef.Valid.isSome_read {r : CellRef} {cells : Cells} (h : r.Valid cells) :
    (r.read cells).isSome := by
  obtain ⟨c, hc, -⟩ := h
  simp [hc]

namespace Cells

variable {cells cells' : Cells}

/-- Both have the same cells, and each cell holds the same identifier. -/
def SameTypes (cells cells' : Cells) : Prop :=
  ∀ id, (cells'.get? id).map Component.typeId = (cells.get? id).map Component.typeId

theorem SameTypes.refl (cells : Cells) : SameTypes cells cells := fun _ => rfl

theorem SameTypes.valid (h : SameTypes cells cells') {r : CellRef} (hr : r.Valid cells) :
    r.Valid cells' := by
  obtain ⟨c, hc, hid⟩ := hr
  have hsame := h r.cell
  rw [show cells.get? r.cell = some c from hc, Option.map_some, Option.map_eq_some_iff] at hsame
  obtain ⟨c', hc', hid'⟩ := hsame
  exact ⟨c', hc', hid'.trans hid⟩

/-! ## Overwriting -/

theorem read_set_self {r : CellRef} (h : (r.read cells).isSome) (c : Component) :
    r.read (cells.set r.cell c) = some c := by
  obtain ⟨c', hc'⟩ := Option.isSome_iff_exists.1 h
  rw [CellRef.read, get?_set, if_pos rfl, show cells.get? r.cell = some c' from hc']
  rfl

theorem read_set_of_ne {r : CellRef} {id : CellId} (h : id ≠ r.cell) (c : Component) :
    r.read (cells.set id c) = r.read cells := by
  rw [CellRef.read, get?_set, if_neg h]
  rfl

theorem sameTypes_set {id : CellId} {c c' : Component} (h : cells.get? id = some c)
    (hid : c'.typeId = c.typeId) : SameTypes cells (cells.set id c') := by
  intro id'
  rw [get?_set]
  split
  · rename_i heq
    rw [← heq, h]
    simp [hid]
  · rfl

theorem sameTypes_writeAs (r : CellRef) (cells : Cells) (t : ComponentType) (x : t.Data) :
    SameTypes cells (r.writeAs cells t x).2 := by
  unfold CellRef.writeAs
  split
  · rename_i h
    obtain ⟨y, hy⟩ := Option.isSome_iff_exists.1 h
    obtain ⟨c, hc, hcy⟩ := Option.bind_eq_some_iff.1 hy
    refine sameTypes_set hc ?_
    rw [Component.as?_eq_some_iff.1 hcy]
    rfl
  · exact SameTypes.refl cells

theorem sameTypes_replace {r : CellRef} (h : r.Valid cells) (c : Component) :
    SameTypes cells (r.replace cells c).2 := by
  unfold CellRef.replace
  split
  · rename_i hid
    obtain ⟨c', hc', hid'⟩ := h
    exact sameTypes_set hc' (hid.trans hid'.symm)
  · exact SameTypes.refl cells

/-! ## New cells -/

theorem read_alloc_self (cells : Cells) (c : Component) :
    (cells.alloc c).1.read (cells.alloc c).2 = some c := by
  rw [CellRef.read, get?_alloc]
  exact if_pos rfl

theorem valid_alloc (cells : Cells) (c : Component) :
    (cells.alloc c).1.Valid (cells.alloc c).2 :=
  ⟨c, read_alloc_self cells c, rfl⟩

/-- A cell that holds something is not the new one. -/
theorem cell_ne_alloc {r : CellRef} (h : (r.read cells).isSome) (c : Component) :
    r.cell ≠ (cells.alloc c).1.cell := by
  intro heq
  have hnone : r.read cells = none := by
    rw [CellRef.read, heq]
    exact Array.getElem?_eq_none (Nat.le_refl _)
  simp [hnone] at h

theorem read_alloc {r : CellRef} (h : (r.read cells).isSome) (c : Component) :
    r.read (cells.alloc c).2 = r.read cells := by
  have hne : r.cell.index ≠ cells.contents.size := fun heq =>
    cell_ne_alloc h c (congrArg CellId.mk heq)
  rw [CellRef.read, get?_alloc, if_neg hne]
  rfl

theorem valid_alloc_of_valid {r : CellRef} (h : r.Valid cells) (c : Component) :
    r.Valid (cells.alloc c).2 := by
  obtain ⟨c', hc', hid⟩ := h
  exact ⟨c', (read_alloc (by simp [hc']) c).trans hc', hid⟩

end Cells

end TickEngine
