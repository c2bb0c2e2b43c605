/-
  What is sent between processes comes back as it was.

  * `Wire.bytes_delimit`: batches, set declarations and entities read back from
    their bytes, whatever follows, and from nothing shorter.
-/
import TickEngine.Command.Wire
import TickEngine.Proofs.Shapes

namespace TickEngine

open MessagePack (Bytes)
open Schema (Shape Layout Delimits)

/-! ## Data of each kind -/

theorem Entity.ofData_toData (e : Entity) : ofData e.toData = e := rfl

theorem TypeId.ofData_toData (t : TypeId) : ofData t.toData = t := rfl

theorem Record.ofData_toData (r : Record) : ofData r.toData = r := by
  simp [ofData, toData, TypeId.ofData_toData, Function.comp_def]

theorem SetOp.ofData_toData (op : SetOp) : ofData op.toData = op := by
  cases op <;> rfl

theorem SetSpec.ofData_toData (s : SetSpec) : ofData s.toData = s := by
  simp [ofData, toData, SetOp.ofData_toData, TypeId.ofData_toData, Function.comp_def]

theorem Command.ofData_toData (c : Command) : ofData c.toData = c := by
  cases c <;>
    simp [ofData, toData, Entity.ofData_toData, TypeId.ofData_toData, Record.ofData_toData,
      Function.comp_def]

theorem Batch.ofData_toData (b : Batch) : ofData b.toData = b := by
  simp [ofData, toData, Command.ofData_toData, Function.comp_def]

/-! ## Lengths -/

/-- The payload has a length below `2 ^ 32`. -/
def Record.Short (r : Record) : Prop := r.data.length < 2 ^ 32

/-- Every list and payload of a command has a length below `2 ^ 32`. -/
def Command.Short : Command → Prop
  | spawn components => components.length < 2 ^ 32 ∧ ∀ r ∈ components, r.Short
  | insert _ r | update _ r => r.Short
  | _ => True

/-- Every list and payload of a batch has a length below `2 ^ 32`. -/
def Batch.Short (b : Batch) : Prop := b.commands.length < 2 ^ 32 ∧ ∀ c ∈ b.commands, c.Short

theorem short_identifier (x : Wire.identifier.Carrier) : Wire.identifier.Short x := by
  simp [Wire.identifier, Shape.Short]

theorem Record.Short.toData {r : Record} (h : r.Short) : Wire.record.Short r.toData := by
  simp only [Wire.record, Schema.Fields.ofList, Shape.Short]
  refine ⟨short_identifier _, ⟨?_, fun _ _ => trivial⟩, trivial⟩
  simpa [Record.toData, Record.Short] using h

theorem SetSpec.short_toData {s : SetSpec} (h : s.types.length < 2 ^ 32) :
    Wire.setSpec.Short s.toData := by
  simp only [Wire.setSpec, Schema.Fields.ofList, Shape.Short]
  refine ⟨?_, ⟨?_, fun _ _ => short_identifier _⟩, trivial⟩
  · simp only [Wire.setOp, Shape.Short]
    cases s.op <;> simp [SetOp.toData, Schema.Variants.Short]
  · simpa [SetSpec.toData] using h

theorem Command.Short.toData {c : Command} (h : c.Short) : Wire.command.Short c.toData := by
  simp only [Wire.command, Schema.Fields.ofList, Shape.Short]
  cases c with
  | spawn components =>
    refine ⟨⟨?_, ?_⟩, trivial⟩
    · simpa using h.1
    · rintro x hx
      obtain ⟨r, hr, rfl⟩ := List.mem_map.1 hx
      exact (h.2 r hr).toData
  | despawn e => exact ⟨short_identifier _, trivial⟩
  | insert e r => exact ⟨short_identifier _, Record.Short.toData h, trivial⟩
  | remove e t => exact ⟨short_identifier _, short_identifier _, trivial⟩
  | update e r => exact ⟨short_identifier _, Record.Short.toData h, trivial⟩
  | exit => trivial

theorem Batch.Short.toData {b : Batch} (h : b.Short) : Wire.batch.Short b.toData := by
  simp only [Wire.batch, Schema.Fields.ofList, Shape.Short]
  refine ⟨⟨?_, ?_⟩, trivial⟩
  · simpa [Batch.toData] using h.1
  · rintro x hx
    obtain ⟨c, hc, rfl⟩ := List.mem_map.1 hx
    exact (h.2 c hc).toData

/-! ## Bytes -/

/-- **Batches, set declarations and entities survive being written.**  Each has
    bytes that say where they end, and that read back as exactly what was
    written. -/
theorem Wire.bytes_delimit :
    (∀ (layout : Layout) (b : Batch), b.Short →
      ∃ bytes, b.encode? layout = some bytes ∧ Delimits Batch.decode? bytes b) ∧
    (∀ s : SetSpec, s.types.length < 2 ^ 32 →
      ∃ bytes, s.encode? = some bytes ∧ Delimits SetSpec.decode? bytes s) ∧
    ∀ e : Entity, ∃ bytes, e.encode? = some bytes ∧ Delimits Entity.decode? bytes e := by
  refine ⟨fun layout b hb => ?_, fun s hs => ?_, fun e => ?_⟩
  · obtain ⟨bytes, hbytes⟩ := Shape.exists_encode? (by decide) layout b.toData
    have h := (Shape.delimits (by decide) hb.toData hbytes).map Batch.ofData
    rw [b.ofData_toData] at h
    exact ⟨bytes, hbytes, h⟩
  · obtain ⟨bytes, hbytes⟩ := Shape.exists_encode? (by decide) .positional s.toData
    have h := (Shape.delimits (by decide) (SetSpec.short_toData hs) hbytes).map SetSpec.ofData
    rw [s.ofData_toData] at h
    exact ⟨bytes, hbytes, h⟩
  · obtain ⟨bytes, hbytes⟩ := Shape.exists_encode? (by decide) .positional e.toData
    have h := (Shape.delimits (by decide) (short_identifier _) hbytes).map Entity.ofData
    exact ⟨bytes, hbytes, h⟩

/-- Sixteen commands, each with 256 bytes: the headers of the lists, and those
    of the numbers 255 and `2 ^ 64 - 1`, are not the shortest ones. -/
theorem Wire.bytes_delimit_wide :
    let b : Batch := ⟨.replicate 16 (.update ⟨2 ^ 32⟩ ⟨⟨2 ^ 64 - 1⟩, .replicate 256 255⟩)⟩
    let s : SetSpec := ⟨.unite, [⟨7⟩, ⟨2 ^ 32 - 1⟩, ⟨7⟩]⟩
    b.Short ∧ s.types.length < 2 ^ 32 ∧
      (∃ bytes, b.encode? .positional = some bytes ∧ Delimits Batch.decode? bytes b) ∧
      ∃ bytes, s.encode? = some bytes ∧ Delimits SetSpec.decode? bytes s := by
  intro b s
  have hb : b.Short := by
    constructor
    · rw [List.length_replicate]
      decide
    · intro c hc
      rw [List.eq_of_mem_replicate hc, Command.Short, Record.Short, List.length_replicate]
      decide
  have hs : s.types.length < 2 ^ 32 := by decide
  exact ⟨hb, hs, Wire.bytes_delimit.1 .positional b hb, Wire.bytes_delimit.2.1 s hs⟩

end TickEngine
