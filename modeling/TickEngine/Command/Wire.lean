/-
  Entities, set declarations, records, commands and batches as bytes.

  Each of these has a shape, and passes to and from the data of that shape
  (`toData`, `ofData`), so that its bytes are those of the data.
-/
import TickEngine.Command.Batch
import TickEngine.Selection.SetSpec

namespace TickEngine

open MessagePack (Bytes)
open Schema (Shape Fields Variants Layout)

/-! ## Identifiers -/

namespace Wire

/-- The shape of a 64-bit identifier of its own kind. -/
def identifier : Shape := .newtype (.unsigned .bits64)

def record : Shape :=
  .record (.ofList [("type_id", identifier), ("data", .list (.unsigned .bits8))])

def setOp : Shape := .choice (.bare "Intersect" (.bare "Unite" .nil))

def setSpec : Shape := .record (.ofList [("op", setOp), ("types", .list identifier)])

def command : Shape :=
  .choice
    (.record "Spawn" (.ofList [("components", .list record)])
    (.record "Despawn" (.ofList [("entity", identifier)])
    (.record "Insert" (.ofList [("entity", identifier), ("component", record)])
    (.record "Remove" (.ofList [("entity", identifier), ("type_id", identifier)])
    (.record "Update" (.ofList [("entity", identifier), ("component", record)])
    (.bare "Exit" .nil))))))

def batch : Shape := .record (.ofList [("commands", .list command)])

end Wire

/-! ## Entities and type identifiers -/

def Entity.toData (e : Entity) : Wire.identifier.Carrier := e.id.toBitVec

def Entity.ofData (x : Wire.identifier.Carrier) : Entity := ⟨⟨x⟩⟩

def TypeId.toData (t : TypeId) : Wire.identifier.Carrier := t.hash.toBitVec

def TypeId.ofData (x : Wire.identifier.Carrier) : TypeId := ⟨⟨x⟩⟩

/-! ## Records -/

def Record.toData (r : Record) : Wire.record.Carrier :=
  (r.typeId.toData, r.data.map (·.toBitVec), ())

def Record.ofData (x : Wire.record.Carrier) : Record :=
  ⟨.ofData x.1, x.2.1.map UInt8.ofBitVec⟩

/-! ## Set declarations -/

def SetOp.toData : SetOp → Wire.setOp.Carrier
  | intersect => .inl ()
  | unite => .inr (.inl ())

def SetOp.ofData : Wire.setOp.Carrier → SetOp
  | .inl () => intersect
  | .inr (.inl ()) => unite

def SetSpec.toData (s : SetSpec) : Wire.setSpec.Carrier :=
  (s.op.toData, s.types.map TypeId.toData, ())

/-- The set declaration of data, as it stands. -/
def SetSpec.ofData (x : Wire.setSpec.Carrier) : SetSpec :=
  ⟨.ofData x.1, x.2.1.map TypeId.ofData⟩

/-! ## Commands -/

def Command.toData : Command → Wire.command.Carrier
  | spawn components => .inl (components.map Record.toData, ())
  | despawn e => .inr (.inl (e.toData, ()))
  | insert e r => .inr (.inr (.inl (e.toData, r.toData, ())))
  | remove e t => .inr (.inr (.inr (.inl (e.toData, t.toData, ()))))
  | update e r => .inr (.inr (.inr (.inr (.inl (e.toData, r.toData, ())))))
  | exit => .inr (.inr (.inr (.inr (.inr (.inl ())))))

def Command.ofData : Wire.command.Carrier → Command
  | .inl (rs, _) => spawn (rs.map Record.ofData)
  | .inr (.inl (e, _)) => despawn (.ofData e)
  | .inr (.inr (.inl (e, r, _))) => insert (.ofData e) (.ofData r)
  | .inr (.inr (.inr (.inl (e, t, _)))) => remove (.ofData e) (.ofData t)
  | .inr (.inr (.inr (.inr (.inl (e, r, _))))) => update (.ofData e) (.ofData r)
  | .inr (.inr (.inr (.inr (.inr (.inl _))))) => exit

def Batch.toData (b : Batch) : Wire.batch.Carrier := (b.commands.map Command.toData, ())

def Batch.ofData (x : Wire.batch.Carrier) : Batch := ⟨x.1.map Command.ofData⟩

/-! ## Bytes -/

def Entity.encode? (e : Entity) : Option Bytes :=
  Wire.identifier.encode? .positional e.toData

def SetSpec.encode? (s : SetSpec) : Option Bytes := Wire.setSpec.encode? .positional s.toData

def Batch.encode? (layout : Layout) (b : Batch) : Option Bytes :=
  Wire.batch.encode? layout b.toData

def Entity.decode? (bytes : Bytes) : Option Entity :=
  (Wire.identifier.decode? bytes).map Entity.ofData

def Record.decode? (bytes : Bytes) : Option Record :=
  (Wire.record.decode? bytes).map Record.ofData

def SetSpec.decode? (bytes : Bytes) : Option SetSpec :=
  (Wire.setSpec.decode? bytes).map SetSpec.ofData

def Command.decode? (bytes : Bytes) : Option Command :=
  (Wire.command.decode? bytes).map Command.ofData

def Batch.decode? (bytes : Bytes) : Option Batch :=
  (Wire.batch.decode? bytes).map Batch.ofData

end TickEngine
