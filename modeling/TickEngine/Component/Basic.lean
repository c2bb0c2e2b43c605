/-
  Component types, components, and their records.

  A `ComponentType` is told from others by its tag, while its identifier
  depends on its name alone, so two types may share an identifier.  A
  `Component` is a value together with its type; `Component.as?` gives the
  value to a reader that asks for exactly that type.  A `Record` is a component
  as bytes, under the type's identifier.

  * `Component.record` and `ComponentType.ofRecord` write and read records.
-/
import TickEngine.Component.Error
import TickEngine.Schema.Coding

namespace TickEngine

open MessagePack (Bytes)
open Schema (Shape)

/-! ## Types -/

/-- A component type. -/
structure ComponentType where
  /-- What tells the type from every other. -/
  tag : String
  /-- The name whose hash identifies the type in storage. -/
  name : String
  /-- The shape of the type's values. -/
  shape : Shape
  deriving DecidableEq, Repr

namespace ComponentType

/-- The identifier of a type. -/
def id (t : ComponentType) : TypeId := .ofName t.name

/-- The values of a type. -/
@[reducible] def Data (t : ComponentType) : Type := t.shape.Carrier

end ComponentType

/-! ## Components -/

/-- A value with its component type. -/
structure Component where
  type : ComponentType
  value : type.Data

namespace Component

/-- The identifier of the component's type. -/
def typeId (c : Component) : TypeId := c.type.id

/-- The value of a component, for a reader of the type `t`. -/
def as? (c : Component) (t : ComponentType) : Option t.Data :=
  if h : c.type = t then some (h ▸ c.value) else none

@[simp] theorem as?_mk (t : ComponentType) (x : t.Data) : (mk t x).as? t = some x := by
  simp [as?]

theorem as?_eq_some_iff {c : Component} {t : ComponentType} {x : t.Data} :
    c.as? t = some x ↔ c = ⟨t, x⟩ := by
  obtain ⟨type, value⟩ := c
  unfold as?
  split
  · rename_i h
    cases h
    simp
  · rename_i h
    simp only [reduceCtorEq, false_iff, Component.mk.injEq, not_and]
    exact fun h' => absurd h' h

instance : DecidableEq Component := fun a b =>
  match h : b.as? a.type with
  | none => isFalse fun hab => by
    subst hab
    simp [as?] at h
  | some x =>
    if hx : a.value = x then
      isTrue (by rw [as?_eq_some_iff.1 h, ← hx])
    else
      isFalse fun hab => by
        subst hab
        simp only [as?, dite_true, Option.some.injEq] at h
        exact hx h

end Component

/-! ## Records -/

/-- A component as bytes. -/
structure Record where
  /-- The identifier of the type that the bytes are of. -/
  typeId : TypeId
  /-- The MessagePack form of the value. -/
  data : Bytes
  deriving DecidableEq, Repr, Inhabited

/-- Writes a component. -/
def Component.record (c : Component) : Except ComponentError Record :=
  match c.type.shape.encode? .named c.value with
  | some data => .ok ⟨c.typeId, data⟩
  | none => .error .encode

/-- Reads bytes as a value of the type `t`. -/
def ComponentType.decode (t : ComponentType) (data : Bytes) : Except ComponentError t.Data :=
  match t.shape.decode? data with
  | some x => .ok x
  | none => .error .decode

/-- Reads a record as a value of the type `t`. -/
def ComponentType.ofRecord (t : ComponentType) (r : Record) : Except ComponentError t.Data :=
  if r.typeId = t.id then t.decode r.data else .error (.typeMismatch t.id r.typeId)

end TickEngine
