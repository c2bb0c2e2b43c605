/-
  The shapes that stored and exchanged data can have.

  A `Shape` describes a kind of data, and `Shape.Carrier` is the type of that
  data, so a value always has its shape.  Records and choices are described by
  the sequence of their fields (`Fields`) or variants (`Variants`).
-/
import TickEngine.Number.Real

namespace TickEngine.Schema

/-- The width of a whole number. -/
inductive Width where
  | bits8 | bits16 | bits32 | bits64
  deriving DecidableEq, Repr

/-- The number of bits of a width. -/
@[reducible] def Width.bits : Width → Nat
  | bits8 => 8
  | bits16 => 16
  | bits32 => 32
  | bits64 => 64

mutual

/-- A kind of data. -/
inductive Shape where
  /-- Data that says nothing. -/
  | unit
  | bool
  /-- A truth value that has a written form only while it is false. -/
  | falseOnly
  | unsigned (width : Width)
  | signed (width : Width)
  | single
  | text
  /-- Data of another shape under a name of its own. -/
  | newtype (content : Shape)
  | option (content : Shape)
  | list (content : Shape)
  | record (fields : Fields)
  | choice (variants : Variants)
  deriving DecidableEq, Repr

/-- The fields of a record, in order. -/
inductive Fields where
  | nil
  | cons (name : String) (shape : Shape) (rest : Fields)
  deriving DecidableEq, Repr

/-- The variants of a choice, in order: each is bare, or holds a record. -/
inductive Variants where
  | nil
  | bare (name : String) (rest : Variants)
  | record (name : String) (fields : Fields) (rest : Variants)
  deriving DecidableEq, Repr

end

mutual

/-- The data of a shape. -/
@[reducible] def Shape.Carrier : Shape → Type
  | .unit => Unit
  | .bool | .falseOnly => Bool
  | .unsigned w | .signed w => BitVec w.bits
  | .single => Single
  | .text => String
  | .newtype s => s.Carrier
  | .option s => Option s.Carrier
  | .list s => List s.Carrier
  | .record fs => fs.Carrier
  | .choice vs => vs.Carrier

/-- The data of the fields of a record. -/
@[reducible] def Fields.Carrier : Fields → Type
  | .nil => Unit
  | .cons _ s rest => s.Carrier × rest.Carrier

/-- The data of one of the variants. -/
@[reducible] def Variants.Carrier : Variants → Type
  | .nil => Empty
  | .bare _ rest => Unit ⊕ rest.Carrier
  | .record _ fs rest => fs.Carrier ⊕ rest.Carrier

end

mutual

/-- Data of one shape can be compared. -/
def Shape.decEq : (s : Shape) → DecidableEq s.Carrier
  | .unit => inferInstanceAs (DecidableEq Unit)
  | .bool | .falseOnly => inferInstanceAs (DecidableEq Bool)
  | .unsigned w | .signed w => inferInstanceAs (DecidableEq (BitVec w.bits))
  | .single => inferInstanceAs (DecidableEq Single)
  | .text => inferInstanceAs (DecidableEq String)
  | .newtype s => s.decEq
  | .option s =>
    have := s.decEq
    inferInstanceAs (DecidableEq (Option s.Carrier))
  | .list s =>
    have := s.decEq
    inferInstanceAs (DecidableEq (List s.Carrier))
  | .record fs => fs.decEq
  | .choice vs => vs.decEq

/-- Data of the same fields can be compared. -/
def Fields.decEq : (fs : Fields) → DecidableEq fs.Carrier
  | .nil => inferInstanceAs (DecidableEq Unit)
  | .cons _ s rest =>
    have := s.decEq
    have := rest.decEq
    inferInstanceAs (DecidableEq (s.Carrier × rest.Carrier))

/-- Data of the same variants can be compared. -/
def Variants.decEq : (vs : Variants) → DecidableEq vs.Carrier
  | .nil => inferInstanceAs (DecidableEq Empty)
  | .bare _ rest =>
    have := rest.decEq
    inferInstanceAs (DecidableEq (Unit ⊕ rest.Carrier))
  | .record _ fs rest =>
    have := fs.decEq
    have := rest.decEq
    inferInstanceAs (DecidableEq (fs.Carrier ⊕ rest.Carrier))

end

instance (s : Shape) : DecidableEq s.Carrier := s.decEq

/-! ## Descriptions -/

/-- The fields of a list of names and shapes. -/
def Fields.ofList : List (String × Shape) → Fields
  | [] => .nil
  | (name, s) :: rest => .cons name s (ofList rest)

/-- The names of the fields, in order. -/
def Fields.names : Fields → List String
  | .nil => []
  | .cons name _ rest => name :: rest.names

/-- The names of the variants, in order. -/
def Variants.names : Variants → List String
  | .nil => []
  | .bare name rest | .record name _ rest => name :: rest.names

end TickEngine.Schema
