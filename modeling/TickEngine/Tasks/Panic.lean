/-
  Panics: failures that are no part of a task's result.
-/
namespace TickEngine

/-- What a panic carries. -/
inductive Panic where
  | text (message : String)
  /-- Something that is no text. -/
  | other
  deriving DecidableEq, Repr

/-- The text of a panic. -/
def Panic.message : Panic → String
  | text message => message
  | other => "non-string panic payload"

end TickEngine
