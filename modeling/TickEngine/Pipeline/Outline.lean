/-
  Descriptions of pipelines.

  An `Outline` says of one node what can be seen without running it;
  `Pipeline.outlines` lists those of a whole tree, children before their
  parent, and `Pipeline.text` prints the tree.
-/
import TickEngine.Pipeline.Tree

namespace TickEngine

/-- What can be seen of a node. -/
structure Outline where
  name : String
  hasSystem : Bool
  /-- The number of systems in the tree below and including the node. -/
  systemCount : Nat
  /-- The names of the parallel children. -/
  parallel : List String
  /-- The names of the serial children. -/
  serial : List String
  deriving DecidableEq, Repr

namespace Pipeline

variable {σ : Type}

mutual

/-- The number of systems in a tree. -/
def systemCount : Pipeline σ → Nat
  | node s ps ss => s.system.isSome.toNat + systemCountAll ps + systemCountAll ss

/-- The number of systems in all the trees. -/
def systemCountAll : List (Pipeline σ) → Nat
  | [] => 0
  | p :: rest => systemCount p + systemCountAll rest

end

/-- The outline of the root. -/
def outline (p : Pipeline σ) : Outline :=
  { name := p.name
    hasSystem := p.stage.system.isSome
    systemCount := p.systemCount
    parallel := p.parallel.map name
    serial := p.serial.map name }

mutual

/-- The outlines of all nodes: parallel children, serial children, then the
    root. -/
def outlines : Pipeline σ → List Outline
  | node s ps ss => outlinesAll ps ++ outlinesAll ss ++ [(node s ps ss).outline]

/-- The outlines of all nodes of consecutive trees. -/
def outlinesAll : List (Pipeline σ) → List Outline
  | [] => []
  | p :: rest => outlines p ++ outlinesAll rest

end

mutual

def text : Pipeline σ → String
  | node s ps ss =>
    "Pipeline \x7b name: " ++ Text.quoted s.name
      ++ ", has_system: " ++ toString s.system.isSome
      ++ ", specs: [" ++ ", ".intercalate (s.specs.map SetSpec.text)
      ++ "], parallel: [" ++ ", ".intercalate (textAll ps)
      ++ "], serial: [" ++ ", ".intercalate (textAll ss) ++ "] \x7d"

def textAll : List (Pipeline σ) → List String
  | [] => []
  | p :: rest => text p :: textAll rest

end

end Pipeline

end TickEngine
