/-
This file is the stamp of a task: its identifier and the identifiers of all it
rests on.
-/

import Senars.Library.Lists

namespace Senars.Terms

open Library

structure Stamp where
  id : String
  derivations : List String
  deriving DecidableEq

/-- The longest lineage that is derived from. -/
def depthMax : Nat := 10

/-- The longest lineage of some stamps. -/
def maxDepthOf (stamps : List Stamp) : Nat :=
  stamps.foldl (fun deepest stamp => max deepest stamp.derivations.length) 0

namespace Stamp

def createInput (id : String) : Stamp := ⟨id, []⟩

/-- The stamp of what is derived from stamps: their lineages and themselves, each once. -/
def derive (parentStamps : List Stamp) (id : String) : Option Stamp :=
  if depthMax ≤ maxDepthOf parentStamps then none
  else some ⟨id, uniqueBy (fun name => name)
    (parentStamps.flatMap fun parent => parent.derivations ++ [parent.id])⟩

end Stamp

end Senars.Terms
