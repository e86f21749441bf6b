/-
This file is what the kernel gates share: the kinds of tasks and the two spellings
of a truth, the capacity of the logs, and the violations of a policy that are
recorded there.
-/

import Senars.Library.Capped
import Senars.Library.JsNumber

namespace Senars.Kernel

open Library Library.JsNumber

inductive TaskType where
  | belief | goal | question | command
  deriving DecidableEq

structure TermTruth where
  f : JsNumber
  c : JsNumber
  deriving DecidableEq

structure BeliefTruth where
  frequency : JsNumber
  confidence : JsNumber
  deriving DecidableEq

def unitInterval (number : JsNumber) : Bool := lessEq 0 number && lessEq number 1

def BeliefTruth.valid (truth : BeliefTruth) : Bool :=
  unitInterval truth.frequency && unitInterval truth.confidence

def asBeliefTruth (truth : TermTruth) : BeliefTruth := ⟨truth.f, truth.c⟩

/-- How many entries a log of a gate may have. -/
def gateLogCapacity : Nat := 1000

structure PolicyViolation where
  policyId : String
  violationType : String
  detail : String
  correlationId : String
  severity : String
  deriving DecidableEq

/-- A violation as a gate records it. -/
def recordPolicyViolation (policyId violationType detail correlationId : String) :
    PolicyViolation where
  policyId
  violationType
  detail
  correlationId
  severity := "block"

end Senars.Kernel
