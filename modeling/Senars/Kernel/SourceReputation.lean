/-
This file is the confidence a source is trusted with: the table of source
qualities, a source's track record, and the ceiling the two give together with a
sensor's confidence.
-/

import Senars.Algebra.Truth
import Senars.Unify.LruCache

namespace Senars.Kernel

open Library Library.JsNumber Senars.Algebra
open Unify (LruCache)

/-! ### Source qualities -/

inductive SourceQuality where
  | primary | secondary | general | tertiary | llmPrior | peerAgent | selfMetta
  deriving DecidableEq

/-- The confidence a claim from a source of this quality may carry. -/
def sourceQualityConfidence : SourceQuality → JsNumber
  | .primary => .finite (9 / 10)
  | .secondary => .finite (7 / 10)
  | .general => .finite (55 / 100)
  | .tertiary => .finite (4 / 10)
  | .llmPrior => .finite (5 / 10)
  | .peerAgent => .finite (6 / 10)
  | .selfMetta => .finite (7 / 10)

/-- What lowers the table. A reputation maps the table's value and a key to a ceiling. -/
structure CeilingLimits where
  reputation : Option (JsNumber → String → JsNumber) := none
  sourceKey : Option String := none
  atMost : Option JsNumber := none
  scaledBy : Option JsNumber := none

/-- The confidence a claim may carry. A key that is the empty text is none. -/
def confidenceCeiling (quality : SourceQuality) (limits : CeilingLimits) : JsNumber :=
  let base := sourceQualityConfidence quality
  let rated :=
    match limits.reputation, limits.sourceKey.filter (· ≠ "") with
    | some effectiveCeiling, some key => effectiveCeiling base key
    | _, _ => base
  let bounded :=
    match limits.atMost with
    | none => rated
    | some atMost => JsNumber.min atMost rated
  clamp01 (match limits.scaledBy with
    | none => bounded
    | some scale => bounded * scale)

/-! ### Track records -/

structure ReputationEntry where
  confirmed : JsNumber
  contradicted : JsNumber

structure SourceReputation where
  entries : LruCache ReputationEntry
  floor : JsNumber
  decayGate : JsNumber

namespace SourceReputation

/-- What a ceiling is multiplied by: one, until a source is contradicted often enough. -/
def multiplier (reputation : SourceReputation) (key : String) : JsNumber :=
  match (reputation.entries.get key).1 with
  | none => 1
  | some entry =>
    if less entry.contradicted reputation.decayGate then 1
    else
      let share := entry.contradicted / JsNumber.max 1 (entry.confirmed + entry.contradicted)
      JsNumber.max reputation.floor (clamp01 (1 - share))

def effectiveCeiling (reputation : SourceReputation) (baseQuality : JsNumber) (key : String) :
    JsNumber := clamp01 (baseQuality * reputation.multiplier key)

end SourceReputation

end Senars.Kernel
