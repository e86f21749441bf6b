/-
This file is the verifier's transcribed truth table: one function a name, from
the premise frequencies and confidences to a frequency and a confidence. Nothing
here is normalised.
-/

import Senars.Algebra.Truth

namespace Senars.Algebra

open Library Library.JsNumber

/-- The names of `BINARY_TRUTH`. -/
inductive BinaryName where
  | deduction | induction | abduction | exemplification | comparison | analogy | resemblance
  | intersection | union | revision | detachment | contraposition | sameness
  deriving DecidableEq

/-- The names of `UNARY_TRUTH`, of which the first two are rule ids. -/
inductive UnaryName where
  | negationIntro | negationElim | negation | conversion
  deriving DecidableEq

def BinaryName.text : BinaryName → String
  | .deduction => "deduction"
  | .induction => "induction"
  | .abduction => "abduction"
  | .exemplification => "exemplification"
  | .comparison => "comparison"
  | .analogy => "analogy"
  | .resemblance => "resemblance"
  | .intersection => "intersection"
  | .union => "union"
  | .revision => "revision"
  | .detachment => "detachment"
  | .contraposition => "contraposition"
  | .sameness => "sameness"

def UnaryName.text : UnaryName → String
  | .negationIntro => "negation-intro"
  | .negationElim => "negation-elim"
  | .negation => "negation"
  | .conversion => "conversion"

/-- The verifier's function of two premises. -/
def binaryTruth : BinaryName → BinaryFn
  | .deduction, f1, f2, c1, c2 => (f1 * f2, c1 * c2)
  | .induction, _, f2, c1, c2 =>
    let w := f2 * c1 * c2
    (f2, softSquash w)
  | .abduction, f1, _, c1, c2 =>
    let w := f1 * c1 * c2
    (f1, softSquash w)
  | .exemplification, f1, f2, c1, c2 => (f1 * f2, softSquash c1 * c1 * c2 * f1 * f2)
  | .comparison, f1, f2, c1, c2 =>
    let p := f1 * f2
    (safeRatio p (p + (1 - f1) * (1 - f2)), c1 * c2)
  | .analogy, f1, f2, c1, c2 => (f1 * f2, c1 * c2 * f2)
  | .resemblance, f1, f2, c1, c2 => ((f1 + f2) / 2, c1 * c2)
  | .intersection, f1, f2, c1, c2 => (f1 * f2, c1 * c2)
  | .union, f1, f2, c1, c2 => (1 - (1 - f1) * (1 - f2), c1 * c2)
  | .revision, f1, f2, c1, c2 =>
    let w1 := confidenceToWeight c1
    let w2 := confidenceToWeight c2
    (safeRatio (f1 * w1 + f2 * w2) (w1 + w2),
      JsNumber.min (weightToConfidence (w1 + w2)) (.finite (999 / 1000)))
  | .detachment, f1, f2, c1, c2 => (f2, f1 * c1 * c2)
  | .contraposition, f1, f2, c1, c2 =>
    let cf := f2 * (1 - f1)
    (safeRatio cf (cf + (1 - f2) * f1), c1 * c2)
  | .sameness, f1, f2, c1, c2 => (1 - JsNumber.abs (f1 - f2), c1 * c2)

/-- The verifier's function of one premise. -/
def unaryTruth : UnaryName → UnaryFn
  | .negationIntro, f, c => (1 - f, c)
  | .negationElim, f, c => (1 - f, c)
  | .negation, f, c => (1 - f, c)
  | .conversion, f, c => (f, f * c)

/-- The engine's operation of a table name. -/
def engineBinary : BinaryName → Truth → Truth → Truth
  | .deduction => Truth.deduction
  | .induction => Truth.induction
  | .abduction => Truth.abduction
  | .exemplification => Truth.exemplification
  | .comparison => Truth.comparison
  | .analogy => Truth.analogy
  | .resemblance => Truth.resemblance
  | .intersection => Truth.intersection
  | .union => Truth.union
  | .revision => Truth.revision
  | .detachment => Truth.detachment
  | .contraposition => Truth.contraposition
  | .sameness => Truth.sameness

/-- The engine's operation of a table name. The two rule ids name the negation. -/
def engineUnary : UnaryName → Truth → Truth
  | .negationIntro => Truth.negation
  | .negationElim => Truth.negation
  | .negation => Truth.negation
  | .conversion => Truth.conversion

/-- What the verifier recomputes for two premises. -/
def verifierBinary (name : BinaryName) (t1 t2 : Truth) : JsNumber × JsNumber :=
  binaryTruth name (.finite t1.f) (.finite t2.f) (.finite t1.c) (.finite t2.c)

/-- What the verifier recomputes for one premise. -/
def verifierUnary (name : UnaryName) (t : Truth) : JsNumber × JsNumber :=
  unaryTruth name (.finite t.f) (.finite t.c)

end Senars.Algebra
