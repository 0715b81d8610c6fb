/-
This file embeds the verifier framework: verdicts, verifiers and the registry
that runs them on a node before it is stored.
-/

import Factum.Types

namespace Factum

/-- Verification verdict. -/
inductive Verdict where
  | pass
  | fail (reason : String)
  | inconclusive
deriving DecidableEq, Repr

/-- A verifier: whether it applies to a node, and its verdict. -/
structure Verifier (F : Type) where
  canVerify : Node F → Bool
  verify : Node F → Verdict

/-- The registered verifiers, in the order in which they run. -/
structure VerifierRegistry (F : Type) where
  verifiers : List (Verifier F)

namespace VerifierRegistry

variable {F : Type}

/-- No verifiers. -/
def new : VerifierRegistry F := ⟨[]⟩

/-- Add a verifier after the others. -/
def add (registry : VerifierRegistry F) (verifier : Verifier F) : VerifierRegistry F :=
  ⟨registry.verifiers ++ [verifier]⟩

/-- The loop of `verify`, with whether any verifier has run. -/
def verifyLoop (node : Node F) : List (Verifier F) → Bool → Verdict
  | [], anyRan => if anyRan then .pass else .inconclusive
  | verifier :: rest, anyRan =>
    if verifier.canVerify node then
      match verifier.verify node with
      | .fail reason => .fail reason
      | .pass => verifyLoop node rest true
      | .inconclusive => verifyLoop node rest true
    else verifyLoop node rest anyRan

/-- Run all applicable verifiers; the first failure is the verdict. -/
def verify (registry : VerifierRegistry F) (node : Node F) : Verdict :=
  verifyLoop node registry.verifiers false

end VerifierRegistry

end Factum
