/-
This file embeds the calibration policy for confidences.

Each kind of provenance has a default confidence and a band for the confidence that an
agent states. A confidence outside its band is only warned about.
-/

import Factum.Types

namespace Factum

section Policy

variable {F : Type} [F32 F]

/-- The confidence that a node has by its provenance when the caller gives none. -/
def defaultConfidenceForProvenance : Provenance → Confidence F
  | .verbatim _ _ => ⟨F32.lit 95 2⟩
  | .extracted _ _ _ => ⟨F32.lit 80 2⟩
  | .summary _ _ => ⟨F32.lit 75 2⟩
  | .asserted _ => ⟨F32.lit 60 2⟩
  | .derived _ _ => ⟨F32.lit 80 2⟩

/-- The bounds of the band of a provenance. -/
def confidenceBand : Provenance → F × F
  | .verbatim _ _ => (F32.lit 90 2, F32.lit 98 2)
  | .extracted _ _ _ => (F32.lit 60 2, F32.lit 90 2)
  | .summary _ _ => (F32.lit 50 2, F32.lit 85 2)
  | .asserted _ => (F32.lit 30 2, F32.lit 80 2)
  | .derived _ _ => (F32.lit 0 0, F32.lit 1 0)

/-- The name of a kind of provenance. -/
def provenanceName : Provenance → String
  | .verbatim _ _ => "Verbatim"
  | .extracted _ _ _ => "Extracted"
  | .summary _ _ => "Summary"
  | .asserted _ => "Asserted"
  | .derived _ _ => "Derived"

/-- Check that a confidence lies in the band of a provenance. The text of a number with two
decimals comes from the library. -/
def checkConfidenceBand (f32Fixed : F → String) (provenance : Provenance) (conf : Confidence F) :
    Except String Unit :=
  let (lower, upper) := confidenceBand provenance
  if F32.lt upper conf.value then
    .error ("confidence " ++ f32Fixed conf.value ++ " exceeds " ++ provenanceName provenance ++
      " band upper bound " ++ f32Fixed upper ++
      "; corroboration evidence required for values above " ++ f32Fixed upper)
  else if F32.lt conf.value lower then
    .error ("confidence " ++ f32Fixed conf.value ++ " is below " ++ provenanceName provenance ++
      " band lower bound " ++ f32Fixed lower ++ "; consider not inserting this knowledge")
  else .ok ()

/-- A confidence is neither above nor below the band of a provenance. -/
def InBand (provenance : Provenance) (conf : Confidence F) : Prop :=
  F32.lt (confidenceBand provenance).2 conf.value = false ∧
    F32.lt conf.value (confidenceBand provenance).1 = false

/-- The check warns exactly about the confidences outside the band. -/
theorem checkConfidenceBand_eq_ok (f32Fixed : F → String) (provenance : Provenance)
    (conf : Confidence F) :
    checkConfidenceBand f32Fixed provenance conf = .ok () ↔ InBand provenance conf := by
  unfold checkConfidenceBand InBand
  dsimp only
  cases F32.lt (confidenceBand provenance).2 conf.value <;>
    cases F32.lt conf.value (confidenceBand provenance).1 <;> simp

end Policy

/-! ### Texts for debugging -/

/-- The `Debug` text of a span. -/
def Span.debug (span : Span) : String :=
  "Span \x7b start: " ++ toString span.start ++ ", end: " ++ toString span.stop ++ " \x7d"

/-- The `Debug` text of a provenance. -/
def Provenance.debug (strDebug : String → String) : Provenance → String
  | .verbatim doc span =>
    "Verbatim \x7b doc: DocId(" ++ strDebug doc.asStr ++ "), span: " ++ span.debug ++ " \x7d"
  | .summary doc span =>
    "Summary \x7b doc: DocId(" ++ strDebug doc.asStr ++ "), span: " ++ span.debug ++ " \x7d"
  | .extracted doc span model =>
    "Extracted \x7b doc: DocId(" ++ strDebug doc.asStr ++ "), span: " ++ span.debug ++
      ", model: ModelRef \x7b name: " ++ strDebug model.name ++ ", version: " ++
      strDebug model.version ++ " \x7d \x7d"
  | .derived from_ rule =>
    "Derived \x7b from: NodeId(" ++ strDebug from_.asStr ++ "), rule: RuleId(" ++
      strDebug rule.asStr ++ ") \x7d"
  | .asserted by_ => "Asserted \x7b by: Principal(" ++ strDebug by_.asStr ++ ") \x7d"

end Factum
