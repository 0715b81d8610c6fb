/-
This file embeds the round-trip benchmark and its gates.

A node is encoded, decoded and compared with what comes back. The gated benchmark first
compares the bits of the vector with those of the canonical text, may normalise and shift the
vector before it is decoded, and takes only a part of the nodes for the test. A codec that
fails on a node is scored zero there.
-/

import Factum.Codec
import Factum.Sequiv

namespace Factum

namespace Benchmark

open PackedCodec

/-- Per-node result. -/
structure NodeResult where
  nodeId : String
  score : Binary32
  level : EquivLevel
  differences : List String

/-- Result of the benchmark. -/
structure SemanticRoundTripResult where
  total : Nat
  passed : Binary32
  avgScore : Binary32
  minScore : Binary32
  maxScore : Binary32
  details : List NodeResult
  failures : List String

/-- Default pass threshold. -/
def defaultThreshold : Binary32 := F32.lit 5 1

/-- `usize::MAX`. -/
def usizeMax : Nat := 2 ^ 64 - 1

/-! ### Gates -/

/-- Configuration of the gates. -/
structure AntiCheatGates where
  dimensionBudgetDivisor : Nat
  latentOperationEnabled : Bool
  testSplitRatio : Binary32

namespace AntiCheatGates

/-- The gates of the benchmark by default. -/
def default : AntiCheatGates := ⟨3, true, F32.lit 5 1⟩

/-- Gates with all checks disabled. -/
def disabled : AntiCheatGates := ⟨usizeMax, false, F32.lit 0 0⟩

/-- Check that a vector has fewer bits than its share of those of the canonical text. -/
def checkDimensionBudget (gates : AntiCheatGates) (vectorDim canonicalBytes : Nat) :
    Except (Stop String) Unit :=
  if gates.dimensionBudgetDivisor = usizeMax then .ok ()
  else if gates.dimensionBudgetDivisor = 0 then .error .panic
  else
    let vectorBits := vectorDim * 32
    let canonicalBits := canonicalBytes * 8
    let budget := canonicalBits / gates.dimensionBudgetDivisor
    if budget ≤ vectorBits then
      .error (.fail ("dimension budget violated (bits): vector=" ++ toString vectorDim ++
        "dims*32=" ++ toString vectorBits ++ "bits >= canonical=" ++ toString canonicalBits ++
        "/" ++ toString gates.dimensionBudgetDivisor ++ "=" ++ toString budget ++
        "bits (canonical_bytes=" ++ toString canonicalBytes ++ ")"))
    else .ok ()

/-- Normalise a vector and shift it. -/
def applyLatentOperation (gates : AntiCheatGates) (vector : ThoughtVector) : ThoughtVector :=
  if !gates.latentOperationEnabled then vector
  else .fromVec (vector.normalize.data.map fun v => v + F32.lit 1 6)

/-- The loop of the split: every other node is for the test, as long as there is room. -/
def splitLoop (testCount : Nat) : List (Node Binary32) → Nat →
    List (Node Binary32) × List (Node Binary32) → List (Node Binary32) × List (Node Binary32)
  | [], _, split => split
  | node :: rest, i, (train, test) =>
    if test.length < testCount ∧ i % 2 = 1 then
      splitLoop testCount rest (i + 1) (train, test ++ [node])
    else splitLoop testCount rest (i + 1) (train ++ [node], test)

/-- Split nodes into train and test sets. -/
def trainTestSplit (gates : AntiCheatGates) (nodes : List (Node Binary32)) :
    List (Node Binary32) × List (Node Binary32) :=
  if F32.le gates.testSplitRatio (F32.lit 0 0) then ([], nodes)
  else
    let testCount := ⌈(Binary32.ofNat nodes.length * gates.testSplitRatio).value⌉.toNat
    splitLoop (min testCount nodes.length) nodes 0 ([], [])

end AntiCheatGates

/-! ### One node -/

/-- An encoder and a decoder. -/
structure Codec where
  encodeNode : Node Binary32 → Except (Stop CodecError) ThoughtVector
  decode : ThoughtVector → Except (Stop CodecError) DecodeResult

/-- The packed codec. -/
def packed (host : Host Binary32) (registry : MorphemeRegistry) : Codec where
  encodeNode node := .ok (PackedCodec.encodeNode host registry node)
  decode := PackedCodec.decode host registry

section Running

variable (host : Host Binary32) (registry : MorphemeRegistry) (codec : Codec)

/-- Decode a vector and compare a node with the first one that comes back. -/
def decodeAndCompare (node : Node Binary32) (vector : ThoughtVector) :
    Except (Stop CodecError) NodeResult := do
  let decoded ← codec.decode vector
  match decoded.nodes with
  | [] => throw (.fail (.term (.decodeError "decoder returned no nodes")))
  | decodedNode :: _ =>
    let equiv := SemEquiv.compare host registry node decodedNode
    return ⟨node.id.asStr, equiv.score, equiv.level, equiv.differences⟩

/-- Encode a node and compare it with what comes back. -/
def benchSingleNode (node : Node Binary32) : Except (Stop CodecError) NodeResult := do
  let vector ← codec.encodeNode node
  decodeAndCompare host registry codec node vector

/-- The same behind the gates: the dimension budget first, then the latent operation. -/
def benchSingleNodeGated (gates : AntiCheatGates) (node : Node Binary32) :
    Except (Stop CodecError) NodeResult := do
  let vector ← codec.encodeNode node
  match gates.checkDimensionBudget vector.dim (canonical host node).utf8ByteSize with
  | .error (.fail message) =>
    return ⟨node.id.asStr, F32.lit 0 0, .different, ["GATE 1 FAILED: " ++ message]⟩
  | .error .panic => throw .panic
  | .error .fuel => throw .fuel
  | .ok _ => decodeAndCompare host registry codec node (gates.applyLatentOperation vector)

end Running

/-! ### Many nodes -/

/-- What the loop over the nodes has so far. -/
structure Progress where
  details : List NodeResult
  failures : List String
  scores : List Binary32
  passedCount : Nat

namespace Progress

/-- Take a node into account. -/
def take (threshold : Binary32) (single : Node Binary32 → Except (Stop CodecError) NodeResult)
    (progress : Progress) (node : Node Binary32) : Except (Stop CodecError) Progress :=
  match single node with
  | .ok result =>
    .ok { progress with
      details := progress.details ++ [result]
      scores := progress.scores ++ [result.score]
      passedCount :=
        if F32.le threshold result.score then progress.passedCount + 1 else progress.passedCount }
  | .error (.fail error) =>
    .ok { progress with
      details := progress.details ++
        [⟨node.id.asStr, F32.lit 0 0, .different, [error.display]⟩]
      failures := progress.failures ++ ["Node " ++ node.id.asStr ++ ": " ++ error.display]
      scores := progress.scores ++ [F32.lit 0 0] }
  | .error .panic => .error .panic
  | .error .fuel => .error .fuel

end Progress

/-- The smaller of two numbers. -/
def lesser (a b : Binary32) : Binary32 := if a.value ≤ b.value then a else b

/-- The numbers of a benchmark from its loop. -/
def summarize (total : Nat) (progress : Progress) : SemanticRoundTripResult where
  total
  passed :=
    if 0 < total then Binary32.ofNat progress.passedCount / Binary32.ofNat total else F32.lit 0 0
  avgScore :=
    if progress.scores.isEmpty then F32.lit 0 0
    else progress.scores.foldl (· + ·) (F32.lit 0 0) / Binary32.ofNat progress.scores.length
  minScore :=
    match progress.scores with
    | [] => F32.lit 0 0
    | score :: rest => rest.foldl lesser score
  maxScore :=
    match progress.scores with
    | [] => F32.lit 0 0
    | score :: rest => rest.foldl F32.max score
  details := progress.details
  failures := progress.failures

/-- Run over some nodes. -/
def benchNodes (threshold : Binary32)
    (single : Node Binary32 → Except (Stop CodecError) NodeResult)
    (nodes : List (Node Binary32)) : Except (Stop CodecError) SemanticRoundTripResult := do
  let progress ← nodes.foldlM (Progress.take threshold single) ⟨[], [], [], 0⟩
  return summarize nodes.length progress

section Entry

variable (host : Host Binary32) (registry : MorphemeRegistry) (codec : Codec)

/-- Run the benchmark with a pass threshold. -/
def benchSemanticRoundtripWithThreshold (nodes : List (Node Binary32)) (threshold : Binary32) :
    Except (Stop CodecError) SemanticRoundTripResult :=
  benchNodes threshold (benchSingleNode host registry codec) nodes

/-- The nodes that are scored: those of the test, or all where there are none. -/
def testNodes (gates : AntiCheatGates) (nodes : List (Node Binary32)) : List (Node Binary32) :=
  let (_, test) := gates.trainTestSplit nodes
  if test.isEmpty then nodes else test

/-- Run the gated benchmark. -/
def benchSemanticRoundtripGatedWith (nodes : List (Node Binary32)) (gates : AntiCheatGates) :
    Except (Stop CodecError) SemanticRoundTripResult :=
  benchNodes defaultThreshold (benchSingleNodeGated host registry codec gates)
    (testNodes gates nodes)

end Entry

end Benchmark

end Factum
