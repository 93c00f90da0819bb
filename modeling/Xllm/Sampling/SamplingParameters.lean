import Mathlib.Data.Rat.Defs
import Xllm.Util.TensorHelper

/-!
# Sampling parameters of a batch

`SamplingParameters::init` gathers the parameters of the requests into tensors, leaving out those
that all requests have at their defaults, and `concat` appends the parameters of a second batch.

Indices are natural numbers and floats are rationals. The dtype, the device and pinned memory
are left out.
-/

namespace Xllm.Sampling

open Util

structure RequestSamplingParam where
  frequencyPenalty : ℚ := 0
  presencePenalty : ℚ := 0
  repetitionPenalty : ℚ := 1
  temperature : ℚ := 0
  topP : ℚ := 1
  topK : Int := -1
  logprobs : Bool := false
  topLogprobs : Int := 0
  doSample : Bool := false
  isEmbeddings : Bool := false
  beamWidth : Int := 0

/-- "need to do sample if any of following is true". -/
def RequestSamplingParam.sample (p : RequestSamplingParam) : Bool :=
  p.doSample || p.temperature != 0 || p.topP != 1 || decide (0 < p.topK)

@[ext]
structure SamplingParameters where
  selectedTokenIdxes : Option (List Nat) := none
  frequencyPenalties : Option (List ℚ) := none
  presencePenalties : Option (List ℚ) := none
  repetitionPenalties : Option (List ℚ) := none
  temperatures : Option (List ℚ) := none
  topP : Option (List ℚ) := none
  topK : Option (List Int) := none
  uniqueTokenIds : Option (Tensor2d Int) := none
  uniqueTokenCounts : Option (Tensor2d Int) := none
  uniqueTokenIdsLens : Option (List Nat) := none
  sampleIdxes : Option (List Nat) := none
  doSample : Option (List Bool) := none
  allRandomSample : Bool := false
  allGreedySample : Bool := true
  logprobs : Bool := false
  isEmbeddings : Bool := false
  maxTopLogprobs : Int := 0
  useBeamSearch : Bool := false

def anyPenalties (params : List RequestSamplingParam) : Bool :=
  (params.map (·.frequencyPenalty)).any (· != 0) || (params.map (·.presencePenalty)).any (· != 0)

def anyRepetition (params : List RequestSamplingParam) : Bool :=
  (params.map (·.repetitionPenalty)).any (· != 1)

def anyTemperature (params : List RequestSamplingParam) : Bool :=
  (params.map (·.temperature)).any fun t => t != 0 && t != 1

def anyTopK (params : List RequestSamplingParam) : Bool :=
  (params.map (·.topK)).any fun k => decide (0 < k)

def anyTopP (params : List RequestSamplingParam) : Bool :=
  (params.map (·.topP)).any (· != 1)

def needTokenStats (params : List RequestSamplingParam) : Bool :=
  anyPenalties params || anyRepetition params

def mostTopLogprobs (params : List RequestSamplingParam) : Int :=
  params.foldl (fun most p => max most p.topLogprobs) 0

def anyBeam (params : List RequestSamplingParam) : Bool :=
  params.any fun p => decide (0 < p.beamWidth)

/-- The requests that are sampled. An index behind the requests reads outside the vector. -/
def sampleFlags (params : List RequestSamplingParam) :
    List Nat → Except TensorFault (List Bool)
  | [] => .ok []
  | idx :: rest => do
      let p ← (params[idx]?).elim (.error .index) .ok
      let flags ← sampleFlags params rest
      return p.sample :: flags

def SamplingParameters.init (reqSamplingParams : List RequestSamplingParam)
    (selectedTokenIdxes sampleIdxes : List Nat)
    (uniqueTokenIdsVec uniqueTokenCountsVec : List (List Int)) (uniqueTokenLensVec : List Nat) :
    Except TensorFault SamplingParameters := do
  check (reqSamplingParams.length == selectedTokenIdxes.length)
  check (decide (sampleIdxes.length ≤ reqSamplingParams.length))
  let stats := needTokenStats reqSamplingParams
  check (!stats || reqSamplingParams.length == uniqueTokenIdsVec.length)
  check (!stats || reqSamplingParams.length == uniqueTokenCountsVec.length)
  check (!stats || reqSamplingParams.length == uniqueTokenLensVec.length)
  let uniqueTokenIds ← matrixIf stats uniqueTokenIdsVec
  let uniqueTokenCounts ← matrixIf stats uniqueTokenCountsVec
  let doSample ← sampleFlags reqSamplingParams sampleIdxes
  return {
    selectedTokenIdxes := some selectedTokenIdxes
    frequencyPenalties :=
      definedIf (anyPenalties reqSamplingParams) (reqSamplingParams.map (·.frequencyPenalty))
    presencePenalties :=
      definedIf (anyPenalties reqSamplingParams) (reqSamplingParams.map (·.presencePenalty))
    repetitionPenalties :=
      definedIf (anyRepetition reqSamplingParams) (reqSamplingParams.map (·.repetitionPenalty))
    temperatures :=
      definedIf (anyTemperature reqSamplingParams) (reqSamplingParams.map (·.temperature))
    topP := definedIf (anyTopP reqSamplingParams) (reqSamplingParams.map (·.topP))
    topK := definedIf (anyTopK reqSamplingParams) (reqSamplingParams.map (·.topK))
    uniqueTokenIds
    uniqueTokenCounts
    uniqueTokenIdsLens := definedIf stats uniqueTokenLensVec
    sampleIdxes := some sampleIdxes
    doSample := some doSample
    allRandomSample := doSample.all id
    allGreedySample := !doSample.any id
    logprobs := reqSamplingParams.any (·.logprobs)
    isEmbeddings := reqSamplingParams.any (·.isEmbeddings)
    maxTopLogprobs := mostTopLogprobs reqSamplingParams
    useBeamSearch := anyBeam reqSamplingParams }

def shiftBehind (this param : Option (List Nat)) : Except TensorFault (Option (List Nat)) :=
  match param with
  | none => .ok none
  | some idxes =>
      match this.bind List.getLast? with
      | none => .error .index
      | some last => .ok (some (idxes.map (· + (last + 1))))

def SamplingParameters.concat (this param : SamplingParameters) :
    Except TensorFault SamplingParameters := do
  let selected ← shiftBehind this.selectedTokenIdxes param.selectedTokenIdxes
  let selectedTokenIdxes ← safeConcat cat1d this.selectedTokenIdxes selected
  let sampled ← shiftBehind this.sampleIdxes param.sampleIdxes
  let sampleIdxes ← safeConcat cat1d this.sampleIdxes sampled
  let frequencyPenalties ← safeConcat cat1d this.frequencyPenalties param.frequencyPenalties
  let repetitionPenalties ← safeConcat cat1d this.repetitionPenalties param.repetitionPenalties
  let temperatures ← safeConcat cat1d this.temperatures param.temperatures
  let topP ← safeConcat cat1d this.topP param.topP
  let topK ← safeConcat cat1d this.topK param.topK
  let uniqueTokenIds ← safeConcat Tensor2d.cat this.uniqueTokenIds param.uniqueTokenIds
  let uniqueTokenCounts ← safeConcat Tensor2d.cat this.uniqueTokenCounts param.uniqueTokenCounts
  let uniqueTokenIdsLens ← safeConcat cat1d this.uniqueTokenIdsLens param.uniqueTokenIdsLens
  let doSample ← safeConcat cat1d this.doSample param.doSample
  return { this with
    selectedTokenIdxes, sampleIdxes, frequencyPenalties, repetitionPenalties, temperatures,
    topP, topK, uniqueTokenIds, uniqueTokenCounts, uniqueTokenIdsLens, doSample
    logprobs := this.logprobs || param.logprobs
    isEmbeddings := this.isEmbeddings || param.isEmbeddings
    maxTopLogprobs := max this.maxTopLogprobs param.maxTopLogprobs }

end Xllm.Sampling
