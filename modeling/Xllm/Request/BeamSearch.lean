import Mathlib.Algebra.BigOperators.Group.List.Basic
import Mathlib.Algebra.Order.Group.Defs
import Xllm.Lib.Contract
import Xllm.Lib.TopK
import Xllm.Request.KVCacheState

/-!
# Beam search in software

A group of beams of one request receives a token for each beam in every step.
`process_beam_search` then throws the sampled tokens away: it extends every beam by the
candidates that came with its token, and keeps the best of all extensions and of the beams
that were finished before. The score of a beam is the sum of its log probabilities, of which
`LogprobState` keeps an accumulated part. Log probabilities are exact here.
-/

namespace Xllm

open Contract TopK

/-- The failed checks and accesses of beam search. -/
inductive BeamCheck where
  /-- `CHECK`s of `get_acc_logprob`. -/
  | accLogprob
  /-- `CHECK` of `get_base_logprob`. -/
  | baseLogprob
  /-- An access outside a vector. -/
  | outOfBounds

variable {R : Type}

/-- What a sequence keeps for a position behind its prompt: the entries of `tokens_`,
`logprobs_`, `top_tokens_` and `top_logprobs_`. -/
structure BeamToken (R : Type) where
  id : Token
  logprob : Option R := none
  topTokens : List Int64 := []
  topLogprobs : List R := []

/-- A log probability that is not there counts as zero. -/
def BeamToken.value [Zero R] (token : BeamToken R) : R := token.logprob.getD 0

def BeamToken.updateLogprob (old token : BeamToken R) (numTopTokens : Nat) : BeamToken R :=
  if 0 < numTopTokens ∧ token.topTokens ≠ [] then
    { id := token.id
      logprob := token.logprob
      topTokens := token.topTokens.take numTopTokens
      topLogprobs := token.topLogprobs.take numTopTokens }
  else { old with id := token.id, logprob := token.logprob }

/-- A sequence with the members that beam search reads and writes. Positions behind the
last token have never been written. -/
structure BeamSequence (R : Type) where
  promptTokens : List Token
  generated : List (BeamToken R) := []
  accLogprob : R
  lastAccTokenIdx : Nat
  curGeneratedTokenIdx : Nat
  updatedSinceLastBeamSearch : Bool := false
  kvState : KVCacheState := {}

namespace BeamSequence

def create [Zero R] (promptTokens : List Token) : BeamSequence R where
  promptTokens := promptTokens
  accLogprob := 0
  lastAccTokenIdx := promptTokens.length
  curGeneratedTokenIdx := promptTokens.length

variable (seq : BeamSequence R)

def numTokens : Nat := seq.promptTokens.length + seq.generated.length

def tokens : List Token := seq.promptTokens ++ seq.generated.map BeamToken.id

section
variable [AddCommGroup R]

/-- The sum of the log probabilities from one token index up to another. -/
def logprobsBetween (start stop : Nat) : R :=
  (((seq.generated.take (stop - seq.promptTokens.length)).drop
    (start - seq.promptTokens.length)).map BeamToken.value).sum

def getAccLogprob : Except BeamCheck (R × BeamSequence R) :=
  if seq.numTokens = seq.lastAccTokenIdx then .ok (seq.accLogprob, seq)
  else if seq.lastAccTokenIdx < seq.numTokens ∧ seq.promptTokens.length ≤ seq.lastAccTokenIdx then
    let accLogprob := seq.accLogprob + seq.logprobsBetween seq.lastAccTokenIdx seq.numTokens
    .ok (accLogprob,
      { seq with accLogprob := accLogprob, lastAccTokenIdx := seq.numTokens })
  else .error .accLogprob

/-- `get_base_logprob`: the accumulated value without the last token. -/
def getBaseLogprob : Except BeamCheck (R × BeamSequence R) :=
  if seq.generated.length ≤ 1 then .ok (0, seq)
  else
    let historyNumTokens := seq.numTokens - 1
    if seq.lastAccTokenIdx = seq.numTokens then
      match seq.generated.getLast?.bind BeamToken.logprob with
      | some logprob => .ok (seq.accLogprob - logprob, seq)
      | none => .ok (seq.accLogprob, seq)
    else if seq.lastAccTokenIdx = historyNumTokens then .ok (seq.accLogprob, seq)
    else if seq.lastAccTokenIdx < historyNumTokens then
      let accLogprob := seq.accLogprob + seq.logprobsBetween seq.lastAccTokenIdx historyNumTokens
      .ok (accLogprob,
        { seq with accLogprob := accLogprob, lastAccTokenIdx := historyNumTokens })
    else .error .baseLogprob

end

/-- `append_token`. With overlap, a fake token leaves the log probabilities alone. -/
def appendToken (token : BeamToken R) (enableScheduleOverlap : Bool) (numTopTokens : Nat) :
    BeamSequence R :=
  if enableScheduleOverlap = true ∧ token.id < 0 then
    { seq with generated := seq.generated ++ [{ id := token.id }] }
  else
    { seq with
      generated := seq.generated ++ [({ id := token.id } : BeamToken R).updateLogprob token
        numTopTokens]
      updatedSinceLastBeamSearch := true }

def updateLastStepToken (token : BeamToken R) (numTopTokens : Nat) :
    Except BeamCheck (BeamSequence R) :=
  let index := seq.curGeneratedTokenIdx - seq.promptTokens.length
  match seq.generated[index]? with
  | none => .error .outOfBounds
  | some old =>
      .ok { seq with
        generated := seq.generated.set index (old.updateLogprob token numTopTokens)
        curGeneratedTokenIdx := seq.curGeneratedTokenIdx + 1
        updatedSinceLastBeamSearch := true }

end BeamSequence

structure BeamCandidate (R : Type) where
  sourceIndex : Nat
  logprobSum : R
  overrideLastToken : Bool := false
  lastTokenId : Token := 0
  lastTokenLogprob : Option R := none
  deriving DecidableEq

/-- What `process_beam_search` of a group depends on. -/
structure BeamSearch (R : Type) [LinearOrder R] where
  beamWidth : Nat
  wide : 1 < beamWidth
  topLogprobs : Nat
  enableScheduleOverlap : Bool
  finished : List Token → Bool
  queue : Queue (BeamCandidate.logprobSum (R := R))

namespace BeamSearch

variable [AddCommGroup R] [LinearOrder R] (c : BeamSearch R)

def topk : Nat := max 1 c.topLogprobs

def selfCandidate (index : Nat) (accLogprob : R) : BeamCandidate R where
  sourceIndex := index
  logprobSum := accLogprob

/-- The beam with another last token. -/
def extension (index : Nat) (baseLogprob : R) (top : Int64 × R) : BeamCandidate R where
  sourceIndex := index
  logprobSum := baseLogprob + top.2
  overrideLastToken := true
  lastTokenId := top.1.toInt32
  lastTokenLogprob := some top.2

def lastTops (seq : BeamSequence R) : List (Int64 × R) :=
  match seq.generated.getLast? with
  | none => []
  | some last => (last.topTokens.zip last.topLogprobs).take c.topk

/-- The sequence goes on as it is: it was finished before this step, or there is nothing to
extend it by. -/
def KeepsSelf (seq : BeamSequence R) : Prop :=
  (c.finished seq.tokens = true ∧ seq.updatedSinceLastBeamSearch = false) ∨ c.lastTops seq = []

instance (seq : BeamSequence R) : Decidable (c.KeepsSelf seq) :=
  inferInstanceAs (Decidable (_ ∨ _))

/-- The body of the loop over the sequences. -/
def considerBeam (heap : List (BeamCandidate R)) (index : Nat) (seq : BeamSequence R) :
    Except BeamCheck (List (BeamCandidate R) × BeamSequence R) :=
  if c.KeepsSelf seq then do
    let (accLogprob, seq) ← seq.getAccLogprob
    .ok (c.queue.insert c.beamWidth heap (selfCandidate index accLogprob), seq)
  else do
    let (baseLogprob, seq) ← seq.getBaseLogprob
    .ok (c.queue.insertWhile c.beamWidth heap
      ((c.lastTops seq).map (extension index baseLogprob)), seq)

def considerBeams : Nat → List (BeamSequence R) → List (BeamCandidate R) →
    Except BeamCheck (List (BeamCandidate R) × List (BeamSequence R))
  | _, [], heap => .ok (heap, [])
  | index, seq :: rest, heap => do
      let (heap, seq) ← c.considerBeam heap index seq
      let (heap, rest) ← considerBeams (index + 1) rest heap
      .ok (heap, seq :: rest)

/-- The tokens that a kept sequence gets, with their log probabilities. -/
def newTokens (source : BeamSequence R) (candidate : BeamCandidate R) : List (Token × R) :=
  let suffix := source.generated.map fun token => (token.id, token.value)
  if candidate.overrideLastToken then
    suffix.set (suffix.length - 1) (candidate.lastTokenId, candidate.lastTokenLogprob.getD 0)
  else suffix

def updateToken (old : BeamToken R) (new : Token × R) : BeamToken R :=
  { old with id := new.1, logprob := some new.2 }

/-- The sequence that is rewritten for a candidate: the one in its slot when it is as long as
the source, a copy of the source otherwise. -/
def nextSeq (group : List (BeamSequence R)) (index : Nat) (source : BeamSequence R) :
    BeamSequence R :=
  match group[index]? with
  | none => source
  | some own =>
      if own.promptTokens.length = source.promptTokens.length ∧
          own.generated.length = source.generated.length then own else source

def rewriteBeam (source : BeamSequence R) (candidate : BeamCandidate R) (needSwap : Bool)
    (next : BeamSequence R) : BeamSequence R :=
  { next with
    generated := next.generated.zipWith updateToken (newTokens source candidate)
    accLogprob := candidate.logprobSum
    lastAccTokenIdx := next.numTokens
    kvState := { next.kvState with srcBlocks := source.kvState.blocks, needSwap := needSwap } }

def buildBeam (group : List (BeamSequence R)) (needSwap : Bool) (index : Nat)
    (candidate : BeamCandidate R) : Except BeamCheck (BeamSequence R) :=
  match group[candidate.sourceIndex]? with
  | none => .error .outOfBounds
  | some source => .ok (rewriteBeam source candidate needSwap (nextSeq group index source))

/-- The loop over the kept candidates. `reused` are the sources so far. -/
def buildBeams (group : List (BeamSequence R)) : List Nat → Nat → List (BeamCandidate R) →
    Except BeamCheck (List (BeamSequence R))
  | _, _, [] => .ok []
  | reused, index, candidate :: rest => do
      let beam ← buildBeam group (candidate.sourceIndex ∈ reused) index candidate
      let beams ← buildBeams group (candidate.sourceIndex :: reused) (index + 1) rest
      .ok (beam :: beams)

def processBeamSearch (group : List (BeamSequence R)) :
    Except BeamCheck (List (BeamSequence R)) := do
  let (heap, group) ← c.considerBeams 0 group []
  let group := group.map fun seq => { seq with updatedSinceLastBeamSearch := false }
  let candidates := c.queue.sorted heap
  if candidates = [] then .ok group
  else buildBeams group [] 0 (candidates.take c.beamWidth)

inductive Op (R : Type) where
  | append (index : Nat) (token : BeamToken R)
  | update (index : Nat) (token : BeamToken R)
  | account (index : Nat)
  | search

def modifyAt (group : List (BeamSequence R)) (index : Nat)
    (f : BeamSequence R → Except BeamCheck (BeamSequence R)) :
    Except BeamCheck (List (BeamSequence R)) :=
  match group[index]? with
  | none => .error .outOfBounds
  | some seq => do
      let seq ← f seq
      .ok (group.set index seq)

def step (group : List (BeamSequence R)) : Op R → Except BeamCheck (List (BeamSequence R))
  | .append index token => modifyAt group index fun seq =>
      .ok (seq.appendToken token c.enableScheduleOverlap c.topLogprobs)
  | .update index token => modifyAt group index fun seq =>
      seq.updateLastStepToken token c.topLogprobs
  | .account index => modifyAt group index fun seq => do
      let (_, seq) ← seq.getAccLogprob
      .ok seq
  | .search => c.processBeamSearch group

end BeamSearch

end Xllm
