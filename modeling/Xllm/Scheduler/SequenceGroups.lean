import Mathlib.Data.Nat.Pairing
import Xllm.Scheduler.World

/-!
# The sequences of a request

A request is created with one sequence. `expand_sequences` adds sequences until there
are `best_of` of them, and `set_preempted` marks the request for good. `GroupWorld` adds
this to a serving process: which sequences a request has and whether it is marked is in
its group, and everything else is as in the process it is built on.
-/

namespace Xllm

/-- What a scheduler reads and changes of a `Request` and its `SequencesGroup`. -/
structure SequencesGroup where
  bestOf : Nat := 1
  /-- Of every sequence, since they share the prompt. -/
  numPromptTokens : Nat := 0
  numSequences : Nat := 1
  preempted : Bool := false
  deriving DecidableEq

namespace SequencesGroup

variable (group : SequencesGroup)

/-- `SequencesGroup::expand_sequences`. `kvTokens` is what the first sequence has in the
cache. -/
def expandSequences (beamSearch : Bool) (kvTokens : Nat) (sharePrefix : Bool) :
    Bool × SequencesGroup :=
  if beamSearch then (false, group)
  else if group.numSequences = group.bestOf then (false, group)
  -- the process ends here with `LOG(FATAL)`
  else if group.bestOf < group.numSequences then (false, group)
  -- the sequences share the blocks of the prompt, which must be complete
  else if sharePrefix = false ∨ group.numPromptTokens ≤ kvTokens then
    (true, { group with numSequences := group.bestOf })
  else (false, group)

/-- The group of a request that has just been created. -/
def Created : Prop := group.numSequences = 1 ∧ group.preempted = false

instance : Decidable group.Created := inferInstanceAs (Decidable (_ ∧ _))

variable {group} {beamSearch sharePrefix : Bool} {kvTokens : Nat}

@[simp] theorem preempted_expandSequences :
    (group.expandSequences beamSearch kvTokens sharePrefix).2.preempted = group.preempted := by
  unfold expandSequences
  repeat' split
  all_goals rfl

@[simp] theorem bestOf_expandSequences :
    (group.expandSequences beamSearch kvTokens sharePrefix).2.bestOf = group.bestOf := by
  unfold expandSequences
  repeat' split
  all_goals rfl

/-- No expansion goes beyond `best_of`. -/
theorem numSequences_expandSequences_le :
    (group.expandSequences beamSearch kvTokens sharePrefix).2.numSequences ≤
      max group.numSequences group.bestOf := by
  unfold expandSequences
  repeat' split
  all_goals first | exact Nat.le_max_left _ _ | exact Nat.le_max_right _ _

theorem numSequences_expandSequences (one : group.numSequences = 1)
    (h : beamSearch = true ∨ group.bestOf ≤ 1) :
    (group.expandSequences beamSearch kvTokens sharePrefix).2.numSequences = 1 := by
  unfold expandSequences
  split
  · exact one
  split
  · exact one
  split
  · exact one
  · -- here `best_of` is neither one nor smaller
    rename_i hbeam hne hlt
    have hbest : group.bestOf ≤ 1 := h.resolve_left hbeam
    omega

end SequencesGroup

structure GroupWorld (W : Type) where
  base : W
  group : RequestId → SequencesGroup

namespace GroupWorld

variable {W : Type}

def setGroup (w : GroupWorld W) (request : RequestId) (group : SequencesGroup) : GroupWorld W :=
  { w with group := Function.update w.group request group }

/-- The sequences of a request are those that a pair of its number and theirs names. -/
def sequences (w : GroupWorld W) (request : RequestId) : List SequenceId :=
  (List.range (w.group request).numSequences).map (Nat.pair request)

@[simp] theorem length_sequences (w : GroupWorld W) (request : RequestId) :
    (w.sequences request).length = (w.group request).numSequences := by
  rw [sequences, List.length_map, List.length_range]

variable [ServingWorld W]

def expandSequences (w : GroupWorld W) (request : RequestId) (sharePrefix : Bool) :
    Bool × GroupWorld W :=
  let (expanded, group) := (w.group request).expandSequences
    (ServingWorld.checkBeamSearch (W := W) request)
    (ServingWorld.kvCacheTokensNum w.base (Nat.pair request 0)) sharePrefix
  (expanded, w.setGroup request group)

instance : ServingWorld (GroupWorld W) where
  sequences := sequences
  /- `SequencesGroup::finished` -/
  requestFinished w request := (w.group request).bestOf ≤ (w.group request).numSequences &&
    (w.sequences request).all (ServingWorld.sequenceFinished w.base)
  requestCancelled w := ServingWorld.requestCancelled w.base
  requestPreempted w request := (w.group request).preempted
  offline := ServingWorld.offline (W := W)
  checkBeamSearch := ServingWorld.checkBeamSearch (W := W)
  sequenceFinished w := ServingWorld.sequenceFinished w.base
  numTokens w := ServingWorld.numTokens w.base
  kvCacheTokensNum w := ServingWorld.kvCacheTokensNum w.base
  hostKvCacheTokensNum w := ServingWorld.hostKvCacheTokensNum w.base
  stage w := ServingWorld.stage w.base
  numKvBlocks w := ServingWorld.numKvBlocks w.base
  sharedKvBlocksNum w := ServingWorld.sharedKvBlocksNum w.base
  numUnsharedCached w := ServingWorld.numUnsharedCached w.base
  needsBeamSwap w := ServingWorld.needsBeamSwap w.base
  currentMaxTokensCapacity w := ServingWorld.currentMaxTokensCapacity w.base
  blockSize w := ServingWorld.blockSize w.base
  numUsedBlocks w := ServingWorld.numUsedBlocks w.base
  numFreeBlocks w := ServingWorld.numFreeBlocks w.base
  kvCacheUtilization w := ServingWorld.kvCacheUtilization w.base
  predictStepTime w := ServingWorld.predictStepTime w.base
  predictStepTimeOf w := ServingWorld.predictStepTimeOf w.base
  constantOverhead w := ServingWorld.constantOverhead w.base
  profileTokenBudget w := ServingWorld.profileTokenBudget w.base
  order w := ServingWorld.order w.base
  order_perm w := ServingWorld.order_perm w.base
  insertRunning w := ServingWorld.insertRunning w.base
  insertRunning_perm w := ServingWorld.insertRunning_perm w.base
  allocate w sequence numTokens :=
    (ServingWorld.allocate w.base sequence numTokens).map fun r => (r.1, { w with base := r.2 })
  deallocate w sequence :=
    (ServingWorld.deallocate w.base sequence).map fun base => { w with base := base }
  allocateShared w sequence :=
    (ServingWorld.allocateShared w.base sequence).map fun base => { w with base := base }
  cache w sequence :=
    (ServingWorld.cache w.base sequence).map fun base => { w with base := base }
  ifCacheBlockForPrefill w sequence :=
    let (ended, base) := ServingWorld.ifCacheBlockForPrefill w.base sequence
    (ended, { w with base := base })
  setPreempted w request := w.setGroup request { w.group request with preempted := true }
  expandSequences := expandSequences
  updatePrefetchResult w request :=
    let (ready, base) := ServingWorld.updatePrefetchResult w.base request
    (ready, { w with base := base })
  updateConnectionStatus w request :=
    { w with base := ServingWorld.updateConnectionStatus w.base request }

end GroupWorld

end Xllm
