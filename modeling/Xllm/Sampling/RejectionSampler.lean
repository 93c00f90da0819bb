import Mathlib.Algebra.BigOperators.Group.Finset.Basic
import Mathlib.Algebra.Order.Ring.Unbundled.Rat
import Mathlib.Data.Fintype.Basic
import Mathlib.Order.Lattice

/-!
# Verifying draft tokens

`RejectionSampler` decides for one sequence which draft tokens the target model accepts.
Behind the first rejected token, which is replaced, the ids are masked out with `-1`, and
the tokens of the output end there. When all draft tokens are accepted a bonus token from
the last row of the target follows.

Rows of tensors are lists, and only the row of one sequence is followed. The rate controller
and the fused kernel are left out.
-/

namespace Xllm.Sampling

open List

/-- `argmax`: the first index of a largest value. -/
def argmax {α : Type*} [LinearOrder α] (values : List α) : Nat :=
  values.findIdx fun x => values.all fun y => decide (y ≤ x)

/-- `Sampler::greedy_sample`, on the probabilities of one row. -/
def greedyToken {α : Type*} [LinearOrder α] (probs : List α) : Int := argmax probs

/-- A truth value as a `torch::kInt64`. -/
def toInt64 (a : Bool) : Int := if a then 1 else 0

def buildAcceptedMask (accepted : List Bool) : List Bool :=
  let combinedMask := accepted.map toInt64 ++ [0]
  let firstRejectedMask := argmax (combinedMask.map fun m => 1 - m)
  (List.range (accepted.length + 1)).map fun i => decide (i ≤ firstRejectedMask)

def maskOut (mask : List Bool) (tokenIds : List Int) : List Int :=
  List.zipWith (fun keep id => if keep then id else -1) mask tokenIds

/-- `RejectionSampler::greedy_sample`: the accepted ids, and the ids that are masked. -/
def greedySample {α : Type*} [LinearOrder α] (draftTokenIds : List Int)
    (targetProbs : List (List α)) (bonusTokenId : Int) : List Int × List Int :=
  let targetTokenIds := targetProbs.map greedyToken
  let acceptedTokenIds := targetTokenIds ++ [bonusTokenId]
  let accepted := List.zipWith (fun t d => decide (t = d)) targetTokenIds draftTokenIds
  (acceptedTokenIds, maskOut (buildAcceptedMask accepted) acceptedTokenIds)

/-- The tokens of an output row, which end at the first masked id. -/
def outputTokens (nextTokens : List Int) : List Int := nextTokens.takeWhile (· ≠ -1)

inductive DraftProbs (vocabSize : Nat)
  | dense (row : Fin vocabSize → ℚ)
  | selected (prob : ℚ)

section Random

variable {vocabSize : Nat}

def DraftProbs.selectedDraftProb (draftTokenId : Fin vocabSize) : DraftProbs vocabSize → ℚ
  | .dense row => row draftTokenId
  | .selected prob => prob

/-- The quotient of the probabilities, which a number below one is compared with. Over a draft
probability of zero it is infinite, which accepts as one does, or `0 / 0`, which accepts
nothing. -/
def acceptanceProb (targetProbs : Fin vocabSize → ℚ) (draftProbs : DraftProbs vocabSize)
    (draftTokenId : Fin vocabSize) : ℚ :=
  if draftProbs.selectedDraftProb draftTokenId = 0 then
    if targetProbs draftTokenId = 0 then 0 else 1
  else targetProbs draftTokenId / draftProbs.selectedDraftProb draftTokenId

/-- What is left of the target, in front of the division by its sum. -/
def remainingProbs (targetProbs : Fin vocabSize → ℚ) (draftTokenId : Fin vocabSize) :
    DraftProbs vocabSize → Fin vocabSize → ℚ
  | .selected _ => Function.update targetProbs draftTokenId 0
  | .dense row => fun x => max (targetProbs x - row x) 0

def epsilon : ℚ := 1 / 1000000

def recoveredProbs (targetProbs : Fin vocabSize → ℚ) (draftProbs : DraftProbs vocabSize)
    (draftTokenId : Fin vocabSize) : Fin vocabSize → ℚ :=
  let remaining := remainingProbs targetProbs draftTokenId draftProbs
  fun x => remaining x / max (∑ y, remaining y) epsilon

/-- One position of `random_sample`, with the token that is drawn from `recovered_probs`. -/
structure Position (vocabSize : Nat) where
  draftTokenId : Fin vocabSize
  draftProbs : DraftProbs vocabSize
  targetProbs : Fin vocabSize → ℚ
  uniformRand : ℚ
  recoveredTokenId : Fin vocabSize

def Position.accepted (place : Position vocabSize) : Bool :=
  decide (place.uniformRand < acceptanceProb place.targetProbs place.draftProbs place.draftTokenId)

def Position.combined (place : Position vocabSize) : Fin vocabSize :=
  if place.accepted then place.draftTokenId else place.recoveredTokenId

/-- `RejectionSampler::random_sample`: the accepted ids, and the ids that are masked. -/
def randomSample (positions : List (Position vocabSize)) (bonusTokenId : Fin vocabSize) :
    List Int × List Int :=
  let acceptedTokenIds := positions.map (fun place => (place.combined.val : Int)) ++
    [(bonusTokenId.val : Int)]
  (acceptedTokenIds,
    maskOut (buildAcceptedMask (positions.map Position.accepted)) acceptedTokenIds)

end Random

theorem findIdx_congr {α : Type*} {f g : α → Bool} {values : List α}
    (h : ∀ x ∈ values, f x = g x) : values.findIdx f = values.findIdx g := by
  induction values with
  | nil => rfl
  | cons x values ih =>
      rw [findIdx_cons, findIdx_cons, h x mem_cons_self,
        ih fun y hy => h y (mem_cons_of_mem x hy)]

theorem argmax_eq_findIdx {α : Type*} [LinearOrder α] {values : List α} {m : α}
    (hmem : m ∈ values) (hle : ∀ y ∈ values, y ≤ m) :
    argmax values = values.findIdx fun x => decide (x = m) := by
  refine findIdx_congr fun x hx => ?_
  rw [Bool.eq_iff_iff, all_eq_true, decide_eq_true_iff]
  constructor
  · intro h
    exact le_antisymm (hle x hx) (of_decide_eq_true (h m hmem))
  · rintro rfl y hy
    exact decide_eq_true (hle y hy)

/-- The number of tokens in front of the first rejected one. -/
def numAccepted (accepted : List Bool) : Nat := accepted.findIdx fun a => !a

section Mask

variable {accepted : List Bool} {tokenIds : List Int}

theorem numAccepted_le : numAccepted accepted ≤ accepted.length := findIdx_le_length

theorem argmax_inverted (accepted : List Bool) :
    argmax ((accepted.map toInt64 ++ [0]).map fun m => 1 - m) = numAccepted accepted := by
  have hbonus : (1 : Int) ∈ (accepted.map toInt64 ++ [0]).map fun m => 1 - m :=
    List.mem_map.mpr ⟨0, mem_append_right _ (mem_singleton_self _), rfl⟩
  have hle : ∀ y ∈ (accepted.map toInt64 ++ [0]).map fun m => 1 - m, y ≤ 1 := by
    intro y hy
    obtain ⟨m, hm, rfl⟩ := List.mem_map.mp hy
    have hnonneg : 0 ≤ m := by
      rcases List.mem_append.mp hm with hm | hm
      · obtain ⟨a, -, rfl⟩ := List.mem_map.mp hm
        cases a
        · decide
        · decide
      · rw [List.mem_singleton.mp hm]
    omega
  rw [argmax_eq_findIdx hbonus hle, numAccepted]
  clear hbonus hle
  induction accepted with
  | nil => rfl
  | cons a accepted ih =>
      cases a with
      | false => rfl
      | true =>
          rw [map_cons, cons_append, map_cons, findIdx_cons, ih,
            findIdx_cons]
          rfl

theorem maskOut_buildAcceptedMask (hlength : tokenIds.length = accepted.length + 1) :
    maskOut (buildAcceptedMask accepted) tokenIds =
      tokenIds.take (numAccepted accepted + 1) ++
        replicate (accepted.length - numAccepted accepted) (-1) := by
  have hle : numAccepted accepted ≤ accepted.length := numAccepted_le
  rw [buildAcceptedMask, argmax_inverted, maskOut]
  refine ext_getElem ?_ ?_
  · simp only [length_zipWith, length_map, length_range, length_append,
      length_take, length_replicate]
    omega
  · intro i hi hi'
    rw [getElem_zipWith, getElem_map, getElem_range]
    by_cases hkeep : i ≤ numAccepted accepted
    · rw [if_pos (decide_eq_true hkeep),
        getElem_append_left (by rw [length_take]; omega), getElem_take]
    · rw [if_neg (by simpa using hkeep),
        getElem_append_right (by rw [length_take]; omega), getElem_replicate]

theorem outputTokens_maskOut (hlength : tokenIds.length = accepted.length + 1)
    (hids : ∀ id ∈ tokenIds, id ≠ -1) :
    outputTokens (maskOut (buildAcceptedMask accepted) tokenIds) =
      tokenIds.take (numAccepted accepted + 1) := by
  rw [maskOut_buildAcceptedMask hlength, outputTokens, takeWhile_append_of_pos]
  · rw [takeWhile_replicate]
    simp
  · intro id hid
    exact decide_eq_true (hids id (mem_of_mem_take hid))

end Mask

variable {vocabSize : Nat} {positions : List (Position vocabSize)} {bonusTokenId : Fin vocabSize}

/-- Rejection sampling, one token after the other. -/
def sampled : List (Position vocabSize) → Fin vocabSize → List Int
  | [], bonusTokenId => [(bonusTokenId.val : Int)]
  | place :: positions, bonusTokenId =>
      if place.accepted then place.draftTokenId.val :: sampled positions bonusTokenId
      else [(place.recoveredTokenId.val : Int)]

theorem take_combined : (positions.map (fun place => (place.combined.val : Int)) ++
    [(bonusTokenId.val : Int)]).take (numAccepted (positions.map Position.accepted) + 1) =
      sampled positions bonusTokenId := by
  induction positions with
  | nil => rfl
  | cons place positions ih =>
      rw [sampled, ← ih, map_cons, map_cons,
        numAccepted, findIdx_cons, Position.combined]
      cases place.accepted
      · rfl
      · rfl

/-- The masked row of `random_sample` is the sequence of these tokens, filled up with `-1`. -/
theorem randomSample_masked : (randomSample positions bonusTokenId).2 =
    sampled positions bonusTokenId ++ replicate
      (positions.length + 1 - (sampled positions bonusTokenId).length) (-1) := by
  rw [randomSample, maskOut_buildAcceptedMask (by simp), ← take_combined, length_take]
  refine congrArg (_ ++ replicate · (-1)) ?_
  simp only [length_append, length_map, length_singleton]
  omega

end Xllm.Sampling
