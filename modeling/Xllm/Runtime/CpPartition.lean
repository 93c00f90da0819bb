import Mathlib.Data.List.Induction
import Mathlib.Data.List.Nodup
import Mathlib.Algebra.GroupWithZero.Nat
import Mathlib.Tactic.Ring

/-!
# Splitting a prefill batch over ranks

`RawForwardInput::cp_partition` gives every rank its part of a prefill batch. A sequence is
cut into `2 * cp_size` chunks, and a rank takes one chunk from the front and the one as far
from the back. The indices of the selected tokens become indices into what the ranks gather,
one rank behind the other.

Lengths and indices are `int32_t` and `int64_t` in the source. They count tokens of one
batch and do not reach the bounds of these types.
-/

namespace Xllm.ContextParallel

open List

/-- The fields of `RawForwardInput` that `cp_partition` reads or writes. -/
structure RawForwardInput where
  flattenTokensVec : List Int32 := []
  flattenPositionsVec : List Int32 := []
  selectedTokenIdxes : List Int := []
  isPrefill : Bool := true
  numSequences : Nat := 0
  maxSeqLen : Nat := 0
  qMaxSeqLen : Nat := 0
  seqLens : List Int := []
  qSeqLens : List Int := []
  qCuSeqLens : List Int := []

/-- `is_cumsum`: the vector has a leading zero and one more element than sequences. -/
def isCumsum (numSequences : Nat) (lens : List Int) : Bool :=
  lens.length = numSequences + 1 ∧ lens.head? = some 0

/-- `to_seq_lens`. Too few lengths fail a check. -/
def toSeqLens (numSequences : Nat) (lens : List Int) : Option (List Nat) :=
  if lens.isEmpty then some (replicate numSequences 0)
  else if isCumsum numSequences lens then
    some (List.zipWith (fun x y => (y - x).toNat) lens lens.tail)
  else if numSequences ≤ lens.length then some ((lens.take numSequences).map Int.toNat)
  else none

def RawForwardInput.inputLens (input : RawForwardInput) : Option (List Nat) :=
  if input.qSeqLens.isEmpty then toSeqLens input.numSequences input.seqLens
  else toSeqLens input.numSequences input.qSeqLens

def rangeLen (inputLen localStart localEnd : Nat) : Nat :=
  min localEnd inputLen - min localStart inputLen

def appendRange (seqStart inputLen localStart localEnd : Nat) : List Nat :=
  (range (rangeLen inputLen localStart localEnd)).map fun i =>
    seqStart + min localStart inputLen + i

def chunkLen (cpSize inputLen : Nat) : Nat := (inputLen + cpSize * 2 - 1) / (cpSize * 2)

/-- What the loop over the sequences has collected. -/
structure Split where
  cpQLens : List Nat := []
  gatherIndices : List Nat := []
  oldSeqOffsets : List Nat := [0]
  cpGlobalMaxSeqLen : Nat := 0

/-- `seq_cp_max`: the longest part of a sequence. -/
def seqCpMax (cpSize inputLen : Nat) : Nat :=
  let c := chunkLen cpSize inputLen
  (range cpSize).foldl (fun m rank => max m
    (rangeLen inputLen (c * rank) (c * (rank + 1)) +
      rangeLen inputLen (c * (cpSize * 2 - 1 - rank)) (c * (cpSize * 2 - rank)))) 0

def Split.addSequence (cpRank cpSize : Nat) (split : Split) (inputLen : Nat) : Split :=
  let seqStart := split.oldSeqOffsets.getLastD 0
  let c := chunkLen cpSize inputLen
  let former := appendRange seqStart inputLen (c * cpRank) (c * (cpRank + 1))
  let latter := appendRange seqStart inputLen (c * (cpSize * 2 - 1 - cpRank))
    (c * (cpSize * 2 - cpRank))
  { cpQLens := split.cpQLens ++ [former.length + latter.length]
    gatherIndices := split.gatherIndices ++ (former ++ latter)
    oldSeqOffsets := split.oldSeqOffsets ++ [seqStart + inputLen]
    cpGlobalMaxSeqLen := max split.cpGlobalMaxSeqLen (seqCpMax cpSize inputLen) }

def splitSequences (cpRank cpSize : Nat) (inputLens : List Nat) : Split :=
  inputLens.foldl (Split.addSequence cpRank cpSize) {}

def gatherTokenLevelVector (tokenNum : Nat) (gatherIndices : List Nat) (src : List Int32) :
    List Int32 :=
  if src.length ≠ tokenNum then src
  else gatherIndices.map fun idx => src.getD idx 0

/-- The cumulative sums of `lengths`, behind `start`. -/
def cumulate (start : Int) : List Nat → List Int
  | [] => []
  | len :: lengths => (start + len) :: cumulate (start + len) lengths

def buildSeqLens (numSequences : Nat) (original : List Int) (lengths : List Nat) : List Int :=
  if isCumsum numSequences original then 0 :: cumulate 0 lengths
  else lengths.map Int.ofNat

/-- `std::upper_bound`: the place of the first offset that is greater. -/
def upperBound (offsets : List Nat) (idx : Int) : Nat :=
  (offsets.takeWhile fun (offset : Nat) => (offset : Int) ≤ idx).length

def selectedSeqIdx (numSequences : Nat) (oldSeqOffsets : List Nat) (oldIdx : Int) : Nat :=
  min (upperBound oldSeqOffsets oldIdx - 1) (numSequences - 1)

/-- `context_len`: the tokens of a sequence up to a selected one. -/
def contextLen (oldSeqOffsets : List Nat) (seqIdx : Nat) (oldIdx : Int) : Nat :=
  let seqStart := oldSeqOffsets.getD seqIdx 0
  let seqEnd := oldSeqOffsets.getD (seqIdx + 1) 0
  (max 1 (min (oldIdx - seqStart + 1) ((seqEnd - seqStart : Nat) : Int))).toNat

def seqContextLens (numSequences : Nat) (oldSeqOffsets : List Nat) (selected : List Int) :
    List Nat :=
  selected.foldl (fun lens oldIdx =>
    let seqIdx := selectedSeqIdx numSequences oldSeqOffsets oldIdx
    lens.modify seqIdx (max · (contextLen oldSeqOffsets seqIdx oldIdx)))
    (replicate numSequences 0)

def remapChunkLen (cpSize seqContextLen : Nat) : Nat := max 1 (chunkLen cpSize seqContextLen)

def tokensPerRank (cpSize c : Nat) : Nat := c * (cpSize * 2) / cpSize

def remapIdx (cpSize : Nat) (oldSeqOffsets contextLens : List Nat) (seqIdx : Nat)
    (oldIdx : Int) : Nat :=
  let chunkLens := contextLens.map (remapChunkLen cpSize)
  let tokenNumPerRank := (chunkLens.map (tokensPerRank cpSize)).sum
  let seqPrefixPerRank := ((chunkLens.take seqIdx).map (tokensPerRank cpSize)).sum
  let seqContextLen := contextLens.getD seqIdx 0
  let c := chunkLens.getD seqIdx 1
  let tokenPos := (max 0 (min (oldIdx - oldSeqOffsets.getD seqIdx 0)
    (seqContextLen - 1 : Int))).toNat
  let chunkId := tokenPos / c
  let offset := tokenPos % c
  let rankId := if chunkId ≥ cpSize then 2 * cpSize - chunkId - 1 else chunkId
  tokenNumPerRank * rankId + seqPrefixPerRank + chunkId / cpSize * c + offset

/-- The remapped `selected_token_idxes`. -/
def remapSelected (numSequences cpSize : Nat) (oldSeqOffsets : List Nat) (selected : List Int) :
    List Int :=
  let contextLens := seqContextLens numSequences oldSeqOffsets selected
  selected.map fun oldIdx =>
    Int.ofNat (remapIdx cpSize oldSeqOffsets contextLens
      (selectedSeqIdx numSequences oldSeqOffsets oldIdx) oldIdx)

def RawForwardInput.cpPartition (input : RawForwardInput) (cpRank cpSize : Nat) :
    Option RawForwardInput :=
  if cpSize ≤ 1 ∨ input.flattenTokensVec.isEmpty ∨ !input.isPrefill then some input
  else do
    guard (cpRank < cpSize)
    guard (0 < input.numSequences)
    let tokenNum := input.flattenTokensVec.length
    let inputLens ← input.inputLens
    let split := splitSequences cpRank cpSize inputLens
    guard (split.oldSeqOffsets.getLastD 0 = tokenNum)
    let gather := gatherTokenLevelVector tokenNum split.gatherIndices
    return { input with
      flattenTokensVec := gather input.flattenTokensVec
      flattenPositionsVec := if input.flattenPositionsVec.isEmpty then []
        else gather input.flattenPositionsVec
      qSeqLens := buildSeqLens input.numSequences input.qSeqLens split.cpQLens
      seqLens := buildSeqLens input.numSequences input.seqLens split.cpQLens
      qCuSeqLens := cumulate 0 split.cpQLens
      qMaxSeqLen := split.cpGlobalMaxSeqLen
      maxSeqLen := split.cpGlobalMaxSeqLen
      selectedTokenIdxes :=
        if input.selectedTokenIdxes.isEmpty then input.selectedTokenIdxes
        else remapSelected input.numSequences cpSize split.oldSeqOffsets
          input.selectedTokenIdxes }

section Sequences

variable {lens : List Nat} {len s t j : Nat}

def seqStart (lens : List Nat) (s : Nat) : Nat := (lens.take s).sum

/-- The sequence `s` has the length `len` and token `j` is one of its tokens. -/
structure At (lens : List Nat) (j s len : Nat) : Prop where
  seq : lens[s]? = some len
  start_le : seqStart lens s ≤ j
  lt : j < seqStart lens s + len

theorem seqStart_succ (h : lens[s]? = some len) :
    seqStart lens (s + 1) = seqStart lens s + len := by
  rw [seqStart, take_add_one, h]
  simp [seqStart]

@[simp] theorem seqStart_append {rest : List Nat} (h : s ≤ lens.length) :
    seqStart (lens ++ rest) s = seqStart lens s := by
  rw [seqStart, take_append_of_le_length h, seqStart]

theorem seqStart_le_sum : seqStart lens s ≤ lens.sum := by
  rw [← take_append_drop s lens, sum_append, take_append_drop]
  exact Nat.le_add_right _ _

theorem seqStart_mono (h : s ≤ t) : seqStart lens s ≤ seqStart lens t := by
  have hle : seqStart (lens.take t) s ≤ (lens.take t).sum := seqStart_le_sum
  rwa [seqStart, take_take, Nat.min_eq_left h] at hle

theorem exists_at (h : j < lens.sum) : ∃ s len, At lens j s len := by
  induction lens using List.reverseRecOn with
  | nil => exact absurd h (Nat.not_lt_zero j)
  | append_singleton lens last ih =>
      rw [sum_append, sum_singleton] at h
      by_cases hj : j < lens.sum
      · obtain ⟨s, len, hseq, hle, hlt⟩ := ih hj
        have hs := (List.getElem?_eq_some_iff.1 hseq).1
        refine ⟨s, len, ?_, ?_, ?_⟩
        · rw [getElem?_append_left hs, hseq]
        · rwa [seqStart_append hs.le]
        · rwa [seqStart_append hs.le]
      · have hstart : seqStart (lens ++ [last]) lens.length = lens.sum := by
          rw [seqStart_append (le_refl _), seqStart, take_length]
        refine ⟨lens.length, last, ?_, ?_, ?_⟩
        · rw [getElem?_append_right (le_refl _), Nat.sub_self]
          rfl
        · omega
        · omega

theorem At.lt_sum (h : At lens j s len) : j < lens.sum := by
  have hend := seqStart_succ h.seq
  have hle : seqStart lens (s + 1) ≤ lens.sum := seqStart_le_sum
  have hlt := h.lt
  omega

theorem At.unique {len' : Nat} (h : At lens j s len) (h' : At lens j t len') :
    s = t ∧ len = len' := by
  have hst : s = t := by
    rcases Nat.lt_trichotomy s t with hlt | heq | hlt
    · have hle : seqStart lens (s + 1) ≤ seqStart lens t := seqStart_mono hlt
      rw [seqStart_succ h.seq] at hle
      have hj := h.lt
      have hj' := h'.start_le
      omega
    · exact heq
    · have hle : seqStart lens (t + 1) ≤ seqStart lens s := seqStart_mono hlt
      rw [seqStart_succ h'.seq] at hle
      have hj := h'.lt
      have hj' := h.start_le
      omega
  subst hst
  exact ⟨rfl, Option.some.inj (h.seq.symm.trans h'.seq)⟩

end Sequences

section Parts

variable {cp r c p start len a b j : Nat} {lens : List Nat}

theorem mem_appendRange :
    j ∈ appendRange start len a b ↔ start + a ≤ j ∧ j < start + min b len := by
  rw [appendRange, mem_map]
  constructor
  · rintro ⟨i, hi, rfl⟩
    rw [mem_range, rangeLen] at hi
    omega
  · rintro ⟨hle, hlt⟩
    refine ⟨j - (start + a), ?_, by omega⟩
    rw [mem_range, rangeLen]
    omega

theorem pairwise_appendRange : (appendRange start len a b).Pairwise (· < ·) := by
  rw [appendRange, pairwise_map]
  exact List.pairwise_lt_range.imp fun h => Nat.add_lt_add_left h _

@[simp] theorem length_appendRange : (appendRange start len a b).length = rangeLen len a b := by
  rw [appendRange, length_map, length_range]

def part (cp r start len : Nat) : List Nat :=
  appendRange start len (chunkLen cp len * r) (chunkLen cp len * (r + 1)) ++
    appendRange start len (chunkLen cp len * (cp * 2 - 1 - r)) (chunkLen cp len * (cp * 2 - r))

/-- The rank of a position, for a chunk length. -/
def rankOf (cp c p : Nat) : Nat := if p / c ≥ cp then 2 * cp - p / c - 1 else p / c

theorem le_chunkLen_mul (hcp : 0 < cp) (len : Nat) : len ≤ chunkLen cp len * (cp * 2) := by
  have hdiv := Nat.div_add_mod (len + cp * 2 - 1) (cp * 2)
  have hmod := Nat.mod_lt (len + cp * 2 - 1) (show 0 < cp * 2 by omega)
  rw [chunkLen, Nat.mul_comm]
  omega

theorem div_lt_of_lt (hcp : 0 < cp) (h : p < len) : p / chunkLen cp len < cp * 2 := by
  have hle := le_chunkLen_mul hcp len
  exact Nat.div_lt_of_lt_mul (Nat.lt_of_lt_of_le h hle)

theorem chunkLen_pos (hcp : 0 < cp) (h : 0 < len) : 0 < chunkLen cp len := by
  have hle := le_chunkLen_mul hcp len
  rcases Nat.eq_zero_or_pos (chunkLen cp len) with hzero | hpos
  · rw [hzero] at hle
    omega
  · exact hpos

theorem mem_chunk {k : Nat} (hc : 0 < c) : (c * k ≤ p ∧ p < c * (k + 1)) ↔ p / c = k := by
  rw [Nat.div_eq_iff hc, Nat.mul_comm c k, Nat.mul_comm c (k + 1), Nat.add_mul]
  omega

theorem mem_part (hr : r < cp) :
    j ∈ part cp r start len ↔
      start ≤ j ∧ j < start + len ∧ rankOf cp (chunkLen cp len) (j - start) = r := by
  have hcp : 0 < cp := by omega
  rw [part, mem_append, mem_appendRange, mem_appendRange]
  by_cases hj : start ≤ j ∧ j < start + len
  · obtain ⟨p, rfl⟩ := Nat.exists_eq_add_of_le hj.1
    have hp : p < len := by omega
    have hc := chunkLen_pos hcp (show 0 < len by omega)
    have hk := div_lt_of_lt hcp hp
    have hfirst := mem_chunk (p := p) (k := r) hc
    have hsecond := mem_chunk (p := p) (k := cp * 2 - 1 - r) hc
    rw [show cp * 2 - 1 - r + 1 = cp * 2 - r by omega] at hsecond
    rw [Nat.add_sub_cancel_left, rankOf]
    have hrank : (if p / chunkLen cp len ≥ cp then 2 * cp - p / chunkLen cp len - 1
        else p / chunkLen cp len) = r ↔
        p / chunkLen cp len = r ∨ p / chunkLen cp len = cp * 2 - 1 - r := by
      split <;> omega
    omega
  · constructor
    · intro h
      exact absurd (by omega) hj
    · rintro ⟨h₁, h₂, -⟩
      exact absurd ⟨h₁, h₂⟩ hj

theorem pairwise_part (hr : r < cp) : (part cp r start len).Pairwise (· < ·) := by
  rw [part, pairwise_append]
  refine ⟨pairwise_appendRange, pairwise_appendRange, ?_⟩
  intro i hi j hj
  rw [mem_appendRange] at hi hj
  have hle : chunkLen cp len * (r + 1) ≤ chunkLen cp len * (cp * 2 - 1 - r) :=
    Nat.mul_le_mul_left _ (by omega)
  omega

end Parts

section Split

variable {cp r j s len : Nat} {lens : List Nat}

theorem splitSequences_append_singleton (lens : List Nat) (len : Nat) :
    splitSequences r cp (lens ++ [len]) = (splitSequences r cp lens).addSequence r cp len := by
  rw [splitSequences, foldl_append]
  rfl

theorem oldSeqOffsets_getLastD (lens : List Nat) :
    (splitSequences r cp lens).oldSeqOffsets.getLastD 0 = lens.sum := by
  induction lens using List.reverseRecOn with
  | nil => rfl
  | append_singleton lens len ih =>
      rw [splitSequences_append_singleton, Split.addSequence, ih, sum_append,
        sum_singleton, getLastD_concat]

theorem oldSeqOffsets_eq (lens : List Nat) :
    (splitSequences r cp lens).oldSeqOffsets =
      (range (lens.length + 1)).map (seqStart lens) := by
  induction lens using List.reverseRecOn with
  | nil => rfl
  | append_singleton lens len ih =>
      have hstarts : (range (lens.length + 1)).map (seqStart (lens ++ [len])) =
          (range (lens.length + 1)).map (seqStart lens) :=
        map_congr_left fun s hs =>
          seqStart_append (Nat.le_of_lt_succ (List.mem_range.1 hs))
      have hend : seqStart (lens ++ [len]) (lens.length + 1) = lens.sum + len := by
        rw [seqStart, take_of_length_le (by simp), sum_append, sum_singleton]
      rw [splitSequences_append_singleton, length_append, length_singleton,
        range_succ, map_append, hstarts, map_singleton, hend, ← ih,
        ← oldSeqOffsets_getLastD lens]
      rfl

@[simp] theorem gatherIndices_append_singleton (lens : List Nat) (len : Nat) :
    (splitSequences r cp (lens ++ [len])).gatherIndices =
      (splitSequences r cp lens).gatherIndices ++ part cp r lens.sum len := by
  rw [splitSequences_append_singleton, Split.addSequence, oldSeqOffsets_getLastD]
  rfl

@[simp] theorem cpQLens_append_singleton (lens : List Nat) (len : Nat) :
    (splitSequences r cp (lens ++ [len])).cpQLens =
      (splitSequences r cp lens).cpQLens ++ [(part cp r lens.sum len).length] := by
  rw [splitSequences_append_singleton, Split.addSequence, oldSeqOffsets_getLastD, part,
    length_append]

theorem lt_sum_of_mem_gatherIndices (hr : r < cp)
    (h : j ∈ (splitSequences r cp lens).gatherIndices) : j < lens.sum := by
  induction lens using List.reverseRecOn with
  | nil => cases h
  | append_singleton lens len ih =>
      rw [gatherIndices_append_singleton, mem_append, mem_part hr] at h
      rw [sum_append, sum_singleton]
      rcases h with h | h
      · have hlt := ih h
        omega
      · omega

theorem pairwise_gatherIndices (hr : r < cp) :
    (splitSequences r cp lens).gatherIndices.Pairwise (· < ·) := by
  induction lens using List.reverseRecOn with
  | nil => exact List.Pairwise.nil
  | append_singleton lens len ih =>
      rw [gatherIndices_append_singleton, pairwise_append]
      refine ⟨ih, pairwise_part hr, ?_⟩
      intro i hi j hj
      exact Nat.lt_of_lt_of_le (lt_sum_of_mem_gatherIndices hr hi) ((mem_part hr).1 hj).1

theorem At.append_singleton (h : At lens j s len) (last : Nat) :
    At (lens ++ [last]) j s len := by
  have hs := (List.getElem?_eq_some_iff.1 h.seq).1
  refine ⟨?_, ?_, ?_⟩
  · rw [getElem?_append_left hs, h.seq]
  · rw [seqStart_append hs.le]
    exact h.start_le
  · rw [seqStart_append hs.le]
    exact h.lt

theorem seqStart_length (lens rest : List Nat) :
    seqStart (lens ++ rest) lens.length = lens.sum := by
  rw [seqStart_append (le_refl _), seqStart, take_length]

/-- A rank gathers the tokens of its two chunks. -/
theorem mem_gatherIndices (hr : r < cp) (h : At lens j s len) :
    j ∈ (splitSequences r cp lens).gatherIndices ↔
      rankOf cp (chunkLen cp len) (j - seqStart lens s) = r := by
  induction lens using List.reverseRecOn with
  | nil => cases h.seq
  | append_singleton lens last ih =>
      rw [gatherIndices_append_singleton, mem_append, mem_part hr]
      by_cases hj : j < lens.sum
      · obtain ⟨t, len', hat⟩ := exists_at hj
        obtain ⟨rfl, rfl⟩ := (hat.append_singleton last).unique h
        have hs := (List.getElem?_eq_some_iff.1 hat.seq).1
        rw [ih hat, seqStart_append hs.le]
        constructor
        · rintro (hrank | hlast)
          · exact hrank
          · omega
        · exact Or.inl
      · have hlast : At (lens ++ [last]) j lens.length last := by
          refine ⟨?_, ?_, ?_⟩
          · rw [getElem?_append_right (le_refl _), Nat.sub_self]
            rfl
          · rw [seqStart_length]
            omega
          · have hlt := h.lt_sum
            rw [sum_append] at hlt
            rw [seqStart_length]
            exact hlt
        obtain ⟨rfl, rfl⟩ := hlast.unique h
        have hlt := hlast.lt
        rw [seqStart_length] at hlt ⊢
        constructor
        · rintro (hmem | hpart)
          · exact absurd (lt_sum_of_mem_gatherIndices hr hmem) hj
          · exact hpart.2.2
        · intro hrank
          exact Or.inr ⟨by omega, hlt, hrank⟩

/-- What the ranks gather, one behind the other. -/
def gathered (cp : Nat) (lens : List Nat) : List Nat :=
  (range cp).flatMap fun r => (splitSequences r cp lens).gatherIndices

theorem rankOf_lt (hcp : 0 < cp) (c p : Nat) : rankOf cp c p < cp := by
  rw [rankOf]
  split <;> omega

theorem gathered_perm (hcp : 0 < cp) (lens : List Nat) :
    (gathered cp lens).Perm (range lens.sum) := by
  rw [perm_ext_iff_of_nodup _ nodup_range]
  · intro j
    rw [gathered, mem_flatMap, mem_range]
    constructor
    · rintro ⟨r, hr, hmem⟩
      exact lt_sum_of_mem_gatherIndices (List.mem_range.1 hr) hmem
    · intro hj
      obtain ⟨s, len, hat⟩ := exists_at hj
      have hstart := hat.start_le
      have hlt := hat.lt
      have hrank := rankOf_lt hcp (chunkLen cp len) (j - seqStart lens s)
      exact ⟨_, List.mem_range.2 hrank, (mem_gatherIndices hrank hat).2 rfl⟩
  · rw [gathered, nodup_flatMap]
    constructor
    · intro r hr
      exact (pairwise_gatherIndices (List.mem_range.1 hr)).imp fun h => Nat.ne_of_lt h
    · refine List.pairwise_lt_range.imp_of_mem ?_
      intro r t hr ht hlt j hj hj'
      rw [mem_range] at hr ht
      obtain ⟨s, len, hat⟩ := exists_at (lt_sum_of_mem_gatherIndices hr hj)
      have heq := ((mem_gatherIndices hr hat).1 hj).symm.trans ((mem_gatherIndices ht hat).1 hj')
      omega

/-- The tokens of sequence `s` among some indices. -/
def countIn (lens : List Nat) (indices : List Nat) (s : Nat) : Nat :=
  indices.countP fun j => seqStart lens s ≤ j ∧ j < seqStart lens (s + 1)

@[simp] theorem countIn_append (lens indices indices' : List Nat) (s : Nat) :
    countIn lens (indices ++ indices') s = countIn lens indices s + countIn lens indices' s :=
  countP_append

theorem cpQLens_eq (hr : r < cp) (lens : List Nat) :
    (splitSequences r cp lens).cpQLens =
      (range lens.length).map (countIn lens (splitSequences r cp lens).gatherIndices) := by
  induction lens using List.reverseRecOn with
  | nil => rfl
  | append_singleton lens len ih =>
      have hend : seqStart (lens ++ [len]) (lens.length + 1) = lens.sum + len := by
        rw [seqStart, take_of_length_le (by simp), sum_append, sum_singleton]
      have hfirst : ∀ s ∈ range lens.length,
          countIn (lens ++ [len]) (splitSequences r cp (lens ++ [len])).gatherIndices s =
            countIn lens (splitSequences r cp lens).gatherIndices s := by
        intro s hs
        have hlt := List.mem_range.1 hs
        have hsucc : s + 1 ≤ lens.length := hlt
        have hzero : countIn (lens ++ [len]) (part cp r lens.sum len) s = 0 := by
          rw [countIn, countP_eq_zero,
            seqStart_append hsucc]
          intro j hj
          have hle : seqStart lens (s + 1) ≤ lens.sum := seqStart_le_sum
          have hge := ((mem_part hr).1 hj).1
          simp only [decide_eq_true_eq]
          omega
        rw [gatherIndices_append_singleton, countIn_append, hzero, Nat.add_zero, countIn, countIn,
          seqStart_append hlt.le, seqStart_append hsucc]
      have hlast : countIn (lens ++ [len]) (splitSequences r cp (lens ++ [len])).gatherIndices
          lens.length = (part cp r lens.sum len).length := by
        have hzero : countIn (lens ++ [len]) (splitSequences r cp lens).gatherIndices
            lens.length = 0 := by
          rw [countIn, countP_eq_zero, seqStart_length]
          intro j hj
          have hlt := lt_sum_of_mem_gatherIndices hr hj
          simp only [decide_eq_true_eq]
          omega
        rw [gatherIndices_append_singleton, countIn_append, hzero, Nat.zero_add, countIn,
          countP_eq_length, seqStart_length]
        intro j hj
        have hpart := (mem_part hr).1 hj
        simp only [decide_eq_true_eq]
        omega
      rw [cpQLens_append_singleton, length_append, length_singleton, range_succ,
        map_append, map_congr_left hfirst, ← ih, map_singleton, hlast]

end Split

section Lengths

@[simp] theorem length_cumulate (start : Int) (lengths : List Nat) :
    (cumulate start lengths).length = lengths.length := by
  induction lengths generalizing start with
  | nil => rfl
  | cons len lengths ih => rw [cumulate, length_cons, ih, length_cons]

theorem differences_cumulate (start : Int) (lengths : List Nat) :
    List.zipWith (fun x y => (y - x).toNat) (start :: cumulate start lengths)
      (cumulate start lengths) = lengths := by
  induction lengths generalizing start with
  | nil => rfl
  | cons len lengths ih =>
      rw [cumulate, zipWith_cons_cons, ih, add_sub_cancel_left, Int.toNat_natCast]

theorem toSeqLens_buildSeqLens {numSequences : Nat} {lengths : List Nat} (original : List Int)
    (hlength : lengths.length = numSequences) (hpos : 0 < numSequences) :
    toSeqLens numSequences (buildSeqLens numSequences original lengths) = some lengths := by
  rw [buildSeqLens]
  split
  · have hcumsum : isCumsum numSequences (0 :: cumulate 0 lengths) = true := by
      simp [isCumsum, length_cumulate, hlength]
    rw [toSeqLens, hcumsum, tail_cons, differences_cumulate]
    rfl
  · have hempty : (lengths.map Int.ofNat).isEmpty = false := by
      cases lengths with
      | nil => exact absurd hlength (Nat.ne_of_lt hpos)
      | cons len lengths => rfl
    have hcumsum : isCumsum numSequences (lengths.map Int.ofNat) = false := by
      simp [isCumsum, hlength]
    rw [toSeqLens, hempty, hcumsum, length_map, hlength,
      take_of_length_le (by rw [length_map, hlength])]
    simp [Function.comp_def]

theorem length_toSeqLens {numSequences : Nat} {lens : List Int} {lengths : List Nat}
    (h : toSeqLens numSequences lens = some lengths) : lengths.length = numSequences := by
  rw [toSeqLens] at h
  split at h
  · rw [← Option.some.inj h, length_replicate]
  · split at h
    · rename_i hcumsum
      have hlength : lens.length = numSequences + 1 := (of_decide_eq_true hcumsum).1
      rw [← Option.some.inj h, length_zipWith, length_tail]
      omega
    · split at h
      · rename_i hle
        rw [← Option.some.inj h, length_map, length_take, Nat.min_eq_left hle]
      · cases h

theorem length_inputLens {input : RawForwardInput} {lens : List Nat}
    (h : input.inputLens = some lens) : lens.length = input.numSequences := by
  rw [RawForwardInput.inputLens] at h
  split at h
  · exact length_toSeqLens h
  · exact length_toSeqLens h

end Lengths

section Position

variable {cp r s c p i start len j : Nat} {lens : List Nat}

/-- The tokens of one rank, when every length is a multiple of `2 * cp`. -/
def perRank (cp : Nat) (lens : List Nat) : Nat := (lens.map fun len => 2 * chunkLen cp len).sum

@[simp] theorem perRank_append_singleton (lens : List Nat) (len : Nat) :
    perRank cp (lens ++ [len]) = perRank cp lens + 2 * chunkLen cp len := by
  rw [perRank, map_append, sum_append, map_singleton, sum_singleton, perRank]

@[simp] theorem chunkLen_mul (hcp : 0 < cp) (c : Nat) : chunkLen cp (cp * 2 * c) = c := by
  rw [chunkLen, Nat.div_eq_iff (by omega), Nat.mul_comm c]
  omega

theorem mul_chunkLen (hcp : 0 < cp) (h : cp * 2 ∣ len) : cp * 2 * chunkLen cp len = len := by
  obtain ⟨c, rfl⟩ := h
  rw [chunkLen_mul hcp]

theorem rangeLen_chunk {k : Nat} (h : cp * 2 ∣ len) (hk : k < cp * 2) (hcp : 0 < cp) :
    rangeLen len (chunkLen cp len * k) (chunkLen cp len * (k + 1)) = chunkLen cp len := by
  have hlen := mul_chunkLen hcp h
  have hle : chunkLen cp len * (k + 1) ≤ len :=
    calc chunkLen cp len * (k + 1) ≤ chunkLen cp len * (cp * 2) := Nat.mul_le_mul_left _ hk
      _ = len := by rw [Nat.mul_comm, hlen]
  rw [Nat.mul_add] at hle ⊢
  rw [rangeLen]
  omega

theorem length_part (h : cp * 2 ∣ len) (hr : r < cp) :
    (part cp r start len).length = 2 * chunkLen cp len := by
  have hlatter := rangeLen_chunk (k := cp * 2 - 1 - r) h (by omega) (by omega)
  rw [show cp * 2 - 1 - r + 1 = cp * 2 - r by omega] at hlatter
  rw [part, length_append, length_appendRange, length_appendRange,
    rangeLen_chunk h (by omega) (by omega)]
  omega

theorem getElem?_appendRange (hi : i < rangeLen len start j) (base : Nat) :
    (appendRange base len start j)[i]? = some (base + start + i) := by
  have hle : start ≤ len := by
    rw [rangeLen] at hi
    omega
  rw [appendRange, getElem?_map, getElem?_range hi, Option.map_some,
    Nat.min_eq_left hle]

theorem getElem?_part (start : Nat) (hcp : 0 < cp) (h : cp * 2 ∣ len) (hp : p < len)
    (hrank : rankOf cp (chunkLen cp len) p = r) :
    (part cp r start len)[p / chunkLen cp len / cp * chunkLen cp len + p % chunkLen cp len]? =
      some (start + p) := by
  have hc := chunkLen_pos hcp (show 0 < len by omega)
  have hk := div_lt_of_lt hcp hp
  have hmod := Nat.mod_lt p hc
  have hdiv := Nat.div_add_mod p (chunkLen cp len)
  rw [part]
  rw [rankOf] at hrank
  split at hrank
  · have hr : cp * 2 - 1 - r = p / chunkLen cp len := by omega
    have hr' : cp * 2 - r = p / chunkLen cp len + 1 := by omega
    have hone : p / chunkLen cp len / cp = 1 := by
      rw [Nat.div_eq_iff hcp]
      omega
    have hfirst := rangeLen_chunk (k := r) h (by omega) hcp
    have hsecond := rangeLen_chunk (k := p / chunkLen cp len) h hk hcp
    rw [hone, Nat.one_mul, getElem?_append_right (by rw [length_appendRange]; omega),
      length_appendRange, hfirst, Nat.add_sub_cancel_left, hr, hr',
      getElem?_appendRange (by rw [hsecond]; exact hmod), Nat.add_assoc, hdiv]
  · subst hrank
    have hzero : p / chunkLen cp len / cp = 0 := Nat.div_eq_of_lt (by omega)
    have hfirst := rangeLen_chunk (k := p / chunkLen cp len) h hk hcp
    rw [hzero, Nat.zero_mul, Nat.zero_add,
      getElem?_append_left (by rw [length_appendRange, hfirst]; exact hmod),
      getElem?_appendRange (by rw [hfirst]; exact hmod), Nat.add_assoc, hdiv]

theorem length_gatherIndices (hr : r < cp) (h : ∀ len ∈ lens, cp * 2 ∣ len) :
    (splitSequences r cp lens).gatherIndices.length = perRank cp lens := by
  induction lens using List.reverseRecOn with
  | nil => rfl
  | append_singleton lens last ih =>
      rw [forall_mem_append, forall_mem_singleton] at h
      rw [gatherIndices_append_singleton, length_append, ih h.1, length_part h.2 hr,
        perRank_append_singleton]

theorem getElem?_gatherIndices (hr : r < cp) (h : ∀ len ∈ lens, cp * 2 ∣ len)
    (hseq : lens[s]? = some len) (hi : i < 2 * chunkLen cp len) :
    (splitSequences r cp lens).gatherIndices[perRank cp (lens.take s) + i]? =
      (part cp r (seqStart lens s) len)[i]? := by
  induction lens using List.reverseRecOn with
  | nil => cases hseq
  | append_singleton lens last ih =>
      rw [forall_mem_append] at h
      rw [gatherIndices_append_singleton]
      by_cases hs : s < lens.length
      · rw [getElem?_append_left hs] at hseq
        have hrest : perRank cp (lens.take (s + 1)) ≤ perRank cp lens := by
          have hsum : seqStart (lens.map fun len => 2 * chunkLen cp len) (s + 1) ≤
              (lens.map fun len => 2 * chunkLen cp len).sum := seqStart_le_sum
          rwa [seqStart, ← map_take] at hsum
        rw [take_add_one, hseq, Option.toList_some, perRank_append_singleton] at hrest
        rw [take_append_of_le_length hs.le, seqStart_append hs.le,
          getElem?_append_left (by rw [length_gatherIndices hr h.1]; omega), ih h.1 hseq]
      · obtain rfl : s = lens.length := by
          have hlt := (List.getElem?_eq_some_iff.1 hseq).1
          rw [length_append, length_singleton] at hlt
          omega
        rw [getElem?_append_right (le_refl _), Nat.sub_self] at hseq
        obtain rfl := Option.some.inj hseq
        rw [take_append_of_le_length (le_refl _), take_length, seqStart_length,
          getElem?_append_right (by rw [length_gatherIndices hr h.1]; omega),
          length_gatherIndices hr h.1, Nat.add_sub_cancel_left]

theorem getElem?_flatMap_range {f : Nat → List Nat} {n k : Nat}
    (h : ∀ r < k, (f r).length = n) (hr : r < k) (hi : i < n) :
    ((range k).flatMap f)[n * r + i]? = (f r)[i]? := by
  induction k with
  | zero => exact absurd hr (Nat.not_lt_zero r)
  | succ k ih =>
      have hlength : ((range k).flatMap f).length = n * k := by
        rw [length_flatMap, map_congr_left (g := fun _ => n)
          fun r hr => h r (Nat.lt_succ_of_lt (List.mem_range.1 hr)), map_const',
          sum_replicate_nat, length_range, Nat.mul_comm]
      rw [range_succ, flatMap_append, flatMap_singleton]
      by_cases hlt : r < k
      · have hle : n * r + n ≤ n * k := by
          exact Nat.mul_le_mul_left n hlt
        rw [getElem?_append_left (by omega),
          ih (fun r hr => h r (Nat.lt_succ_of_lt hr)) hlt]
      · obtain rfl : r = k := by omega
        rw [getElem?_append_right (by omega), hlength, Nat.add_sub_cancel_left]

/-- The place of a token in what the ranks gather. -/
def place (cp : Nat) (lens : List Nat) (s len p : Nat) : Nat :=
  perRank cp lens * rankOf cp (chunkLen cp len) p + perRank cp (lens.take s) +
    p / chunkLen cp len / cp * chunkLen cp len + p % chunkLen cp len

theorem gathered_place (hcp : 0 < cp) (h : ∀ len ∈ lens, cp * 2 ∣ len) (hat : At lens j s len) :
    (gathered cp lens)[place cp lens s len (j - seqStart lens s)]? = some j := by
  have hstart := hat.start_le
  have hlt := hat.lt
  have hp : j - seqStart lens s < len := by omega
  have hr := rankOf_lt hcp (chunkLen cp len) (j - seqStart lens s)
  have hmem : len ∈ lens := mem_of_getElem? hat.seq
  have hpart := getElem?_part (seqStart lens s) hcp (h len hmem) hp rfl
  have hi := (List.getElem?_eq_some_iff.1 hpart).1
  rw [length_part (h len hmem) hr] at hi
  have hgather := getElem?_gatherIndices hr h hat.seq hi
  have hbound := (List.getElem?_eq_some_iff.1 (hgather.trans hpart)).1
  rw [length_gatherIndices hr h] at hbound
  rw [place, Nat.add_assoc, Nat.add_assoc, gathered,
    getElem?_flatMap_range (fun r hr => length_gatherIndices hr h) hr hbound, hgather, hpart,
    Nat.add_sub_cancel' hstart]

end Position

section Remap

variable {cp n s len j : Nat} {lens : List Nat} {selected : List Int}

theorem length_takeWhile_eq {α : Type} {p : α → Bool} {l : List α} {k : Nat}
    (h : ∀ i < k, ∃ x, l[i]? = some x ∧ p x = true)
    (hk : ∀ x, l[k]? = some x → p x = false) : (l.takeWhile p).length = k := by
  induction l generalizing k with
  | nil =>
      cases k with
      | zero => rfl
      | succ k =>
          obtain ⟨x, hx, -⟩ := h 0 (Nat.succ_pos k)
          cases hx
  | cons y l ih =>
      cases k with
      | zero => rw [takeWhile_cons, hk y rfl]; rfl
      | succ k =>
          obtain ⟨x, hx, hp⟩ := h 0 (Nat.succ_pos k)
          obtain rfl := Option.some.inj hx
          rw [takeWhile_cons, hp, if_pos rfl, length_cons,
            ih (fun i hi => h (i + 1) (Nat.succ_lt_succ hi)) hk]

def offsets (lens : List Nat) : List Nat := (range (lens.length + 1)).map (seqStart lens)

@[simp] theorem getElem?_offsets (hs : s ≤ lens.length) :
    (offsets lens)[s]? = some (seqStart lens s) := by
  rw [offsets, getElem?_map, getElem?_range (Nat.lt_succ_of_le hs), Option.map_some]

theorem getD_offsets (hs : s ≤ lens.length) : (offsets lens).getD s 0 = seqStart lens s := by
  rw [getD_eq_getElem?_getD, getElem?_offsets hs, Option.getD_some]

theorem selectedSeqIdx_eq (hat : At lens j s len) :
    selectedSeqIdx lens.length (offsets lens) j = s := by
  have hs := (List.getElem?_eq_some_iff.1 hat.seq).1
  have hbound : upperBound (offsets lens) j = s + 1 := by
    refine length_takeWhile_eq ?_ ?_
    · intro i hi
      refine ⟨_, getElem?_offsets (by omega), decide_eq_true ?_⟩
      have hle : seqStart lens i ≤ seqStart lens s := seqStart_mono (by omega)
      have hstart := hat.start_le
      omega
    · intro x hx
      rw [getElem?_offsets hs, seqStart_succ hat.seq] at hx
      rw [← Option.some.inj hx]
      have hlt := hat.lt
      exact decide_eq_false (by omega)
  rw [selectedSeqIdx, hbound, Nat.add_sub_cancel, Nat.min_eq_left (by omega)]

theorem contextLen_eq (hat : At lens j s len) :
    contextLen (offsets lens) s j = j - seqStart lens s + 1 := by
  have hs := (List.getElem?_eq_some_iff.1 hat.seq).1
  have hlt := hat.lt
  rw [contextLen, getD_offsets hs.le, getD_offsets hs, seqStart_succ hat.seq]
  omega

section Fold

variable {seqOf ctxOf : Int → Nat} {init : List Nat} {bound : Nat}

/-- The loop over the selected tokens, for any sequence and context of a token. -/
def contexts (seqOf ctxOf : Int → Nat) (init : List Nat) (selected : List Int) : List Nat :=
  selected.foldl (fun lens oldIdx => lens.modify (seqOf oldIdx) (max · (ctxOf oldIdx))) init

@[simp] theorem length_contexts : (contexts seqOf ctxOf init selected).length = init.length := by
  induction selected generalizing init with
  | nil => rfl
  | cons idx selected ih =>
      exact ih.trans (length_modify ..)

theorem getD_modify_max (l : List Nat) (k v : Nat) :
    (l.modify k (max · v)).getD s 0 =
      if k = s ∧ s < l.length then max (l.getD s 0) v else l.getD s 0 := by
  by_cases hs : s < l.length
  · by_cases hk : k = s
    · simp [hk, hs]
    · simp [hk]
  · simp [hs]

theorem init_le_contexts : init.getD s 0 ≤ (contexts seqOf ctxOf init selected).getD s 0 := by
  induction selected generalizing init with
  | nil => exact le_refl _
  | cons idx selected ih =>
      refine le_trans ?_ ih
      rw [getD_modify_max]
      split <;> omega

theorem le_contexts (ctxOf : Int → Nat) {idx : Int} (hidx : idx ∈ selected)
    (hseq : seqOf idx = s) (hs : s < init.length) :
    ctxOf idx ≤ (contexts seqOf ctxOf init selected).getD s 0 := by
  induction selected generalizing init with
  | nil => cases hidx
  | cons first selected ih =>
      rw [contexts, foldl_cons]
      rcases List.mem_cons.1 hidx with rfl | hmem
      · refine le_trans ?_ init_le_contexts
        rw [getD_modify_max, if_pos ⟨hseq, hs⟩]
        exact Nat.le_max_right _ _
      · exact ih hmem (by rw [length_modify]; exact hs)

theorem contexts_le (h : ∀ idx ∈ selected, seqOf idx = s → ctxOf idx ≤ bound)
    (hinit : init.getD s 0 ≤ bound) :
    (contexts seqOf ctxOf init selected).getD s 0 ≤ bound := by
  induction selected generalizing init with
  | nil => exact hinit
  | cons first selected ih =>
      refine ih (fun idx hidx => h idx (mem_cons_of_mem _ hidx)) ?_
      have hfirst := h first mem_cons_self
      rw [getD_modify_max]
      split
      · rename_i hcond
        omega
      · exact hinit

end Fold

theorem seqContextLens_eq (offsets : List Nat) (selected : List Int) :
    seqContextLens n offsets selected =
      contexts (selectedSeqIdx n offsets)
        (fun oldIdx => contextLen offsets (selectedSeqIdx n offsets oldIdx) oldIdx)
        (replicate n 0) selected := rfl

/-- The selected indices are tokens of the batch. -/
def Selects (lens : List Nat) (selected : List Int) : Prop :=
  ∀ idx ∈ selected, 0 ≤ idx ∧ idx < lens.sum

theorem Selects.exists_at {idx : Int} (h : Selects lens selected) (hidx : idx ∈ selected) :
    ∃ j s len, idx = (j : Nat) ∧ At lens j s len := by
  obtain ⟨hnonneg, hlt⟩ := h idx hidx
  obtain ⟨j, rfl⟩ := Int.eq_ofNat_of_zero_le hnonneg
  obtain ⟨s, len, hat⟩ := ContextParallel.exists_at (Int.ofNat_lt.1 hlt)
  exact ⟨j, s, len, rfl, hat⟩

theorem Selects.eq_nil (h : Selects lens selected) (hsum : lens.sum = 0) : selected = [] := by
  refine List.eq_nil_iff_forall_not_mem.2 fun idx hidx => ?_
  obtain ⟨hnonneg, hlt⟩ := h idx hidx
  omega

theorem lt_seqContextLens (hidx : (j : Int) ∈ selected) (hat : At lens j s len) :
    j - seqStart lens s + 1 ≤ (seqContextLens lens.length (offsets lens) selected).getD s 0 := by
  have hs := (List.getElem?_eq_some_iff.1 hat.seq).1
  have hreplicate : s < (replicate lens.length 0).length := by
    rwa [length_replicate]
  have hle := le_contexts
    (fun oldIdx => contextLen (offsets lens)
      (selectedSeqIdx lens.length (offsets lens) oldIdx) oldIdx)
    hidx (selectedSeqIdx_eq hat) hreplicate
  simp only [selectedSeqIdx_eq hat, contextLen_eq hat] at hle
  exact hle

theorem seqContextLens_le (h : Selects lens selected) {bound : Nat}
    (hbound : ∀ j : Nat, (j : Int) ∈ selected → ∀ len, At lens j s len →
      j - seqStart lens s + 1 ≤ bound) :
    (seqContextLens lens.length (offsets lens) selected).getD s 0 ≤ bound := by
  have hzero : (replicate lens.length 0).getD s 0 = 0 := by
    rw [getD_eq_getElem?_getD, getElem?_replicate]
    split <;> rfl
  refine contexts_le ?_ (hzero.le.trans (Nat.zero_le _))
  intro idx hidx hseq
  obtain ⟨j, t, len, rfl, hat⟩ := h.exists_at hidx
  rw [selectedSeqIdx_eq hat] at hseq
  subst hseq
  rw [selectedSeqIdx_eq hat, contextLen_eq hat]
  exact hbound j hidx len hat

@[simp] theorem tokensPerRank_eq (hcp : 0 < cp) (c : Nat) : tokensPerRank cp c = 2 * c := by
  rw [tokensPerRank, Nat.mul_comm cp 2, ← Nat.mul_assoc, Nat.mul_div_cancel _ hcp, Nat.mul_comm]

theorem remapIdx_eq (hcp : 0 < cp) {contextLens : List Nat} (hat : At lens j s len)
    (hlength : contextLens.length = lens.length)
    (hcontext : j - seqStart lens s + 1 ≤ contextLens.getD s 0) :
    remapIdx cp (offsets lens) contextLens s j =
      (contextLens.map fun x => 2 * remapChunkLen cp x).sum *
          rankOf cp (remapChunkLen cp (contextLens.getD s 0)) (j - seqStart lens s) +
        ((contextLens.take s).map fun x => 2 * remapChunkLen cp x).sum +
        (j - seqStart lens s) / remapChunkLen cp (contextLens.getD s 0) / cp *
          remapChunkLen cp (contextLens.getD s 0) +
        (j - seqStart lens s) % remapChunkLen cp (contextLens.getD s 0) := by
  have hs := (List.getElem?_eq_some_iff.1 hat.seq).1
  have hgetD : (contextLens.map (remapChunkLen cp)).getD s 1 =
      remapChunkLen cp (contextLens.getD s 0) := by
    have hlt : s < contextLens.length := hlength ▸ hs
    simp only [getD_eq_getElem?_getD, getElem?_map, getElem?_eq_getElem hlt,
      Option.map_some, Option.getD_some]
  have hpos : (max 0 (min ((j : Int) - (seqStart lens s : Nat))
      ((contextLens.getD s 0 : Nat) - 1 : Int))).toNat = j - seqStart lens s := by
    omega
  have htokens : tokensPerRank cp ∘ remapChunkLen cp = fun x => 2 * remapChunkLen cp x :=
    funext fun x => tokensPerRank_eq hcp _
  simp only [remapIdx, hgetD, getD_offsets hs.le, hpos, ← map_take, map_map, htokens]
  rfl

@[simp] theorem length_seqContextLens :
    (seqContextLens n (offsets lens) selected).length = n := by
  rw [seqContextLens_eq, length_contexts, length_replicate]

/-- Every sequence has a selected token so near to its end that its context has as many
chunks as the sequence. -/
def Reaches (cp : Nat) (lens : List Nat) (selected : List Int) : Prop :=
  ∀ s len, lens[s]? = some len →
    ∃ j : Nat, (j : Int) ∈ selected ∧ At lens j s len ∧ seqStart lens s + len ≤ j + cp * 2

theorem remapChunkLen_of_near (hcp : 0 < cp) {contextLen : Nat} (hdvd : cp * 2 ∣ len)
    (hpos : 0 < len) (hle : contextLen ≤ len) (hnear : len < contextLen + cp * 2) :
    remapChunkLen cp contextLen = chunkLen cp len := by
  have hc := chunkLen_pos hcp hpos
  have hchunk : chunkLen cp contextLen = chunkLen cp len := by
    obtain ⟨c, rfl⟩ := hdvd
    rw [chunkLen_mul hcp, chunkLen, Nat.div_eq_iff (by omega), Nat.mul_comm c]
    omega
  rw [remapChunkLen, hchunk, Nat.max_eq_right hc]

theorem remapIdx_of_chunkLens (hcp : 0 < cp)
    (hchunks : (seqContextLens lens.length (offsets lens) selected).map (remapChunkLen cp) =
      lens.map (chunkLen cp))
    (hdvd : ∀ len ∈ lens, cp * 2 ∣ len) (hidx : (j : Int) ∈ selected) (hat : At lens j s len) :
    (gathered cp lens)[remapIdx cp (offsets lens)
      (seqContextLens lens.length (offsets lens) selected) s j]? = some j := by
  rw [← gathered_place hcp hdvd hat]
  congr 1
  have hs := (List.getElem?_eq_some_iff.1 hat.seq).1
  have hmap : ∀ l : List Nat, (l.map fun x => 2 * remapChunkLen cp x) =
      (l.map (remapChunkLen cp)).map (2 * ·) := fun l => by rw [map_map]; rfl
  have hchunk : remapChunkLen cp
      ((seqContextLens lens.length (offsets lens) selected).getD s 0) = chunkLen cp len := by
    have hget := congrArg (fun l => l[s]?) hchunks
    rw [getElem?_map, getElem?_map, hat.seq,
      getElem?_eq_getElem (by rw [length_seqContextLens]; exact hs)] at hget
    rw [getD_eq_getElem?_getD,
      getElem?_eq_getElem (by rw [length_seqContextLens]; exact hs)]
    exact Option.some.inj hget
  rw [remapIdx_eq hcp hat length_seqContextLens (lt_seqContextLens hidx hat), hchunk, hmap,
    hmap, map_take, hchunks, ← map_take, map_map, map_map]
  rfl

theorem chunkLens_of_reaches (hcp : 0 < cp) (hdvd : ∀ len ∈ lens, cp * 2 ∣ len)
    (hselects : Selects lens selected) (hreaches : Reaches cp lens selected) :
    (seqContextLens lens.length (offsets lens) selected).map (remapChunkLen cp) =
      lens.map (chunkLen cp) := by
  refine ext_getElem (by rw [length_map, length_seqContextLens, length_map]) ?_
  intro s hs hs'
  rw [length_map] at hs hs'
  rw [getElem_map, getElem_map]
  have hseq : lens[s]? = some lens[s] := getElem?_eq_getElem hs'
  obtain ⟨j, hj, hat, hnear⟩ := hreaches s _ hseq
  have hstart := hat.start_le
  have hlt := hat.lt
  have hge := lt_seqContextLens hj hat
  have hle := seqContextLens_le (s := s) hselects fun i _ len hat' => by
    obtain ⟨-, rfl⟩ : s = s ∧ lens[s] = len :=
      ⟨rfl, Option.some.inj (hseq.symm.trans hat'.seq)⟩
    have hlt' := hat'.lt
    exact (by omega : i - seqStart lens s + 1 ≤ lens[s])
  rw [getD_eq_getElem?_getD, getElem?_eq_getElem hs, Option.getD_some] at hge hle
  exact remapChunkLen_of_near hcp (hdvd _ (getElem_mem _)) (by omega) hle (by omega)

end Remap

section Exact

variable {cp s len : Nat} {lens : List Nat}

theorem remapChunkLen_of_le {contextLen : Nat} (h : contextLen ≤ cp * 2) (hcp : 0 < cp) :
    remapChunkLen cp contextLen = 1 := by
  have hle : chunkLen cp contextLen ≤ 1 := by
    rw [chunkLen, Nat.div_le_iff_le_mul_add_pred (by omega)]
    omega
  rw [remapChunkLen]
  omega

/-- The second token of a sequence, selected alone: every context is taken to be of chunks
with one token. -/
theorem remapIdx_second (hcp : 1 < cp) (hat : At lens (seqStart lens s + 1) s len) :
    remapIdx cp (offsets lens) (seqContextLens lens.length (offsets lens)
      [((seqStart lens s + 1 : Nat) : Int)]) s ((seqStart lens s + 1 : Nat) : Int) =
      2 * lens.length + 2 * s := by
  have hs := (List.getElem?_eq_some_iff.1 hat.seq).1
  have hselects : Selects lens [((seqStart lens s + 1 : Nat) : Int)] := by
    intro idx hidx
    rw [List.mem_singleton.1 hidx]
    exact ⟨Int.natCast_nonneg _, Int.ofNat_lt.2 hat.lt_sum⟩
  have hmem := mem_singleton_self ((seqStart lens s + 1 : Nat) : Int)
  have hlength : (seqContextLens lens.length (offsets lens)
      [((seqStart lens s + 1 : Nat) : Int)]).length = lens.length := length_seqContextLens
  have hsmall : ∀ t, (seqContextLens lens.length (offsets lens)
      [((seqStart lens s + 1 : Nat) : Int)]).getD t 0 ≤ cp * 2 := by
    intro t
    refine seqContextLens_le hselects ?_
    intro j hj len' hat'
    have heq : j = seqStart lens s + 1 := Int.ofNat_inj.1 (List.mem_singleton.1 hj)
    subst heq
    obtain ⟨rfl, -⟩ := hat'.unique hat
    omega
  have hones : (seqContextLens lens.length (offsets lens)
      [((seqStart lens s + 1 : Nat) : Int)]).map (fun x => 2 * remapChunkLen cp x) =
      replicate lens.length 2 := by
    refine List.eq_replicate_iff.2 ⟨by rw [length_map, hlength], ?_⟩
    intro y hy
    obtain ⟨x, hx, rfl⟩ := List.mem_map.1 hy
    obtain ⟨t, ht, rfl⟩ := getElem_of_mem hx
    have hle := hsmall t
    rw [getD_eq_getElem?_getD, getElem?_eq_getElem ht, Option.getD_some] at hle
    rw [remapChunkLen_of_le hle (by omega)]
  rw [remapIdx_eq (by omega) hat hlength (lt_seqContextLens hmem hat),
    remapChunkLen_of_le (hsmall s) (by omega), map_take, hones, take_replicate,
    sum_replicate_nat, sum_replicate_nat,
    Nat.add_sub_cancel_left, rankOf, if_neg (by omega), Nat.div_eq_of_lt hcp]
  omega

theorem perRank_eq (lens : List Nat) : perRank cp lens = 2 * (lens.map (chunkLen cp)).sum := by
  induction lens with
  | nil => rfl
  | cons len lens ih =>
      rw [perRank, map_cons, sum_cons, ← perRank, map_cons, sum_cons]
      omega

theorem sum_chunkLen_le (h : ∀ len ∈ lens, chunkLen cp len ≤ 1) :
    (lens.map (chunkLen cp)).sum ≤ lens.length := by
  induction lens with
  | nil => exact le_refl _
  | cons len lens ih =>
      rw [forall_mem_cons] at h
      have hle := ih h.2
      rw [map_cons, sum_cons, length_cons]
      omega

theorem sum_chunkLen_lt (h : ∀ len ∈ lens, chunkLen cp len ≤ 1) {empty : Nat}
    (hempty : empty ∈ lens) (hzero : chunkLen cp empty = 0) :
    (lens.map (chunkLen cp)).sum < lens.length := by
  induction lens with
  | nil => cases hempty
  | cons len lens ih =>
      rw [forall_mem_cons] at h
      have hle := sum_chunkLen_le h.2
      rw [map_cons, sum_cons, length_cons]
      rcases List.mem_cons.1 hempty with rfl | hmem
      · omega
      · have hlt := ih h.2 hmem
        omega

/-- The second token of a sequence is not where it was remapped to, if the sequence has
more than one token in a chunk, or if another sequence has none. -/
theorem place_second_ne (hcp : 1 < cp) (hseq : lens[s]? = some len)
    (h : 2 ≤ chunkLen cp len ∨ chunkLen cp len = 1 ∧ (∀ len ∈ lens, chunkLen cp len ≤ 1) ∧
      ∃ empty ∈ lens, chunkLen cp empty = 0) :
    place cp lens s len 1 ≠ 2 * lens.length + 2 * s := by
  have hs := (List.getElem?_eq_some_iff.1 hseq).1
  rcases h with hmany | ⟨hone, hsmall, empty, hempty, hzero⟩
  · rw [place, rankOf, Nat.div_eq_of_lt (by omega : 1 < chunkLen cp len), if_neg (by omega),
      Nat.mod_eq_of_lt (by omega : 1 < chunkLen cp len), perRank_eq (lens.take s)]
    rw [Nat.zero_div]
    omega
  · have hlt := sum_chunkLen_lt hsmall hempty hzero
    have hfront : ∀ len ∈ lens.take s, chunkLen cp len ≤ 1 :=
      fun len hlen => hsmall len (mem_of_mem_take hlen)
    have hle := sum_chunkLen_le hfront
    rw [length_take] at hle
    rw [place, rankOf, hone, if_neg (by omega), Nat.div_eq_of_lt hcp,
      perRank_eq, perRank_eq]
    omega

end Exact

namespace RawForwardInput

variable {input : RawForwardInput} {cp r : Nat} {lens : List Nat} {selected : List Int}

/-- A prefill batch whose lengths are those of its tokens. -/
structure Prefill (input : RawForwardInput) (lens : List Nat) : Prop where
  isPrefill : input.isPrefill = true
  inputLens : input.inputLens = some lens
  sum : lens.sum = input.flattenTokensVec.length

/-- Every token of every sequence is gathered by one rank, in the order of the sequences and
of their positions, and the lengths count what is gathered. -/
def Partitions (input : RawForwardInput) (cp : Nat) (lens : List Nat) : Prop :=
  (gathered cp lens).Perm (range input.flattenTokensVec.length) ∧
  ∀ r < cp, ∃ outputs, input.cpPartition r cp = some outputs ∧
    (splitSequences r cp lens).gatherIndices.Pairwise (· < ·) ∧
    outputs.flattenTokensVec = (splitSequences r cp lens).gatherIndices.map
      (fun idx => input.flattenTokensVec.getD idx 0) ∧
    toSeqLens input.numSequences outputs.qSeqLens =
      some ((range lens.length).map
        (countIn lens (splitSequences r cp lens).gatherIndices))

/-- On every rank the index of a selected token is its place in what the ranks gather. -/
def Remaps (input : RawForwardInput) (cp : Nat) (lens : List Nat) (selected : List Int) : Prop :=
  ∀ r < cp, ∃ outputs,
    { input with selectedTokenIdxes := selected }.cpPartition r cp = some outputs ∧
    List.Forall₂ (fun oldIdx newIdx => 0 ≤ newIdx ∧
      (gathered cp lens)[newIdx.toNat]? = some oldIdx.toNat) selected outputs.selectedTokenIdxes

theorem Prefill.numSequences_pos (h : input.Prefill lens) (hne : input.flattenTokensVec ≠ []) :
    0 < input.numSequences := by
  rw [← length_inputLens h.inputLens]
  refine List.length_pos_iff.2 ?_
  rintro rfl
  exact hne (List.length_eq_zero_iff.1 h.sum.symm)

theorem cpPartition_eq (h : input.Prefill lens) (hne : input.flattenTokensVec ≠ [])
    (hcp : 1 < cp) (hr : r < cp) :
    ∃ outputs, input.cpPartition r cp = some outputs ∧
      outputs.flattenTokensVec = (splitSequences r cp lens).gatherIndices.map
        (fun idx => input.flattenTokensVec.getD idx 0) ∧
      outputs.qSeqLens = buildSeqLens input.numSequences input.qSeqLens
        (splitSequences r cp lens).cpQLens ∧
      outputs.selectedTokenIdxes = if input.selectedTokenIdxes.isEmpty then
        input.selectedTokenIdxes
      else remapSelected input.numSequences cp (offsets lens) input.selectedTokenIdxes := by
  have hpos := h.numSequences_pos hne
  have hempty : input.flattenTokensVec.isEmpty = false := by simpa using hne
  have hoffsets : (splitSequences r cp lens).oldSeqOffsets.getLastD 0 =
      input.flattenTokensVec.length := by rw [oldSeqOffsets_getLastD, h.sum]
  rw [cpPartition, if_neg (by simp [hempty, h.isPrefill]; omega)]
  simp only [guard, if_pos hr, if_pos hpos, h.inputLens, Option.bind_eq_bind,
    Option.bind_some, if_pos hoffsets]
  refine ⟨_, rfl, ?_, rfl, ?_⟩
  · rw [gatherTokenLevelVector, if_neg (not_not_intro rfl)]
  · rw [oldSeqOffsets_eq]
    rfl

@[simp] theorem cpPartition_of_nil (hnil : input.flattenTokensVec = []) :
    input.cpPartition r cp = some input := by
  rw [cpPartition]
  simp [hnil]

theorem eq_zero_of_sum_eq_zero (h : lens.sum = 0) : lens = replicate lens.length 0 := by
  induction lens with
  | nil => rfl
  | cons len lens ih =>
      rw [sum_cons] at h
      rw [length_cons, replicate_succ, ← ih (by omega), show len = 0 by omega]

theorem gatherIndices_of_sum_eq_zero (hr : r < cp) (h : lens.sum = 0) :
    (splitSequences r cp lens).gatherIndices = [] := by
  refine List.eq_nil_iff_forall_not_mem.2 fun j hj => ?_
  have hlt := lt_sum_of_mem_gatherIndices hr hj
  omega

theorem partitions (h : input.Prefill lens) (hcp : 1 < cp) : input.Partitions cp lens := by
  refine ⟨h.sum ▸ gathered_perm (by omega) lens, ?_⟩
  intro r hr
  by_cases hnil : input.flattenTokensVec = []
  · have hsum : lens.sum = 0 := by rw [h.sum, hnil, length_nil]
    have hindices := gatherIndices_of_sum_eq_zero hr hsum
    refine ⟨input, cpPartition_of_nil hnil, pairwise_gatherIndices hr, ?_, ?_⟩
    · rw [hindices, hnil]
      rfl
    · have hzero : (range lens.length).map (countIn lens []) =
          replicate lens.length 0 := by
        refine List.eq_replicate_iff.2 ⟨by rw [length_map, length_range], ?_⟩
        intro count hcount
        obtain ⟨s, -, rfl⟩ := List.mem_map.1 hcount
        rfl
      have hlens := h.inputLens
      rw [hindices, hzero]
      rw [inputLens] at hlens
      split at hlens
      · rename_i hempty
        rw [toSeqLens, if_pos hempty, length_inputLens h.inputLens]
      · rw [hlens, ← eq_zero_of_sum_eq_zero hsum]
  · obtain ⟨outputs, hrun, htokens, hlens, -⟩ := cpPartition_eq h hnil hcp hr
    refine ⟨outputs, hrun, pairwise_gatherIndices hr, htokens, ?_⟩
    have hlength : (splitSequences r cp lens).cpQLens.length = input.numSequences := by
      rw [cpQLens_eq hr, length_map, length_range, length_inputLens h.inputLens]
    rw [hlens, toSeqLens_buildSeqLens _ hlength (h.numSequences_pos hnil), cpQLens_eq hr]

theorem Prefill.select (h : input.Prefill lens) (selected : List Int) :
    { input with selectedTokenIdxes := selected }.Prefill lens :=
  ⟨h.isPrefill, h.inputLens, h.sum⟩

theorem remaps_of_chunkLens (h : input.Prefill lens) (hcp : 1 < cp)
    (hdvd : ∀ len ∈ lens, cp * 2 ∣ len) (hselects : Selects lens selected)
    (hchunks : (seqContextLens lens.length (offsets lens) selected).map (remapChunkLen cp) =
      lens.map (chunkLen cp)) : input.Remaps cp lens selected := by
  intro r hr
  by_cases hnil : input.flattenTokensVec = []
  · refine ⟨_, cpPartition_of_nil hnil, ?_⟩
    rw [hselects.eq_nil (by rw [h.sum, hnil, length_nil])]
    exact .nil
  · obtain ⟨outputs, hrun, -, -, hselected⟩ := cpPartition_eq (h.select selected) hnil hcp hr
    refine ⟨outputs, hrun, ?_⟩
    rw [hselected]
    cases hempty : selected.isEmpty with
    | true =>
      rw [List.isEmpty_iff.1 hempty]
      exact .nil
    | false =>
      change List.Forall₂ _ selected (selected.map _)
      rw [forall₂_map_right_iff, forall₂_same]
      intro idx hidx
      obtain ⟨j, s, len, rfl, hat⟩ := hselects.exists_at hidx
      refine ⟨Int.natCast_nonneg _, ?_⟩
      rw [← length_inputLens h.inputLens, selectedSeqIdx_eq hat]
      exact remapIdx_of_chunkLens (by omega) hchunks hdvd hidx hat

theorem remaps_of_reaches (h : input.Prefill lens) (hcp : 1 < cp)
    (hdvd : ∀ len ∈ lens, cp * 2 ∣ len) (hselects : Selects lens selected)
    (hreaches : Reaches cp lens selected) : input.Remaps cp lens selected :=
  remaps_of_chunkLens h hcp hdvd hselects
    (chunkLens_of_reaches (by omega) hdvd hselects hreaches)

theorem remaps_of_single (h : input.Prefill lens) (hcp : 1 < cp)
    (hlens : ∀ len ∈ lens, len = cp * 2) (hselects : Selects lens selected) :
    input.Remaps cp lens selected := by
  refine remaps_of_chunkLens h hcp (fun len hlen => dvd_of_eq (hlens len hlen).symm) hselects ?_
  have hone : lens.map (chunkLen cp) = replicate lens.length 1 := by
    refine List.eq_replicate_iff.2 ⟨length_map _, ?_⟩
    intro c hc
    obtain ⟨len, hlen, rfl⟩ := List.mem_map.1 hc
    rw [hlens len hlen, ← Nat.mul_one (cp * 2), chunkLen_mul (by omega)]
  rw [hone]
  refine List.eq_replicate_iff.2 ⟨by rw [length_map, length_seqContextLens], ?_⟩
  intro c hc
  obtain ⟨x, hx, rfl⟩ := List.mem_map.1 hc
  obtain ⟨s, hs, rfl⟩ := getElem_of_mem hx
  refine remapChunkLen_of_le ?_ (by omega)
  have hle := seqContextLens_le (s := s) hselects fun j _ len hat => by
    have hlt := hat.lt
    rw [hlens len (mem_of_getElem? hat.seq)] at hlt
    exact (by omega : j - seqStart lens s + 1 ≤ cp * 2)
  rwa [getD_eq_getElem?_getD, getElem?_eq_getElem hs] at hle

theorem nodup_gathered (hcp : 0 < cp) (lens : List Nat) : (gathered cp lens).Nodup :=
  (gathered_perm hcp lens).nodup_iff.2 nodup_range

/-- If the second token of a sequence is remapped rightly when it is selected alone, its
place is the one that chunks of one token give. -/
theorem place_of_remaps {s len : Nat} (h : input.Prefill lens) (hcp : 1 < cp)
    (hdvd : ∀ len ∈ lens, cp * 2 ∣ len) (hat : At lens (seqStart lens s + 1) s len)
    (hremaps : input.Remaps cp lens [((seqStart lens s + 1 : Nat) : Int)]) :
    place cp lens s len 1 = 2 * lens.length + 2 * s := by
  have hne : input.flattenTokensVec ≠ [] := by
    intro hnil
    have hlt := hat.lt_sum
    rw [h.sum, hnil, length_nil] at hlt
    omega
  obtain ⟨outputs, hrun, hall⟩ := hremaps 0 (by omega)
  obtain ⟨outputs', hrun', -, -, hselected⟩ :=
    cpPartition_eq (h.select [((seqStart lens s + 1 : Nat) : Int)]) hne hcp
      (show 0 < cp by omega)
  obtain rfl := Option.some.inj (hrun.symm.trans hrun')
  rw [hselected] at hall
  obtain ⟨-, hplace⟩ := (List.forall₂_cons.1 hall).1
  change (gathered cp lens)[remapIdx cp (offsets lens)
    (seqContextLens input.numSequences (offsets lens) _) _ _]? = some (seqStart lens s + 1)
    at hplace
  rw [← length_inputLens h.inputLens, selectedSeqIdx_eq hat, remapIdx_second hcp hat] at hplace
  have htrue := gathered_place (show 0 < cp by omega) hdvd hat
  rw [Nat.add_sub_cancel_left] at htrue
  have hlt := (List.getElem?_eq_some_iff.1 htrue).1
  exact (getElem?_inj hlt (nodup_gathered (by omega) lens)).1 (htrue.trans hplace.symm)

/-- If every list of selected tokens is remapped rightly, every sequence has one token in
each chunk. -/
theorem single_of_remaps (h : input.Prefill lens) (hcp : 1 < cp)
    (hdvd : ∀ len ∈ lens, cp * 2 ∣ len) (hne : input.flattenTokensVec ≠ [])
    (hremaps : ∀ selected, Selects lens selected → input.Remaps cp lens selected) :
    ∀ len ∈ lens, len = cp * 2 := by
  have hsecond : ∀ s len, lens[s]? = some len → 0 < len →
      place cp lens s len 1 = 2 * lens.length + 2 * s := by
    intro s len hseq hpos
    have hlen := Nat.le_of_dvd hpos (hdvd len (mem_of_getElem? hseq))
    have hat : At lens (seqStart lens s + 1) s len :=
      ⟨hseq, Nat.le_succ _, by omega⟩
    refine place_of_remaps h hcp hdvd hat (hremaps _ ?_)
    intro idx hidx
    rw [List.mem_singleton.1 hidx]
    exact ⟨Int.natCast_nonneg _, Int.ofNat_lt.2 hat.lt_sum⟩
  have hsmall : ∀ len ∈ lens, chunkLen cp len ≤ 1 := by
    intro len hlen
    obtain ⟨s, hs, rfl⟩ := getElem_of_mem hlen
    by_contra hmany
    have hseq : lens[s]? = some lens[s] := getElem?_eq_getElem hs
    have hmul := mul_chunkLen (show 0 < cp by omega) (hdvd _ hlen)
    have hpos : 0 < lens[s] := by
      rw [← hmul]
      exact Nat.mul_pos (by omega) (by omega)
    exact place_second_ne hcp hseq (Or.inl (by omega)) (hsecond s _ hseq hpos)
  have hnonempty : ∃ j, j < lens.sum := ⟨0, by rw [h.sum]; exact List.length_pos_iff.2 hne⟩
  obtain ⟨j, hj⟩ := hnonempty
  obtain ⟨s, first, hat⟩ := exists_at hj
  have hstart := hat.start_le
  have hlt := hat.lt
  have hfirst : chunkLen cp first = 1 := by
    have hpos := chunkLen_pos (show 0 < cp by omega) (show 0 < first by omega)
    have hle := hsmall first (mem_of_getElem? hat.seq)
    omega
  intro len hlen
  have hle := hsmall len hlen
  rcases Nat.eq_zero_or_pos (chunkLen cp len) with hzero | hpos
  · exact absurd (hsecond s first hat.seq (by omega))
      (place_second_ne hcp hat.seq (Or.inr ⟨hfirst, hsmall, len, hlen, hzero⟩))
  · have hmul := mul_chunkLen (show 0 < cp by omega) (hdvd len hlen)
    rw [show chunkLen cp len = 1 by omega, Nat.mul_one] at hmul
    exact hmul.symm

/-- The tokens of a prefill batch are partitioned. When the ranks get equal parts, the
indices of all lists of selected tokens follow the partition if and only if every sequence
has one token in each chunk, since the chunks are taken from the last selected token and not
from the sequence. A list with a token near the end of every sequence is remapped in any
case. -/
theorem cpPartition_remaps_iff (input : RawForwardInput) (cp : Nat) (lens : List Nat)
    (hcp : 1 < cp) (h : input.Prefill lens) :
    input.Partitions cp lens ∧
      ((∀ len ∈ lens, cp * 2 ∣ len) →
        ((∀ selected, Selects lens selected → input.Remaps cp lens selected) ↔
          input.flattenTokensVec = [] ∨ ∀ len ∈ lens, len = cp * 2) ∧
        ∀ selected, Selects lens selected → Reaches cp lens selected →
          input.Remaps cp lens selected) := by
  refine ⟨partitions h hcp, fun hdvd => ⟨⟨?_, ?_⟩, ?_⟩⟩
  · intro hremaps
    rw [or_iff_not_imp_left]
    intro hne
    exact single_of_remaps h hcp hdvd hne hremaps
  · rintro (hnil | hlens) selected hselects
    · intro r hr
      refine ⟨_, cpPartition_of_nil hnil, ?_⟩
      rw [hselects.eq_nil (by rw [h.sum, hnil, length_nil])]
      exact .nil
    · exact remaps_of_single h hcp hlens hselects
  · intro selected hselects hreaches
    exact remaps_of_reaches h hcp hdvd hselects hreaches

def twoPrompts : RawForwardInput where
  flattenTokensVec := [10, 11, 12, 13, 20, 21, 22, 23]
  flattenPositionsVec := [0, 1, 2, 3, 0, 1, 2, 3]
  selectedTokenIdxes := [3, 7]
  numSequences := 2
  qSeqLens := [4, 4]

theorem twoPrompts_remaps :
    twoPrompts.Partitions 2 [4, 4] ∧ twoPrompts.Remaps 2 [4, 4] [3, 7] := by
  have h : twoPrompts.Prefill [4, 4] := ⟨rfl, rfl, rfl⟩
  obtain ⟨hpartitions, hremaps⟩ := cpPartition_remaps_iff twoPrompts 2 [4, 4] (by decide) h
  refine ⟨hpartitions, (hremaps (by decide)).1.2 (Or.inr (by decide)) [3, 7] ?_⟩
  rw [Selects]
  decide

def longPrompt : RawForwardInput where
  flattenTokensVec := [10, 11, 12, 13, 14, 15, 16, 17]
  selectedTokenIdxes := [1]
  numSequences := 1
  qSeqLens := [8]

/-- The second token is gathered second, but it is remapped to the third place, where
another token is. -/
theorem longPrompt_not_remapped :
    longPrompt.Prefill [8] ∧ gathered 2 [8] = [0, 1, 6, 7, 2, 3, 4, 5] ∧
      (longPrompt.cpPartition 0 2).map (·.selectedTokenIdxes) = some [2] ∧
      ¬ longPrompt.Remaps 2 [8] [1] := by
  have hgathered : gathered 2 [8] = [0, 1, 6, 7, 2, 3, 4, 5] := by decide
  have hselected : (longPrompt.cpPartition 0 2).map (·.selectedTokenIdxes) = some [2] := by
    decide +kernel
  refine ⟨⟨rfl, rfl, rfl⟩, hgathered, hselected, ?_⟩
  intro hremaps
  obtain ⟨outputs, hrun, hall⟩ := hremaps 0 (by decide)
  change longPrompt.cpPartition 0 2 = some outputs at hrun
  rw [hrun, Option.map_some] at hselected
  rw [Option.some.inj hselected] at hall
  have hplace := (List.forall₂_cons.1 hall).1.2
  revert hplace
  decide

end RawForwardInput

end Xllm.ContextParallel
