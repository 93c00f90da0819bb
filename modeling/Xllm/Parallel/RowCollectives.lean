import Mathlib.Algebra.Group.Pi.Basic
import Mathlib.Algebra.BigOperators.Group.List.Basic
import Xllm.Lib.Chunks

/-!
# Reduce-scatter and gather over rows

`reduce_scatter` and `gather` of `parallel_state`, seen from all ranks of a process group at
once: the arguments of the ranks stand in a list, one for each rank. A tensor with two
dimensions is the list of its rows.

Rows are padded twice, to a multiple of the world size before the reduction and to the longest
rank before the gather, and what was added is cut off again each time.
-/

namespace Xllm.ParallelState

open List

variable {ι α : Type*} [AddCommMonoid α]

def row (t : List (ι → α)) (i : Nat) : ι → α := t.getD i 0

def sum (vec : List Nat) : Nat := vec.foldl (· + ·) 0

def max (vec : List Nat) : Nat := vec.foldl Nat.max 0

def sumRows (inputs : List (List (ι → α))) (n : Nat) : List (ι → α) :=
  (range n).map fun i => (inputs.map (row · i)).sum

def reduceScatterTensor (inputs : List (List (ι → α))) (chunkSize rank : Nat) : List (ι → α) :=
  (range chunkSize).map fun i => (inputs.map (row · (rank * chunkSize + i))).sum

/-- The inputs are stacked by rank. They have to be of one shape. -/
def allgatherBase (inputs : List (List (ι → α))) : Option (List (List (ι → α))) :=
  if inputs.all fun t => t.length == (inputs.headD []).length then some inputs else none

def numPadding (worldSize originalDimSize : Nat) : Nat :=
  let remainder := originalDimSize % worldSize
  let targetSize := if remainder = 0 then originalDimSize
    else originalDimSize + worldSize - remainder
  targetSize - originalDimSize

/-- The input with zeros below. -/
def padRows (worldSize : Nat) (input : List (ι → α)) : List (ι → α) :=
  input ++ List.replicate (numPadding worldSize input.length) 0

def reduceScatter (inputs : List (List (ι → α))) (rank : Nat) : List (ι → α) :=
  let worldSize := inputs.length
  let input := inputs.getD rank []
  if worldSize = 1 then input
  else
    let chunkSize := (padRows worldSize input).length / worldSize
    let output := reduceScatterTensor (inputs.map (padRows worldSize)) chunkSize rank
    if 0 < numPadding worldSize input.length then
      let globalStart := rank * chunkSize
      let globalEnd := globalStart + chunkSize
      if input.length ≤ globalStart then output.take 0
      else if input.length < globalEnd then output.take (input.length - globalStart)
      else output
    else output

variable {inputs : List (List (ι → α))} {worldSize n : Nat}

@[simp] theorem row_padRows (worldSize : Nat) (t : List (ι → α)) (i : Nat) :
    row (padRows worldSize t) i = row t i := by
  simp only [row, padRows, getD_eq_getElem?_getD, getElem?_append]
  split
  · rfl
  · rename_i h
    rw [getElem?_eq_none (Nat.le_of_not_lt h), getElem?_replicate]
    split <;> rfl

theorem dvd_add_numPadding (hW : 0 < worldSize) (n : Nat) :
    worldSize ∣ n + numPadding worldSize n := by
  have hdiv := Nat.div_add_mod n worldSize
  have hmod := Nat.mod_lt n hW
  simp only [numPadding]
  split
  · rename_i h
    rw [Nat.sub_self]
    exact Nat.dvd_of_mod_eq_zero h
  · refine ⟨n / worldSize + 1, ?_⟩
    rw [Nat.mul_add_one]
    omega

theorem reduceScatter_eq (hW : inputs.length ≠ 1) (hrows : ∀ t ∈ inputs, t.length = n)
    {rank : Nat} (hrank : rank < inputs.length) :
    reduceScatter inputs rank =
      ((sumRows inputs n).drop
        (rank * ((n + numPadding inputs.length n) / inputs.length))).take
          ((n + numPadding inputs.length n) / inputs.length) := by
  have hinput : (inputs.getD rank []).length = n := by
    rw [getD_eq_getElem?_getD, getElem?_eq_getElem hrank]
    exact hrows _ (getElem_mem hrank)
  have hlength : (padRows inputs.length (inputs.getD rank [])).length =
      n + numPadding inputs.length n := by
    rw [padRows, length_append, length_replicate, hinput]
  have hmul := Nat.div_mul_cancel (dvd_add_numPadding (Nat.zero_lt_of_lt hrank) n)
  have hbelow := Nat.mul_le_mul_right ((n + numPadding inputs.length n) / inputs.length)
    (Nat.succ_le_of_lt hrank)
  rw [reduceScatter, if_neg hW, hlength, hinput]
  generalize (n + numPadding inputs.length n) / inputs.length = c at hmul hbelow ⊢
  rw [Nat.mul_comm] at hmul
  rw [Nat.succ_mul] at hbelow
  -- the slice of the sum, row by row
  have hslice : ∀ k, (∀ i, i < k ↔ i < c ∧ rank * c + i < n) →
      ((sumRows inputs n).drop (rank * c)).take c =
        (reduceScatterTensor (inputs.map (padRows inputs.length)) c rank).take k := by
    intro k hk
    apply ext_getElem?
    intro i
    simp only [sumRows, reduceScatterTensor, map_map, Function.comp_def, row_padRows,
      getElem?_take, hk i]
    by_cases hc : i < c
    · by_cases hn : rank * c + i < n
      · simp [hc, hn]
      · simp [hn]
    · simp [hc]
  have hwhole : (reduceScatterTensor (inputs.map (padRows inputs.length)) c rank).take c =
      reduceScatterTensor (inputs.map (padRows inputs.length)) c rank :=
    take_of_length_le
      (Nat.le_of_eq (by rw [reduceScatterTensor, length_map, length_range]))
  dsimp only
  split
  · split
    · exact (hslice 0 fun i => by omega).symm
    · split
      · exact (hslice (n - rank * c) fun i => by omega).symm
      · rw [hslice c fun i => by omega, hwhole]
  · rw [hslice c fun i => by omega, hwhole]

def numTokensEqual (tokenNumList : List Nat) : Bool :=
  tokenNumList.all (· == tokenNumList.headD 0)

def gatherRows (inputs : List (List (ι → α))) (rank : Nat) : Option (List (ι → α)) :=
  if inputs.length = 1 then inputs[rank]? else (allgatherBase inputs).map List.flatten

/-- The loop of `assemble_gathered` over the tensors and counts of the ranks. -/
def copyValid : List (List (ι → α) × Nat) → Nat → List (ι → α) → Option (List (ι → α))
  | [], _, output => some output
  | (gathered, validTokens) :: rest, offset, output =>
      if validTokens = 0 then copyValid rest offset output
      else if gathered.length < validTokens then none
      else
        copyValid rest (offset + validTokens)
          (output.take offset ++ gathered.take validTokens ++ output.drop (offset + validTokens))

/-- `assemble_gathered`. The rows of `torch::empty` are `uninit`. -/
def assembleGathered (uninit : Nat → ι → α) (stacked : List (List (ι → α)))
    (tokenNumList : List Nat) : Option (List (ι → α)) :=
  if stacked.length = tokenNumList.length then
    copyValid (stacked.zip tokenNumList) 0 ((range (sum tokenNumList)).map uninit)
  else none

/-- What `launch_gather` leaves for `finish_gather`. -/
structure GatherAsyncCtx (ι α : Type*) where
  stacked : List (List (ι → α))
  tokenNumList : List Nat

def padToLongest (maxNumTokens : Nat) (input : List (ι → α)) : List (ι → α) :=
  input ++ List.replicate (maxNumTokens - input.length) 0

/-- `launch_gather`. A `CHECK` that fails on some rank leaves the others without an answer. -/
def launchGather (inputs : List (List (ι → α))) (tokenNumList : List Nat) (rank : Nat) :
    Option (GatherAsyncCtx ι α) :=
  if tokenNumList.length ≠ inputs.length then none
  else if inputs.length = 1 then
    (inputs[rank]?).map fun input => { stacked := [input], tokenNumList := tokenNumList }
  else if tokenNumList = inputs.map List.length then
    (allgatherBase (inputs.map (padToLongest (max tokenNumList)))).map fun stacked =>
      { stacked := stacked, tokenNumList := tokenNumList }
  else none

def finishGather (uninit : Nat → ι → α) (ctx : GatherAsyncCtx ι α) : Option (List (ι → α)) :=
  if ctx.stacked.length = 1 ∧ ctx.tokenNumList.length = 1 ∧
      (ctx.stacked.headD []).length = ctx.tokenNumList.headD 0 then ctx.stacked.head?
  else if !ctx.tokenNumList.isEmpty && numTokensEqual ctx.tokenNumList then
    some ctx.stacked.flatten
  else assembleGathered uninit ctx.stacked ctx.tokenNumList

/-- `gather` with the row counts of the ranks. -/
def gather (uninit : Nat → ι → α) (inputs : List (List (ι → α))) (tokenNumList : List Nat)
    (rank : Nat) : Option (List (ι → α)) :=
  if inputs.length = 1 then inputs[rank]?
  else if tokenNumList.length ≠ inputs.length then none
  else if numTokensEqual tokenNumList then gatherRows inputs rank
  else (launchGather inputs tokenNumList rank).bind (finishGather uninit)

omit [AddCommMonoid α] in
theorem sum_map_length (inputs : List (List (ι → α))) :
    sum (inputs.map List.length) = inputs.flatten.length := by
  have hfold : ∀ k, (inputs.map List.length).foldl (· + ·) k = k + inputs.flatten.length := by
    induction inputs with
    | nil => exact fun k => rfl
    | cons t inputs ih =>
        intro k
        rw [map_cons, foldl_cons, ih, flatten_cons, length_append,
          Nat.add_assoc]
  exact (hfold 0).trans (Nat.zero_add _)

theorem max_le_iff {vec : List Nat} {b : Nat} : max vec ≤ b ↔ ∀ a ∈ vec, a ≤ b := by
  have hfold : ∀ k, vec.foldl Nat.max k ≤ b ↔ k ≤ b ∧ ∀ a ∈ vec, a ≤ b := by
    induction vec with
    | nil => simp
    | cons c vec ih =>
        intro k
        rw [foldl_cons, ih, forall_mem_cons, ← and_assoc]
        exact and_congr_left fun _ => Nat.max_le
  exact (hfold 0).trans (and_iff_right (Nat.zero_le b))

theorem le_max {vec : List Nat} {a : Nat} (ha : a ∈ vec) : a ≤ max vec :=
  max_le_iff.mp (Nat.le_refl _) a ha

omit [AddCommMonoid α] in
theorem allgatherBase_eq (h : ∀ t ∈ inputs, t.length = n) : allgatherBase inputs = some inputs := by
  apply if_pos
  apply List.all_eq_true.mpr
  intro t ht
  cases inputs with
  | nil => cases ht
  | cons u inputs => exact beq_iff_eq.mpr ((h t ht).trans (h u mem_cons_self).symm)

omit [AddCommMonoid α] in
theorem copyValid_eq {parts : List (List (ι → α) × Nat)} {offset : Nat} {output : List (ι → α)}
    (hvalid : ∀ part ∈ parts, part.2 ≤ part.1.length)
    (hlength : output.length = offset + (parts.map fun part => part.1.take part.2).flatten.length) :
    copyValid parts offset output =
      some (output.take offset ++ (parts.map fun part => part.1.take part.2).flatten) := by
  induction parts generalizing offset output with
  | nil =>
      rw [map_nil, flatten_nil, append_nil]
      exact congrArg some (take_of_length_le (Nat.le_of_eq hlength)).symm
  | cons part parts ih =>
      obtain ⟨gathered, validTokens⟩ := part
      have hfits : validTokens ≤ gathered.length := hvalid _ mem_cons_self
      have hrest := fun part hpart => hvalid part (mem_cons_of_mem _ hpart)
      simp only [map_cons, flatten_cons, length_append, length_take] at hlength ⊢
      rw [copyValid]
      by_cases hzero : validTokens = 0
      · subst hzero
        rw [if_pos rfl, ih hrest (by omega), take_zero, nil_append]
      · have htake : (output.take offset ++ gathered.take validTokens).length =
            offset + validTokens := by
          simp only [length_append, length_take]
          omega
        rw [if_neg hzero, if_neg (Nat.not_lt.mpr hfits), ih hrest, take_left' htake,
          append_assoc]
        rw [length_append, length_drop]
        omega

/-- With the row counts of the ranks, the padded path is the concatenation. -/
theorem finishGather_launchGather (uninit : Nat → ι → α) {rank : Nat}
    (hrank : rank < inputs.length) :
    (launchGather inputs (inputs.map List.length) rank).bind (finishGather uninit) =
      some inputs.flatten := by
  rw [launchGather, if_neg (not_not.mpr (length_map _))]
  by_cases hone : inputs.length = 1
  · obtain ⟨t, rfl⟩ := List.length_eq_one_iff.mp hone
    obtain rfl : rank = 0 := Nat.lt_one_iff.mp hrank
    simp [finishGather]
  · have hpadded : ∀ t ∈ inputs.map (padToLongest (max (inputs.map List.length))),
        t.length = max (inputs.map List.length) := by
      intro t ht
      obtain ⟨input, hinput, rfl⟩ := List.mem_map.mp ht
      have hle := le_max (mem_map_of_mem (f := List.length) hinput)
      rw [padToLongest, length_append, length_replicate]
      omega
    rw [if_neg hone, if_pos rfl, allgatherBase_eq hpadded, Option.map_some, Option.bind_some,
      finishGather, if_neg (by simp [hone])]
    split
    · -- all ranks are as long as the longest, and nothing was added
      rename_i hequal
      have hall := List.all_eq_true.mp (Bool.and_eq_true_iff.mp hequal).2
      have hle : max (inputs.map List.length) ≤ (inputs.map List.length).headD 0 :=
        max_le_iff.mpr fun a ha => Nat.le_of_eq (beq_iff_eq.mp (hall a ha))
      have hpad : inputs.map (padToLongest (max (inputs.map List.length))) = inputs := by
        apply (map_congr_left fun input hinput => ?_).trans (map_id inputs)
        have hhead := beq_iff_eq.mp (hall _ (mem_map_of_mem hinput))
        rw [padToLongest, Nat.sub_eq_zero_of_le (Nat.le_trans hle (Nat.le_of_eq hhead.symm)),
          replicate_zero, append_nil]
        rfl
      exact congrArg (fun stacked => some stacked.flatten) hpad
    · have hcut : ∀ input ∈ inputs,
          (padToLongest (max (inputs.map List.length)) input).take input.length = input :=
        fun input _ => take_left
      have hparts : ((inputs.map (padToLongest (max (inputs.map List.length)))).zip
          (inputs.map List.length)).map (fun part => part.1.take part.2) = inputs := by
        rw [zip_map', map_map]
        exact (map_congr_left hcut).trans (map_id inputs)
      rw [assembleGathered, if_pos (by simp only [length_map]), copyValid_eq]
      · rw [hparts]
        rfl
      · intro part hpart
        rw [zip_map'] at hpart
        obtain ⟨input, hinput, rfl⟩ := List.mem_map.mp hpart
        rw [hpadded _ (mem_map_of_mem hinput)]
        exact le_max (mem_map_of_mem hinput)
      · rw [hparts, length_map, length_range, sum_map_length, Nat.zero_add]

theorem gather_eq (uninit : Nat → ι → α) {rank : Nat} (hrank : rank < inputs.length) :
    gather uninit inputs (inputs.map List.length) rank = some inputs.flatten := by
  rw [gather]
  split
  · rename_i hone
    obtain ⟨t, rfl⟩ := List.length_eq_one_iff.mp hone
    obtain rfl : rank = 0 := Nat.lt_one_iff.mp hrank
    simp
  · rename_i hone
    rw [if_neg (not_not.mpr (length_map _))]
    split
    · rename_i hequal
      rw [gatherRows, if_neg hone, allgatherBase_eq (n := (inputs.map List.length).headD 0)]
      · rfl
      · intro t ht
        exact beq_iff_eq.mp (List.all_eq_true.mp hequal _ (mem_map_of_mem ht))
    · exact finishGather_launchGather uninit hrank

theorem flatten_reduceScatter (hW : 0 < inputs.length) (hrows : ∀ t ∈ inputs, t.length = n) :
    ((range inputs.length).map (reduceScatter inputs)).flatten = sumRows inputs n := by
  by_cases hone : inputs.length = 1
  · obtain ⟨t, rfl⟩ := List.length_eq_one_iff.mp hone
    obtain rfl := hrows t mem_cons_self
    have hsum : sumRows [t] t.length = t := by
      apply ext_getElem?
      intro i
      simp only [sumRows, row]
      by_cases hi : i < t.length
      · simp [hi]
      · simp [Nat.le_of_not_lt hi]
    rw [hsum]
    simp [reduceScatter]
  · have hslices : (range inputs.length).map (reduceScatter inputs) =
        Chunks.slices inputs.length ((n + numPadding inputs.length n) / inputs.length)
          (sumRows inputs n) :=
      map_congr_left fun rank hrank =>
        reduceScatter_eq hone hrows (List.mem_range.mp hrank)
    rw [hslices]
    apply Chunks.flatten_slices_of_le
    rw [Nat.mul_div_cancel' (dvd_add_numPadding hW n), sumRows, length_map, length_range]
    exact Nat.le_add_right n _

/-- What the ranks have after a reduce-scatter. -/
def scattered (inputs : List (List (ι → α))) : List (List (ι → α)) :=
  (range inputs.length).map (reduceScatter inputs)

/-- Reduce-scatter followed by gather is the all-reduce: the row counts of the results add up,
`gather` answers on every rank with the elementwise sum, and so do its two halves. -/
theorem gather_reduceScatter (uninit : Nat → ι → α) (hW : 0 < inputs.length)
    (hrows : ∀ t ∈ inputs, t.length = n) :
    sum ((scattered inputs).map List.length) = n ∧ ∀ rank < inputs.length,
      gather uninit (scattered inputs) ((scattered inputs).map List.length) rank =
        some (sumRows inputs n) ∧
      (launchGather (scattered inputs) ((scattered inputs).map List.length) rank).bind
          (finishGather uninit) =
        gather uninit (scattered inputs) ((scattered inputs).map List.length) rank := by
  have hflatten : (scattered inputs).flatten = sumRows inputs n := flatten_reduceScatter hW hrows
  constructor
  · rw [sum_map_length, hflatten, sumRows, length_map, length_range]
  · intro rank hrank
    have hresults : rank < (scattered inputs).length := by
      rwa [scattered, length_map, length_range]
    have hgather := gather_eq uninit hresults
    have hfinish := finishGather_launchGather uninit hresults
    exact ⟨hgather.trans (congrArg some hflatten), hfinish.trans hgather.symm⟩

theorem gather_reduceScatter_four :
    let inputs : List (List (Unit → Int)) :=
      [[fun _ => 1, fun _ => 2], [fun _ => 3, fun _ => 4], [fun _ => 5, fun _ => 6],
        [fun _ => 7, fun _ => 8]]
    sum ((scattered inputs).map List.length) = 2 ∧ ∀ rank < inputs.length,
      gather (fun _ _ => 0) (scattered inputs) ((scattered inputs).map List.length) rank =
        some (sumRows inputs 2) ∧
      (launchGather (scattered inputs) ((scattered inputs).map List.length) rank).bind
          (finishGather fun _ _ => 0) =
        gather (fun _ _ => 0) (scattered inputs) ((scattered inputs).map List.length) rank :=
  gather_reduceScatter (fun _ _ => 0) (by decide) (by simp)

end Xllm.ParallelState
