import Xllm.Lib.Contract
import Xllm.Runtime.ForwardSharedMemory
import Xllm.Sampling.SamplingParameters

/-!
# Sampling parameters of a sent batch

The input of a step is sent with its floats as bit patterns, and the worker makes byte tensors of
them. What `init` makes there and what it makes of the values are the same parameters: it fails
in neither model when it returns in the one with bytes, and it leaves out the same tensors.
-/

namespace Xllm.Sampling

open Contract List Util
open SharedMemory (FloatBits Tensor)

/-- The values of floats, as far as `init` compares them. -/
structure Reading where
  value : FloatBits → ℚ
  value_eq_zero : ∀ x, value x = 0 ↔ x.isZero = true
  value_eq_one : ∀ x, value x = 1 ↔ x.isOne = true

variable {r : Reading}

@[simp] theorem Reading.bne_zero (x : FloatBits) : (r.value x != 0) = !x.isZero := by
  rw [Bool.eq_iff_iff]
  simp [r.value_eq_zero]

@[simp] theorem Reading.bne_one (x : FloatBits) : (r.value x != 1) = !x.isOne := by
  rw [Bool.eq_iff_iff]
  simp [r.value_eq_one]

def RequestSamplingParam.of (r : Reading) (p : SharedMemory.RequestSamplingParam) :
    RequestSamplingParam where
  frequencyPenalty := r.value p.frequencyPenalty
  presencePenalty := r.value p.presencePenalty
  repetitionPenalty := r.value p.repetitionPenalty
  temperature := r.value p.temperature
  topP := r.value p.topP
  topK := p.topK.toInt
  logprobs := p.logprobs
  topLogprobs := p.topLogprobs.toInt
  doSample := p.doSample
  isEmbeddings := p.isEmbeddings
  beamWidth := p.beamWidth.toInt

/-- The same flags, and the same tensors are defined. -/
structure Agrees (s : SharedMemory.SamplingParameters) (t : SamplingParameters) : Prop where
  selectedTokenIdxes : s.selectedTokenIdxes.isSome = t.selectedTokenIdxes.isSome
  frequencyPenalties : s.frequencyPenalties.isSome = t.frequencyPenalties.isSome
  presencePenalties : s.presencePenalties.isSome = t.presencePenalties.isSome
  repetitionPenalties : s.repetitionPenalties.isSome = t.repetitionPenalties.isSome
  temperatures : s.temperatures.isSome = t.temperatures.isSome
  topP : s.topP.isSome = t.topP.isSome
  topK : s.topK.isSome = t.topK.isSome
  uniqueTokenIds : s.uniqueTokenIds.isSome = true → t.uniqueTokenIds.isSome = true
  uniqueTokenCounts : s.uniqueTokenCounts.isSome = true → t.uniqueTokenCounts.isSome = true
  uniqueTokenIdsLens : s.uniqueTokenIdsLens.isSome = t.uniqueTokenIdsLens.isSome
  sampleIdxes : s.sampleIdxes.isSome = t.sampleIdxes.isSome
  allRandomSample : s.allRandomSample = t.allRandomSample
  allGreedySample : s.allGreedySample = t.allGreedySample
  logprobs : s.logprobs = t.logprobs
  isEmbeddings : s.isEmbeddings = t.isEmbeddings
  maxTopLogprobs : s.maxTopLogprobs.toInt = t.maxTopLogprobs
  useBeamSearch : s.useBeamSearch = t.useBeamSearch

section

variable (params : List SharedMemory.RequestSamplingParam)

@[simp] theorem anyPenalties_of : anyPenalties (params.map (.of r)) = params.any fun p =>
    !p.frequencyPenalty.isZero || !p.presencePenalty.isZero := by
  simp only [anyPenalties, any_map, Function.comp_def, RequestSamplingParam.of, Reading.bne_zero]
  rw [Bool.eq_iff_iff]
  simp [exists_or, and_or_left]

@[simp] theorem anyRepetition_of :
    anyRepetition (params.map (.of r)) = params.any fun p => !p.repetitionPenalty.isOne := by
  simp [anyRepetition, any_map, Function.comp_def, RequestSamplingParam.of]

@[simp] theorem anyTemperature_of : anyTemperature (params.map (.of r)) =
    params.any fun p => !p.temperature.isZero && !p.temperature.isOne := by
  simp [anyTemperature, any_map, Function.comp_def, RequestSamplingParam.of]

@[simp] theorem anyTopP_of :
    anyTopP (params.map (.of r)) = params.any fun p => !p.topP.isOne := by
  simp [anyTopP, any_map, Function.comp_def, RequestSamplingParam.of]

@[simp] theorem anyTopK_of :
    anyTopK (params.map (.of r)) = params.any fun p => decide (0 < p.topK.toInt) := by
  simp [anyTopK, any_map, Function.comp_def, RequestSamplingParam.of]

@[simp] theorem anyBeam_of :
    anyBeam (params.map (.of r)) = params.any fun p => decide (0 < p.beamWidth.toInt) := by
  rw [anyBeam, any_map]
  rfl

@[simp] theorem sample_of (p : SharedMemory.RequestSamplingParam) :
    (RequestSamplingParam.of r p).sample =
      (p.doSample || !p.temperature.isZero || !p.topP.isOne || decide (0 < p.topK.toInt)) := by
  simp only [RequestSamplingParam.sample, RequestSamplingParam.of, Reading.bne_zero,
    Reading.bne_one]
  rfl

theorem mostTopLogprobs_of : mostTopLogprobs (params.map (.of r)) = (params.foldl
    (fun m p => if m.toInt < p.topLogprobs.toInt then p.topLogprobs else m) (0 : Int64)).toInt := by
  have most : ∀ m : Int64, (params.map (RequestSamplingParam.of r)).foldl
      (fun most p => max most p.topLogprobs) m.toInt = (params.foldl
        (fun m p => if m.toInt < p.topLogprobs.toInt then p.topLogprobs else m) m).toInt := by
    induction params with
    | nil => exact fun _ => rfl
    | cons p params ih =>
        intro m
        rw [map_cons, foldl_cons, foldl_cons, ← ih]
        congr 1
        change max m.toInt p.topLogprobs.toInt = _
        split
        · exact max_eq_right (by omega)
        · exact max_eq_left (by omega)
  exact most 0

/-- An index behind the requests fails in both models. -/
theorem sampleFlags_of {idxes : List Int32} {flags : List Bool}
    (h : (idxes.mapM fun idx => if 0 ≤ idx.toInt then
      params[idx.toInt.toNat]?.map fun p =>
        p.doSample || !p.temperature.isZero || !p.topP.isOne || 0 < p.topK.toInt
      else none) = some flags) :
    sampleFlags (params.map (.of r)) (idxes.map (·.toInt.toNat)) = .ok flags := by
  induction idxes generalizing flags with
  | nil =>
      obtain rfl := Option.some.inj h
      rfl
  | cons idx idxes ih =>
      rw [mapM_cons] at h
      obtain ⟨flag, hflag, h⟩ := Option.bind_eq_some_iff.mp h
      obtain ⟨rest, hrest, h⟩ := Option.bind_eq_some_iff.mp h
      obtain rfl := Option.some.inj h
      split at hflag
      · obtain ⟨p, hp, rfl⟩ := Option.map_eq_some_iff.mp hflag
        rw [map_cons, sampleFlags, ih hrest, getElem?_map, hp, ← sample_of (r := r)]
        rfl
      · cases hflag

theorem isSome_torchTensor {α : Type} [SharedMemory.Element α] {vec : List α}
    (h : vec.length < 2 ^ 63) : (SharedMemory.torchTensor vec).isSome = true := by
  rw [SharedMemory.torchTensor, SharedMemory.tensorOf, dif_pos]
  · rfl
  · refine ⟨by simpa using h, ?_⟩
    rw [SharedMemory.length_vectorBytes, SharedMemory.Element.elementSize_eq, prod_singleton]

theorem isSome_ite {α β : Type} {c : Bool} {t : Option α} {u : β} (h : t.isSome = true) :
    (if c then t else none).isSome = (definedIf c u).isSome := by
  cases c with
  | false => rfl
  | true => exact h

/-- A tensor of unique tokens is defined only if the matrix of their numbers is. -/
theorem exists_matrixIf {α : Type} [SharedMemory.Element α] (f : α → Int) {c : Bool}
    {vec : List (List α)} {t : Tensor} (h : SharedMemory.uniqueTensor c vec = some t) :
    ∃ u, matrixIf c (vec.map (map f)) = .ok u ∧ (t.isSome = true → u.isSome = true) := by
  cases c with
  | false =>
      obtain rfl := Option.some.inj h
      exact ⟨none, rfl, id⟩
  | true =>
      cases vec with
      | nil =>
          obtain rfl := Option.some.inj h
          exact ⟨none, rfl, id⟩
      | cons row rows =>
          change SharedMemory.create2dTensor (row :: rows) = some t at h
          rw [SharedMemory.create2dTensor] at h
          split at h
          · rename_i hrows
            have hall : ((row :: rows).map (map f)).all fun v =>
                v.length == columns ((row :: rows).map (map f)) := by
              simpa [columns] using hrows
            exact ⟨_, dif_pos hall, fun _ => rfl⟩
          · cases h

/-- The parameters that a worker makes of a sent batch are those of the values that were sent. -/
theorem init_of {selected idxes lens : List Int32} {ids : List (List Int64)}
    {counts : List (List Int32)} {s : SharedMemory.SamplingParameters}
    (h : SharedMemory.SamplingParameters.init params selected idxes ids counts lens = some s) :
    Yields (SamplingParameters.init (params.map (.of r)) (selected.map (·.toInt.toNat))
      (idxes.map (·.toInt.toNat)) (ids.map (map (·.toInt))) (counts.map (map (·.toInt)))
      (lens.map (·.toInt.toNat))) (Agrees s) := by
  rw [SharedMemory.SamplingParameters.init] at h
  simp only [Option.bind_eq_bind, Option.bind_eq_some_iff] at h
  obtain ⟨_, hlt, _, hselected, _, hidxes, _, hstats, ids', hids, counts', hcounts, flags, hflags,
    hs⟩ := h
  obtain rfl := Option.some.inj hs
  replace hlt : selected.length < 2 ^ 63 := by simpa [guard] using hlt
  replace hselected : params.length = selected.length := by simpa [guard] using hselected
  replace hidxes : idxes.length ≤ params.length := by simpa [guard] using hidxes
  obtain ⟨u, hu, hudef⟩ := exists_matrixIf (·.toInt) hids
  obtain ⟨v, hv, hvdef⟩ := exists_matrixIf (·.toInt) hcounts
  have hdo := sampleFlags_of (r := r) params hflags
  have hneed : needTokenStats (params.map (.of r)) = ((params.any fun p =>
      !p.frequencyPenalty.isZero || !p.presencePenalty.isZero) ||
        params.any fun p => !p.repetitionPenalty.isOne) := by
    rw [needTokenStats, anyPenalties_of, anyRepetition_of]
  replace hstats : needTokenStats (params.map (.of r)) = true → params.length = ids.length ∧
      params.length = counts.length ∧ params.length = lens.length := by
    rw [hneed]
    simpa [guard] using hstats
  rw [← hneed] at hu hv
  have hchecks : ∀ n, (needTokenStats (params.map (.of r)) = true → params.length = n) →
      check (!needTokenStats (params.map (.of r)) || params.length == n) = .ok () := by
    intro n hn
    cases hc : needTokenStats (params.map (.of r)) with
    | false => rfl
    | true => simp [check, hn hc]
  have hlens : needTokenStats (params.map (.of r)) = true → lens.length < 2 ^ 63 := by
    intro hc
    rw [← (hstats hc).2.2, hselected]
    exact hlt
  unfold SamplingParameters.init
  simp only [hu, hv, hdo, length_map, beq_iff_eq.mpr hselected,
    decide_eq_true hidxes, hchecks _ fun hc => (hstats hc).1,
    hchecks _ fun hc => (hstats hc).2.1, hchecks _ fun hc => (hstats hc).2.2]
  have hall : params.length < 2 ^ 63 := hselected ▸ hlt
  have defined {α : Type} [SharedMemory.Element α] (get : SharedMemory.RequestSamplingParam → α)
      {c : Bool} {vec : List ℚ} : (if c then SharedMemory.torchTensor (params.map get)
        else none).isSome = (definedIf c vec).isSome :=
    isSome_ite (isSome_torchTensor ((length_map get).trans_lt hall))
  exact {
    selectedTokenIdxes := isSome_torchTensor hlt
    frequencyPenalties := by rw [anyPenalties_of]; exact defined (·.frequencyPenalty)
    presencePenalties := by rw [anyPenalties_of]; exact defined (·.presencePenalty)
    repetitionPenalties := by rw [anyRepetition_of]; exact defined (·.repetitionPenalty)
    temperatures := by rw [anyTemperature_of]; exact defined (·.temperature)
    topP := by rw [anyTopP_of]; exact defined (·.topP)
    topK := by rw [anyTopK_of]; exact isSome_ite (isSome_torchTensor ((length_map _).trans_lt hall))
    uniqueTokenIds := hudef
    uniqueTokenCounts := hvdef
    uniqueTokenIdsLens := by
      rw [← hneed]
      cases hc : needTokenStats (params.map (.of r)) with
      | false => rfl
      | true => exact isSome_torchTensor (hlens hc)
    sampleIdxes := isSome_torchTensor (hidxes.trans_lt hall)
    allRandomSample := rfl
    allGreedySample := rfl
    logprobs := by simp only [any_map]; rfl
    isEmbeddings := by simp only [any_map]; rfl
    maxTopLogprobs := (mostTopLogprobs_of params).symm
    useBeamSearch := (anyBeam_of params).symm }

end

end Xllm.Sampling
