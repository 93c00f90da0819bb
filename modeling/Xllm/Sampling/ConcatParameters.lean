import Xllm.Lib.Contract
import Xllm.Sampling.SamplingParameters

/-!
# Concatenating the sampling parameters of two batches

`concat` should give what `init` gives on the requests of both batches. It does so only for
batches whose tensors were built alike: the rows of a batch that left a tensor out are not filled
in, `presence_penalties` is not joined, and the flags of the first batch stay.
-/

namespace Xllm.Sampling

open Util List

/-- What `init` is told about one request. -/
structure SamplingInput where
  param : RequestSamplingParam := {}
  selectedTokenIdx : Nat
  uniqueTokenIds : List Int := []
  uniqueTokenCounts : List Int := []
  uniqueTokenLen : Nat := 0

structure SamplingInputs where
  requests : List SamplingInput
  sampleIdxes : List Nat
  sampleIdxes_lt : ∀ idx ∈ sampleIdxes, idx < requests.length
  sampleIdxes_length : sampleIdxes.length ≤ requests.length

namespace SamplingInputs

def params (A : SamplingInputs) : List RequestSamplingParam := A.requests.map (·.param)
def selectedTokenIdxes (A : SamplingInputs) : List Nat := A.requests.map (·.selectedTokenIdx)
def uniqueTokenIds (A : SamplingInputs) : List (List Int) := A.requests.map (·.uniqueTokenIds)
def uniqueTokenCounts (A : SamplingInputs) : List (List Int) :=
  A.requests.map (·.uniqueTokenCounts)
def uniqueTokenLens (A : SamplingInputs) : List Nat := A.requests.map (·.uniqueTokenLen)

def init (A : SamplingInputs) : Except TensorFault SamplingParameters :=
  SamplingParameters.init A.params A.selectedTokenIdxes A.sampleIdxes A.uniqueTokenIds
    A.uniqueTokenCounts A.uniqueTokenLens

/-- The requests of `A` followed by those of `B`. The selected tokens of `B` come behind the last
one of `A`, as `concat` shifts them, and its sample indices, which are indices of requests, move
by the number of requests of `A`. -/
def append (A B : SamplingInputs) : SamplingInputs where
  requests := A.requests ++ B.requests.map fun r =>
    { r with
      selectedTokenIdx := r.selectedTokenIdx + (A.selectedTokenIdxes.getLast?.map (· + 1)).getD 0 }
  sampleIdxes := A.sampleIdxes ++ B.sampleIdxes.map (· + A.requests.length)
  sampleIdxes_lt := by
    intro idx hidx
    rw [length_append, length_map]
    rcases List.mem_append.mp hidx with hidx | hidx
    · exact Nat.lt_add_right _ (A.sampleIdxes_lt idx hidx)
    · obtain ⟨i, hi, rfl⟩ := List.mem_map.mp hidx
      have := B.sampleIdxes_lt i hi
      omega
  sampleIdxes_length := by
    have := A.sampleIdxes_length
    have := B.sampleIdxes_length
    simp only [length_append, length_map]
    omega

def doSample (A : SamplingInputs) : List Bool :=
  A.sampleIdxes.map fun idx => (A.params[idx]?).any RequestSamplingParam.sample

/-- Both batches leave out the same tensors, no request asks for penalties, and where unique
tokens are listed the lists have one length. -/
structure Alike (A B : SamplingInputs) : Prop where
  penaltiesLeft : anyPenalties A.params = false
  penaltiesRight : anyPenalties B.params = false
  repetition : anyRepetition A.params = anyRepetition B.params
  temperature : anyTemperature A.params = anyTemperature B.params
  topP : anyTopP A.params = anyTopP B.params
  topK : anyTopK A.params = anyTopK B.params
  ids : anyRepetition A.params = true → columns A.uniqueTokenIds = columns B.uniqueTokenIds
  counts : anyRepetition A.params = true →
    columns A.uniqueTokenCounts = columns B.uniqueTokenCounts

/-- The batches that `concat` joins as `init` would. -/
structure Joinable (A B : SamplingInputs) : Prop where
  /-- The first batch samples: `sample_idxes[-1]` exists. -/
  sampled : A.sampleIdxes ≠ []
  /-- The last request of the first batch is the last one that is sampled. -/
  last : B.sampleIdxes = [] ∨ A.sampleIdxes.getLast? = some (A.requests.length - 1)
  alike : B.requests = [] ∨ Alike A B
  random : A.doSample.all id = true → B.doSample.all id = true
  greedy : B.doSample.any id = true → A.doSample.any id = true
  beam : anyBeam B.params = true → anyBeam A.params = true

theorem sampleFlags_eq {params : List RequestSamplingParam} {idxes : List Nat}
    (h : ∀ idx ∈ idxes, idx < params.length) :
    sampleFlags params idxes =
      .ok (idxes.map fun idx => (params[idx]?).any RequestSamplingParam.sample) := by
  induction idxes with
  | nil => rfl
  | cons idx idxes ih =>
      have hidx : idx < params.length := h idx mem_cons_self
      have hrest := ih fun i hi => h i (mem_cons_of_mem _ hi)
      simp only [sampleFlags, hrest]
      simp [getElem?_eq_getElem hidx]
      rfl

@[simp] theorem length_params (A : SamplingInputs) : A.params.length = A.requests.length :=
  length_map _

/-- What `init` builds of a batch and the matrices of its unique tokens. -/
def built (A : SamplingInputs) (uniqueTokenIds uniqueTokenCounts : Option (Tensor2d Int)) :
    SamplingParameters where
  selectedTokenIdxes := some A.selectedTokenIdxes
  frequencyPenalties := definedIf (anyPenalties A.params) (A.params.map (·.frequencyPenalty))
  presencePenalties := definedIf (anyPenalties A.params) (A.params.map (·.presencePenalty))
  repetitionPenalties := definedIf (anyRepetition A.params) (A.params.map (·.repetitionPenalty))
  temperatures := definedIf (anyTemperature A.params) (A.params.map (·.temperature))
  topP := definedIf (anyTopP A.params) (A.params.map (·.topP))
  topK := definedIf (anyTopK A.params) (A.params.map (·.topK))
  uniqueTokenIds
  uniqueTokenCounts
  uniqueTokenIdsLens := definedIf (needTokenStats A.params) A.uniqueTokenLens
  sampleIdxes := some A.sampleIdxes
  doSample := some A.doSample
  allRandomSample := A.doSample.all id
  allGreedySample := !A.doSample.any id
  logprobs := A.params.any (·.logprobs)
  isEmbeddings := A.params.any (·.isEmbeddings)
  maxTopLogprobs := mostTopLogprobs A.params
  useBeamSearch := anyBeam A.params

theorem init_eq (A : SamplingInputs) :
    A.init = (do
      let ids ← matrixIf (needTokenStats A.params) A.uniqueTokenIds
      let counts ← matrixIf (needTokenStats A.params) A.uniqueTokenCounts
      return A.built ids counts) := by
  have hflags : sampleFlags A.params A.sampleIdxes = .ok A.doSample :=
    sampleFlags_eq (by simpa using A.sampleIdxes_lt)
  have hselected : A.params.length = A.selectedTokenIdxes.length := by simp [selectedTokenIdxes]
  have hids : A.params.length = A.uniqueTokenIds.length := by simp [uniqueTokenIds]
  have hcounts : A.params.length = A.uniqueTokenCounts.length := by simp [uniqueTokenCounts]
  have hlens : A.params.length = A.uniqueTokenLens.length := by simp [uniqueTokenLens]
  have hlength : A.sampleIdxes.length ≤ A.params.length := by simpa using A.sampleIdxes_length
  unfold init SamplingParameters.init
  simp only [← hselected, ← hids, ← hcounts, ← hlens, hflags, hlength, beq_self_eq_true,
    Bool.or_true]
  rfl

theorem init_eq_ok_iff {A : SamplingInputs} {p : SamplingParameters} :
    A.init = .ok p ↔ ∃ ids counts,
      matrixIf (needTokenStats A.params) A.uniqueTokenIds = .ok ids ∧
      matrixIf (needTokenStats A.params) A.uniqueTokenCounts = .ok counts ∧
      p = A.built ids counts := by
  rw [init_eq]
  constructor
  · intro h
    obtain ⟨ids, hids, h⟩ := Contract.bind_eq_ok h
    obtain ⟨counts, hcounts, h⟩ := Contract.bind_eq_ok h
    exact ⟨ids, counts, hids, hcounts, (Except.ok.inj h).symm⟩
  · rintro ⟨ids, counts, hids, hcounts, rfl⟩
    rw [hids, hcounts]
    rfl

theorem shiftBehind_some {xs ys : List Nat} {last : Nat} (h : xs.getLast? = some last) :
    shiftBehind (some xs) (some ys) = .ok (some (ys.map (· + (last + 1)))) := by
  simp [shiftBehind, h]

theorem concat_eq_ok_iff {this param p : SamplingParameters} :
    this.concat param = .ok p ↔ ∃ selected sampled ids counts,
      shiftBehind this.selectedTokenIdxes param.selectedTokenIdxes = .ok selected ∧
      shiftBehind this.sampleIdxes param.sampleIdxes = .ok sampled ∧
      safeConcat Tensor2d.cat this.uniqueTokenIds param.uniqueTokenIds = .ok ids ∧
      safeConcat Tensor2d.cat this.uniqueTokenCounts param.uniqueTokenCounts = .ok counts ∧
      p = { this with
        selectedTokenIdxes := join this.selectedTokenIdxes selected
        sampleIdxes := join this.sampleIdxes sampled
        frequencyPenalties := join this.frequencyPenalties param.frequencyPenalties
        repetitionPenalties := join this.repetitionPenalties param.repetitionPenalties
        temperatures := join this.temperatures param.temperatures
        topP := join this.topP param.topP
        topK := join this.topK param.topK
        uniqueTokenIds := ids
        uniqueTokenCounts := counts
        uniqueTokenIdsLens := join this.uniqueTokenIdsLens param.uniqueTokenIdsLens
        doSample := join this.doSample param.doSample
        logprobs := this.logprobs || param.logprobs
        isEmbeddings := this.isEmbeddings || param.isEmbeddings
        maxTopLogprobs := max this.maxTopLogprobs param.maxTopLogprobs } := by
  unfold SamplingParameters.concat
  simp only [safeConcat_cat1d, Contract.ok_bind]
  constructor
  · intro h
    obtain ⟨selected, hselected, h⟩ := Contract.bind_eq_ok h
    obtain ⟨sampled, hsampled, h⟩ := Contract.bind_eq_ok h
    obtain ⟨ids, hids, h⟩ := Contract.bind_eq_ok h
    obtain ⟨counts, hcounts, h⟩ := Contract.bind_eq_ok h
    exact ⟨selected, sampled, ids, counts, hselected, hsampled, hids, hcounts,
      (Except.ok.inj h).symm⟩
  · rintro ⟨selected, sampled, ids, counts, hselected, hsampled, hids, hcounts, rfl⟩
    rw [hselected, hsampled, hids, hcounts]
    rfl

section Append

variable (A B : SamplingInputs)

@[simp] theorem params_append : (A.append B).params = A.params ++ B.params := by
  simp [params, append]

@[simp] theorem uniqueTokenIds_append :
    (A.append B).uniqueTokenIds = A.uniqueTokenIds ++ B.uniqueTokenIds := by
  simp [uniqueTokenIds, append]

@[simp] theorem uniqueTokenCounts_append :
    (A.append B).uniqueTokenCounts = A.uniqueTokenCounts ++ B.uniqueTokenCounts := by
  simp [uniqueTokenCounts, append]

@[simp] theorem uniqueTokenLens_append :
    (A.append B).uniqueTokenLens = A.uniqueTokenLens ++ B.uniqueTokenLens := by
  simp [uniqueTokenLens, append]

theorem selectedTokenIdxes_append {last : Nat} (h : A.selectedTokenIdxes.getLast? = some last) :
    (A.append B).selectedTokenIdxes =
      A.selectedTokenIdxes ++ B.selectedTokenIdxes.map (· + (last + 1)) := by
  change (A.requests ++ B.requests.map _).map _ = _
  rw [h]
  simp [selectedTokenIdxes]

@[simp] theorem doSample_append : (A.append B).doSample = A.doSample ++ B.doSample := by
  unfold doSample
  rw [params_append]
  change (A.sampleIdxes ++ B.sampleIdxes.map (· + A.requests.length)).map _ = _
  rw [map_append, map_map]
  congr 1
  · refine map_congr_left fun idx hidx => ?_
    rw [getElem?_append_left (by simpa using A.sampleIdxes_lt idx hidx)]
  · refine map_congr_left fun idx _ => ?_
    simp only [Function.comp_apply]
    rw [getElem?_append_right (by simp), length_params, Nat.add_sub_cancel]

end Append

section Flags

variable (ps qs : List RequestSamplingParam)

@[simp] theorem anyPenalties_append :
    anyPenalties (ps ++ qs) = (anyPenalties ps || anyPenalties qs) := by
  simp only [anyPenalties, map_append, any_append]
  ac_rfl

@[simp] theorem anyRepetition_append :
    anyRepetition (ps ++ qs) = (anyRepetition ps || anyRepetition qs) := by
  simp only [anyRepetition, map_append, any_append]

@[simp] theorem anyTemperature_append :
    anyTemperature (ps ++ qs) = (anyTemperature ps || anyTemperature qs) := by
  simp only [anyTemperature, map_append, any_append]

@[simp] theorem anyTopK_append : anyTopK (ps ++ qs) = (anyTopK ps || anyTopK qs) := by
  simp only [anyTopK, map_append, any_append]

@[simp] theorem anyTopP_append : anyTopP (ps ++ qs) = (anyTopP ps || anyTopP qs) := by
  simp only [anyTopP, map_append, any_append]

@[simp] theorem needTokenStats_append :
    needTokenStats (ps ++ qs) = (needTokenStats ps || needTokenStats qs) := by
  simp only [needTokenStats, anyPenalties_append, anyRepetition_append]
  ac_rfl

@[simp] theorem anyBeam_append : anyBeam (ps ++ qs) = (anyBeam ps || anyBeam qs) :=
  any_append

theorem foldl_max_eq (most : Int) (h : 0 ≤ most) :
    ps.foldl (fun most p => max most p.topLogprobs) most = max most (mostTopLogprobs ps) := by
  unfold mostTopLogprobs
  induction ps generalizing most with
  | nil =>
      rw [foldl_nil, foldl_nil]
      omega
  | cons p ps ih =>
      rw [foldl_cons, foldl_cons, ih (max most p.topLogprobs) (by omega),
        ih (max 0 p.topLogprobs) (by omega)]
      omega

@[simp] theorem mostTopLogprobs_append :
    mostTopLogprobs (ps ++ qs) = max (mostTopLogprobs ps) (mostTopLogprobs qs) := by
  have hnonneg : 0 ≤ mostTopLogprobs ps := by
    have hfold := foldl_max_eq ps 0 (by omega)
    rw [← mostTopLogprobs] at hfold
    omega
  rw [mostTopLogprobs, foldl_append]
  exact foldl_max_eq qs _ hnonneg

end Flags

section Join

variable {A B : SamplingInputs}

theorem requests_ne_nil (h : A.sampleIdxes ≠ []) : A.requests ≠ [] := by
  intro hnil
  obtain ⟨idx, hidx⟩ := exists_mem_of_ne_nil _ h
  have := A.sampleIdxes_lt idx hidx
  simp [hnil] at this

theorem sampleIdxes_append_iff {last : Nat} (h : A.sampleIdxes.getLast? = some last) :
    A.sampleIdxes ++ B.sampleIdxes.map (· + (last + 1)) = (A.append B).sampleIdxes ↔
      B.sampleIdxes = [] ∨ A.sampleIdxes.getLast? = some (A.requests.length - 1) := by
  have hlast : last < A.requests.length := A.sampleIdxes_lt last (mem_of_getLast? h)
  change _ = A.sampleIdxes ++ B.sampleIdxes.map (· + A.requests.length) ↔ _
  rw [append_cancel_left_eq, h, map_inj_left, Option.some.injEq]
  constructor
  · intro hmap
    cases hB : B.sampleIdxes with
    | nil => exact .inl rfl
    | cons idx rest =>
        have := hmap idx (by rw [hB]; exact mem_cons_self)
        right
        omega
  · rintro (hB | hlast)
    · simp [hB]
    · intro idx _
      omega

theorem Alike.needTokenStats_eq (h : Alike A B) :
    needTokenStats A.params = anyRepetition A.params ∧
      needTokenStats B.params = anyRepetition A.params := by
  simp [needTokenStats, h.penaltiesLeft, h.penaltiesRight, h.repetition]

theorem join_params_iff {β : Type*} (f : RequestSamplingParam → β)
    (needed : List RequestSamplingParam → Bool) (hnil : needed [] = false)
    (hA : A.requests ≠ []) :
    join (definedIf (needed A.params) (A.params.map f))
        (definedIf (needed B.params) (B.params.map f)) =
      definedIf (needed A.params || needed B.params) ((A.params ++ B.params).map f) ↔
      B.requests = [] ∨ needed A.params = needed B.params := by
  rw [map_append, join_definedIf_iff (by simpa [params] using hA)]
  · simp [params]
  · intro h
    rw [List.map_eq_nil_iff.mp h, hnil]

theorem needTokenStats_of_requests_eq_nil (h : B.requests = []) :
    needTokenStats B.params = false := by
  simp [params, h, needTokenStats, anyPenalties, anyRepetition]

/-- `presence_penalties` of the first batch are those of both, exactly if there is no other
request or none asks for penalties. -/
theorem presence_iff :
    definedIf (anyPenalties A.params) (A.params.map (·.presencePenalty)) =
      definedIf (anyPenalties A.params || anyPenalties B.params)
        ((A.params ++ B.params).map (·.presencePenalty)) ↔
      B.requests = [] ∨ (anyPenalties A.params = false ∧ anyPenalties B.params = false) := by
  rw [map_append, definedIf_append_iff]
  · simp [params]
  · intro h
    rw [List.map_eq_nil_iff.mp h]
    rfl

theorem matrix_iff {f : SamplingInput → List Int} {s t : Option (Tensor2d Int)}
    (hA : A.requests ≠ [])
    (hs : matrixIf (needTokenStats A.params) (A.requests.map f) = .ok s)
    (ht : matrixIf (needTokenStats B.params) (B.requests.map f) = .ok t) :
    (∃ u, safeConcat Tensor2d.cat s t = .ok u ∧
      matrixIf (needTokenStats (A.append B).params) (A.requests.map f ++ B.requests.map f) =
        .ok u) ↔
      B.requests = [] ∨ (needTokenStats A.params = needTokenStats B.params ∧
        (needTokenStats A.params = true →
          columns (A.requests.map f) = columns (B.requests.map f))) := by
  rw [params_append, needTokenStats_append, safeConcat_matrixIf_iff (by simpa using hA)
    (fun h => needTokenStats_of_requests_eq_nil (by simpa using h)) hs ht]
  simp

theorem joinable_of_concat {pA pB p : SamplingParameters} (hA : A.init = .ok pA)
    (hB : B.init = .ok pB) (hconcat : pA.concat pB = .ok p)
    (hinit : (A.append B).init = .ok p) : Joinable A B := by
  obtain ⟨idsA, countsA, hidsA, hcountsA, rfl⟩ := init_eq_ok_iff.mp hA
  obtain ⟨idsB, countsB, hidsB, hcountsB, rfl⟩ := init_eq_ok_iff.mp hB
  obtain ⟨selected, sampled, ids, counts, hselected, hsampled, hids, hcounts, rfl⟩ :=
    concat_eq_ok_iff.mp hconcat
  obtain ⟨ids', counts', hids', hcounts', heq⟩ := init_eq_ok_iff.mp hinit
  have hne : A.sampleIdxes ≠ [] := by
    intro hnil
    simp [built, shiftBehind, hnil] at hsampled
  have hrequests := requests_ne_nil hne
  obtain ⟨last, hlast⟩ := Option.isSome_iff_exists.mp (List.getLast?_isSome.mpr hne)
  obtain rfl := Except.ok.inj (hsampled.symm.trans (shiftBehind_some hlast))
  rw [SamplingParameters.ext_iff] at heq
  obtain ⟨-, -, hpresence, hrepetition, htemps, htopP, htopK, hidsEq, hcountsEq, -, hsample, -,
    hrandom, hgreedy, -, -, -, hbeam⟩ := heq
  obtain rfl : ids = ids' := hidsEq
  obtain rfl : counts = counts' := hcountsEq
  simp only [built, join, Option.some.injEq, sampleIdxes_append_iff hlast] at hsample
  simp only [built, params_append, anyPenalties_append, presence_iff] at hpresence
  simp only [built, params_append, anyRepetition_append,
    join_params_iff _ anyRepetition rfl hrequests] at hrepetition
  simp only [built, params_append, anyTemperature_append,
    join_params_iff _ anyTemperature rfl hrequests] at htemps
  simp only [built, params_append, anyTopP_append,
    join_params_iff _ anyTopP rfl hrequests] at htopP
  simp only [built, params_append, anyTopK_append,
    join_params_iff _ anyTopK rfl hrequests] at htopK
  rw [uniqueTokenIds_append] at hids'
  rw [uniqueTokenCounts_append] at hcounts'
  have hidsFit := (matrix_iff hrequests hidsA hidsB).mp ⟨ids, hids, hids'⟩
  have hcountsFit := (matrix_iff hrequests hcountsA hcountsB).mp ⟨counts, hcounts, hcounts'⟩
  simp only [built, doSample_append] at hrandom hgreedy
  simp only [built] at hbeam
  refine ⟨hne, hsample, ?_, ?_, ?_, ?_⟩
  · by_cases hnil : B.requests = []
    · exact .inl hnil
    · simp only [hnil, false_or] at hpresence hrepetition htemps htopP htopK hidsFit hcountsFit
      have hstats : needTokenStats A.params = anyRepetition A.params := by
        simp [needTokenStats, hpresence.1]
      rw [hstats] at hidsFit hcountsFit
      exact .inr ⟨hpresence.1, hpresence.2, hrepetition, htemps, htopP, htopK, hidsFit.2,
        hcountsFit.2⟩
  · intro h
    simpa [h] using hrandom
  · intro h
    simpa [h] using hgreedy
  · intro h
    simpa [h] using hbeam

theorem concat_of_joinable {pA pB : SamplingParameters} (hA : A.init = .ok pA)
    (hB : B.init = .ok pB) (h : Joinable A B) :
    ∃ p, pA.concat pB = .ok p ∧ (A.append B).init = .ok p := by
  obtain ⟨idsA, countsA, hidsA, hcountsA, rfl⟩ := init_eq_ok_iff.mp hA
  obtain ⟨idsB, countsB, hidsB, hcountsB, rfl⟩ := init_eq_ok_iff.mp hB
  have hrequests := requests_ne_nil h.sampled
  obtain ⟨last, hlast⟩ := Option.isSome_iff_exists.mp (List.getLast?_isSome.mpr h.sampled)
  obtain ⟨lastToken, hlastToken⟩ : ∃ t, A.selectedTokenIdxes.getLast? = some t :=
    Option.isSome_iff_exists.mp
      (List.getLast?_isSome.mpr (by simpa [selectedTokenIdxes] using hrequests))
  have hfit : ∀ {f : SamplingInput → List Int},
      (anyRepetition A.params = true →
        Alike A B → columns (A.requests.map f) = columns (B.requests.map f)) →
      B.requests = [] ∨ (needTokenStats A.params = needTokenStats B.params ∧
        (needTokenStats A.params = true →
          columns (A.requests.map f) = columns (B.requests.map f))) := by
    intro f hcolumns
    refine h.alike.imp_right fun hab => ?_
    obtain ⟨hstatsA, hstatsB⟩ := hab.needTokenStats_eq
    rw [hstatsA, hstatsB]
    exact ⟨rfl, fun hrep => hcolumns hrep hab⟩
  obtain ⟨ids, hids, hids'⟩ := (matrix_iff hrequests hidsA hidsB).mpr
    (hfit fun hrep hab => hab.ids hrep)
  obtain ⟨counts, hcounts, hcounts'⟩ := (matrix_iff hrequests hcountsA hcountsB).mpr
    (hfit fun hrep hab => hab.counts hrep)
  rw [← uniqueTokenIds, ← uniqueTokenIds, ← uniqueTokenIds_append] at hids'
  rw [← uniqueTokenCounts, ← uniqueTokenCounts, ← uniqueTokenCounts_append] at hcounts'
  refine ⟨_, concat_eq_ok_iff.mpr ⟨_, _, ids, counts, shiftBehind_some hlastToken,
    shiftBehind_some hlast, hids, hcounts, rfl⟩,
    init_eq_ok_iff.mpr ⟨ids, counts, hids', hcounts', ?_⟩⟩
  -- One field of the parameters after the other.
  refine SamplingParameters.ext_iff.mpr ⟨?_, ?_, ?_, ?_, ?_, ?_, ?_, rfl, rfl, ?_, ?_, ?_, ?_, ?_,
      ?_, ?_, ?_, ?_⟩ <;>
    simp only [built, params_append, anyPenalties_append, anyRepetition_append,
      anyTemperature_append, anyTopP_append, anyTopK_append, needTokenStats_append,
        mostTopLogprobs_append, doSample_append, any_append]
  · exact congrArg some (selectedTokenIdxes_append A B hlastToken).symm
  · exact (join_params_iff _ anyPenalties rfl hrequests).mpr
      (h.alike.imp_right fun hab => hab.penaltiesLeft.trans hab.penaltiesRight.symm)
  · exact presence_iff.mpr
      (h.alike.imp_right fun hab => ⟨hab.penaltiesLeft, hab.penaltiesRight⟩)
  · exact (join_params_iff _ anyRepetition rfl hrequests).mpr
      (h.alike.imp_right Alike.repetition)
  · exact (join_params_iff _ anyTemperature rfl hrequests).mpr
      (h.alike.imp_right Alike.temperature)
  · exact (join_params_iff _ anyTopP rfl hrequests).mpr
      (h.alike.imp_right Alike.topP)
  · exact (join_params_iff _ anyTopK rfl hrequests).mpr
      (h.alike.imp_right Alike.topK)
  · rw [uniqueTokenLens_append]
    refine (join_definedIf_iff (by simpa [uniqueTokenLens] using hrequests) fun hnil =>
      needTokenStats_of_requests_eq_nil (by simpa [uniqueTokenLens] using hnil)).mpr ?_
    refine h.alike.imp (fun hnil => by simp [uniqueTokenLens, hnil]) fun hab => ?_
    rw [hab.needTokenStats_eq.1, hab.needTokenStats_eq.2]
  · exact congrArg some ((sampleIdxes_append_iff hlast).mpr h.last)
  · rfl
  · have := h.random
    cases hall : A.doSample.all id <;> simp_all
  · have := h.greedy
    cases hany : B.doSample.any id <;> simp_all
  · have := h.beam
    cases hany : anyBeam B.params <;> simp_all

/-- What `concat` makes of two batches is what `init` makes of their requests, for exactly the
joinable ones. -/
theorem concat_init_iff {pA pB : SamplingParameters} (hA : A.init = .ok pA)
    (hB : B.init = .ok pB) :
    (∃ p, pA.concat pB = .ok p ∧ (A.append B).init = .ok p) ↔ Joinable A B := by
  constructor
  · rintro ⟨p, hconcat, hinit⟩
    exact joinable_of_concat hA hB hconcat hinit
  · exact concat_of_joinable hA hB

end Join

def single (param : RequestSamplingParam) : SamplingInputs where
  requests := [{ param, selectedTokenIdx := 4 }]
  sampleIdxes := [0]
  sampleIdxes_lt := by simp
  sampleIdxes_length := by simp

/-- Two requests with repetition penalties, the second at a temperature of its own, and two
unique tokens for each. -/
def penalized (penalty temperature : ℚ) : SamplingInputs where
  requests := [
    { param := { repetitionPenalty := penalty, temperature := 1 }
      selectedTokenIdx := 4, uniqueTokenIds := [11, 12], uniqueTokenCounts := [1, 3]
      uniqueTokenLen := 2 },
    { param := { temperature }
      selectedTokenIdx := 9, uniqueTokenIds := [11, 0], uniqueTokenCounts := [5, 0]
      uniqueTokenLen := 1 }]
  sampleIdxes := [0, 1]
  sampleIdxes_lt := by simp
  sampleIdxes_length := by simp

/-- Two batches of two requests, one of which is penalized. -/
theorem concat_init_iff_two_requests :
    ∃ pA pB p, (penalized 2 7).init = .ok pA ∧ (penalized 3 5).init = .ok pB ∧
      pA.concat pB = .ok p ∧ ((penalized 2 7).append (penalized 3 5)).init = .ok p ∧
      p.repetitionPenalties = some [2, 1, 3, 1] ∧ p.temperatures = some [1, 7, 1, 5] ∧
      p.uniqueTokenIds.map (·.rows) = some [[11, 12], [11, 0], [11, 12], [11, 0]] ∧
      p.sampleIdxes = some [0, 1, 2, 3] := by
  have hjoinable : Joinable (penalized 2 7) (penalized 3 5) :=
    ⟨by decide, by decide, .inr ⟨by decide, by decide, by decide, by decide, by decide,
      by decide, fun _ => rfl, fun _ => rfl⟩, by decide, by decide, by decide⟩
  obtain ⟨pA, pB, hA, hB⟩ : ∃ pA pB, (penalized 2 7).init = .ok pA ∧
      (penalized 3 5).init = .ok pB := ⟨_, _, rfl, rfl⟩
  obtain ⟨p, hconcat, hinit⟩ := (concat_init_iff hA hB).mpr hjoinable
  refine ⟨pA, pB, p, hA, hB, hconcat, hinit, ?_⟩
  obtain rfl := Except.ok.inj hinit
  decide

/-- The temperature of a request that follows a greedy one ends up in the row of the greedy one,
and the batch still counts as greedy. -/
theorem concat_shifts_temperature :
    ∃ pA pB p q, (single {}).init = .ok pA ∧ (single { temperature := 2 }).init = .ok pB ∧
      pA.concat pB = .ok p ∧
      ((single {}).append (single { temperature := 2 })).init = .ok q ∧
      p.temperatures = some [2] ∧ q.temperatures = some [0, 2] ∧
      p.allGreedySample = true ∧ q.allGreedySample = false := by
  refine ⟨_, _, _, _, rfl, rfl, rfl, rfl, ?_, ?_, ?_, ?_⟩ <;> decide

end SamplingInputs

end Xllm.Sampling
