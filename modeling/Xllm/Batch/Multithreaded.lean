import Xllm.Batch.InputBuilder

/-!
# Multithreaded building

The threads of `process_sequences_multithreaded` fill states of their own, and the
merge puts them behind each other: vectors are concatenated, indices into other
vectors and prefix sums get an offset, maxima are compared. Processing a sequence
behind a merge is therefore the merge behind the processing, for every member of
the state. The one exception is `kv_cache_tokens_nums`, which is merged on the
devices that use it and stays empty on the others.
-/

namespace Xllm

open Contract Chunks

namespace BatchInputBuilder

variable {b : BatchInputBuilder} {s t : BuilderState}

def appendState (b : BatchInputBuilder) (s t : BuilderState) : BuilderState :=
  { b.mergeState s t with
    kvCacheTokensNums := s.kvCacheTokensNums ++ t.kvCacheTokensNums }

structure Mergeable (b : BatchInputBuilder) (batchForwardType : BatchForwardType)
    (s : BuilderState) : Prop where
  forwardType : s.batchForwardType = batchForwardType
  indptr : ∃ rest, s.pagedKvIndptr = 0 :: rest
  seqLens : b.platform.cumulative → ∃ rest, s.seqLens = 0 :: rest
  qSeqLens : b.platform.cumulative → ∃ rest, s.qSeqLens = 0 :: rest
  sampled : s.sampleIdxes.length = s.selectedTokenIdxes.length
  rowed : s.rows.length = s.selectedTokenIdxes.length

variable {ft : BatchForwardType}

theorem mergeable_emptyState (b : BatchInputBuilder) (ft : BatchForwardType) :
    b.Mergeable ft (b.emptyState ft) where
  forwardType := rfl
  indptr := ⟨[], rfl⟩
  seqLens h := ⟨[], if_pos h⟩
  qSeqLens h := ⟨[], if_pos h⟩
  sampled := rfl
  rowed := rfl

@[simp] theorem appendState_emptyState (b : BatchInputBuilder) (ft : BatchForwardType)
    (s : BuilderState) : b.appendState s (b.emptyState ft) = s := by
  cases hc : b.platform.cumulative <;>
    simp [appendState, mergeState, emptyState, hc, mergeSums_zero]

theorem Mergeable.append (hs : b.Mergeable ft s) (ht : b.Mergeable ft t) :
    b.Mergeable ft (b.appendState s t) := by
  refine ⟨hs.forwardType, ?_, fun hc => ?_, fun hc => ?_, ?_, ?_⟩
  · obtain ⟨rest, hindptr⟩ := hs.indptr
    simp only [appendState, mergeState, hindptr]
    exact ⟨_, rfl⟩
  · obtain ⟨rest, hlens⟩ := hs.seqLens hc
    simp only [appendState, mergeState, hc, hlens]
    exact ⟨_, rfl⟩
  · obtain ⟨rest, hlens⟩ := hs.qSeqLens hc
    simp only [appendState, mergeState, hc, hlens]
    exact ⟨_, rfl⟩
  · simp [appendState, mergeState, hs.sampled, ht.sampled]
  · simp [appendState, mergeState, hs.rowed, ht.rowed]

theorem commutes_recordLengths (nKvCacheTokens seqLen paddedQSeqLen : Nat) :
    Commutes (b.Mergeable ft) (b.appendState s)
      (fun t => (.ok (b.recordLengths nKvCacheTokens seqLen paddedQSeqLen t) :
        Except Check BuilderState)) := by
  refine Commutes.pure (fun t ht => ?_) (fun t ht => ?_)
  · cases hplatform : b.platform with
    | npu =>
        simp [recordLengths, appendState, mergeState, hplatform, Platform.cumulative]
    | musa =>
        simp [recordLengths, appendState, mergeState, hplatform]
    | _ =>
        obtain ⟨rest, hlens⟩ := ht.seqLens (by rw [hplatform]; rfl)
        obtain ⟨rest', hlens'⟩ := ht.qSeqLens (by rw [hplatform]; rfl)
        simp only [recordLengths, appendState, mergeState, hplatform, Platform.cumulative, if_true,
          hlens, hlens', mergeSums_push, max_assoc, List.append_assoc]
  · refine ⟨ht.forwardType, ht.indptr, fun hc => ?_, fun hc => ?_, ht.sampled, ht.rowed⟩
    · obtain ⟨rest, hlens⟩ := ht.seqLens hc
      cases hplatform : b.platform <;> simp [recordLengths, hplatform, hlens]
    · obtain ⟨rest, hlens⟩ := ht.qSeqLens hc
      cases hplatform : b.platform <;> simp [recordLengths, hplatform, hlens]

@[simp] theorem pushToken_appendState (token : Token) (j : Nat) :
    b.pushToken token j (b.appendState s t) = b.appendState s (b.pushToken token j t) := by
  cases hmrope : b.useMrope <;> simp [pushToken, appendState, mergeState, hmrope]

theorem Mergeable.pushToken (ht : b.Mergeable ft t) (token : Token) (j : Nat) :
    b.Mergeable ft (b.pushToken token j t) :=
  ⟨ht.forwardType, ht.indptr, ht.seqLens, ht.qSeqLens, ht.sampled, ht.rowed⟩

theorem commutes_handleSamplingParameters (hs : b.Mergeable ft s) (seq : BatchSequence)
    (target : OutputTarget) :
    Commutes (fun t => b.Mergeable ft t ∧ t.flattenTokensVec ≠ []) (b.appendState s)
      (b.handleSamplingParameters seq target) := by
  rintro t ⟨ht, htoken⟩
  have hpos : 0 < t.flattenTokensVec.length := List.length_pos_iff.mpr htoken
  have hidx : s.flattenTokensVec.length + t.flattenTokensVec.length - 1 =
      t.flattenTokensVec.length - 1 + s.flattenTokensVec.length := by omega
  have hsample : s.selectedTokenIdxes.length + t.selectedTokenIdxes.length =
      t.selectedTokenIdxes.length + s.sampleIdxes.length := by
    rw [hs.sampled, Nat.add_comm]
  constructor
  · simp only [handleSamplingParameters]
    split
    · simp [appendState, mergeState, Except.map, hidx, hsample]
    · split
      · rfl
      · simp [appendState, mergeState, Except.map, hidx, hsample]
  · rw [handleSamplingParameters]
    have hsampled : (t.sampleIdxes ++ [t.selectedTokenIdxes.length]).length =
        (t.selectedTokenIdxes ++ [t.flattenTokensVec.length - 1]).length := by simp [ht.sampled]
    have hrowed : (t.rows ++ [target]).length =
        (t.selectedTokenIdxes ++ [t.flattenTokensVec.length - 1]).length := by simp [ht.rowed]
    split
    · exact ⟨⟨ht.forwardType, ht.indptr, ht.seqLens, ht.qSeqLens, hsampled, hrowed⟩, htoken⟩
    · split
      · exact trivial
      · exact ⟨⟨ht.forwardType, ht.indptr, ht.seqLens, ht.qSeqLens, hsampled, hrowed⟩, htoken⟩

theorem sampleAt_appendState (hs : b.Mergeable ft s) (seq : BatchSequence) (index j : Nat)
    (slots : List SampleSlot) (ht : b.Mergeable ft t) (htoken : t.flattenTokensVec ≠ []) :
    b.sampleAt seq index j slots (b.appendState s t) =
        (b.sampleAt seq index j slots t).map (Prod.map id (b.appendState s)) ∧
      IfOk (b.sampleAt seq index j slots t) (fun r => b.Mergeable ft r.2) := by
  induction slots generalizing t with
  | nil => exact ⟨rfl, ht⟩
  | cons slot slots ih =>
      rw [sampleAt, sampleAt]
      split_ifs
      · exact ih ht htoken
      · exact ⟨rfl, ht⟩
      · obtain ⟨hcomm, hkeeps⟩ :=
          commutes_handleSamplingParameters hs seq ⟨index, slot.sampleId, true⟩ t ⟨ht, htoken⟩
        rw [hcomm]
        cases hrow : b.handleSamplingParameters seq ⟨index, slot.sampleId, true⟩ t with
        | error e => exact ⟨rfl, trivial⟩
        | ok t' =>
            rw [hrow] at hkeeps
            exact ih hkeeps.1 hkeeps.2

theorem commutes_extractToken (hs : b.Mergeable ft s) (seq : BatchSequence) (index j : Nat) :
    Commutes (fun cursor => b.Mergeable ft cursor.2) (Prod.map id (b.appendState s))
      (fun cursor => b.extractToken seq index cursor j) := by
  rintro ⟨slots, t⟩ ht
  simp only [extractToken, Prod.map_apply]
  split
  · exact ⟨rfl, trivial⟩
  · rename_i token _
    have htoken : (b.pushToken token j t).flattenTokensVec ≠ [] := by simp [pushToken]
    rw [pushToken_appendState]
    split_ifs
    · exact ⟨rfl, ht.pushToken token j⟩
    · obtain ⟨hcomm, hkeeps⟩ :=
        commutes_handleSamplingParameters hs seq ⟨index, 0, false⟩ _ ⟨ht.pushToken token j, htoken⟩
      rw [hcomm]
      cases hrow : b.handleSamplingParameters seq ⟨index, 0, false⟩ (b.pushToken token j t) with
      | error e => exact ⟨rfl, trivial⟩
      | ok t' =>
          rw [hrow] at hkeeps
          exact ⟨rfl, hkeeps.1⟩
    · exact sampleAt_appendState hs seq index j slots (ht.pushToken token j) htoken

theorem foldl_pushToken_appendState (positions : List Nat) :
    positions.foldl (fun s j => b.pushToken b.padTokenId j s) (b.appendState s t) =
      b.appendState s (positions.foldl (fun s j => b.pushToken b.padTokenId j s) t) := by
  induction positions generalizing t with
  | nil => rfl
  | cons j positions ih => rw [List.foldl_cons, List.foldl_cons, pushToken_appendState, ih]

theorem Mergeable.foldl_pushToken (ht : b.Mergeable ft t) (positions : List Nat) :
    b.Mergeable ft (positions.foldl (fun s j => b.pushToken b.padTokenId j s) t) := by
  induction positions generalizing t with
  | nil => exact ht
  | cons j positions ih => exact ih (ht.pushToken b.padTokenId j)

theorem commutes_addExtraToken (seq : BatchSequence) (seqLen : Nat) :
    Commutes (b.Mergeable ft) (b.appendState s) (addExtraToken seq seqLen) := by
  intro t ht
  rw [addExtraToken, addExtraToken]
  split
  · exact ⟨by simp [appendState, mergeState, Except.map],
      ht.forwardType, ht.indptr, ht.seqLens, ht.qSeqLens, ht.sampled, ht.rowed⟩
  · split
    · exact ⟨rfl, trivial⟩
    · exact ⟨by simp [appendState, mergeState, Except.map],
        ht.forwardType, ht.indptr, ht.seqLens, ht.qSeqLens, ht.sampled, ht.rowed⟩

theorem commutes_extractTokensAndPositions (hs : b.Mergeable ft s) (seq : BatchSequence)
    (index nKvCacheTokens seqLen paddedSeqLen : Nat) :
    Commutes (b.Mergeable ft) (b.appendState s)
      (b.extractTokensAndPositions seq index nKvCacheTokens seqLen paddedSeqLen) := by
  intro t ht
  let start (t : BuilderState) : BuilderState := if b.useMrope then
    { t with mropePositionsVec := t.mropePositionsVec ++ [b.mropePositions seq] } else t
  have hstart : start (b.appendState s t) = b.appendState s (start t) := by
    cases hmrope : b.useMrope <;> simp [start, hmrope, appendState, mergeState]
  have hgood : b.Mergeable ft (start t) := by
    cases hmrope : b.useMrope
    · simpa [start, hmrope] using ht
    · simp only [start, hmrope]
      exact ⟨ht.forwardType, ht.indptr, ht.seqLens, ht.qSeqLens, ht.sampled, ht.rowed⟩
  obtain ⟨hcomm, hkeeps⟩ := Commutes.foldlM (commutes_extractToken hs seq index)
    (List.range' nKvCacheTokens (seqLen - nKvCacheTokens)) (seq.sampleSlots, start t) hgood
  simp only [Prod.map_apply, id_eq] at hcomm hkeeps
  change ((List.range' nKvCacheTokens (seqLen - nKvCacheTokens)).foldlM
    (b.extractToken seq index) (seq.sampleSlots, start (b.appendState s t)) >>= _) =
      Except.map _ ((List.range' nKvCacheTokens (seqLen - nKvCacheTokens)).foldlM
        (b.extractToken seq index) (seq.sampleSlots, start t) >>= _) ∧
    Ensures ((List.range' nKvCacheTokens (seqLen - nKvCacheTokens)).foldlM
        (b.extractToken seq index) (seq.sampleSlots, start t) >>= _) _ _
  rw [hstart, hcomm]
  cases hfold : (List.range' nKvCacheTokens (seqLen - nKvCacheTokens)).foldlM
      (b.extractToken seq index) (seq.sampleSlots, start t) with
  | error e => exact ⟨rfl, trivial⟩
  | ok cursor =>
      rw [hfold] at hkeeps
      have hlast := commutes_addExtraToken (s := s) seq seqLen _
        (hkeeps.foldl_pushToken (List.range' seqLen (paddedSeqLen - seqLen)))
      rw [← foldl_pushToken_appendState] at hlast
      exact hlast

theorem commutes_setupKvCacheInfo (seq : BatchSequence) (slotIds : List Int)
    (nKvCacheTokens seqLen : Nat) :
    Commutes (b.Mergeable ft) (b.appendState s)
      (setupKvCacheInfo seq slotIds nKvCacheTokens seqLen) := by
  intro t ht
  obtain ⟨rest, hindptr⟩ := ht.indptr
  simp only [setupKvCacheInfo]
  split
  · exact ⟨rfl, trivial⟩
  · constructor
    · simp only [appendState, mergeState, Except.map, List.append_assoc, hindptr, mergeSums_push,
        Finset.union_assoc]
    · exact ⟨ht.forwardType, ⟨_, by rw [hindptr, List.cons_append]⟩, ht.seqLens, ht.qSeqLens,
        ht.sampled, ht.rowed⟩

theorem commutes_addAccLogprob (seq : BatchSequence) (updated : Sequence) :
    Commutes (b.Mergeable ft) (b.appendState s)
      (fun t => (.ok (b.addAccLogprob seq updated t) : Except Check BuilderState)) := by
  refine Commutes.pure (fun t ht => ?_) (fun t ht => ?_)
  · simp only [addAccLogprob, appendState, mergeState]
    split_ifs <;> simp
  · exact ⟨ht.forwardType, ht.indptr, ht.seqLens, ht.qSeqLens, ht.sampled, ht.rowed⟩

theorem commutes_processSingleSequence (hs : b.Mergeable ft s) (entry : BatchEntry × Nat) :
    Commutes (b.Mergeable ft) (b.appendState s) (fun t => b.processSingleSequence t entry) := by
  intro t ht
  have hforward : (b.appendState s t).batchForwardType = t.batchForwardType :=
    hs.forwardType.trans ht.forwardType.symm
  simp only [processSingleSequence, hforward]
  cases entry.1.sequence.toSequence.processSingleSequence entry.1.allowedMaxTokens b.cpSize
      (decide (t.batchForwardType = .prefill)) with
  | error e => exact ⟨rfl, trivial⟩
  | ok kv =>
      refine ((commutes_recordLengths _ _ _).bind
        ((commutes_extractTokensAndPositions hs _ _ _ _ _).bind
          ((commutes_setupKvCacheInfo _ kv.1 _ _).bind
            (commutes_addAccLogprob _ kv.2)))) t ht

theorem threadEntries_eq (entries : List (BatchEntry × Nat)) (k i : Nat) :
    threadEntries entries k i = (entries.drop (i * k)).take k := by
  rw [threadEntries, List.take_eq_take_iff, List.length_drop]
  omega

/-- The state without the token counts, where the merge loses them. -/
def withoutUnmerged (b : BatchInputBuilder) (s : BuilderState) : BuilderState :=
  { s with kvCacheTokensNums := if b.platform.cumulative then [] else s.kvCacheTokensNums }

@[simp] theorem foldl_mergeState (states : List BuilderState) (s : BuilderState) :
    states.foldl b.mergeState (b.withoutUnmerged s) =
      b.withoutUnmerged (states.foldl b.appendState s) := by
  induction states generalizing s with
  | nil => rfl
  | cons t states ih =>
      have hmerge : b.mergeState (b.withoutUnmerged s) t =
          b.withoutUnmerged (b.appendState s t) := by
        cases hc : b.platform.cumulative <;>
          simp [withoutUnmerged, appendState, mergeState, hc]
      rw [List.foldl_cons, List.foldl_cons, hmerge, ih]

/-- The threads together build what one thread builds, except for the token counts
where these are not merged. -/
theorem processSequencesMultithreaded_eq (b : BatchInputBuilder) (ft : BatchForwardType)
    {threadsNum : Nat} (hthreads : 0 < threadsNum) (entries : List BatchEntry) :
    b.processSequencesMultithreaded ft threadsNum entries =
      (b.processSequencesSequentially ft entries).map b.withoutUnmerged := by
  have hcover : entries.zipIdx.length ≤
      threadsNum * ((entries.length + threadsNum - 1) / threadsNum) := by
    rw [List.length_zipIdx]
    have hceil := Nat.lt_mul_div_succ (entries.length + threadsNum - 1) hthreads
    rw [Nat.mul_add] at hceil
    omega
  have hstates : ((List.range threadsNum).mapM fun threadIdx =>
        (threadEntries entries.zipIdx ((entries.length + threadsNum - 1) / threadsNum)
          threadIdx).foldlM b.processSingleSequence (b.emptyState ft)) =
      (slices threadsNum ((entries.length + threadsNum - 1) / threadsNum) entries.zipIdx).mapM
        (List.foldlM b.processSingleSequence (b.emptyState ft)) := by
    rw [slices, List.mapM_map]
    simp only [threadEntries_eq, Function.comp_def]
  have hfold := foldlM_flatten (I := b.Mergeable ft) (fun s _ => appendState_emptyState b ft s)
    (fun s hs => ⟨b.Mergeable ft, mergeable_emptyState b ft, fun _ ht => hs.append ht,
      fun entry => commutes_processSingleSequence hs entry⟩)
    (slices threadsNum ((entries.length + threadsNum - 1) / threadsNum) entries.zipIdx)
    (b.emptyState ft) (mergeable_emptyState b ft)
  rw [flatten_slices_of_le hcover] at hfold
  have hempty : b.emptyState ft = b.withoutUnmerged (b.emptyState ft) := by
    rw [withoutUnmerged]
    split_ifs <;> rfl
  rw [processSequencesMultithreaded, if_neg hthreads.ne', processSequencesSequentially, hfold]
  simp only [hstates]
  cases (slices threadsNum ((entries.length + threadsNum - 1) / threadsNum) entries.zipIdx).mapM
      (List.foldlM b.processSingleSequence (b.emptyState ft)) with
  | error e => rfl
  | ok states =>
      change Except.ok (states.foldl b.mergeState (b.emptyState ft)) = Except.ok _
      rw [hempty, foldl_mergeState, ← hempty]

/-- For every batch and every number of threads the multithreaded path fails as the
sequential one does, and otherwise builds the same state. Where the lengths are
cumulative, the token counts of the cache are left out. -/
theorem multithreaded_build_agrees (b : BatchInputBuilder) (ft : BatchForwardType)
    {threadsNum : Nat} (hthreads : 0 < threadsNum) (entries : List BatchEntry) :
    (∀ e, b.processSequencesSequentially ft entries = .error e →
      b.processSequencesMultithreaded ft threadsNum entries = .error e) ∧
    ∀ s, b.processSequencesSequentially ft entries = .ok s →
      b.processSequencesMultithreaded ft threadsNum entries = .ok { s with
        kvCacheTokensNums := if b.platform.cumulative then [] else s.kvCacheTokensNums } := by
  rw [processSequencesMultithreaded_eq b ft hthreads entries]
  constructor
  · intro e he
    rw [he]
    rfl
  · intro s hs
    rw [hs]
    rfl

def twoTokenEntry : BatchEntry where
  sequence :=
    { tokenBuffer := [5, 6, 0]
      numTokens := 2
      numPromptTokens := 2
      volatileNumPromptTokens := 2
      kvState := { blocks := [{ id := 1, size := 4, refCount := some 0 }] } }
  allowedMaxTokens := 2

theorem multithreaded_build_agrees_two_threads :
    ∃ s, processSequencesSequentially ⟨.npu, false, true, 1, 0, false, fun _ => []⟩ .prefill
        [twoTokenEntry, twoTokenEntry, twoTokenEntry] = .ok s ∧
      processSequencesMultithreaded ⟨.npu, false, true, 1, 0, false, fun _ => []⟩ .prefill 2
        [twoTokenEntry, twoTokenEntry, twoTokenEntry] = .ok s ∧
      s.selectedTokenIdxes = [1, 3, 5] := by
  have hbuild : ∃ s, processSequencesSequentially ⟨.npu, false, true, 1, 0, false, fun _ => []⟩
      .prefill [twoTokenEntry, twoTokenEntry, twoTokenEntry] = .ok s ∧
      s.selectedTokenIdxes = [1, 3, 5] := ⟨_, rfl, rfl⟩
  obtain ⟨s, hs, hselected⟩ := hbuild
  exact ⟨s, hs, (multithreaded_build_agrees _ .prefill (by decide) _).2 s hs, hselected⟩

/-- On a device with cumulative lengths a pool of one thread loses the token counts. -/
theorem multithreaded_build_drops_counts :
    ∃ s s', processSequencesSequentially ⟨.cuda, false, true, 1, 0, false, fun _ => []⟩ .prefill
        [twoTokenEntry] = .ok s ∧
      processSequencesMultithreaded ⟨.cuda, false, true, 1, 0, false, fun _ => []⟩ .prefill 1
        [twoTokenEntry] = .ok s' ∧
      s.kvCacheTokensNums = [0] ∧ s'.kvCacheTokensNums = [] :=
  ⟨_, _, rfl, rfl, rfl, rfl⟩

end BatchInputBuilder

end Xllm
