import Xllm.Batch.ScheduleOverlap
import Xllm.Sampling.RejectionSampler

/-!
# Greedy speculative decoding

Behind a context and some draft tokens a validate step has one row of the target model for
the context and one more behind each draft token. `verify` is what `greedy_sample` makes of
these rows, cut at the first masked id. Whatever the draft tokens are, it is a piece of the
stream that greedy decoding gives one token at a time.

`process_sample_output` appends such pieces to a sequence. Without schedule overlap the
sequence holds the tokens of a batch when the next one is prepared. With overlap the pieces
replace fake tokens. In both cases the sequence has received an initial piece of the stream.
-/

namespace Xllm.Sampling

open Contract List

/-- The target model: the probabilities behind a context. The vocabulary is counted by an
`int32_t`. -/
structure TargetModel (α : Type*) where
  probs : List Token → List α
  length_lt : ∀ context, (probs context).length < 2 ^ 31

variable {α : Type*} [LinearOrder α] (model : TargetModel α)

/-- The token that greedy decoding takes behind a context. -/
def nextToken (context : List Token) : Token := Int32.ofInt (greedyToken (model.probs context))

def greedyStream : Nat → List Token → List Token
  | 0, _ => []
  | n + 1, context =>
      nextToken model context :: greedyStream n (context ++ [nextToken model context])

/-- The rows of a validate step that are compared with the draft tokens. -/
def targetProbs (context : List Token) : List Token → List (List α)
  | [] => []
  | draft :: drafts => model.probs context :: targetProbs (context ++ [draft]) drafts

/-- The tokens of the output of a validate step. The bonus token is sampled from the row
behind all draft tokens. -/
def verify (context drafts : List Token) : List Token :=
  let bonusTokenId := greedyToken (model.probs (context ++ drafts))
  let nextTokens := (greedySample (drafts.map Int32.toInt) (targetProbs model context drafts)
    bonusTokenId).2
  (outputTokens nextTokens).map Int32.ofInt

section Verify

variable {model} {context drafts : List Token} {draft : Token}

omit [LinearOrder α] in
@[simp] theorem length_targetProbs : (targetProbs model context drafts).length = drafts.length := by
  induction drafts generalizing context with
  | nil => rfl
  | cons draft drafts ih => rw [targetProbs, length_cons, ih, length_cons]

theorem greedyToken_nonneg (probs : List α) : 0 ≤ greedyToken probs := Int.natCast_nonneg _

theorem toInt_nextToken : (nextToken model context).toInt = greedyToken (model.probs context) := by
  have hle : argmax (model.probs context) ≤ (model.probs context).length :=
    findIdx_le_length
  have hlt := model.length_lt context
  rw [nextToken, greedyToken, Int32.toInt_ofInt_of_le]
  · omega
  · omega

theorem nextToken_nonneg : ¬ nextToken model context < 0 := by
  rw [Int32.lt_iff_toInt_lt, toInt_nextToken]
  exact not_lt.mpr (greedyToken_nonneg _)

theorem nextToken_eq_iff :
    nextToken model context = draft ↔ greedyToken (model.probs context) = draft.toInt := by
  rw [← toInt_nextToken, Int32.toInt_inj]

theorem verify_eq_take : verify model context drafts =
    ((((targetProbs model context drafts).map greedyToken ++
        [greedyToken (model.probs (context ++ drafts))]).take
      (numAccepted (List.zipWith (fun t d => decide (t = d))
        ((targetProbs model context drafts).map greedyToken) (drafts.map Int32.toInt)) + 1))).map
      Int32.ofInt := by
  rw [verify, greedySample, outputTokens_maskOut]
  · simp only [length_append, length_map, length_zipWith, length_singleton,
      length_targetProbs, Nat.min_self]
  · intro id hid
    have hnonneg : 0 ≤ id := by
      rcases List.mem_append.mp hid with hid | hid
      · obtain ⟨probs, -, rfl⟩ := List.mem_map.mp hid
        exact greedyToken_nonneg probs
      · rw [List.mem_singleton.mp hid]
        exact greedyToken_nonneg _
    omega

theorem verify_nil : verify model context [] = [nextToken model context] := by
  rw [verify_eq_take, append_nil]
  rfl

theorem verify_cons : verify model context (draft :: drafts) =
    nextToken model context ::
      if nextToken model context = draft then verify model (context ++ [draft]) drafts else [] := by
  rw [verify_eq_take, targetProbs, map_cons, map_cons, zipWith_cons_cons]
  split
  · rename_i heq
    rw [decide_eq_true (nextToken_eq_iff.mp heq), verify_eq_take, append_assoc, numAccepted,
      findIdx_cons]
    rfl
  · rename_i hne
    rw [decide_eq_false fun h => hne (nextToken_eq_iff.mpr h)]
    rfl

theorem exists_verify (model : TargetModel α) (context drafts : List Token) :
    ∃ n, verify model context drafts = greedyStream model (n + 1) context := by
  induction drafts generalizing context with
  | nil => exact ⟨0, verify_nil⟩
  | cons draft drafts ih =>
      rw [verify_cons]
      by_cases heq : nextToken model context = draft
      · obtain ⟨n, hn⟩ := ih (context ++ [draft])
        refine ⟨n + 1, ?_⟩
        subst heq
        rw [if_pos rfl, hn]
        rfl
      · exact ⟨0, by rw [if_neg heq]; rfl⟩

@[simp] theorem length_greedyStream (n : Nat) (context : List Token) :
    (greedyStream model n context).length = n := by
  induction n generalizing context with
  | zero => rfl
  | succ n ih => rw [greedyStream, length_cons, ih]

theorem greedyStream_nonneg {n : Nat} : ∀ t ∈ greedyStream model n context, ¬ t < 0 := by
  induction n generalizing context with
  | zero => exact forall_mem_nil _
  | succ n ih => exact List.forall_mem_cons.mpr ⟨nextToken_nonneg, ih⟩

theorem verify_nonneg : ∀ t ∈ verify model context drafts, ¬ t < 0 := by
  obtain ⟨n, hn⟩ := exists_verify model context drafts
  rw [hn]
  exact greedyStream_nonneg

theorem verify_ne_nil : verify model context drafts ≠ [] := by
  obtain ⟨n, hn⟩ := exists_verify model context drafts
  rw [hn]
  exact cons_ne_nil _ _

theorem greedyStream_add (m n : Nat) (context : List Token) :
    greedyStream model (m + n) context =
      greedyStream model m context ++
        greedyStream model n (context ++ greedyStream model m context) := by
  induction m generalizing context with
  | zero => rw [Nat.zero_add, greedyStream, nil_append, append_nil]
  | succ m ih =>
      rw [Nat.succ_add_eq_add_succ, Nat.add_succ, greedyStream, ih, greedyStream,
        append_assoc, singleton_append, cons_append]

theorem eq_greedyStream_of_prefix {taken : List Token} {n : Nat}
    (h : taken <+: greedyStream model n context) :
    taken = greedyStream model taken.length context := by
  have hle := h.length_le
  rw [length_greedyStream] at hle
  obtain ⟨k, rfl⟩ := Nat.exists_eq_add_of_le hle
  rw [greedyStream_add] at h
  exact prefix_of_prefix_length_le h (prefix_append _ _) (by simp) |>.eq_of_length
    (by simp)

theorem append_verified {prompt generated taken drafts : List Token}
    (hgenerated : generated = greedyStream model generated.length prompt)
    (htaken : taken <+: verify model (prompt ++ generated) drafts) :
    generated ++ taken = greedyStream model (generated ++ taken).length prompt := by
  obtain ⟨n, hn⟩ := exists_verify model (prompt ++ generated) drafts
  rw [hn] at htaken
  rw [length_append, greedyStream_add, ← hgenerated, ← eq_greedyStream_of_prefix htaken]

end Verify

def rowIds (row : List RowToken) : List Token := row.map fun entry => entry.token.id

/-- What a validate step finds: the key-value state that the batch builder leaves, the draft
tokens, and the output row with its log probabilities. -/
structure ValidateStep where
  kvState : KVCacheState
  drafts : List Token
  row : List RowToken

/-- A sequence between two steps, and the tokens that each step has appended. -/
structure Decoded where
  sequence : OverlapState
  appended : List (List Token) := []

def Decoded.step (enableChunkedPrefill : Bool) (d : Decoded) (validate : ValidateStep) :
    Except Check Decoded := do
  let (finished, s) ← d.sequence.askFinished
  if finished then .ok { d with sequence := s }
  else do
    let scheduled := { s with seq := { s.seq with kvState := validate.kvState } }
    let t ← scheduled.processSampleOutput enableChunkedPrefill validate.row false
    .ok { sequence := t, appended := d.appended ++ [t.seq.tokens.drop s.seq.numTokens] }

/-- The row is what the target model makes of the tokens of the sequence and the draft
tokens, behind a step that has computed the prompt. -/
def Validated (d : Decoded) (validate : ValidateStep) : Prop :=
  rowIds validate.row = verify model d.sequence.seq.tokens validate.drafts ∧
    max d.sequence.seq.volatileNumPromptTokens d.sequence.seq.numPromptTokens ≤
      validate.kvState.kvCacheTokensNum

/-- A sequence without overlap that has generated some tokens. -/
structure Decoding (request : GenerationRequest) (generated : List Token)
    (seq : GeneratingSequence) : Prop where
  setup : request.Setup false seq
  buffer : ∃ rest, seq.tokenBuffer = (request.promptTokens ++ generated) ++ rest
  count : seq.numTokens = (request.promptTokens ++ generated).length
  cached : seq.FinishCached
  real : ∀ t ∈ generated, ¬ t < 0
  bound : generated.length ≤ request.effectiveMaxTokens.toNat
  volatile : seq.volatileNumPromptTokens ≤ seq.numTokens

section Plain

variable {request : GenerationRequest} {generated : List Token} {s : OverlapState}
variable {enableChunkedPrefill : Bool}
variable {seq : GeneratingSequence}

theorem Decoding.tokens (h : Decoding request generated seq) :
    seq.tokens = request.promptTokens ++ generated := by
  obtain ⟨rest, hbuffer⟩ := h.buffer
  rw [Sequence.tokens, hbuffer, h.count, take_left' rfl]

theorem Decoding.exists_last (h : Decoding request generated seq)
    (accepted : request.Accepted) (hlength : request.promptTokens.length < 2 ^ 61) :
    ∃ valid last, request.promptTokens ++ generated = valid ++ [last] ∧ ¬ last < 0 := by
  obtain ⟨-, valid, last, hprompt, hlast⟩ := StoppingChecker.check_prompt accepted
    request.effectiveMaxTokens_pos (Nat.le_of_lt (UInt32.toNat_lt _)) hlength
  rcases eq_nil_or_concat generated with rfl | ⟨before, t, rfl⟩
  · exact ⟨valid, last, by rw [append_nil, hprompt], hlast⟩
  · refine ⟨request.promptTokens ++ before, t, ?_, h.real t ?_⟩
    · rw [concat_eq_append, append_assoc]
    · rw [concat_eq_append]
      exact mem_append_right _ (mem_singleton_self _)

/-- `finished` returns, and a sequence that goes on may generate another token. -/
theorem Decoding.askFinished (h : Decoding request generated s.seq)
    (accepted : request.Accepted) (hlength : request.promptTokens.length < 2 ^ 61) :
    Yields s.askFinished (fun r =>
      (∃ reason, r.2 = { s with seq := s.seq.answered r.1 reason }) ∧
      Decoding request generated r.2.seq ∧
      (r.1 = false → generated.length < request.effectiveMaxTokens.toNat)) := by
  obtain ⟨valid, last, hvalid, hlast⟩ := h.exists_last accepted hlength
  obtain ⟨readable, -⟩ := StoppingChecker.check_prompt accepted request.effectiveMaxTokens_pos
    (Nat.le_of_lt (UInt32.toNat_lt _)) hlength
  rw [← h.setup.checker] at readable
  have htokens : s.seq.tokens = valid ++ last :: [] := by rw [h.tokens, hvalid]
  have hsum : request.promptTokens.length + generated.length = valid.length + 1 := by
    have hcount := congrArg List.length hvalid
    rwa [length_append, length_append] at hcount
  have hlimit : s.seq.stoppingChecker.maxGeneratedTokens = request.effectiveMaxTokens.toNat := by
    rw [h.setup.checker]
    rfl
  refine Ensures.bind (GeneratingSequence.isFinished_of_tokens htokens (forall_mem_nil _)
    hlast (by rw [h.setup.prompt]; omega) readable h.cached
    (by rw [hlimit]; exact request.effectiveMaxTokens_pos)) ?_
  rintro ⟨answer, seq⟩ ⟨⟨reason, hseq⟩, hcached, hgoes⟩
  obtain rfl : seq = s.seq.answered answer reason := hseq
  refine ⟨⟨reason, rfl⟩, ⟨⟨h.setup.checker, h.setup.overlapping, h.setup.capacity,
    h.setup.prompt, h.setup.logprobs, h.setup.topLogprobs, h.setup.unique⟩, h.buffer, h.count,
    hcached, h.real, h.bound, h.volatile⟩, fun hanswer => ?_⟩
  obtain ⟨-, hbound⟩ := hgoes hanswer
  rw [h.setup.prompt] at hbound
  omega

def Computed (seq : GeneratingSequence) : Prop :=
  max seq.volatileNumPromptTokens seq.numPromptTokens ≤ seq.kvState.kvCacheTokensNum

theorem Computed.stage_ne (h : Computed seq) :
    seq.stage ≠ .chunkedPrefill := by
  rw [Sequence.stage, if_neg (Nat.not_lt.mpr h)]
  decide

theorem Decoding.appendToken (h : Decoding request generated seq)
    {token : SampledToken} (real : ¬ token.id < 0) (hne : request.promptTokens ≠ [])
    (room : generated.length < request.effectiveMaxTokens.toNat)
    (unfinished : seq.finished = false) (computed : Computed seq) :
    ∃ after, seq.appendToken token = .ok after ∧
      Decoding request (generated ++ [token.id]) after ∧ Computed after := by
  obtain ⟨rest, hbuffer⟩ := h.buffer
  have hprompt := h.setup.prompt
  have hpos := List.length_pos_iff.mpr hne
  have hcomputed : 0 < seq.kvState.kvCacheTokensNum := by
    have hmax := Nat.le_trans (Nat.le_max_right _ _) computed
    omega
  have hroom : (request.promptTokens ++ generated).length < seq.tokenBuffer.length := by
    rw [h.setup.capacity]
    simp only [length_append, GenerationRequest.seqCapacity]
    omega
  obtain ⟨base, rest', happend, rfl, hlength⟩ := GeneratingSequence.appendToken_plain token
    hbuffer h.count hroom h.setup.overlapping unfinished hcomputed computed.stage_ne
  refine ⟨_, happend, ?_, ?_⟩
  · exact
      { setup := ⟨h.setup.checker, h.setup.overlapping, hlength.trans h.setup.capacity, hprompt,
          h.setup.logprobs, h.setup.topLogprobs, h.setup.unique⟩
        buffer := ⟨rest', by rw [← append_assoc]; rfl⟩
        count := by
          change (request.promptTokens ++ generated).length + 1 = _
          simp only [length_append, length_singleton, Nat.add_assoc]
        cached := OverlapState.finishCached_of_unfinished rfl unfinished
        real := by
          intro t ht
          rcases List.mem_append.mp ht with ht | ht
          · exact h.real t ht
          · rw [List.mem_singleton.mp ht]
            exact real
        bound := by
          rw [length_append]
          exact room
        volatile := Nat.le_succ_of_le (h.count ▸ h.volatile) }
  · change max seq.volatileNumPromptTokens seq.numPromptTokens ≤
      (request.promptTokens ++ generated).length
    rw [← h.count]
    refine Nat.max_le.mpr ⟨h.volatile, ?_⟩
    rw [h.count, hprompt, length_append]
    exact Nat.le_add_right _ _

theorem Decoding.processRow (accepted : request.Accepted)
    (hlength : request.promptTokens.length < 2 ^ 61) (hne : request.promptTokens ≠ [])
    {row : List RowToken} (hrow : ∀ entry ∈ row, ¬ entry.token.id < 0) {tokenIdx : Nat}
    (h : Decoding request generated s.seq)
    (room : generated.length < request.effectiveMaxTokens.toNat)
    (unfinished : s.seq.finished = false) (computed : Computed s.seq) :
    Yields (OverlapState.processRow enableChunkedPrefill false tokenIdx row s)
      (fun t => ∃ taken, taken <+: rowIds row ∧ (row ≠ [] → taken ≠ []) ∧
        Decoding request (generated ++ taken) t.seq) := by
  induction row generalizing generated s tokenIdx with
  | nil =>
      refine ⟨[], nil_prefix, fun hnil => absurd rfl hnil, ?_⟩
      rw [append_nil]
      exact h
  | cons entry row ih =>
      have hcancel : Decoding request generated (s.cancelIf entry.cancel).seq :=
        ⟨⟨h.setup.checker, h.setup.overlapping, h.setup.capacity, h.setup.prompt,
          h.setup.logprobs, h.setup.topLogprobs, h.setup.unique⟩, h.buffer, h.count,
          ⟨h.cached.fresh, h.cached.settled⟩, h.real, h.bound, h.volatile⟩
      obtain ⟨after, happend, hafter, hcomputed⟩ := hcancel.appendToken
        (hrow entry mem_cons_self) hne room unfinished computed
      refine Ensures.bind (Q := fun t => Decoding request (generated ++ [entry.token.id]) t.seq ∧
        Computed t.seq) ?_ ?_
      · rw [OverlapState.appendTokenForSequence, happend]
        cases enableChunkedPrefill with
        | true =>
            exact ⟨⟨⟨hafter.setup.checker, hafter.setup.overlapping, hafter.setup.capacity,
              hafter.setup.prompt, hafter.setup.logprobs, hafter.setup.topLogprobs,
              hafter.setup.unique⟩, hafter.buffer, hafter.count,
              ⟨hafter.cached.fresh, hafter.cached.settled⟩, hafter.real, hafter.bound,
              hafter.volatile⟩, hcomputed⟩
        | false => exact ⟨hafter, hcomputed⟩
      rintro t ⟨ht, htcomputed⟩
      refine Ensures.bind (ht.askFinished accepted hlength) ?_
      rintro ⟨answer, u⟩ ⟨⟨reason, hu⟩, hnext, hgoes⟩
      obtain rfl : u = { t with seq := t.seq.answered answer reason } := hu
      cases answer with
      | true =>
          exact ⟨[entry.token.id], ⟨rowIds row, rfl⟩, fun _ => cons_ne_nil _ _, hnext⟩
      | false =>
          refine (ih (fun e he => hrow e (mem_cons_of_mem _ he)) hnext (hgoes rfl) rfl
            htcomputed).mono_post ?_
          rintro v ⟨taken, hinitial, -, hv⟩
          refine ⟨entry.token.id :: taken, ?_, fun _ => cons_ne_nil _ _, ?_⟩
          · exact List.cons_prefix_cons.mpr ⟨rfl, hinitial⟩
          · rwa [append_assoc] at hv

theorem updateSequenceState_computed (computed : Computed s.seq) :
    s.updateSequenceState enableChunkedPrefill false = .ok (false, s) := by
  rw [OverlapState.updateSequenceState]
  cases enableChunkedPrefill with
  | true =>
      rw [if_pos rfl, if_neg fun h => computed.stage_ne h.2]
      rfl
  | false => rfl

theorem Decoding.processSampleOutput (h : Decoding request generated s.seq)
    (accepted : request.Accepted) (hlength : request.promptTokens.length < 2 ^ 61)
    (hne : request.promptTokens ≠ []) {row : List RowToken}
    (hrow : ∀ entry ∈ row, ¬ entry.token.id < 0)
    (room : generated.length < request.effectiveMaxTokens.toNat)
    (asked : s.seq.finishStatusInvalidated = false) (unfinished : s.seq.finished = false)
    (computed : Computed s.seq) : Yields (s.processSampleOutput enableChunkedPrefill row false)
      (fun t => ∃ taken, taken <+: rowIds row ∧ (row ≠ [] → taken ≠ []) ∧
        Decoding request (generated ++ taken) t.seq) := by
  have hagain : s.askFinished = .ok (false, s) := by
    rw [OverlapState.askFinished, GeneratingSequence.isFinished, if_pos asked, unfinished]
    rfl
  rw [OverlapState.processSampleOutput, hagain]
  change Ensures (do
    let (skipped, s) ← s.updateSequenceState enableChunkedPrefill false
    if skipped then .ok s else OverlapState.processRow enableChunkedPrefill false 0 row s) _ _
  rw [updateSequenceState_computed computed]
  exact h.processRow accepted hlength hne hrow room unfinished computed

structure DecodedInv (request : GenerationRequest) (d : Decoded) : Prop where
  decoding : Decoding request d.appended.flatten d.sequence.seq
  stream : d.appended.flatten = greedyStream model d.appended.flatten.length request.promptTokens
  pieces : ∀ piece ∈ d.appended, piece ≠ []

variable {model} {d : Decoded} {validate : ValidateStep}

/-- Step lemma without overlap. -/
theorem DecodedInv.step (h : DecodedInv model request d) (accepted : request.Accepted)
    (hlength : request.promptTokens.length < 2 ^ 61) (hne : request.promptTokens ≠ [])
    (hvalidated : Validated model d validate) :
    Yields (d.step enableChunkedPrefill validate) (DecodedInv model request) := by
  refine Ensures.bind (h.decoding.askFinished accepted hlength) ?_
  rintro ⟨answer, s⟩ ⟨⟨reason, hs⟩, hdecoding, hgoes⟩
  cases answer with
  | true => exact ⟨hdecoding, h.stream, h.pieces⟩
  | false =>
      obtain rfl : s = { d.sequence with seq := d.sequence.seq.answered false reason } := hs
      obtain ⟨hrow, hcomputed⟩ := hvalidated
      rw [h.decoding.tokens] at hrow
      have hreal : ∀ entry ∈ validate.row, ¬ entry.token.id < 0 := by
        intro entry hentry
        have hmem : entry.token.id ∈ rowIds validate.row := mem_map_of_mem hentry
        rw [hrow] at hmem
        exact verify_nonneg _ hmem
      have hrowNe : validate.row ≠ [] := by
        intro hnil
        rw [hnil] at hrow
        exact verify_ne_nil hrow.symm
      have hscheduled : Decoding request d.appended.flatten
          { d.sequence.seq.answered false reason with kvState := validate.kvState } :=
        ⟨⟨hdecoding.setup.checker, hdecoding.setup.overlapping, hdecoding.setup.capacity,
          hdecoding.setup.prompt, hdecoding.setup.logprobs, hdecoding.setup.topLogprobs,
          hdecoding.setup.unique⟩, hdecoding.buffer, hdecoding.count,
          ⟨hdecoding.cached.fresh, hdecoding.cached.settled⟩, hdecoding.real, hdecoding.bound,
          hdecoding.volatile⟩
      refine Ensures.bind (Decoding.processSampleOutput (s := { d.sequence with seq :=
          { d.sequence.seq.answered false reason with kvState := validate.kvState } })
        hscheduled accepted hlength hne hreal (hgoes rfl) rfl rfl hcomputed) ?_
      rintro t ⟨taken, hinitial, hsome, ht⟩
      have hpiece : t.seq.tokens.drop (d.sequence.seq.answered false reason).numTokens = taken := by
        rw [ht.tokens, hdecoding.count, ← append_assoc, drop_left' rfl]
      have hflatten : (d.appended ++ [t.seq.tokens.drop
          (d.sequence.seq.answered false reason).numTokens]).flatten =
          d.appended.flatten ++ taken := by
        rw [hpiece, flatten_append, flatten_singleton]
      refine ⟨?_, ?_, ?_⟩
      · change Decoding request (d.appended ++ [_]).flatten t.seq
        rw [hflatten]
        exact ht
      · change (d.appended ++ [_]).flatten = greedyStream model (d.appended ++ [_]).flatten.length _
        rw [hflatten]
        rw [hrow] at hinitial
        exact append_verified h.stream hinitial
      · intro piece hmem
        rcases List.mem_append.mp hmem with hmem | hmem
        · exact h.pieces piece hmem
        · rw [List.mem_singleton.mp hmem, hpiece]
          exact hsome hrowNe

theorem decodedInv_newSequence (created : request.newSequence false = .ok seq) :
    DecodedInv model request { sequence := { seq := seq } } := by
  obtain ⟨-, -, hsetup, hstream, hcached, -, -, -, -, hvolatile, -⟩ :=
    GenerationRequest.newSequence_eq_ok created
  have hcount : seq.numTokens = request.promptTokens.length := by simpa using hstream.count
  obtain ⟨rest, hbuffer⟩ := hstream.buffer
  exact
    { decoding :=
        { setup := hsetup
          buffer := ⟨rest, by simpa using hbuffer⟩
          count := by simpa using hcount
          cached := hcached
          real := forall_mem_nil _
          bound := Nat.zero_le _
          volatile := by
            rw [hvolatile, hsetup.prompt, hcount] }
      stream := rfl
      pieces := forall_mem_nil _ }

end Plain

section Overlap

variable {s : OverlapState} {enableChunkedPrefill : Bool} {row : List RowToken}

/-- A step leaves the real tokens alone, or adds some at their end. -/
def Receives (s : OverlapState) (taken : List SampledToken) (t : OverlapState) : Prop :=
  t.received = s.received ++ taken

theorem receives_nil {t : OverlapState} (hlog : t.log = s.log) : Receives s [] t := by
  rw [Receives, append_nil, OverlapState.received, OverlapState.received,
    OverlapState.calls, OverlapState.calls, hlog]

theorem Receives.trans {t u : OverlapState} {taken taken' : List SampledToken}
    (h : Receives s taken t) (h' : Receives t taken' u) : Receives s (taken ++ taken') u := by
  rw [Receives, h', h, append_assoc]

theorem receives_logged (s : OverlapState) (call : TokenCall) (seq : GeneratingSequence) :
    Receives s call.realToken.toList (s.logged call seq) := by
  rw [Receives, OverlapState.received, OverlapState.calls, OverlapState.logged,
    map_append, realTokens,
    filterMap_append]
  congr 1

theorem askFinished_kept (s : OverlapState) : IfOk s.askFinished (fun r =>
    r.2.log = s.log ∧ r.2.seq.kvState = s.seq.kvState ∧ r.2.seq.cancelled = s.seq.cancelled) := by
  have hkept : IfOk s.seq.isFinished (fun r =>
      r.2.kvState = s.seq.kvState ∧ r.2.cancelled = s.seq.cancelled) := by
    rw [GeneratingSequence.isFinished]
    split
    · exact ⟨rfl, rfl⟩
    · refine Ensures.bind ensures_any fun reason _ => ?_
      split
      · exact ⟨rfl, rfl⟩
      · exact ⟨rfl, rfl⟩
  refine hkept.bind ?_
  rintro ⟨answer, seq⟩ ⟨hkv, hcancelled⟩
  exact ⟨rfl, hkv, hcancelled⟩

/-- A sequence that takes no further tokens. -/
def Blocked (s : OverlapState) (tokenIdx : Nat) : Prop :=
  s.seq.cancelled = true ∨ (0 < tokenIdx ∧ s.seq.kvState.numKvBlocks = 0)

variable {tokenIdx : Nat}

theorem appendTokenForSequence_blocked (token : SampledToken) (h : Blocked s tokenIdx) :
    IfOk (s.appendTokenForSequence enableChunkedPrefill token tokenIdx true)
      (fun t => Receives s [] t ∧ Blocked t (tokenIdx + 1)) := by
  rw [OverlapState.appendTokenForSequence, if_neg (by decide)]
  split
  · rename_i hactive
    obtain ⟨hpos, hblocks⟩ := h.resolve_left (by rw [hactive]; decide)
    rw [GeneratingSequence.updateLastStepToken]
    split
    · rw [if_pos ⟨hpos, hblocks⟩, ok_bind, if_neg fun hpop => hpos.ne' hpop.2]
      refine ⟨?_, .inr ⟨Nat.succ_pos _, hblocks⟩⟩
      have hnone : (TokenCall.update token tokenIdx s.seq.kvState.numKvBlocks).realToken =
          none := if_pos ⟨hpos, hblocks⟩
      have hreceives := receives_logged s
        (.update token tokenIdx s.seq.kvState.numKvBlocks) s.seq
      rwa [hnone] at hreceives
    · exact trivial
  · rename_i hcancelled
    exact ⟨receives_nil rfl, .inl (by simpa using hcancelled)⟩

theorem appendTokenForSequence_open (token : SampledToken) (h : ¬ Blocked s tokenIdx) :
    IfOk (s.appendTokenForSequence enableChunkedPrefill token tokenIdx true)
      (fun t => Receives s [token] t) := by
  rw [Blocked, not_or, Bool.not_eq_true] at h
  obtain ⟨hactive, hopen⟩ := h
  have hsome : (TokenCall.update token tokenIdx s.seq.kvState.numKvBlocks).realToken =
      some token := if_neg hopen
  rw [OverlapState.appendTokenForSequence, if_pos hactive]
  refine ensures_any.bind ?_
  intro seq _
  have hreceives := receives_logged s (.update token tokenIdx s.seq.kvState.numKvBlocks) seq
  rw [hsome] at hreceives
  split
  · rw [OverlapState.popStage]
    split
    · exact trivial
    · exact hreceives
  · exact hreceives

theorem blocked_of_kept {t u : OverlapState} (h : Blocked t tokenIdx)
    (hkv : u.seq.kvState = t.seq.kvState) (hcancelled : u.seq.cancelled = t.seq.cancelled) :
    Blocked u tokenIdx := by
  rw [Blocked, hkv, hcancelled]
  exact h

theorem blocked_cancelIf (h : Blocked s tokenIdx) (cancel : Bool) :
    Blocked (s.cancelIf cancel) tokenIdx := by
  refine h.imp_left fun hcancelled => ?_
  change (s.seq.cancelled || cancel) = true
  rw [hcancelled]
  rfl

/-- A row for a blocked sequence gives it nothing. -/
theorem processRow_blocked (h : Blocked s tokenIdx) :
    IfOk (OverlapState.processRow enableChunkedPrefill true tokenIdx row s) (Receives s []) := by
  induction row generalizing s tokenIdx with
  | nil => exact receives_nil rfl
  | cons entry row ih =>
      refine (appendTokenForSequence_blocked entry.token (blocked_cancelIf h entry.cancel)).bind ?_
      rintro t ⟨ht, htblocked⟩
      refine (askFinished_kept t).bind ?_
      rintro ⟨answer, u⟩ ⟨hlog, hkv, hcancelled⟩
      have hu : Receives s [] u := ht.trans (receives_nil hlog)
      cases answer with
      | true => exact hu
      | false =>
          exact (ih (blocked_of_kept htblocked hkv hcancelled)).mono_post fun _ hv => hu.trans hv

/-- A row adds some of its first tokens, and its first one unless that is dropped. -/
theorem processRow_receives :
    IfOk (OverlapState.processRow enableChunkedPrefill true tokenIdx row s)
      (fun t => ∃ taken, taken <+: row.map RowToken.token ∧ Receives s taken t ∧
        ∀ entry ∈ row.head?, ¬ Blocked (s.cancelIf entry.cancel) tokenIdx → taken ≠ []) := by
  induction row generalizing s tokenIdx with
  | nil => exact ⟨[], nil_prefix, receives_nil rfl, fun _ hentry => by cases hentry⟩
  | cons entry row ih =>
      by_cases hblocked : Blocked (s.cancelIf entry.cancel) tokenIdx
      · rw [OverlapState.processRow]
        refine (appendTokenForSequence_blocked entry.token hblocked).bind ?_
        rintro t ⟨ht, htblocked⟩
        refine (askFinished_kept t).bind ?_
        rintro ⟨answer, u⟩ ⟨hlog, hkv, hcancelled⟩
        have hu : Receives s [] u := ht.trans (receives_nil hlog)
        have hfirst : ∀ e ∈ (entry :: row).head?, ¬ Blocked (s.cancelIf e.cancel) tokenIdx →
            ([] : List SampledToken) ≠ [] := by
          intro e he hopen
          obtain rfl := Option.some.inj he
          exact absurd hblocked hopen
        cases answer with
        | true => exact ⟨[], nil_prefix, hu, hfirst⟩
        | false =>
            exact (processRow_blocked (blocked_of_kept htblocked hkv hcancelled)).mono_post
              fun _ hv => ⟨[], nil_prefix, hu.trans hv, hfirst⟩
      · rw [OverlapState.processRow]
        refine (appendTokenForSequence_open entry.token hblocked).bind ?_
        intro t ht
        refine (askFinished_kept t).bind ?_
        rintro ⟨answer, u⟩ ⟨hlog, hkv, hcancelled⟩
        have hu : Receives s [entry.token] u := ht.trans (receives_nil hlog)
        cases answer with
        | true =>
            exact ⟨[entry.token], ⟨row.map RowToken.token, rfl⟩, hu,
              fun _ _ _ => cons_ne_nil _ _⟩
        | false =>
            refine ih.mono_post ?_
            rintro v ⟨taken, hinitial, hv, -⟩
            exact ⟨entry.token :: taken, List.cons_prefix_cons.mpr ⟨rfl, hinitial⟩,
              hu.trans hv, fun _ _ _ => cons_ne_nil _ _⟩

theorem processRow_fake :
    IfOk (OverlapState.processRow enableChunkedPrefill false tokenIdx row s) (Receives s []) := by
  induction row generalizing s tokenIdx with
  | nil => exact receives_nil rfl
  | cons entry row ih =>
      refine Ensures.bind (Q := Receives s []) ?_ ?_
      · rw [OverlapState.appendTokenForSequence]
        refine ensures_any.bind ?_
        intro seq _
        have hreceives := receives_logged (s.cancelIf entry.cancel) (.append entry.token) seq
        cases enableChunkedPrefill with
        | true => exact hreceives
        | false => exact hreceives
      intro t ht
      refine (askFinished_kept t).bind ?_
      rintro ⟨answer, u⟩ ⟨hlog, -, -⟩
      have hu : Receives s [] u := ht.trans (receives_nil hlog)
      cases answer with
      | true => exact hu
      | false => exact ih.mono_post fun _ hv => hu.trans hv

theorem updateSequenceState_kept (replaceFakeToken : Bool) :
    IfOk (s.updateSequenceState enableChunkedPrefill replaceFakeToken)
      (fun r => r.2.log = s.log) := by
  rw [OverlapState.updateSequenceState]
  split
  · split
    · exact rfl
    · split
      · split
        · exact trivial
        · exact rfl
        · exact rfl
      · exact rfl
  · exact rfl

theorem processSampleOutput_of_processRow {Q : OverlapState → Prop} {replaceFakeToken : Bool}
    (stops : ∀ t, t.log = s.log → Q t)
    (goes : ∀ t, t.log = s.log →
      IfOk (OverlapState.processRow enableChunkedPrefill replaceFakeToken 0 row t)
        Q) : IfOk (s.processSampleOutput enableChunkedPrefill row replaceFakeToken) Q := by
  refine (askFinished_kept s).bind ?_
  rintro ⟨finished, t⟩ ⟨hlog, -, -⟩
  cases finished with
  | true => exact stops t hlog
  | false =>
      refine (updateSequenceState_kept replaceFakeToken).bind ?_
      rintro ⟨skipped, u⟩ hu
      cases skipped with
      | true => exact stops u (hu.trans hlog)
      | false => exact goes u (hu.trans hlog)

theorem engineStep_receives (s : OverlapState) (enableChunkedPrefill : Bool)
    (fake : Option SampledToken) :
    IfOk (s.engineStep enableChunkedPrefill fake) (Receives s []) := by
  cases fake with
  | none => exact receives_nil rfl
  | some token =>
      exact processSampleOutput_of_processRow (fun u hu => receives_nil hu)
        fun u hu => processRow_fake.mono_post fun v hv => (receives_nil hu).trans hv

variable {model} {request : GenerationRequest} {round : OverlapRound}

/-- The row of a round is what the target model makes of the received tokens and some draft
tokens, and the new step returns a fake token. -/
structure VerifiedRound (model : TargetModel α) (request : GenerationRequest) (s : OverlapState)
    (round : OverlapRound) : Prop where
  fake : ∀ token, round.fake = some token → token.id < 0
  row : ∃ drafts, rowIds round.row =
    verify model (request.promptTokens ++ tokenIds s.received) drafts

theorem VerifiedRound.wellFormed (h : VerifiedRound model request s round) :
    round.WellFormed := by
  obtain ⟨drafts, hrow⟩ := h.row
  refine ⟨h.fake, ?_, ?_⟩
  · intro hnil
    rw [hnil] at hrow
    exact verify_ne_nil hrow.symm
  · intro entry hentry
    have hmem : entry.token.id ∈ rowIds round.row := mem_map_of_mem hentry
    rw [hrow] at hmem
    exact verify_nonneg _ hmem

/-- The received tokens are an initial piece of the stream. -/
def OnGreedyStream (model : TargetModel α) (request : GenerationRequest) (s : OverlapState) :
    Prop :=
  tokenIds s.received = greedyStream model s.received.length request.promptTokens

theorem onGreedyStream_of_receives {t : OverlapState} {taken : List SampledToken}
    (drafts : List Token) (h : OnGreedyStream model request s) (ht : Receives s taken t)
    (htaken : tokenIds taken <+: verify model
      (request.promptTokens ++ tokenIds s.received) drafts) :
    OnGreedyStream model request t := by
  have hids : tokenIds t.received = tokenIds s.received ++ tokenIds taken := by
    rw [ht, tokenIds, map_append]
    rfl
  have hlength : t.received.length = (tokenIds s.received ++ tokenIds taken).length := by
    rw [← hids, tokenIds, length_map]
  have hstream : tokenIds s.received =
      greedyStream model (tokenIds s.received).length request.promptTokens := by
    rw [tokenIds, length_map]
    exact h
  rw [OnGreedyStream, hlength, hids]
  exact append_verified hstream htaken

/-- Step lemma with overlap: what is taken stays on the greedy stream. -/
theorem OnGreedyStream.step (h : OnGreedyStream model request s)
    (hround : VerifiedRound model request s round) :
    IfOk (s.step enableChunkedPrefill round) (OnGreedyStream model request) := by
  obtain ⟨drafts, hrow⟩ := hround.row
  refine (askFinished_kept (s.prepareBatch round)).bind ?_
  rintro ⟨finished, t⟩ ⟨hlog, -, -⟩
  have ht : Receives s [] t := receives_nil hlog
  refine (engineStep_receives t enableChunkedPrefill _).bind ?_
  intro u htu
  have hu : Receives s [] u := ht.trans htu
  refine Ensures.bind (Q := OnGreedyStream model request) ?_ fun v hv => hv
  rw [OverlapState.updateLastStepResult]
  split
  · refine processSampleOutput_of_processRow ?_ ?_
    · intro v hv
      exact onGreedyStream_of_receives drafts h (hu.trans (receives_nil hv)) nil_prefix
    · intro v hv
      refine processRow_receives.mono_post ?_
      rintro w ⟨taken, hinitial, hw, -⟩
      refine onGreedyStream_of_receives drafts h ((hu.trans (receives_nil hv)).trans hw) ?_
      rw [← hrow]
      have hmap := hinitial.map SampledToken.id
      rwa [map_map] at hmap
  · exact onGreedyStream_of_receives drafts h hu nil_prefix

end Overlap

/-- The tokens of a sequence without overlap. -/
structure EmitsStream (model : TargetModel α) (request : GenerationRequest) (d : Decoded) :
    Prop where
  tokens : d.sequence.seq.tokens = request.promptTokens ++ d.appended.flatten
  stream : d.appended.flatten = greedyStream model d.appended.flatten.length request.promptTokens
  pieces : ∀ piece ∈ d.appended, piece ≠ [] ∧ ∀ t ∈ piece, ¬ t < 0

theorem DecodedInv.emitsStream {request : GenerationRequest} {d : Decoded}
    (h : DecodedInv model request d) : EmitsStream model request d where
  tokens := h.decoding.tokens
  stream := h.stream
  pieces piece hpiece := ⟨h.pieces piece hpiece, fun t ht =>
    h.decoding.real t (List.mem_flatten.mpr ⟨piece, hpiece, ht⟩)⟩

/-- Greedy speculative decoding emits the stream of greedy decoding, whatever the draft
tokens are. Without overlap every step of an unfinished sequence appends a piece of it. With
overlap the received tokens are an initial piece, and a row that is read adds a token unless
the request is cancelled; the only aborts are the checks on the key-value state. -/
theorem run_emits_greedy_stream (model : TargetModel α) (request : GenerationRequest)
    (accepted : request.Accepted) (enableChunkedPrefill : Bool) :
    (∀ seq, request.newSequence false = .ok seq → ∀ validates,
      Along (Decoded.step enableChunkedPrefill) (Validated model)
        { sequence := { seq := seq } } validates →
      Ensures (run (Decoded.step enableChunkedPrefill) { sequence := { seq := seq } } validates)
        (fun _ => False) (EmitsStream model request)) ∧
    (∀ seq, request.newSequence true = .ok seq → ∀ rounds,
      Along (OverlapState.step enableChunkedPrefill) (VerifiedRound model request)
        { seq := seq } rounds →
      Ensures (run (OverlapState.step enableChunkedPrefill) { seq := seq } rounds)
        (fun e => e = .appendToken ∨ e = .kvTokensOverCapacity) (OnGreedyStream model request)) ∧
    ∀ (s : OverlapState) (entry : RowToken) (row : List RowToken),
      s.seq.cancelled = false → entry.cancel = false →
      Ensures (OverlapState.processRow enableChunkedPrefill true 0 (entry :: row) s)
        (fun _ => True) (fun t => s.received.length < t.received.length) := by
  refine ⟨?_, ?_, ?_⟩
  · intro seq created validates halong
    obtain ⟨hne, hlength, -⟩ := GenerationRequest.newSequence_eq_ok created
    exact (halong.ensures_run
      (fun d validate hd hvalidated => hd.step accepted hlength hne hvalidated)
      (decodedInv_newSequence created)).mono_post fun d hd => hd.emitsStream
  · intro seq created rounds halong
    obtain ⟨-, hlength, -⟩ := GenerationRequest.newSequence_eq_ok created
    have hsteady := halong.ensures_run
      (fun s round hs hround => OverlapState.step_ensures accepted hlength hround.wellFormed hs)
      (OverlapState.steady_newSequence enableChunkedPrefill created)
    have hstream := halong.ensures_run (E := fun _ => True)
      (fun s round hs hround => OnGreedyStream.step hs hround)
      (show OnGreedyStream model request { seq := seq } from rfl)
    exact (hsteady.and hstream).mono (fun e he => he.1) fun s hs => hs.2
  · intro s entry row hactive hentry
    refine processRow_receives.mono_post ?_
    rintro t ⟨taken, -, ht, hfirst⟩
    have htaken := hfirst entry rfl (by
      rintro (hcancelled | ⟨hpos, -⟩)
      · change (s.seq.cancelled || entry.cancel) = true at hcancelled
        rw [hactive, hentry] at hcancelled
        cases hcancelled
      · exact Nat.lt_irrefl 0 hpos)
    rw [ht, length_append]
    have hpos := List.length_pos_iff.mpr htaken
    omega

def countingModel : TargetModel Nat where
  probs context := (List.range 8).map fun i => if i = context.length % 8 then 1 else 0
  length_lt _ := by
    rw [length_map, length_range]
    decide

instance (d : Decoded) (validate : ValidateStep) :
    Decidable (Validated countingModel d validate) :=
  inferInstanceAs (Decidable (_ ∧ _))

/-- A request for four tokens with two speculative tokens. -/
def countingRequest : GenerationRequest :=
  { promptTokens := [7], maxTokens := 4, numSpeculativeTokens := 2 }

/-- The second draft token of the first step is wrong, and the last step has one token more
than the request asks for. -/
def countingSteps : List ValidateStep :=
  [⟨OverlapState.oneBlock 1, [1, 5], [{ token := { id := 1 } }, { token := { id := 2 } }]⟩,
    ⟨OverlapState.oneBlock 3, [3, 4], [{ token := { id := 3 } }, { token := { id := 4 } },
      { token := { id := 5 } }]⟩]

theorem run_emits_greedy_stream_counting :
    ∃ seq, countingRequest.newSequence false = .ok seq ∧
      Ensures (run (Decoded.step false) { sequence := { seq := seq } } countingSteps)
        (fun _ => False) (EmitsStream countingModel countingRequest) ∧
      Ensures (run (Decoded.step false) { sequence := { seq := seq } } countingSteps)
        (fun _ => False) (fun d => d.appended = [[1, 2], [3, 4]]) :=
  ⟨_, rfl, (run_emits_greedy_stream countingModel countingRequest (by decide) false).1 _ rfl _
    (by decide), by decide⟩

end Xllm.Sampling
