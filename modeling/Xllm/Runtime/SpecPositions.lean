import Xllm.Batch.ScheduleOverlap
import Xllm.Runtime.SpecInputBuilder

/-!
# Positions of the next draft step

The rows of validated tokens are read twice. The worker puts the last token of each row into
the input of the step that has been prepared, at the position where it stands, and the batch
replaces the fake token of the sequence by the tokens of the row. Both count the same tokens:
the position in the input is the one of the last real token of the sequence.

A batch takes the tokens of a row one by one and stops where the sequence is finished. It
takes none for a cancelled request and only one for a sequence without blocks.
-/

namespace Xllm

open Contract SpecBuilder List Option

/-- The ids of a row up to the first -1, as the workers send them. -/
def rawTokens (row : List Int) : List RowToken :=
  (row.takeWhile (· ≠ -1)).map fun id => { token := { id := Int32.ofInt id } }

theorem rawTokens_accepted {width : Nat} {ids row : List Int} (h : Accepted width ids row) :
    rawTokens row = ids.map fun id => { token := { id := Int32.ofInt id } } := by
  have hids : ∀ id ∈ ids, decide (id ≠ -1) = true := by
    intro id hid
    have hnonneg := (h.token id hid).1
    exact decide_eq_true (by omega)
  rw [rawTokens, h.row_eq, takeWhile_append_of_pos hids]
  have hfillers : (List.replicate (width - ids.length) (-1 : Int)).takeWhile (· ≠ -1) = [] := by
    cases width - ids.length with
    | zero => rfl
    | succ m => rw [replicate_succ, takeWhile_cons_of_neg (by simp)]
  rw [hfillers, append_nil]

namespace GeneratingSequence

variable {seq : GeneratingSequence} {token : SampledToken}

theorem updateLastStepToken_kvState {offset : Nat} (further : 0 < offset)
    (blocks : seq.kvState.numKvBlocks ≠ 0)
    (capacity : seq.kvState.kvCacheTokensNum + 1 ≤ seq.kvState.currentMaxTokensCapacity) :
    Ensures (seq.updateLastStepToken token offset) (fun e => e ≠ .kvTokensOverCapacity)
      (fun after => after.kvState =
        seq.kvState.setKvCacheTokensNum (seq.kvState.kvCacheTokensNum + 1)) := by
  have hread : ∀ (buffer : List Token) (i : Nat),
      Ensures (readToken buffer i) (fun e => e ≠ .kvTokensOverCapacity) (fun _ => True) := by
    intro buffer i
    unfold readToken
    split <;> simp
  have hwrite : ∀ (buffer : List Token) (i : Nat) (t : Token),
      Ensures (writeToken buffer i t) (fun e => e ≠ .kvTokensOverCapacity) (fun _ => True) := by
    intro buffer i t
    unfold writeToken
    split <;> simp
  have hshift : ∀ (buffer : List Token) (i : Nat),
      Ensures (shiftFakes buffer i) (fun e => e ≠ .kvTokensOverCapacity) (fun _ => True) :=
    fun buffer i => (hread _ _).bind fun _ _ => (hwrite _ _ _).bind fun _ _ =>
      (hread _ _).bind fun _ _ => hwrite _ _ _
  unfold updateLastStepToken
  split
  case isFalse => simp
  case isTrue =>
    rw [if_neg fun hdrop => blocks hdrop.2, KVCacheState.incrKvCacheTokensNum,
      if_pos capacity]
    refine Ensures.bind (Q := fun kvState => kvState = seq.kvState.setKvCacheTokensNum
      (seq.kvState.kvCacheTokensNum + 1)) rfl ?_
    intro kvState hkvState
    exact (hshift _ _).bind fun _ _ => (hwrite _ _ _).bind fun _ _ => hkvState

theorem isFinished_of_check {reason : FinishReason}
    (invalidated : seq.finishStatusInvalidated = true)
    (hcheck : seq.stoppingChecker.check seq.tokens seq.numPromptTokens = .ok reason) :
    seq.isFinished =
      if reason = .none then .ok (false, { seq with finishStatusInvalidated := false })
      else .ok (true, { seq with
        finishStatusInvalidated := false, finishReason := reason, finished := true }) := by
  rw [isFinished, if_neg (by simp [invalidated]), hcheck]
  rfl

end GeneratingSequence

namespace OverlapState

variable {enableChunkedPrefill : Bool} {s : OverlapState} {valid fakes ids : List Token}

def entry (id : Token) : RowToken := { token := { id := id } }

@[simp] theorem cancelIf_false (s : OverlapState) : s.cancelIf false = s := by
  unfold cancelIf
  rw [Bool.or_false]

theorem processRow_step {id : Token} {tokenIdx : Nat} {row : List RowToken} {s' : OverlapState}
    {reason : FinishReason}
    (happend : s.appendTokenForSequence enableChunkedPrefill { id := id } tokenIdx true = .ok s')
    (invalidated : s'.seq.finishStatusInvalidated = true)
    (hcheck : s'.seq.stoppingChecker.check s'.seq.tokens s'.seq.numPromptTokens = .ok reason) :
    processRow enableChunkedPrefill true tokenIdx (entry id :: row) s =
      if reason = .none then processRow enableChunkedPrefill true (tokenIdx + 1) row
        { s' with seq := { s'.seq with finishStatusInvalidated := false } }
      else .ok { s' with seq := { s'.seq with
        finishStatusInvalidated := false, finishReason := reason, finished := true } } := by
  have hentry : (s.cancelIf (entry id).cancel).appendTokenForSequence enableChunkedPrefill
      (entry id).token tokenIdx true = .ok s' := by
    rw [entry, cancelIf_false]
    exact happend
  rw [processRow, hentry, ok_bind, askFinished,
    GeneratingSequence.isFinished_of_check invalidated hcheck]
  split <;> rfl

/-- What a sequence needs for taking all of some ids. -/
structure Taking (s : OverlapState) (valid fakes ids : List Token) : Prop where
  stream : s.seq.Stream valid fakes
  overlap : s.seq.enableScheduleOverlap = true
  active : s.seq.cancelled = false
  few : fakes.length ≤ 2
  blocks : ids ≠ [] → s.seq.kvState.numKvBlocks ≠ 0
  room : ids ≠ [] → valid.length + ids.length + 2 ≤ s.seq.tokenBuffer.length
  capacity : ids ≠ [] →
    s.seq.kvState.kvCacheTokensNum + ids.length ≤ s.seq.kvState.currentMaxTokensCapacity
  goesOn : ∀ j, 0 < j → j < ids.length →
    s.seq.stoppingChecker.check (valid ++ ids.take j ++ fakes) s.seq.numPromptTokens = .ok .none
  ends : ids ≠ [] → ∃ reason,
    s.seq.stoppingChecker.check (valid ++ ids ++ fakes) s.seq.numPromptTokens = .ok reason

theorem Taking.update {id : Token} {offset : Nat} (h : Taking s valid fakes (id :: ids))
    (further : 0 < offset) :
    ∃ after, s.seq.updateLastStepToken { id := id } offset = .ok after ∧
      GeneratingSequence.Received s.seq after valid fakes { id := id } ∧
      after.kvState = s.seq.kvState.setKvCacheTokensNum (s.seq.kvState.kvCacheTokensNum + 1) := by
  have hblocks := h.blocks (cons_ne_nil _ _)
  have hroom := h.room (cons_ne_nil _ _)
  have hcapacity := h.capacity (cons_ne_nil _ _)
  rw [length_cons] at hroom hcapacity
  have hreceived : Ensures (s.seq.updateLastStepToken { id := id } offset) _ _ :=
    GeneratingSequence.updateLastStepToken_further h.stream h.overlap further h.few (by omega)
  have hkvState : Ensures (s.seq.updateLastStepToken { id := id } offset) _ _ :=
    GeneratingSequence.updateLastStepToken_kvState further hblocks (by omega)
  cases hupdate : s.seq.updateLastStepToken { id := id } offset with
  | error e =>
      rw [hupdate] at hreceived hkvState
      exact absurd hreceived hkvState
  | ok after =>
      rw [hupdate] at hreceived hkvState
      refine ⟨after, rfl, ?_, hkvState⟩
      simpa only [ensures_ok, if_neg hblocks] using hreceived

theorem processRow_taken {id : Token} {offset : Nat}
    (happend : s.appendTokenForSequence enableChunkedPrefill { id := id } offset true = .ok s')
    (invalidated : s'.seq.finishStatusInvalidated = true)
    (hstream : s'.seq.Stream (valid ++ [id]) fakes)
    (goesOn : ∀ j, 0 < j → j < (id :: ids).length → s'.seq.stoppingChecker.check
      (valid ++ (id :: ids).take j ++ fakes) s'.seq.numPromptTokens = .ok .none)
    (ends : ∃ reason, s'.seq.stoppingChecker.check (valid ++ id :: ids ++ fakes)
      s'.seq.numPromptTokens = .ok reason)
    (rest : ids ≠ [] → ∀ s₁, s₁.seq = { s'.seq with finishStatusInvalidated := false } →
      s₁.seq.Stream (valid ++ [id]) fakes →
      (∀ j, 0 < j → j < ids.length → s₁.seq.stoppingChecker.check
        (valid ++ [id] ++ ids.take j ++ fakes) s₁.seq.numPromptTokens = .ok .none) →
      (∃ reason, s₁.seq.stoppingChecker.check (valid ++ [id] ++ ids ++ fakes)
        s₁.seq.numPromptTokens = .ok reason) →
      ∃ after, processRow enableChunkedPrefill true (offset + 1) (ids.map entry) s₁ = .ok after ∧
        after.seq.Stream (valid ++ [id] ++ ids) fakes) :
    ∃ after, processRow enableChunkedPrefill true offset ((id :: ids).map entry) s = .ok after ∧
      after.seq.Stream (valid ++ id :: ids) fakes := by
  -- the check that the batch makes behind the token
  obtain ⟨reason, hreason, hnone⟩ : ∃ reason, s'.seq.stoppingChecker.check
      (valid ++ [id] ++ fakes) s'.seq.numPromptTokens = .ok reason ∧
      (ids ≠ [] → reason = .none) := by
    cases ids with
    | nil =>
        obtain ⟨reason, hreason⟩ := ends
        exact ⟨reason, hreason, fun hne => absurd rfl hne⟩
    | cons next ids => exact ⟨.none, goesOn 1 Nat.one_pos (by simp), fun _ => rfl⟩
  rw [← hstream.tokens] at hreason
  rw [map_cons, processRow_step happend invalidated hreason]
  by_cases hids : ids = []
  case pos =>
    subst hids
    split
    · exact ⟨_, rfl, hstream.buffer, hstream.cursor, hstream.count, hstream.negative⟩
    · exact ⟨_, rfl, hstream.buffer, hstream.cursor, hstream.count, hstream.negative⟩
  case neg =>
    rw [if_pos (hnone hids), append_cons]
    rw [append_cons] at ends
    refine rest hids _ rfl ⟨hstream.buffer, hstream.cursor, hstream.count, hstream.negative⟩
      (fun j hj hlt => ?_) ends
    have hmove : valid ++ [id] ++ ids.take j = valid ++ (id :: ids).take (j + 1) := by
      simp only [take_succ_cons, append_assoc, singleton_append]
    rw [hmove]
    exact goesOn (j + 1) (Nat.succ_pos j) (Nat.succ_lt_succ hlt)

/-- The accepted tokens of a row are taken one after the other. -/
theorem Taking.run {offset : Nat} (h : Taking s valid fakes ids) (further : 0 < offset) :
    ∃ after, processRow enableChunkedPrefill true offset (ids.map entry) s = .ok after ∧
      after.seq.Stream (valid ++ ids) fakes := by
  induction ids generalizing s valid offset with
  | nil =>
      refine ⟨s, rfl, ?_⟩
      rw [append_nil]
      exact h.stream
  | cons id ids ih =>
      obtain ⟨after, hupdate, hreceived, hkvState⟩ := h.update further
      have happend : s.appendTokenForSequence enableChunkedPrefill { id := id } offset true =
          .ok (s.logged (.update { id := id } offset s.seq.kvState.numKvBlocks) after) := by
        rw [appendTokenForSequence, if_neg (by decide), if_pos h.active, hupdate]
        exact if_neg fun hpop => further.ne' hpop.2
      have hchecker : after.stoppingChecker = s.seq.stoppingChecker := hreceived.setup.checker
      have hprompt : after.numPromptTokens = s.seq.numPromptTokens := hreceived.setup.prompt
      refine processRow_taken happend hreceived.invalidated hreceived.stream ?_ ?_ ?_
      · change ∀ j, 0 < j → _ → after.stoppingChecker.check _ after.numPromptTokens = _
        rw [hchecker, hprompt]
        exact h.goesOn
      · change ∃ reason, after.stoppingChecker.check _ after.numPromptTokens = _
        rw [hchecker, hprompt]
        exact h.ends (cons_ne_nil _ _)
      · intro hids s₁ hs₁ hstream goesOn ends
        have hroom := h.room (cons_ne_nil _ _)
        have hcapacity := h.capacity (cons_ne_nil _ _)
        rw [length_cons] at hroom hcapacity
        have hkv : s₁.seq.kvState =
            s.seq.kvState.setKvCacheTokensNum (s.seq.kvState.kvCacheTokensNum + 1) := by
          rw [hs₁]
          exact hkvState
        refine ih ?_ (Nat.succ_pos offset)
        refine ⟨hstream, ?_, ?_, h.few, fun _ => ?_, fun _ => ?_, fun _ => ?_, goesOn,
          fun _ => ends⟩
        · rw [hs₁]
          exact hreceived.setup.overlap.trans h.overlap
        · rw [hs₁]
          exact hreceived.flags.cancelled.trans h.active
        · rw [hkv]
          exact h.blocks (cons_ne_nil _ _)
        · rw [hs₁]
          change (valid ++ [id]).length + ids.length + 2 ≤ after.tokenBuffer.length
          rw [hreceived.setup.capacity, length_append, length_singleton]
          omega
        · rw [hkv]
          change s.seq.kvState.kvCacheTokensNum + 1 + ids.length ≤
            s.seq.kvState.currentMaxTokensCapacity
          omega

/-- What a sequence needs for taking the whole row of a step, the fake token of which is
`fake`. -/
structure Takes (enableChunkedPrefill : Bool) (s : OverlapState) (valid : List Token) (fake : Token)
    (fakes ids : List Token) : Prop where
  stream : s.seq.Stream valid (fake :: fakes)
  overlap : s.seq.enableScheduleOverlap = true
  active : s.seq.cancelled = false
  few : fakes.length ≤ 2
  blocks : 1 < ids.length → s.seq.kvState.numKvBlocks ≠ 0
  room : 1 < ids.length → valid.length + ids.length + 2 ≤ s.seq.tokenBuffer.length
  capacity : 1 < ids.length →
    s.seq.kvState.kvCacheTokensNum + ids.length ≤ s.seq.kvState.currentMaxTokensCapacity + 1
  running : if s.seq.finishStatusInvalidated = false then s.seq.finished = false
    else s.seq.stoppingChecker.check s.seq.tokens s.seq.numPromptTokens = .ok .none
  /-- and the step of the row was no prefill that samples nothing. -/
  sampled : enableChunkedPrefill = true → s.seq.preScheduledStepPrefillQueue.head? = some false
  goesOn : ∀ j, 0 < j → j < ids.length →
    s.seq.stoppingChecker.check (valid ++ ids.take j ++ fakes) s.seq.numPromptTokens = .ok .none
  ends : ∃ reason,
    s.seq.stoppingChecker.check (valid ++ ids ++ fakes) s.seq.numPromptTokens = .ok reason

variable {fake : Token}

theorem Takes.askFinished (h : Takes enableChunkedPrefill s valid fake fakes ids) :
    s.askFinished = .ok (false,
      { s with seq := { s.seq with finishStatusInvalidated := false } }) := by
  have hrunning := h.running
  rw [OverlapState.askFinished, GeneratingSequence.isFinished]
  split at hrunning
  case isTrue hvalid =>
    rw [if_pos hvalid, ok_bind, hrunning, ← hvalid]
  case isFalse hinvalid =>
    rw [if_neg hinvalid, hrunning]
    rfl

theorem update_first (id : Token) (hstream : s.seq.Stream valid (fake :: fakes))
    (overlap : s.seq.enableScheduleOverlap = true) :
    ∃ after, s.seq.updateLastStepToken { id := id } 0 = .ok after ∧
      GeneratingSequence.Received s.seq after valid fakes { id := id } ∧
      after.kvState = s.seq.kvState := by
  have hkvState : IfOk (s.seq.updateLastStepToken { id := id } 0)
      (fun after => after.kvState = s.seq.kvState) := by
    unfold GeneratingSequence.updateLastStepToken
    rw [if_pos overlap]
    change Ensures (writeToken s.seq.tokenBuffer s.seq.curGeneratedTokenIdx id >>= _) _ _
    exact ensures_any.bind fun _ _ => rfl
  have hfirst : Ensures (s.seq.updateLastStepToken { id := id } 0) _ _ :=
    GeneratingSequence.updateLastStepToken_first hstream overlap
  obtain ⟨after, hupdate, hreceived⟩ := hfirst.exists_ok
  exact ⟨after, hupdate, hreceived, hkvState.of_ok hupdate⟩

theorem popStage_cons {stage : Bool} {queue : List Bool}
    (h : s.seq.preScheduledStepPrefillQueue = stage :: queue) :
    s.popStage = .ok (s.setQueue queue) := by
  rw [popStage, h]

theorem appendTokenForSequence_taken {id : Token} {after : GeneratingSequence}
    (active : s.seq.cancelled = false)
    (sampled : enableChunkedPrefill = true →
      s.seq.preScheduledStepPrefillQueue.head? = some false)
    (hupdate : s.seq.updateLastStepToken { id := id } 0 = .ok after)
    (hqueue : after.preScheduledStepPrefillQueue = s.seq.preScheduledStepPrefillQueue) :
    ∃ s' queue, s.appendTokenForSequence enableChunkedPrefill { id := id } 0 true = .ok s' ∧
      s'.seq = { after with preScheduledStepPrefillQueue := queue } := by
  rw [appendTokenForSequence, if_pos active, hupdate]
  cases enableChunkedPrefill with
  | false => exact ⟨_, after.preScheduledStepPrefillQueue, rfl, rfl⟩
  | true =>
      have hhead := sampled rfl
      rw [← hqueue] at hhead
      obtain ⟨queue, hcons⟩ := List.head?_eq_some_iff.1 hhead
      refine ⟨(s.logged (.update { id := id } 0 s.seq.kvState.numKvBlocks) after).setQueue queue,
        queue, ?_, rfl⟩
      exact popStage_cons hcons

theorem updateSequenceState_sampled
    (sampled : enableChunkedPrefill = true →
      s.seq.preScheduledStepPrefillQueue.head? = some false) :
    s.updateSequenceState enableChunkedPrefill true = .ok (false, s) := by
  unfold updateSequenceState
  cases enableChunkedPrefill with
  | false => rfl
  | true =>
      obtain ⟨queue, hcons⟩ := List.head?_eq_some_iff.1 (sampled rfl)
      rw [if_pos rfl, if_neg (by simp), if_pos rfl, hcons]

theorem Takes.processSampleOutput (h : Takes enableChunkedPrefill s valid fake fakes ids)
    (hne : ids ≠ []) :
    ∃ after, s.processSampleOutput enableChunkedPrefill (ids.map entry) true = .ok after ∧
      after.seq.Stream (valid ++ ids) fakes := by
  obtain ⟨id, rest, rfl⟩ := exists_cons_of_ne_nil hne
  rw [OverlapState.processSampleOutput, h.askFinished, ok_bind]
  generalize hs₀ : ({ s with seq := { s.seq with finishStatusInvalidated := false } } :
    OverlapState) = s₀
  have hseq : s₀.seq = { s.seq with finishStatusInvalidated := false } := by rw [← hs₀]
  have hsampled : enableChunkedPrefill = true →
      s₀.seq.preScheduledStepPrefillQueue.head? = some false := by
    rw [hseq]
    exact h.sampled
  have hstream : s₀.seq.Stream valid (fake :: fakes) := by
    rw [hseq]
    exact ⟨h.stream.buffer, h.stream.cursor, h.stream.count, h.stream.negative⟩
  have hactive : s₀.seq.cancelled = false := by
    rw [hseq]
    exact h.active
  have hoverlap : s₀.seq.enableScheduleOverlap = true := by
    rw [hseq]
    exact h.overlap
  obtain ⟨after, hupdate, hreceived, hkvState⟩ := update_first id hstream hoverlap
  obtain ⟨s', queue, happend, hseq'⟩ :=
    appendTokenForSequence_taken hactive hsampled hupdate hreceived.flags.queue
  have hstream' : after.Stream (valid ++ [id]) fakes := hreceived.stream
  have hchecker : s'.seq.stoppingChecker = s.seq.stoppingChecker := by
    rw [hseq']
    exact hreceived.setup.checker.trans (by rw [hseq])
  have hprompt : s'.seq.numPromptTokens = s.seq.numPromptTokens := by
    rw [hseq']
    exact hreceived.setup.prompt.trans (by rw [hseq])
  dsimp only
  rw [updateSequenceState_sampled hsampled]
  refine processRow_taken happend (by rw [hseq']; exact hreceived.invalidated)
    (by rw [hseq']; exact ⟨hstream'.buffer, hstream'.cursor, hstream'.count, hstream'.negative⟩)
    (by rw [hchecker, hprompt]; exact h.goesOn) (by rw [hchecker, hprompt]; exact h.ends) ?_
  intro hrest s₁ hs₁ hstream₁ goesOn ends
  have hlong : 1 < (id :: rest).length := Nat.succ_lt_succ (List.length_pos_iff.2 hrest)
  have hroom := h.room hlong
  have hcapacity := h.capacity hlong
  rw [length_cons] at hroom hcapacity
  have hkv : s₁.seq.kvState = s.seq.kvState := by
    rw [hs₁, hseq']
    exact hkvState.trans (by rw [hseq])
  have hbuffer : s₁.seq.tokenBuffer.length = s.seq.tokenBuffer.length := by
    rw [hs₁, hseq']
    exact hreceived.setup.capacity.trans (by rw [hseq])
  refine Taking.run ?_ Nat.one_pos
  refine ⟨hstream₁, ?_, ?_, h.few, fun _ => ?_, fun _ => ?_, fun _ => ?_, goesOn, fun _ => ends⟩
  · rw [hs₁, hseq']
    exact hreceived.setup.overlap.trans hoverlap
  · rw [hs₁, hseq']
    exact hreceived.flags.cancelled.trans hactive
  · rw [hkv]
    exact h.blocks hlong
  · rw [length_append, length_singleton]
    omega
  · rw [hkv]
    omega

end OverlapState

namespace OverlapState

variable {enableChunkedPrefill : Bool} {s s' : OverlapState}

/-- The next token to compute is the last one. -/
def AtLast (s : OverlapState) : Prop := s.seq.kvState.kvCacheTokensNum + 1 = s.seq.numTokens

theorem appendTokenForSequence_atLast {token : SampledToken} {tokenIdx : Nat}
    (h : s.appendTokenForSequence enableChunkedPrefill token tokenIdx false = .ok s') :
    s'.AtLast := by
  obtain ⟨seq, hseq, h⟩ := bind_eq_ok h
  have hlast : seq.kvState.kvCacheTokensNum + 1 = seq.numTokens := by
    unfold GeneratingSequence.appendToken at hseq
    split at hseq
    case isFalse => cases hseq
    case isTrue =>
      obtain ⟨base, hbase, hseq⟩ := bind_eq_ok hseq
      unfold Sequence.appendToken at hbase
      split at hbase
      case isFalse => cases hbase
      case isTrue =>
        cases hbase
        split at hseq <;> cases hseq <;> rfl
  cases h
  split
  case isTrue => exact hlast
  case isFalse => exact hlast

/-- Without overlap the input of the next step is prepared behind the row, for the last token
that the batch has taken. -/
theorem processRow_atLast {tokenIdx : Nat} {row : List RowToken} (hne : row ≠ [])
    (h : processRow enableChunkedPrefill false tokenIdx row s = .ok s') : s'.AtLast := by
  induction row generalizing s tokenIdx with
  | nil => exact absurd rfl hne
  | cons entry row ih =>
      obtain ⟨s₁, happend, h⟩ := bind_eq_ok h
      have hlast := appendTokenForSequence_atLast happend
      obtain ⟨⟨finished, s₂⟩, hasked, h⟩ := bind_eq_ok h
      obtain ⟨⟨answer, seq⟩, hfinished, hpair⟩ := bind_eq_ok hasked
      -- asking whether it is finished moves nothing
      have hsame : seq.kvState.kvCacheTokensNum + 1 = seq.numTokens := by
        unfold GeneratingSequence.isFinished at hfinished
        split at hfinished
        case isTrue =>
          cases hfinished
          exact hlast
        case isFalse =>
          obtain ⟨reason, -, hfinished⟩ := bind_eq_ok hfinished
          split at hfinished <;> cases hfinished <;> exact hlast
      cases hpair
      dsimp only at h
      split at h
      case isTrue =>
        cases h
        exact hsame
      case isFalse =>
        by_cases hrow : row = []
        case pos =>
          subst hrow
          cases h
          exact hsame
        case neg => exact ih hrow h

end OverlapState

/-- A sequence of a batch, the input of which has been prepared before the row of its last
step is known. `valid`, `fakes` and `ids` say what it holds. -/
structure SpecTarget where
  prepared : Sequence
  state : OverlapState
  blockTable : List Int
  embeddingId : Int
  /-- The place of the row in the output of the last step. -/
  rowIdx : Nat
  valid : List Token
  fakes : List Token
  ids : List Int

/-- The fake token for a row: the workers return -1, -2 and so on. -/
def placeholder (rowIdx : Nat) : Token := Int32.ofInt (-(rowIdx + 1 : Nat))

/-- The input for sequences that compute one token. -/
def preparedView (batch : List SpecTarget) : DecodeCpuView where
  tokenIds := batch.map fun t =>
    (t.prepared.tokens.getD t.prepared.kvState.kvCacheTokensNum 0).toInt
  positions := batch.map fun t => (t.prepared.kvState.kvCacheTokensNum : Int)
  kvSeqLens := batch.map fun t => (t.prepared.kvState.kvCacheTokensNum : Int) + 1
  blockTables := batch.map fun t => t.blockTable

/-- `process_sample_output` on the rows of the last step. -/
def processRows (enableChunkedPrefill : Bool) (rows : List (List Int)) (batch : List SpecTarget) :
    Except Check (List OverlapState) :=
  batch.mapM fun t => t.state.processSampleOutput enableChunkedPrefill
    (rawTokens (rows.getD t.rowIdx [])) true

/-- The input was prepared for the placeholder of a row of accepted tokens, and the sequence
takes the whole row. -/
structure SpecTarget.Ready (enableChunkedPrefill : Bool) (rows : List (List Int))
    (width blockSize : Nat) (t : SpecTarget) : Prop where
  tokens : t.prepared.tokens = t.valid ++ [placeholder t.rowIdx]
  cached : t.prepared.kvState.kvCacheTokensNum = t.valid.length
  small : t.rowIdx < 2 ^ 31
  row : ∃ row, rows[t.rowIdx]? = some row ∧ Accepted width t.ids row
  slot : (calcSlotId (t.valid.length + (t.ids.length - 1)) t.blockTable blockSize).isSome
  takes : t.state.Takes enableChunkedPrefill t.valid (placeholder t.rowIdx) t.fakes
    (t.ids.map Int32.ofInt)

section

variable {enableChunkedPrefill : Bool} {rows : List (List Int)} {width blockSize : Nat}
  {batch : List SpecTarget} {t : SpecTarget}

@[simp] theorem toInt_placeholder {rowIdx : Nat} (h : rowIdx < 2 ^ 31) :
    (placeholder rowIdx).toInt = -(rowIdx + 1 : Nat) := by
  exact Int32.toInt_ofInt_of_le (by omega) (by omega)

theorem SpecTarget.Ready.prepared_token (h : t.Ready enableChunkedPrefill rows width blockSize) :
    (t.prepared.tokens.getD t.prepared.kvState.kvCacheTokensNum 0).toInt =
      -(t.rowIdx + 1 : Nat) := by
  rw [h.tokens, h.cached, getD_append_right _ _ _ _ (Nat.le_refl _), Nat.sub_self]
  exact toInt_placeholder h.small

theorem range_map_getElem? {α β : Type} (l : List α) (f : α → β) (d : β) :
    ((range l.length).map fun i => (l[i]?).elim d f) = l.map f := by
  apply ext_getElem?
  intro i
  rw [getElem?_map, getElem?_map]
  by_cases hi : i < l.length
  · rw [getElem?_range hi]
    simp [hi]
  · rw [getElem?_eq_none (by rw [length_range]; omega),
      getElem?_eq_none (by omega)]
    rfl

def Stored {E P : Type} (after : EmbeddingCache E P) (ids : List Int) (width : Nat)
    (rows : List (List Int)) : Prop :=
  ∀ (i : Nat) (id : Int) (row accepted : List Int), ids[i]? = some id → rows[i]? = some row →
    Accepted width accepted row → ∃ tail, after.getTail id = some tail ∧
      tail.correctionTokenId = (lastAccepted accepted).tokenId ∧
      tail.correctionPositionOffset = (lastAccepted accepted).positionOffset

theorem write_stored {E P : Type} {cache : EmbeddingCache E P} {nextTokens : List Int}
    {embeddings : List E} {probs : List P} {ids : List Int}
    (hids : ∀ id ∈ ids, 0 ≤ id ∧ id.toNat < cache.length) (hdistinct : ids.Nodup)
    (htokens : ids.length ≤ nextTokens.length) (hembeddings : ids.length ≤ embeddings.length)
    (hprobs : ids.length ≤ probs.length) (hrows : ids.length ≤ rows.length) :
    ∃ after, EmbeddingCache.write nextTokens embeddings probs (.rows rows) 0 ids cache =
        some after ∧ Stored after ids width rows := by
  obtain ⟨after, hwrite, -, hwritten⟩ := @write_spec rows E P cache nextTokens embeddings probs 0
    ids hids (by omega) (by omega) (by omega) (by omega)
  refine ⟨after, hwrite, ?_⟩
  intro i id row accepted hid hrow haccepted
  have hlater : id ∉ ids.drop (i + 1) := by
    intro hmem
    obtain ⟨j, hj⟩ := mem_iff_getElem?.1 hmem
    rw [getElem?_drop] at hj
    obtain ⟨hlt, hget⟩ := List.getElem?_eq_some_iff.1 hj
    obtain ⟨hlt', hget'⟩ := List.getElem?_eq_some_iff.1 hid
    have heq := hdistinct.getElem_inj_iff.1 (hget.trans hget'.symm)
    omega
  obtain ⟨tail, htail, heq⟩ := hwritten i id row hid hlater (by rw [Nat.zero_add]; exact hrow)
  rw [haccepted.row_eq, lastValid_accepted haccepted.token haccepted.nonempty] at heq
  obtain ⟨htoken, hoffset⟩ := Prod.mk.inj heq
  refine ⟨tail, htail, htoken, ?_⟩
  rw [hoffset, lastAccepted, Int.zero_add]

def SpecTarget.slotId (t : SpecTarget) (blockSize : Nat) : Int :=
  (calcSlotId (t.valid.length + (t.ids.length - 1)) t.blockTable blockSize).getD 0

theorem appendDecodeRow_ready {i : Nat} (hi : batch[i]? = some t)
    (h : t.Ready enableChunkedPrefill rows width blockSize) (buf : DecodeBuildBuffers) :
    appendDecodeRow batch.length (preparedView batch)
        { seqId := i, tokenId := (lastAccepted t.ids).tokenId,
          positionOffset := (lastAccepted t.ids).positionOffset } blockSize buf =
      some (buf.push (lastAccepted t.ids).tokenId (t.valid.length + (t.ids.length - 1))
        (t.valid.length + t.ids.length) (t.slotId blockSize)) := by
  have hlt : i < batch.length := (List.getElem?_eq_some_iff.1 hi).1
  obtain ⟨slot, hslot⟩ := Option.isSome_iff_exists.1 h.slot
  rw [@appendDecodeRow_eq _ blockSize _ _ t.valid.length (t.valid.length + 1)
    (t.slotId blockSize) t.blockTable (lastAccepted t.ids) buf hlt]
  · have hlen : (t.valid.length : Int) + 1 + (lastAccepted t.ids).positionOffset =
        t.valid.length + t.ids.length := by
      simp only [lastAccepted]
      omega
    rw [hlen]
    rfl
  · simp only [preparedView, getElem?_map, hi, map_some, h.cached]
  · simp only [preparedView, getElem?_map, hi, map_some, h.cached]
  · simp only [preparedView, getElem?_map, hi, map_some]
  · rw [SpecTarget.slotId, hslot]
    exact hslot

/-- The input holds the last token of every row, where it stands in its sequence. -/
structure Corrected (batch : List SpecTarget) (buf : DecodeBuildBuffers) : Prop where
  tokenIds : buf.outTokenIds = batch.map fun t => (lastAccepted t.ids).tokenId
  positions : buf.outPositions = batch.map fun t => (t.valid.length : Int) + (t.ids.length - 1)
  kvSeqLens : buf.outKvSeqLens = batch.map fun t => (t.valid.length : Int) + t.ids.length

theorem corrected_of_rows {step : DecodeBuildBuffers → Nat → Option DecodeBuildBuffers}
    (hready : ∀ t ∈ batch, t.Ready enableChunkedPrefill rows width blockSize)
    (hstep : ∀ i t, batch[i]? = some t → ∀ buf, step buf i =
      appendDecodeRow batch.length (preparedView batch)
        { seqId := i, tokenId := (lastAccepted t.ids).tokenId,
          positionOffset := (lastAccepted t.ids).positionOffset } blockSize buf) :
    ∃ buf, (range batch.length).foldlM step {} = some buf ∧ Corrected batch buf := by
  obtain ⟨buf, hfold, htokens, hpositions, hlens⟩ := @foldlM_push step
    (fun i => (batch[i]?).elim 0 fun t => (lastAccepted t.ids).tokenId)
    (fun i => (batch[i]?).elim 0 fun t => (t.valid.length : Int) + (t.ids.length - 1))
    (fun i => (batch[i]?).elim 0 fun t => (t.valid.length : Int) + t.ids.length)
    (fun i => (batch[i]?).elim 0 fun t => t.slotId blockSize) (range batch.length)
    (fun i hi buf => by
      have hlt := List.mem_range.1 hi
      have hget := getElem?_eq_getElem hlt
      rw [hstep i batch[i] hget buf,
        appendDecodeRow_ready hget (hready _ (getElem_mem hlt)) buf, hget]
      rfl) {}
  refine ⟨buf, hfold, ?_, ?_, ?_⟩
  · rw [htokens, range_map_getElem?]
    rfl
  · rw [hpositions, range_map_getElem?]
    rfl
  · rw [hlens, range_map_getElem?]
    rfl

theorem view_token {i : Nat} (hi : batch[i]? = some t)
    (h : t.Ready enableChunkedPrefill rows width blockSize) :
    (preparedView batch).tokenIds[i]? = some (-((t.rowIdx + 1 : Nat) : Int)) := by
  simp only [preparedView, getElem?_map, hi, map_some, h.prepared_token]

theorem updateInputByLastStep_corrected (hwidth : ∀ r ∈ rows, r.length = width)
    (hready : ∀ t ∈ batch, t.Ready enableChunkedPrefill rows width blockSize) :
    ∃ buf, updateInputByLastStep (preparedView batch) batch.length blockSize rows width =
        some buf ∧ Corrected batch buf := by
  apply corrected_of_rows hready
  intro i t hi buf
  have h := hready t (mem_of_getElem? hi)
  obtain ⟨row, hrow, haccepted⟩ := h.row
  rw [view_token hi h, bind_some, appendDecodeRowFromLastStep,
    resolve_accepted hwidth hrow haccepted, bind_some]

theorem updateInputByCache_corrected {E P : Type} {cache : EmbeddingCache E P} {lastIds : List Int}
    (hstored : Stored cache lastIds width rows) (hne : batch ≠ [])
    (hready : ∀ t ∈ batch, t.Ready enableChunkedPrefill rows width blockSize)
    (hlast : ∀ t ∈ batch, lastIds[t.rowIdx]? = some t.embeddingId) :
    ∃ buf, updateInputByCache (preparedView batch) batch.length blockSize cache
        (batch.map fun t => t.embeddingId) = some buf ∧ Corrected batch buf := by
  have hcorrections := @readCorrections_accepted E P cache (batch.map fun t => t.embeddingId)
    (batch.map fun t => t.ids) (by simpa using hne) (by
      rw [forall₂_map_left_iff, forall₂_map_right_iff, forall₂_same]
      intro t ht
      obtain ⟨row, hrow, haccepted⟩ := (hready t ht).row
      obtain ⟨tail, htail, htoken, hoffset⟩ :=
        hstored t.rowIdx t.embeddingId row t.ids (hlast t ht) hrow haccepted
      exact ⟨haccepted.nonempty, haccepted.token, tail, htail, by rw [htoken, hoffset]⟩)
  rw [updateInputByCache, hcorrections, bind_some, if_pos (by simp)]
  apply corrected_of_rows hready
  intro i t hi buf
  have h := hready t (mem_of_getElem? hi)
  rw [view_token hi h]
  simp only [getElem?_map, hi, map_some, bind_some]
  rw [if_neg (by omega)]

theorem processRows_taken
    (hready : ∀ t ∈ batch, t.Ready enableChunkedPrefill rows width blockSize) :
    ∃ afters, processRows enableChunkedPrefill rows batch = .ok afters ∧
      Forall₂ (fun (t : SpecTarget) (after : OverlapState) =>
        after.seq.Stream (t.valid ++ t.ids.map Int32.ofInt) t.fakes) batch afters := by
  unfold processRows
  induction batch with
  | nil => exact ⟨[], rfl, .nil⟩
  | cons t batch ih =>
      have h := hready t mem_cons_self
      obtain ⟨row, hrow, haccepted⟩ := h.row
      have hraw : rawTokens (rows.getD t.rowIdx []) = (t.ids.map Int32.ofInt).map
        OverlapState.entry := by
        rw [getD_eq_getElem?_getD, hrow, getD_some, rawTokens_accepted haccepted,
          List.map_map]
        rfl
      obtain ⟨after, hafter, hstream⟩ := h.takes.processSampleOutput
        (by simpa using haccepted.nonempty)
      obtain ⟨afters, hafters, hall⟩ := ih fun t' ht' => hready t' (mem_cons_of_mem t ht')
      refine ⟨after :: afters, ?_, .cons hstream hall⟩
      rw [mapM_cons, hraw, hafter, hafters]
      rfl

theorem Corrected.positions_eq {buf : DecodeBuildBuffers} {afters : List OverlapState}
    (h : Corrected batch buf)
    (hall : Forall₂ (fun (t : SpecTarget) (after : OverlapState) =>
      after.seq.Stream (t.valid ++ t.ids.map Int32.ofInt) t.fakes) batch afters) :
    buf.outPositions = afters.map (fun s => (s.seq.curGeneratedTokenIdx : Int) - 1) ∧
      buf.outKvSeqLens = afters.map fun s => (s.seq.curGeneratedTokenIdx : Int) := by
  rw [h.positions, h.kvSeqLens]
  clear h
  induction hall with
  | nil => exact ⟨rfl, rfl⟩
  | @cons t after batch afters hstream _ ih =>
      have hcursor : after.seq.curGeneratedTokenIdx = t.valid.length + t.ids.length := by
        rw [hstream.cursor, length_append, length_map]
      simp only [map_cons, ih.1, ih.2, hcursor, Nat.cast_add, and_true]
      congr 1
      omega

end

/-- The token and the offset that the builder resolves for a row and that the cache stores for
it are those of its last token, and in the next input the last tokens stand where the batch
has them behind the same rows. Without overlap that input is prepared behind the rows. -/
theorem accepted_tokens_agree :
    (∀ (width i : Nat) (rows : List (List Int)) (row ids : List Int),
      (∀ r ∈ rows, r.length = width) → rows[i]? = some row → Accepted width ids row →
      resolveTokenWithPositionOffset (-(i + 1 : Nat)) rows.flatten width =
        some (lastAccepted ids)) ∧
    (∀ (E P : Type) (cache : EmbeddingCache E P) (nextTokens : List Int) (embeddings : List E)
      (probs : List P) (ids : List Int) (width : Nat) (rows : List (List Int)),
      (∀ id ∈ ids, 0 ≤ id ∧ id.toNat < cache.length) → ids.Nodup →
      ids.length ≤ nextTokens.length → ids.length ≤ embeddings.length →
      ids.length ≤ probs.length → ids.length ≤ rows.length →
      ∃ after, EmbeddingCache.write nextTokens embeddings probs (.rows rows) 0 ids cache =
          some after ∧ Stored after ids width rows) ∧
    (∀ (enableChunkedPrefill : Bool) (width blockSize : Nat) (rows : List (List Int))
      (batch : List SpecTarget), (∀ r ∈ rows, r.length = width) → batch ≠ [] →
      (∀ t ∈ batch, t.Ready enableChunkedPrefill rows width blockSize) →
      ∃ afters, processRows enableChunkedPrefill rows batch = .ok afters ∧
        Forall₂ (fun (t : SpecTarget) (after : OverlapState) =>
          after.seq.Stream (t.valid ++ t.ids.map Int32.ofInt) t.fakes) batch afters ∧
        (∃ buf, updateInputByLastStep (preparedView batch) batch.length blockSize rows width =
            some buf ∧
          buf.outTokenIds = batch.map (fun t => (lastAccepted t.ids).tokenId) ∧
          buf.outPositions = afters.map (fun s => (s.seq.curGeneratedTokenIdx : Int) - 1) ∧
          buf.outKvSeqLens = afters.map fun s => (s.seq.curGeneratedTokenIdx : Int)) ∧
        ∀ (E P : Type) (cache : EmbeddingCache E P) (lastIds : List Int),
          Stored cache lastIds width rows →
          (∀ t ∈ batch, lastIds[t.rowIdx]? = some t.embeddingId) →
          ∃ buf, updateInputByCache (preparedView batch) batch.length blockSize cache
              (batch.map fun t => t.embeddingId) = some buf ∧
            buf.outTokenIds = batch.map (fun t => (lastAccepted t.ids).tokenId) ∧
            buf.outPositions = afters.map (fun s => (s.seq.curGeneratedTokenIdx : Int) - 1) ∧
            buf.outKvSeqLens = afters.map fun s => (s.seq.curGeneratedTokenIdx : Int)) ∧
    ∀ (enableChunkedPrefill : Bool) (s s' : OverlapState) (row : List RowToken), row ≠ [] →
      OverlapState.processRow enableChunkedPrefill false 0 row s = .ok s' → s'.AtLast := by
  refine ⟨?_, ?_, ?_, ?_⟩
  · intro width i rows row ids hwidth hrow haccepted
    exact resolve_accepted hwidth hrow haccepted
  · intro E P cache nextTokens embeddings probs ids width rows hids hdistinct htokens hembeddings
      hprobs hrows
    exact write_stored hids hdistinct htokens hembeddings hprobs hrows
  · intro enableChunkedPrefill width blockSize rows batch hwidth hne hready
    obtain ⟨afters, hafters, hall⟩ := processRows_taken hready
    refine ⟨afters, hafters, hall, ?_, ?_⟩
    · obtain ⟨buf, hbuf, hcorrected⟩ := updateInputByLastStep_corrected hwidth hready
      obtain ⟨hpositions, hlens⟩ := hcorrected.positions_eq hall
      exact ⟨buf, hbuf, hcorrected.tokenIds, hpositions, hlens⟩
    · intro E P cache lastIds hstored hlast
      obtain ⟨buf, hbuf, hcorrected⟩ := updateInputByCache_corrected hstored hne hready hlast
      obtain ⟨hpositions, hlens⟩ := hcorrected.positions_eq hall
      exact ⟨buf, hbuf, hcorrected.tokenIds, hpositions, hlens⟩
  · intro enableChunkedPrefill s s' row hne h
    exact OverlapState.processRow_atLast hne h

def twoAccepted (eosToken : Token) : SpecTarget where
  prepared := {
    tokenBuffer := [7, 8, -1, 0, 0, 0, 0, 0]
    numTokens := 3
    numPromptTokens := 1
    kvState := { kvCacheTokensNum := 2 } }
  state := { seq := {
    tokenBuffer := [7, 8, -1, -1, 0, 0, 0, 0]
    numTokens := 4
    numPromptTokens := 1
    kvState := { kvCacheTokensNum := 3, blocks := [{ id := 1, size := 128 }] }
    stoppingChecker := { eosToken := eosToken }
    enableScheduleOverlap := true
    curGeneratedTokenIdx := 2 } }
  blockTable := [1]
  embeddingId := 0
  rowIdx := 0
  valid := [7, 8]
  fakes := [-1]
  ids := [5, 6]

theorem accepted_two : Accepted 3 [5, 6] [5, 6, -1] := by
  constructor
  case nonempty => decide
  case token =>
    intro id hid
    simp only [mem_cons, not_mem_nil, or_false] at hid
    omega
  case fits => decide
  case row_eq => rfl

theorem twoAccepted_ready : (twoAccepted 9).Ready false [[5, 6, -1]] 3 128 := by
  constructor
  case tokens => decide
  case cached => rfl
  case small => decide
  case row => exact ⟨[5, 6, -1], rfl, accepted_two⟩
  case slot => rfl
  case takes =>
    constructor
    case stream =>
      refine ⟨⟨[0, 0, 0, 0], by decide⟩, rfl, rfl, ?_⟩
      exact List.forall_mem_cons.2 ⟨by decide,
        List.forall_mem_cons.2 ⟨by decide, forall_mem_nil _⟩⟩
    case overlap => rfl
    case active => rfl
    case few => decide
    case blocks => decide
    case room => decide
    case capacity => decide
    case running => decide
    case sampled => decide
    case goesOn =>
      intro j hj hlt
      obtain rfl : j = 1 := by
        have hlen : ((twoAccepted 9).ids.map Int32.ofInt).length = 2 := rfl
        omega
      decide
    case ends => exact ⟨.none, by decide⟩

theorem accepted_tokens_agree_two :
    ∃ afters, processRows false [[5, 6, -1]] [twoAccepted 9] = .ok afters ∧
      ∃ buf, updateInputByLastStep (preparedView [twoAccepted 9]) 1 128 [[5, 6, -1]] 3 = some buf ∧
        buf.outPositions = afters.map fun s => (s.seq.curGeneratedTokenIdx : Int) - 1 := by
  obtain ⟨afters, hafters, -, ⟨buf, hbuf, -, hpositions, -⟩, -⟩ :=
    accepted_tokens_agree.2.2.1 false 3 128 [[5, 6, -1]] [twoAccepted 9]
      (by simp) (cons_ne_nil _ _)
      (fun t ht => List.mem_singleton.1 ht ▸ twoAccepted_ready)
  exact ⟨afters, hafters, buf, hbuf, hpositions⟩

/-- A sequence that finishes with the first of two accepted tokens. The input of the next step
has the position of the second one, which the batch has not taken. -/
theorem finished_inside_row :
    Accepted 3 (twoAccepted 5).ids [5, 6, -1] ∧
      (updateInputByLastStep (preparedView [twoAccepted 5]) 1 128 [[5, 6, -1]] 3).map
        (fun buf => buf.outPositions) = some [3] ∧
      ((processRows false [[5, 6, -1]] [twoAccepted 5]).toOption.map fun afters =>
        afters.map fun s => (s.seq.curGeneratedTokenIdx, s.seq.finished)) = some [(3, true)] := by
  refine ⟨accepted_two, by decide +kernel, by decide +kernel⟩

end Xllm
