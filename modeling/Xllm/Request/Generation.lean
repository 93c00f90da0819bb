import Mathlib.Logic.Function.Basic
import Xllm.Request.Sequence

/-!
# Generating tokens

The side of a `Sequence` that receives sampled tokens. Without schedule overlap a
token is appended as soon as it is known. With overlap a step is prepared before
the tokens of the step before it have arrived: a negative, fake id is appended at
once, and `update_last_step_token` puts the real token over it one step later.

`StoppingChecker::check` decides when a sequence is finished. It looks at the last
token that is not fake.
-/

namespace Xllm

open Contract List
open Sequence (subSize)

inductive FinishReason where
  | none
  | stop
  | length
  deriving DecidableEq

structure StoppingChecker where
  maxGeneratedTokens : Nat := 5120
  maxContextLen : Nat := 0
  eosToken : Token := -1
  ignoreEos : Bool := false
  stopTokens : List Token := []
  stopSequences : List (List Token) := []

namespace StoppingChecker

def matchSuffix (data suffix : List Token) : Bool :=
  if suffix = [] then true
  else if data.length < suffix.length then false
  else data.drop (data.length - suffix.length) == suffix

/-- The last token that is not fake, with the number of tokens up to it. The loop of
the source runs out of the slice when there is none. -/
def lastValid (tokenIds : List Token) : Option (Token × Nat) :=
  match tokenIds.reverse.dropWhile (· < 0) with
  | [] => .none
  | token :: before => some (token, before.length + 1)

def checkStopSequences (tokenIds : List Token) (lastTokenId : Token) :
    List (List Token) → Except Check FinishReason
  | [] => .ok .none
  | seq :: rest =>
      match seq.getLast? with
      | .none => .error .outOfBounds
      | some back =>
          if back = lastTokenId ∧ matchSuffix tokenIds seq = true then .ok .stop
          else checkStopSequences tokenIds lastTokenId rest

variable (checker : StoppingChecker)

def check (tokenIds : List Token) (numPromptTokens : Nat) : Except Check FinishReason :=
  if tokenIds = [] then .error .stoppingCheck
  else
    match lastValid tokenIds with
    | .none => .error .outOfBounds
    | some (lastTokenId, totalTokens) =>
        if 0 < checker.maxGeneratedTokens ∧
            checker.maxGeneratedTokens ≤ subSize totalTokens numPromptTokens then .ok .length
        else if 0 < checker.maxContextLen ∧ checker.maxContextLen ≤ totalTokens then
          if numPromptTokens ≤ totalTokens then .ok .length else .error .stoppingCheck
        else if checker.ignoreEos then .ok .none
        else if lastTokenId = checker.eosToken then .ok .stop
        else if lastTokenId ∈ checker.stopTokens then .ok .stop
        else checkStopSequences tokenIds lastTokenId checker.stopSequences

theorem lastValid_append {valid fakes : List Token} {token : Token} (hvalid : ¬token < 0)
    (hfakes : ∀ t ∈ fakes, t < 0) :
    lastValid (valid ++ token :: fakes) = some (token, valid.length + 1) := by
  have hdrop : (valid ++ token :: fakes).reverse.dropWhile (· < 0) =
      token :: valid.reverse := by
    rw [reverse_append, reverse_cons, append_assoc,
      dropWhile_append_of_pos (by simpa using hfakes)]
    simp [hvalid]
  rw [lastValid, hdrop]
  simp

variable {tokenIds : List Token}

theorem lastValid_eq_some {token : Token} {total : Nat}
    (h : lastValid tokenIds = some (token, total)) :
    ∃ valid fakes, tokenIds = valid ++ token :: fakes ∧ ¬token < 0 ∧
      (∀ t ∈ fakes, t < 0) ∧ total = valid.length + 1 := by
  rw [lastValid] at h
  split at h
  · cases h
  rename_i found before hdrop
  obtain ⟨rfl, rfl⟩ : found = token ∧ before.length + 1 = total := by simpa using h
  have hsplit := takeWhile_append_dropWhile (p := (· < 0)) (l := tokenIds.reverse)
  rw [hdrop] at hsplit
  refine ⟨before.reverse, (tokenIds.reverse.takeWhile (· < 0)).reverse, ?_, ?_, ?_, by simp⟩
  · have hback := congrArg List.reverse hsplit
    simpa using hback.symm
  · have hhead := head?_dropWhile_not (· < 0) tokenIds.reverse
    rw [hdrop] at hhead
    simpa using hhead
  · intro t ht
    have hneg := all_takeWhile (p := (· < 0)) (l := tokenIds.reverse)
    rw [all_eq_true] at hneg
    simpa using hneg t (List.mem_reverse.mp ht)

theorem checkStopSequences_returns {lastTokenId : Token}
    {stopSequences : List (List Token)} (h : ∀ s ∈ stopSequences, s ≠ []) :
    Yields (checkStopSequences tokenIds lastTokenId stopSequences) (fun _ => True) := by
  induction stopSequences with
  | nil => exact trivial
  | cons seq rest ih =>
      obtain ⟨back, hback⟩ : ∃ back, seq.getLast? = some back :=
        ⟨_, getLast?_eq_some_getLast (h seq mem_cons_self)⟩
      rw [checkStopSequences, hback]
      simp only
      split
      · exact trivial
      · exact ih fun s hs => h s (mem_cons_of_mem _ hs)

theorem checkStopSequences_eq_none {lastTokenId : Token}
    {stopSequences : List (List Token)}
    (h : checkStopSequences tokenIds lastTokenId stopSequences = .ok .none) :
    ∀ s ∈ stopSequences, s ≠ [] := by
  induction stopSequences with
  | nil => exact fun _ hs => absurd hs not_mem_nil
  | cons seq rest ih =>
      rw [checkStopSequences] at h
      split at h
      · cases h
      rename_i back hback
      split at h
      · cases h
      intro s hs
      obtain rfl | hs := List.mem_cons.mp hs
      · rintro rfl
        cases hback
      · exact ih h s hs

/-- What is needed for `check` to return: stop sequences are only read when the end
token counts. -/
def Readable : Prop := checker.ignoreEos = true ∨ ∀ s ∈ checker.stopSequences, s ≠ []

variable {checker}

/-- On tokens that reach to the prompt's end, followed by fake ones, the check
returns, and a sequence that goes on has generated less than allowed. -/
theorem check_ensures {valid fakes : List Token} {token : Token} {numPromptTokens : Nat}
    (readable : checker.Readable) (hvalid : ¬token < 0) (hfakes : ∀ t ∈ fakes, t < 0)
    (hprompt : numPromptTokens ≤ valid.length + 1) :
    Yields (checker.check (valid ++ token :: fakes) numPromptTokens)
      (fun reason => reason = .none → 0 < checker.maxGeneratedTokens →
        valid.length + 1 - numPromptTokens < checker.maxGeneratedTokens) := by
  rw [check, if_neg (by simp), lastValid_append hvalid hfakes]
  simp only [subSize, if_pos hprompt]
  split
  · exact fun h => nomatch h
  have hbound : 0 < checker.maxGeneratedTokens →
      valid.length + 1 - numPromptTokens < checker.maxGeneratedTokens := by omega
  split
  · exact fun h => nomatch h
  split
  · exact fun _ => hbound
  rename_i hcounts
  split
  · exact fun h => nomatch h
  split
  · exact fun h => nomatch h
  obtain hignore | hstops := readable
  · exact absurd hignore hcounts
  · exact (checkStopSequences_returns hstops).mono_post fun _ _ _ => hbound

/-- A prompt that passes the check of a new request ends with a token that is not
fake. -/
theorem check_prompt {prompt : List Token} (h : checker.check prompt prompt.length = .ok .none)
    (hmax : 0 < checker.maxGeneratedTokens) (hsize : checker.maxGeneratedTokens ≤ 2 ^ 32)
    (hlength : prompt.length < 2 ^ 61) :
    checker.Readable ∧ ∃ valid token, prompt = valid ++ [token] ∧ ¬token < 0 := by
  rw [check] at h
  split at h
  · cases h
  split at h
  · cases h
  rename_i found token total hfound
  obtain ⟨valid, fakes, rfl, hvalid, -, rfl⟩ := lastValid_eq_some hfound
  split at h
  · cases h
  rename_i hgenerated
  -- with fewer valid tokens than the prompt has, the difference wraps around
  have hfakes : fakes = [] := by
    rw [length_append, length_cons] at hgenerated hlength
    refine List.length_eq_zero_iff.mp ?_
    by_contra hne
    rw [subSize, if_neg (by omega)] at hgenerated
    omega
  subst hfakes
  split at h
  · split at h <;> cases h
  refine ⟨?_, valid, token, rfl, hvalid⟩
  split at h
  · rename_i hignore
    exact Or.inl hignore
  split at h
  · cases h
  split at h
  · cases h
  exact Or.inr (checkStopSequences_eq_none h)

end StoppingChecker

/-- The source's `Token`: a sampled id with its log probabilities, given by their bits. -/
structure SampledToken where
  id : Token
  logprob : Option (BitVec 32) := .none
  topTokens : List Int64 := []
  topLogprobs : List (BitVec 32) := []
  deriving DecidableEq

/-- `LogprobState`, whose vectors have an entry for every position of the buffer. -/
structure LogprobState where
  logprobs : Nat → Option (BitVec 32) := fun _ => .none
  topTokens : Nat → List Int64 := fun _ => []
  topLogprobs : Nat → List (BitVec 32) := fun _ => []

def LogprobState.updateLogprob (state : LogprobState) (index : Nat) (token : SampledToken)
    (numTopTokens : Nat) : LogprobState :=
  let state := { state with logprobs := Function.update state.logprobs index token.logprob }
  if 0 < numTopTokens ∧ token.topTokens ≠ [] then
    { state with
      topTokens := Function.update state.topTokens index (token.topTokens.take numTopTokens)
      topLogprobs := Function.update state.topLogprobs index (token.topLogprobs.take numTopTokens) }
  else state

/-- A sequence with the members that generation reads and writes. -/
structure GeneratingSequence extends Sequence where
  stoppingChecker : StoppingChecker := {}
  enableScheduleOverlap : Bool := false
  logprobs : Bool := false
  topLogprobs : Nat := 0
  needUniqueTokens : Bool := false
  tokenToCountMap : Token → Option Int := fun _ => .none
  logprobState : LogprobState := {}
  finishStatusInvalidated : Bool := true
  finishReason : FinishReason := .none
  curGeneratedTokenIdx : Nat := 0
  preScheduledStepPrefillQueue : List Bool := []
  cancelled : Bool := false

/-- An access of `tokens_`, which the source does not check. -/
def readToken (buffer : List Token) (index : Nat) : Except Check Token :=
  match buffer[index]? with
  | some token => .ok token
  | .none => .error .outOfBounds

/-- An assignment to `tokens_`, which the source does not check. -/
def writeToken (buffer : List Token) (index : Nat) (token : Token) : Except Check (List Token) :=
  if index < buffer.length then .ok (buffer.set index token) else .error .outOfBounds

namespace GeneratingSequence

variable (seq : GeneratingSequence)

def recordToken (index : Nat) (token : SampledToken) : GeneratingSequence :=
  { seq with
    tokenToCountMap := if seq.needUniqueTokens then
      Function.update seq.tokenToCountMap token.id
        (some ((seq.tokenToCountMap token.id).getD 0 + 1))
      else seq.tokenToCountMap
    logprobState := if seq.logprobs then
      seq.logprobState.updateLogprob index token seq.topLogprobs else seq.logprobState }

/-- `append_token`, without the first token that a prefill instance sends away. -/
def appendToken (token : SampledToken) : Except Check GeneratingSequence :=
  if seq.numTokens < seq.tokenBuffer.length then do
    let base ← seq.toSequence.appendToken token.id
    let next := { seq with toSequence := base, finishStatusInvalidated := true }
    -- the real token follows in `update_last_step_token`
    if seq.enableScheduleOverlap = true ∧ token.id < 0 then .ok next
    else .ok (next.recordToken seq.numTokens token)
  else .error .tokenCapacity

/-- Make room for one more real token: the two tokens from the cursor on move up. -/
def shiftFakes (buffer : List Token) (cursor : Nat) : Except Check (List Token) := do
  let second ← readToken buffer (cursor + 1)
  let buffer ← writeToken buffer (cursor + 2) second
  let first ← readToken buffer cursor
  writeToken buffer (cursor + 1) first

def updateLastStepToken (token : SampledToken) (tokenOffset : Nat) :
    Except Check GeneratingSequence :=
  if seq.enableScheduleOverlap = true then
    -- a preempted sequence has no blocks for the further tokens of the step
    if 0 < tokenOffset ∧ seq.kvState.numKvBlocks = 0 then .ok seq
    else do
      let cursor := seq.curGeneratedTokenIdx
      let (kvState, numTokens, buffer) ←
        if 0 < tokenOffset then do
          let kvState ← seq.kvState.incrKvCacheTokensNum 1
          let buffer ← shiftFakes seq.tokenBuffer cursor
          .ok (kvState, seq.numTokens + 1, buffer)
        else .ok (seq.kvState, seq.numTokens, seq.tokenBuffer)
      let buffer ← writeToken buffer cursor token.id
      let next := { seq with
        tokenBuffer := buffer
        numTokens := numTokens
        kvState := kvState
        curGeneratedTokenIdx := cursor + 1
        finishStatusInvalidated := true }
      .ok (next.recordToken cursor token)
  else .error .overlapDisabled

def isFinished : Except Check (Bool × GeneratingSequence) :=
  if seq.finishStatusInvalidated = false then .ok (seq.finished, seq)
  else do
    let reason ← seq.stoppingChecker.check seq.tokens seq.numPromptTokens
    if reason = .none then .ok (false, { seq with finishStatusInvalidated := false })
    else .ok (true, { seq with
      finishStatusInvalidated := false
      finishReason := reason
      finished := true })

/-- The buffer starts with the tokens `valid`, up to the cursor, and the fake tokens
`fakes`, up to `num_tokens_`. -/
structure Stream (valid fakes : List Token) : Prop where
  buffer : ∃ rest, seq.tokenBuffer = valid ++ (fakes ++ rest)
  cursor : seq.curGeneratedTokenIdx = valid.length
  count : seq.numTokens = valid.length + fakes.length
  negative : ∀ t ∈ fakes, t < 0

/-- Everything that receiving tokens leaves as it is. -/
structure SameSetup (before after : GeneratingSequence) : Prop where
  checker : after.stoppingChecker = before.stoppingChecker
  overlap : after.enableScheduleOverlap = before.enableScheduleOverlap
  capacity : after.tokenBuffer.length = before.tokenBuffer.length
  prompt : after.numPromptTokens = before.numPromptTokens
  logprobs : after.logprobs = before.logprobs
  topLogprobs : after.topLogprobs = before.topLogprobs
  unique : after.needUniqueTokens = before.needUniqueTokens

/-- The flags that receiving tokens leaves as they are. -/
structure SameFlags (before after : GeneratingSequence) : Prop where
  finished : after.finished = before.finished
  cancelled : after.cancelled = before.cancelled
  queue : after.preScheduledStepPrefillQueue = before.preScheduledStepPrefillQueue

/-- The token counts and log probabilities of two sequences agree. -/
def SameRecord (a b : GeneratingSequence) : Prop :=
  a.tokenToCountMap = b.tokenToCountMap ∧ a.logprobState = b.logprobState

variable {seq} {valid fakes : List Token} {token : SampledToken}

theorem Stream.tokens (h : seq.Stream valid fakes) : seq.tokens = valid ++ fakes := by
  obtain ⟨rest, hbuffer⟩ := h.buffer
  rw [Sequence.tokens, hbuffer, h.count, ← append_assoc, take_left' (by simp)]

theorem Stream.take_cursor (h : seq.Stream valid fakes) :
    seq.tokenBuffer.take seq.curGeneratedTokenIdx = valid := by
  obtain ⟨rest, hbuffer⟩ := h.buffer
  rw [hbuffer, h.cursor, take_left' rfl]

theorem Stream.room (h : seq.Stream valid fakes) : seq.numTokens ≤ seq.tokenBuffer.length := by
  obtain ⟨rest, hbuffer⟩ := h.buffer
  rw [hbuffer, h.count, length_append, length_append]
  omega

@[simp] theorem writeToken_append (before after : List Token) (old new : Token) :
    writeToken (before ++ old :: after) before.length new = .ok (before ++ new :: after) := by
  rw [writeToken, if_pos (by simp), set_append_right _ _ (le_refl _), Nat.sub_self,
    set_cons_zero]

@[simp] theorem shiftFakes_append {before after : List Token} {x y z : Token} :
    shiftFakes (before ++ x :: y :: z :: after) before.length =
      .ok (before ++ x :: x :: y :: after) := by
  have hread : ∀ (w : Token), readToken (before ++ x :: y :: w :: after)
    (before.length + 1) = .ok y := by
    intro w
    rw [readToken, getElem?_append_right (by omega), Nat.add_sub_cancel_left]
    rfl
  have hfirst : readToken (before ++ x :: y :: y :: after) before.length = .ok x := by
    rw [readToken, getElem?_append_right (le_refl _), Nat.sub_self]
    rfl
  have hup : writeToken (before ++ x :: y :: z :: after) (before.length + 2) y =
      .ok (before ++ x :: y :: y :: after) := by
    have := writeToken_append (before ++ [x, y]) after z y
    simpa using this
  have hover : writeToken (before ++ x :: y :: y :: after) (before.length + 1) x =
      .ok (before ++ x :: x :: y :: after) := by
    have := writeToken_append (before ++ [x]) (y :: after) y x
    simpa using this
  rw [shiftFakes, hread]
  change (writeToken _ _ y >>= _) = _
  rw [hup]
  change (readToken _ _ >>= _) = _
  rw [hfirst]
  exact hover

theorem appendToken_fake (h : seq.Stream valid fakes) (overlap : seq.enableScheduleOverlap = true)
    (fake : token.id < 0) (room : seq.numTokens < seq.tokenBuffer.length) :
    Ensures (seq.appendToken token) (fun e => e = .appendToken) (fun after =>
      after.Stream valid (fakes ++ [token.id]) ∧ SameSetup seq after ∧ SameFlags seq after ∧
        SameRecord seq after ∧ after.finishStatusInvalidated = true ∧ seq.finished = false) := by
  obtain ⟨rest, hbuffer⟩ := h.buffer
  obtain ⟨old, rest, rfl⟩ : ∃ old rest', rest = old :: rest' := by
    refine exists_cons_of_ne_nil ?_
    rintro rfl
    rw [hbuffer, h.count] at room
    simp at room
  rw [appendToken, if_pos room]
  refine Ensures.bind (Q := fun base => seq.finished = false ∧ base = { seq.toSequence with
    numTokens := seq.numTokens + 1
    kvState := seq.kvState.setKvCacheTokensNum seq.numTokens
    tokenBuffer := seq.tokenBuffer.set seq.numTokens token.id }) ?_ ?_
  · rw [Sequence.appendToken]
    split
    · rename_i hchecks
      exact ⟨hchecks.2.1, rfl⟩
    · exact rfl
  rintro _ ⟨hunfinished, rfl⟩
  rw [if_pos ⟨overlap, fake⟩]
  have hset : seq.tokenBuffer.set seq.numTokens token.id =
      valid ++ ((fakes ++ [token.id]) ++ rest) := by
    rw [hbuffer, h.count]
    simp
  refine ⟨⟨⟨rest, hset⟩, h.cursor, ?_, ?_⟩, ⟨rfl, rfl, ?_, rfl, rfl, rfl, rfl⟩, ⟨rfl, rfl, rfl⟩,
    ⟨rfl, rfl⟩, rfl, hunfinished⟩
  · simp [h.count, Nat.add_assoc]
  · intro t ht
    obtain ht | ht := List.mem_append.mp ht
    · exact h.negative t ht
    · rw [List.mem_singleton.mp ht]
      exact fake
  · exact List.length_set

/-- What a real token that takes effect does to the sequence. -/
structure Received (before after : GeneratingSequence) (valid fakes : List Token)
    (token : SampledToken) : Prop where
  stream : after.Stream (valid ++ [token.id]) fakes
  setup : SameSetup before after
  flags : SameFlags before after
  record : SameRecord (before.recordToken valid.length token) after
  invalidated : after.finishStatusInvalidated = true

theorem updateLastStepToken_first {fake : Token} (h : seq.Stream valid (fake :: fakes))
    (overlap : seq.enableScheduleOverlap = true) :
    Yields (seq.updateLastStepToken token 0) (fun after =>
      Received seq after valid fakes token) := by
  obtain ⟨rest, hbuffer⟩ := h.buffer
  rw [updateLastStepToken, if_pos overlap]
  have hwrite : writeToken seq.tokenBuffer seq.curGeneratedTokenIdx token.id =
      .ok (valid ++ token.id :: (fakes ++ rest)) := by
    rw [hbuffer, h.cursor]
    exact writeToken_append _ _ _ _
  change Ensures (writeToken seq.tokenBuffer seq.curGeneratedTokenIdx token.id >>= _) _ _
  rw [hwrite]
  refine ⟨⟨⟨rest, by simp [recordToken]⟩, ?_, ?_, fun t ht => h.negative t (mem_cons_of_mem _ ht)⟩,
    ⟨rfl, rfl, ?_, rfl, rfl, rfl, rfl⟩, ⟨rfl, rfl, rfl⟩, ?_, rfl⟩
  · simp [recordToken, h.cursor]
  · simp only [recordToken, h.count, length_append, length_cons, length_nil]
    omega
  · simp [recordToken, hbuffer]
  · rw [← h.cursor]
    exact ⟨rfl, rfl⟩

theorem exists_append_of_length_le_two {rest after : List Token} {x y z : Token}
    (few : fakes.length ≤ 2) (h : fakes ++ rest = x :: y :: z :: after) :
    ∃ rest', x :: y :: after = fakes ++ rest' := by
  match fakes with
  | [] => exact ⟨_, rfl⟩
  | [a] =>
      obtain ⟨rfl, -⟩ : a = x ∧ _ := by simpa using h
      exact ⟨_, rfl⟩
  | [a, b] =>
      obtain ⟨rfl, rfl, -⟩ : a = x ∧ b = y ∧ _ := by simpa using h
      exact ⟨_, rfl⟩

/-- A further real token of a step goes before the fake tokens, of which there are at
most two; it is dropped when the sequence has lost its blocks. -/
theorem updateLastStepToken_further {offset : Nat} (h : seq.Stream valid fakes)
    (overlap : seq.enableScheduleOverlap = true) (further : 0 < offset)
    (few : fakes.length ≤ 2) (room : valid.length + 2 < seq.tokenBuffer.length) :
    Ensures (seq.updateLastStepToken token offset) (fun e => e = .kvTokensOverCapacity)
      (fun after => if seq.kvState.numKvBlocks = 0 then after = seq
        else Received seq after valid fakes token) := by
  obtain ⟨rest, hbuffer⟩ := h.buffer
  rw [updateLastStepToken, if_pos overlap]
  by_cases hblocks : seq.kvState.numKvBlocks = 0
  · rw [if_pos ⟨further, hblocks⟩]
    simp only [if_pos hblocks]
    exact rfl
  rw [if_neg (fun hdrop => hblocks hdrop.2)]
  simp only [if_pos further]
  obtain ⟨x, y, z, after, hxyz⟩ : ∃ x y z after, fakes ++ rest = x :: y :: z :: after := by
    rw [hbuffer] at room
    match hlist : fakes ++ rest with
    | [] | [_] | [_, _] =>
        rw [hlist] at room
        simp at room
    | x :: y :: z :: after => exact ⟨x, y, z, after, rfl⟩
  obtain ⟨rest', hpre⟩ := exists_append_of_length_le_two few hxyz
  have hshift : shiftFakes seq.tokenBuffer seq.curGeneratedTokenIdx =
      .ok (valid ++ x :: x :: y :: after) := by
    rw [hbuffer, h.cursor, hxyz]
    exact shiftFakes_append
  have hwrite : writeToken (valid ++ x :: x :: y :: after) seq.curGeneratedTokenIdx token.id =
      .ok (valid ++ token.id :: x :: y :: after) := by
    rw [h.cursor]
    exact writeToken_append _ _ _ _
  rw [KVCacheState.incrKvCacheTokensNum]
  split
  swap
  · exact rfl
  rw [hshift]
  change Ensures (writeToken (valid ++ x :: x :: y :: after) seq.curGeneratedTokenIdx
    token.id >>= _) _ _
  rw [hwrite]
  refine ⟨⟨⟨rest', by simp [recordToken, hpre]⟩, ?_, ?_, h.negative⟩,
    ⟨rfl, rfl, ?_, rfl, rfl, rfl, rfl⟩, ⟨rfl, rfl, rfl⟩, ?_, rfl⟩
  · simp [recordToken, h.cursor]
  · simp only [recordToken, h.count, length_append, length_cons, length_nil]
    omega
  · simp [recordToken, hbuffer, hxyz]
  · rw [← h.cursor]
    exact ⟨rfl, rfl⟩

theorem appendToken_plain (token : SampledToken) {rest : List Token}
    (hbuffer : seq.tokenBuffer = valid ++ rest)
    (hcount : seq.numTokens = valid.length) (room : valid.length < seq.tokenBuffer.length)
    (overlap : seq.enableScheduleOverlap = false) (unfinished : seq.finished = false)
    (computed : 0 < seq.kvState.kvCacheTokensNum) (decoding : seq.stage ≠ .chunkedPrefill) :
    ∃ base rest', seq.appendToken token = .ok (({ seq with
        toSequence := base, finishStatusInvalidated := true } : GeneratingSequence).recordToken
          valid.length token) ∧
      base = { seq.toSequence with
        numTokens := valid.length + 1
        kvState := seq.kvState.setKvCacheTokensNum valid.length
        tokenBuffer := (valid ++ [token.id]) ++ rest' } ∧
      base.tokenBuffer.length = seq.tokenBuffer.length := by
  obtain ⟨old, rest', rfl⟩ : ∃ old rest', rest = old :: rest' := by
    refine exists_cons_of_ne_nil ?_
    rintro rfl
    rw [hbuffer] at room
    simp at room
  have hset : seq.tokenBuffer.set seq.numTokens token.id = (valid ++ [token.id]) ++ rest' := by
    rw [hbuffer, hcount]
    simp
  refine ⟨_, rest', ?_, rfl, by rw [← hset, List.length_set]⟩
  rw [appendToken, if_pos (by omega), Sequence.appendToken,
    if_pos ⟨by omega, unfinished, computed, decoding⟩, hset, hcount]
  change (if _ then _ else _) = _
  rw [if_neg (fun hfake => by rw [overlap] at hfake; exact absurd hfake.1 (by decide))]

structure FinishCached (seq : GeneratingSequence) : Prop where
  fresh : seq.finishStatusInvalidated = false → seq.finished = false →
    seq.stoppingChecker.check seq.tokens seq.numPromptTokens = .ok .none
  settled : seq.finished = true → seq.finishStatusInvalidated = false

def answered (seq : GeneratingSequence) (answer : Bool) (reason : FinishReason) :
    GeneratingSequence :=
  { seq with finishStatusInvalidated := false, finishReason := reason, finished := answer }

/-- `finished` returns on real tokens followed by fake ones. It changes nothing but
the cached answer, and a sequence that goes on has generated less than allowed. -/
theorem isFinished_of_tokens {last : Token} (htokens : seq.tokens = valid ++ last :: fakes)
    (negative : ∀ t ∈ fakes, t < 0) (real : ¬last < 0)
    (hprompt : seq.numPromptTokens ≤ valid.length + 1)
    (readable : seq.stoppingChecker.Readable) (cached : seq.FinishCached)
    (limit : 0 < seq.stoppingChecker.maxGeneratedTokens) : Yields seq.isFinished (fun r =>
      (∃ reason, r.2 = seq.answered r.1 reason) ∧ r.2.FinishCached ∧
      (r.1 = false → seq.finished = false ∧ valid.length + 1 - seq.numPromptTokens <
        seq.stoppingChecker.maxGeneratedTokens)) := by
  have hcheck := StoppingChecker.check_ensures readable real negative hprompt
  rw [← htokens] at hcheck
  rw [isFinished]
  split
  · rename_i hvalid
    refine ⟨⟨seq.finishReason, ?_⟩, cached, fun hgoes => ?_⟩
    · rw [answered, ← hvalid]
    · exact ⟨hgoes, hcheck.of_ok (cached.fresh hvalid hgoes) rfl limit⟩
  rename_i hinvalid
  have hunfinished : seq.finished = false := by
    refine Bool.eq_false_iff.mpr fun hfinished => hinvalid ?_
    exact cached.settled hfinished
  cases hreason : seq.stoppingChecker.check seq.tokens seq.numPromptTokens with
  | error e =>
      rw [hreason] at hcheck
      exact hcheck.elim
  | ok reason =>
      change Ensures (if _ then _ else _) _ _
      split
      · rename_i hnone
        subst hnone
        refine ⟨⟨seq.finishReason, ?_⟩, ⟨fun _ _ => hreason, fun _ => rfl⟩, fun _ => ?_⟩
        · rw [answered, ← hunfinished]
        · exact ⟨hunfinished, hcheck.of_ok hreason rfl limit⟩
      · exact ⟨⟨reason, rfl⟩, ⟨fun _ h => (nomatch h), fun _ => rfl⟩, fun h => (nomatch h)⟩

theorem isFinished_ensures {last : Token} (h : seq.Stream (valid ++ [last]) fakes)
    (real : ¬last < 0) (hprompt : seq.numPromptTokens ≤ valid.length + 1)
    (readable : seq.stoppingChecker.Readable) (cached : seq.FinishCached)
    (limit : 0 < seq.stoppingChecker.maxGeneratedTokens) : Yields seq.isFinished (fun r =>
      (∃ reason, r.2 = seq.answered r.1 reason) ∧ r.2.FinishCached ∧
      (r.1 = false → seq.finished = false ∧ valid.length + 1 - seq.numPromptTokens <
        seq.stoppingChecker.maxGeneratedTokens)) := by
  have htokens : seq.tokens = valid ++ last :: fakes := by
    rw [h.tokens, append_assoc, singleton_append]
  exact isFinished_of_tokens htokens h.negative real hprompt readable cached limit

end GeneratingSequence

end Xllm
