import Mathlib.Algebra.Order.BigOperators.Group.List
import Xllm.Scheduler.Calls
import Xllm.Scheduler.PlainCache
import Xllm.Scheduler.PoolWorld

/-!
# The calls of `allocate_blocks_for`

`allocate_blocks_for` insists on a token budget that is greater than the reserve for
speculative tokens, and on tokens that are left to handle after the prefix cache has been
matched. The second check never fails, since every match leaves a token. The first one is
left to the callers. They ask for a budget before the first sequence of a request, and the
further sequences of the request get what this one leaves, which may be nothing.
-/

namespace Xllm

open Contract List Function

inductive ChunkPass where
  | running (side : Side)
  | prompts (side : Side)
  | remaining

namespace SchedulerState

open ServingWorld
open Sequence (subSize)

section Definitions

variable {W : Type} [ServingWorld W] (options : SchedulerOptions)

/-- The first part of `ChunkedPrefillScheduler::prepare_batch`. -/
def startChunked (s : SchedulerState W) : Except Check (SchedulerState W) := do
  let s ← s.readRequestQueue options
  let s ← s.handleFinishedRequests
  let s ← s.requeueAll options s.runningRequests.reverse false
  .ok (s.clearBatch options.maxGlobalTpotMs (s.chunkTokenBudget options) options.maxSeqsPerBatch)

def TokensRemain (s : SchedulerState W) : Prop :=
  0 < s.remainingTokenBudget ∧ s.estimateLatency < s.latencyBudget

/-- The states of a call of `prepare_batch` in which one of its loops begins. -/
inductive Begins (rounds : Nat) (s : SchedulerState W) : ChunkPass → SchedulerState W → Prop
  | runningOnline {b : SchedulerState W} (started : s.startChunked options = .ok b) :
      Begins rounds s (.running .online) b
  | promptsOnline {b c : SchedulerState W} (before : Begins rounds s (.running .online) b)
      (ran : b.handleRunningQueueRequests options rounds .online = .ok c) :
      Begins rounds s (.prompts .online) c
  | runningOffline {b c : SchedulerState W} (before : Begins rounds s (.prompts .online) b)
      (ran : b.handleNewPrompts options rounds .online = .ok c)
      (tokens : 0 < c.remainingTokenBudget) : Begins rounds s (.running .offline) c
  | promptsOffline {b c : SchedulerState W} (before : Begins rounds s (.running .offline) b)
      (ran : b.handleRunningQueueRequests options rounds .offline = .ok c) :
      Begins rounds s (.prompts .offline) c
  | promptsNext {b c : SchedulerState W} (before : Begins rounds s (.prompts .online) b)
      (ran : b.handleNewPrompts options rounds .online = .ok c)
      (tokens : c.remainingTokenBudget = 0) : Begins rounds s (.prompts .offline) c
  | remaining {b c : SchedulerState W} (before : Begins rounds s (.prompts .offline) b)
      (ran : b.handleNewPrompts options rounds .offline = .ok c) (remain : c.TokensRemain) :
      Begins rounds s .remaining c

/-- The state in which the loop of `handle_prefill_requests` begins. -/
def openPrompts (s : SchedulerState W) : SchedulerState W :=
  if s.runningSequences = [] then { s with latencyBudget := 2 ^ 31 - 1 } else s

/-- What is left of the token budget for the next sequence of a request. -/
def tokensLeft (s : SchedulerState W) (grant : Grant) : Nat :=
  subSize s.remainingTokenBudget grant.allocatedTokens

def runningBudget (s : SchedulerState W) (grant : Grant) : Nat :=
  min options.maxTokensPerChunkForPrefill (s.tokensLeft grant)

def promptBudget (s : SchedulerState W) (q : SequenceId) (grant : Grant) : Nat :=
  min (s.runningBudget options grant) (numTokens s.world q)

/-- The checks of `handle_running_queue_requests` before it asks for blocks. -/
def RunningWithin (s : SchedulerState W) (q : SequenceId) (grant : Grant) : Prop :=
  let tokens := runningTokens options s.world q (s.runningBudget options grant)
  let kvTokens := kvCacheTokensNum s.world q
  let latency := latencyIf options.enableLatencyAwareSchedule
    (predictStepTimeOf s.world (tokens + kvTokens) kvTokens)
  ¬(s.remainingSeqBudget < grant.allocatedSeqs + 1 ∨
      s.remainingTokenBudget < grant.allocatedTokens + tokens) ∧
    ¬(options.enableLatencyAwareSchedule = true ∧
      s.latencyBudget < s.estimateLatency + grant.allocatedEstimateLatency + latency)

/-- The checks of `handle_prefill_requests` before it asks for blocks. -/
def PromptWithin (s : SchedulerState W) (q : SequenceId) (grant : Grant) : Prop :=
  let tokens := s.promptBudget options q grant
  let kvTokens := kvCacheTokensNum s.world q
  let latency := latencyIf options.enableLatencyAwareSchedule
    (predictStepTimeOf s.world (tokens + kvTokens) kvTokens).floor
  ¬(s.remainingTokenBudget < grant.allocatedTokens + tokens ∨
      s.remainingSeqBudget < grant.allocatedSeqs + 1) ∧
    ¬(options.enableLatencyAwareSchedule = true ∧
      s.latencyBudget < s.estimateLatency + grant.allocatedEstimateLatency + latency)

instance (s : SchedulerState W) (q : SequenceId) (grant : Grant) :
    Decidable (s.PromptWithin options q grant) := inferInstanceAs (Decidable (_ ∧ _))

inductive VisitsRunning (rounds : Nat) (s : SchedulerState W) (side : Side) (q : SequenceId)
    (grant : Grant) (u : SchedulerState W) : Prop
  | of {b t : SchedulerState W} {request : RequestId} {rest : List RequestId}
      (begins : Begins options rounds s (.running side) b)
      (round : Rounds (fun s => s.runningGoesOn options side)
        (fun s => s.runningRound options side) b t)
      (goesOn : t.runningGoesOn options side = true)
      (first : t.running.get side = request :: rest)
      (granting : Granting (grantRunning options) (sequences t.world request) {} t q grant u)

/-- A sequence of a waiting request, as the loop comes to it. -/
inductive VisitsPrompt (rounds : Nat) (s : SchedulerState W) (side : Side) (q : SequenceId)
    (grant : Grant) (u : SchedulerState W) : Prop
  | of {b t : SchedulerState W} {request : RequestId} {rest : List RequestId}
      (begins : Begins options rounds s (.prompts side) b)
      (enough : b.budgetExhausted = false ∧ b.blocksExhausted = false)
      (round : Rounds (fun s => s.prefillGoesOn side) (fun s => s.chunkRound options side)
        b.openPrompts t)
      (goesOn : t.prefillGoesOn side = true)
      (first : t.waiting.get side = request :: rest)
      (active : requestFinished t.world request = false ∧ requestCancelled t.world request = false)
      (single : requestPreempted t.world request = true ∨ (sequences t.world request).length = 1)
      (granting : Granting (grantChunk options request) (sequences t.world request) {} t q grant u)

/-- The latency check of `handle_remaining_budget`. -/
def RemainingWithin (s : SchedulerState W) (q : SequenceId) (budget : Nat) : Prop :=
  let latency := predictStepTimeOf s.world (s.remainingTokenBudget + budget)
    (kvCacheTokensNum s.world q)
  ¬(options.enableLatencyAwareSchedule = true ∧
    s.latencyBudget < s.estimateLatency - predictStepTime s.world q + latency)

/-- A sequence gives back its tokens before it asks for blocks again. -/
def giveBack (s : SchedulerState W) (q : SequenceId) (budget : Nat) : SchedulerState W :=
  let remaining := s.remainingTokenBudget + budget
  let latency := predictStepTimeOf s.world remaining (kvCacheTokensNum s.world q)
  { s with
    remainingTokenBudget := remaining
    estimateLatency := if options.enableLatencyAwareSchedule then
      s.estimateLatency - predictStepTime s.world q + latency else s.estimateLatency }

/-- The calls of `handle_remaining_budget`, with the tokens that are passed. -/
inductive RemainingCall : List (SequenceId × Nat) → List (SequenceId × Nat) → List SequenceId →
    SchedulerState W → SequenceId → Nat → SchedulerState W → Prop
  | here {done rest : List (SequenceId × Nat)} {prefill : List SequenceId}
      {s : SchedulerState W} {q : SequenceId} {budget : Nat}
      (within : s.RemainingWithin options q budget) :
      RemainingCall done ((q, budget) :: rest) (q :: prefill) s q (s.remainingTokenBudget + budget)
        (s.giveBack options q budget)
  | skipped {done rest : List (SequenceId × Nat)} {prefill : List SequenceId}
      {s u : SchedulerState W} {q q' first : SequenceId} {budget left : Nat}
      (other : first ≠ q)
      (later : RemainingCall (done ++ [(q, budget)]) rest (first :: prefill) s q' left u) :
      RemainingCall done ((q, budget) :: rest) (first :: prefill) s q' left u
  | granted {done rest : List (SequenceId × Nat)} {prefill : List SequenceId}
      {s t u : SchedulerState W} {q q' : SequenceId} {budget handled left : Nat}
      (within : s.RemainingWithin options q budget)
      (ran : (s.giveBack options q budget).allocateBlocksFor options q
        (s.remainingTokenBudget + budget) = .ok (true, handled, t))
      (goesOn : handled < s.remainingTokenBudget + budget)
      (later : RemainingCall (done ++ [(q, handled)]) rest prefill
        { t with remainingTokenBudget := s.remainingTokenBudget + budget - handled } q' left u) :
      RemainingCall done ((q, budget) :: rest) (q :: prefill) s q' left u

/-- The calls of `allocate_blocks_for` in a call of `prepare_batch`: the loop that makes it,
the sequence, what is left of the token budget for it, and the state. -/
inductive BlocksCall (rounds : Nat) (s : SchedulerState W) :
    ChunkPass → SequenceId → Nat → SchedulerState W → Prop
  | running {side : Side} {q : SequenceId} {grant : Grant} {u : SchedulerState W}
      (visits : VisitsRunning options rounds s side q grant u)
      (within : u.RunningWithin options q grant) :
      BlocksCall rounds s (.running side) q (u.tokensLeft grant) u
  | prompt {side : Side} {q : SequenceId} {grant : Grant} {u : SchedulerState W}
      (visits : VisitsPrompt options rounds s side q grant u)
      (within : u.PromptWithin options q grant) :
      BlocksCall rounds s (.prompts side) q (u.tokensLeft grant) u
  | remaining {q : SequenceId} {left : Nat} {b u : SchedulerState W}
      (begins : Begins options rounds s .remaining b)
      (call : RemainingCall options [] b.runningSequences b.prefillStageSequences b q left u) :
      BlocksCall rounds s .remaining q left u

def passedBudget (w : W) (q : SequenceId) (left : Nat) : ChunkPass → Nat
  | .running _ => min options.maxTokensPerChunkForPrefill left
  | .prompts _ => min (min options.maxTokensPerChunkForPrefill left) (numTokens w q)
  | .remaining => left

/-- Both checks of `allocate_blocks_for` hold. -/
def ChecksHold (s : SchedulerState W) (q : SequenceId) (tokenBudget : Nat) : Prop :=
  options.minSpeculativeTokensRequired < tokenBudget ∧
    ∀ t, s.allocateSharedBlocksFor options q = .ok t →
      kvCacheTokens t.world q < maxHandleNumTokens options t.world q tokenBudget

end Definitions

section Code

variable {W : Type} [ServingWorld W] {options : SchedulerOptions} {s : SchedulerState W}
variable {q : SequenceId} {grant : Grant}

theorem prepareBatchChunked_eq (rounds : Nat) (s : SchedulerState W) :
    s.prepareBatchChunked options rounds = (do
      let s ← s.startChunked options
      let s ← s.handleRunningQueueRequests options rounds .online
      let s ← s.handleNewPrompts options rounds .online
      let s ← if 0 < s.remainingTokenBudget then
          s.handleRunningQueueRequests options rounds .offline
        else .ok s
      let s ← s.handleNewPrompts options rounds .offline
      let s ← if 0 < s.remainingTokenBudget ∧ s.estimateLatency < s.latencyBudget then
          s.handleRemainingBudget options
        else .ok s
      .ok s.answerFinished) := by
  simp only [prepareBatchChunked, startChunked, bind_assoc, ok_bind]

end Code

section Invariant

variable {W : Type} {options : SchedulerOptions} {s : SchedulerState W}

theorem Upheld.openPrompts (h : s.Upheld T) : s.openPrompts.Upheld T := by
  unfold SchedulerState.openPrompts
  split
  · exact ⟨h.world, h.prefillStage, h.waiting, h.running, h.ample⟩
  · exact h

variable [ServingWorld W]

variable {T : Terms W} {rounds : Nat}

/-- The terms hold when a batch is to be prepared. -/
structure Starts (options : SchedulerOptions) (T : Terms W) (s : SchedulerState W) : Prop where
  gathers : Gathers options T T.batch s.requestQueue.length s
  fresh : ∀ r ∈ s.requestQueue, T.waiting r ∧ (StaysNew s.world r ∨ T.batch r)
  budget : T.ample → options.enableProfileTokenBudget = false

theorem Begins.tokens_pos {b : SchedulerState W} (begins : Begins options rounds s .remaining b) :
    0 < b.remainingTokenBudget := by
  cases begins with
  | remaining before ran remain => exact remain.1

/-- A sequence of `request` is reached in the state `u`; the first one has been reached
in `t`. -/
structure Visited (T : Terms W) (t : SchedulerState W) (request : RequestId) (q : SequenceId)
    (grant : Grant) (u : SchedulerState W) : Prop where
  waiting : T.waiting request
  world : T.world t.world
  granted : ∃ rest, Granted T t (q :: rest) grant u
  active : sequenceFinished u.world q = false
  tokens : 0 < t.remainingTokenBudget
  share : T.ample → T.share < t.remainingTokenBudget
  first : grant = {} ∨ ∃ q', [q', q].Sublist (sequences t.world request) ∧ T.sequence q'

variable {q : SequenceId}

/-- Something is left for a sequence, when the budget is enough for all sequences or there is
no sequence before it. -/
theorem Visited.tokensLeft_pos {t u : SchedulerState W} {request : RequestId} {grant : Grant}
    (h : Visited T t request q grant u)
    (enough : T.ample ∨ ∀ q', [q', q].Sublist (sequences t.world request) → ¬T.sequence q') :
    0 < u.tokensLeft grant := by
  obtain ⟨rest, granted⟩ := h.granted
  have less : grant.allocatedTokens < u.remainingTokenBudget := by
    rw [granted.waits.tokens]
    rcases enough with ample | alone
    · exact ((Nat.le_add_right _ _).trans (granted.tokens ample)).trans_lt (h.share ample)
    · rcases h.first with rfl | ⟨q', sub, hq'⟩
      · exact h.tokens
      · exact absurd hq' (alone q' sub)
  rw [tokensLeft, subSize, if_pos less.le]
  exact Nat.sub_pos_of_lt less

variable (serves : Serves options T)
include serves

/-- The chunked scheduler starts a call with the whole budget. -/
theorem upheld_startChunked (h : s.Starts options T) :
    IfOk (s.startChunked options) (Upheld T) := by
  apply (gathers_readRequestQueue serves h.gathers h.fresh).bind
  intro t ht
  apply (gathers_handleFinishedRequests serves ht).bind
  intro u hu
  apply (gathers_requeueAll serves hu (reverse_perm _) false).bind
  intro v hv
  apply hv.clearBatch
  intro ample
  rw [chunkTokenBudget, if_neg (by simp [h.budget ample])]

theorem world_prepareBatchChunked (h : s.Starts options T) :
    IfOk (s.prepareBatchChunked options rounds) (fun t => T.world t.world) := by
  have last : ∀ t : SchedulerState W, t.Upheld T → IfOk (do
      let s ← t.handleNewPrompts options rounds .offline
      let s ← if 0 < s.remainingTokenBudget ∧ s.estimateLatency < s.latencyBudget then
          s.handleRemainingBudget options
        else .ok s
      .ok s.answerFinished : Except Check (SchedulerState W))
      (fun t => T.world t.world) := by
    intro t ht
    apply (upheld_handleNewPrompts serves ht rounds).bind
    intro u hu
    split
    · exact (world_grantRemaining serves [] _ _ hu.world).bind fun v hv => hv
    · exact hu.world
  rw [prepareBatchChunked_eq]
  apply (upheld_startChunked serves h).bind
  intro a ha
  apply (upheld_handleRunningQueueRequests serves ha rounds).bind
  intro b hb
  apply (upheld_handleNewPrompts serves hb rounds).bind
  intro c hc
  split
  · exact (upheld_handleRunningQueueRequests serves hc rounds).bind last
  · exact last c hc

theorem Begins.upheld {pass : ChunkPass} {b : SchedulerState W}
    (begins : Begins options rounds s pass b) (h : s.Starts options T) : b.Upheld T := by
  induction begins with
  | runningOnline started => exact (upheld_startChunked serves h).of_ok started
  | promptsOnline before ran ih =>
      exact (upheld_handleRunningQueueRequests serves ih rounds).of_ok ran
  | runningOffline before ran tokens ih =>
      exact (upheld_handleNewPrompts serves ih rounds).of_ok ran
  | promptsOffline before ran ih =>
      exact (upheld_handleRunningQueueRequests serves ih rounds).of_ok ran
  | promptsNext before ran tokens ih =>
      exact (upheld_handleNewPrompts serves ih rounds).of_ok ran
  | remaining before ran remain ih =>
      exact (upheld_handleNewPrompts serves ih rounds).of_ok ran

theorem VisitsRunning.visited {side : Side} {grant : Grant} {u : SchedulerState W}
    (visits : VisitsRunning options rounds s side q grant u) (h : s.Starts options T) :
    ∃ t request, Visited T t request q grant u := by
  obtain ⟨begins, round, goesOn, first, granting⟩ := visits
  have upheld := round.invariant (fun t ht _ => upheld_runningRound serves ht)
    (begins.upheld serves h)
  have waiting := serves.preempted _ (upheld.running side _ (first ▸ mem_cons_self))
  obtain ⟨granted, active, before⟩ := granting.granted_of serves
    (fun _ _ _ _ => granted_grantRunning serves) (upheld.granted serves waiting)
  have tokens := (of_decide_eq_true goesOn).2.1
  exact ⟨_, _, waiting, upheld.world, granted, active, Nat.zero_lt_of_lt tokens,
    share_lt_of_entries upheld (entries_pos_of_running (first ▸ cons_ne_nil _ _)), before⟩

theorem VisitsPrompt.visited {side : Side} {grant : Grant} {u : SchedulerState W}
    (visits : VisitsPrompt options rounds s side q grant u) (h : s.Starts options T) :
    ∃ t request, Visited T t request q grant u := by
  obtain ⟨begins, -, round, goesOn, first, -, -, granting⟩ := visits
  have upheld := round.invariant (fun t ht _ => upheld_chunkRound serves ht)
    (begins.upheld serves h).openPrompts
  have waiting := upheld.waiting side _ (first ▸ mem_cons_self)
  obtain ⟨granted, active, before⟩ := granting.granted_of serves
    (fun _ _ _ _ => granted_grantChunk serves) (upheld.granted serves waiting)
  have tokens := (of_decide_eq_true goesOn).2.2.1
  exact ⟨_, _, waiting, upheld.world, granted, active, tokens,
    share_lt_of_entries upheld (entries_pos_of_waiting (first ▸ cons_ne_nil _ _)), before⟩

theorem RemainingCall.world {done rest : List (SequenceId × Nat)} {prefill : List SequenceId}
    {b u : SchedulerState W} {left : Nat}
    (call : RemainingCall options done rest prefill b q left u) (h : T.world b.world)
    (hprefill : ∀ q ∈ prefill, T.sequence q) (tokens : 0 < b.remainingTokenBudget) :
    T.world u.world ∧ T.sequence q ∧ 0 < left := by
  induction call with
  | here within => exact ⟨h, hprefill _ mem_cons_self, Nat.add_pos_left tokens _⟩
  | skipped other later ih => exact ih h hprefill tokens
  | @granted done rest prefill s t u q q' budget handled left within ran goesOn later ih =>
      have given : T.world (s.giveBack options q budget).world := h
      obtain ⟨⟨w, hw, ht⟩, -⟩ := (inWorld_allocateBlocksFor serves given _ _).of_ok ran
      have world : T.world t.world := by
        rw [show t = _ from ht]
        exact hw
      exact ih world (fun q hq => hprefill q (mem_cons_of_mem _ hq))
        (Nat.sub_pos_of_lt goesOn)

end Invariant

end SchedulerState

namespace PoolWorld

open ServingWorld

variable {W : Type} {w w' start : PoolWorld W}

/-- Every sequence that has not finished has tokens that are not in the cache. -/
def AllLive (w : PoolWorld W) : Prop :=
  ∀ q, (w.sequence q).finished = false → (w.sequence q).Live

/-- What engine and callers do between two calls of a scheduler: every sequence comes from
one that there has been, beams and new sequences from that of another. The blocks and the
requests may change in any way. -/
def EngineStep (w w' : PoolWorld W) : Prop :=
  ∀ q, ∃ r, Relation.ReflTransGen Sequence.EngineEvent (w.sequence r) (w'.sequence q)

/-- The calls of a scheduler leave the tokens of `start` alone, and no request gets more
sequences than it asks for. -/
structure LiveWith (start w : PoolWorld W) : Prop where
  live : w.AllLive
  finished_eq : ∀ q, (w.sequence q).finished = (start.sequence q).finished
  numTokens_eq : ∀ q, (w.sequence q).numTokens = (start.sequence q).numTokens
  bestOf_eq : ∀ r, (w.group r).bestOf = (start.group r).bestOf
  numSequences_le : ∀ r, (w.group r).numSequences ≤
    max (start.group r).numSequences (start.group r).bestOf

theorem EngineStep.allLive (h : w.EngineStep w') (live : w.AllLive) : w'.AllLive := by
  have along : ∀ {a b : Sequence}, Relation.ReflTransGen Sequence.EngineEvent a b →
      (a.finished = false → a.Live) → b.finished = false → b.Live := by
    intro a b events ha
    induction events with
    | refl => exact ha
    | tail before event ih => exact fun hb => event.live (ih (event.unfinished hb))
  intro q
  obtain ⟨r, events⟩ := h q
  exact along events (live r)

theorem LiveWith.refl (live : w.AllLive) : LiveWith w w :=
  ⟨live, fun _ => rfl, fun _ => rfl, fun _ => rfl, fun _ => Nat.le_max_left _ _⟩

theorem LiveWith.chooseRank (h : LiveWith start w) (q : SequenceId) :
    LiveWith start (w.chooseRank q) := by
  unfold PoolWorld.chooseRank
  split
  · exact ⟨h.live, h.finished_eq, h.numTokens_eq, h.bestOf_eq, h.numSequences_le⟩
  · exact h

theorem LiveWith.put {q : SequenceId} {p : Serving} (h : LiveWith start w)
    (same : Sequence.SameTokens (w.sequence q) p.sequence) : LiveWith start (w.put q p) := by
  have each (r : SequenceId) : Sequence.SameTokens (w.sequence r) ((w.put q p).sequence r) := by
    simp only [PoolWorld.put]
    by_cases hr : r = q
    · subst hr
      rw [update_self]
      exact same
    · rw [update_of_ne hr]
      exact .refl
  refine ⟨fun r hr => ?_, fun r => ?_, fun r => ?_, h.bestOf_eq, h.numSequences_le⟩
  · rw [(each r).finished] at hr
    exact (each r).live (h.live r hr)
  · exact (each r).finished.trans (h.finished_eq r)
  · exact (each r).numTokens.trans (h.numTokens_eq r)

theorem LiveWith.setGroup {request : RequestId} {group : SequencesGroup} (h : LiveWith start w)
    (bestOf : group.bestOf = (w.group request).bestOf)
    (numSequences : group.numSequences ≤ max (w.group request).numSequences
      (w.group request).bestOf) :
    LiveWith start { w with toGroupWorld := w.setGroup request group } := by
  refine ⟨h.live, h.finished_eq, h.numTokens_eq, fun r => ?_, fun r => ?_⟩
  · simp only [GroupWorld.setGroup]
    by_cases hr : r = request
    · subst hr
      rw [update_self, bestOf]
      exact h.bestOf_eq r
    · rw [update_of_ne hr]
      exact h.bestOf_eq r
  · simp only [GroupWorld.setGroup]
    by_cases hr : r = request
    · subst hr
      rw [update_self]
      have before := h.numSequences_le r
      rw [h.bestOf_eq r] at numSequences
      exact numSequences.trans (max_le before (Nat.le_max_right _ _))
    · rw [update_of_ne hr]
      exact h.numSequences_le r

theorem LiveWith.serve {q : SequenceId} {f : Serving → Except Check Serving}
    (h : LiveWith start w) (tokened : ∀ p, IfOk (f p) (Serving.Tokened p)) :
    IfOk (w.serve q f) (LiveWith start) := by
  apply (tokened ((w.chooseRank q).view q)).bind
  intro p hp
  exact (h.chooseRank q).put hp

variable [ServingWorld W] [XXH3]

theorem calls_keep_liveWith (options : SchedulerOptions) :
    CallsKeep (W := PoolWorld W) options (fun _ _ => True) (LiveWith start) where
  allocate w q numTokens _ h := by
    simp only [ServingWorld.allocate, PoolWorld.allocate]
    split
    · apply (Serving.tokened_allocateHierarchy numTokens).bind
      intro r hr
      have hput := (h.chooseRank q).put hr
      exact ⟨hput.live, hput.finished_eq, hput.numTokens_eq, hput.bestOf_eq, hput.numSequences_le⟩
    · apply (Serving.tokened_allocate numTokens).bind
      intro r hr
      exact (h.chooseRank q).put hr
  deallocate w q h := by
    simp only [ServingWorld.deallocate, PoolWorld.deallocate]
    split
    · apply Serving.tokened_deallocateHierarchy.bind
      intro r hr
      have hput := (h.chooseRank q).put hr
      exact ⟨hput.live, hput.finished_eq, hput.numTokens_eq, hput.bestOf_eq, hput.numSequences_le⟩
    · exact h.serve fun p => Serving.tokened_deallocate
  allocateShared w q h := by
    simp only [ServingWorld.allocateShared, PoolWorld.allocateShared]
    split
    · exact h.serve fun p => Serving.tokened_allocateSharedHierarchy
    · exact h.serve fun p => Serving.tokened_allocateShared
  cache w q h := h.serve fun p => Serving.tokened_cache
  ifCacheBlockForPrefill w q h :=
    ⟨h.live, h.finished_eq, h.numTokens_eq, h.bestOf_eq, h.numSequences_le⟩
  setPreempted w request h := h.setGroup rfl (Nat.le_max_left _ _)
  expandSequences w request sharePrefix h :=
    h.setGroup SequencesGroup.bestOf_expandSequences SequencesGroup.numSequences_expandSequences_le
  updatePrefetchResult w request h := h
  updateConnectionStatus w request h :=
    ⟨h.live, h.finished_eq, h.numTokens_eq, h.bestOf_eq, h.numSequences_le⟩
  asksPrefill := fun _ _ _ => trivial
  asksDecode := fun _ _ _ => trivial
  asksChunk := fun _ _ _ _ => trivial
  asksAgain := fun _ _ _ _ _ _ => trivial

/-! ### Sequences of one request -/

/-- The sequences that a request has or is going to have. -/
def mostSequences (w : PoolWorld W) (request : RequestId) : Nat :=
  max (w.group request).numSequences (w.group request).bestOf

/-- The tokens that a sequence is granted at most before the next one of its request. -/
def seqDemand (options : SchedulerOptions) (w : PoolWorld W) (q : SequenceId) : Nat :=
  if (w.sequence q).finished then 0
  else min options.maxTokensPerChunkForPrefill (w.sequence q).numTokens

def demand (options : SchedulerOptions) (w : PoolWorld W) (request : RequestId) : Nat :=
  ((range (w.mostSequences request)).map fun i =>
    seqDemand options w (Nat.pair request i)).sum

end PoolWorld

namespace SchedulerState

open ServingWorld
open Sequence (subSize)

variable {W : Type} {options : SchedulerOptions}
variable {s u : SchedulerState (PoolWorld W)} {q : SequenceId} {left : Nat} {pass : ChunkPass}

/-- The requests that are new, waiting, running or in the last batch. -/
def requests (s : SchedulerState (PoolWorld W)) : List RequestId :=
  s.requestQueue ++ (s.waiting.online ++ s.waiting.offline ++
    (s.running.online ++ s.running.offline)) ++ s.runningRequests

/-- No request has or gets two sequences that have not finished. -/
def OneEach (s : SchedulerState (PoolWorld W)) : Prop :=
  ∀ r ∈ s.requests, ∀ i < s.world.mostSequences r, ∀ j < s.world.mostSequences r,
    (s.world.sequence (Nat.pair r i)).finished = false →
      (s.world.sequence (Nat.pair r j)).finished = false → i = j

/-- The token budget is greater than what all requests are granted when each of them is
granted `share`. -/
structure BudgetFor (options : SchedulerOptions) (s : SchedulerState (PoolWorld W)) (share : Nat) :
    Prop where
  fixed : options.enableProfileTokenBudget = false
  demand : ∀ r ∈ s.requests, s.world.demand options r ≤ share
  enough : share * s.requests.length < options.maxTokensPerBatch

/-- The scheduler is used without speculative tokens, and no sequence of a request takes the
budget from another one. -/
structure Spaced (options : SchedulerOptions) (s : SchedulerState (PoolWorld W)) : Prop where
  noSpeculation : options.numSpeculativeTokens = 0
  chunk : 0 < options.maxTokensPerChunkForPrefill
  budget : s.OneEach ∨ ∃ share, s.BudgetFor options share

def poolTerms (options : SchedulerOptions) (s : SchedulerState (PoolWorld W)) (ample : Prop)
    (share : Nat) : Terms (PoolWorld W) where
  world := PoolWorld.LiveWith s.world
  sequence := fun q => (s.world.sequence q).finished = false
  waiting := fun r => r ∈ s.requests
  running := fun r => r ∈ s.requests
  ample := ample
  cost := PoolWorld.seqDemand options s.world
  share := share

variable [ServingWorld W] [XXH3]

/-- Between two calls of the scheduler the world changes by what the engine does. -/
def EngineActs (s : SchedulerState (PoolWorld W)) : SchedulerOp (PoolWorld W) → Prop
  | .environment w => s.world.EngineStep w
  | _ => True

variable {T : Terms (PoolWorld W)} {ample : Prop} {share : Nat}

theorem maxHandleNumTokens_sub_le (noSpeculation : options.numSpeculativeTokens = 0)
    (w : PoolWorld W) (q : SequenceId) (tokenBudget : Nat) :
    maxHandleNumTokens options w q tokenBudget - kvCacheTokens w q ≤
      min tokenBudget (numTokens w q) := by
  simp only [maxHandleNumTokens, noSpeculation, Nat.lt_irrefl, false_and, if_false]
  omega

theorem sum_seqDemand_le {w w' : PoolWorld W} (h : PoolWorld.LiveWith w w')
    (request : RequestId) : ((sequences w' request).map (PoolWorld.seqDemand options w)).sum ≤
      w.demand options request := by
  have sub : List.Sublist (range (w'.group request).numSequences)
      (range (w.mostSequences request)) :=
    List.range_sublist.mpr (h.numSequences_le request)
  calc ((sequences w' request).map (PoolWorld.seqDemand options w)).sum
      = ((range (w'.group request).numSequences).map fun i =>
          PoolWorld.seqDemand options w (Nat.pair request i)).sum :=
        congrArg List.sum map_map
    _ ≤ w.demand options request := (sub.map _).sum_le_sum fun _ _ => Nat.zero_le _

theorem serves_poolTerms (noSpeculation : ample → options.numSpeculativeTokens = 0)
    (demand : ample → ∀ r ∈ s.requests, s.world.demand options r ≤ share) :
    Serves options (poolTerms options s ample share) where
  calls := PoolWorld.calls_keep_liveWith options
  unfinished w q h active := (h.finished_eq q).symm.trans active
  preempted _ h := h
  active _ _ _ _ _ h := h
  cost := by
    intro hample w q tokenBudget h active chunk
    apply (maxHandleNumTokens_sub_le (noSpeculation hample) w q tokenBudget).trans
    have tokens : numTokens w q = (s.world.sequence q).numTokens := h.numTokens_eq q
    show _ ≤ PoolWorld.seqDemand options s.world q
    rw [PoolWorld.seqDemand, active, tokens]
    exact min_le_min_right _ chunk
  share hample w r h hr := (sum_seqDemand_le h r).trans (demand hample r hr)

theorem starts_poolTerms (live : s.world.AllLive)
    (budget : ample → options.enableProfileTokenBudget = false ∧
      share * s.requests.length < options.maxTokensPerBatch) :
    s.Starts options (poolTerms options s ample share) where
  gathers := by
    refine ⟨.refl live, fun side r hr => ?_, fun side r hr => ?_, fun r hr => ?_, fun hample => ?_⟩
    · cases side <;> simp_all [poolTerms, requests, Sides.get]
    · cases side <;> simp_all [poolTerms, requests, Sides.get]
    · simp_all [poolTerms, requests]
    · have enough := (budget hample).2
      rw [requests, length_append, length_append, length_append,
        length_append, length_append] at enough
      exact enough
  fresh r hr := by
    have old : r ∈ s.requests := by simp_all [requests]
    exact ⟨old, .inr old⟩
  budget hample := (budget hample).1

theorem checksHold_of_lt {q : SequenceId} {tokenBudget : Nat}
    (h : PoolWorld.LiveWith s.world u.world) (active : (s.world.sequence q).finished = false)
    (enough : options.minSpeculativeTokensRequired < tokenBudget) :
    u.ChecksHold options q tokenBudget := by
  refine ⟨enough, fun t ht => ?_⟩
  have serves : Serves options (poolTerms options s False 0) :=
    serves_poolTerms False.elim False.elim
  obtain ⟨w, hw, rfl⟩ := (inWorld_allocateSharedBlocksFor serves h q).of_ok ht
  have matched : PoolWorld.LiveWith s.world w := hw
  have live := matched.live q ((matched.finished_eq q).trans active)
  have hlt : kvCacheTokens w q < numTokens w q := max_lt live.kv live.host
  apply Nat.lt_add_right
  exact lt_min (Nat.lt_add_of_pos_right (Nat.zero_lt_of_lt enough)) hlt

theorem OneEach.no_earlier (one : s.OneEach) {t : SchedulerState (PoolWorld W)}
    (h : PoolWorld.LiveWith s.world t.world) {request : RequestId} (hrequest : request ∈ s.requests)
    {q q' : SequenceId} (active : (s.world.sequence q).finished = false)
    (sub : [q', q].Sublist (sequences t.world request)) :
    ¬(s.world.sequence q').finished = false := by
  intro active'
  obtain ⟨i, hi, rfl⟩ := List.mem_map.mp (sub.subset mem_cons_self)
  obtain ⟨j, hj, rfl⟩ := List.mem_map.mp (sub.subset (mem_cons_of_mem _ mem_cons_self))
  have most := h.numSequences_le request
  have same : i = j := one request hrequest i ((List.mem_range.mp hi).trans_le most)
    j ((List.mem_range.mp hj).trans_le most) active' active
  have distinct : (sequences t.world request).Nodup :=
    List.nodup_range.map fun a b hab => (Nat.pair_eq_pair.mp hab).2
  exact (List.pairwise_cons.mp (distinct.sublist sub)).1 _ mem_cons_self (same ▸ rfl)

/-- Every sequence that a loop over a request reaches finds tokens in the budget. -/
theorem Spaced.tokensLeft_pos (spaced : Spaced options s) {grant : Grant}
    (live : s.world.AllLive) (visits : ∀ {T : Terms (PoolWorld W)}, Serves options T →
      s.Starts options T → ∃ t request, Visited T t request q grant u) :
    0 < u.tokensLeft grant := by
  rcases spaced.budget with one | ⟨share, budget⟩
  · obtain ⟨t, request, visited⟩ := visits (T := poolTerms options s False 0)
      (serves_poolTerms False.elim False.elim) (starts_poolTerms live False.elim)
    apply visited.tokensLeft_pos
    obtain ⟨rest, granted⟩ := visited.granted
    have world : PoolWorld.LiveWith s.world u.world := granted.world
    exact .inr fun q' sub => one.no_earlier visited.world visited.waiting
      ((world.finished_eq q).symm.trans visited.active) sub
  · obtain ⟨t, request, visited⟩ := visits (T := poolTerms options s True share)
      (serves_poolTerms (fun _ => spaced.noSpeculation) fun _ => budget.demand)
      (starts_poolTerms live fun _ => ⟨budget.fixed, budget.enough⟩)
    exact visited.tokensLeft_pos (.inl trivial)

theorem Spaced.checksHold {rounds : Nat} (spaced : Spaced options s) (live : s.world.AllLive)
    (call : BlocksCall options rounds s pass q left u) :
    u.ChecksHold options q (passedBudget options u.world q left pass) := by
  have serves : Serves options (poolTerms options s False 0) :=
    serves_poolTerms False.elim False.elim
  have starts : s.Starts options (poolTerms options s False 0) :=
    starts_poolTerms live False.elim
  have reserve : options.minSpeculativeTokensRequired = 0 := by
    simp only [SchedulerOptions.minSpeculativeTokensRequired, spaced.noSpeculation]
    split <;> rfl
  cases call with
  | running visits within =>
      obtain ⟨t, request, visited⟩ := visits.visited serves starts
      obtain ⟨rest, granted⟩ := visited.granted
      have world : PoolWorld.LiveWith s.world u.world := granted.world
      apply checksHold_of_lt world ((world.finished_eq q).symm.trans visited.active)
      rw [reserve]
      exact lt_min spaced.chunk (spaced.tokensLeft_pos live fun serves h => visits.visited serves h)
  | prompt visits within =>
      obtain ⟨t, request, visited⟩ := visits.visited serves starts
      obtain ⟨rest, granted⟩ := visited.granted
      have world : PoolWorld.LiveWith s.world u.world := granted.world
      have tokens : 0 < numTokens u.world q :=
        Nat.zero_lt_of_lt (world.live q visited.active).kv
      apply checksHold_of_lt world ((world.finished_eq q).symm.trans visited.active)
      rw [reserve]
      exact lt_min (lt_min spaced.chunk
        (spaced.tokensLeft_pos live fun serves h => visits.visited serves h)) tokens
  | remaining begins call =>
      have upheld := begins.upheld serves starts
      obtain ⟨world, active, tokens⟩ :=
        call.world serves upheld.world upheld.prefillStage begins.tokens_pos
      apply checksHold_of_lt world active
      rw [reserve]
      exact tokens

theorem allLive_step (h : s.world.AllLive) (op : SchedulerOp (PoolWorld W))
    (acts : s.EngineActs op) :
    IfOk (step .chunkedPrefill options s op) (fun t => t.world.AllLive) := by
  cases op with
  | addRequest request => exact h
  | environment w => exact PoolWorld.EngineStep.allLive acts h
  | prepareBatch rounds =>
      have serves : Serves options (poolTerms options s False 0) :=
        serves_poolTerms False.elim False.elim
      have kept : IfOk (s.prepareBatchChunked options rounds)
          (fun t => PoolWorld.LiveWith s.world t.world) :=
        world_prepareBatchChunked serves (starts_poolTerms h False.elim)
      exact kept.mono_post fun t ht => ht.live

/-- In every state that a run of the chunked-prefill scheduler reaches, the next call of
`prepare_batch` satisfies both checks of `allocate_blocks_for` wherever it comes to it, if
the sequences are spaced. The tokens in the cache can be subtracted from those of every
sequence that is visited, in any case. -/
theorem run_block_checks {w : PoolWorld W} (live : w.AllLive)
    {ops : List (SchedulerOp (PoolWorld W))}
    (along : Along (step .chunkedPrefill options) EngineActs { world := w } ops) :
    Ensures (run (step .chunkedPrefill options) { world := w } ops) (fun _ => True) fun s =>
      (Spaced options s → ∀ rounds pass q left u, BlocksCall options rounds s pass q left u →
        u.ChecksHold options q (passedBudget options u.world q left pass)) ∧
      ∀ rounds side q grant u, VisitsRunning options rounds s side q grant u →
        kvCacheTokensNum u.world q < numTokens u.world q := by
  apply (along.ensures_run (I := fun s => s.world.AllLive)
    (fun s op h acts => allLive_step h op acts) live).mono_post
  intro s hs
  refine ⟨fun spaced rounds pass q left u call => spaced.checksHold hs call, ?_⟩
  intro rounds side q grant u visits
  obtain ⟨t, request, visited⟩ := visits.visited (T := poolTerms options s False 0)
    (serves_poolTerms False.elim False.elim) (starts_poolTerms hs False.elim)
  obtain ⟨rest, granted⟩ := visited.granted
  have world : PoolWorld.LiveWith s.world u.world := granted.world
  exact (world.live q visited.active).kv

/-! ### Two requests -/

/-- One rank with three blocks that are free. Request 0 has a prompt of three tokens;
request 2 has a prompt of one token and asks for two sequences. -/
def twoRequests : Except Check (PoolWorld PlainCache) := do
  let st ← PoolState.create ⟨4, 4, true⟩ ⟨4, 4, true⟩ 4 false
  let long ← Sequence.create [7, 8, 9] 16 0
  let short ← Sequence.create [7] 16 0
  .ok { base := { blockSize := 4, freeBlocks := 0, cells := [] }
        group := fun r => if r = 2 then { bestOf := 2, numPromptTokens := 1 } else {}
        ranks := fun _ => st.rank
        sequence := fun q => if q = 0 then long else short }

/-- The batch computes its tokens, and every sequence of it gets the next one. -/
def forward (w : PoolWorld PlainCache) : List (SequenceId × Nat) → PoolWorld PlainCache
  | [] => w
  | (q, tokens) :: rest =>
      let seq := w.sequence q
      let kv := { seq.kvState with kvCacheTokensNum := seq.kvState.kvCacheTokensNum + tokens }
      match { seq with kvState := kv }.appendToken 5 with
      | .ok next => forward { w with sequence := update w.sequence q next } rest
      | .error _ => forward w rest

/-- Batches and chunks of `budget` tokens. -/
def batchesOf (budget : Nat) : SchedulerOptions where
  maxTokensPerBatch := budget
  maxSeqsPerBatch := 4
  maxTokensPerChunkForPrefill := budget
  maxGlobalTpotMs := 100
  chunkedMatchFrequency := 2

omit [XXH3] in
theorem allLive_twoRequests {w : PoolWorld PlainCache} (h : twoRequests = .ok w) : w.AllLive := by
  obtain ⟨st, -, h⟩ := bind_eq_ok h
  obtain ⟨long, hlong, h⟩ := bind_eq_ok h
  obtain ⟨short, hshort, h⟩ := bind_eq_ok h
  cases h
  intro q _
  dsimp only
  split
  · exact (Sequence.create_live _ _ _).of_ok hlong
  · exact (Sequence.create_live _ _ _).of_ok hshort

omit [XXH3] in
theorem engineStep_forward (batch : List (SequenceId × Nat)) (w : PoolWorld PlainCache) :
    w.EngineStep (forward w batch) := by
  induction batch generalizing w with
  | nil => exact fun q => ⟨q, .refl⟩
  | cons entry batch ih =>
      obtain ⟨q, tokens⟩ := entry
      unfold forward
      dsimp only
      split
      · rename_i next appended
        intro r
        obtain ⟨r', events⟩ := ih { w with sequence := update w.sequence q next } r
        dsimp only at events
        by_cases same : r' = q
        · subst same
          rw [update_self] at events
          exact ⟨r', .head (.token appended) events⟩
        · rw [update_of_ne same] at events
          exact ⟨r', events⟩
      · exact ih w

/-- A call of `prepare_batch`, and what the engine does with the batch. -/
def prepareAndForward (budget : Nat) (s : SchedulerState (PoolWorld PlainCache)) :
    Except Check (SchedulerState (PoolWorld PlainCache)) := do
  let s ← s.prepareBatchChunked (batchesOf budget) 9
  .ok (s.setWorld (forward s.world s.runningSequences))

/-- The rest of a run after a batch. -/
theorem along_prepareAndForward {budget : Nat} {s t v : SchedulerState (PoolWorld PlainCache)}
    (h : s.prepareAndForward budget = .ok t)
    {ops : List (SchedulerOp (PoolWorld PlainCache))}
    (along : Along (step .chunkedPrefill (batchesOf budget)) EngineActs t ops)
    (reached : run (step .chunkedPrefill (batchesOf budget)) t ops = .ok v) :
    ∃ w, Along (step .chunkedPrefill (batchesOf budget)) EngineActs s
        (.prepareBatch 9 :: .environment w :: ops) ∧
      run (step .chunkedPrefill (batchesOf budget)) s
        (.prepareBatch 9 :: .environment w :: ops) = .ok v := by
  obtain ⟨u, hu, ht⟩ := bind_eq_ok h
  cases ht
  refine ⟨forward u.world u.runningSequences, ⟨trivial, fun u' hu' => ?_⟩, ?_⟩
  · cases hu.symm.trans hu'
    refine ⟨engineStep_forward _ _, fun t ht => ?_⟩
    cases ht
    exact along
  · show s.prepareBatchChunked (batchesOf budget) 9 >>= _ = _
    rw [hu]
    exact reached

omit [XXH3] in
theorem run_block_checks_two_requests :
    let _ : XXH3 := XXH3.lastBytes
    ∃ w w₁ s, twoRequests = .ok w ∧
      run (step .chunkedPrefill (batchesOf 16)) { world := w }
        [.addRequest 0, .addRequest 2, .prepareBatch 9, .environment w₁] = .ok s ∧
      s.requests = [0, 2] ∧ s.world.mostSequences 2 = 2 ∧
      (∀ rounds pass q left u, BlocksCall (batchesOf 16) rounds s pass q left u →
        u.ChecksHold (batchesOf 16) q (passedBudget (batchesOf 16) u.world q left pass)) ∧
      ∀ rounds side q grant u, VisitsRunning (batchesOf 16) rounds s side q grant u →
        kvCacheTokensNum u.world q < numTokens u.world q := by
  intro hash
  have evaluated : Ensures twoRequests (fun _ => False) fun w =>
      Ensures (prepareAndForward 16 { world := w, requestQueue := [0, 2] }) (fun _ => False)
        fun s => s.requests = [0, 2] ∧ s.world.mostSequences 2 = 2 ∧
          s.world.demand (batchesOf 16) 0 ≤ 4 ∧ s.world.demand (batchesOf 16) 2 ≤ 4 := by
    decide +kernel
  obtain ⟨w, hw, evaluated⟩ := evaluated.exists_ok
  obtain ⟨s, hs, requests, most, zero, two⟩ := evaluated.exists_ok
  obtain ⟨w₁, along, reached⟩ :=
    along_prepareAndForward hs (show Along _ _ s [] from trivial) rfl
  have along' : Along (step .chunkedPrefill (batchesOf 16)) EngineActs { world := w }
      [.addRequest 0, .addRequest 2, .prepareBatch 9, .environment w₁] :=
    ⟨trivial, fun _ h => Except.ok.inj h ▸ ⟨trivial, fun _ h => Except.ok.inj h ▸ along⟩⟩
  obtain ⟨checks, counts⟩ := (run_block_checks (allLive_twoRequests hw) along').of_ok reached
  refine ⟨w, w₁, s, hw, reached, requests, most, checks ⟨rfl, by decide, .inr ⟨4, rfl, ?_, ?_⟩⟩,
    counts⟩
  · intro r hr
    rw [requests] at hr
    simp only [mem_cons, not_mem_nil, or_false] at hr
    rcases hr with rfl | rfl
    · exact zero
    · exact two
  · rw [requests]
    decide

/-- Request 2 waits with two sequences, and the first one takes what is left of the budget. -/
def FirstTakesAll (s : SchedulerState (PoolWorld PlainCache)) : Prop :=
  s.waiting.get .online = [2] ∧
    (requestFinished s.world 2 = false ∧ requestCancelled s.world 2 = false) ∧
    requestPreempted s.world 2 = true ∧ sequences s.world 2 = [6, 7] ∧
    sequenceFinished s.world 6 = false ∧
    Ensures (grantChunk (batchesOf 4) 2 6 {} s) (fun _ => False) fun r =>
      r.1.stopped = none ∧ sequenceFinished r.2.world 7 = false ∧
        r.2.PromptWithin (batchesOf 4) 7 r.1 ∧ r.2.tokensLeft r.1 = 0

instance (s : SchedulerState (PoolWorld PlainCache)) : Decidable s.FirstTakesAll :=
  inferInstanceAs (Decidable (_ ∧ _))

/-- The next call takes request 2 back after the running requests. -/
def TakesBack (s : SchedulerState (PoolWorld PlainCache)) : Prop :=
  Ensures (step .chunkedPrefill (batchesOf 4) s (.prepareBatch 9)) (· = .scheduling)
      (fun _ => False) ∧
    Ensures (s.startChunked (batchesOf 4)) (fun _ => False) fun b =>
      Ensures (b.handleRunningQueueRequests (batchesOf 4) 9 .online) (fun _ => False) fun c =>
        (c.budgetExhausted = false ∧ c.blocksExhausted = false) ∧
          c.openPrompts.prefillGoesOn .online = true ∧ c.openPrompts.FirstTakesAll

instance (s : SchedulerState (PoolWorld PlainCache)) : Decidable s.TakesBack :=
  inferInstanceAs (Decidable (_ ∧ _))

omit [XXH3] in
/-- Request 2 has been preempted with both of its sequences. When it comes back, the first
one takes what is left of the token budget, and the scheduler asks for blocks for the second
one with no tokens. -/
theorem spent_budget_fails_check :
    let _ : XXH3 := XXH3.lastBytes
    ∃ w w₁ w₂ s, twoRequests = .ok w ∧ w.AllLive ∧
      Along (step .chunkedPrefill (batchesOf 4)) EngineActs { world := w }
        [.addRequest 0, .addRequest 2, .prepareBatch 9, .environment w₁, .prepareBatch 9,
          .environment w₂] ∧
      run (step .chunkedPrefill (batchesOf 4)) { world := w }
        [.addRequest 0, .addRequest 2, .prepareBatch 9, .environment w₁, .prepareBatch 9,
          .environment w₂] = .ok s ∧
      (∃ q left u, BlocksCall (batchesOf 4) 9 s (.prompts .online) q left u ∧
        ¬u.ChecksHold (batchesOf 4) q
          (passedBudget (batchesOf 4) u.world q left (.prompts .online))) ∧
      step .chunkedPrefill (batchesOf 4) s (.prepareBatch 9) = .error .scheduling := by
  have evaluated : Ensures twoRequests (fun _ => False) fun w =>
      Ensures (@prepareAndForward XXH3.lastBytes 4 { world := w, requestQueue := [0, 2] })
        (fun _ => False) fun s =>
      Ensures (@prepareAndForward XXH3.lastBytes 4 s) (fun _ => False)
        (@TakesBack XXH3.lastBytes) := by
    decide +kernel
  intro hash
  obtain ⟨w, hw, evaluated⟩ := evaluated.exists_ok
  obtain ⟨s₁, hs₁, evaluated⟩ := evaluated.exists_ok
  obtain ⟨s, hs, aborts, evaluated⟩ := evaluated.exists_ok
  obtain ⟨b, hb, evaluated⟩ := evaluated.exists_ok
  obtain ⟨c, hc, room, goesOn, waiting, active, preempted, seqs, unfinished, evaluated⟩ :=
    evaluated.exists_ok
  obtain ⟨⟨grant, u⟩, hgrant, goesOn', unfinished', within, left⟩ := evaluated.exists_ok
  obtain ⟨w₂, along, reached⟩ :=
    along_prepareAndForward hs (show Along _ _ s [] from trivial) rfl
  obtain ⟨w₁, along, reached⟩ := along_prepareAndForward hs₁ along reached
  refine ⟨w, w₁, w₂, s, hw, allLive_twoRequests hw,
    ⟨trivial, fun _ h => Except.ok.inj h ▸ ⟨trivial, fun _ h => Except.ok.inj h ▸ along⟩⟩,
    reached, ⟨7, u.tokensLeft grant, u, ?_, ?_⟩, aborts.eq_error⟩
  · refine .prompt (.of (.promptsOnline (.runningOnline hb) hc) room .start goesOn waiting active
      (.inl preempted) ?_) within
    rw [seqs]
    exact .granted unfinished hgrant goesOn' (.here unfinished')
  · rintro ⟨reserve, -⟩
    rw [left] at reserve
    exact Nat.not_lt_zero _ reserve

end SchedulerState

end Xllm
