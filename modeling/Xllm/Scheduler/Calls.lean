import Xllm.Scheduler.ChunkedPrefill

/-!
# What the calls of a scheduler keep

A scheduler changes requests, sequences and blocks by the calls of `ServingWorld` only. So
what each of these keeps is kept by `prepare_batch`, and it holds in every state in which
one of its loops grants something to a sequence. `Terms` has such a condition on the world,
and conditions on the requests of each container and on the sequences that are remembered
for `handle_remaining_budget`. It may also have a share of the token budget that is enough
for any of the requests; then no request finds the budget used up by the others.
-/

namespace Xllm

open Contract List

open SchedulerState in
/-- The calls of a scheduler keep `I`, and the numbers of tokens that it asks blocks for
are in `asks`. -/
structure CallsKeep {W : Type} [ServingWorld W] (options : SchedulerOptions)
    (asks : SequenceId → Nat → Prop) (I : W → Prop) : Prop where
  allocate : ∀ w sequence numTokens, asks sequence numTokens → I w →
    Ensures (ServingWorld.allocate w sequence numTokens) (fun _ => True) (fun r => I r.2)
  deallocate : ∀ w sequence, I w → Ensures (ServingWorld.deallocate w sequence) (fun _ => True) I
  allocateShared : ∀ w sequence, I w →
    Ensures (ServingWorld.allocateShared w sequence) (fun _ => True) I
  cache : ∀ w sequence, I w → Ensures (ServingWorld.cache w sequence) (fun _ => True) I
  ifCacheBlockForPrefill : ∀ w sequence, I w → I (ServingWorld.ifCacheBlockForPrefill w sequence).2
  setPreempted : ∀ w request, I w → I (ServingWorld.setPreempted w request)
  expandSequences : ∀ w request sharePrefix, I w →
    I (ServingWorld.expandSequences w request sharePrefix).2
  updatePrefetchResult : ∀ w request, I w → I (ServingWorld.updatePrefetchResult w request).2
  updateConnectionStatus : ∀ w request, I w → I (ServingWorld.updateConnectionStatus w request)
  asksPrefill : ∀ w sequence, I w → asks sequence (kvCacheTokens w sequence +
    maybeAlignCpPrefillTokens options w sequence (numNeedComputeTokens w sequence))
  asksDecode : ∀ w sequence, I w → asks sequence
    (ServingWorld.numTokens w sequence + options.minSpeculativeTokensRequired)
  asksChunk : ∀ w sequence budget, I w →
    asks sequence (maxHandleNumTokens options w sequence budget)
  /-- After the preemption of offline requests a chunk is asked for again. -/
  asksAgain : ∀ w w' sequence budget, I w → I w' → asks sequence
    (maxHandleNumTokens options w sequence budget - kvCacheTokens w sequence +
      ServingWorld.kvCacheTokensNum w' sequence)

/-- Conditions that a call of `prepare_batch` upholds. -/
structure Terms (W : Type) where
  world : W → Prop
  asks : SequenceId → Nat → Prop := fun _ _ => True
  sequence : SequenceId → Prop := fun _ => True
  waiting : RequestId → Prop := fun _ => True
  running : RequestId → Prop := fun _ => True
  /-- The requests of the last batch. -/
  batch : RequestId → Prop := running
  /-- Whether `share` is enough for the tokens that any of the requests is granted. -/
  ample : Prop := False
  cost : SequenceId → Nat := fun _ => 0
  share : Nat := 0

namespace SchedulerState

open ServingWorld
open Sequence (subSize)

variable {W : Type} {options : SchedulerOptions} {T : Terms W} {s t : SchedulerState W}
variable {side : Side} {request : RequestId} {grant : Grant}

/-- The requests in the waiting and in the running queues. -/
def entries (s : SchedulerState W) : Nat := s.waiting.length + s.running.length

structure Upheld (T : Terms W) (s : SchedulerState W) : Prop where
  world : T.world s.world
  prefillStage : ∀ q ∈ s.prefillStageSequences, T.sequence q
  waiting : ∀ side, ∀ r ∈ s.waiting.get side, T.waiting r
  running : ∀ side, ∀ r ∈ s.running.get side, T.running r
  ample : T.ample → T.share * s.entries < s.remainingTokenBudget

/-- What the schedulers and their world have to do with the terms. -/
structure Serves [ServingWorld W] (options : SchedulerOptions) (T : Terms W) : Prop where
  calls : CallsKeep options T.asks T.world
  unfinished : ∀ w q, T.world w → sequenceFinished w q = false → T.sequence q
  preempted : ∀ r, T.running r → T.waiting r
  active : ∀ w r, T.world w → requestFinished w r = false → requestCancelled w r = false →
    T.batch r → T.running r
  cost : T.ample → ∀ w q budget, T.world w → T.sequence q →
    budget ≤ options.maxTokensPerChunkForPrefill →
    maxHandleNumTokens options w q budget - kvCacheTokens w q ≤ T.cost q
  share : T.ample → ∀ w r, T.world w → T.waiting r → ((sequences w r).map T.cost).sum ≤ T.share

/-- No waiting queue has run empty, and no tokens have been given away. -/
structure Waits (s t : SchedulerState W) : Prop where
  queued : ∀ side, s.waiting.get side ≠ [] → t.waiting.get side ≠ []
  tokens : t.remainingTokenBudget = s.remainingTokenBudget

theorem Waits.refl : Waits s s := ⟨fun _ queued => queued, rfl⟩

theorem Waits.trans {u : SchedulerState W} (first : Waits s t) (second : Waits t u) : Waits s u :=
  ⟨fun side queued => second.queued side (first.queued side queued),
    second.tokens.trans first.tokens⟩

/-- Some sequences of a request have been granted something, `rest` are left. -/
structure Granted (T : Terms W) (start : SchedulerState W) (rest : List SequenceId)
    (grant : Grant) (s : SchedulerState W) : Prop extends Upheld T s where
  waits : Waits start s
  candidates : ∀ c ∈ grant.candidates, T.sequence c.1
  tokens : T.ample → grant.allocatedTokens + (rest.map T.cost).sum ≤ T.share

/-- Only the world has changed. -/
def InWorld (T : Terms W) (s t : SchedulerState W) : Prop := ∃ w, T.world w ∧ t = s.setWorld w

theorem Upheld.setWorld {w : W} (h : s.Upheld T) (hw : T.world w) : (s.setWorld w).Upheld T :=
  ⟨hw, h.prefillStage, h.waiting, h.running, h.ample⟩

theorem Upheld.inWorld (h : s.Upheld T) (ht : InWorld T s t) : t.Upheld T := by
  obtain ⟨w, hw, rfl⟩ := ht
  exact h.setWorld hw

variable {start : SchedulerState W} {rest : List SequenceId}

theorem Granted.inWorld (h : Granted T start rest grant s) (ht : InWorld T s t) :
    Granted T start rest grant t := by
  obtain ⟨w, hw, rfl⟩ := ht
  exact ⟨h.toUpheld.setWorld hw, ⟨h.waits.queued, h.waits.tokens⟩, h.candidates, h.tokens⟩

theorem Granted.stop (h : Granted T start rest grant s) (reason : Exhausted) :
    Granted T start rest (grant.stop reason) s :=
  ⟨h.toUpheld, h.waits, h.candidates, h.tokens⟩

theorem Granted.skip {q : SequenceId} (h : Granted T start (q :: rest) grant s) :
    Granted T start rest grant s := by
  refine ⟨h.toUpheld, h.waits, h.candidates, fun ample => ?_⟩
  have tokens := h.tokens ample
  rw [map_cons, sum_cons] at tokens
  omega

theorem Granted.add {q : SequenceId} (h : Granted T start (q :: rest) grant s) (hq : T.sequence q)
    {tokens : Nat} (cost : T.ample → tokens ≤ T.cost q) (latency : Rat) :
    Granted T start rest (grant.add q tokens latency) s := by
  refine ⟨h.toUpheld, h.waits, fun c hc => ?_, fun ample => ?_⟩
  · cases List.mem_append.mp hc with
    | inl hc => exact h.candidates c hc
    | inr hc =>
        rw [List.mem_singleton.mp hc]
        exact hq
  · have before := h.tokens ample
    have more := cost ample
    rw [map_cons, sum_cons] at before
    simp only [Grant.add]
    omega

theorem share_lt_of_entries (h : s.Upheld T) (pos : 0 < s.entries) (ample : T.ample) :
    T.share < s.remainingTokenBudget :=
  (Nat.le_mul_of_pos_right T.share pos).trans_lt (h.ample ample)

theorem entries_pos_of_running (h : s.running.get side ≠ []) : 0 < s.entries := by
  have hpos := length_pos_of_ne_nil h
  have hle := s.running.length_get_le side
  simp only [entries]
  omega

theorem entries_pos_of_waiting (h : s.waiting.get side ≠ []) : 0 < s.entries := by
  have hpos := length_pos_of_ne_nil h
  have hle := s.waiting.length_get_le side
  simp only [entries]
  omega

/-- A queue may lose requests, and then there is a share that nobody needs. -/
theorem Upheld.setRunning {queue : List RequestId} {pops : List Pop} (h : s.Upheld T)
    (sub : ∀ r ∈ queue, r ∈ s.running.get side)
    (shorter : queue.length < (s.running.get side).length) :
    ({ s with running := s.running.set side queue, pops := pops } : SchedulerState W).Upheld T ∧
      (T.ample → T.share * (({ s with running := s.running.set side queue, pops := pops } :
        SchedulerState W).entries + 1) < s.remainingTokenBudget) := by
  have fewer : ({ s with running := s.running.set side queue, pops := pops } :
      SchedulerState W).entries + 1 ≤ s.entries := by
    have hlength := s.running.length_set side queue
    simp only [entries]
    omega
  have spare (ample : T.ample) := (Nat.mul_le_mul_left T.share fewer).trans_lt (h.ample ample)
  refine ⟨⟨h.world, h.prefillStage, h.waiting, fun side' r hr => ?_, fun ample => ?_⟩, spare⟩
  · by_cases hside : side' = side
    · subst hside
      rw [Sides.get_set] at hr
      exact h.running side' r (sub r hr)
    · rw [Sides.get_set_of_ne _ _ _ hside] at hr
      exact h.running side' r hr
  · exact (Nat.mul_le_mul_left T.share (Nat.le_succ _)).trans_lt (spare ample)

/-- A request leaves the front of a running queue. -/
theorem upheld_popTop (h : s.Upheld T) : IfOk (s.popTop side request)
    (fun t => t.Upheld T ∧ (T.ample → T.share * (t.entries + 1) < t.remainingTokenBudget)) := by
  unfold popTop
  split
  · exact trivial
  · rename_i removed queue hqueue
    apply h.setRunning
    · exact fun r hr => hqueue ▸ mem_cons_of_mem _ hr
    · rw [hqueue]
      exact Nat.lt_succ_self _

theorem upheld_popBack (h : s.Upheld T) : IfOk (s.popBack side request)
    (fun t => t.Upheld T ∧ (T.ample → T.share * (t.entries + 1) < t.remainingTokenBudget)) := by
  unfold popBack
  split
  · exact trivial
  · rename_i removed hlast
    apply h.setRunning
    · exact fun r hr => mem_of_mem_dropLast hr
    · have pos := length_pos_of_mem (mem_of_getLast? hlast)
      rw [length_dropLast]
      omega

theorem Upheld.schedule (h : s.Upheld T)
    (spare : T.ample → T.share * (s.entries + 1) < s.remainingTokenBudget)
    (tokens : T.ample → grant.allocatedTokens ≤ T.share) : (s.schedule request grant).Upheld T := by
  refine ⟨h.world, h.prefillStage, h.waiting, h.running, fun ample => ?_⟩
  have left := spare ample
  have granted := tokens ample
  rw [Nat.mul_add] at left
  show T.share * s.entries < subSize s.remainingTokenBudget grant.allocatedTokens
  rw [subSize, if_pos (by omega)]
  omega

/-- The requests are being put into the queues: those of the batch have `P`, and `left` ones
are still to come. -/
structure Gathers (options : SchedulerOptions) (T : Terms W) (P : RequestId → Prop) (left : Nat)
    (s : SchedulerState W) : Prop where
  world : T.world s.world
  waiting : ∀ side, ∀ r ∈ s.waiting.get side, T.waiting r
  running : ∀ side, ∀ r ∈ s.running.get side, T.running r
  batch : ∀ r ∈ s.runningRequests, P r
  ample : T.ample →
    T.share * (left + s.entries + s.runningRequests.length) < options.maxTokensPerBatch

/-- A request that is scheduled pays with the tokens it was granted. -/
theorem upheld_popSchedule (h : s.Upheld T) (tokens : T.ample → grant.allocatedTokens ≤ T.share) :
    IfOk (s.popTop side request) (fun t => (t.schedule request grant).Upheld T) :=
  (upheld_popTop h).mono_post fun _ ht => ht.1.schedule ht.2 tokens

variable [ServingWorld W]

theorem Upheld.pushWaiting (h : s.Upheld T) (hrequest : T.waiting request)
    (spare : T.ample → T.share * (s.entries + 1) < s.remainingTokenBudget) :
    (s.pushWaiting side request).Upheld T := by
  have length := s.waiting.length_set side (order s.world (request :: s.waiting.get side))
  rw [(order_perm _ _).length_eq, length_cons] at length
  refine ⟨h.world, h.prefillStage, fun side' r hr => ?_, h.running, fun ample => ?_⟩
  · by_cases hside : side' = side
    · subst hside
      rw [SchedulerState.pushWaiting, Sides.get_set, (order_perm _ _).mem_iff] at hr
      rcases List.mem_cons.mp hr with rfl | hr
      · exact hrequest
      · exact h.waiting side' r hr
    · rw [SchedulerState.pushWaiting, Sides.get_set_of_ne _ _ _ hside] at hr
      exact h.waiting side' r hr
  · have more : (s.pushWaiting side request).entries = s.entries + 1 := by
      simp only [entries, SchedulerState.pushWaiting]
      omega
    rw [more]
    exact spare ample

theorem Waits.pushWaiting (h : Waits s t) : Waits s (t.pushWaiting side request) := by
  refine ⟨fun side' queued => ?_, h.tokens⟩
  by_cases hside : side' = side
  · subst hside
    rw [SchedulerState.pushWaiting, Sides.get_set, ne_eq, ← length_eq_zero_iff,
      (order_perm _ _).length_eq]
    exact Nat.succ_ne_zero _
  · rw [SchedulerState.pushWaiting, Sides.get_set_of_ne _ _ _ hside]
    exact h.queued side' queued

/-- Loop rule: a grant to each sequence in turn. -/
theorem granted_grantEach
    {one : SequenceId → Grant → SchedulerState W → Except Check (Grant × SchedulerState W)}
    (granted : ∀ q rest grant s, sequenceFinished s.world q = false →
      Granted T start (q :: rest) grant s →
      IfOk (one q grant s) (fun r => Granted T start rest r.1 r.2)) {seqs : List SequenceId}
    (h : Granted T start seqs grant s) : IfOk (grantEach one seqs grant s)
      (fun r => Granted T start [] r.1 r.2) := by
  induction seqs generalizing grant s with
  | nil => exact h
  | cons q rest ih =>
      unfold grantEach
      split
      · exact ih h.skip
      · rename_i hfinished
        apply (granted q rest grant s (Bool.eq_false_of_not_eq_true hfinished) h).bind
        intro r hr
        dsimp only
        split
        · refine ⟨hr.toUpheld, hr.waits, hr.candidates, fun ample => ?_⟩
          exact (Nat.le_add_right _ _).trans (hr.tokens ample)
        · exact ih hr

/-- The states in which a loop over the sequences of a request reaches one of them. -/
inductive Granting
    (one : SequenceId → Grant → SchedulerState W → Except Check (Grant × SchedulerState W)) :
    List SequenceId → Grant → SchedulerState W → SequenceId → Grant → SchedulerState W → Prop
  | here {q : SequenceId} {rest : List SequenceId} {grant : Grant} {s : SchedulerState W}
      (active : sequenceFinished s.world q = false) : Granting one (q :: rest) grant s q grant s
  | skipped {q q' : SequenceId} {rest : List SequenceId} {grant grant' : Grant}
      {s u : SchedulerState W} (finished : sequenceFinished s.world q = true)
      (later : Granting one rest grant s q' grant' u) : Granting one (q :: rest) grant s q' grant' u
  | granted {q q' : SequenceId} {rest : List SequenceId} {grant next grant' : Grant}
      {s t u : SchedulerState W} (active : sequenceFinished s.world q = false)
      (ran : one q grant s = .ok (next, t)) (goesOn : next.stopped = none)
      (later : Granting one rest next t q' grant' u) : Granting one (q :: rest) grant s q' grant' u

theorem Granting.mem
    {one : SequenceId → Grant → SchedulerState W → Except Check (Grant × SchedulerState W)}
    {seqs : List SequenceId} {q : SequenceId} {last : Grant} {u : SchedulerState W}
    (visits : Granting one seqs grant s q last u) : q ∈ seqs := by
  induction visits with
  | here active => exact mem_cons_self
  | skipped finished later ih => exact mem_cons_of_mem _ ih
  | granted active ran goesOn later ih => exact mem_cons_of_mem _ ih

/-- `pop` of a waiting queue that is not empty gives a share of the budget free. -/
theorem Upheld.popWaiting (h : s.Upheld T) (side : Side) (request : RequestId) :
    (s.popWaiting side request).Upheld T ∧
    (s.waiting.get side ≠ [] → T.ample →
      T.share * ((s.popWaiting side request).entries + 1) < s.remainingTokenBudget) := by
  have length := s.waiting.length_set side (order s.world (s.waiting.get side).tail)
  rw [(order_perm _ _).length_eq, length_tail] at length
  have fewer : (s.popWaiting side request).entries ≤ s.entries := by
    simp only [entries, SchedulerState.popWaiting]
    omega
  refine ⟨⟨h.world, h.prefillStage, fun side' r hr => ?_, h.running, fun ample => ?_⟩, ?_⟩
  · by_cases hside : side' = side
    · subst hside
      rw [SchedulerState.popWaiting, Sides.get_set, (order_perm _ _).mem_iff] at hr
      exact h.waiting side' r (mem_of_mem_tail hr)
    · rw [SchedulerState.popWaiting, Sides.get_set_of_ne _ _ _ hside] at hr
      exact h.waiting side' r hr
  · exact (Nat.mul_le_mul_left T.share fewer).trans_lt (h.ample ample)
  · intro queued ample
    have pos := length_pos_of_ne_nil queued
    have one : (s.popWaiting side request).entries + 1 = s.entries := by
      simp only [entries, SchedulerState.popWaiting]
      omega
    rw [one]
    exact h.ample ample

/-- The worlds that come from admitting requests. -/
def Expanded (w w' : W) : Prop :=
  Relation.ReflTransGen (fun w w' => ∃ r, w' = (expandSequences w r false).2) w w'

/-- A request has no tokens in the cache when it is admitted. -/
def StaysNew (w : W) (r : RequestId) : Prop :=
  ∀ w', Expanded w w' → ∀ q ∈ (sequences w' r).head?, kvCacheTokensNum w' q = 0

theorem expanded_expandOnAdmit (options : SchedulerOptions) (w : W) (r : RequestId) :
    Expanded w (expandOnAdmit options w r) := by
  unfold expandOnAdmit
  split
  · exact .refl
  · exact .single ⟨r, rfl⟩

theorem gathers_pushRunning {left : Nat} (h : Gathers options T T.running (left + 1) s)
    (hrequest : T.running request) (ifBack : Bool) :
    IfOk (s.pushRunning options side request ifBack) (Gathers options T T.running left) := by
  have pushed : ∀ queue : List RequestId, queue.Perm (request :: s.running.get side) →
      Gathers options T T.running left { s with running := s.running.set side queue } := by
    intro queue perm
    have length := s.running.length_set side queue
    rw [perm.length_eq, length_cons] at length
    refine ⟨h.world, h.waiting, fun side' r hr => ?_, h.batch, fun ample => ?_⟩
    · by_cases hside : side' = side
      · subst hside
        rw [Sides.get_set, perm.mem_iff] at hr
        rcases List.mem_cons.mp hr with rfl | hr
        · exact hrequest
        · exact h.running side' r hr
      · rw [Sides.get_set_of_ne _ _ _ hside] at hr
        exact h.running side' r hr
    · have before := h.ample ample
      have same : left + entries { s with running := s.running.set side queue } =
          left + 1 + s.entries := by
        simp only [entries]
        omega
      rw [same]
      exact before
  unfold pushRunning
  split
  · apply pushed
    cases ifBack with
    | true => exact perm_append_singleton _ _
    | false => exact List.Perm.refl _
  · cases side with
    | online => exact pushed _ (insertRunning_perm _ _ _)
    | offline =>
        dsimp only
        split
        · rename_i hempty
          apply pushed
          rw [hempty]
        · exact trivial

theorem Gathers.clearBatch {P : RequestId → Prop} (h : Gathers options T P 0 s)
    (latencyBudget : Rat) {tokenBudget : Nat} (seqBudget : Nat)
    (budget : T.ample → options.maxTokensPerBatch ≤ tokenBudget) :
    (s.clearBatch latencyBudget tokenBudget seqBudget).Upheld T := by
  refine ⟨h.world, fun q hq => absurd hq not_mem_nil, h.waiting, h.running, fun ample => ?_⟩
  have before := h.ample ample
  rw [Nat.zero_add] at before
  exact ((Nat.mul_le_mul_left T.share (Nat.le_add_right _ _)).trans_lt before).trans_le
    (budget ample)

section

variable (serves : Serves options T)
include serves

theorem foldlM_deallocate_keep (seqs : List SequenceId) {w : W} (h : T.world w) :
    IfOk (seqs.foldlM deallocate w) T.world := by
  apply Ensures.foldlM (I := fun _ => T.world)
  · intro sequence rest w hw
    exact serves.calls.deallocate w sequence hw
  · exact h

theorem inWorld_deallocateSequences (h : T.world s.world) (seqs : List SequenceId) :
    IfOk (s.deallocateSequences seqs) (InWorld T s) :=
  (foldlM_deallocate_keep serves seqs h).bind fun w hw => ⟨w, hw, rfl⟩

theorem inWorld_deallocateRequest (h : T.world s.world) :
    IfOk (s.deallocateRequest request) (InWorld T s) :=
  (foldlM_deallocate_keep serves _ h).bind fun w hw => ⟨w, hw, rfl⟩

/-- The last running request is preempted and waits. -/
theorem upheld_preemptBack {popped : Side} {into : RequestId → Side} (h : s.Upheld T) :
    IfOk (s.preemptBack side popped into) (fun t => t.Upheld T ∧ Waits s t) := by
  unfold preemptBack
  split
  · exact trivial
  rename_i victim hlast
  have victim_running := h.running side victim (mem_of_getLast? hlast)
  apply (inWorld_deallocateRequest serves h.world).bind
  rintro _ ⟨w, hw, rfl⟩
  have freed := h.setWorld hw
  have popped_waits : IfOk ((s.setWorld w).popBack popped victim) (Waits s) := by
    unfold popBack
    split
    · exact trivial
    · exact ⟨fun _ queued => queued, rfl⟩
  apply ((upheld_popBack freed).both popped_waits).bind
  rintro u ⟨⟨hu, spare⟩, waits⟩
  have marked := hu.setWorld (serves.calls.setPreempted u.world victim hu.world)
  refine ⟨marked.pushWaiting (serves.preempted victim victim_running) spare, ?_⟩
  exact Waits.pushWaiting ⟨waits.queued, waits.tokens⟩

theorem upheld_preemptOffline (n : Nat) (h : s.Upheld T) :
    IfOk (preemptOffline n s) (fun t => t.Upheld T ∧ Waits s t) := by
  induction n generalizing s with
  | zero => exact ⟨h, .refl⟩
  | succ n ih =>
      apply (upheld_preemptBack serves h).bind
      rintro t ⟨ht, waits⟩
      apply (ih ht).mono_post
      rintro u ⟨hu, waits'⟩
      exact ⟨hu, waits.trans waits'⟩

/-- A refused allocation preempts other requests and asks again. -/
theorem upheld_evictAndAllocate (h : s.Upheld T) (allocated : Bool) {q : SequenceId}
    {numTokens : Nat} (asked : T.asks q numTokens) :
    IfOk (s.evictAndAllocate options allocated request q numTokens)
      (fun r => r.2.Upheld T ∧ Waits s r.2) := by
  unfold evictAndAllocate
  split
  · exact ⟨h, .refl⟩
  split
  · apply ensures_any.bind
    intro count _
    cases count with
    | none => exact ⟨h, .refl⟩
    | some count =>
        apply (upheld_preemptOffline serves count h).bind
        rintro t ⟨ht, waits⟩
        apply (serves.calls.allocate _ _ _ asked ht.world).bind
        intro r hr
        exact ⟨ht.setWorld hr, waits.queued, waits.tokens⟩
  · exact ⟨h, .refl⟩

theorem inWorld_allocateSharedBlocksFor (h : T.world s.world) (q : SequenceId) :
    IfOk (s.allocateSharedBlocksFor options q) (InWorld T s) := by
  have matching : IfOk (do
      let w ← allocateShared s.world q
      .ok (s.setWorld w) : Except Check (SchedulerState W)) (InWorld T s) :=
    (serves.calls.allocateShared _ _ h).bind fun w hw => ⟨w, hw, rfl⟩
  have same : InWorld T s s := ⟨s.world, h, rfl⟩
  unfold allocateSharedBlocksFor
  dsimp only
  split
  · exact matching
  split
  · split
    · exact matching
    split
    · exact trivial
    split
    · exact trivial
    split
    · exact matching
    · exact same
  · exact same

/-- The blocks of one sequence: the world answers what it is asked. -/
theorem inWorld_allocateBlocksFor (h : T.world s.world) (q : SequenceId) (tokenBudget : Nat) :
    IfOk (s.allocateBlocksFor options q tokenBudget) (fun r =>
      InWorld T s r.2.2 ∧ ∃ w, T.world w ∧
        r.2.1 = maxHandleNumTokens options w q tokenBudget - kvCacheTokens w q ∧
        allocate w q (maxHandleNumTokens options w q tokenBudget) = .ok (r.1, r.2.2.world)) := by
  unfold allocateBlocksFor
  split
  · exact trivial
  apply (inWorld_allocateSharedBlocksFor serves h q).bind
  rintro _ ⟨w, hw, rfl⟩
  dsimp only
  split
  · exact trivial
  · have kept := serves.calls.allocate _ _ _ (serves.calls.asksChunk w q tokenBudget hw) hw
    cases hallocate : allocate w q (maxHandleNumTokens options w q tokenBudget) with
    | error e => exact hallocate ▸ trivial
    | ok r =>
        rw [hallocate] at kept
        show Ensures (allocate w q (maxHandleNumTokens options w q tokenBudget) >>= _) _ _
        rw [hallocate]
        exact ⟨⟨r.2, kept, rfl⟩, w, hw, rfl, hallocate⟩

theorem inWorld_cacheAfterPrefill (h : T.world s.world) (q : SequenceId) :
    IfOk (s.cacheAfterPrefill q) (InWorld T s) := by
  have marked := serves.calls.ifCacheBlockForPrefill s.world q h
  unfold cacheAfterPrefill
  dsimp only
  split
  · exact (serves.calls.cache _ q marked).bind fun w hw => ⟨w, hw, rfl⟩
  · exact ⟨_, marked, rfl⟩

/-! ### Grants to the sequences of a request -/

variable {start : SchedulerState W}

/-- A sequence is the first one that is granted something, or there is one before it that has
not finished either. -/
theorem Granting.granted_of
    {one : SequenceId → Grant → SchedulerState W → Except Check (Grant × SchedulerState W)}
    {seqs : List SequenceId} {q : SequenceId} {last : Grant} {u : SchedulerState W}
    (granted : ∀ q rest grant s, sequenceFinished s.world q = false →
      Granted T start (q :: rest) grant s →
      IfOk (one q grant s) (fun r => Granted T start rest r.1 r.2))
    (visits : Granting one seqs grant s q last u) (h : Granted T start seqs grant s) :
    (∃ rest, Granted T start (q :: rest) last u) ∧ sequenceFinished u.world q = false ∧
      (last = grant ∨ ∃ q', [q', q].Sublist seqs ∧ T.sequence q') := by
  induction visits with
  | here active => exact ⟨⟨_, h⟩, active, .inl rfl⟩
  | skipped finished later ih =>
      obtain ⟨rest, active, first⟩ := ih h.skip
      refine ⟨rest, active, first.imp_right ?_⟩
      rintro ⟨q', sub, hq'⟩
      exact ⟨q', sub.cons _, hq'⟩
  | granted active ran goesOn later ih =>
      obtain ⟨rest, active', -⟩ := ih ((granted _ _ _ _ active h).of_ok ran)
      refine ⟨rest, active', .inr ⟨_, ?_, serves.unfinished _ _ h.world active⟩⟩
      exact (List.singleton_sublist.mpr later.mem).cons_cons _

theorem Upheld.granted (h : s.Upheld T) (hrequest : T.waiting request) :
    Granted T s (sequences s.world request) {} s where
  toUpheld := h
  waits := .refl
  candidates := fun c hc => by cases hc
  tokens := by
    intro ample
    rw [Nat.zero_add]
    exact serves.share ample s.world request h.world hrequest

section Sequences

variable {q : SequenceId} {rest : List SequenceId} {start : SchedulerState W}
variable (active : sequenceFinished s.world q = false) (h : Granted T start (q :: rest) grant s)
include active h

/-- The chunked scheduler grants a running sequence its share. -/
theorem granted_grantRunning : IfOk (grantRunning options q grant s)
    (fun r => Granted T start rest r.1 r.2) := by
  have hq : T.sequence q := serves.unfinished _ q h.world active
  unfold grantRunning
  dsimp only
  split
  · exact h.skip.stop _
  split
  · exact h.skip.stop _
  apply (inWorld_allocateBlocksFor serves h.world q _).bind
  rintro ⟨allocated, handled, t⟩ ⟨ht, w, hw, hhandled, -⟩
  have granted := h.inWorld ht
  have cost (ample : T.ample) : handled ≤ T.cost q :=
    hhandled.trans_le (serves.cost ample w q _ hw hq (Nat.min_le_left _ _))
  split
  · exact granted.skip.stop _
  · apply Granted.add _ hq cost
    unfold addPrefillStage
    split
    · refine ⟨⟨granted.world, fun c hc => ?_, granted.waiting, granted.running, granted.ample⟩,
        ⟨granted.waits.queued, granted.waits.tokens⟩, granted.candidates, granted.tokens⟩
      cases List.mem_append.mp hc with
      | inl hc => exact granted.prefillStage c hc
      | inr hc =>
          rw [List.mem_singleton.mp hc]
          exact hq
    · exact granted

/-- The chunked scheduler grants a prompt its next chunk. -/
theorem granted_grantChunk : IfOk (grantChunk options request q grant s)
    (fun r => Granted T start rest r.1 r.2) := by
  have hq : T.sequence q := serves.unfinished _ q h.world active
  unfold grantChunk
  dsimp only
  split
  · exact h.skip.stop _
  split
  · exact h.skip.stop _
  apply (inWorld_allocateBlocksFor serves h.world q _).bind
  rintro ⟨allocated, handled, t⟩ ⟨ht, w, hw, hhandled, -⟩
  have granted := h.inWorld ht
  have cost (ample : T.ample) : handled ≤ T.cost q :=
    hhandled.trans_le
      (serves.cost ample w q _ hw hq ((Nat.min_le_left _ _).trans (Nat.min_le_left _ _)))
  have again : T.asks q (handled + kvCacheTokensNum t.world q) := by
    rw [show handled = _ from hhandled]
    exact serves.calls.asksAgain w t.world q _ hw granted.world
  apply (upheld_evictAndAllocate serves granted.toUpheld allocated again).bind
  rintro ⟨allocated, u⟩ ⟨hu, waits⟩
  have granted' : Granted T start (q :: rest) grant u :=
    ⟨hu, granted.waits.trans waits, granted.candidates, granted.tokens⟩
  split
  · apply (inWorld_deallocateSequences serves hu.world [q]).bind
    intro v hv
    exact (granted'.inWorld hv).skip.stop _
  · exact granted'.add hq cost _

end Sequences

/-! ### Rounds -/

theorem upheld_failRunning (h : s.Upheld T) : IfOk (s.failRunning request) (Upheld T) := by
  apply (upheld_popTop h).bind
  rintro t ⟨ht, -⟩
  apply (inWorld_deallocateRequest serves ht.world).bind
  intro u hu
  have freed := ht.inWorld hu
  exact ⟨freed.world, freed.prefillStage, freed.waiting, freed.running, freed.ample⟩

theorem upheld_handleAbnormalRequest (h : s.Upheld T)
    (tokens : T.ample → grant.allocatedTokens ≤ T.share) (reason : Exhausted) :
    IfOk (s.handleAbnormalRequest side request grant reason) (Upheld T) := by
  unfold handleAbnormalRequest
  split
  · split
    · exact h
    cases reason with
    | budget => exact upheld_failRunning serves h
    | blocks =>
        dsimp only
        split
        · exact trivial
        split
        · exact h
        · exact upheld_failRunning serves h
  split
  · exact h
  · exact (upheld_popSchedule h tokens).bind fun t ht => ht

theorem upheld_settleRunning (h : s.Upheld T)
    (tokens : T.ample → grant.allocatedTokens ≤ T.share) (popped : Side) :
    IfOk (s.settleRunning options side popped request grant) (fun r => r.2.Upheld T) := by
  unfold settleRunning
  split
  · exact trivial
  split
  · exact (upheld_popSchedule h tokens).bind fun t ht => ht
  · apply (upheld_handleAbnormalRequest serves h tokens .budget).bind
    intro t ht
    exact ⟨ht.world, ht.prefillStage, ht.waiting, ht.running, ht.ample⟩
  · split
    · exact (upheld_preemptBack serves h).bind fun t ht => ht.1
    split
    · split
      · exact trivial
      · exact (upheld_preemptBack serves h).bind fun t ht => ht.1
    · apply (upheld_handleAbnormalRequest serves h tokens .blocks).bind
      intro t ht
      exact ⟨ht.world, ht.prefillStage, ht.waiting, ht.running, ht.ample⟩

theorem upheld_settlePrefill (h : Granted T start [] grant s)
    (queued : start.waiting.get side ≠ []) :
    IfOk (s.settlePrefill side request grant) (fun r => r.2.Upheld T) := by
  unfold settlePrefill
  split
  · rename_i reason _
    apply (inWorld_deallocateSequences serves h.world _).bind
    intro t ht
    have freed := h.toUpheld.inWorld ht
    cases reason with
    | budget => exact ⟨freed.world, freed.prefillStage, freed.waiting, freed.running, freed.ample⟩
    | blocks => exact ⟨freed.world, freed.prefillStage, freed.waiting, freed.running, freed.ample⟩
  · obtain ⟨popped, spare⟩ := h.toUpheld.popWaiting side request
    exact popped.schedule (spare (h.waits.queued side queued)) h.tokens

theorem upheld_settleChunk (h : Granted T start [] grant s)
    (queued : start.waiting.get side ≠ []) :
    IfOk (s.settleChunk side request grant) (fun r => r.2.Upheld T) := by
  apply (upheld_settlePrefill serves h queued).bind
  rintro ⟨again, t⟩ ht
  dsimp only
  split
  · exact ht
  · refine ⟨ht.world, fun q hq => ?_, ht.waiting, ht.running, ht.ample⟩
    cases List.mem_append.mp hq with
    | inl hq => exact ht.prefillStage q hq
    | inr hq =>
        obtain ⟨c, hc, rfl⟩ := List.mem_map.mp hq
        exact h.candidates c hc

theorem upheld_finishWaiting (h : s.Upheld T) : IfOk (s.finishWaiting side request) (Upheld T) := by
  apply (inWorld_deallocateRequest serves h.world).bind
  intro t ht
  have freed := h.inWorld ht
  have finished : Upheld T { t with finishedRequests := t.finishedRequests ++ [request] } :=
    ⟨freed.world, freed.prefillStage, freed.waiting, freed.running, freed.ample⟩
  exact (finished.popWaiting side request).1

theorem upheld_refuseWaiting (h : s.Upheld T) : IfOk (s.refuseWaiting side) (Upheld T) := by
  unfold refuseWaiting
  split
  · exact h
  split
  · dsimp only
    have popped := (h.popWaiting side ‹RequestId›).1
    apply (inWorld_deallocateRequest serves popped.world).bind
    intro t ht
    have freed := popped.inWorld ht
    split
    · exact ⟨freed.world, freed.prefillStage, freed.waiting, freed.running, freed.ample⟩
    split
    · exact ⟨freed.world, freed.prefillStage, freed.waiting, freed.running, freed.ample⟩
    · exact trivial
  · exact h

/-- Round of the running queue. -/
theorem upheld_runningRound (h : s.Upheld T) :
    IfOk (s.runningRound options side) (fun r => r.2.Upheld T) := by
  unfold runningRound
  split
  · exact h
  rename_i request rest hqueue
  have running := h.running side request (hqueue ▸ mem_cons_self)
  apply (granted_grantEach (fun _ _ _ _ => granted_grantRunning serves)
    (h.granted serves (serves.preempted request running))).bind
  rintro ⟨grant, t⟩ ht
  exact upheld_settleRunning serves ht.toUpheld ht.tokens .online

theorem upheld_handleRunningQueueRequests (h : s.Upheld T) (rounds : Nat) :
    IfOk (s.handleRunningQueueRequests options rounds side) (Upheld T) :=
  Ensures.loop (fun _ ht _ => upheld_runningRound serves ht) trivial h

/-- Round of the waiting queue, chunked. -/
theorem upheld_chunkRound (h : s.Upheld T) :
    IfOk (s.chunkRound options side) (fun r => r.2.Upheld T) := by
  unfold chunkRound
  split
  · exact h
  rename_i request rest hqueue
  split
  · exact (upheld_finishWaiting serves h).bind fun t ht => ht
  split
  · exact trivial
  · have waiting := h.waiting side request (hqueue ▸ mem_cons_self)
    apply (granted_grantEach (fun _ _ _ _ => granted_grantChunk serves)
      (h.granted serves waiting)).bind
    rintro ⟨grant, t⟩ ht
    exact upheld_settleChunk serves ht (hqueue ▸ cons_ne_nil _ _)

theorem upheld_handleChunkRequests (h : s.Upheld T) (rounds : Nat) :
    IfOk (s.handleChunkRequests options rounds side) (Upheld T) := by
  have looped : IfOk (loop (fun s : SchedulerState W => s.prefillGoesOn side)
      (fun s => s.chunkRound options side) .roundsExceeded rounds s)
      (Upheld T) :=
    Ensures.loop (fun _ ht _ => upheld_chunkRound serves ht) trivial h
  exact looped.bind fun t ht => upheld_refuseWaiting serves ht

theorem upheld_handleNewPrompts (h : s.Upheld T) (rounds : Nat) :
    IfOk (s.handleNewPrompts options rounds side) (Upheld T) := by
  unfold handleNewPrompts
  split
  · exact h
  · apply upheld_handleChunkRequests serves
    split
    · exact ⟨h.world, h.prefillStage, h.waiting, h.running, h.ample⟩
    · exact h

theorem world_grantRemaining (done rest : List (SequenceId × Nat)) (prefill : List SequenceId)
    (h : T.world s.world) : IfOk (grantRemaining options done rest prefill s)
      (fun t => T.world t.world) := by
  induction rest generalizing done prefill s with
  | nil => exact h
  | cons pair rest ih =>
      obtain ⟨q, budget⟩ := pair
      cases prefill with
      | nil => exact h
      | cons first prefill =>
          unfold grantRemaining
          split
          · exact ih _ _ h
          dsimp only
          split
          · exact h
          have asked : T.world (if options.enableLatencyAwareSchedule = true then
              { s with
                remainingTokenBudget := s.remainingTokenBudget + budget
                estimateLatency := s.estimateLatency - predictStepTime s.world q +
                  predictStepTimeOf s.world (s.remainingTokenBudget + budget)
                    (kvCacheTokensNum s.world q) }
              else { s with remainingTokenBudget := s.remainingTokenBudget + budget }).world := by
            split
            · exact h
            · exact h
          apply (inWorld_allocateBlocksFor serves asked q _).bind
          rintro ⟨allocated, handled, t⟩ ⟨⟨w, hw, ht⟩, -⟩
          have world : T.world t.world := by
            rw [show t = _ from ht]
            exact hw
          split
          · exact world
          split
          · exact trivial
          split
          · exact world
          · exact ih _ _ world

/-! ### The continuous scheduler -/

section Continuous

variable (scarce : ¬T.ample)
include scarce

/-- The continuous scheduler grants a whole prompt. -/
theorem granted_grantPrefill {q : SequenceId} {rest : List SequenceId} {start : SchedulerState W}
    (active : sequenceFinished s.world q = false) (h : Granted T start (q :: rest) grant s) :
    IfOk (grantPrefill options request q grant s) (fun r => Granted T start rest r.1 r.2) := by
  have asked := serves.calls.asksPrefill s.world q h.world
  unfold grantPrefill
  dsimp only
  split
  · exact h.skip.stop _
  apply (serves.calls.allocate _ _ _ asked h.world).bind
  rintro ⟨allocated, w⟩ hw
  apply (upheld_evictAndAllocate serves (h.toUpheld.setWorld hw) allocated asked).bind
  rintro ⟨allocated, t⟩ ⟨ht, waits⟩
  have granted : Granted T start (q :: rest) grant t :=
    ⟨ht, (show Waits start (s.setWorld w) from ⟨h.waits.queued, h.waits.tokens⟩).trans waits,
      h.candidates, h.tokens⟩
  have released : IfOk (t.deallocateSequences [q]) (Granted T start rest grant) :=
    (inWorld_deallocateSequences serves ht.world [q]).mono_post fun u hu =>
      (granted.inWorld hu).skip
  split
  · exact released.bind fun u hu => hu.stop _
  split
  · exact released.bind fun u hu => hu.stop _
  · exact granted.add (serves.unfinished _ q h.world active) (fun ample => absurd ample scarce) _

/-- Round of the waiting queue, continuous. -/
theorem upheld_prefillRound (h : s.Upheld T) :
    IfOk (s.prefillRound options side) (fun r => r.2.Upheld T) := by
  unfold prefillRound
  split
  · exact h
  rename_i request rest hqueue
  have waiting := h.waiting side request (hqueue ▸ mem_cons_self)
  split
  · exact ⟨h.world, h.prefillStage, h.waiting, h.running, h.ample⟩
  split
  · exact (upheld_finishWaiting serves h).bind fun t ht => ht
  split
  · exact trivial
  have fetched := h.setWorld (serves.calls.updatePrefetchResult s.world request h.world)
  dsimp only
  split
  · exact (fetched.popWaiting side request).1.pushWaiting waiting fun ample => absurd ample scarce
  · apply (granted_grantEach (fun _ _ _ _ => granted_grantPrefill serves scarce)
      (fetched.granted serves waiting)).bind
    rintro ⟨grant, t⟩ ht
    exact upheld_settlePrefill serves ht (hqueue ▸ cons_ne_nil _ _)

theorem upheld_handlePrefillRequests (h : s.Upheld T) (rounds : Nat) :
    IfOk (s.handlePrefillRequests options rounds side) (Upheld T) := by
  have reset : Upheld T { s with budgetExhausted := false, blocksExhausted := false } :=
    ⟨h.world, h.prefillStage, h.waiting, h.running, h.ample⟩
  have looped : IfOk (loop (fun s => s.prefillGoesOn side)
      (fun s => s.prefillRound options side) .roundsExceeded rounds
      { s with budgetExhausted := false, blocksExhausted := false })
      (Upheld T) :=
    Ensures.loop (fun _ ht _ => upheld_prefillRound serves scarce ht) trivial reset
  apply looped.bind
  intro t ht
  apply (upheld_refuseWaiting serves ht).bind
  intro u hu
  split
  · exact hu
  · exact ⟨hu.world, hu.prefillStage, hu.waiting, hu.running, hu.ample⟩

/-- The continuous scheduler grants a sequence its decode tokens. -/
theorem granted_grantDecode {q : SequenceId} {rest : List SequenceId} {start : SchedulerState W}
    (active : sequenceFinished s.world q = false) (h : Granted T start (q :: rest) grant s) :
    IfOk (grantDecode options q grant s) (fun r => Granted T start rest r.1 r.2) := by
  have asked := serves.calls.asksDecode s.world q h.world
  unfold grantDecode
  dsimp only
  split
  · exact h.skip.stop _
  split
  · exact h.skip.stop _
  apply (serves.calls.allocate _ _ _ asked h.world).bind
  rintro ⟨allocated, w⟩ hw
  have granted := h.inWorld ⟨w, hw, rfl⟩
  split
  · exact granted.skip.stop _
  · apply (inWorld_cacheAfterPrefill serves hw q).bind
    intro t ht
    exact (granted.inWorld ht).add (serves.unfinished _ q h.world active)
      (fun ample => absurd ample scarce) _

omit scarce in
theorem inWorld_allocateBeam (seqs : List SequenceId) (grant : Grant) (h : T.world s.world) :
    IfOk (allocateBeam options seqs grant s) (fun r => InWorld T s r.2.2) := by
  induction seqs generalizing grant s with
  | nil => exact ⟨s.world, h, rfl⟩
  | cons q rest ih =>
      apply (serves.calls.allocate _ _ _ (serves.calls.asksDecode s.world q h) h).bind
      rintro ⟨allocated, w⟩ hw
      dsimp only
      split
      · exact ⟨w, hw, rfl⟩
      · apply (inWorld_cacheAfterPrefill serves hw q).bind
        rintro _ ⟨w', hw', rfl⟩
        apply (ih _ hw').mono_post
        rintro r ⟨w'', hw'', hr⟩
        exact ⟨w'', hw'', hr⟩

/-- Round of a request with beams. -/
theorem upheld_beamRound (h : s.Upheld T) (hrequest : T.running request) :
    IfOk (s.beamRound options side request) (fun r => r.2.Upheld T) := by
  have tokens (grant : Grant) (ample : T.ample) : grant.allocatedTokens ≤ T.share :=
    absurd ample scarce
  unfold beamRound
  dsimp only
  split
  · exact (upheld_popTop h).bind fun t ht => ht.1
  split
  · exact upheld_settleRunning serves h (tokens _) side
  split
  · exact upheld_settleRunning serves h (tokens _) side
  apply (inWorld_allocateBeam serves _ _ h.world).bind
  rintro ⟨allocated, grant, t⟩ ht
  have allocating := h.inWorld ht
  split
  · apply (inWorld_deallocateRequest serves allocating.world).bind
    intro u hu
    apply (upheld_popTop (allocating.inWorld hu)).bind
    rintro v ⟨hv, spare⟩
    exact (hv.setWorld (serves.calls.setPreempted v.world request hv.world)).pushWaiting
      (serves.preempted request hrequest) spare
  · exact upheld_settleRunning serves allocating (tokens _) side

/-- Round of the running queue, continuous. -/
theorem upheld_decodeRound (h : s.Upheld T) :
    IfOk (s.decodeRound options side) (fun r => r.2.Upheld T) := by
  unfold decodeRound
  split
  · exact h
  rename_i request rest hqueue
  have running := h.running side request (hqueue ▸ mem_cons_self)
  split
  · exact upheld_beamRound serves scarce h running
  · apply (granted_grantEach (fun _ _ _ _ => granted_grantDecode serves scarce)
      (h.granted serves (serves.preempted request running))).bind
    rintro ⟨grant, t⟩ ht
    exact upheld_settleRunning serves ht.toUpheld ht.tokens side

end Continuous

/-! ### The start of a call -/

theorem gathers_admitRequest {left : Nat} (h : Gathers options T T.batch (left + 1) s)
    (waiting : T.waiting request) (fresh : StaysNew s.world request ∨ T.batch request) :
    IfOk (s.admitRequest options request) (fun t =>
      Gathers options T T.batch left t ∧ Expanded s.world t.world) := by
  have expanded := expanded_expandOnAdmit options s.world request
  have world : T.world (expandOnAdmit options s.world request) := by
    unfold expandOnAdmit
    split
    · exact h.world
    · exact serves.calls.expandSequences _ _ _ h.world
  unfold admitRequest
  dsimp only
  split
  · exact trivial
  rename_i q qs hseqs
  split
  · refine ⟨⟨world, fun side' r hr => ?_, h.running, h.batch, fun ample => ?_⟩, expanded⟩
    · by_cases hside : side' = sideOf (W := W) request
      · subst hside
        rw [pushWaiting, Sides.get_set, (order_perm _ _).mem_iff] at hr
        rcases List.mem_cons.mp hr with rfl | hr
        · exact waiting
        · exact h.waiting _ r hr
      · rw [pushWaiting, Sides.get_set_of_ne _ _ _ hside] at hr
        exact h.waiting side' r hr
    · have before := h.ample ample
      have length := s.waiting.length_set (sideOf (W := W) request)
        (order (expandOnAdmit options s.world request)
          (request :: s.waiting.get (sideOf (W := W) request)))
      rw [(order_perm _ _).length_eq, length_cons] at length
      have same : left + entries ((s.setWorld (expandOnAdmit options s.world request)).pushWaiting
          (sideOf (W := W) request) request) = left + 1 + s.entries := by
        simp only [entries, pushWaiting, setWorld]
        omega
      rw [same]
      exact before
  · rename_i cached
    refine ⟨⟨world, h.waiting, h.running, fun r hr => ?_, fun ample => ?_⟩, expanded⟩
    · rcases List.mem_append.mp hr with hr | hr
      · exact h.batch r hr
      · rw [List.mem_singleton.mp hr]
        refine fresh.resolve_left fun new => cached (new _ expanded q ?_)
        exact Option.mem_def.mpr (congrArg List.head? hseqs)
    · have before := h.ample ample
      rw [length_append]
      have same : left + s.entries + (s.runningRequests.length + 1) =
          left + 1 + s.entries + s.runningRequests.length := by omega
      rw [← same] at before
      exact before

/-- Every new request finds its waiting queue. -/
theorem gathers_readRequestQueue (h : Gathers options T T.batch s.requestQueue.length s)
    (fresh : ∀ r ∈ s.requestQueue, T.waiting r ∧ (StaysNew s.world r ∨ T.batch r)) :
    IfOk (s.readRequestQueue options) (Gathers options T T.batch 0) := by
  have all : IfOk (s.readRequestQueue options) (fun t =>
      Gathers options T T.batch 0 t ∧
        ∀ r ∈ ([] : List RequestId), T.waiting r ∧ (StaysNew t.world r ∨ T.batch r)) := by
    apply Ensures.foldlM (I := fun l t => Gathers options T T.batch l.length t ∧
      ∀ r ∈ l, T.waiting r ∧ (StaysNew t.world r ∨ T.batch r))
    · rintro request rest t ⟨ht, hfresh⟩
      obtain ⟨waiting, new⟩ := hfresh request mem_cons_self
      apply (gathers_admitRequest serves ht waiting new).mono_post
      rintro u ⟨hu, expanded⟩
      refine ⟨hu, fun r hr => ?_⟩
      obtain ⟨hwaiting, hnew⟩ := hfresh r (mem_cons_of_mem _ hr)
      exact ⟨hwaiting, hnew.imp_left fun new w' hw' => new w' (expanded.trans hw')⟩
    · exact ⟨⟨h.world, h.waiting, h.running, h.batch, h.ample⟩, fresh⟩
  exact all.mono_post fun t ht => ht.1

/-- The finished requests leave the batch. -/
theorem gathers_handleFinishedRequests (h : Gathers options T T.batch 0 s) :
    IfOk s.handleFinishedRequests (Gathers options T T.running 0) := by
  have all : IfOk s.handleFinishedRequests (fun t =>
      Gathers options T T.running 0 t ∧ ∀ r ∈ ([] : List RequestId), T.batch r) := by
    apply Ensures.foldlM (I := fun l t => Gathers options T T.running l.length t ∧
      ∀ r ∈ l, T.batch r)
    · rintro request rest t ⟨ht, hbatch⟩
      have updated := serves.calls.updateConnectionStatus t.world request ht.world
      have rest_batch := fun r hr => hbatch r (mem_cons_of_mem request hr)
      unfold collectFinished
      dsimp only
      split
      · apply (inWorld_deallocateRequest serves (s := t.setWorld _) updated).bind
        rintro _ ⟨w, hw, rfl⟩
        refine ⟨⟨hw, ht.waiting, ht.running, ht.batch, fun ample => ?_⟩, rest_batch⟩
        refine (Nat.mul_le_mul_left T.share ?_).trans_lt (ht.ample ample)
        exact Nat.add_le_add_right (Nat.add_le_add_right (Nat.le_succ _) _) _
      · rename_i running
        obtain ⟨unfinished, uncancelled⟩ := not_or.mp running
        refine ⟨⟨updated, ht.waiting, ht.running, fun r hr => ?_, fun ample => ?_⟩, rest_batch⟩
        · rcases List.mem_cons.mp hr with rfl | hr
          · exact serves.active _ r updated (Bool.eq_false_of_not_eq_true unfinished)
              (Bool.eq_false_of_not_eq_true uncancelled) (hbatch r mem_cons_self)
          · exact ht.batch r hr
        · have before := ht.ample ample
          have same : rest.length + t.entries + (request :: t.runningRequests).length =
              (request :: rest).length + t.entries + t.runningRequests.length := by
            rw [length_cons, length_cons]
            omega
          rw [← same] at before
          exact before
    · refine ⟨⟨h.world, h.waiting, h.running, fun r hr => absurd hr not_mem_nil,
        fun ample => ?_⟩, fun r hr => h.batch r (List.mem_reverse.mp hr)⟩
      have before := h.ample ample
      rw [Nat.zero_add, Nat.add_comm] at before
      rw [length_reverse]
      exact before
  exact all.mono_post fun t ht => ht.1

theorem world_handleRunningRequests (h : T.world s.world) :
    IfOk (s.handleRunningRequests request) (InWorld T s) := by
  unfold handleRunningRequests
  split
  · exact trivial
  have expanded := serves.calls.expandSequences s.world request true h
  have cached : IfOk (cacheExpanded (expandSequences s.world request true).1
      (expandSequences s.world request true).2 request) T.world := by
    unfold cacheExpanded
    split
    · split
      · exact trivial
      · exact serves.calls.cache _ _ expanded
    · exact expanded
  apply cached.bind
  intro w hw
  exact (foldlM_deallocate_keep serves _ hw).bind fun w' hw' => ⟨w', hw', rfl⟩

/-- What ran goes back to the running queues, whatever the order. -/
theorem gathers_requeueAll (h : Gathers options T T.running 0 s) {requests : List RequestId}
    (same : requests.Perm s.runningRequests) (ifBack : Bool) :
    IfOk (s.requeueAll options requests ifBack) (Gathers options T T.running 0) := by
  have all : IfOk (s.requeueAll options requests ifBack) (fun t =>
      Gathers options T T.running 0 t ∧ ∀ r ∈ ([] : List RequestId), T.running r) := by
    apply Ensures.foldlM (I := fun l t => Gathers options T T.running l.length t ∧
      ∀ r ∈ l, T.running r)
    · rintro request rest t ⟨ht, hrunning⟩
      apply (world_handleRunningRequests serves ht.world).bind
      rintro _ ⟨w, hw, rfl⟩
      have moved : Gathers options T T.running (rest.length + 1) (t.setWorld w) :=
        ⟨hw, ht.waiting, ht.running, ht.batch, ht.ample⟩
      apply (gathers_pushRunning moved (hrunning request mem_cons_self) ifBack).mono_post
      exact fun u hu => ⟨hu, fun r hr => hrunning r (mem_cons_of_mem _ hr)⟩
    · refine ⟨⟨h.world, h.waiting, h.running, fun r hr => absurd hr not_mem_nil,
        fun ample => ?_⟩, fun r hr => h.batch r (same.mem_iff.mp hr)⟩
      have before := h.ample ample
      rw [Nat.zero_add, Nat.add_comm] at before
      rw [same.length_eq]
      exact before
  exact all.mono_post fun t ht => ht.1

end

end SchedulerState

end Xllm
