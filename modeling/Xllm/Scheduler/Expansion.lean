import Xllm.Scheduler.WaitingMarks

/-!
# Requests that wait have one sequence

A request that is taken from a waiting queue for the first time must have one sequence.
Requests are expanded when they are admitted, in a process without prefix cache, and when
they return from the batch to a running queue. So what has to be excluded is an expansion
on admission that is followed by waiting.
-/

namespace Xllm

open Contract List Function

namespace SchedulerState

open ServingWorld

section Definitions

variable {W : Type} [ServingWorld W] (options : SchedulerOptions)

/-- The first half of `ContinuousScheduler::prepare_batch`, before requests are scheduled. -/
def startBatch (s : SchedulerState W) : Except Check (SchedulerState W) := do
  let s ← s.readRequestQueue options
  let s ← s.handleFinishedRequests
  let s ← s.requeueContinuous options
  .ok (s.clearBatch options.maxGlobalTtftMs options.maxTokensPerBatch
    (max options.maxSeqsPerBatch 1))

/-- The second half, after the waiting requests of both sides. -/
def finishBatch (rounds : Nat) (s : SchedulerState W) : Except Check (SchedulerState W) := do
  let s ← if s.runningSequences = [] then do
      let s ← { s with latencyBudget := options.maxGlobalTpotMs }.handleDecodeRequests options
        rounds .online
      s.handleDecodeRequests options rounds .offline
    else .ok s
  .ok s.answerFinished

theorem prepareBatchContinuous_eq (rounds : Nat) (s : SchedulerState W) :
    s.prepareBatchContinuous options rounds = (do
      let s ← s.startBatch options
      let s ← s.handlePrefillRequests options rounds .online
      let s ← s.handlePrefillRequests options rounds .offline
      s.finishBatch options rounds) := by
  simp only [prepareBatchContinuous, startBatch, finishBatch, bind_assoc, ok_bind]

/-- The states of a call of `prepare_batch` in which `handle_prefill_requests` takes the
first request of a waiting queue. -/
inductive TakesFirst (rounds : Nat) (s : SchedulerState W) : Side → SchedulerState W → Prop
  | online {b t : SchedulerState W} (started : s.startBatch options = .ok b)
      (round : Rounds (fun s => s.prefillGoesOn .online) (fun s => s.prefillRound options .online)
        { b with budgetExhausted := false, blocksExhausted := false } t) :
      TakesFirst rounds s .online t
  | offline {b c t : SchedulerState W} (started : s.startBatch options = .ok b)
      (online : b.handlePrefillRequests options rounds .online = .ok c)
      (round : Rounds (fun s => s.prefillGoesOn .offline) (fun s => s.prefillRound options .offline)
        { c with budgetExhausted := false, blocksExhausted := false } t) :
      TakesFirst rounds s .offline t

end Definitions

variable {W : Type} {options : SchedulerOptions}

variable {s t u : SchedulerState (GroupWorld W)} {side : Side} {request : RequestId}
variable {rest : List RequestId} {w w' : GroupWorld W}

theorem sequences_head {sequence : SequenceId} {seqs : List SequenceId}
    (h : w.sequences request = sequence :: seqs) : sequence = Nat.pair request 0 := by
  unfold GroupWorld.sequences at h
  cases hn : (w.group request).numSequences with
  | zero =>
      rw [hn] at h
      cases h
  | succ n =>
      rw [hn, range_succ_eq_map] at h
      exact (List.cons.inj h).1.symm

variable [ServingWorld W]

/-- What the callers of a scheduler do: a request is added once, as it has been created,
and between two calls nobody touches the group of a request that only waits and has no
mark. Marks are not taken back. -/
def Served (s : SchedulerState (GroupWorld W)) : SchedulerOp (GroupWorld W) → Prop
  | .addRequest request => s.held request = 0 ∧ (s.world.group request).Created
  | .environment w =>
      (∀ r, (s.world.group r).preempted = true → (w.group r).preempted = true) ∧
      ∀ r, (s.world.group r).preempted = false → 0 < s.pending r → s.held r = s.pending r →
        w.group r = s.world.group r
  | .prepareBatch _ => True

/-- A new request is not expanded, or it is not put into a waiting queue: there is a
prefix cache, it searches with beams, it asks for one sequence, or its first sequence has
tokens in the cache. -/
def NotExpanded (options : SchedulerOptions) (w : GroupWorld W) (request : RequestId) : Prop :=
  options.enablePrefixCache = true ∨ checkBeamSearch (W := W) request = true ∨
    (w.group request).bestOf ≤ 1 ∨ kvCacheTokensNum w.base (Nat.pair request 0) ≠ 0

/-- At every call no new request is expanded and then put into a waiting queue. -/
def ExpandsLate (options : SchedulerOptions) (s : SchedulerState (GroupWorld W)) :
    SchedulerOp (GroupWorld W) → Prop
  | .prepareBatch _ => ∀ r ∈ s.requestQueue, NotExpanded options s.world r
  | _ => True

@[simp] theorem preempted_expandSequences (sharePrefix : Bool) (r : RequestId) :
    ((GroupWorld.expandSequences w request sharePrefix).2.group r).preempted =
      (w.group r).preempted := by
  simp only [GroupWorld.expandSequences, GroupWorld.setGroup]
  by_cases hr : r = request
  · subst hr
    rw [update_self, SequencesGroup.preempted_expandSequences]
  · rw [update_of_ne hr]

@[simp] theorem bestOf_expandSequences (sharePrefix : Bool) (r : RequestId) :
    ((GroupWorld.expandSequences w request sharePrefix).2.group r).bestOf = (w.group r).bestOf := by
  simp only [GroupWorld.expandSequences, GroupWorld.setGroup]
  by_cases hr : r = request
  · subst hr
    rw [update_self, SequencesGroup.bestOf_expandSequences]
  · rw [update_of_ne hr]

theorem group_expandSequences_of_ne (sharePrefix : Bool) {r : RequestId} (h : r ≠ request) :
    (GroupWorld.expandSequences w request sharePrefix).2.group r = w.group r :=
  update_of_ne h _ _

structure AdmittedWorld (options : SchedulerOptions) (request : RequestId)
    (w w' : GroupWorld W) : Prop where
  base : w'.base = w.base
  preempted : ∀ r, (w'.group r).preempted = (w.group r).preempted
  bestOf : ∀ r, (w'.group r).bestOf = (w.group r).bestOf
  other : ∀ r, r ≠ request → w'.group r = w.group r
  own : (w.group request).numSequences = 1 →
    options.enablePrefixCache = true ∨ checkBeamSearch (W := W) request = true ∨
      (w.group request).bestOf ≤ 1 → (w'.group request).numSequences = 1

theorem admittedWorld (w : GroupWorld W) (request : RequestId) :
    AdmittedWorld options request w (expandOnAdmit options w request) := by
  unfold expandOnAdmit
  split
  · exact ⟨rfl, fun _ => rfl, fun _ => rfl, fun _ _ => rfl, fun one _ => one⟩
  · rename_i hcache
    constructor
    · rfl
    · exact preempted_expandSequences false
    · exact bestOf_expandSequences false
    · exact fun r hr => group_expandSequences_of_ne false hr
    · intro one h
      simp only [ServingWorld.expandSequences, GroupWorld.expandSequences, GroupWorld.setGroup,
        update_self]
      exact SequencesGroup.numSequences_expandSequences one (h.resolve_left hcache)

/-- Admission keeps what waits at one sequence each. -/
theorem oneSequence_admitRequest (h : OneSequence (request :: rest) [] s)
    (late : NotExpanded options s.world request) : IfOk (s.admitRequest options request)
      (fun t => OneSequence rest [] t ∧ AdmittedWorld options request s.world t.world) := by
  have admitted : AdmittedWorld options request s.world (expandOnAdmit options s.world request) :=
    admittedWorld s.world request
  unfold admitRequest
  generalize expandOnAdmit options s.world request = w at admitted ⊢
  dsimp only
  split
  · exact trivial
  rename_i sequence seqs hseqs
  have hsequence := sequences_head hseqs
  split
  · rename_i hzero
    have htokens : kvCacheTokensNum s.world.base (Nat.pair request 0) = 0 := by
      rw [← hsequence, ← admitted.base]
      exact hzero
    refine ⟨?_, admitted⟩
    have moved : Moved [] [request] s
        ((s.setWorld w).pushWaiting (sideOf (W := GroupWorld W) request) request) :=
      (kept_setWorld w).trans (moved_pushWaiting request rfl)
    have hset := s.waiting.count_set (sideOf (W := GroupWorld W) request)
      (order w (request :: s.waiting.get (sideOf (W := GroupWorld W) request)))
    intro r hr hpos
    have hwaits := hset r
    rw [(order_perm _ _).count_eq, count_cons_eq] at hwaits
    have hpend : ((s.setWorld w).pushWaiting (sideOf (W := GroupWorld W) request)
        request).pending r = s.pending r + [request].count r := by
      simp only [pending, pushWaiting, setWorld]
      omega
    have hcount := moved.held r
    have hold := h r ((admitted.preempted r).symm.trans hr)
    rw [count_cons_eq] at hold
    obtain ⟨hone, hnum⟩ := hold (by omega)
    constructor
    · omega
    · by_cases hne : r = request
      · subst hne
        apply admitted.own hnum
        exact late.imp_right (Or.imp_right fun h => h.resolve_right fun hkv => hkv htokens)
      · exact (congrArg SequencesGroup.numSequences (admitted.other r hne)).trans hnum
  · refine ⟨?_, admitted⟩
    intro r hr hpos
    have hold := h r ((admitted.preempted r).symm.trans hr)
    rw [count_cons_eq] at hold
    simp only [pending, held, setWorld, count_append] at hpos hold ⊢
    obtain ⟨hone, hnum⟩ := hold (by omega)
    have hne : r ≠ request := by
      rintro rfl
      rw [count_singleton_self] at hone
      omega
    constructor
    · omega
    · exact (congrArg SequencesGroup.numSequences (admitted.other r hne)).trans hnum

theorem notExpanded_admitted (h : AdmittedWorld options request w w') {r : RequestId}
    (late : NotExpanded options w r) : NotExpanded options w' r := by
  unfold NotExpanded
  rw [h.base, h.bestOf]
  exact late

theorem tended_readRequestQueue (h : Tended s)
    (late : ∀ r ∈ s.requestQueue, NotExpanded options s.world r) :
    IfOk (s.readRequestQueue options) Tended := by
  have admitted : IfOk (s.readRequestQueue options) (fun t =>
      OneSequence [] [] t ∧ ∀ r ∈ ([] : List RequestId), NotExpanded options t.world r) := by
    refine Ensures.foldlM (I := fun l t => OneSequence l [] t ∧
      ∀ r ∈ l, NotExpanded options t.world r) ?_ ⟨?_, late⟩
    · rintro request rest t ⟨hone, hlate⟩
      apply (oneSequence_admitRequest hone (hlate request mem_cons_self)).mono_post
      rintro u ⟨hone', hadmitted⟩
      refine ⟨hone', fun r hr => ?_⟩
      exact notExpanded_admitted hadmitted (hlate r (mem_cons_of_mem _ hr))
    · intro r hr hpos
      have hold := h.one r hr
      simp only [pending, held] at hpos hold ⊢
      obtain ⟨hone, hnum⟩ := hold (by omega)
      exact ⟨by omega, hnum⟩
  apply (kept_readRequestQueue.and admitted).ifOk.mono_post
  intro t ht
  exact ⟨ht.1.1.sided h.sided, ht.2.1⟩

/-- What a step does not do to the requests that wait. -/
structure Apart (s t : SchedulerState (GroupWorld W)) : Prop where
  requestQueue : t.requestQueue = s.requestQueue
  waiting : t.waiting = s.waiting

omit [ServingWorld W] in
theorem Apart.pending (h : Apart s t) (r : RequestId) : t.pending r = s.pending r := by
  simp only [SchedulerState.pending, h.requestQueue, h.waiting]

theorem quiet_collectFinished : IfOk (s.collectFinished request) (Quiet s) := by
  unfold collectFinished
  dsimp only
  have connected : Quiet s (s.setWorld (updateConnectionStatus s.world request)) :=
    (called_setWorld (w := updateConnectionStatus s.world request) rfl).quiet
  split
  · apply called_deallocateRequest.bind
    intro t ht
    have quiet := connected.trans ht.quiet
    exact ⟨quiet.numSequences, quiet.marked, quiet.pending⟩
  · exact ⟨connected.numSequences, connected.marked, connected.pending⟩

theorem quiet_handleFinishedRequests : IfOk s.handleFinishedRequests (Quiet s) := by
  refine Ensures.foldlM (I := fun _ t => Quiet s t) ?_
    ⟨fun _ => rfl, fun _ h => h, fun _ _ => Nat.le_refl _⟩
  intro request rest t ht
  exact quiet_collectFinished.mono_post fun u hu => ht.trans hu

theorem tended_handleFinishedRequests (h : Tended s) (none : s.finishedRequests = []) :
    IfOk s.handleFinishedRequests Tended :=
  ((kept_handleFinishedRequests none).and quiet_handleFinishedRequests).ifOk.mono_post fun _ ht =>
    h.kept ht.1 ht.2

theorem handleRunningRequests_group : IfOk (s.handleRunningRequests request)
    (fun t => ∃ w, t = s.setWorld w ∧
      (∀ r, (w.group r).preempted = (s.world.group r).preempted) ∧
      ∀ r, r ≠ request → w.group r = s.world.group r) := by
  unfold handleRunningRequests
  split
  · exact trivial
  have cached : ∀ expanded (w : GroupWorld W), IfOk (cacheExpanded expanded w request)
      (fun w' => w'.group = w.group) := by
    intro expanded w
    unfold cacheExpanded
    split
    · split
      · exact trivial
      · exact group_cache w _
    · rfl
  apply (cached _ _).bind
  intro w hw
  apply (group_foldlM_deallocate _ w).bind
  intro w' hw'
  have group : w'.group = (GroupWorld.expandSequences s.world request true).2.group :=
    hw'.trans hw
  refine ⟨w', rfl, ?_, ?_⟩
  · intro r
    exact (congrArg (fun group => (group r).preempted) group).trans
      (preempted_expandSequences true r)
  · intro r hr
    exact (congrArg (fun group => group r) group).trans (group_expandSequences_of_ne true hr)

theorem pushRunning_apart (ifBack : Bool) : IfOk (s.pushRunning options side request ifBack)
      (fun t => Apart s t ∧ t.world = s.world) := by
  simp only [pushRunning]
  split
  · exact ⟨⟨rfl, rfl⟩, rfl⟩
  cases side with
  | online => exact ⟨⟨rfl, rfl⟩, rfl⟩
  | offline =>
      dsimp only
      split
      · exact ⟨⟨rfl, rfl⟩, rfl⟩
      · exact trivial

theorem oneSequence_requeue (ifBack : Bool) (h : OneSequence [] (request :: rest) s) :
    IfOk (s.requeue options request ifBack) (OneSequence [] rest) := by
  apply handleRunningRequests_group.bind
  rintro t ⟨w, rfl, hpreempted, hother⟩
  apply ((moved_pushRunning ifBack rfl).and (pushRunning_apart ifBack)).ifOk.mono_post
  rintro u ⟨⟨moved, -⟩, apart, hworld⟩
  intro r hr hpos
  have hcount := moved.held r
  have hheld : (s.setWorld w).held r = s.held r := rfl
  have hpend : (s.setWorld w).pending r = s.pending r := rfl
  rw [apart.pending] at hpos
  rw [hworld] at hr ⊢
  obtain ⟨hone, hnum⟩ := h r ((hpreempted r).symm.trans hr) hpos
  have hle := pending_le_held s r
  rw [count_cons_eq] at hone
  have hne : r ≠ request := by
    rintro rfl
    rw [count_singleton_self] at hone
    omega
  constructor
  · omega
  · exact (congrArg SequencesGroup.numSequences (hother r hne)).trans hnum

theorem tended_requeueAll {requests : List RequestId} (ifBack : Bool) (h : Tended s)
    (perm : requests.Perm s.runningRequests) : IfOk (s.requeueAll options requests ifBack)
      (fun t => Tended t ∧ t.runningRequests = []) := by
  have requeued : IfOk (s.requeueAll options requests ifBack) (OneSequence [] []) := by
    refine Ensures.foldlM (I := fun l t => OneSequence [] l t)
      (fun request rest t ht => oneSequence_requeue ifBack ht) ?_
    intro r hr hpos
    have hold := h.one r hr hpos
    have hsame := perm.count_eq r
    simp only [held] at hold ⊢
    exact ⟨by omega, hold.2⟩
  apply ((kept_requeueAll ifBack perm).and requeued).ifOk.mono_post
  intro t ht
  exact ⟨⟨ht.1.1.sided h.sided, ht.2⟩, ht.1.2⟩

theorem tended_requeueContinuous (h : Tended s) : IfOk (s.requeueContinuous options)
      (fun t => Tended t ∧ t.runningRequests = []) := by
  unfold requeueContinuous
  split
  · exact tended_requeueAll false h (reverse_perm _)
  · exact tended_requeueAll true h (List.Perm.refl _)

/-- A scheduler between two calls. -/
structure Resting (s : SchedulerState (GroupWorld W)) : Prop extends Tended s where
  finished : s.finishedRequests = []

theorem tended_startBatch (h : Resting s)
    (late : ∀ r ∈ s.requestQueue, NotExpanded options s.world r) :
    IfOk (s.startBatch options) Tended := by
  apply ((tended_readRequestQueue h.toTended late).and kept_readRequestQueue).ifOk |>.bind
  rintro s₁ ⟨h₁, -, hsame⟩
  apply (tended_handleFinishedRequests h₁ (hsame.trans h.finished)).bind
  intro s₂ h₂
  apply (tended_requeueContinuous h₂).bind
  rintro s₃ ⟨h₃, hempty⟩
  apply h₃.kept (kept_clearBatch _ _ _ hempty)
  exact ⟨fun _ => rfl, fun _ h => h, fun _ _ => Nat.le_refl _⟩

theorem resting_finishBatch (rounds : Nat) (h : Tended s) :
    IfOk (s.finishBatch options rounds) Resting := by
  have answered : ∀ t : SchedulerState (GroupWorld W), Tended t → Resting t.answerFinished := by
    intro t ht
    refine ⟨ht.kept kept_answerFinished ?_, rfl⟩
    exact ⟨fun _ => rfl, fun _ h => h, fun _ _ => Nat.le_refl _⟩
  unfold finishBatch
  split
  · have decoding : Tended { s with latencyBudget := options.maxGlobalTpotMs } :=
      ⟨h.sided, h.one⟩
    apply (tended_handleDecodeRequests rounds decoding).bind
    intro t ht
    apply (tended_handleDecodeRequests rounds ht).bind
    exact answered
  · exact answered s h

theorem resting_prepareBatchContinuous (rounds : Nat) (h : Resting s)
    (late : ∀ r ∈ s.requestQueue, NotExpanded options s.world r) :
    IfOk (s.prepareBatchContinuous options rounds) Resting := by
  rw [prepareBatchContinuous_eq]
  apply (tended_startBatch h late).bind
  intro s₁ h₁
  apply (tended_handlePrefillRequests rounds h₁).bind
  intro s₂ h₂
  apply (tended_handlePrefillRequests rounds h₂).bind
  intro s₃ h₃
  exact resting_finishBatch rounds h₃

/-- Step lemma: between calls what waits has one sequence, unless preempted. -/
theorem resting_step (op : SchedulerOp (GroupWorld W)) (h : Resting s) (served : s.Served op)
    (late : s.ExpandsLate options op) : IfOk (s.step .continuous options op) Resting := by
  cases op with
  | addRequest request =>
      obtain ⟨hnew, hnum, -⟩ := served
      refine ⟨⟨h.sided, ?_⟩, h.finished⟩
      intro r hr hpos
      have hold := h.one r hr
      simp only [pending, held, count_append] at *
      by_cases hne : r = request
      · subst hne
        rw [count_singleton_self]
        exact ⟨by omega, hnum⟩
      · rw [count_singleton, beq_eq_false_iff_ne.2 (Ne.symm hne)] at hpos ⊢
        obtain ⟨hone, hnum'⟩ := hold (by simpa using hpos)
        exact ⟨by simpa using hone, hnum'⟩
  | environment world =>
      obtain ⟨hmarks, hsame⟩ := served
      refine ⟨⟨h.sided, ?_⟩, h.finished⟩
      intro r hr hpos
      have hunmarked : (s.world.group r).preempted = false := by
        cases hs : (s.world.group r).preempted with
        | false => rfl
        | true =>
            have hmark := hmarks r hs
            rw [setWorld] at hr
            rw [hmark] at hr
            cases hr
      have hold := h.one r hunmarked hpos
      have hle := pending_le_held s r
      have hpend : (s.setWorld world).pending r = s.pending r := rfl
      have group : world.group r = s.world.group r := hsame r hunmarked hpos (by omega)
      refine ⟨hold.1, ?_⟩
      exact (congrArg SequencesGroup.numSequences group).trans hold.2
  | prepareBatch rounds => exact resting_prepareBatchContinuous rounds h late

omit [ServingWorld W] in
theorem Tended.numSequences [ServingWorld W] (h : Tended s)
    (hwait : request ∈ s.waiting.get side) (hr : (s.world.group request).preempted = false) :
    (s.world.group request).numSequences = 1 := by
  have hpos : 0 < (s.waiting.get side).count request := List.count_pos_iff.2 hwait
  have hle := s.waiting.count_get_le side request
  apply (h.one request hr ?_).2
  simp only [pending]
  omega

theorem tended_takesFirst {rounds : Nat} (h : Resting s)
    (late : ∀ r ∈ s.requestQueue, NotExpanded options s.world r)
    (takes : TakesFirst options rounds s side t) : Tended t := by
  cases takes with
  | online started round =>
      have hstart := (tended_startBatch h late).of_ok started
      exact Rounds.invariant (fun u hu _ => tended_prefillRound hu) hstart.resetExhausted round
  | offline started online round =>
      have hstart := (tended_startBatch h late).of_ok started
      have honline := (tended_handlePrefillRequests rounds hstart).of_ok online
      exact Rounds.invariant (fun u hu _ => tended_prefillRound hu) honline.resetExhausted round

theorem resting_initial (world : GroupWorld W) :
    Resting ({ world := world } : SchedulerState (GroupWorld W)) := by
  refine ⟨⟨?_, ?_⟩, rfl⟩
  · intro side r hr
    cases side <;> exact absurd hr (by simp [Sides.get])
  · intro r _ hpos
    exact absurd hpos (Nat.lt_irrefl 0)

/-- Runs in which no new request is expanded and then put into a waiting queue: whatever
waits unmarked has one sequence, and so has whatever a further call takes unmarked from a
waiting queue. -/
theorem run_takes_one_sequence (options : SchedulerOptions) (world : GroupWorld W)
    (ops : List (SchedulerOp (GroupWorld W)))
    (along : Along (step .continuous options) (fun s op => s.Served op ∧ s.ExpandsLate options op)
      { world := world } ops) :
    Ensures (run (step .continuous options) { world := world } ops) (fun _ => True) (fun s =>
      (∀ side, ∀ request ∈ s.waiting.get side, requestPreempted s.world request = false →
        (sequences s.world request).length = 1) ∧
      ∀ rounds side t, s.ExpandsLate options (.prepareBatch rounds) →
        TakesFirst options rounds s side t →
        ∀ request rest, t.waiting.get side = request :: rest →
          requestPreempted t.world request = false →
          (sequences t.world request).length = 1) := by
  have resting : Ensures (run (step .continuous options) { world := world } ops)
      (fun _ => True) Resting :=
    along.ensures_run (fun s op hs hop => resting_step op hs hop.1 hop.2) (resting_initial world)
  apply resting.mono_post
  intro s hs
  constructor
  · intro side request hwait hr
    exact (GroupWorld.length_sequences _ _).trans (hs.toTended.numSequences hwait hr)
  · intro rounds side t late takes request rest htop hr
    have htended := tended_takesFirst hs late takes
    have hwait : request ∈ t.waiting.get side := htop ▸ mem_cons_self
    exact (GroupWorld.length_sequences _ _).trans (htended.numSequences hwait hr)

/-- A scheduler with room for some prompts. -/
def smallBatches (enablePrefixCache : Bool) : SchedulerOptions where
  maxTokensPerBatch := 100
  maxSeqsPerBatch := 10
  maxGlobalTtftMs := 100
  maxGlobalTpotMs := 100
  prefillSchedulingMemoryUsageThreshold := 1
  enablePrefixCache := enablePrefixCache

/-- Requests that ask for two sequences, with three tokens in their prompts. -/
def twoSequences : GroupWorld PlainCache where
  base :=
    { blockSize := 4
      freeBlocks := 4
      cells := [{ promptTokens := 3, numTokens := 3 }, { promptTokens := 3, numTokens := 3 }] }
  group _ := { bestOf := 2, numPromptTokens := 3 }

theorem run_takes_one_sequence_cached :
    Ensures (run (step .continuous (smallBatches true)) { world := twoSequences }
        [.addRequest 0, .prepareBatch 9]) (fun _ => True) (fun s =>
      (∀ side, ∀ request ∈ s.waiting.get side, requestPreempted s.world request = false →
        (sequences s.world request).length = 1) ∧
      ∀ rounds side t, s.ExpandsLate (smallBatches true) (.prepareBatch rounds) →
        TakesFirst (smallBatches true) rounds s side t →
        ∀ request rest, t.waiting.get side = request :: rest →
          requestPreempted t.world request = false →
          (sequences t.world request).length = 1) := by
  apply run_takes_one_sequence
  refine ⟨⟨⟨rfl, rfl, rfl⟩, trivial⟩, fun s _ => ⟨⟨trivial, ?_⟩, fun _ _ => trivial⟩⟩
  exact fun r _ => .inl rfl

/-- Without prefix cache the request is expanded before it waits, and the call that takes
it is stopped. -/
theorem expanded_before_waiting :
    ∃ s t : SchedulerState (GroupWorld PlainCache),
      run (step .continuous (smallBatches false)) { world := twoSequences } [.addRequest 0] =
        .ok s ∧
      TakesFirst (smallBatches false) 9 s .online t ∧ t.waiting.get .online = [0] ∧
      requestPreempted t.world 0 = false ∧ (sequences t.world 0).length = 2 ∧
      s.step .continuous (smallBatches false) (.prepareBatch 9) = .error .scheduling := by
  have stopped : Ensures (step .continuous (smallBatches false)
      { world := twoSequences, requestQueue := [0] } (.prepareBatch 9))
      (fun e => e = Check.scheduling) (fun _ => False) := by
    decide +kernel
  refine ⟨{ world := twoSequences, requestQueue := [0] }, _, rfl, .online rfl .start,
    rfl, rfl, rfl, ?_⟩
  exact stopped.eq_error

end SchedulerState

end Xllm
