import Xllm.Scheduler.Custody
import Xllm.Scheduler.SequenceGroups

/-!
# Waiting requests and their marks

A request that has been scheduled comes back to a waiting queue with a mark. So while
waiting and running requests are scheduled no unmarked request begins to wait, and since
no request is expanded there, each that waits unmarked keeps the one sequence it has.
-/

namespace Xllm

open Contract List Function

namespace SchedulerState

open ServingWorld

/-- How often a request waits: in the queue of new requests or in a waiting queue. -/
def pending {W : Type} (s : SchedulerState W) (request : RequestId) : Nat :=
  s.requestQueue.count request + s.waiting.count request

variable {W : Type} {options : SchedulerOptions}

variable {s t u : SchedulerState (GroupWorld W)} {side : Side} {request : RequestId}
variable {rest : List RequestId} {w w' : GroupWorld W}

theorem pending_le_held (s : SchedulerState W) (request : RequestId) :
    s.pending request ≤ s.held request := by
  simp only [pending, held]
  omega

theorem pending_lt_held (htop : s.running.get side = request :: rest) :
    s.pending request < s.held request := by
  have hpos : 0 < (s.running.get side).count request := by
    rw [htop, count_cons_self]
    omega
  have hle := s.running.count_get_le side request
  simp only [pending, held]
  omega

variable [ServingWorld W]

/-- An unmarked request that waits is nowhere else and has one sequence. The requests of
`arriving` are about to wait, those of `leaving` are about to run. -/
def OneSequence (arriving leaving : List RequestId) (s : SchedulerState (GroupWorld W)) : Prop :=
  ∀ r, (s.world.group r).preempted = false → 0 < s.pending r + arriving.count r →
    s.held r + arriving.count r + leaving.count r = 1 ∧ (s.world.group r).numSequences = 1

/-- No request gets another number of sequences, no mark is taken back, and no unmarked
request begins to wait. -/
structure Quiet (s t : SchedulerState (GroupWorld W)) : Prop where
  numSequences : ∀ r, (t.world.group r).numSequences = (s.world.group r).numSequences
  marked : ∀ r, (s.world.group r).preempted = true → (t.world.group r).preempted = true
  pending : ∀ r, (t.world.group r).preempted = false → t.pending r ≤ s.pending r

omit [ServingWorld W] in
theorem Quiet.refl : Quiet s s := ⟨fun _ => rfl, fun _ h => h, fun _ _ => Nat.le_refl _⟩

omit [ServingWorld W] in
theorem Quiet.unmarked (h : Quiet s t) {r : RequestId}
    (hr : (t.world.group r).preempted = false) : (s.world.group r).preempted = false := by
  cases hs : (s.world.group r).preempted with
  | false => rfl
  | true =>
      rw [h.marked r hs] at hr
      cases hr

omit [ServingWorld W] in
theorem Quiet.trans (first : Quiet s t) (second : Quiet t u) : Quiet s u where
  numSequences := fun r => (second.numSequences r).trans (first.numSequences r)
  marked := fun r hr => second.marked r (first.marked r hr)
  pending := fun r hr => (second.pending r hr).trans (first.pending r (second.unmarked hr))

omit [ServingWorld W] in
theorem OneSequence.quiet (h : OneSequence [] [] s) (quiet : Quiet s t)
    (same : ∀ r, s.held r = s.pending r → t.held r ≤ s.held r) : OneSequence [] [] t := by
  intro r hr hpos
  have hpending : t.pending r ≤ s.pending r := quiet.pending r hr
  have hle := pending_le_held t r
  have hle' := pending_le_held s r
  obtain ⟨hone, hnum⟩ := h r (quiet.unmarked hr) (by
    omega)
  have hheld := same r (by omega)
  constructor
  · omega
  · rw [quiet.numSequences r]
    exact hnum

structure Tended (s : SchedulerState (GroupWorld W)) : Prop where
  sided : s.Sided
  one : OneSequence [] [] s

theorem Tended.kept (h : Tended s) (kept : Kept s t) (quiet : Quiet s t) : Tended t where
  sided := kept.sided h.sided
  one := h.one.quiet quiet fun r _ => Nat.le_of_eq (kept.held r)

/-! ### Calls of the cache manager

They answer and change what they like, but no group. -/

/-- Some calls of the cache manager have been made. -/
def Called (s t : SchedulerState (GroupWorld W)) : Prop :=
  ∃ w : GroupWorld W, t = s.setWorld w ∧ w.group = s.world.group

omit [ServingWorld W] in
theorem Called.refl : Called s s := ⟨s.world, rfl, rfl⟩

omit [ServingWorld W] in
theorem Called.trans (first : Called s t) (second : Called t u) : Called s u := by
  obtain ⟨w, rfl, hw⟩ := first
  obtain ⟨w', rfl, hw'⟩ := second
  exact ⟨w', rfl, hw'.trans hw⟩

omit [ServingWorld W] in
theorem called_setWorld (h : w.group = s.world.group) : Called s (s.setWorld w) := ⟨w, rfl, h⟩

theorem Called.kept (h : Called s t) : Kept s t := by
  obtain ⟨w, rfl, -⟩ := h
  exact kept_setWorld w

omit [ServingWorld W] in
theorem Called.quiet (h : Called s t) : Quiet s t := by
  obtain ⟨w, rfl, hw⟩ := h
  constructor
  · intro r
    exact congrArg (fun group => (group r).numSequences) hw
  · intro r hr
    exact (congrArg (fun group => (group r).preempted) hw).trans hr
  · exact fun r _ => Nat.le_refl _

theorem group_allocate (w : GroupWorld W) (sequence : SequenceId) (numTokens : Nat) :
    IfOk (allocate w sequence numTokens) (fun r => r.2.group = w.group) := by
  apply ensures_of_forall_ok
  intro r hr
  obtain ⟨answer, -, rfl⟩ := map_eq_ok hr
  rfl

theorem group_deallocate (w : GroupWorld W) (sequence : SequenceId) :
    IfOk (deallocate w sequence) (fun w' => w'.group = w.group) := by
  apply ensures_of_forall_ok
  intro w' hw
  obtain ⟨base, -, rfl⟩ := map_eq_ok hw
  rfl

theorem group_cache (w : GroupWorld W) (sequence : SequenceId) :
    IfOk (cache w sequence) (fun w' => w'.group = w.group) := by
  apply ensures_of_forall_ok
  intro w' hw
  obtain ⟨base, -, rfl⟩ := map_eq_ok hw
  rfl

theorem group_foldlM_deallocate (seqs : List SequenceId) (w : GroupWorld W) :
    IfOk (seqs.foldlM deallocate w) (fun w' => w'.group = w.group) := by
  refine Ensures.foldlM (I := fun _ (w' : GroupWorld W) => w'.group = w.group) ?_ rfl
  intro sequence rest w' hw
  exact (group_deallocate w' sequence).mono_post fun _ h => h.trans hw

theorem called_deallocateSequences (seqs : List SequenceId) :
    IfOk (s.deallocateSequences seqs) (Called s) :=
  (group_foldlM_deallocate seqs s.world).bind fun _ hw => called_setWorld hw

theorem called_deallocateRequest : IfOk (s.deallocateRequest request) (Called s) :=
  (group_foldlM_deallocate _ s.world).bind fun _ hw => called_setWorld hw

theorem called_cacheAfterPrefill (sequence : SequenceId) :
    IfOk (s.cacheAfterPrefill sequence) (Called s) := by
  unfold cacheAfterPrefill
  dsimp only
  split
  · exact (group_cache _ sequence).bind fun _ hw => called_setWorld hw
  · exact called_setWorld rfl

/-- The loop over the sequences calls the world and marks no request. -/
theorem called_grantEach
    {one : SequenceId → Grant → SchedulerState (GroupWorld W) →
      Except Check (Grant × SchedulerState (GroupWorld W))}
    (seqs : List SequenceId) (grant : Grant)
    (granted : ∀ sequence grant t,
      IfOk (one sequence grant t) (fun r => Called t r.2)) :
    IfOk (grantEach one seqs grant s) (fun r => Called s r.2) := by
  apply ensures_grantEach (I := fun _ _ t => Called s t) (Q := fun _ t => Called s t)
  · exact fun _ _ _ _ h => h
  · intro sequence rest grant t ht
    refine (granted sequence grant t).mono_post fun r hr => ?_
    exact ⟨fun _ => ht.trans hr, fun _ => ht.trans hr⟩
  · exact fun _ _ h => h
  · exact Called.refl

theorem called_grantDecode (sequence : SequenceId) (grant : Grant) :
    IfOk (grantDecode options sequence grant s) (fun r => Called s r.2) := by
  unfold grantDecode
  dsimp only
  split
  · exact Called.refl
  split
  · exact Called.refl
  apply (group_allocate _ sequence _).bind
  rintro ⟨allocated, w⟩ hw
  split
  · exact called_setWorld hw
  · apply (called_cacheAfterPrefill sequence).bind
    intro t ht
    exact (called_setWorld hw).trans ht

theorem called_allocateBeam (seqs : List SequenceId) (grant : Grant) :
    IfOk (allocateBeam options seqs grant s) (fun r => Called s r.2.2) := by
  induction seqs generalizing grant s with
  | nil => exact Called.refl
  | cons sequence seqs ih =>
      apply (group_allocate _ sequence _).bind
      rintro ⟨allocated, w⟩ hw
      dsimp only
      split
      · exact called_setWorld hw
      · apply (called_cacheAfterPrefill sequence).bind
        intro t ht
        exact (ih _).mono_post fun r hr => ((called_setWorld hw).trans ht).trans hr

omit [ServingWorld W] in
theorem quiet_setWaiting {queue : List RequestId} {pops : List Pop}
    (h : ∀ r, (s.world.group r).preempted = false →
      queue.count r ≤ (s.waiting.get side).count r) :
    Quiet s { s with waiting := s.waiting.set side queue, pops := pops } := by
  constructor
  · exact fun _ => rfl
  · exact fun _ h => h
  · intro r hr
    have hset := s.waiting.count_set side queue r
    have hle := h r hr
    simp only [pending]
    omega

theorem quiet_popWaiting : Quiet s (s.popWaiting side request) := by
  apply quiet_setWaiting
  intro r hr
  rw [(order_perm _ _).count_eq]
  exact (tail_sublist _).count_le r

theorem quiet_pushWaiting (h : (s.world.group request).preempted = true) :
    Quiet s (s.pushWaiting side request) := by
  apply quiet_setWaiting
  intro r hr
  have hne : request ≠ r := by
    rintro rfl
    rw [h] at hr
    cases hr
  rw [(order_perm _ _).count_eq, count_cons_of_ne hne]

theorem quiet_setPreempted : Quiet s (s.setWorld (setPreempted s.world request)) := by
  have same : ∀ r, ((setPreempted s.world request).group r).numSequences =
      (s.world.group r).numSequences := by
    intro r
    simp only [setPreempted, GroupWorld.setGroup]
    by_cases hr : r = request
    · subst hr
      rw [update_self]
    · rw [update_of_ne hr]
  constructor
  · exact same
  · intro r hr
    simp only [setWorld, setPreempted, GroupWorld.setGroup]
    by_cases hne : r = request
    · subst hne
      rw [update_self]
    · rw [update_of_ne hne]
      exact hr
  · exact fun _ _ => Nat.le_refl _

@[simp] theorem marked_setPreempted (w : GroupWorld W) (request : RequestId) :
    ((setPreempted w request).group request).preempted = true := by
  simp only [setPreempted, GroupWorld.setGroup, update_self]

theorem quiet_preemptBack {into : RequestId → Side} :
    IfOk (s.preemptBack side side into) (Quiet s) := by
  unfold preemptBack
  split
  · exact trivial
  rename_i victim hlast
  apply called_deallocateRequest.bind
  intro t ht
  have hback : (t.running.get side).getLast? = some victim := by
    obtain ⟨w, rfl, -⟩ := ht
    exact hlast
  rw [popBack_last hback]
  have popped : Quiet t { t with
      running := t.running.set side (t.running.get side).dropLast
      pops := t.pops ++ [⟨victim, victim⟩] } :=
    ⟨fun _ => rfl, fun _ h => h, fun _ _ => Nat.le_refl _⟩
  exact ((ht.quiet.trans popped).trans quiet_setPreempted).trans
    (quiet_pushWaiting (marked_setPreempted _ _))

theorem quiet_preemptOffline (n : Nat) : IfOk (preemptOffline n s) (Quiet s) := by
  induction n generalizing s with
  | zero => exact Quiet.refl
  | succ n ih =>
      apply quiet_preemptBack.bind
      intro t ht
      exact ih.mono_post fun u hu => ht.trans hu

theorem quiet_evictAndAllocate (allocated : Bool) (sequence : SequenceId) (numTokens : Nat) :
    IfOk (s.evictAndAllocate options allocated request sequence numTokens)
      (fun r => Quiet s r.2) := by
  unfold evictAndAllocate
  split
  · exact Quiet.refl
  split
  · apply ensures_any.bind
    rintro (_ | count) -
    · exact Quiet.refl
    apply (quiet_preemptOffline count).bind
    intro t ht
    apply (group_allocate _ sequence _).bind
    intro r hr
    exact ht.trans (called_setWorld hr).quiet
  · exact Quiet.refl

theorem quiet_grantPrefill (sequence : SequenceId) (grant : Grant) :
    IfOk (grantPrefill options request sequence grant s) (fun r => Quiet s r.2) := by
  unfold grantPrefill
  dsimp only
  split
  · exact Quiet.refl
  apply (group_allocate _ sequence _).bind
  rintro ⟨allocated, w⟩ hw
  apply (quiet_evictAndAllocate _ _ _).bind
  rintro ⟨allocated, t⟩ ht
  have quiet : Quiet s t := (called_setWorld hw).quiet.trans ht
  have released : IfOk (t.deallocateSequences [sequence]) (Quiet s) :=
    (called_deallocateSequences [sequence]).mono_post fun u hu => quiet.trans hu.quiet
  split
  · exact released.bind fun u hu => hu
  split
  · exact released.bind fun u hu => hu
  · exact quiet

theorem quiet_settlePrefill (grant : Grant) :
    IfOk (s.settlePrefill side request grant) (fun r => Quiet s r.2) := by
  unfold settlePrefill
  split
  · rename_i reason _
    apply (called_deallocateSequences _).bind
    intro t ht
    have quiet : Quiet s t := ht.quiet
    cases reason with
    | budget => exact ⟨quiet.numSequences, quiet.marked, quiet.pending⟩
    | blocks => exact ⟨quiet.numSequences, quiet.marked, quiet.pending⟩
  · have popped : Quiet s (s.popWaiting side request) := quiet_popWaiting
    exact ⟨popped.numSequences, popped.marked, popped.pending⟩

theorem quiet_finishWaiting : IfOk (s.finishWaiting side request) (Quiet s) := by
  apply called_deallocateRequest.bind
  intro t ht
  have finished : Quiet t { t with finishedRequests := t.finishedRequests ++ [request] } :=
    ⟨fun _ => rfl, fun _ h => h, fun _ _ => Nat.le_refl _⟩
  exact (ht.quiet.trans finished).trans quiet_popWaiting

theorem quiet_rotate (h : s.waiting.get side = request :: rest) :
    Quiet s ((s.popWaiting side request).pushWaiting side request) := by
  constructor
  · exact fun _ => rfl
  · exact fun _ h => h
  · intro r _
    have hpop := (moved_popWaiting h).held r
    have hpush := s.waiting.count_set side (order s.world (s.waiting.get side).tail) r
    have hset := (s.popWaiting side request).waiting.count_set side
      (order s.world (request :: (s.popWaiting side request).waiting.get side)) r
    simp only [popWaiting, Sides.get_set, h, tail_cons, (order_perm _ _).count_eq,
      count_cons] at hpop hpush hset
    simp only [pending, pushWaiting, popWaiting, Sides.get_set, h, tail_cons]
    omega

/-- Round of the waiting queue. -/
theorem quiet_prefillRound : IfOk (s.prefillRound options side) (fun r => Quiet s r.2) := by
  unfold prefillRound
  split
  · exact Quiet.refl
  rename_i request rest htop
  split
  · exact ⟨fun _ => rfl, fun _ h => h, fun _ _ => Nat.le_refl _⟩
  split
  · exact quiet_finishWaiting.bind fun t ht => ht
  split
  · exact trivial
  have fetched : Quiet s (s.setWorld (updatePrefetchResult s.world request).2) :=
    (called_setWorld (w := (updatePrefetchResult s.world request).2) rfl).quiet
  dsimp only
  split
  · exact fetched.trans (quiet_rotate htop)
  · have granted : IfOk (grantEach (grantPrefill options request)
        (ServingWorld.sequences (updatePrefetchResult s.world request).2 request) {}
        (s.setWorld (updatePrefetchResult s.world request).2))
        (fun r => Quiet s r.2) := by
      refine ensures_grantEach (I := fun _ _ t => Quiet s t) (Q := fun _ t => Quiet s t)
        (fun _ _ _ _ h => h) ?_ (fun _ _ h => h) fetched
      intro sequence rest grant t ht
      refine (quiet_grantPrefill sequence grant).mono_post fun r hr => ?_
      exact ⟨fun _ => ht.trans hr, fun _ => ht.trans hr⟩
    apply granted.bind
    rintro ⟨grant, t⟩ ht
    exact (quiet_settlePrefill grant).mono_post fun r hr => ht.trans hr

theorem quiet_refuseWaiting : IfOk (s.refuseWaiting side) (Quiet s) := by
  unfold refuseWaiting
  split
  · exact Quiet.refl
  split
  · dsimp only
    apply called_deallocateRequest.bind
    intro t ht
    have quiet : Quiet s t := quiet_popWaiting.trans ht.quiet
    split
    · exact ⟨quiet.numSequences, quiet.marked, quiet.pending⟩
    split
    · exact ⟨quiet.numSequences, quiet.marked, quiet.pending⟩
    · exact trivial
  · exact Quiet.refl

theorem tended_prefillRound (h : Tended s) :
    IfOk (s.prefillRound options side) (fun r => Tended r.2) :=
  ((kept_prefillRound h.sided).both quiet_prefillRound).mono_post fun _ hr => h.kept hr.1 hr.2

theorem Tended.resetExhausted (h : Tended s) :
    Tended { s with budgetExhausted := false, blocksExhausted := false } :=
  ⟨h.sided, h.one⟩

theorem tended_handlePrefillRequests (rounds : Nat) (h : Tended s) :
    IfOk (s.handlePrefillRequests options rounds side) Tended := by
  have looped : IfOk (loop (fun s => s.prefillGoesOn side)
      (fun s => s.prefillRound options side) .roundsExceeded rounds
      { s with budgetExhausted := false, blocksExhausted := false }) Tended :=
    Ensures.loop (fun _ ht _ => tended_prefillRound ht) trivial h.resetExhausted
  apply looped.bind
  intro t ht
  have refused : IfOk (t.refuseWaiting side) Tended :=
    (kept_refuseWaiting.both quiet_refuseWaiting).mono_post fun _ hu => ht.kept hu.1 hu.2
  apply refused.bind
  intro u hu
  split
  · exact hu
  · exact ⟨hu.sided, hu.one⟩

theorem Tended.next (h : Tended s) (sided : t.Sided) (quiet : Quiet s t)
    (same : ∀ r, s.held r = s.pending r → t.held r ≤ s.held r) : Tended t :=
  ⟨sided, h.one.quiet quiet same⟩

theorem tended_failRunning (h : Tended s) (htop : s.running.get side = request :: rest) :
    IfOk (s.failRunning request) Tended := by
  unfold failRunning
  cases hqueue : s.running.get .online with
  | nil =>
      simp only [popTop, hqueue]
      exact trivial
  | cons lost queue =>
      rw [popTop_cons hqueue]
      apply called_deallocateRequest.bind
      rintro t ⟨w, rfl, hw⟩
      -- whichever request is lost, the counts are those of a pop of it
      have moved := ((moved_tail hqueue).trans (kept_setWorld w)).trans (moved_fail request)
      have group : w.group = s.world.group := by
        rw [hw]
      refine h.next ?_ ?_ ?_
      · exact moved.sided h.sided
      · constructor
        · exact fun r => congrArg (fun group => (group r).numSequences) group
        · exact fun r hr => (congrArg (fun group => (group r).preempted) group).trans hr
        · exact fun _ _ => Nat.le_refl _
      · intro r hr
        have hcount := moved.held r
        have hne : request ≠ r := by
          rintro rfl
          have hlt := pending_lt_held htop
          omega
        simp only [nil_append, count_cons_of_ne hne] at hcount
        exact Nat.le.intro hcount

theorem tended_popSchedule (grant : Grant) (h : Tended s)
    (htop : s.running.get side = request :: rest) : IfOk (s.popTop side request)
      (fun t => Tended (t.schedule request grant)) := by
  rw [popTop_cons htop]
  have moved := (moved_tail htop).trans (moved_schedule request grant)
  apply h.kept (moved.kept (List.Perm.refl _))
  exact ⟨fun _ => rfl, fun _ h => h, fun _ _ => Nat.le_refl _⟩

theorem tended_handleAbnormalRequest (grant : Grant) (reason : Exhausted) (h : Tended s)
    (htop : s.running.get side = request :: rest) :
    IfOk (s.handleAbnormalRequest side request grant reason) Tended := by
  unfold handleAbnormalRequest
  split
  · split
    · exact h
    cases reason with
    | budget => exact tended_failRunning h htop
    | blocks =>
        dsimp only
        split
        · exact trivial
        split
        · exact h
        · exact tended_failRunning h htop
  split
  · exact h
  · exact (tended_popSchedule grant h htop).bind fun t ht => ht

theorem tended_preemptBack {into : RequestId → Side} (h : Tended s)
    (hinto : ∀ r, sideOf (W := GroupWorld W) r = side → into r = side) :
    IfOk (s.preemptBack side side into) Tended :=
  ((kept_preemptBack h.sided hinto).both quiet_preemptBack).mono_post
    fun _ ht => h.kept ht.1.1 ht.2

theorem tended_settleRunning (grant : Grant) (h : Tended s)
    (htop : s.running.get side = request :: rest) :
    IfOk (s.settleRunning options side side request grant) (fun r => Tended r.2) := by
  unfold settleRunning
  split
  · exact trivial
  split
  · exact (tended_popSchedule grant h htop).bind fun t ht => ht
  · apply (tended_handleAbnormalRequest grant .budget h htop).bind
    exact fun t ht => ⟨ht.sided, ht.one⟩
  split
  · exact (tended_preemptBack h fun _ _ => rfl).bind fun t ht => ht
  split
  · split
    · exact trivial
    exact (tended_preemptBack h fun _ hr => hr).bind fun t ht => ht
  · apply (tended_handleAbnormalRequest grant .blocks h htop).bind
    exact fun t ht => ⟨ht.sided, ht.one⟩

/-- One beam-search request is visited. -/
theorem tended_beamRound (h : Tended s) (htop : s.running.get side = request :: rest) :
    IfOk (s.beamRound options side request) (fun r => Tended r.2) := by
  have hside : sideOf (W := GroupWorld W) request = side :=
    h.sided side request (.inr (htop ▸ mem_cons_self))
  unfold beamRound
  dsimp only
  split
  · rw [popTop_cons htop]
    have moved := moved_tail htop
    apply h.next (moved.sided h.sided)
    · exact ⟨fun _ => rfl, fun _ h => h, fun _ _ => Nat.le_refl _⟩
    · intro r _
      have hcount := moved.held r
      exact Nat.le.intro hcount
  split
  · exact tended_settleRunning _ h htop
  split
  · exact tended_settleRunning _ h htop
  apply (called_allocateBeam _ _).bind
  rintro ⟨allocated, grant, t⟩ ht
  have htended : Tended t := h.kept ht.kept ht.quiet
  have htop' : t.running.get side = request :: rest := by
    obtain ⟨w, rfl, -⟩ := ht
    exact htop
  split
  · apply called_deallocateRequest.bind
    rintro u ⟨w, rfl, hw⟩
    have htop'' : (t.setWorld w).running.get side = request :: rest := htop'
    rw [popTop_cons htop'']
    have moved := ((((kept_setWorld w).trans (moved_tail htop'')).trans
      (kept_setWorld (setPreempted w request))).trans (moved_pushWaiting _ hside))
    have freed : Quiet t (t.setWorld w) := (called_setWorld hw).quiet
    have popped : Quiet (t.setWorld w) { t.setWorld w with
        running := (t.setWorld w).running.set side rest
        pops := (t.setWorld w).pops ++ [⟨request, request⟩] } :=
      ⟨fun _ => rfl, fun _ h => h, fun _ _ => Nat.le_refl _⟩
    rw [hside]
    apply htended.kept (moved.kept (List.Perm.refl _))
    exact ((freed.trans popped).trans quiet_setPreempted).trans
      (quiet_pushWaiting (marked_setPreempted _ _))
  · exact tended_settleRunning _ htended htop'

/-- Round of the running queue. -/
theorem tended_decodeRound (h : Tended s) :
    IfOk (s.decodeRound options side) (fun r => Tended r.2) := by
  unfold decodeRound
  split
  · exact h
  rename_i request rest htop
  split
  · exact tended_beamRound h htop
  apply (called_grantEach _ _ fun _ _ _ => called_grantDecode _ _).bind
  rintro ⟨grant, t⟩ ht
  have htop' : t.running.get side = request :: rest := by
    obtain ⟨w, rfl, -⟩ := ht
    exact htop
  exact tended_settleRunning grant (h.kept ht.kept ht.quiet) htop'

theorem tended_handleDecodeRequests (rounds : Nat) (h : Tended s) :
    IfOk (s.handleDecodeRequests options rounds side) Tended :=
  Ensures.loop (fun _ ht _ => tended_decodeRound ht) trivial h

end SchedulerState

end Xllm
