import Mathlib.Algebra.Order.BigOperators.Group.List
import Xllm.Scheduler.Calls
import Xllm.Scheduler.PlainCache

/-!
# Who has a request

A request is in the queue of new requests, in a waiting queue, in a running queue, in
the batch, among the finished requests of this call, or it has been answered. `held`
counts how often a request occurs there. The calls of the schedulers move requests
between these places and keep the counts, except for three branches: for an offline
request that gets nothing the online queue is popped, for an offline request that is
preempted for another the chunked-prefill scheduler pops the online queue, too, and a
beam-search request without active sequences is popped and forgotten.
-/

namespace Xllm

open Contract List

namespace SchedulerState

open ServingWorld
open Sequence (subSize)

variable {W : Type} {options : SchedulerOptions} {s t u : SchedulerState W}

theorem mem_pops_append {pops : List Pop} {pop : Pop} (h : pop ∈ pops ++ [⟨request, request⟩]) :
    pop ∈ pops ∨ pop.removed = pop.inspected := by
  refine (List.mem_append.mp h).imp_right fun last => ?_
  rw [List.mem_singleton.mp last]

theorem popTop_cons {inspected : RequestId} (h : s.running.get side = request :: rest) :
    s.popTop side inspected = .ok { s with
      running := s.running.set side rest
      pops := s.pops ++ [⟨inspected, request⟩] } := by
  simp only [popTop, h]

theorem popBack_last (h : (s.running.get side).getLast? = some request) :
    s.popBack side request = .ok { s with
      running := s.running.set side (s.running.get side).dropLast
      pops := s.pops ++ [⟨request, request⟩] } := by
  simp only [popBack, h]

variable [ServingWorld W]

variable {side : Side} {request : RequestId} {rest : List RequestId}

def held (s : SchedulerState W) (request : RequestId) : Nat :=
  s.requestQueue.count request + s.waiting.count request + s.running.count request +
    s.runningRequests.count request + s.finishedRequests.count request + s.answered.count request

/-- The requests of a queue are on its side. -/
def Sided (s : SchedulerState W) : Prop :=
  ∀ side request, request ∈ s.waiting.get side ∨ request ∈ s.running.get side →
    sideOf (W := W) request = side

/-- Every pop has removed the request that was inspected. -/
def PopsMatch (s : SchedulerState W) : Prop := ∀ pop ∈ s.pops, pop.removed = pop.inspected

/-- What has been taken from the places of `s`, and what has been put there. -/
structure Moved (taken put : List RequestId) (s t : SchedulerState W) : Prop where
  pops : s.PopsMatch → t.PopsMatch
  held : ∀ request, t.held request + taken.count request = s.held request + put.count request
  sided : s.Sided → t.Sided

/-- Every request is where it was, or has been moved. -/
abbrev Kept : SchedulerState W → SchedulerState W → Prop := Moved [] []

namespace Moved

variable {taken taken' put put' : List RequestId}

theorem refl : Kept s s where
  pops := fun h => h
  held := fun _ => rfl
  sided := fun h => h

theorem trans (first : Moved taken put s t) (second : Moved taken' put' t u) :
    Moved (taken ++ taken') (put ++ put') s u where
  pops := fun h => second.pops (first.pops h)
  held := by
    intro r
    have h := first.held r
    have h' := second.held r
    rw [count_append, count_append]
    omega
  sided := fun h => second.sided (first.sided h)

theorem kept (h : Moved taken put s t) (same : taken.Perm put) : Kept s t where
  pops := h.pops
  held := by
    intro r
    have hr := h.held r
    rw [same.count_eq r] at hr
    omega
  sided := h.sided

end Moved

@[simp] theorem offline_of_sideOf (h : sideOf (W := W) request = .offline) :
    offline (W := W) request = true := by
  by_contra online
  rw [sideOf, if_neg online] at h
  cases h

theorem kept_setWorld (w : W) : Kept s (s.setWorld w) where
  pops := fun h => h
  held := fun _ => rfl
  sided := fun h => h

/-- A waiting queue is replaced. -/
theorem moved_setWaiting {taken put queue : List RequestId} {pops : List Pop}
    (matched : ∀ pop ∈ pops, pop ∈ s.pops ∨ pop.removed = pop.inspected)
    (counts : ∀ r, queue.count r + taken.count r = (s.waiting.get side).count r + put.count r)
    (sides : s.Sided → ∀ r ∈ queue, sideOf (W := W) r = side) :
    Moved taken put s { s with waiting := s.waiting.set side queue, pops := pops } where
  pops := fun h pop hpop => (matched pop hpop).elim (h pop) id
  held := by
    intro r
    have hset := s.waiting.count_set side queue r
    have hr := counts r
    simp only [held]
    omega
  sided := by
    intro hs side' r hr
    by_cases h : side' = side
    · subst h
      rw [Sides.get_set] at hr
      exact hr.elim (sides hs r) fun hrun => hs side' r (.inr hrun)
    · rw [Sides.get_set_of_ne _ _ _ h] at hr
      exact hs side' r hr

/-- A running queue is replaced. -/
theorem moved_setRunning {taken put queue : List RequestId} {pops : List Pop}
    (matched : ∀ pop ∈ pops, pop ∈ s.pops ∨ pop.removed = pop.inspected)
    (counts : ∀ r, queue.count r + taken.count r = (s.running.get side).count r + put.count r)
    (sides : s.Sided → ∀ r ∈ queue, sideOf (W := W) r = side) :
    Moved taken put s { s with running := s.running.set side queue, pops := pops } where
  pops := fun h pop hpop => (matched pop hpop).elim (h pop) id
  held := by
    intro r
    have hset := s.running.count_set side queue r
    have hr := counts r
    simp only [held]
    omega
  sided := by
    intro hs side' r hr
    by_cases h : side' = side
    · subst h
      rw [Sides.get_set] at hr
      exact hr.elim (fun hwait => hs side' r (.inl hwait)) (sides hs r)
    · rw [Sides.get_set_of_ne _ _ _ h] at hr
      exact hs side' r hr

theorem count_cons_eq (request : RequestId) (l : List RequestId) (r : RequestId) :
    (request :: l).count r = l.count r + [request].count r := by
  rw [count_cons, count_singleton]

theorem moved_pushWaiting (request : RequestId) (h : sideOf (W := W) request = side) :
    Moved [] [request] s (s.pushWaiting side request) := by
  apply moved_setWaiting fun _ hpop => .inl hpop
  · intro r
    rw [(order_perm _ _).count_eq, count_cons_eq, count_nil, Nat.add_zero]
  · intro hs r hr
    rcases List.mem_cons.1 ((order_perm _ _).mem_iff.1 hr) with rfl | hr
    · exact h
    · exact hs side r (.inl hr)

theorem moved_popWaiting (h : s.waiting.get side = request :: rest) :
    Moved [request] [] s (s.popWaiting side request) := by
  apply moved_setWaiting
  · intro pop hpop
    rw [h] at hpop
    exact mem_pops_append hpop
  · intro r
    rw [(order_perm _ _).count_eq, h, tail_cons, count_cons_eq request rest,
      count_nil, Nat.add_zero]
  · intro hs r hr
    have hmem := (order_perm _ _).mem_iff.1 hr
    exact hs side r (.inl (mem_of_mem_tail hmem))

theorem moved_pushRunning (ifBack : Bool) (h : sideOf (W := W) request = side) :
    IfOk (s.pushRunning options side request ifBack)
      (fun t => Moved [] [request] s t ∧ t.runningRequests = s.runningRequests) := by
  have sides : s.Sided → ∀ r, r = request ∨ r ∈ s.running.get side → sideOf (W := W) r = side := by
    intro hs r hr
    rcases hr with rfl | hr
    · exact h
    · exact hs side r (.inr hr)
  simp only [pushRunning]
  split
  · refine ⟨moved_setRunning (fun _ hpop => .inl hpop) ?_ ?_, rfl⟩
    · intro r
      cases ifBack with
      | true => simp [count_append]
      | false => simp [count_cons]
    · intro hs r hr
      refine sides hs r ?_
      cases ifBack with
      | true => simpa [or_comm] using hr
      | false => simpa using hr
  · cases side with
    | online =>
        refine ⟨moved_setRunning (fun _ hpop => .inl hpop) ?_ ?_, rfl⟩
        · intro r
          rw [(insertRunning_perm _ _ _).count_eq, count_cons_eq, count_nil, Nat.add_zero]
        · intro hs r hr
          exact sides hs r (List.mem_cons.1 ((insertRunning_perm _ _ _).mem_iff.1 hr))
    | offline =>
        dsimp only
        split
        · rename_i hempty
          refine ⟨moved_setRunning (fun _ hpop => .inl hpop) ?_ ?_, rfl⟩
          · intro r
            rw [hempty]
            simp
          · intro hs r hr
            exact sides hs r (.inl (List.mem_singleton.1 hr))
        · exact trivial

/-- The first running request is taken out. -/
theorem moved_tail (h : s.running.get side = request :: rest) :
    Moved [request] [] s { s with
      running := s.running.set side rest
      pops := s.pops ++ [⟨request, request⟩] } := by
  apply moved_setRunning fun _ hpop => mem_pops_append hpop
  · intro r
    rw [h, count_cons_eq request rest, count_nil, Nat.add_zero]
  · intro hs r hr
    exact hs side r (.inr (h ▸ mem_cons_of_mem _ hr))

theorem moved_dropLast (h : (s.running.get side).getLast? = some request) :
    Moved [request] [] s { s with
      running := s.running.set side (s.running.get side).dropLast
      pops := s.pops ++ [⟨request, request⟩] } := by
  have hsplit : (s.running.get side).dropLast ++ [request] = s.running.get side :=
    dropLast_append_getLast? request h
  apply moved_setRunning fun _ hpop => mem_pops_append hpop
  · intro r
    rw [count_nil, Nat.add_zero, ← count_append, hsplit]
  · intro hs r hr
    exact hs side r (.inr (mem_of_mem_dropLast hr))

theorem moved_fail (request : RequestId) : Moved [] [request] s (s.fail request) where
  pops := fun h => h
  held := by
    intro r
    simp only [held, fail, count_append, count_nil]
    omega
  sided := fun h => h

/-- A scheduled request is held by the batch. -/
theorem moved_schedule (request : RequestId) (grant : Grant) :
    Moved [] [request] s (s.schedule request grant) where
  pops := fun h => h
  held := by
    intro r
    simp only [held, schedule, count_append, count_nil]
    omega
  sided := fun h => h

theorem moved_finish :
    Moved [] [request] s { s with finishedRequests := s.finishedRequests ++ [request] } where
  pops := fun h => h
  held := by
    intro r
    simp only [held, count_append, count_nil]
    omega
  sided := fun h => h

theorem deallocateRequest_setWorld : IfOk (s.deallocateRequest request)
    (fun t => ∃ w, t = s.setWorld w) :=
  ensures_any.bind fun w _ => ⟨w, rfl⟩

theorem deallocateSequences_setWorld (seqs : List SequenceId) :
    IfOk (s.deallocateSequences seqs) (fun t => ∃ w, t = s.setWorld w) :=
  ensures_any.bind fun w _ => ⟨w, rfl⟩

/-- A preempted request moves from its running queue to its waiting queue. -/
theorem kept_preemptBack {into : RequestId → Side} (hs : s.Sided)
    (hinto : ∀ r, sideOf (W := W) r = side → into r = side) :
    IfOk (s.preemptBack side side into) (fun t =>
      Kept s t ∧ ∀ other, other ≠ side →
        t.waiting.get other = s.waiting.get other ∧ t.running.get other = s.running.get other) := by
  unfold preemptBack
  split
  · exact trivial
  · rename_i victim hlast
    have hmem : victim ∈ s.running.get side := mem_of_getLast? hlast
    have hside := hs side victim (.inr hmem)
    refine deallocateRequest_setWorld.bind ?_
    rintro _ ⟨w, rfl⟩
    have hback : ((s.setWorld w).running.get side).getLast? = some victim := hlast
    rw [popBack_last hback]
    refine ⟨?_, ?_⟩
    · refine Moved.kept ((((kept_setWorld w).trans (moved_dropLast hback)).trans
        (kept_setWorld _)).trans (moved_pushWaiting _ ?_)) ?_
      · rw [hinto victim hside]
        exact hside
      · exact Perm.refl _
    · intro other hother
      rw [hinto victim hside]
      exact ⟨Sides.get_set_of_ne _ _ _ hother, Sides.get_set_of_ne _ _ _ hother⟩

theorem kept_preemptOffline (n : Nat) (hs : s.Sided) : IfOk (preemptOffline n s) (fun t =>
      Kept s t ∧ t.waiting.online = s.waiting.online ∧ t.running.online = s.running.online) := by
  induction n generalizing s with
  | zero => exact ⟨Moved.refl, rfl, rfl⟩
  | succ n ih =>
      refine (kept_preemptBack hs fun _ _ => rfl).bind ?_
      rintro t ⟨hkept, hother⟩
      obtain ⟨hwait, hrun⟩ := hother .online (by decide)
      refine (ih (hkept.sided hs)).mono_post ?_
      rintro u ⟨hkept', hwait', hrun'⟩
      exact ⟨hkept.trans hkept', hwait'.trans hwait, hrun'.trans hrun⟩

structure KeptFor (request : RequestId) (s t : SchedulerState W) : Prop where
  kept : Kept s t
  queue : t.waiting.get (sideOf (W := W) request) = s.waiting.get (sideOf (W := W) request)

theorem KeptFor.trans (first : KeptFor request s t) (second : KeptFor request t u) :
    KeptFor request s u :=
  ⟨first.kept.trans second.kept, second.queue.trans first.queue⟩

theorem keptFor_setWorld (w : W) : KeptFor request s (s.setWorld w) := ⟨kept_setWorld w, rfl⟩

theorem kept_evictAndAllocate (allocated : Bool) (sequence : SequenceId) (numTokens : Nat)
    (hs : s.Sided) : IfOk (s.evictAndAllocate options allocated request sequence numTokens)
      (fun r => KeptFor request s r.2) := by
  unfold evictAndAllocate
  split
  · exact ⟨Moved.refl, rfl⟩
  split
  · rename_i hevict
    have hside : sideOf (W := W) request = .online := by
      simp [sideOf, hevict.2.1]
    refine ensures_any.bind ?_
    rintro (_ | count) -
    · exact ⟨Moved.refl, rfl⟩
    · refine (kept_preemptOffline count hs).bind ?_
      rintro t ⟨hkept, hwait, -⟩
      refine ensures_any.bind ?_
      rintro ⟨allocated, w⟩ -
      refine ⟨hkept.trans (kept_setWorld w), ?_⟩
      rw [hside]
      exact hwait
  · exact ⟨Moved.refl, rfl⟩

variable {one : SequenceId → Grant → SchedulerState W → Except Check (Grant × SchedulerState W)}

theorem kept_grantEach
    (seqs : List SequenceId) (grant : Grant) (hs : s.Sided)
    (granted : ∀ sequence grant (t : SchedulerState W), t.Sided →
      IfOk (one sequence grant t) (fun r => KeptFor request t r.2)) :
    IfOk (grantEach one seqs grant s) (fun r => KeptFor request s r.2) := by
  refine ensures_grantEach (I := fun _ _ t => KeptFor request s t)
    (Q := fun _ t => KeptFor request s t) (fun _ _ _ _ h => h) ?_ (fun _ _ h => h)
    ⟨Moved.refl, rfl⟩
  intro sequence rest grant t ht
  refine (granted sequence grant t (ht.kept.sided hs)).mono_post fun r hr => ?_
  exact ⟨fun _ => ht.trans hr, fun _ => ht.trans hr⟩

theorem kept_grantPrefill (sequence : SequenceId) (grant : Grant) (hs : s.Sided) :
    IfOk (grantPrefill options request sequence grant s) (fun r => KeptFor request s r.2) := by
  unfold grantPrefill
  dsimp only
  split
  · exact ⟨Moved.refl, rfl⟩
  refine ensures_any.bind ?_
  rintro ⟨allocated, w⟩ -
  refine (kept_evictAndAllocate _ _ _ ((kept_setWorld w).sided hs)).bind ?_
  rintro ⟨allocated, t⟩ ht
  have hkept : KeptFor request s t := (keptFor_setWorld w).trans ht
  have released : IfOk (t.deallocateSequences [sequence]) (KeptFor request s) := by
    refine (deallocateSequences_setWorld [sequence]).mono_post ?_
    rintro _ ⟨w', rfl⟩
    exact hkept.trans (keptFor_setWorld w')
  split
  · exact released.bind fun u hu => hu
  split
  · exact released.bind fun u hu => hu
  · exact hkept

theorem kept_settlePrefill (grant : Grant) (h : s.waiting.get side = request :: rest) :
    IfOk (s.settlePrefill side request grant) (fun r => Kept s r.2) := by
  unfold settlePrefill
  split
  · refine (deallocateSequences_setWorld _).bind ?_
    rintro _ ⟨w, rfl⟩
    rename_i reason _
    cases reason with
    | budget => exact ⟨fun h => h, fun _ => rfl, fun hs => hs⟩
    | blocks => exact ⟨fun h => h, fun _ => rfl, fun hs => hs⟩
  · exact ((moved_popWaiting h).trans (moved_schedule _ grant)).kept (Perm.refl _)

theorem kept_finishWaiting (h : s.waiting.get side = request :: rest) :
    IfOk (s.finishWaiting side request) (Kept s) := by
  refine deallocateRequest_setWorld.bind ?_
  rintro _ ⟨w, rfl⟩
  exact (((kept_setWorld w).trans moved_finish).trans (moved_popWaiting h)).kept
    (Perm.refl _)

/-- Round of `handle_prefill_requests`. -/
theorem kept_prefillRound (hs : s.Sided) :
    IfOk (s.prefillRound options side) (fun r => Kept s r.2) := by
  unfold prefillRound
  split
  · exact Moved.refl
  rename_i request rest htop
  have hside : sideOf (W := W) request = side := hs side request (.inl (htop ▸ mem_cons_self))
  split
  · exact ⟨fun h => h, fun _ => rfl, fun hs => hs⟩
  split
  · exact (kept_finishWaiting htop).bind fun t ht => ht
  split
  · exact trivial
  dsimp only
  split
  · have moved := ((kept_setWorld (updatePrefetchResult s.world request).2).trans
      (moved_popWaiting htop)).trans (moved_pushWaiting _ hside)
    exact moved.kept (Perm.refl _)
  · refine (kept_grantEach _ _ ((kept_setWorld _).sided hs)
      fun _ _ _ ht => kept_grantPrefill _ _ ht).bind ?_
    rintro ⟨grant, t⟩ ht
    have htop' : t.waiting.get side = request :: rest := by
      rw [← hside, ht.queue, hside]
      exact htop
    refine (kept_settlePrefill grant htop').mono_post fun r hr => ?_
    exact ((kept_setWorld _).trans ht.kept).trans hr

theorem kept_refuseWaiting : IfOk (s.refuseWaiting side) (Kept s) := by
  unfold refuseWaiting
  split
  · exact Moved.refl
  rename_i request rest htop
  split
  · dsimp only
    refine deallocateRequest_setWorld.bind ?_
    rintro _ ⟨w, rfl⟩
    have answered := ((moved_popWaiting htop).trans (moved_fail _)).kept (Perm.refl _)
    split
    · exact ⟨answered.pops, answered.held, answered.sided⟩
    split
    · exact ⟨answered.pops, answered.held, answered.sided⟩
    · exact trivial
  · exact Moved.refl

theorem kept_handlePrefillRequests (rounds : Nat) (hs : s.Sided) :
    IfOk (s.handlePrefillRequests options rounds side) (Kept s) := by
  have rounds_kept : IfOk (loop (fun s => s.prefillGoesOn side)
      (fun s => s.prefillRound options side) .roundsExceeded rounds
      { s with budgetExhausted := false, blocksExhausted := false }) (Kept s) := by
    refine Ensures.loop (I := Kept s) ?_ trivial ⟨fun h => h, fun _ => rfl, fun hs => hs⟩
    intro t ht _
    exact (kept_prefillRound (ht.sided hs)).mono_post fun r hr => ht.trans hr
  refine rounds_kept.bind fun t ht => ?_
  refine kept_refuseWaiting.bind fun u hu => ?_
  have hkept : Kept s u := ht.trans hu
  split
  · exact hkept
  · exact ⟨hkept.pops, hkept.held, hkept.sided⟩

/-- Every request is kept, and the queues stay as they are. -/
structure Steady (s t : SchedulerState W) : Prop where
  kept : Kept s t
  waiting : t.waiting = s.waiting
  running : t.running = s.running

theorem Steady.refl : Steady s s := ⟨Moved.refl, rfl, rfl⟩

theorem Steady.trans (first : Steady s t) (second : Steady t u) : Steady s u :=
  ⟨first.kept.trans second.kept, second.waiting.trans first.waiting,
    second.running.trans first.running⟩

theorem steady_setWorld (w : W) : Steady s (s.setWorld w) := ⟨kept_setWorld w, rfl, rfl⟩

theorem steady_grantEach
    (seqs : List SequenceId) (grant : Grant)
    (granted : ∀ sequence grant (t : SchedulerState W),
      IfOk (one sequence grant t) (fun r => Steady t r.2)) :
    IfOk (grantEach one seqs grant s) (fun r => Steady s r.2) := by
  refine ensures_grantEach (I := fun _ _ t => Steady s t) (Q := fun _ t => Steady s t)
    (fun _ _ _ _ h => h) ?_ (fun _ _ h => h) Steady.refl
  intro sequence rest grant t ht
  refine (granted sequence grant t).mono_post fun r hr => ?_
  exact ⟨fun _ => ht.trans hr, fun _ => ht.trans hr⟩

theorem InWorld.steady {T : Terms W} (h : InWorld T s t) : Steady s t := by
  obtain ⟨w, -, rfl⟩ := h
  exact steady_setWorld w

/-- Terms that any world meets. -/
theorem serves_any (options : SchedulerOptions) :
    Serves options ({ world := fun _ => True } : Terms W) where
  calls := by constructor <;> intros <;> first | exact trivial | exact ensures_any
  unfinished := fun _ _ _ _ => trivial
  preempted := fun _ _ => trivial
  active := fun _ _ _ _ _ _ => trivial
  cost := False.elim
  share := False.elim

theorem steady_cacheAfterPrefill (sequence : SequenceId) :
    IfOk (s.cacheAfterPrefill sequence) (Steady s) :=
  (inWorld_cacheAfterPrefill (serves_any {}) trivial sequence).mono_post fun _ h => h.steady

theorem steady_grantDecode (sequence : SequenceId) (grant : Grant) :
    IfOk (grantDecode options sequence grant s) (fun r => Steady s r.2) := by
  unfold grantDecode
  dsimp only
  split
  · exact Steady.refl
  split
  · exact Steady.refl
  refine ensures_any.bind ?_
  rintro ⟨allocated, w⟩ -
  split
  · exact steady_setWorld w
  · refine (steady_cacheAfterPrefill sequence).bind fun t ht => ?_
    exact (steady_setWorld w).trans ht

theorem steady_allocateBeam (seqs : List SequenceId) (grant : Grant) :
    IfOk (allocateBeam options seqs grant s) (fun r => Steady s r.2.2) :=
  (inWorld_allocateBeam (serves_any options) seqs grant trivial).mono_post fun _ h => h.steady

theorem steady_allocateBlocksFor (sequence : SequenceId) (tokenBudget : Nat) :
    IfOk (s.allocateBlocksFor options sequence tokenBudget) (fun r => Steady s r.2.2) :=
  (inWorld_allocateBlocksFor (serves_any options) trivial sequence tokenBudget).mono_post
    fun _ h => h.1.steady

theorem steady_addPrefillStage (sequence : SequenceId) : Steady s (s.addPrefillStage sequence) := by
  unfold addPrefillStage
  split
  · exact ⟨⟨fun h => h, fun _ => rfl, fun hs => hs⟩, rfl, rfl⟩
  · exact Steady.refl

theorem steady_grantRunning (sequence : SequenceId) (grant : Grant) :
    IfOk (grantRunning options sequence grant s) (fun r => Steady s r.2) := by
  unfold grantRunning
  dsimp only
  split
  · exact Steady.refl
  split
  · exact Steady.refl
  refine (steady_allocateBlocksFor sequence _).bind ?_
  rintro ⟨allocated, handled, t⟩ ht
  split
  · exact ht
  · exact ht.trans (steady_addPrefillStage sequence)

/-! ### Safe requests -/

/-- In the worlds with `I` the request has a sequence that has not finished. -/
def Unfinished (I : W → Prop) (request : RequestId) : Prop :=
  ∀ w, I w → ∃ q ∈ sequences w request, sequenceFinished w q = false

/-- In the worlds with `I` the request is finished or cancelled. -/
def Leaves (I : W → Prop) (request : RequestId) : Prop :=
  ∀ w, I w → requestFinished w request = true ∨ requestCancelled w request = true

/-- Whether running requests are checked against the latency budget. -/
def latencyAware : SchedulerKind → SchedulerOptions → Bool
  | .continuous, options => options.decodeLatency
  | .chunkedPrefill, options => options.enableLatencyAwareSchedule

/-- Blocks are refused to the request by the continuous scheduler only, and only while other
requests hold blocks. -/
def Supplied (kind : SchedulerKind) (asks : SequenceId → Nat → Prop) (I : W → Prop)
    (request : RequestId) : Prop :=
  ∀ w₀ w w' q numTokens, I w₀ → q ∈ sequences w₀ request → I w → asks q numTokens →
    allocate w q numTokens = .ok (false, w') →
      kind = .continuous ∧ numUsedBlocks w' ≠ totalNumBlocks w' request

/-- A running request for which no queue is popped that it is not in, and which is not
dropped. -/
structure Safe (kind : SchedulerKind) (options : SchedulerOptions)
    (asks : SequenceId → Nat → Prop) (I : W → Prop) (request : RequestId) : Prop where
  beam : kind = .continuous → checkBeamSearch (W := W) request = true →
    Unfinished I request ∧ offline (W := W) request = false
  latency : offline (W := W) request = true → latencyAware kind options = false
  supplied : offline (W := W) request = true → Supplied kind asks I request

def safeTerms (kind : SchedulerKind) (options : SchedulerOptions)
    (asks : SequenceId → Nat → Prop) (I : W → Prop) : Terms W where
  world := I
  asks := asks
  running := Safe kind options asks I
  batch := fun r => Leaves I r ∨ Safe kind options asks I r

variable {kind : SchedulerKind} {asks : SequenceId → Nat → Prop} {I : W → Prop}

theorem serves_safeTerms (kind : SchedulerKind) (calls : CallsKeep options asks I) :
    Serves options (safeTerms kind options asks I) where
  calls := calls
  unfinished := fun _ _ _ _ => trivial
  preempted := fun _ _ => trivial
  active := by
    intro w r hw unfinished uncancelled batch
    refine batch.resolve_left fun leaves => ?_
    rcases leaves w hw with finished | cancelled
    · rw [unfinished] at finished
      cases finished
    · rw [uncancelled] at cancelled
      cases cancelled
  cost := fun ample => ample.elim
  share := fun ample => ample.elim

/-- What the grants to an offline request come to. -/
structure Tame (kind : SchedulerKind) (request : RequestId) (grant : Grant)
    (t : SchedulerState W) : Prop where
  budget : grant.stopped = some .budget → grant.candidates ≠ []
  blocks : grant.stopped = some .blocks →
    kind = .continuous ∧ numUsedBlocks t.world ≠ totalNumBlocks t.world request

/-- The first sequences have been granted what they asked for, `rest` are left. -/
structure Offers (I : W → Prop) (request : RequestId) (start : SchedulerState W)
    (rest : List SequenceId) (grant : Grant) (t : SchedulerState W) : Prop where
  world : I t.world
  rest_mem : ∀ q ∈ rest, q ∈ sequences start.world request
  tokens : t.remainingTokenBudget = start.remainingTokenBudget
  seqs : t.remainingSeqBudget = start.remainingSeqBudget
  nothing : grant.candidates = [] → grant.allocatedTokens = 0 ∧ grant.allocatedSeqs = 0
  goesOn : grant.stopped = none

variable {grant : Grant}

theorem Tame.of_none (h : grant.stopped = none) : Tame kind request grant t where
  budget := fun stopped => by rw [h] at stopped; cases stopped
  blocks := fun stopped => by rw [h] at stopped; cases stopped

section Offline

variable {q : SequenceId} {grant : Grant} {start : SchedulerState W}
variable (calls : CallsKeep options asks I) (h : Offers I request start (q :: rest) grant s)
include h

theorem Offers.add {w : W} (hw : I w) (tokens : Nat) (latency : Rat)
    (prefillStage : List SequenceId) : Offers I request start rest (grant.add q tokens latency)
      { s with world := w, prefillStageSequences := prefillStage } where
  world := hw
  rest_mem := fun r hr => h.rest_mem r (mem_cons_of_mem _ hr)
  tokens := h.tokens
  seqs := h.seqs
  nothing := fun none => absurd none (append_ne_nil_of_right_ne_nil _ (cons_ne_nil _ _))
  goesOn := h.goesOn

include calls

/-- The decode grant keeps an offline request tame. -/
theorem offers_grantDecode (supplied : Supplied .continuous asks I request) (world : I start.world)
    (latency : options.decodeLatency = false)
    (goesOn : start.runningGoesOn options side = true) :
    IfOk (grantDecode options q grant s) (fun r =>
      Tame .continuous request r.1 r.2 ∧
        (r.1.stopped = none → Offers I request start rest r.1 r.2)) := by
  obtain ⟨-, tokens, -, seqs⟩ := of_decide_eq_true goesOn
  unfold grantDecode
  dsimp only
  split
  · rename_i late
    rw [latency] at late
    exact absurd late.1 Bool.false_ne_true
  split
  · rename_i exceeded
    refine ⟨⟨fun _ none => ?_, fun stopped => nomatch stopped⟩, fun stopped => nomatch stopped⟩
    obtain ⟨noTokens, noSeqs⟩ := h.nothing none
    rw [h.tokens, h.seqs] at exceeded
    omega
  · have asked := calls.asksDecode s.world q h.world
    have kept := calls.allocate s.world q _ asked h.world
    cases hallocate : allocate s.world q
        (numTokens s.world q + options.minSpeculativeTokensRequired) with
    | error e => exact trivial
    | ok answer =>
        obtain ⟨allocated, w⟩ := answer
        rw [hallocate] at kept
        rw [ok_bind]
        split
        · rename_i refused
          subst refused
          have busy := supplied _ _ _ q _ world (h.rest_mem q mem_cons_self) h.world asked
            hallocate
          exact ⟨⟨fun stopped => (nomatch stopped), fun _ => busy⟩, fun stopped => nomatch stopped⟩
        · have cached : IfOk ((s.setWorld w).cacheAfterPrefill q)
              (fun t => ∃ w', I w' ∧ t = s.setWorld w') := by
            have marked := calls.ifCacheBlockForPrefill w q kept
            unfold cacheAfterPrefill
            dsimp only
            split
            · exact (calls.cache _ q marked).bind fun w' hw' => ⟨w', hw', rfl⟩
            · exact ⟨_, marked, rfl⟩
          refine cached.bind fun t ht => ?_
          obtain ⟨w', hw', rfl⟩ := ht
          have added := h.add hw' (options.minSpeculativeTokensRequired + 1)
            (latencyIf options.decodeLatency (predictStepTime s.world q)) s.prefillStageSequences
          exact ⟨.of_none added.goesOn, fun _ => added⟩

theorem offers_grantRunning (supplied : Supplied .chunkedPrefill asks I request)
    (world : I start.world) (latency : options.enableLatencyAwareSchedule = false)
    (goesOn : start.runningGoesOn options side = true) :
    IfOk (grantRunning options q grant s) (fun r =>
      Tame .chunkedPrefill request r.1 r.2 ∧
        (r.1.stopped = none → Offers I request start rest r.1 r.2)) := by
  obtain ⟨-, tokens, -, seqs⟩ := of_decide_eq_true goesOn
  unfold grantRunning
  dsimp only
  split
  · rename_i exceeded
    refine ⟨⟨fun _ none => ?_, fun stopped => nomatch stopped⟩, fun stopped => nomatch stopped⟩
    obtain ⟨noTokens, noSeqs⟩ := h.nothing none
    rw [h.tokens, h.seqs, noTokens] at exceeded
    -- the first sequence asks for no more than there is
    have within : runningTokens options s.world q (min options.maxTokensPerChunkForPrefill
        (subSize start.remainingTokenBudget 0)) ≤ start.remainingTokenBudget := by
      unfold runningTokens
      split
      · exact (Nat.min_le_left _ _).trans (Nat.min_le_right _ _)
      · omega
    omega
  split
  · rename_i late
    rw [latency] at late
    exact absurd late.1 Bool.false_ne_true
  · refine (inWorld_allocateBlocksFor (serves_safeTerms .chunkedPrefill calls) h.world q
      _).bind ?_
    rintro ⟨allocated, handled, t⟩ ⟨⟨w, hw, rfl⟩, w₁, hw₁, -, answer⟩
    split
    · rename_i refused
      subst refused
      have busy := supplied _ _ _ q _ world (h.rest_mem q mem_cons_self) hw₁
        (calls.asksChunk w₁ q _ hw₁) answer
      cases busy.1
    · have added (latency : Rat) : Offers I request start rest (grant.add q handled latency)
          ((s.setWorld w).addPrefillStage q) := by
        unfold addPrefillStage
        split
        · exact h.add hw handled _ _
        · exact h.add hw handled _ s.prefillStageSequences
      exact ⟨.of_none (added _).goesOn, fun _ => added _⟩

end Offline

/-- Loop rule: a request is tame when each of its grants is. -/
theorem tame_grantEach
    (granted : ∀ q rest grant t, Offers I request s (q :: rest) grant t →
      IfOk (one q grant t) (fun r =>
        Tame kind request r.1 r.2 ∧ (r.1.stopped = none → Offers I request s rest r.1 r.2)))
    (world : I s.world) : IfOk (grantEach one (sequences s.world request) {} s)
      (fun r => Tame kind request r.1 r.2) := by
  refine ensures_grantEach (I := Offers I request s) (Q := Tame kind request) ?_ ?_ ?_ ?_
  · exact fun q rest grant t ht => ⟨ht.world, fun r hr => ht.rest_mem r (mem_cons_of_mem _ hr),
      ht.tokens, ht.seqs, ht.nothing, ht.goesOn⟩
  · intro q rest grant t ht
    exact (granted q rest grant t ht).mono_post fun r hr => ⟨fun _ => hr.1, hr.2⟩
  · exact fun grant t ht => .of_none ht.goesOn
  · exact ⟨world, fun _ hq => hq, rfl, rfl, fun _ => ⟨rfl, rfl⟩, rfl⟩

/-! ### Rounds over a running queue -/

theorem kept_failRunning (htop : s.running.get .online = request :: rest) :
    IfOk (s.failRunning request) (Kept s) := by
  unfold failRunning
  rw [popTop_cons htop]
  refine deallocateRequest_setWorld.bind ?_
  rintro _ ⟨w, rfl⟩
  exact (((moved_tail htop).trans (kept_setWorld w)).trans
    (moved_fail request)).kept (Perm.refl _)

theorem kept_popSchedule (htop : s.running.get side = request :: rest) :
    IfOk (s.popTop side request) (fun t => Kept s (t.schedule request grant)) := by
  rw [popTop_cons htop]
  exact ((moved_tail htop).trans (moved_schedule request grant)).kept (Perm.refl _)

theorem kept_handleAbnormalRequest {reason : Exhausted}
    (htop : s.running.get side = request :: rest)
    (budget : side = .offline → reason = .budget → grant.candidates ≠ [])
    (blocks : side = .offline → reason = .blocks →
      numUsedBlocks s.world ≠ totalNumBlocks s.world request) :
    IfOk (s.handleAbnormalRequest side request grant reason) (Kept s) := by
  have failed : side ≠ .offline → IfOk (s.failRunning request) (Kept s) := by
    intro hside
    cases side with
    | online => exact kept_failRunning htop
    | offline => exact absurd rfl hside
  unfold handleAbnormalRequest
  split
  · rename_i none
    split
    · exact Moved.refl
    cases reason with
    | budget => exact failed fun hside => budget hside rfl none
    | blocks =>
        dsimp only
        split
        · exact trivial
        split
        · exact Moved.refl
        · rename_i same
          exact failed fun hside => same (blocks hside rfl)
  split
  · exact Moved.refl
  · exact (kept_popSchedule htop).bind fun t ht => ht

/-- The end of a round over a running queue: the request inspected is the one popped. -/
theorem kept_settleRunning (kind : SchedulerKind) {popped : Side} (hs : s.Sided)
    (htop : s.running.get side = request :: rest)
    (hpopped : popped = side ∨ (popped = .online ∧ kind = .chunkedPrefill))
    (tame : side = .offline → Tame kind request grant s) :
    IfOk (s.settleRunning options side popped request grant) (fun r => Kept s r.2) := by
  unfold settleRunning
  split
  · exact trivial
  split
  · exact (kept_popSchedule htop).bind fun t ht => ht
  · rename_i stopped
    refine (kept_handleAbnormalRequest htop (fun hside _ => (tame hside).budget stopped)
      fun _ reason => by cases reason).bind fun t ht => ?_
    exact ⟨ht.pops, ht.held, ht.sided⟩
  rename_i stopped
  split
  · exact (kept_preemptBack hs fun _ _ => rfl).bind fun t ht => ht.1
  split
  · split
    · exact trivial
    have same : popped = side := by
      rcases hpopped with same | ⟨rfl, hkind⟩
      · exact same
      cases side with
      | online => rfl
      | offline =>
          have continuous := ((tame rfl).blocks stopped).1
          rw [hkind] at continuous
          cases continuous
    subst same
    exact (kept_preemptBack hs fun _ hr => hr).bind fun t ht => ht.1
  · refine (kept_handleAbnormalRequest htop (fun _ reason => by cases reason)
      fun hside _ => ((tame hside).blocks stopped).2).bind fun t ht => ?_
    exact ⟨ht.pops, ht.held, ht.sided⟩

section Rounds

variable (calls : CallsKeep options asks I) (hs : s.Sided)
include hs

theorem kept_beamRound (htop : s.running.get side = request :: rest) (world : I s.world)
    (beam : Unfinished I request ∧ offline (W := W) request = false) :
    IfOk (s.beamRound options side request) (fun r => Kept s r.2) := by
  have hside : sideOf (W := W) request = side := hs side request (.inr (htop ▸ mem_cons_self))
  have online : side ≠ .offline := by
    rw [← hside, sideOf, beam.2]
    decide
  have settled : ∀ grant (t : SchedulerState W), t.Sided → t.running.get side = request :: rest →
      IfOk (t.settleRunning options side side request grant)
        (fun r => Kept t r.2) := fun grant t ht htop' =>
    kept_settleRunning .continuous ht htop' (.inl rfl) fun hoff => absurd hoff online
  unfold beamRound
  dsimp only
  split
  · rename_i inactive
    obtain ⟨q, hq, active⟩ := beam.1 s.world world
    have mem : q ∈ (sequences s.world request).filter fun sequence =>
        !sequenceFinished s.world sequence := List.mem_filter.mpr ⟨hq, by rw [active]; rfl⟩
    rw [inactive] at mem
    exact absurd mem not_mem_nil
  split
  · exact settled _ _ hs htop
  split
  · exact settled _ _ hs htop
  refine (steady_allocateBeam _ _).bind ?_
  rintro ⟨allocated, grant, t⟩ ht
  have htop' : t.running.get side = request :: rest := by
    rw [ht.running]
    exact htop
  split
  · refine deallocateRequest_setWorld.bind ?_
    rintro _ ⟨w, rfl⟩
    rw [popTop_cons (s := t.setWorld w) htop']
    have moved := ((((ht.kept.trans (kept_setWorld w)).trans
      (moved_tail (s := t.setWorld w) htop')).trans
      (kept_setWorld (setPreempted w request))).trans (moved_pushWaiting _ hside))
    rw [hside]
    exact moved.kept (Perm.refl _)
  · exact (settled _ _ (ht.kept.sided hs) htop').mono_post fun r hr => ht.kept.trans hr

include calls

/-- Round of `handle_decode_requests`. -/
theorem kept_decodeRound (h : s.Upheld (safeTerms .continuous options asks I))
    (goesOn : s.runningGoesOn options side = true) :
    IfOk (s.decodeRound options side) (fun r => Kept s r.2) := by
  unfold decodeRound
  split
  · exact Moved.refl
  rename_i request rest htop
  have safe : Safe .continuous options asks I request :=
    h.running side request (htop ▸ mem_cons_self)
  have hside : sideOf (W := W) request = side := hs side request (.inr (htop ▸ mem_cons_self))
  split
  · rename_i beam
    exact kept_beamRound hs htop h.world (safe.beam rfl beam)
  have tame : IfOk (grantEach (grantDecode options) (sequences s.world request) {} s)
      (fun r => side = .offline → Tame .continuous request r.1 r.2) := by
    by_cases hoff : side = .offline
    · have offline_request := offline_of_sideOf (hside.trans hoff)
      refine (tame_grantEach (fun q rest grant t ht => ?_) h.world).mono_post fun r hr _ => hr
      exact offers_grantDecode calls ht (safe.supplied offline_request) h.world
        (safe.latency offline_request) goesOn
    · exact ensures_any.mono_post fun r _ hside => absurd hside hoff
  refine ((steady_grantEach _ _ fun _ _ _ => steady_grantDecode _ _).both tame).bind ?_
  rintro ⟨grant, t⟩ ⟨ht, htame⟩
  have htop' : t.running.get side = request :: rest := by
    rw [ht.running]
    exact htop
  exact (kept_settleRunning _ (ht.kept.sided hs) htop' (.inl rfl) htame).mono_post
    fun r hr => ht.kept.trans hr

/-- Round of `handle_running_queue_requests`. -/
theorem kept_runningRound (h : s.Upheld (safeTerms .chunkedPrefill options asks I))
    (goesOn : s.runningGoesOn options side = true) :
    IfOk (s.runningRound options side) (fun r => Kept s r.2) := by
  unfold runningRound
  split
  · exact Moved.refl
  rename_i request rest htop
  have safe : Safe .chunkedPrefill options asks I request :=
    h.running side request (htop ▸ mem_cons_self)
  have hside : sideOf (W := W) request = side := hs side request (.inr (htop ▸ mem_cons_self))
  have tame : IfOk (grantEach (grantRunning options) (sequences s.world request) {} s)
      (fun r => side = .offline → Tame .chunkedPrefill request r.1 r.2) := by
    by_cases hoff : side = .offline
    · have offline_request := offline_of_sideOf (hside.trans hoff)
      refine (tame_grantEach (fun q rest grant t ht => ?_) h.world).mono_post fun r hr _ => hr
      exact offers_grantRunning calls ht (safe.supplied offline_request) h.world
        (safe.latency offline_request) goesOn
    · exact ensures_any.mono_post fun r _ hside => absurd hside hoff
  refine ((steady_grantEach _ _ fun _ _ _ => steady_grantRunning _ _).both tame).bind ?_
  rintro ⟨grant, t⟩ ⟨ht, htame⟩
  have htop' : t.running.get side = request :: rest := by
    rw [ht.running]
    exact htop
  exact (kept_settleRunning _ (ht.kept.sided hs) htop' (.inr ⟨rfl, rfl⟩) htame).mono_post
    fun r hr => ht.kept.trans hr

end Rounds

theorem kept_grantChunk (sequence : SequenceId) (grant : Grant) (hs : s.Sided) :
    IfOk (grantChunk options request sequence grant s) (fun r => KeptFor request s r.2) := by
  unfold grantChunk
  dsimp only
  split
  · exact ⟨Moved.refl, rfl⟩
  split
  · exact ⟨Moved.refl, rfl⟩
  refine (steady_allocateBlocksFor sequence _).bind ?_
  rintro ⟨allocated, handled, t⟩ ht
  have first : KeptFor request s t := ⟨ht.kept, by rw [ht.waiting]⟩
  refine (kept_evictAndAllocate _ _ _ (ht.kept.sided hs)).bind ?_
  rintro ⟨allocated, u⟩ hu
  have hkept : KeptFor request s u := first.trans hu
  split
  · refine (deallocateSequences_setWorld [sequence]).bind ?_
    rintro _ ⟨w, rfl⟩
    exact hkept.trans (keptFor_setWorld w)
  · exact hkept

theorem kept_settleChunk (grant : Grant) (h : s.waiting.get side = request :: rest) :
    IfOk (s.settleChunk side request grant) (fun r => Kept s r.2) := by
  refine (kept_settlePrefill grant h).bind ?_
  rintro ⟨again, t⟩ ht
  dsimp only
  split
  · exact ht
  · exact ⟨ht.pops, ht.held, ht.sided⟩

/-- Round of the chunked `handle_prefill_requests`. -/
theorem kept_chunkRound (hs : s.Sided) :
    IfOk (s.chunkRound options side) (fun r => Kept s r.2) := by
  unfold chunkRound
  split
  · exact Moved.refl
  rename_i request rest htop
  have hside : sideOf (W := W) request = side := hs side request (.inl (htop ▸ mem_cons_self))
  split
  · exact (kept_finishWaiting htop).bind fun t ht => ht
  split
  · exact trivial
  refine (kept_grantEach _ _ hs fun _ _ _ ht => kept_grantChunk _ _ ht).bind ?_
  rintro ⟨grant, t⟩ ht
  have htop' : t.waiting.get side = request :: rest := by
    rw [← hside, ht.queue, hside]
    exact htop
  exact (kept_settleChunk grant htop').mono_post fun r hr => ht.kept.trans hr

theorem kept_handleChunkRequests (rounds : Nat) (hs : s.Sided) :
    IfOk (s.handleChunkRequests options rounds side) (Kept s) := by
  have rounds_kept : IfOk (loop (fun s => s.prefillGoesOn side)
      (fun s => s.chunkRound options side) .roundsExceeded rounds s) (Kept s) := by
    refine Ensures.loop (I := Kept s) ?_ trivial Moved.refl
    intro t ht _
    exact (kept_chunkRound (ht.sided hs)).mono_post fun r hr => ht.trans hr
  exact rounds_kept.bind fun t ht => kept_refuseWaiting.mono_post fun u hu => ht.trans hu

theorem kept_handleNewPrompts (rounds : Nat) (hs : s.Sided) :
    IfOk (s.handleNewPrompts options rounds side) (Kept s) := by
  unfold handleNewPrompts
  split
  · exact Moved.refl
  split
  · have first : Kept s { s with latencyBudget := 2 ^ 31 - 1 } :=
      ⟨fun h => h, fun _ => rfl, fun hs => hs⟩
    exact (kept_handleChunkRequests rounds (first.sided hs)).mono_post fun t ht => first.trans ht
  · exact kept_handleChunkRequests rounds hs

theorem kept_grantRemaining (done rest : List (SequenceId × Nat)) (prefill : List SequenceId) :
    IfOk (grantRemaining options done rest prefill s) (Kept s) := by
  induction rest generalizing done prefill s with
  | nil =>
      cases prefill with
      | nil => exact ⟨fun h => h, fun _ => rfl, fun hs => hs⟩
      | cons first prefill => exact ⟨fun h => h, fun _ => rfl, fun hs => hs⟩
  | cons next rest ih =>
      obtain ⟨sequence, budget⟩ := next
      cases prefill with
      | nil => exact ⟨fun h => h, fun _ => rfl, fun hs => hs⟩
      | cons first prefill =>
          unfold grantRemaining
          split
          · exact ih _ _
          dsimp only
          split
          · exact ⟨fun h => h, fun _ => rfl, fun hs => hs⟩
          refine (steady_allocateBlocksFor sequence _).bind ?_
          rintro ⟨allocated, handled, t⟩ ht
          have hkept : Kept s t := by
            have hsteady := ht.kept
            split at hsteady
            · exact ⟨hsteady.pops, hsteady.held, hsteady.sided⟩
            · exact ⟨hsteady.pops, hsteady.held, hsteady.sided⟩
          split
          · exact ⟨hkept.pops, hkept.held, hkept.sided⟩
          split
          · exact trivial
          split
          · exact ⟨hkept.pops, hkept.held, hkept.sided⟩
          · refine (ih _ _).mono_post fun u hu => ?_
            exact ⟨fun h => hu.pops (hkept.pops h), fun r => (hu.held r).trans (hkept.held r),
              fun hs => hu.sided (hkept.sided hs)⟩

theorem Moved.put_next {taken : List RequestId} (first : Moved (request :: taken) [] s t)
    (second : Moved [] [request] t u) : Moved taken [] s u where
  pops := fun h => second.pops (first.pops h)
  held := by
    intro r
    have h := first.held r
    have h' := second.held r
    rw [count_cons_eq] at h
    rw [count_nil] at h h' ⊢
    omega
  sided := fun hs => second.sided (first.sided hs)

theorem moved_admitRequest : IfOk (s.admitRequest options request)
    (fun t => Moved [] [request] s t ∧ t.finishedRequests = s.finishedRequests) := by
  unfold admitRequest
  dsimp only
  split
  · exact trivial
  split
  · exact ⟨(kept_setWorld _).trans (moved_pushWaiting _ rfl), rfl⟩
  · refine ⟨⟨fun h => h, fun r => ?_, fun hs => hs⟩, rfl⟩
    simp only [held, setWorld, count_append, count_nil]
    omega

/-- Each new request moves to the waiting queue of its side. -/
theorem kept_readRequestQueue : IfOk (s.readRequestQueue options)
    (fun t => Kept s t ∧ t.finishedRequests = s.finishedRequests) := by
  refine Ensures.foldlM
    (I := fun l t => Moved l [] s t ∧ t.finishedRequests = s.finishedRequests) ?_ ?_
  · rintro request rest t ⟨hmoved, hfinished⟩
    refine moved_admitRequest.mono_post ?_
    rintro u ⟨hput, hfinished'⟩
    exact ⟨hmoved.put_next hput, hfinished'.trans hfinished⟩
  · refine ⟨⟨fun h => h, fun r => ?_, fun hs => hs⟩, rfl⟩
    simp only [held]
    omega

theorem moved_collectFinished : IfOk (s.collectFinished request) (Moved [] [request] s) := by
  unfold collectFinished
  dsimp only
  split
  · refine deallocateRequest_setWorld.bind ?_
    rintro _ ⟨w, rfl⟩
    exact (kept_setWorld w).trans moved_finish
  · refine ⟨fun h => h, fun r => ?_, fun hs => hs⟩
    have hcons := count_cons_eq request s.runningRequests r
    simp only [held, setWorld, count_nil] at hcons ⊢
    omega

/-- Finished requests are collected for their answer. -/
theorem kept_handleFinishedRequests (h : s.finishedRequests = []) :
    IfOk s.handleFinishedRequests (Kept s) := by
  refine Ensures.foldlM (I := fun l t => Moved l [] s t) ?_ ?_
  · intro request rest t hmoved
    exact moved_collectFinished.mono_post fun u hput => hmoved.put_next hput
  · refine ⟨fun h => h, fun r => ?_, fun hs => hs⟩
    simp only [held, h, count_reverse]
    omega

theorem handleRunningRequests_setWorld : IfOk (s.handleRunningRequests request)
    (fun t => ∃ w, t = s.setWorld w) := by
  unfold handleRunningRequests
  split
  · exact trivial
  · refine ensures_any.bind fun w _ => ?_
    exact ensures_any.bind fun w' _ => ⟨w', rfl⟩

theorem kept_requeueAll {requests : List RequestId} (ifBack : Bool)
    (h : requests.Perm s.runningRequests) : IfOk (s.requeueAll options requests ifBack)
      (fun t => Kept s t ∧ t.runningRequests = []) := by
  refine Ensures.foldlM (I := fun l t => Moved l [] s t ∧ t.runningRequests = []) ?_ ?_
  · rintro request rest t ⟨hmoved, hempty⟩
    refine handleRunningRequests_setWorld.bind ?_
    rintro _ ⟨w, rfl⟩
    refine (moved_pushRunning ifBack rfl).mono_post ?_
    rintro u ⟨hput, hsame⟩
    exact ⟨hmoved.put_next ((kept_setWorld w).trans hput), hsame.trans hempty⟩
  · refine ⟨⟨fun h => h, fun r => ?_, fun hs => hs⟩, rfl⟩
    simp only [held, h.count_eq r]
    omega

theorem kept_requeueContinuous : IfOk (s.requeueContinuous options)
    (fun t => Kept s t ∧ t.runningRequests = []) := by
  unfold requeueContinuous
  split
  · exact kept_requeueAll false (reverse_perm _)
  · exact kept_requeueAll true (Perm.refl _)

theorem kept_clearBatch (latencyBudget : Rat) (tokenBudget seqBudget : Nat)
    (h : s.runningRequests = []) : Kept s (s.clearBatch latencyBudget tokenBudget seqBudget) where
  pops := fun h => h
  held := by
    intro r
    simp only [held, clearBatch, h]
  sided := fun hs => hs

theorem kept_answerFinished : Kept s s.answerFinished where
  pops := fun h => h
  held := by
    intro r
    simp only [held, answerFinished, count_append, count_nil]
    omega
  sided := fun hs => hs

/-! ### Runs -/

/-- Every admitted request is held once, and every pop has removed what was inspected. -/
structure Accounted (admitted : List RequestId) (s : SchedulerState W) : Prop where
  sided : s.Sided
  once : ∀ r, s.held r = admitted.count r
  pops : s.PopsMatch
  finished : s.finishedRequests = []

variable {admitted : List RequestId}

theorem Accounted.answerFinished (h : Accounted admitted s) (kept : Kept s t) :
    Accounted admitted t.answerFinished := by
  have kept' := kept.trans kept_answerFinished
  exact ⟨kept'.sided h.sided, fun r => (kept'.held r).trans (h.once r), kept'.pops h.pops, rfl⟩

/-- The running requests are safe in the worlds that the calls of the scheduler come to. -/
structure Prepared (kind : SchedulerKind) (options : SchedulerOptions)
    (asks : SequenceId → Nat → Prop) (I : W → Prop) (s : SchedulerState W) : Prop where
  calls : CallsKeep options asks I
  world : I s.world
  running : ∀ side, ∀ r ∈ s.running.get side, Safe kind options asks I r
  batch : ∀ r ∈ s.runningRequests, Leaves I r ∨ Safe kind options asks I r
  /-- Only a request with tokens in the cache joins the running ones at once. -/
  queue : ∀ r ∈ s.requestQueue, StaysNew s.world r ∨ Leaves I r ∨ Safe kind options asks I r

theorem Prepared.gathers (h : Prepared kind options asks I s) :
    Gathers options (safeTerms kind options asks I) (safeTerms kind options asks I).batch
      s.requestQueue.length s :=
  ⟨h.world, fun _ _ _ => trivial, h.running, h.batch, fun ample => ample.elim⟩

theorem prepared_readRequestQueue (h : Prepared kind options asks I s) :
    IfOk (s.readRequestQueue options) (fun t =>
      (Kept s t ∧ t.finishedRequests = s.finishedRequests) ∧
        Gathers options (safeTerms kind options asks I)
          (safeTerms kind options asks I).batch 0 t) :=
  kept_readRequestQueue.both (gathers_readRequestQueue (serves_safeTerms kind h.calls) h.gathers
    fun r hr => ⟨trivial, h.queue r hr⟩)

/-- What holds between two parts of a call. -/
def Within (kind : SchedulerKind) (options : SchedulerOptions) (asks : SequenceId → Nat → Prop)
    (I : W → Prop) (s t : SchedulerState W) : Prop :=
  Kept s t ∧ t.Upheld (safeTerms kind options asks I)

/-- A call of the continuous scheduler. -/
theorem accounted_prepareBatchContinuous (rounds : Nat) (h : Accounted admitted s)
    (prepared : Prepared .continuous options asks I s) :
    IfOk (s.prepareBatchContinuous options rounds) (Accounted admitted) := by
  have serves : Serves options (safeTerms .continuous options asks I) :=
    serves_safeTerms _ prepared.calls
  have scarce : ¬(safeTerms .continuous options asks I).ample := fun ample => ample
  have prompts : ∀ (side : Side) (t : SchedulerState W),
      Within .continuous options asks I s t →
      IfOk (t.handlePrefillRequests options rounds side) (Within .continuous options asks I s) := by
    rintro side t ⟨kept, upheld⟩
    refine ((kept_handlePrefillRequests rounds (kept.sided h.sided)).both
      (upheld_handlePrefillRequests serves scarce upheld rounds)).mono_post ?_
    exact fun u hu => ⟨kept.trans hu.1, hu.2⟩
  have decodes : ∀ (side : Side) (t : SchedulerState W),
      Within .continuous options asks I s t →
      IfOk (t.handleDecodeRequests options rounds side) (Within .continuous options asks I s) := by
    intro side t ht
    refine Ensures.loop (I := Within .continuous options asks I s) ?_ trivial ht
    rintro u ⟨kept, upheld⟩ goesOn
    refine ((kept_decodeRound prepared.calls (kept.sided h.sided) upheld goesOn).both
      (upheld_decodeRound serves scarce upheld)).mono_post ?_
    exact fun r hr => ⟨kept.trans hr.1, hr.2⟩
  refine (prepared_readRequestQueue prepared).bind ?_
  rintro s₁ ⟨⟨hread, hsame⟩, gathers₁⟩
  refine ((kept_handleFinishedRequests (hsame.trans h.finished)).both
    (gathers_handleFinishedRequests serves gathers₁)).bind ?_
  rintro s₂ ⟨hfin, gathers₂⟩
  have requeued : IfOk (s₂.requeueContinuous options)
      (Gathers options (safeTerms .continuous options asks I)
        (safeTerms .continuous options asks I).running 0) := by
    unfold requeueContinuous
    split
    · exact gathers_requeueAll serves gathers₂ (reverse_perm _) false
    · exact gathers_requeueAll serves gathers₂ (Perm.refl _) true
  refine (kept_requeueContinuous.both requeued).bind ?_
  rintro s₃ ⟨⟨hrequeue, hempty⟩, gathers₃⟩
  have start : Within .continuous options asks I s (s₃.clearBatch options.maxGlobalTtftMs
      options.maxTokensPerBatch (max options.maxSeqsPerBatch 1)) :=
    ⟨((hread.trans hfin).trans hrequeue).trans (kept_clearBatch _ _ _ hempty),
      gathers₃.clearBatch _ _ fun ample => ample.elim⟩
  refine (prompts .online _ start).bind fun s₄ h₄ => ?_
  refine (prompts .offline _ h₄).bind fun s₅ h₅ => ?_
  split
  · have reset : Within .continuous options asks I s
        { s₅ with latencyBudget := options.maxGlobalTpotMs } :=
      ⟨⟨h₅.1.pops, h₅.1.held, h₅.1.sided⟩, h₅.2.world, h₅.2.prefillStage, h₅.2.waiting,
        h₅.2.running, h₅.2.ample⟩
    refine (decodes .online _ reset).bind fun s₆ h₆ => ?_
    exact (decodes .offline _ h₆).bind fun s₇ h₇ => h.answerFinished h₇.1
  · exact h.answerFinished h₅.1

/-- A call of the chunked scheduler. -/
theorem accounted_prepareBatchChunked (rounds : Nat) (h : Accounted admitted s)
    (prepared : Prepared .chunkedPrefill options asks I s) :
    IfOk (s.prepareBatchChunked options rounds) (Accounted admitted) := by
  have serves : Serves options (safeTerms .chunkedPrefill options asks I) :=
    serves_safeTerms _ prepared.calls
  have runs : ∀ (side : Side) (t : SchedulerState W),
      Within .chunkedPrefill options asks I s t →
      IfOk (t.handleRunningQueueRequests options rounds side)
        (Within .chunkedPrefill options asks I s) := by
    intro side t ht
    refine Ensures.loop (I := Within .chunkedPrefill options asks I s) ?_ trivial ht
    rintro u ⟨kept, upheld⟩ goesOn
    refine ((kept_runningRound prepared.calls (kept.sided h.sided) upheld goesOn).both
      (upheld_runningRound serves upheld)).mono_post ?_
    exact fun r hr => ⟨kept.trans hr.1, hr.2⟩
  have prompts : ∀ (side : Side) (t : SchedulerState W),
      Within .chunkedPrefill options asks I s t →
      IfOk (t.handleNewPrompts options rounds side) (Within .chunkedPrefill options asks I s) := by
    rintro side t ⟨kept, upheld⟩
    refine ((kept_handleNewPrompts rounds (kept.sided h.sided)).both
      (upheld_handleNewPrompts serves upheld rounds)).mono_post ?_
    exact fun u hu => ⟨kept.trans hu.1, hu.2⟩
  refine (prepared_readRequestQueue prepared).bind ?_
  rintro s₁ ⟨⟨hread, hsame⟩, gathers₁⟩
  refine ((kept_handleFinishedRequests (hsame.trans h.finished)).both
    (gathers_handleFinishedRequests serves gathers₁)).bind ?_
  rintro s₂ ⟨hfin, gathers₂⟩
  refine ((kept_requeueAll false (reverse_perm _)).both
    (gathers_requeueAll serves gathers₂ (reverse_perm _) false)).bind ?_
  rintro s₃ ⟨⟨hrequeue, hempty⟩, gathers₃⟩
  have start : Within .chunkedPrefill options asks I s (s₃.clearBatch options.maxGlobalTpotMs
      (s₃.chunkTokenBudget options) options.maxSeqsPerBatch) :=
    ⟨((hread.trans hfin).trans hrequeue).trans (kept_clearBatch _ _ _ hempty),
      gathers₃.clearBatch _ _ fun ample => ample.elim⟩
  refine (runs .online _ start).bind fun s₄ h₄ => ?_
  refine (prompts .online _ h₄).bind fun s₅ h₅ => ?_
  -- the offline running queue is handled when tokens remain
  have offline : ∀ s₆ : SchedulerState W, Within .chunkedPrefill options asks I s s₆ →
      IfOk (do
        let s ← s₆.handleNewPrompts options rounds .offline
        let s ← if 0 < s.remainingTokenBudget ∧ s.estimateLatency < s.latencyBudget then
            s.handleRemainingBudget options
          else .ok s
        .ok s.answerFinished) (Accounted admitted) := by
    intro s₆ h₆
    refine (prompts .offline s₆ h₆).bind fun s₇ h₇ => ?_
    split
    · exact (kept_grantRemaining _ _ _).bind fun s₈ h₈ => h.answerFinished (h₇.1.trans h₈)
    · exact h.answerFinished h₇.1
  split
  · exact (runs .offline _ h₅).bind fun s₆ h₆ => offline s₆ h₆
  · exact offline s₅ h₅

/-- When a batch is prepared, the running requests are safe, whatever calls the scheduler
makes. -/
def Orderly (kind : SchedulerKind) (options : SchedulerOptions) (s : SchedulerState W) :
    SchedulerOp W → Prop
  | .prepareBatch _ => ∃ asks I, Prepared kind options asks I s
  | _ => True

theorem accounted_addRequest (h : Accounted admitted s) :
    Accounted (admitted ++ [request]) { s with requestQueue := s.requestQueue ++ [request] } := by
  refine ⟨h.sided, fun r => ?_, h.pops, h.finished⟩
  have before := h.once r
  simp only [held, count_append] at before ⊢
  omega

/-- Step lemma: every request admitted is held in one place. -/
theorem accounted_step (op : SchedulerOp W) (orderly : Orderly kind options s op)
    (h : Accounted admitted s) : IfOk (s.step kind options op)
      (Accounted (admitted ++ op.added.toList)) := by
  cases op with
  | addRequest request => exact accounted_addRequest h
  | environment world =>
      simp only [SchedulerOp.added, Option.toList, append_nil]
      exact ⟨h.sided, h.once, h.pops, h.finished⟩
  | prepareBatch rounds =>
      obtain ⟨asks, I, prepared⟩ := orderly
      simp only [SchedulerOp.added, Option.toList, append_nil]
      cases kind with
      | continuous => exact accounted_prepareBatchContinuous rounds h prepared
      | chunkedPrefill => exact accounted_prepareBatchChunked rounds h prepared

/-- Run lemma. -/
theorem accounted_run (admitted : List RequestId) (ops : List (SchedulerOp W))
    (along : Along (step kind options) (Orderly kind options) s ops)
    (h : Accounted admitted s) : IfOk (run (step kind options) s ops)
      (Accounted (admitted ++ ops.filterMap SchedulerOp.added)) := by
  induction ops generalizing admitted s with
  | nil =>
      rw [filterMap_nil, append_nil]
      exact h
  | cons op ops ih =>
      have hsplit : admitted ++ (op :: ops).filterMap SchedulerOp.added =
          (admitted ++ op.added.toList) ++ ops.filterMap SchedulerOp.added := by
        cases hop : op.added with
        | none => simp [hop]
        | some request => simp [hop]
      rw [hsplit, run_cons]
      have first := accounted_step op along.1 h
      cases hstep : s.step kind options op with
      | error e => exact trivial
      | ok t =>
          rw [hstep] at first
          exact ih _ (along.2 t hstep) first

/-- Runs from an empty scheduler in which the running requests are safe at every call: every
admitted request is in exactly one place, and there once, and every pop has removed the
request that was inspected. -/
theorem run_holds_each_once (kind : SchedulerKind) (options : SchedulerOptions) (world : W)
    (ops : List (SchedulerOp W)) (fresh : (ops.filterMap SchedulerOp.added).Nodup)
    (along : Along (step kind options) (Orderly kind options) { world := world } ops) :
    Ensures (run (step kind options) { world := world } ops) (fun _ => True) (fun s =>
      (∀ request ∈ ops.filterMap SchedulerOp.added, s.held request = 1) ∧
        ∀ pop ∈ s.pops, pop.removed = pop.inspected) := by
  have start : Accounted [] ({ world := world } : SchedulerState W) := by
    refine ⟨fun side r hr => ?_, fun r => rfl, fun pop hpop => absurd hpop not_mem_nil, rfl⟩
    cases side <;> exact absurd hr (by simp [Sides.get])
  refine (accounted_run [] ops along start).mono_post fun s hs => ⟨fun r hr => ?_, hs.pops⟩
  rw [hs.once, nil_append, count_eq_one_of_mem fresh hr]

/-- The chunked-prefill scheduler without preemption of offline requests by online ones. -/
def noPreemption : SchedulerOptions where
  maxTokensPerBatch := 100
  maxSeqsPerBatch := 10
  maxTokensPerChunkForPrefill := 64
  enableOnlinePreemptOffline := false
  maxGlobalTpotMs := 100
  maxGlobalTtftMs := 100
  chunkedMatchFrequency := 1

/-- A sequence that needs at most four blocks of four tokens. -/
def FitsFour (c : PlainSequence) : Prop :=
  c.numTokens ≤ 8 ∧ c.kvTokens ≤ c.numTokens ∧ c.blocks ≤ 4

instance : DecidablePred FitsFour := fun _ => inferInstanceAs (Decidable (_ ∧ _ ∧ _))

/-- Two sequences, and four blocks for each of them. -/
structure TwoFit (w : PlainCache) : Prop where
  blockSize : w.blockSize = 4
  two : w.cells.length = 2
  fits : ∀ q, FitsFour (w.cell q)
  room : w.freeBlocks + (w.cell 0).blocks + (w.cell 1).blocks = 8

def asksTwo (q : SequenceId) (numTokens : Nat) : Prop := numTokens ≤ if q < 2 then 16 else 0

variable {w : PlainCache} {q : SequenceId}

theorem TwoFit.cell_eq (h : TwoFit w) (outside : ¬q < 2) :
    w.cell q = {} := by
  rw [PlainCache.cell, getD_eq_getElem?_getD,
    getElem?_eq_none (h.two ▸ Nat.le_of_not_lt outside), Option.getD_none]

theorem TwoFit.setCell (h : TwoFit w) {c : PlainSequence}
    {free : Nat} (fits : FitsFour c)
    (room : free + c.blocks = w.freeBlocks + (w.cell q).blocks)
    (outside : ¬q < 2 → free = w.freeBlocks) :
    TwoFit { w.setCell q c with freeBlocks := free } := by
  have cells (r : SequenceId) : ({ w.setCell q c with freeBlocks := free } : PlainCache).cell r =
      if q = r ∧ q < 2 then c else w.cell r := by
    rw [← h.two]
    exact w.cell_setCell q r c
  refine ⟨h.blockSize, (List.length_set).trans h.two, fun r => ?_, ?_⟩
  · rw [cells]
    split
    · exact fits
    · exact h.fits r
  · have before := h.room
    rw [cells, cells]
    match q with
    | 0 =>
        simp only [true_and, Nat.zero_lt_two, if_true, zero_ne_one, false_and, if_false]
        omega
    | 1 =>
        simp only [one_ne_zero, false_and, if_false, true_and, Nat.one_lt_two, if_true]
        omega
    | q + 2 =>
        have inside : ¬q + 2 < 2 := Nat.not_lt.mpr (Nat.le_add_left 2 q)
        simp only [outside inside]
        exact before

theorem TwoFit.allocate (h : TwoFit w) {numTokens : Nat}
    (asked : asksTwo q numTokens) :
    (w.allocate q numTokens).1 = true ∧ TwoFit (w.allocate q numTokens).2 := by
  obtain ⟨tokens, cached, blocks⟩ := h.fits q
  have needed : w.numAdditionalBlocks q numTokens ≤ 4 - (w.cell q).blocks ∧
      (¬q < 2 → w.numAdditionalBlocks q numTokens = 0) := by
    rw [PlainCache.numAdditionalBlocks, h.blockSize]
    unfold asksTwo at asked
    split at asked
    · rename_i inside
      exact ⟨by omega, fun outside => absurd inside outside⟩
    · exact ⟨by omega, fun _ => by omega⟩
  have enough : w.numAdditionalBlocks q numTokens ≤ w.freeBlocks := by
    have before := h.room
    have first := (h.fits 0).2.2
    have second := (h.fits 1).2.2
    match q with
    | 0 => omega
    | 1 => omega
    | q + 2 =>
        rw [needed.2 (Nat.not_lt.mpr (Nat.le_add_left 2 q))]
        exact Nat.zero_le _
  rw [PlainCache.allocate, if_pos enough]
  refine ⟨rfl, h.setCell ⟨tokens, cached, ?_⟩ ?_ ?_⟩
  · dsimp only
    omega
  · dsimp only
    omega
  · intro outside
    rw [needed.2 outside, Nat.sub_zero]

theorem TwoFit.deallocate (h : TwoFit w) (q : SequenceId) :
    TwoFit (w.deallocate q) := by
  refine h.setCell ⟨(h.fits q).1, Nat.zero_le _, Nat.zero_le _⟩ rfl fun outside => ?_
  rw [h.cell_eq outside]
  rfl

theorem TwoFit.numTokens_le (h : TwoFit w) (q : SequenceId) :
    (w.cell q).numTokens ≤ if q < 2 then 8 else 0 := by
  split
  · exact (h.fits q).1
  · rename_i outside
    rw [h.cell_eq outside]

theorem TwoFit.asked {w w' : PlainCache} (h : TwoFit w) (h' : TwoFit w') {numTokens : Nat}
    (le : numTokens ≤ (w.cell q).numTokens + (w'.cell q).numTokens) : asksTwo q numTokens := by
  have first := h.numTokens_le q
  have second := h'.numTokens_le q
  unfold asksTwo
  split at first
  · rename_i inside
    rw [if_pos inside] at second ⊢
    omega
  · rename_i outside
    rw [if_neg outside] at second ⊢
    omega

theorem twoFit_calls : CallsKeep noPreemption asksTwo TwoFit where
  allocate := fun w q n asked h => (h.allocate asked).2
  deallocate := fun w q h => h.deallocate q
  allocateShared := fun w q h => h
  cache := fun w q h => h
  ifCacheBlockForPrefill := fun w q h => h
  setPreempted := fun w r h => h.setCell (h.fits r) rfl fun _ => rfl
  expandSequences := fun w r _ h => h
  updatePrefetchResult := fun w r h => h
  updateConnectionStatus := fun w r h => h
  asksPrefill := by
    intro w q h
    apply h.asked h
    show max (w.cell q).kvTokens 0 +
      subSize (w.cell q).numTokens (max (w.cell q).kvTokens 0) ≤ _
    have cached := (h.fits q).2.1
    rw [Nat.max_zero, subSize, if_pos cached]
    omega
  asksDecode := fun w q h => h.asked h (Nat.le_add_right _ _)
  asksChunk := fun w q budget h => h.asked h ((Nat.min_le_right _ _).trans (Nat.le_add_right _ _))
  asksAgain := by
    intro w w' q budget h h'
    apply h.asked h'
    have chunk : maxHandleNumTokens noPreemption w q budget ≤ (w.cell q).numTokens :=
      Nat.min_le_right _ _
    have cached : kvCacheTokensNum w' q ≤ (w'.cell q).numTokens := (h'.fits q).2.1
    omega

theorem twoFit_safe (r : RequestId) : Safe .chunkedPrefill noPreemption asksTwo TwoFit r where
  beam := fun kind => nomatch kind
  latency := fun _ => rfl
  supplied := by
    intro _ w₀ w w' q numTokens _ _ h asked refused
    have granted := (h.allocate asked).1
    have answer := congrArg Prod.fst (Except.ok.inj refused)
    rw [granted] at answer
    cases answer

/-- An online and an offline prompt, and room for both. -/
def twoPrompts : PlainCache where
  blockSize := 4
  freeBlocks := 8
  cells := [{ promptTokens := 3, numTokens := 3 }, { promptTokens := 4, numTokens := 4 }]

/-- Both prompts have been computed and have one token more. -/
def twoDecoding : PlainCache where
  blockSize := 4
  freeBlocks := 6
  cells := [{ promptTokens := 3, numTokens := 4, kvTokens := 3, blocks := 1 },
    { promptTokens := 4, numTokens := 5, kvTokens := 4, blocks := 1 }]

def bothTwice : List (SchedulerOp PlainCache) :=
  [.addRequest 0, .addRequest 1, .prepareBatch 9, .environment twoDecoding, .prepareBatch 9]

/-- Two requests in two calls, prompts first and then tokens. -/
theorem run_holds_each_once_two :
    ([0, 1] : List RequestId).Nodup ∧ TwoFit twoPrompts ∧ TwoFit twoDecoding ∧
      Ensures (run (step .chunkedPrefill noPreemption) { world := twoPrompts } bothTwice)
        (fun _ => True) (fun s =>
          (∀ request ∈ bothTwice.filterMap SchedulerOp.added, s.held request = 1) ∧
            ∀ pop ∈ s.pops, pop.removed = pop.inspected) := by
  have fits {w : PlainCache} {a b : PlainSequence} (cells : w.cells = [a, b]) (ha : FitsFour a)
      (hb : FitsFour b) (q : SequenceId) : FitsFour (w.cell q) := by
    rw [PlainCache.cell, cells]
    obtain _ | _ | q := q
    · exact ha
    · exact hb
    · exact ⟨Nat.zero_le _, Nat.le_refl _, Nat.zero_le _⟩
  have prompts : TwoFit twoPrompts :=
    ⟨rfl, rfl, fits rfl (by decide) (by decide), rfl⟩
  have decoding : TwoFit twoDecoding :=
    ⟨rfl, rfl, fits rfl (by decide) (by decide), rfl⟩
  have prepared {s : SchedulerState PlainCache} (world : TwoFit s.world) (rounds : Nat) :
      Orderly .chunkedPrefill noPreemption s (.prepareBatch rounds) :=
    ⟨asksTwo, TwoFit, twoFit_calls, world, fun _ r _ => twoFit_safe r,
      fun r _ => .inr (twoFit_safe r), fun r _ => .inr (.inr (twoFit_safe r))⟩
  refine ⟨by decide, prompts, decoding, run_holds_each_once .chunkedPrefill noPreemption twoPrompts
    bothTwice (by decide) ?_⟩
  refine ⟨trivial, ?_⟩
  rintro _ ⟨⟩
  refine ⟨trivial, ?_⟩
  rintro _ ⟨⟩
  refine ⟨prepared prompts 9, fun s _ => ⟨trivial, ?_⟩⟩
  rintro _ ⟨⟩
  exact ⟨prepared decoding 9, fun _ _ => trivial⟩

/-- Two online and two offline prompts, each of which needs one of four blocks. -/
def fourPrompts : PlainCache where
  blockSize := 4
  freeBlocks := 4
  cells := [{ promptTokens := 3, numTokens := 3 }, { promptTokens := 4, numTokens := 4 },
    { promptTokens := 4, numTokens := 4 }, { promptTokens := 4, numTokens := 4 }]

/-- The prompts have been computed and have one token more. Only the first sequence has
room for its next token. -/
def fourDecoding : PlainCache where
  blockSize := 4
  freeBlocks := 0
  cells := [{ promptTokens := 3, numTokens := 4, kvTokens := 3, blocks := 1 },
    { promptTokens := 4, numTokens := 5, kvTokens := 4, blocks := 1 },
    { promptTokens := 4, numTokens := 5, kvTokens := 4, blocks := 1 },
    { promptTokens := 4, numTokens := 5, kvTokens := 4, blocks := 1 }]

def scheduledTwice : List (SchedulerOp PlainCache) :=
  [.addRequest 0, .addRequest 1, .addRequest 2, .addRequest 3, .prepareBatch 9,
    .environment fourDecoding, .prepareBatch 9]

/-- The second call preempts the offline request 3 for the offline request 1. It pops the
online queue: request 2 is lost, and request 3 is waiting and running. -/
theorem run_loses_online_request :
    Ensures (run (step .chunkedPrefill noPreemption) { world := fourPrompts } scheduledTwice)
      (fun _ => False) (fun s => 2 ∈ scheduledTwice.filterMap SchedulerOp.added ∧
        s.held 2 = 0 ∧ s.waiting.offline = [3] ∧ s.running.offline = [3] ∧
        { inspected := 3, removed := 2 } ∈ s.pops) := by
  decide +kernel

end SchedulerState

end Xllm
