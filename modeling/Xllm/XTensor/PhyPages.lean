import Xllm.XTensor.PhyPages.Models
import Xllm.XTensor.PhyPages.Preallocation
import Xllm.XTensor.PhyPages.Wakeup

/-!
# Physical pages are accounted for

The counters agree with the loads of the models as long as the operations keep clear of
a model that falls asleep or wakes up. `Orderly` lists what that means for each section.
Outside of it the counter drifts, and two short runs at the end show it.
-/

namespace Xllm

open Contract

namespace PageAllocator

open PhyView

variable {p q : PageAllocator} {m m' : String} {d d' w n : Nat} {st st' : ModelState}

def awake (p : PageAllocator) (m : String) : Bool :=
  match p.modelStates m with
  | none => true
  | some st => !st.isSleeping

def noneReserved (p : PageAllocator) (m : String) (d : Nat) : Bool :=
  match p.modelStates m with
  | none => true
  | some st => (st.dpGroupPages d).reservedVirtPageList = []

def mapPending (p : PageAllocator) (m : String) : Bool :=
  match p.modelStates m with
  | none => false
  | some st => 0 < st.pendingMapOps

/-- The section keeps clear of models that fall asleep or wake up, and every
broadcast succeeds. -/
def Orderly (p : PageAllocator) : Op → Bool
  | .setModelParallelStrategy m _ _ => p.unused m
  -- the pages of a sleeping model are not counted any more
  | .freeBlocks m d ids => p.awake m || ids.all fun id => id ∉ p.blockManagerPages m d
  | .trimKvCache m d => p.awake m || p.noneReserved m d
  -- weights are allocated when there are none, and freed as they were allocated
  | .allocWeightPages m _ => p.settled m 0
  | .freeWeightPages m n success => success && p.settled m n
  -- a page that is mapped and not yet recorded would be missed
  | .sleepModel m _ => !p.awake m || p.mapPending m || p.noAllocRecord m
  -- a wakeup counts the lists and the weights, which must not be counted already
  | .wakeupModel m => p.awake m || p.noTransition m && p.settled m 0
  | .resume i failed =>
      failed = [] && match p.calls[i]? with
        | some (.sleepWait m _) => p.mapPending m || p.awake m && p.noAllocRecord m
        | some (.sleepWeights m n _) => p.settled m n
        | _ => true
  | .preallocMapped success => success
  | _ => true

theorem awake_iff (hst : p.modelStates m = some st) : p.awake m ↔ st.isSleeping = false := by
  rw [awake, hst]
  simp

theorem mapPending_iff (hst : p.modelStates m = some st) :
    p.mapPending m ↔ 0 < st.pendingMapOps := by
  rw [mapPending, hst]
  simp

@[simp] theorem PhyView.kvPages_addCall_sleepWait {v : PhyView} {skip : Bool} :
    (v.addCall (.sleepWait m skip)).kvPages st d = v.kvPages st d := by
  rw [kvPages_addCall rfl]
  exact Nat.zero_add _

theorem accounted_addCall_sleepWait {skip : Bool} (hst : p.modelStates m = some st) :
    (p.addCall (.sleepWait m skip)).Accounted ↔ p.Accounted := by
  have hv : (p.addCall (.sleepWait m skip)).phyView m =
      (p.phyView m).addCall (.sleepWait m skip) := phyView_addCall
  have hweights : ((p.phyView m).addCall (.sleepWait m skip)).weightPages =
      (p.phyView m).weightPages := weightPages_addCall.trans (Nat.zero_add _)
  constructor
  · intro h
    have hm := h.model m st hst
    rw [hv] at hm
    refine h.of_model ⟨hst, hst, hv, rfl, ⟨rfl, rfl, rfl, rfl⟩,
      fun m' hm' => ⟨rfl, (phyView_addCall_of_ne hm').symm⟩⟩ (fun w => ?_) h.used_le rfl ?_
    · rw [hweights]
      exact congrArg (p.workerPagesUsed w + ·)
        (load_of_eq (fun d _ => kvPages_addCall_sleepWait) w)
    · refine hm.of_addCall rfl rfl rfl ?_ fun d hd => ?_
      · have hcalls := hm.weightCalls
        exact hcalls
      · have hmapped := hm.mapped d hd
        rw [mappedPages_addCall rfl,
          show (Call.sleepWait m skip).mappedPages d = 0 from rfl, zero_add] at hmapped
        exact hmapped
  · intro h
    have hm := h.model m st hst
    refine h.of_model ⟨hst, hst, rfl, hv, ⟨rfl, rfl, rfl, rfl⟩,
      fun m' hm' => ⟨rfl, phyView_addCall_of_ne hm'⟩⟩ (fun w => ?_) h.used_le rfl ?_
    · rw [hweights]
      exact congrArg (p.workerPagesUsed w + ·)
        (load_of_eq (fun d _ => kvPages_addCall_sleepWait.symm) w)
    · refine hm.addCall rfl (fun _ => rfl) trivial (fun _ => rfl) ?_
      exact hm.weightCalls

/-- First section of `sleep_model`. -/
theorem accounted_sleepModel (hp : p.Partitioned) (h : p.Accounted) (skip : Bool)
    (hsleep : !p.awake m || p.mapPending m || p.noAllocRecord m) :
    (p.sleepModel m skip).Accounted := by
  rw [sleepModel]
  split
  case h_1 => exact h
  case h_2 st hst =>
    split_ifs with hasleep hpending
    · exact h
    · exact (accounted_addCall_sleepWait hst).mpr h
    · rw [Bool.not_eq_true] at hasleep
      rw [(awake_iff hst).mpr hasleep, Bool.not_true, Bool.false_or, Bool.or_eq_true,
        mapPending_iff hst] at hsleep
      exact accounted_fallAsleep hp h hst hasleep hpending (hsleep.resolve_left hpending) skip

/-- The section behind the wait for pending maps. -/
theorem accounted_sleepWaited {skip : Bool} (hp : p.Partitioned)
    (h : (p.addCall (.sleepWait m skip)).Accounted)
    (hsleep : p.mapPending m || p.awake m && p.noAllocRecord m) :
    IfOk (p.sleepWaited m skip) Accounted := by
  rw [sleepWaited]
  split
  case h_1 => exact trivial
  case h_2 st hst =>
    split_ifs with hpending
    · exact h
    · rw [Bool.or_eq_true, Bool.and_eq_true, mapPending_iff hst, awake_iff hst] at hsleep
      obtain ⟨hawake, hrecord⟩ := hsleep.resolve_left hpending
      exact accounted_fallAsleep hp ((accounted_addCall_sleepWait hst).mp h) hst hawake hpending
        hrecord skip

theorem all_eraseIdx {α : Type} {l : List α} {test : α → Bool} (i : Nat) (h : l.all test) :
    (l.eraseIdx i).all test :=
  List.all_eq_true.mpr fun a ha =>
    List.all_eq_true.mp h a ((List.eraseIdx_sublist l i).subset ha)

/-- Step lemma: the pages in use are those that are charged. -/
theorem accounted_step (hp : p.Partitioned) (h : p.Accounted) (op : Op) (horderly : p.Orderly op) :
    IfOk (p.step op) Accounted := by
  cases op with
  | registerModel m numLayers => exact accounted_registerModel h numLayers
  | setModelParallelStrategy m dpSize tpSize =>
      exact accounted_setModelParallelStrategy h horderly dpSize tpSize
  | setWeightPagesCount m n => exact accounted_setWeightPagesCount h
  | allocKvCachePage m d => exact accounted_allocKvCachePage hp h
  | freeBlocks m d ids =>
      rw [Orderly, Bool.or_eq_true, List.all_eq_true] at horderly
      rcases horderly with hawake | hnone
      · exact accounted_freeBlocks hp h ids fun st hst => (awake_iff hst).mp hawake
      · exact accounted_freeBlocks_none h fun id hid => of_decide_eq_true (hnone id hid)
  | trimKvCache m d =>
      refine accounted_trimKvCache h fun st hst hreserved => ?_
      rw [Orderly, Bool.or_eq_true, awake_iff hst, noneReserved, hst] at horderly
      exact horderly.resolve_right fun hnone => hreserved (of_decide_eq_true hnone)
  | allocWeightPages m n => exact accounted_allocWeightPages h horderly
  | freeWeightPages m n success =>
      obtain ⟨rfl, hsettled⟩ := Bool.and_eq_true_iff.mp horderly
      exact accounted_freeWeightPages h hsettled
  | sleepModel m skip => exact accounted_sleepModel hp h skip horderly
  | wakeupModel m =>
      refine accounted_wakeupModel h fun st hst hasleep => ?_
      rw [Orderly, Bool.or_eq_true, Bool.and_eq_true, awake_iff hst, hasleep] at horderly
      exact horderly.resolve_left (by decide)
  | resume i failed =>
      rw [step]
      split
      case h_1 => exact trivial
      case h_2 c hc =>
        rw [Orderly, Bool.and_eq_true, decide_eq_true_eq, hc] at horderly
        obtain ⟨rfl, horderly⟩ := horderly
        obtain ⟨hi, rfl⟩ := List.getElem?_eq_some_iff.mp hc
        have hperm : p.calls.Perm (p.calls[i] :: p.calls.eraseIdx i) :=
          (List.getElem_cons_eraseIdx_perm hi).symm
        have hpfront : ({ p with calls := p.calls.eraseIdx i }.addCall p.calls[i]).Partitioned :=
          hp.of_view_eq rfl rfl (view_calls_perm hperm)
        have hfront : ({ p with calls := p.calls.eraseIdx i }.addCall p.calls[i]).Accounted :=
          h.of_eq ⟨rfl, rfl, rfl, rfl⟩ rfl (phyView_calls_perm hperm) rfl rfl
        have hsettled : ∀ m n, p.settled m n →
            { p with calls := p.calls.eraseIdx i }.settled m n := by
          intro m n hs
          rw [settled, Bool.and_eq_true] at hs ⊢
          exact ⟨hs.1, all_eraseIdx i hs.2⟩
        have hrecord : ∀ m, p.noAllocRecord m →
            { p with calls := p.calls.eraseIdx i }.noAllocRecord m :=
          fun m hs => all_eraseIdx i hs
        cases hcall : p.calls[i] with
        | allocMap m d page => exact accounted_allocMapped (hcall ▸ hfront)
        | allocRecord m d page => exact accounted_allocRecorded (hcall ▸ hpfront) (hcall ▸ hfront)
        | unmap m d pages => exact accounted_pagesUnmapped (hcall ▸ hpfront) (hcall ▸ hfront)
        | sleepWait m skip =>
            rw [hcall] at horderly hpfront hfront
            rw [partitioned_addCall_iff ⟨fun _ _ => ⟨rfl, rfl⟩, fun _ => rfl⟩] at hpfront
            refine accounted_sleepWaited hpfront hfront ?_
            rw [Bool.or_eq_true, Bool.and_eq_true] at horderly ⊢
            exact horderly.imp id fun hs => ⟨hs.1, hrecord m hs.2⟩
        | sleepWeights m n groups =>
            rw [hcall] at horderly
            exact accounted_sleepFreedWeights (hcall ▸ hfront) (hsettled m n horderly)
        | sleepUnmap m groups => exact accounted_sleepUnmapped (hcall ▸ hpfront) (hcall ▸ hfront)
        | wakeMap m n groups => exact accounted_wakeupMapped (hcall ▸ hfront)
        | weightAlloc m n => exact accounted_weightsAllocated (hcall ▸ hfront)
  | preallocScan order => exact accounted_preallocScan h order
  | preallocNext => exact accounted_preallocNext h
  | preallocMapped success =>
      cases success with
      | false => cases horderly
      | true => exact accounted_preallocMapped hp h

theorem Accounted.charge_of_quiescent (hp : p.Partitioned) (h : p.Accounted)
    (hquiet : p.Quiescent) (hst : p.modelStates m = some st) (w : Nat) :
    p.charge w m = p.load st (p.weightsResident m) (fun d => (p.mapped m d).card) w := by
  obtain ⟨hcalls, hmapping, htodo⟩ := hquiet
  have hnoCalls : (p.phyView m).calls = 0 := by simp [phyView, hcalls]
  have hnoReservations : (p.phyView m).reservations = 0 := by simp [phyView, hmapping, htodo]
  have hnoTransitions : (p.phyView m).transitions = 0 := by
    rw [transitions, hnoCalls, Multiset.filter_zero]
  have hweights : (p.phyView m).weightPages = p.weightsResident m := by
    rw [weightPages, hnoCalls]
    rfl
  rw [charge_eq hst, hweights]
  refine load_of_eq (fun d hd => ?_) w
  have hmapped : (p.mapped m d).card = ((p.phyView m).mappedPages st d).card := by
    rw [show p.mapped m d = _ from (h.model m st hst).mapped d hd,
      Multiset.toFinset_card_of_nodup (nodup_mappedPages hp hst hd)]
  have hlists : (p.phyView m).ListsMapped st ↔ (p.phyView m).Counted st := by
    rw [PhyView.ListsMapped, PhyView.Counted, hnoTransitions, Multiset.filter_zero]
  rw [hmapped, kvPages, mappedPages, flight, hnoCalls, hnoReservations]
  simp only [hlists, Multiset.map_zero, Multiset.sum_zero, add_zero, Multiset.card_zero, zero_add]
  split_ifs
  · rfl
  · rfl

theorem Accounted.used_of_quiescent (hp : p.Partitioned) (h : p.Accounted)
    (hquiet : p.Quiescent) (w : Nat) : p.workerPagesUsed w = p.residentPages w := by
  rw [h.used]
  refine Finset.sum_congr rfl fun m _ => ?_
  split
  case h_1 hnone => rw [charge, hnone]
  case h_2 st hst => exact h.charge_of_quiescent hp hquiet hst w

/-- In every state that an orderly run reaches, no worker uses more pages than it
has and no release found too few pages. When no operation is in flight, the counter
of a worker is what the worker holds. -/
theorem run_pages_accounted {numPhyPages dpSize maxWorldSize : Nat} {ops : List Op}
    (horderly : Along step (fun q op => q.Orderly op) (init numPhyPages dpSize maxWorldSize) ops)
    (hrun : run step (init numPhyPages dpSize maxWorldSize) ops = .ok p) :
    (p.Quiescent → ∀ w, p.workerPagesUsed w = p.residentPages w) ∧
      (∀ w, p.workerPagesUsed w ≤ p.numTotalPhyPages) ∧ p.underflow = false := by
  have hinv : p.Partitioned ∧ p.Accounted := by
    have hstep : ∀ (q : PageAllocator) op, q.Partitioned ∧ q.Accounted → q.Orderly op →
        Ensures (q.step op) (fun _ => True) fun q => q.Partitioned ∧ q.Accounted := by
      intro q op hq hop
      exact ((partitioned_step hq.1 op).and (accounted_step hq.1 hq.2 op hop)).mono
        (fun _ _ => trivial) fun _ hq' => hq'
    have hstart : (init numPhyPages dpSize maxWorldSize).Partitioned ∧
        (init numPhyPages dpSize maxWorldSize).Accounted :=
      ⟨partitioned_init numPhyPages dpSize maxWorldSize,
        accounted_init numPhyPages dpSize maxWorldSize⟩
    exact (horderly.ensures_run hstep hstart).of_ok hrun
  exact ⟨fun hquiet w => hinv.2.used_of_quiescent hinv.1 hquiet w, hinv.2.used_le,
    hinv.2.noUnderflow⟩

theorem run_pages_accounted_sleep_wakeup :
    ∃ p, run step (init 24 1 1)
        [.registerModel "a" 1, .allocWeightPages "a" 3, .resume 0 [], .allocKvCachePage "a" 0,
          .preallocScan ["a"], .resume 0 [], .resume 0 [], .preallocNext, .preallocMapped true,
          .sleepModel "a" false, .resume 0 [], .resume 0 [], .wakeupModel "a",
          .resume 0 []] = .ok p ∧
      p.Quiescent ∧ p.workerPagesUsed 0 = p.residentPages 0 ∧ p.workerPagesUsed 0 = 21 := by
  have hrun : ∃ p, run step (init 24 1 1)
        [.registerModel "a" 1, .allocWeightPages "a" 3, .resume 0 [], .allocKvCachePage "a" 0,
          .preallocScan ["a"], .resume 0 [], .resume 0 [], .preallocNext, .preallocMapped true,
          .sleepModel "a" false, .resume 0 [], .resume 0 [], .wakeupModel "a",
          .resume 0 []] = .ok p ∧ p.Quiescent ∧ p.workerPagesUsed 0 = 21 :=
    ⟨_, rfl, ⟨rfl, rfl, rfl⟩, rfl⟩
  obtain ⟨p, hp, hquiet, hused⟩ := hrun
  have horderly := run_pages_accounted (by decide +kernel) hp
  exact ⟨p, hp, hquiet, horderly.1 hquiet 0, hused⟩

def Op.succeeds : Op → Bool
  | .freeWeightPages _ _ success => success
  | .resume _ failed => failed = []
  | .preallocMapped success => success
  | _ => true

/-- `sleep_model` between the last two sections of `alloc_kv_cache_page` misses the
page, which is on no list. `wakeup_model` finds it on the list and counts it again. -/
theorem run_pages_counted_twice :
    ∃ ops, ops.all Op.succeeds ∧ ∃ p, run step (init 8 1 1) ops = .ok p ∧
      p.Quiescent ∧ p.workerPagesUsed 0 = 4 ∧ p.residentPages 0 = 2 :=
  ⟨[.registerModel "a" 1, .allocKvCachePage "a" 0, .resume 0 [], .sleepModel "a" false,
      .resume 0 [], .resume 0 [], .wakeupModel "a", .resume 0 []],
    rfl, _, rfl, ⟨rfl, rfl, rfl⟩, rfl, by decide +kernel⟩

/-- Calls that interleave reach the guard against underflow. -/
theorem run_underflow_guard_reached :
    ∃ ops, ops.all Op.succeeds ∧ ∃ p, run step (init 8 1 1) ops = .ok p ∧
      p.Quiescent ∧ p.underflow = true :=
  ⟨[.registerModel "a" 1, .allocKvCachePage "a" 0, .resume 0 [], .resume 0 [],
      .sleepModel "a" false, .resume 0 [], .freeBlocks "a" 0 [0], .resume 0 []],
    rfl, _, rfl, ⟨rfl, rfl, rfl⟩, rfl⟩

end PageAllocator

end Xllm
