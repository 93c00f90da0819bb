import Xllm.XTensor.PhyPages.View

/-!
# The rules of the accounting

The counters of a worker are the loads of the registered models. A section concerns
one model. It keeps the accounting if the counters change as the load of that model
does, and the load changes by the pages of one group or by the weights.
-/

namespace Xllm

namespace PageAllocator

open PhyView

variable {p q : PageAllocator} {m m' : String} {d d' w n : Nat} {st st' : ModelState}
  {v v' : PhyView}

structure SameShape (p q : PageAllocator) : Prop where
  dpSize : q.dpSize = p.dpSize
  maxWorldSize : q.maxWorldSize = p.maxWorldSize
  numTotalPhyPages : q.numTotalPhyPages = p.numTotalPhyPages
  modelIds : q.modelIds = p.modelIds

theorem SameShape.load_eq (h : SameShape p q) : q.load = p.load := by
  funext st weights kv w
  have hworld : q.inWorld = p.inWorld := by
    funext st w
    simp only [inWorld, h.maxWorldSize]
  have hgroup : q.inDpGroup = p.inDpGroup := by
    funext st d w
    simp only [inDpGroup, h.maxWorldSize]
  rw [load, load, hworld, hgroup, h.dpSize]

theorem SameShape.modelSound {v : PhyView} (h : SameShape p q) (hv : p.ModelSound m st v) :
    q.ModelSound m st v := by
  have hcollect : q.collectPages st = p.collectPages st := by
    rw [collectPages, h.dpSize]
    rfl
  exact ⟨hcollect ▸ hv.phase, hv.noAlloc, h.dpSize ▸ hv.inRange, h.dpSize ▸ hv.reserved,
    hv.weightCalls, h.dpSize ▸ hv.mapped⟩


/-- A section from `p` to `q` concerns the model `m`. -/
structure ModelStep (p q : PageAllocator) (m : String) (st st' : ModelState)
    (v v' : PhyView) : Prop where
  state : p.modelStates m = some st
  state' : q.modelStates m = some st'
  view : p.phyView m = v
  view' : q.phyView m = v'
  shape : SameShape p q
  others : ∀ m', m' ≠ m → q.modelStates m' = p.modelStates m' ∧ q.phyView m' = p.phyView m'

/-- A section that concerns one model keeps the accounting if the counters change
as the load of that model does. -/
theorem Accounted.of_model (h : p.Accounted) (hstep : ModelStep p q m st st' v v')
    (hused : ∀ w, q.workerPagesUsed w +
        p.load st v.weightPages (v.kvPages st) w =
      p.workerPagesUsed w + p.load st' v'.weightPages (v'.kvPages st') w)
    (hle : ∀ w, q.workerPagesUsed w ≤ p.numTotalPhyPages) (hflow : q.underflow = p.underflow)
    (hm : p.ModelSound m st' v') : q.Accounted := by
  obtain ⟨hst, hst', rfl, rfl, hshape, others⟩ := hstep
  have hmem : m ∈ p.modelIds.toFinset := by simp [h.registered, hst]
  refine ⟨fun m' => ?_, fun w => ?_, fun w => hshape.numTotalPhyPages ▸ hle w,
    fun m' st'' hst'' => ?_, fun m' hnone => ?_, hflow.trans h.noUnderflow⟩
  · rw [hshape.modelIds]
    by_cases hm' : m' = m
    · subst hm'
      simp [h.registered, hst, hst']
    · rw [(others m' hm').1, h.registered]
  · have hsum := sum_add_eq_of_eqOff hmem (f := q.charge w) (g := p.charge w) fun m' _ hm' => by
      rw [charge, charge, (others m' hm').1, (others m' hm').2, hshape.load_eq]
    rw [charge_eq hst, charge_eq hst', hshape.load_eq, ← h.used] at hsum
    rw [hshape.modelIds]
    have := hused w
    omega
  · by_cases hm' : m' = m
    · subst hm'
      rw [hst'] at hst''
      cases hst''
      exact hshape.modelSound hm
    · rw [(others m' hm').2]
      rw [(others m' hm').1] at hst''
      exact hshape.modelSound (h.model m' st'' hst'')
  · have hm' : m' ≠ m := by
      rintro rfl
      rw [hst'] at hnone
      cases hnone
    rw [(others m' hm').2]
    rw [(others m' hm').1] at hnone
    exact h.unregistered m' hnone

theorem Accounted.of_eq (h : p.Accounted) (hshape : SameShape p q)
    (hstates : q.modelStates = p.modelStates) (hview : q.phyView = p.phyView)
    (hused : q.workerPagesUsed = p.workerPagesUsed) (hflow : q.underflow = p.underflow) :
    q.Accounted := by
  refine ⟨?_, ?_, ?_, ?_, ?_, hflow.trans h.noUnderflow⟩
  · rw [hshape.modelIds, hstates]
    exact h.registered
  · intro w
    have hcharge : q.charge w = p.charge w := by
      funext m
      rw [charge, charge, hstates, hview, hshape.load_eq]
    rw [hused, hshape.modelIds, hcharge]
    exact h.used w
  · rw [hused, hshape.numTotalPhyPages]
    exact h.used_le
  · rw [hstates, hview]
    exact fun m st hst => hshape.modelSound (h.model m st hst)
  · rw [hstates, hview]
    exact h.unregistered

theorem load_of_eq {weights : Nat} {kv kv' : Nat → Nat} (hkv : ∀ d < p.dpSize, kv' d = kv d)
    (w : Nat) : p.load st weights kv' w = p.load st weights kv w := by
  rw [load]
  congr 1
  refine Finset.sum_congr rfl fun d hd => ?_
  rw [hkv d (Finset.mem_range.mp hd)]

variable {covers : Nat → Bool}

theorem releasePhyPages_used (h : ∀ w, covers w → n ≤ p.workerPagesUsed w) (w : Nat) :
    (p.releasePhyPages covers n).workerPagesUsed w + (if covers w then n else 0) =
      p.workerPagesUsed w := by
  rw [releasePhyPages]
  dsimp only
  split_ifs with hw hle
  · omega
  · exact absurd (h w hw) hle
  · omega

@[simp] theorem releasePhyPages_underflow (h : ∀ w, covers w → n ≤ p.workerPagesUsed w) :
    (p.releasePhyPages covers n).underflow = p.underflow := by
  have hnone : ((List.range p.maxWorldSize).any fun w => covers w && p.workerPagesUsed w < n) =
      false := by
    rw [List.any_eq_false]
    intro w _ hw
    rw [Bool.and_eq_true, decide_eq_true_eq] at hw
    have := h w hw.1
    omega
  rw [releasePhyPages]
  rw [hnone, Bool.or_false]

theorem used_add_le_of_minFreePages (hle : ∀ w, p.workerPagesUsed w ≤ p.numTotalPhyPages)
    (hcovers : ∀ w, covers w → w < p.maxWorldSize) (hn : n ≤ p.minFreePages covers) (w : Nat) :
    p.workerPagesUsed w + (if covers w then n else 0) ≤ p.numTotalPhyPages := by
  split_ifs with hw
  · have hmin : ∀ (ws : List Nat) (start : Nat),
        ws.foldl (fun minFree w => min minFree (p.numTotalPhyPages - p.workerPagesUsed w)) start ≤
          start ∧ ∀ w ∈ ws,
        ws.foldl (fun minFree w => min minFree (p.numTotalPhyPages - p.workerPagesUsed w)) start ≤
          p.numTotalPhyPages - p.workerPagesUsed w := by
      intro ws
      induction ws with
      | nil => exact fun start => ⟨le_refl _, fun w hw => absurd hw List.not_mem_nil⟩
      | cons x ws ih =>
          intro start
          obtain ⟨hstart, hws⟩ := ih (min start (p.numTotalPhyPages - p.workerPagesUsed x))
          refine ⟨hstart.trans (min_le_left _ _), fun w hw => ?_⟩
          rcases List.mem_cons.mp hw with rfl | hw
          · exact hstart.trans (min_le_right _ _)
          · exact hws w hw
    have hmem : w ∈ (List.range p.maxWorldSize).filter covers :=
      List.mem_filter.mpr ⟨List.mem_range.mpr (hcovers w hw), hw⟩
    have hfree := hn.trans ((hmin _ p.numTotalPhyPages).2 w hmem)
    have := hle w
    omega
  · exact hle w

theorem lt_maxWorldSize_of_inDpGroup (h : p.inDpGroup st d w) : w < p.maxWorldSize := by
  simp only [inDpGroup, Bool.and_eq_true, decide_eq_true_eq] at h
  exact h.2

theorem lt_maxWorldSize_of_inWorld (h : p.inWorld st w) : w < p.maxWorldSize := by
  simp only [inWorld, Bool.and_eq_true, decide_eq_true_eq] at h
  exact h.2

theorem ModelSound.of_awake (hawake : st.isSleeping = false)
    (htransitions : v.transitions = 0) (hrange : ∀ c ∈ v.calls, c.InRange p.dpSize)
    (hreserved : ∀ r ∈ v.reservations, r.dpRank < p.dpSize)
    (hweights : v.calls.filter (fun c => c.mapsWeights) = 0 ∨
      (v.calls.filter fun c => c.mapsWeights).card = 1 ∧ v.weights = 0)
    (hmapped : ∀ d < p.dpSize, v.mapped d =
      (PhyView.listed st d + (v.calls.map fun c => c.mappedPages d).sum).toFinset) :
    p.ModelSound m st v := by
  refine ⟨?_, ?_, hrange, hreserved, hweights, fun d hd => ?_⟩
  · rw [hawake, htransitions]
    exact .awake
  · rw [hawake]
    exact fun h => absurd h (by decide)
  · rw [PhyView.mappedPages, if_pos (.inl hawake)]
    exact hmapped d hd

/-- A section that concerns one group keeps the accounting if the counters of the
workers of the group change as the pages of the group do. -/
theorem Accounted.of_group (h : p.Accounted) (hstep : ModelStep p q m st st' v v')
    (hload : p.load st' = p.load st) (less more : Nat)
    (hweights : v'.weightPages = v.weightPages) (hd : d < p.dpSize)
    (hkv : ∀ d', d' ≠ d → v'.kvPages st' d' = v.kvPages st d')
    (hkvd : v'.kvPages st' d + less = v.kvPages st d + more)
    (hused : ∀ w, q.workerPagesUsed w +
        (if p.inDpGroup st d w then less * st.phyPagesPerVirtPage else 0) =
      p.workerPagesUsed w + (if p.inDpGroup st d w then more * st.phyPagesPerVirtPage else 0))
    (hle : ∀ w, q.workerPagesUsed w ≤ p.numTotalPhyPages) (hflow : q.underflow = p.underflow)
    (hm : p.ModelSound m st' v') : q.Accounted := by
  refine h.of_model hstep (fun w => ?_) hle hflow hm
  have hgroup := load_add_group st v.weightPages hd hkv w
  have hmul := congrArg (· * st.phyPagesPerVirtPage) hkvd
  have hw := hused w
  rw [Nat.add_mul, Nat.add_mul] at hmul
  rw [hload, hweights]
  split_ifs at hgroup hw <;> omega

/-- A section that releases `n` pages of one group. The counters cover the pages,
so the guard of the release is not met. -/
theorem Accounted.of_release (h : p.Accounted) (hstep : ModelStep p q m st st' v v')
    (hload : p.load st' = p.load st) (hweights : v'.weightPages = v.weightPages)
    (hd : d < p.dpSize) (hkv : ∀ d', d' ≠ d → v'.kvPages st' d' = v.kvPages st d')
    (hkvd : v'.kvPages st' d + n = v.kvPages st d)
    (hused : q.workerPagesUsed =
      (p.releasePhyPagesForDp st d (n * st.phyPagesPerVirtPage)).workerPagesUsed)
    (hflow : q.underflow = (p.releasePhyPagesForDp st d (n * st.phyPagesPerVirtPage)).underflow)
    (hm : p.ModelSound m st' v') : q.Accounted := by
  have henough : ∀ w, p.inDpGroup st d w → n * st.phyPagesPerVirtPage ≤ p.workerPagesUsed w := by
    intro w hw
    have hle := (group_le_load hd w).trans (h.load_le hstep.state w)
    rw [if_pos hw, hstep.view, ← hkvd, Nat.add_mul] at hle
    omega
  have hrelease := releasePhyPages_used henough
  refine h.of_group hstep hload n 0 hweights hd hkv hkvd (fun w => ?_) (fun w => ?_) ?_ hm
  · rw [hused, releasePhyPagesForDp, hrelease w]
    simp
  · have hle := h.used_le w
    have := hrelease w
    rw [hused, releasePhyPagesForDp]
    omega
  · rw [hflow]
    exact releasePhyPages_underflow henough

section

variable {g : DpGroupPages}

@[simp] theorem PhyView.listed_setGroup : listed (st.setGroup d g) d =
    (g.reservedVirtPageList : Multiset Nat) + g.allocatedVirtPageList := by
  simp [listed]

@[simp] theorem PhyView.listed_setGroup_of_ne (h : d' ≠ d) :
    listed (st.setGroup d g) d' = listed st d' := by
  simp [listed, h]

@[simp] theorem PhyView.kvPages_of_awake (h : st.isSleeping = false) :
    v.kvPages st d = (v.flight d).card + (listed st d).card := by
  rw [kvPages, if_pos (.inl h)]

/-- A section that changes the lists and the calls of one group of an awake model. -/
theorem Accounted.of_awake {pending : Int} (h : p.Accounted)
    (hstep : ModelStep p q m st ({ st with pendingMapOps := pending }.setGroup d g) v v')
    (hawake : st.isSleeping = false) (hd : d < p.dpSize)
    (htransitions : v'.transitions = v.transitions)
    (hrange : ∀ c ∈ v'.calls, c.InRange p.dpSize)
    (hreserved : ∀ r ∈ v'.reservations, r.dpRank < p.dpSize)
    (hcalls : v'.calls.filter (fun c => c.mapsWeights) = v.calls.filter (fun c => c.mapsWeights))
    (hweights : v'.weightPages = v.weightPages) (hw : v'.weights = v.weights)
    (hother : ∀ d', d' ≠ d → v'.flight d' = v.flight d' ∧ v'.mapped d' = v.mapped d' ∧
      (v'.calls.map fun c => c.mappedPages d').sum = (v.calls.map fun c => c.mappedPages d').sum)
    (hmapped : v.mapped d =
        (PhyView.listed st d + (v.calls.map fun c => c.mappedPages d).sum).toFinset →
      v'.mapped d = (g.reservedVirtPageList + g.allocatedVirtPageList +
        (v'.calls.map fun c => c.mappedPages d).sum : Multiset Nat).toFinset)
    (less more : Nat)
    (hkv : (v'.flight d).card + (g.reservedVirtPageList.length + g.allocatedVirtPageList.length) +
        less = (v.flight d).card + (PhyView.listed st d).card + more)
    (hused : ∀ w, q.workerPagesUsed w +
        (if p.inDpGroup st d w then less * st.phyPagesPerVirtPage else 0) =
      p.workerPagesUsed w + (if p.inDpGroup st d w then more * st.phyPagesPerVirtPage else 0))
    (hle : ∀ w, q.workerPagesUsed w ≤ p.numTotalPhyPages) (hflow : q.underflow = p.underflow) :
    q.Accounted := by
  have hm := h.model m st hstep.state
  rw [hstep.view] at hm
  have hcounted : ∀ d', v'.kvPages ({ st with pendingMapOps := pending }.setGroup d g) d' =
      (v'.flight d').card +
        (PhyView.listed ({ st with pendingMapOps := pending }.setGroup d g) d').card :=
    fun d' => PhyView.kvPages_of_awake hawake
  refine h.of_group hstep rfl less more hweights hd (fun d' hd' => ?_) ?_ hused hle hflow ?_
  · rw [hcounted, PhyView.kvPages_of_awake hawake, PhyView.listed_setGroup_of_ne hd',
      (hother d' hd').1]
    rfl
  · rw [hcounted, PhyView.kvPages_of_awake hawake, PhyView.listed_setGroup,
      Multiset.card_add]
    exact hkv
  · refine ModelSound.of_awake hawake (htransitions.trans (hm.transitions_eq_zero hawake)) hrange
      hreserved ?_ fun d' hd' => ?_
    · rw [hcalls, hw]
      exact hm.weightCalls
    · by_cases hdd : d' = d
      · subst hdd
        rw [PhyView.listed_setGroup]
        exact hmapped (hm.mapped_of_awake hawake hd')
      · rw [PhyView.listed_setGroup_of_ne hdd, (hother d' hdd).2.1, (hother d' hdd).2.2]
        exact hm.mapped_of_awake hawake hd'

end

/-- A section that changes the lists of one group of an awake model and starts a call
about the pages of that group. -/
theorem Accounted.of_groupCall {pending : Int} {g : DpGroupPages} {c : Call} (h : p.Accounted)
    (hstep : ModelStep p q m st ({ st with pendingMapOps := pending }.setGroup d g) v (v.addCall c))
    (hawake : st.isSleeping = false) (hd : d < p.dpSize) (htransition : c.isTransition = false)
    (hmaps : c.mapsWeights = false) (hweights : c.weightPages = 0) (hrange : c.InRange p.dpSize)
    (hother : ∀ d', d' ≠ d → c.flightPages d' = 0 ∧ c.mappedPages d' = 0)
    (hlists : (g.reservedVirtPageList + g.allocatedVirtPageList + c.mappedPages d : Multiset Nat) =
      listed st d)
    (more : Nat) (hmore : (c.flightPages d).card = (c.mappedPages d).card + more)
    (hused : ∀ w, q.workerPagesUsed w =
      p.workerPagesUsed w + (if p.inDpGroup st d w then more * st.phyPagesPerVirtPage else 0))
    (hle : ∀ w, q.workerPagesUsed w ≤ p.numTotalPhyPages) (hflow : q.underflow = p.underflow) :
    q.Accounted := by
  have hm := h.model m st hstep.state
  rw [hstep.view] at hm
  have hcard := congrArg Multiset.card hlists
  rw [Multiset.card_add, Multiset.card_add, Multiset.coe_card, Multiset.coe_card] at hcard
  refine h.of_awake hstep hawake hd (transitions_addCall htransition)
    (inRange_addCall hrange hm.inRange) hm.reserved (mapsWeights_addCall hmaps)
    (by rw [weightPages_addCall, hweights, Nat.zero_add]) rfl (fun d' hd' => ⟨?_, rfl, ?_⟩)
    (fun hmapped => ?_) 0 more ?_ (fun w => ?_) hle hflow
  · rw [flight_addCall, (hother d' hd').1, zero_add]
  · rw [mappedSum_addCall, (hother d' hd').2, zero_add]
  · rw [mappedSum_addCall, ← add_assoc, hlists]
    exact hmapped
  · rw [flight_addCall, Multiset.card_add]
    omega
  · rw [Nat.zero_mul, ite_self, Nat.add_zero, hused]

structure SameLists (st st' : ModelState) : Prop where
  isSleeping : st'.isSleeping = st.isSleeping
  reserved : ∀ d, (st'.dpGroupPages d).reservedVirtPageList =
    (st.dpGroupPages d).reservedVirtPageList
  allocated : ∀ d, (st'.dpGroupPages d).allocatedVirtPageList =
    (st.dpGroupPages d).allocatedVirtPageList

namespace SameLists

theorem listed_eq (h : SameLists st st') (d : Nat) :
    PhyView.listed st' d = PhyView.listed st d := by
  rw [PhyView.listed, PhyView.listed, h.reserved, h.allocated]

theorem kvPages_eq (h : SameLists st st') : v.kvPages st' = v.kvPages st := by
  funext d
  have hcounted : v.Counted st' ↔ v.Counted st := by
    rw [PhyView.Counted, PhyView.Counted, h.isSleeping]
  simp only [PhyView.kvPages, hcounted, h.listed_eq]

theorem mappedPages_eq (h : SameLists st st') (d : Nat) :
    v.mappedPages st' d = v.mappedPages st d := by
  have hmapped : v.ListsMapped st' ↔ v.ListsMapped st := by
    rw [PhyView.ListsMapped, PhyView.ListsMapped, h.isSleeping]
  simp only [PhyView.mappedPages, hmapped, h.listed_eq]

theorem collectPages_eq (h : SameLists st st') : p.collectPages st' = p.collectPages st := by
  simp only [collectPages, h.reserved, h.allocated]

theorem modelSound (h : SameLists st st') (hm : p.ModelSound m st v) : p.ModelSound m st' v := by
  refine ⟨?_, ?_, hm.inRange, hm.reserved, hm.weightCalls, fun d hd => ?_⟩
  · rw [h.isSleeping, h.collectPages_eq]
    exact hm.phase
  · rw [h.isSleeping]
    exact hm.noAlloc
  · rw [h.mappedPages_eq]
    exact hm.mapped d hd

theorem setGroup {g : DpGroupPages} (pending : Int)
    (hreserved : g.reservedVirtPageList = (st.dpGroupPages d).reservedVirtPageList)
    (hallocated : g.allocatedVirtPageList = (st.dpGroupPages d).allocatedVirtPageList) :
    SameLists st ({ st with pendingMapOps := pending }.setGroup d g) := by
  refine ⟨rfl, fun d' => ?_, fun d' => ?_⟩
  · by_cases hd : d' = d
    · subst hd
      simpa using hreserved
    · simp [hd]
  · by_cases hd : d' = d
    · subst hd
      simpa using hallocated
    · simp [hd]

end SameLists

theorem ModelSound.of_addCall {c : Call} (h : p.ModelSound m st (v.addCall c))
    (hc : c.isTransition = false) (hcalls : v'.calls = v.calls)
    (hreservations : v'.reservations = v.reservations)
    (hweights : v.calls.filter (fun c => c.mapsWeights) = 0 ∨
      (v.calls.filter fun c => c.mapsWeights).card = 1 ∧ v'.weights = 0)
    (hmapped : ∀ d < p.dpSize, v'.mapped d = (v'.mappedPages st d).toFinset) :
    p.ModelSound m st v' := by
  have htransitions : v'.transitions = (v.addCall c).transitions := by
    rw [PhyView.transitions_addCall hc, PhyView.transitions, hcalls]
    rfl
  refine ⟨htransitions ▸ h.phase, fun hs c' hc' => ?_, fun c' hc' => ?_, ?_, ?_, hmapped⟩
  · exact h.noAlloc hs c' (PhyView.mem_addCall_of_mem (hcalls ▸ hc'))
  · exact h.inRange c' (PhyView.mem_addCall_of_mem (hcalls ▸ hc'))
  · rw [hreservations]
    exact h.reserved
  · rw [hcalls]
    exact hweights

theorem ModelSound.addCall {c : Call} (h : p.ModelSound m st v)
    (hc : c.isTransition = false) (halloc : st.isSleeping → c.isAlloc = false)
    (hrange : c.InRange p.dpSize) (hmapped : ∀ d, c.mappedPages d = 0)
    (hweights : (v.addCall c).calls.filter (fun c => c.mapsWeights) = 0 ∨
      ((v.addCall c).calls.filter fun c => c.mapsWeights).card = 1 ∧ v.weights = 0) :
    p.ModelSound m st (v.addCall c) := by
  refine ⟨?_, fun hs => ?_, PhyView.inRange_addCall hrange h.inRange, h.reserved, hweights,
    fun d hd => ?_⟩
  · rw [PhyView.transitions_addCall hc]
    exact h.phase
  · exact PhyView.noAlloc_addCall (halloc hs) (h.noAlloc hs)
  · rw [PhyView.mappedPages_addCall hc, hmapped, zero_add]
    exact h.mapped d hd

/-- A section that changes the weights of the model. -/
theorem Accounted.of_weights (h : p.Accounted) (hstep : ModelStep p q m st st' v v')
    (hload : p.load st' = p.load st) (less more : Nat)
    (hkv : v'.kvPages st' = v.kvPages st)
    (hweights : v'.weightPages + less = v.weightPages + more)
    (hused : ∀ w, q.workerPagesUsed w + (if p.inWorld st w then less else 0) =
      p.workerPagesUsed w + (if p.inWorld st w then more else 0))
    (hle : ∀ w, q.workerPagesUsed w ≤ p.numTotalPhyPages) (hflow : q.underflow = p.underflow)
    (hm : p.ModelSound m st' v') : q.Accounted := by
  refine h.of_model hstep (fun w => ?_) hle hflow hm
  have hworld := load_add_weights p st v.weightPages v'.weightPages (v.kvPages st) w
  have hw := hused w
  rw [hload, hkv]
  split_ifs at hworld hw <;> omega

/-- No weights of the model are being mapped, and `n` pages are resident. -/
theorem Accounted.of_sameLists (h : p.Accounted) (hstep : ModelStep p q m st st' v v)
    (hlists : SameLists st st') (hload : p.load st' = p.load st)
    (hused : q.workerPagesUsed = p.workerPagesUsed) (hflow : q.underflow = p.underflow) :
    q.Accounted := by
  have hm := h.model m st hstep.state
  rw [hstep.view] at hm
  refine h.of_model hstep (fun w => ?_) (fun w => hused ▸ h.used_le w) hflow (hlists.modelSound hm)
  rw [hused, hlists.kvPages_eq, hload]

end PageAllocator

end Xllm
