import Xllm.XTensor.PhyPages.KvCache
import Xllm.XTensor.PhyPages.Weights

/-!
# Falling asleep

`sleep_model` collects the pages on the lists, frees the weights and unmaps the pages,
one section each. The counters cover the pages until the last section releases them.
-/

namespace Xllm

open Contract List Function

namespace PageAllocator

open PhyView

variable {p q : PageAllocator} {m m' : String} {d d' w n : Nat} {st st' : ModelState}

def noAllocRecord (p : PageAllocator) (m : String) : Bool :=
  p.calls.all fun c => !(c.modelId = m && c.isAlloc && c.mapsPage m = 0)

theorem noAlloc_of_noAllocRecord (hp : p.Partitioned) (hst : p.modelStates m = some st)
    (hpending : ¬0 < st.pendingMapOps) (hrecord : p.noAllocRecord m) :
    ∀ c ∈ (p.phyView m).calls, c.isAlloc = false := by
  intro c hc
  obtain ⟨hmem, hcm⟩ := List.mem_filter.mp (Multiset.mem_coe.mp hc)
  have hops : (p.calls.map fun c => c.mapsPage m).sum = 0 := by
    have := (hp.modelInv hst).pending
    simp only [view, mapOps] at this
    omega
  have hmaps : c.mapsPage m = 0 :=
    List.sum_eq_zero_iff_forall_eq_nat.mp hops _ (mem_map_of_mem hmem)
  have := List.all_eq_true.mp hrecord c hmem
  simpa [hcm, hmaps] using this

/-- An awake model falls asleep with a call that carries the pages of its lists. -/
theorem accounted_fallAsleep_call (h : p.Accounted) (hst : p.modelStates m = some st)
    (hawake : st.isSleeping = false) (hnoAlloc : ∀ c ∈ (p.phyView m).calls, c.isAlloc = false)
    {c : Call} (hphase : Phase m (p.collectPages st) true {c}) (hsleep : c.isSleep) :
    ((p.setModel m { st with isSleeping := true }).addCall c).Accounted := by
  have hm := h.model m st hst
  have hzero : c.modelId = m ∧ c.weightPages = 0 ∧ c.mapsWeights = false ∧ c.isAlloc = false ∧
      c.InRange p.dpSize ∧ ∀ d, c.flightPages d = 0 ∧ c.mappedPages d = 0 := by
    obtain ⟨-, -, ⟨n, rfl⟩ | rfl | ⟨n, rfl⟩⟩ := hphase.of_cons
    · exact ⟨rfl, rfl, rfl, rfl, trivial, fun _ => ⟨rfl, rfl⟩⟩
    · exact ⟨rfl, rfl, rfl, rfl, trivial, fun _ => ⟨rfl, rfl⟩⟩
    · cases hsleep
  obtain ⟨hmodel, hweights, hmaps, halloc, hrange, hpages⟩ := hzero
  have htransition := c.isTransition_of_isSleep hsleep
  subst hmodel
  refine h.of_model ⟨hst, update_self .., rfl, phyView_addCall, ⟨rfl, rfl, rfl, rfl⟩,
    fun m' hm' => ⟨update_of_ne hm' .., phyView_addCall_of_ne hm'⟩⟩ (fun w => ?_)
    h.used_le rfl ?_
  · rw [weightPages_addCall, hweights, Nat.zero_add]
    refine congrArg (p.workerPagesUsed w + ·) (load_of_eq (fun d _ => ?_) w).symm
    rw [kvPages_of_awake hawake, kvPages_addTransition htransition, (hpages d).1,
      Multiset.card_zero, Nat.zero_add]
    rfl
  · refine ⟨?_, fun _ => noAlloc_addCall halloc hnoAlloc, inRange_addCall hrange hm.inRange,
      hm.reserved, ?_, fun d hd => ?_⟩
    · rw [transitions_addCall_of_pos htransition]
      change Phase _ _ true (c ::ₘ (p.phyView c.modelId).transitions)
      rw [hm.transitions_eq_zero hawake]
      exact hphase
    · rw [mapsWeights_addCall hmaps]
      exact hm.weightCalls
    · rw [mappedPages_addSleep hsleep, (hpages d).2, zero_add]
      exact hm.mapped_of_awake hawake hd

/-- A model that falls asleep is charged by its lists until they are unmapped. -/
theorem accounted_fallAsleep (hp : p.Partitioned) (h : p.Accounted)
    (hst : p.modelStates m = some st) (hawake : st.isSleeping = false)
    (hpending : ¬0 < st.pendingMapOps) (hrecord : p.noAllocRecord m) (skip : Bool) :
    (p.fallAsleep m st skip).Accounted := by
  have hnoAlloc := noAlloc_of_noAllocRecord hp hst hpending hrecord
  rw [fallAsleep]
  split_ifs
  · exact accounted_fallAsleep_call h hst hawake hnoAlloc (.freeing _) rfl
  · exact accounted_fallAsleep_call h hst hawake hnoAlloc .unmapping rfl

variable {groups : List (Nat × List Nat)}

theorem accounted_sleepUnmap_of_sleepWeights
    (h : (p.addCall (.sleepWeights m n groups)).Accounted) (hst : p.modelStates m = some st) :
    (p.addCall (.sleepUnmap m groups)).Accounted := by
  have hv : (p.addCall (.sleepWeights m n groups)).phyView m =
      (p.phyView m).addCall (.sleepWeights m n groups) := phyView_addCall
  have hm := h.model m st hst
  rw [hv] at hm
  obtain ⟨hasleep, hnone, hgroups⟩ := hm.transition rfl
  refine h.of_model ⟨hst, hst, hv, phyView_addCall (c := .sleepUnmap m groups),
    ⟨rfl, rfl, rfl, rfl⟩, fun m' hm' => ⟨rfl, ?_⟩⟩ (fun w => ?_) h.used_le rfl ?_
  · rw [phyView_addCall_of_ne hm', phyView_addCall_of_ne hm']
  · rw [weightPages_addCall, weightPages_addCall]
    refine congrArg (p.workerPagesUsed w + ·) (load_of_eq (fun d _ => ?_) w).symm
    rw [kvPages_addTransition rfl, kvPages_addTransition rfl]
    rfl
  · refine ⟨?_, fun hs => noAlloc_addCall rfl fun c hc => hm.noAlloc hs c (mem_addCall_of_mem hc),
      inRange_addCall (c := .sleepUnmap m groups) trivial
        fun c hc => hm.inRange c (mem_addCall_of_mem hc),
      hm.reserved, ?_, fun d hd => ?_⟩
    · rw [transitions_addCall_of_pos rfl]
      change Phase _ _ _ (_ ::ₘ (p.phyView m).transitions)
      rw [hnone, hasleep, show groups = _ from hgroups]
      exact .unmapping
    · rw [mapsWeights_addCall rfl]
      have hweights := hm.weightCalls
      exact hweights
    · have hmapped := hm.mapped d hd
      rw [mappedPages_addSleep rfl] at hmapped ⊢
      exact hmapped

theorem accounted_sleepFreedWeights (h : (p.addCall (.sleepWeights m n groups)).Accounted)
    (hsettled : p.settled m n) : IfOk (p.sleepFreedWeights m n groups true) Accounted := by
  rw [sleepFreedWeights, freeWeightPages]
  cases hst : p.modelStates m with
  | none => exact trivial
  | some st =>
      have hnext := accounted_sleepUnmap_of_sleepWeights h hst
      have hfree := accounted_freeWeightPages hnext (by rw [settled_addCall rfl]; exact hsettled)
      rw [freeWeightPages,
        show (p.addCall (.sleepUnmap m groups)).modelStates m = some st from hst] at hfree
      exact hfree

def groupLoad (p : PageAllocator) (st : ModelState) (w : Nat) (group : Nat × List Nat) : Nat :=
  if p.inDpGroup st group.1 w then group.2.length * st.phyPagesPerVirtPage else 0

theorem sum_groupLoad_collectPages (p : PageAllocator) (st : ModelState) (w : Nat) :
    ((p.collectPages st).map (p.groupLoad st w)).sum =
      ∑ d ∈ Finset.range p.dpSize,
        if p.inDpGroup st d w then (listed st d).card * st.phyPagesPerVirtPage else 0 := by
  have hfilter := sum_map_filter_eq ((List.range p.dpSize).map fun d =>
      (d, (st.dpGroupPages d).reservedVirtPageList ++ (st.dpGroupPages d).allocatedVirtPageList))
    (fun group => group.2 ≠ []) (p.groupLoad st w) fun group hgroup => by
      simp [groupLoad, not_not.mp hgroup]
  rw [collectPages, hfilter, map_map]
  refine congrArg List.sum (map_congr_left fun d _ => ?_)
  simp [groupLoad, listed]

theorem load_add_listed {weights : Nat} {kv : Nat → Nat} (w : Nat) :
    p.load st weights (fun d => kv d + (listed st d).card) w =
      p.load st weights kv w + ((p.collectPages st).map (p.groupLoad st w)).sum := by
  rw [sum_groupLoad_collectPages, load, load, add_assoc, ← Finset.sum_add_distrib]
  congr 1
  refine Finset.sum_congr rfl fun d _ => ?_
  split_ifs
  · rw [Nat.add_mul]
  · rfl

def pagesAt (groups : List (Nat × List Nat)) (d : Nat) : List Nat :=
  groups.flatMap fun group => if group.1 = d then group.2 else []

theorem mem_pagesAt_collectPages (hd : d < p.dpSize) {x : Nat} :
    x ∈ pagesAt (p.collectPages st) d ↔ x ∈ listed st d := by
  simp only [pagesAt, collectPages, mem_flatMap, mem_filter, mem_map,
    mem_range, listed, Multiset.mem_add]
  constructor
  · rintro ⟨group, ⟨⟨d', hd', rfl⟩, -⟩, hx⟩
    split_ifs at hx with hdd
    · subst hdd
      exact List.mem_append.mp hx
    · cases hx
  · intro hx
    have hmem := List.mem_append.mpr hx
    refine ⟨_, ⟨⟨d, hd, rfl⟩, ?_⟩, by rw [if_pos rfl]; exact hmem⟩
    exact decide_eq_true (ne_nil_of_mem hmem)

theorem foldl_releaseGroup (st : ModelState) (groups : List (Nat × List Nat))
    (henough : ∀ w, (groups.map (p.groupLoad st w)).sum ≤ p.workerPagesUsed w) :
    ∃ used mapped, groups.foldl (releaseGroup m st) p =
        { p with workerPagesUsed := used, mapped := update p.mapped m mapped } ∧
      (∀ w, used w + (groups.map (p.groupLoad st w)).sum = p.workerPagesUsed w) ∧
      ∀ d, mapped d = p.mapped m d \ (pagesAt groups d).toFinset := by
  induction groups generalizing p with
  | nil =>
      refine ⟨p.workerPagesUsed, p.mapped m, ?_, fun w => rfl, fun d => ?_⟩
      · rw [update_eq_self]
        rfl
      · simp [pagesAt]
  | cons group groups ih =>
      have hfirst : ∀ w, p.inDpGroup st group.1 w →
          group.2.length * st.phyPagesPerVirtPage ≤ p.workerPagesUsed w := by
        intro w hw
        have := henough w
        rw [map_cons, sum_cons, groupLoad, if_pos hw] at this
        omega
      have hused := releasePhyPages_used hfirst
      have hq : releaseGroup m st p group =
          { p with
            workerPagesUsed := (p.releasePhyPages (p.inDpGroup st group.1)
              (group.2.length * st.phyPagesPerVirtPage)).workerPagesUsed
            mapped := update p.mapped m (update (p.mapped m) group.1
              (p.mapped m group.1 \ group.2.toFinset)) } := by
        rw [releaseGroup, unmapVirtPages, releasePhyPagesForDp, releasePhyPages_underflow hfirst]
        rfl
      have hrest : ∀ w, (groups.map (p.groupLoad st w)).sum ≤
          (releaseGroup m st p group).workerPagesUsed w := by
        intro w
        have hall := henough w
        have hw := hused w
        rw [map_cons, sum_cons, groupLoad] at hall
        rw [hq]
        dsimp only
        omega
      obtain ⟨used, mapped, hfold, hsum, hmapped⟩ := ih (p := releaseGroup m st p group) hrest
      refine ⟨used, mapped, ?_, fun w => ?_, fun d => ?_⟩
      · rw [foldl_cons, hfold, hq]
        rw [update_idem]
      · have hw := hused w
        have hs := hsum w
        rw [hq] at hs
        rw [map_cons, sum_cons]
        change used w + (groups.map (p.groupLoad st w)).sum = _ at hs
        rw [groupLoad]
        dsimp only at hs
        omega
      · rw [hmapped, hq]
        dsimp only
        rw [update_self, pagesAt, pagesAt, flatMap_cons, toFinset_append,
          Finset.sdiff_union_distrib]
        by_cases hd : d = group.1
        · subst hd
          rw [update_self]
          ext x
          simp only [Finset.mem_sdiff, Finset.mem_inter]
          tauto
        · rw [update_of_ne hd, if_neg (Ne.symm hd)]
          ext x
          simp only [Finset.mem_sdiff, Finset.mem_inter]
          tauto

theorem zipIdx_filter_not_mem_nil (groups : List (Nat × List Nat)) :
    (groups.zipIdx.filter fun group => group.2 ∉ ([] : List Nat)) = groups.zipIdx := by
  simp

@[simp] theorem foldl_zipIdx {β : Type} (f : β → Nat × List Nat → β) (b : β)
    (groups : List (Nat × List Nat)) :
    groups.zipIdx.foldl (fun b group => f b group.1) b = groups.foldl f b := by
  rw [← foldl_map, zipIdx_map_fst]

/-- The pages of the lists are released; the lists stay. -/
theorem accounted_sleepUnmapped (hp : (p.addCall (.sleepUnmap m groups)).Partitioned)
    (h : (p.addCall (.sleepUnmap m groups)).Accounted) :
    IfOk (p.sleepUnmapped m groups []) Accounted := by
  rw [sleepUnmapped]
  split
  case h_1 => exact trivial
  case h_2 st hst =>
    have hv : (p.addCall (.sleepUnmap m groups)).phyView m =
        (p.phyView m).addCall (.sleepUnmap m groups) := phyView_addCall
    have hm := h.model m st hst
    rw [hv] at hm
    obtain ⟨hasleep, hnone, hgroups⟩ := hm.transition rfl
    have hgroups : groups = p.collectPages st := hgroups
    -- the call and the lists are charged together
    have hkv : ((p.phyView m).addCall (.sleepUnmap m groups)).kvPages st =
        fun d => (p.phyView m).kvPages st d + (listed st d).card := by
      funext d
      rw [kvPages_addTransition rfl, kvPages_of_asleep hasleep hnone]
      exact Nat.zero_add _
    have hload : ∀ w, p.load st ((p.phyView m).addCall (.sleepUnmap m groups)).weightPages
          ((p.phyView m).kvPages st) w + (groups.map (p.groupLoad st w)).sum ≤
        p.workerPagesUsed w := by
      intro w
      have hle := h.load_le hst w
      rw [hv, hkv] at hle
      rw [hgroups, ← load_add_listed]
      exact hgroups ▸ hle
    obtain ⟨used, mapped, hfold, hused, hmapped⟩ := foldl_releaseGroup (p := p) (m := m) st
      groups fun w => (Nat.le_add_left _ _).trans (hload w)
    rw [zipIdx_filter_not_mem_nil, foldl_zipIdx, hfold]
    refine h.of_model ⟨hst, hst, hv,
      (show _ = ({ p.phyView m with mapped := mapped } : PhyView) from ?_), ⟨rfl, rfl, rfl, rfl⟩,
      fun m' hm' => ⟨rfl, ?_⟩⟩ (fun w => ?_) (fun w => ?_) rfl ?_
    · simp [phyView]
    · rw [phyView_addCall_of_ne hm']
      simp [phyView, hm']
    · change used w + p.load st _ _ w = p.workerPagesUsed w + p.load st _ _ w
      rw [hkv, load_add_listed, ← hgroups, ← hused w, weightPages_addCall]
      change _ = _ + p.load st (p.phyView m).weightPages ((p.phyView m).kvPages st) w
      rw [show (Call.sleepUnmap m groups).weightPages = 0 from rfl, Nat.zero_add]
      omega
    · have hle : p.workerPagesUsed w ≤ p.numTotalPhyPages := h.used_le w
      have := hused w
      change used w ≤ p.numTotalPhyPages
      omega
    · refine ⟨?_, fun hs c hc => hm.noAlloc hs c (mem_addCall_of_mem hc),
        fun c hc => hm.inRange c (mem_addCall_of_mem hc), hm.reserved, ?_,
        fun d hd => ?_⟩
      · rw [hasleep, show transitions { p.phyView m with mapped := mapped } = 0 from hnone]
        exact .asleep
      · have hweights := hm.weightCalls
        exact hweights
      · have hnodup := nodup_mappedPages hp hst hd
        have hmap := hm.mapped d hd
        rw [hv, mappedPages_addSleep rfl] at hnodup
        rw [mappedPages_addSleep rfl, addCall_mapped] at hmap
        rw [mappedPages_of_asleep hasleep (by
          rw [show transitions { p.phyView m with mapped := mapped } = 0 from hnone]
          rfl)]
        change _ = Multiset.toFinset (listed st d + (0 + _)) at hmap
        change Multiset.Nodup (listed st d + (0 + _)) at hnodup
        rw [zero_add] at hmap hnodup
        change mapped d = _
        rw [hmapped, show p.mapped m d = (p.phyView m).mapped d from rfl, hmap]
        have hdisjoint := (Multiset.nodup_add.mp hnodup).2.2
        ext x
        have hx := fun hl : x ∈ listed st d => Multiset.disjoint_left.mp hdisjoint hl
        rw [Finset.mem_sdiff, mem_toFinset, hgroups,
          mem_pagesAt_collectPages (p := p) hd, Multiset.mem_toFinset, Multiset.mem_toFinset,
            Multiset.mem_add]
        tauto

end PageAllocator

end Xllm
