import Xllm.XTensor.PhyPages.Sleep
import Mathlib.Data.List.TakeWhile

/-!
# Waking up

`wakeup_model` counts the pages on the lists and the weights first, and maps them in a
later section. The model is awake when everything is mapped.
-/

namespace Xllm

open Contract List Function Multiset

namespace PageAllocator

open PhyView

variable {p q : PageAllocator} {m m' : String} {d d' w n : Nat} {st st' : ModelState}

/-- No call takes the model to sleep or wakes it up. -/
def noTransition (p : PageAllocator) (m : String) : Bool :=
  p.calls.all fun c => !(c.modelId = m && c.isTransition)

theorem noTransition_iff : p.noTransition m ↔ (p.phyView m).transitions = 0 := by
  rw [noTransition, transitions, filter_eq_nil, all_eq_true]
  constructor
  · intro hall c hc
    obtain ⟨hmem, hcm⟩ := List.mem_filter.mp (Multiset.mem_coe.mp hc)
    have := hall c hmem
    simp_all
  · intro hall c hc
    by_cases hcm : c.modelId = m
    · have := hall c (Multiset.mem_coe.mpr (List.mem_filter.mpr ⟨hc, by simpa using hcm⟩))
      simp_all
    · simp [hcm]

/-- The pages of the lists are consumed before they are mapped. -/
theorem accounted_wakeupModel (h : p.Accounted)
    (hwake : ∀ st, p.modelStates m = some st → st.isSleeping = true →
      p.noTransition m ∧ p.settled m 0) : (p.wakeupModel m).Accounted := by
  rw [wakeupModel]
  split
  case h_1 => exact h
  case h_2 st hst =>
    dsimp only
    split_ifs with hawake hfree
    · exact h
    · have hasleep : st.isSleeping = true := by simpa using hawake
      obtain ⟨hnone, hsettled⟩ := hwake st hst hasleep
      rw [noTransition_iff] at hnone
      obtain ⟨hzero, hcalls⟩ := settled_iff.mp hsettled
      have hm := h.model m st hst
      generalize hc : Call.wakeMap m st.weightPagesAllocated (p.collectPages st) = c
      have hmodel : c.modelId = m := hc ▸ rfl
      have htransition : c.isTransition = true := hc ▸ rfl
      have hpages : ∀ d, c.flightPages d = 0 ∧ c.mappedPages d = 0 := fun d => hc ▸ ⟨rfl, rfl⟩
      have hkv : ((p.phyView m).addCall c).kvPages st =
          fun d => (p.phyView m).kvPages st d + (listed st d).card := by
        funext d
        rw [kvPages_addTransition htransition, kvPages_of_asleep hasleep hnone, (hpages d).1,
          card_zero, Nat.zero_add]
      have hneed : ∀ w, p.pagesToConsume st (p.collectPages st) w =
          ((p.collectPages st).map (p.groupLoad st w)).sum +
            if p.inWorld st w then st.weightPagesAllocated else 0 := fun w => rfl
      have hload : ∀ w, p.load st ((p.phyView m).addCall c).weightPages
          (((p.phyView m).addCall c).kvPages st) w =
            p.load st (p.phyView m).weightPages ((p.phyView m).kvPages st) w +
              p.pagesToConsume st (p.collectPages st) w := by
        intro w
        have hweights := load_add_weights p st (p.phyView m).weightPages
          ((p.phyView m).addCall c).weightPages ((p.phyView m).kvPages st) w
        rw [weightPages_addCall, show c.weightPages = st.weightPagesAllocated from hc ▸ rfl]
          at hweights
        rw [hkv, load_add_listed, hneed, weightPages_addCall,
          show c.weightPages = st.weightPagesAllocated from hc ▸ rfl]
        split_ifs at hweights ⊢ <;> omega
      have hworld : ∀ w, ¬w < p.maxWorldSize → p.pagesToConsume st (p.collectPages st) w = 0 := by
        intro w hw
        have hgroup : ∀ d, p.inDpGroup st d w = false := fun d =>
          Bool.eq_false_iff.mpr fun hin => hw (lt_maxWorldSize_of_inDpGroup hin)
        have hin : p.inWorld st w = false :=
          Bool.eq_false_iff.mpr fun hin => hw (lt_maxWorldSize_of_inWorld hin)
        have hsum : ((p.collectPages st).map (p.groupLoad st w)).sum = 0 := by
          refine List.sum_eq_zero fun n hn => ?_
          obtain ⟨group, -, rfl⟩ := List.mem_map.mp hn
          simp [groupLoad, hgroup]
        simp [hneed, hsum, hin]
      subst hmodel
      refine h.of_model ⟨hst, hst, rfl,
        (show _ = (p.phyView c.modelId).addCall c from phyView_addCall), ⟨rfl, rfl, rfl, rfl⟩,
        fun m' hm' => ⟨rfl, phyView_addCall_of_ne hm'⟩⟩ (fun w => ?_) (fun w => ?_) rfl ?_
      · rw [hload]
        change p.workerPagesUsed w + (if w < p.maxWorldSize then _ else 0) + _ = _
        split_ifs with hw
        · omega
        · have := hworld w hw
          omega
      · change p.workerPagesUsed w + (if w < p.maxWorldSize then _ else 0) ≤ _
        have hle := h.used_le w
        split_ifs with hw
        · have := of_decide_eq_true (List.all_eq_true.mp hfree w (List.mem_range.mpr hw))
          omega
        · exact hle
      · refine ⟨?_, fun hs => noAlloc_addCall (hc ▸ rfl) (hm.noAlloc hs),
          inRange_addCall (hc ▸ trivial) hm.inRange, hm.reserved, .inr ⟨?_, hzero⟩,
          fun d hd => ?_⟩
        · rw [transitions_addCall_of_pos htransition]
          rw [hnone, hasleep, ← hc]
          exact .waking _
        · rw [mapsWeights_addCall_of_pos (hc ▸ rfl), hcalls]
          rfl
        · have hmapped := hm.mapped d hd
          rw [mappedPages_of_asleep hasleep (by rw [hnone]; rfl)] at hmapped
          rw [mappedPages_of_asleep hasleep, mappedSum_addCall, (hpages d).2, zero_add]
          · exact hmapped
          · rw [transitions_addCall_of_pos htransition, hnone]
            exact Multiset.filter_eq_nil.mpr fun c' hc' => by
              rw [Multiset.mem_singleton.mp hc', ← hc]
              exact Bool.false_ne_true
    · exact h

theorem takeWhile_not_mem_nil (groups : List ((Nat × List Nat) × Nat)) :
    (groups.takeWhile fun group => group.2 ∉ ([] : List Nat)) = groups :=
  List.takeWhile_eq_self_iff.mpr fun _ _ => by simp

theorem foldl_mapVirtPages (groups : List (Nat × List Nat)) :
    ∃ mapped, groups.foldl (fun q group => q.mapVirtPages m group.1 group.2) p =
        { p with mapped := Function.update p.mapped m mapped } ∧
      ∀ d, mapped d = p.mapped m d ∪ (pagesAt groups d).toFinset := by
  induction groups generalizing p with
  | nil =>
      refine ⟨p.mapped m, ?_, fun d => by simp [pagesAt]⟩
      rw [update_eq_self]
      rfl
  | cons group groups ih =>
      obtain ⟨mapped, hfold, hmapped⟩ := ih (p := p.mapVirtPages m group.1 group.2)
      refine ⟨mapped, ?_, fun d => ?_⟩
      · rw [List.foldl_cons, hfold, mapVirtPages]
        rw [update_idem]
      · rw [hmapped, mapVirtPages]
        dsimp only
        rw [update_self, pagesAt, pagesAt, flatMap_cons, toFinset_append]
        by_cases hd : d = group.1
        · subst hd
          rw [update_self, if_pos rfl, Finset.union_assoc]
        · rw [update_of_ne hd, if_neg (Ne.symm hd), toFinset_nil, Finset.empty_union]

/-- The mapped lists are charged to the model awake. -/
theorem accounted_wakeupMapped {groups : List (Nat × List Nat)}
    (h : (p.addCall (.wakeMap m n groups)).Accounted) :
    IfOk (p.wakeupMapped m n groups []) Accounted := by
  rw [wakeupMapped]
  split
  case h_1 => exact trivial
  case h_2 st hst =>
    have hv : (p.addCall (.wakeMap m n groups)).phyView m =
        (p.phyView m).addCall (.wakeMap m n groups) := phyView_addCall
    have hm := h.model m st hst
    rw [hv] at hm
    obtain ⟨hasleep, hnone, hgroups⟩ := hm.transition rfl
    have hgroups : groups = p.collectPages st := hgroups
    have hweights := hm.weightCalls
    rw [mapsWeights_addCall_of_pos rfl] at hweights
    obtain ⟨hone, hzero⟩ := hweights.resolve_left (cons_ne_zero)
    rw [card_cons, Nat.add_eq_right, card_eq_zero] at hone
    have hresident : (p.phyView m).weights = 0 := hzero
    obtain ⟨mapped, hfold, hmapped⟩ := foldl_mapVirtPages (p := p) (m := m) groups
    -- the model is awake, its pages are mapped and its weights are resident
    have hawake : ∀ q : PageAllocator, q.modelStates m = some { st with isSleeping := false } →
        q.phyView m = { p.phyView m with mapped := mapped, weights := n } →
        SameShape p q → (∀ m', m' ≠ m → q.modelStates m' = p.modelStates m' ∧
          q.phyView m' = p.phyView m') → q.workerPagesUsed = p.workerPagesUsed →
        q.underflow = p.underflow → q.Accounted := by
      intro q hq hview hshape others hused hflow
      refine h.of_model ⟨hst, hq, hv, hview, ⟨hshape.1, hshape.2, hshape.3, hshape.4⟩,
        fun m' hm' => ⟨(others m' hm').1,
          (others m' hm').2.trans (phyView_addCall_of_ne hm').symm⟩⟩ (fun w => ?_)
        (fun w => hused ▸ h.used_le w) hflow ?_
      · rw [hused, weightPages_addCall, weightPages_of_settled hone, hresident,
          weightPages_of_settled (v := { p.phyView m with mapped := mapped, weights := n })
            hone]
        refine congrArg (p.workerPagesUsed w + ·) (load_of_eq (fun d _ => ?_) w).symm
        rw [kvPages_addTransition rfl,
          show (Call.wakeMap m n groups).flightPages d = 0 from rfl, card_zero,
          Nat.zero_add]
        rfl
      · refine ModelSound.of_awake rfl hnone
          (fun c hc => hm.inRange c (mem_addCall_of_mem hc)) hm.reserved (.inl hone)
          fun d hd => ?_
        have hmap := hm.mapped d hd
        rw [mappedPages_of_asleep hasleep (by
            rw [transitions_addCall_of_pos rfl, hnone]
            rfl), mappedSum_addCall,
          show (Call.wakeMap m n groups).mappedPages d = 0 from rfl, zero_add,
          addCall_mapped] at hmap
        change mapped d = _
        rw [hmapped, show p.mapped m d = (p.phyView m).mapped d from rfl, hmap]
        ext x
        rw [Finset.mem_union, List.mem_toFinset, hgroups, mem_pagesAt_collectPages (p := p) hd,
          Multiset.mem_toFinset, Multiset.mem_toFinset, mem_add]
        exact or_comm
    dsimp only
    have hzip := (foldl_zipIdx (fun (q : PageAllocator) group => q.mapVirtPages m group.1 group.2)
      p groups).trans hfold
    rw [takeWhile_not_mem_nil, hzip, length_zipIdx, if_neg (lt_irrefl _),
      if_neg not_mem_nil]
    split_ifs with hn
    · subst hn
      refine hawake _ (update_self ..) ?_ ⟨rfl, rfl, rfl, rfl⟩
        (fun m' hm' => ⟨update_of_ne hm' .., ?_⟩) rfl rfl
      · rw [phyView_setModel, ← hresident]
        simp [phyView]
      · rw [phyView_setModel]
        simp [phyView, hm']
    · refine hawake _ (update_self ..) ?_ ⟨rfl, rfl, rfl, rfl⟩
        (fun m' hm' => ⟨update_of_ne hm' .., ?_⟩) rfl rfl
      · rw [phyView_setModel, phyView_setWeights]
        simp [phyView]
      · rw [phyView_setModel, phyView_setWeights_of_ne hm']
        simp [phyView, hm']

end PageAllocator

end Xllm
