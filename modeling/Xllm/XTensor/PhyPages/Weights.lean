import Xllm.XTensor.PhyPages.Accounted

/-!
# Weight pages

`alloc_weight_pages` reserves the pages on every worker of the model and
`free_weight_pages` gives them back. They keep the accounting if the weights of the
model are settled.
-/

namespace Xllm

open Contract Function Multiset

namespace PageAllocator

open PhyView

variable {p q : PageAllocator} {m m' : String} {d d' w n : Nat} {st st' : ModelState}

def settled (p : PageAllocator) (m : String) (n : Nat) : Bool :=
  p.weightsResident m = n && p.calls.all fun c => !(c.modelId = m && c.mapsWeights)

theorem settled_iff : p.settled m n ↔
    (p.phyView m).weights = n ∧ (p.phyView m).calls.filter (fun c => c.mapsWeights) = 0 := by
  rw [settled, Bool.and_eq_true, decide_eq_true_eq]
  refine and_congr_right fun _ => ?_
  rw [filter_eq_nil, List.all_eq_true]
  constructor
  · intro hall c hc
    obtain ⟨hmem, hcm⟩ := List.mem_filter.mp (Multiset.mem_coe.mp hc)
    have := hall c hmem
    simp_all
  · intro hall c hc
    by_cases hcm : c.modelId = m
    · have := hall c (Multiset.mem_coe.mpr (List.mem_filter.mpr ⟨hc, by simpa using hcm⟩))
      simp_all
    · simp [hcm]

theorem PhyView.weightPages_of_settled {v : PhyView}
    (h : v.calls.filter (fun c => c.mapsWeights) = 0) : v.weightPages = v.weights := by
  rw [weightPages, sum_eq_zero, Nat.add_zero]
  intro n hn
  obtain ⟨c, hc, rfl⟩ := Multiset.mem_map.mp hn
  have hnot := Multiset.filter_eq_nil.mp h c hc
  cases c <;> simp_all [Call.weightPages, Call.mapsWeights]

/-- The pages of the weights are charged to the call. -/
theorem accounted_allocWeightPages (h : p.Accounted) (hsettled : p.settled m 0) :
    IfOk (p.allocWeightPages m n) Accounted := by
  rw [allocWeightPages]
  split
  case h_1 => exact trivial
  case h_2 st hst =>
    obtain ⟨hzero, hnone⟩ := settled_iff.mp hsettled
    have hm := h.model m st hst
    split
    · exact h
    rename_i hfree
    have hlists : SameLists st { st with weightPagesAllocated := n } :=
      ⟨rfl, fun _ => rfl, fun _ => rfl⟩
    refine h.of_weights ⟨hst, update_self .., rfl,
        (show _ = (p.phyView m).addCall (.weightAlloc m n) from phyView_addCall),
          ⟨rfl, rfl, rfl, rfl⟩,
        fun m' hm' => ⟨update_of_ne hm' .., phyView_addCall_of_ne hm'⟩⟩ rfl 0 n ?_ ?_
      (fun w => ?_) (fun w => ?_) rfl ?_
    · rw [hlists.kvPages_eq]
      funext d
      rw [kvPages_addCall rfl]
      simp [Call.flightPages]
    · rw [weightPages_addCall, Nat.add_zero]
      exact Nat.add_comm _ _
    · rw [ite_self, Nat.add_zero]
      rfl
    · exact used_add_le_of_minFreePages h.used_le (fun w => lt_maxWorldSize_of_inWorld)
        (not_lt.mp hfree) w
    · refine hlists.modelSound ?_
      refine hm.addCall rfl (fun _ => rfl) trivial (fun _ => rfl) (.inr ⟨?_, hzero⟩)
      rw [mapsWeights_addCall_of_pos rfl, hnone]
      rfl

theorem accounted_weightsAllocated (h : (p.addCall (.weightAlloc m n)).Accounted) :
    (p.setWeights m n).Accounted := by
  have hv : (p.addCall (.weightAlloc m n)).phyView m =
      (p.phyView m).addCall (.weightAlloc m n) := phyView_addCall
  cases hst : p.modelStates m with
  | none =>
      -- a call of a model that is not registered
      have hcalls := (h.unregistered m hst).1
      rw [hv] at hcalls
      exact absurd hcalls addCall_calls_ne_zero
  | some st =>
      have hm := h.model m st hst
      rw [hv] at hm
      have hweights := hm.weightCalls
      rw [mapsWeights_addCall_of_pos rfl] at hweights
      obtain ⟨hone, hzero⟩ := hweights.resolve_left (cons_ne_zero)
      rw [card_cons, Nat.add_eq_right, card_eq_zero] at hone
      have hresident : (p.phyView m).weights = 0 := hzero
      refine h.of_weights ⟨hst, hst, hv, phyView_setWeights, ⟨rfl, rfl, rfl, rfl⟩,
        fun m' hm' => ⟨rfl, ?_⟩⟩ rfl 0 0 ?_ ?_ (fun w => rfl) h.used_le rfl ?_
      · rw [phyView_setWeights_of_ne hm', phyView_addCall_of_ne hm']
      · funext d
        rw [kvPages_addCall rfl]
        simp [Call.flightPages]
        rfl
      · rw [weightPages_addCall, weightPages_of_settled hone,
          weightPages_of_settled (v := { p.phyView m with weights := n }) hone, hresident]
        rfl
      · refine hm.of_addCall rfl rfl rfl (.inl hone) fun d hd => ?_
        have hmapped := hm.mapped d hd
        rw [mappedPages_addCall rfl, show (Call.weightAlloc m n).mappedPages d = 0 from rfl,
          zero_add] at hmapped
        exact hmapped

/-- Freed weights are charged no longer. -/
theorem accounted_freeWeightPages (h : p.Accounted) (hsettled : p.settled m n) :
    IfOk (p.freeWeightPages m n true) Accounted := by
  rw [freeWeightPages, if_pos rfl]
  split
  case h_1 => exact trivial
  case h_2 st hst =>
    obtain ⟨hresident, hnone⟩ := settled_iff.mp hsettled
    have hm := h.model m st hst
    have hweights := weightPages_of_settled hnone
    have henough : ∀ w, p.inWorld st w → n ≤ p.workerPagesUsed w := by
      intro w hw
      have hload := h.load_le hst w
      rw [load, if_pos hw, hweights, hresident] at hload
      omega
    have hrelease := releasePhyPages_used henough
    refine h.of_weights ⟨hst, hst, rfl,
        (show _ = ({ p.phyView m with weights := 0 } : PhyView) from phyView_setWeights),
        ⟨rfl, rfl, rfl, rfl⟩, fun m' hm' => ⟨rfl, phyView_setWeights_of_ne hm'⟩⟩ rfl n 0 rfl ?_
      (fun w => ?_) (fun w => ?_) (releasePhyPages_underflow henough) ?_
    · rw [hweights, hresident,
        weightPages_of_settled (v := { p.phyView m with weights := 0 }) hnone]
      exact Nat.zero_add n
    · rw [ite_self, Nat.add_zero]
      exact hrelease w
    · have hle := h.used_le w
      have := hrelease w
      exact (Nat.le_of_add_right_le this.le).trans hle
    · exact ⟨hm.phase, hm.noAlloc, hm.inRange, hm.reserved, .inl hnone, hm.mapped⟩

@[simp] theorem settled_addCall {c : Call} (hc : c.mapsWeights = false) :
    (p.addCall c).settled m n = p.settled m n := by
  simp only [settled, addCall, List.all_cons, hc, Bool.and_false, Bool.not_false, Bool.true_and]
  rfl

theorem accounted_setWeightPagesCount (h : p.Accounted) :
    IfOk (p.setWeightPagesCount m n) Accounted := by
  rw [setWeightPagesCount]
  split
  case h_1 => exact trivial
  case h_2 st hst =>
    exact h.of_sameLists ⟨hst, update_self .., rfl, rfl, ⟨rfl, rfl, rfl, rfl⟩,
      fun m' hm' => ⟨update_of_ne hm' .., rfl⟩⟩ ⟨rfl, fun _ => rfl, fun _ => rfl⟩ rfl rfl rfl

end PageAllocator

end Xllm
