import Xllm.XTensor.PhyPages.Accounted

/-!
# Registered models

`register_model` adds a model that has no pages. `set_model_parallel_strategy` changes
which workers a model belongs to, which the counters do not follow unless the model is
unused.
-/

namespace Xllm

open Contract

namespace PageAllocator

open PhyView

variable {p q : PageAllocator} {m m' : String} {d d' w n : Nat} {st st' : ModelState}

theorem load_eq_zero {weights : Nat} {kv : Nat → Nat} (hweights : weights = 0)
    (hkv : ∀ d < p.dpSize, kv d = 0) (w : Nat) : p.load st weights kv w = 0 := by
  rw [load, hweights, ite_self, Nat.zero_add]
  refine Finset.sum_eq_zero fun d hd => ?_
  rw [hkv d (Finset.mem_range.mp hd), Nat.zero_mul, ite_self]

theorem accounted_init (numPhyPages dpSize maxWorldSize : Nat) :
    (init numPhyPages dpSize maxWorldSize).Accounted where
  registered m := by simp [init]
  used w := rfl
  used_le w := Nat.zero_le _
  model m st hst := by cases hst
  unregistered m _ := ⟨rfl, rfl, rfl, rfl⟩
  noUnderflow := rfl

/-- A new model is charged nothing. -/
theorem accounted_registerModel (h : p.Accounted) (numLayers : Nat) :
    IfOk (p.registerModel m numLayers) Accounted := by
  rw [registerModel]
  split
  case h_1 => exact h
  case h_2 hnone =>
    split
    · exact trivial
    obtain ⟨hcalls, hreservations, hweights, hmapped⟩ := h.unregistered m hnone
    dsimp only
    generalize hst : (ModelState.mk _ _ _ _ _ _ _ _) = st
    have hlists : ∀ d, listed st d = 0 := fun d => hst ▸ rfl
    have hawake : st.isSleeping = false := hst ▸ rfl
    have hmem : m ∉ p.modelIds := by simp [h.registered, hnone]
    have hflight : ∀ d, (p.phyView m).flight d = 0 := by
      intro d
      rw [flight, hcalls, hreservations]
      rfl
    have hstates : ∀ m', m' ≠ m → Function.update p.modelStates m (some st) m' =
        p.modelStates m' := fun m' hm' => Function.update_of_ne hm' ..
    have hshape : p.load = PageAllocator.load
        { p.setModel m st with modelIds := p.modelIds ++ [m] } := rfl
    refine ⟨fun m' => ?_, fun w => ?_, h.used_le, fun m' st' hst' => ?_, fun m' hnone' => ?_,
      h.noUnderflow⟩
    · change m' ∈ p.modelIds ++ [m] ↔ (Function.update p.modelStates m (some st) m').isSome
      by_cases hm' : m' = m
      · subst hm'
        simp
      · rw [List.mem_append, h.registered]
        simp [hm']
    · change p.workerPagesUsed w = ∑ m' ∈ (p.modelIds ++ [m]).toFinset, _
      have hsum : (p.modelIds ++ [m]).toFinset = insert m p.modelIds.toFinset := by
        ext x
        simp
      rw [hsum, Finset.sum_insert (by simpa using hmem), h.used]
      have hzero : PageAllocator.charge { p.setModel m st with modelIds := p.modelIds ++ [m] } w m =
          0 := by
        rw [charge_eq (Function.update_self ..)]
        refine load_eq_zero ?_ (fun d _ => ?_) w
        · change (p.phyView m).weightPages = 0
          rw [weightPages, hcalls, hweights]
          rfl
        · change (p.phyView m).kvPages st d = 0
          rw [kvPages_of_awake hawake, hflight, hlists]
          rfl
      rw [hzero, Nat.zero_add]
      refine Finset.sum_congr rfl fun m' hm' => ?_
      have hne : m' ≠ m := fun heq => hmem (heq ▸ List.mem_toFinset.mp hm')
      have hstate : (p.setModel m st).modelStates m' = p.modelStates m' := hstates m' hne
      rw [charge, charge, hstate]
      rfl
    · change Function.update p.modelStates m (some st) m' = some st' at hst'
      by_cases hm' : m' = m
      · subst hm'
        rw [Function.update_self] at hst'
        cases hst'
        refine ModelSound.of_awake hawake ?_ ?_ ?_ (.inl ?_) fun d hd => ?_
        · change (p.phyView m').transitions = 0
          rw [transitions, hcalls]
          rfl
        · change ∀ c ∈ (p.phyView m').calls, _
          rw [hcalls]
          exact fun c hc => absurd hc (Multiset.notMem_zero c)
        · change ∀ r ∈ (p.phyView m').reservations, _
          rw [hreservations]
          exact fun r hr => absurd hr (Multiset.notMem_zero r)
        · change (p.phyView m').calls.filter _ = 0
          rw [hcalls]
          rfl
        · change (p.phyView m').mapped d = Multiset.toFinset
            (listed st d + ((p.phyView m').calls.map fun c => c.mappedPages d).sum)
          rw [hmapped, hcalls, hlists]
          rfl
      · rw [hstates m' hm'] at hst'
        have hm := h.model m' st' hst'
        exact ⟨hm.phase, hm.noAlloc, hm.inRange, hm.reserved, hm.weightCalls, hm.mapped⟩
    · change Function.update p.modelStates m (some st) m' = none at hnone'
      by_cases hm' : m' = m
      · subst hm'
        rw [Function.update_self] at hnone'
        cases hnone'
      · rw [hstates m' hm'] at hnone'
        exact h.unregistered m' hnone'

/-- Nothing is in flight, listed or resident for the model. -/
def unused (p : PageAllocator) (m : String) : Bool :=
  (p.calls.all fun c => c.modelId ≠ m) &&
    ((p.preallocMapping.toList ++ p.preallocTodo).all fun r => r.modelId ≠ m) &&
    p.weightsResident m = 0 &&
    match p.modelStates m with
    | none => true
    | some st => (List.range p.dpSize).all fun d =>
        (st.dpGroupPages d).reservedVirtPageList = [] &&
          (st.dpGroupPages d).allocatedVirtPageList = []

theorem accounted_setModelParallelStrategy (h : p.Accounted) (hunused : p.unused m)
    (dpSize tpSize : Nat) : (p.setModelParallelStrategy m dpSize tpSize).Accounted := by
  rw [setModelParallelStrategy]
  split
  case h_1 => exact h
  case h_2 st hst =>
    simp only [unused, hst, Bool.and_eq_true, List.all_eq_true, decide_eq_true_eq,
      List.mem_range] at hunused
    obtain ⟨⟨⟨hcalls, hreservations⟩, hweights⟩, hlists⟩ := hunused
    have hnoCalls : (p.phyView m).calls = 0 := by
      simpa [phyView] using hcalls
    have hnoReservations : (p.phyView m).reservations = 0 := by
      rw [phyView, Multiset.coe_eq_zero, List.filter_eq_nil_iff]
      simpa using hreservations
    have hpages : (p.phyView m).weightPages = 0 := by
      rw [weightPages, hnoCalls, show (p.phyView m).weights = 0 from hweights]
      rfl
    have hkv : ∀ d < p.dpSize, (p.phyView m).kvPages st d = 0 := by
      intro d hd
      have hlisted : listed st d = 0 := by
        simp [listed, (hlists d hd).1, (hlists d hd).2]
      rw [kvPages, flight, hnoCalls, hnoReservations, hlisted]
      simp
    have hsame : SameLists st
        { st with modelTpSize := tpSize, modelWorldSize := dpSize * tpSize } :=
      ⟨rfl, fun _ => rfl, fun _ => rfl⟩
    refine h.of_model ⟨hst, Function.update_self .., rfl, (show _ = p.phyView m from rfl),
      ⟨rfl, rfl, rfl, rfl⟩, fun m' hm' => ⟨Function.update_of_ne hm' .., rfl⟩⟩ (fun w => ?_)
      h.used_le rfl (hsame.modelSound (h.model m st hst))
    rw [load_eq_zero hpages hkv, hsame.kvPages_eq, load_eq_zero hpages hkv]
    rfl

end PageAllocator

end Xllm
