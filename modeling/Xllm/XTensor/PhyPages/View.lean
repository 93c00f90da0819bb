import Xllm.XTensor.Partition
import Mathlib.Algebra.BigOperators.Group.Finset.Basic
import Mathlib.Algebra.Order.BigOperators.Group.Finset
import Mathlib.Data.Finset.Dedup

/-!
# What the accounting of physical pages sees of a model

`worker_pages_used_` counts the physical pages of a worker: its share of the
weights and `phy_pages_per_virt_page` for every mapped virtual page of a group that
the worker belongs to. The counter and the page lists change in different sections.
What the counter covers between the sections is the `load` of each model: the
pages on its lists unless the model is asleep, the pages in flight, and the
weights that are resident or on their way.
-/

namespace Xllm

open Multiset

theorem sum_add_eq_of_eqOff {ι : Type} [DecidableEq ι] {s : Finset ι} {a : ι} (ha : a ∈ s)
    {f g : ι → Nat} (h : ∀ i ∈ s, i ≠ a → f i = g i) :
    ∑ i ∈ s, f i + g a = ∑ i ∈ s, g i + f a := by
  have hrest : ∑ i ∈ s.erase a, f i = ∑ i ∈ s.erase a, g i :=
    Finset.sum_congr rfl fun i hi => h i (Finset.mem_of_mem_erase hi) (Finset.ne_of_mem_erase hi)
  rw [← Finset.add_sum_erase s f ha, ← Finset.add_sum_erase s g ha]
  omega

namespace Call

/-- The call takes part in falling asleep or waking up. -/
def isTransition : Call → Bool
  | sleepWeights _ _ _ => true
  | sleepUnmap _ _ => true
  | wakeMap _ _ _ => true
  | _ => false

/-- The call takes part in falling asleep. -/
def isSleep : Call → Bool
  | sleepWeights _ _ _ => true
  | sleepUnmap _ _ => true
  | _ => false

def isAlloc : Call → Bool
  | allocMap _ _ _ => true
  | allocRecord _ _ _ => true
  | _ => false

def mapsWeights : Call → Bool
  | wakeMap _ _ _ => true
  | weightAlloc _ _ => true
  | _ => false

def weightPages : Call → Nat
  | wakeMap _ n _ => n
  | weightAlloc _ n => n
  | _ => 0

def flightPages (c : Call) (d : Nat) : Multiset Nat :=
  match c with
  | allocMap _ d' page => if d' = d then {page} else 0
  | allocRecord _ d' page => if d' = d then {page} else 0
  | unmap _ d' pages => if d' = d then pages else 0
  | _ => 0

def mappedPages (c : Call) (d : Nat) : Multiset Nat :=
  match c with
  | allocRecord _ d' page => if d' = d then {page} else 0
  | unmap _ d' pages => if d' = d then pages else 0
  | _ => 0

/-- The pages that a call of a transition carries. -/
def groups : Call → List (Nat × List Nat)
  | sleepWeights _ _ groups => groups
  | sleepUnmap _ groups => groups
  | wakeMap _ _ groups => groups
  | _ => []

def InRange (dpSize : Nat) : Call → Prop
  | allocMap _ d _ => d < dpSize
  | allocRecord _ d _ => d < dpSize
  | unmap _ d _ => d < dpSize
  | _ => True

theorem flightPages_eq (c : Call) (d : Nat) :
    c.flightPages d = c.allocPages c.modelId d + c.freedPages c.modelId d := by
  cases c <;> simp [flightPages, allocPages, freedPages, modelId]

@[simp] theorem isTransition_of_isSleep (c : Call) (hc : c.isSleep = true) :
    c.isTransition = true := by
  cases c <;> first | rfl | cases hc

end Call

namespace PageAllocator

variable {p q : PageAllocator} {m m' : String} {d d' w n : Nat} {st st' : ModelState}

/-- The physical pages that a model occupies on a worker, given the weight pages
on each worker of the model and the virtual pages of each group. -/
def load (p : PageAllocator) (st : ModelState) (weights : Nat) (kv : Nat → Nat) (w : Nat) : Nat :=
  (if p.inWorld st w then weights else 0) +
    ∑ d ∈ Finset.range p.dpSize, if p.inDpGroup st d w then kv d * st.phyPagesPerVirtPage else 0

/-- The weight pages that are resident on a worker plus `phy_pages_per_virt_page`
times the virtual pages that are mapped in the groups of the worker. -/
def residentPages (p : PageAllocator) (w : Nat) : Nat :=
  ∑ m ∈ p.modelIds.toFinset, match p.modelStates m with
    | none => 0
    | some st => p.load st (p.weightsResident m) (fun d => (p.mapped m d).card) w

/-- Only the group's workers see the change. -/
theorem load_add_group (st : ModelState) (weights : Nat) (hd : d < p.dpSize) {kv kv' : Nat → Nat}
    (hkv : ∀ d', d' ≠ d → kv' d' = kv d') (w : Nat) :
    p.load st weights kv' w + (if p.inDpGroup st d w then kv d * st.phyPagesPerVirtPage else 0) =
      p.load st weights kv w +
        (if p.inDpGroup st d w then kv' d * st.phyPagesPerVirtPage else 0) := by
  have hsum := sum_add_eq_of_eqOff (Finset.mem_range.mpr hd)
    (f := fun d => if p.inDpGroup st d w then kv' d * st.phyPagesPerVirtPage else 0)
    (g := fun d => if p.inDpGroup st d w then kv d * st.phyPagesPerVirtPage else 0)
    fun d' _ hd' => by rw [hkv d' hd']
  rw [load, load]
  omega

theorem load_add_weights (p : PageAllocator) (st : ModelState) (weights weights' : Nat)
    (kv : Nat → Nat) (w : Nat) :
    p.load st weights' kv w + (if p.inWorld st w then weights else 0) =
      p.load st weights kv w + (if p.inWorld st w then weights' else 0) := by
  rw [load, load]
  omega

theorem group_le_load (hd : d < p.dpSize) {weights : Nat} {kv : Nat → Nat} (w : Nat) :
    (if p.inDpGroup st d w then kv d * st.phyPagesPerVirtPage else 0) ≤ p.load st weights kv w := by
  have hle := Finset.single_le_sum (s := Finset.range p.dpSize)
    (f := fun d => if p.inDpGroup st d w then kv d * st.phyPagesPerVirtPage else 0)
    (fun _ _ => Nat.zero_le _) (Finset.mem_range.mpr hd)
  rw [load]
  omega

structure PhyView where
  calls : Multiset Call
  reservations : Multiset Reservation
  mapped : Nat → Finset Nat
  weights : Nat

def phyView (p : PageAllocator) (m : String) : PhyView where
  calls := ((p.calls.filter fun c => c.modelId = m : List Call) : Multiset Call)
  reservations := (((p.preallocMapping.toList ++ p.preallocTodo).filter
    fun r => r.modelId = m : List Reservation) : Multiset Reservation)
  mapped := p.mapped m
  weights := p.weightsResident m

namespace PhyView

def flight (v : PhyView) (d : Nat) : Multiset Nat :=
  (v.calls.map fun c => c.flightPages d).sum +
    (v.reservations.map fun r => if r.dpRank = d then (r.pages : Multiset Nat) else 0).sum

def transitions (v : PhyView) : Multiset Call := v.calls.filter fun c => c.isTransition

def listed (st : ModelState) (d : Nat) : Multiset Nat :=
  (st.dpGroupPages d).reservedVirtPageList + (st.dpGroupPages d).allocatedVirtPageList

/-- The counters cover the pages on the lists. -/
def Counted (v : PhyView) (st : ModelState) : Prop :=
  st.isSleeping = false ∨ v.transitions ≠ 0

def ListsMapped (v : PhyView) (st : ModelState) : Prop :=
  st.isSleeping = false ∨ v.transitions.filter (fun c => c.isSleep) ≠ 0

instance (v : PhyView) (st : ModelState) : Decidable (v.Counted st) :=
  inferInstanceAs (Decidable (_ ∨ _))

instance (v : PhyView) (st : ModelState) : Decidable (v.ListsMapped st) :=
  inferInstanceAs (Decidable (_ ∨ _))

/-- The virtual pages of a group that the counters cover. -/
def kvPages (v : PhyView) (st : ModelState) (d : Nat) : Nat :=
  (v.flight d).card + if v.Counted st then (listed st d).card else 0

def weightPages (v : PhyView) : Nat := v.weights + (v.calls.map Call.weightPages).sum

def mappedPages (v : PhyView) (st : ModelState) (d : Nat) : Multiset Nat :=
  (if v.ListsMapped st then listed st d else 0) + (v.calls.map fun c => c.mappedPages d).sum

/-- Where a model is between waking and sleeping. The calls of a transition carry
the pages that are on the lists. -/
inductive Phase (m : String) (groups : List (Nat × List Nat)) : Bool → Multiset Call → Prop where
  | awake : Phase m groups false 0
  | freeing (n : Nat) : Phase m groups true {.sleepWeights m n groups}
  | unmapping : Phase m groups true {.sleepUnmap m groups}
  | asleep : Phase m groups true 0
  | waking (n : Nat) : Phase m groups true {.wakeMap m n groups}

end PhyView

/-- What the accounting needs to know about a registered model. -/
structure ModelSound (p : PageAllocator) (m : String) (st : ModelState) (v : PhyView) : Prop where
  phase : PhyView.Phase m (p.collectPages st) st.isSleeping v.transitions
  noAlloc : st.isSleeping → ∀ c ∈ v.calls, c.isAlloc = false
  inRange : ∀ c ∈ v.calls, c.InRange p.dpSize
  reserved : ∀ r ∈ v.reservations, r.dpRank < p.dpSize
  weightCalls : v.calls.filter (fun c => c.mapsWeights) = 0 ∨
    (v.calls.filter fun c => c.mapsWeights).card = 1 ∧ v.weights = 0
  mapped : ∀ d < p.dpSize, v.mapped d = (v.mappedPages st d).toFinset

/-- The load of a model that the counters cover. -/
def charge (p : PageAllocator) (w : Nat) (m : String) : Nat :=
  match p.modelStates m with
  | none => 0
  | some st => p.load st (p.phyView m).weightPages ((p.phyView m).kvPages st) w

structure Accounted (p : PageAllocator) : Prop where
  registered : ∀ m, m ∈ p.modelIds ↔ (p.modelStates m).isSome
  used : ∀ w, p.workerPagesUsed w = ∑ m ∈ p.modelIds.toFinset, p.charge w m
  used_le : ∀ w, p.workerPagesUsed w ≤ p.numTotalPhyPages
  model : ∀ m st, p.modelStates m = some st → p.ModelSound m st (p.phyView m)
  unregistered : ∀ m, p.modelStates m = none →
    (p.phyView m).calls = 0 ∧ (p.phyView m).reservations = 0 ∧ (p.phyView m).weights = 0 ∧
      (p.phyView m).mapped = fun _ => ∅
  noUnderflow : p.underflow = false

theorem charge_eq (hst : p.modelStates m = some st) :
    p.charge w m = p.load st (p.phyView m).weightPages ((p.phyView m).kvPages st) w := by
  rw [charge, hst]

theorem Accounted.load_le (h : p.Accounted) (hst : p.modelStates m = some st) (w : Nat) :
    p.load st (p.phyView m).weightPages ((p.phyView m).kvPages st) w ≤ p.workerPagesUsed w := by
  have hm : m ∈ p.modelIds.toFinset := by simp [h.registered, hst]
  rw [h.used, ← charge_eq hst]
  exact Finset.single_le_sum (f := p.charge w) (fun _ _ => Nat.zero_le _) hm

namespace PhyView

variable {v : PhyView} {c : Call}

@[simps mapped weights reservations]
def addCall (v : PhyView) (c : Call) : PhyView := { v with calls := c ::ₘ v.calls }

@[simp] theorem flight_addCall : (v.addCall c).flight d = c.flightPages d + v.flight d := by
  simp [flight, addCall, add_assoc]

@[simp] theorem transitions_addCall (hc : c.isTransition = false) :
    (v.addCall c).transitions = v.transitions := by
  simp [transitions, addCall, hc]

@[simp] theorem counted_addCall (hc : c.isTransition = false) :
    (v.addCall c).Counted st ↔ v.Counted st := by
  rw [Counted, Counted, transitions_addCall hc]

@[simp] theorem listsMapped_addCall (hc : c.isTransition = false) :
    (v.addCall c).ListsMapped st ↔ v.ListsMapped st := by
  rw [ListsMapped, ListsMapped, transitions_addCall hc]

@[simp] theorem kvPages_addCall (hc : c.isTransition = false) :
    (v.addCall c).kvPages st d = (c.flightPages d).card + v.kvPages st d := by
  simp only [kvPages, flight_addCall, card_add, counted_addCall hc, add_assoc]

@[simp] theorem weightPages_addCall :
    (v.addCall c).weightPages = c.weightPages + v.weightPages := by
  simp only [weightPages, addCall, map_cons, sum_cons]
  omega

@[simp] theorem mappedPages_addCall (hc : c.isTransition = false) :
    (v.addCall c).mappedPages st d = c.mappedPages d + v.mappedPages st d := by
  simp only [mappedPages, listsMapped_addCall hc]
  simp only [addCall, map_cons, sum_cons]
  abel

@[simp] theorem transitions_addCall_of_pos (hc : c.isTransition = true) :
    (v.addCall c).transitions = c ::ₘ v.transitions :=
  filter_cons_of_pos (p := fun c : Call => c.isTransition = true) _ hc

theorem mem_addCall_self : c ∈ (v.addCall c).calls := mem_cons_self c _

theorem mem_addCall_of_mem {c' : Call} (h : c' ∈ v.calls) : c' ∈ (v.addCall c).calls :=
  mem_cons_of_mem h

theorem inRange_addCall (hc : c.InRange n) (h : ∀ c ∈ v.calls, c.InRange n) :
    ∀ c' ∈ (v.addCall c).calls, c'.InRange n :=
  Multiset.forall_mem_cons.mpr ⟨hc, h⟩

theorem noAlloc_addCall (hc : c.isAlloc = false) (h : ∀ c ∈ v.calls, c.isAlloc = false) :
    ∀ c' ∈ (v.addCall c).calls, c'.isAlloc = false :=
  Multiset.forall_mem_cons.mpr ⟨hc, h⟩

@[simp] theorem mapsWeights_addCall (hc : c.mapsWeights = false) :
    (v.addCall c).calls.filter (fun c => c.mapsWeights) = v.calls.filter fun c => c.mapsWeights :=
  filter_cons_of_neg _ (by simp [hc])

@[simp] theorem mapsWeights_addCall_of_pos (hc : c.mapsWeights = true) :
    (v.addCall c).calls.filter (fun c => c.mapsWeights) =
      c ::ₘ v.calls.filter fun c => c.mapsWeights :=
  filter_cons_of_pos (p := fun c : Call => c.mapsWeights = true) _ hc

theorem addCall_calls_ne_zero : (v.addCall c).calls ≠ 0 := cons_ne_zero

@[simp] theorem mappedSum_addCall : ((v.addCall c).calls.map fun c => c.mappedPages d).sum =
    c.mappedPages d + (v.calls.map fun c => c.mappedPages d).sum := by
  simp [addCall]

/-- The call of a transition makes the counters cover the pages on the lists. -/
theorem kvPages_addTransition (hc : c.isTransition = true) : (v.addCall c).kvPages st d =
    (c.flightPages d).card + ((v.flight d).card + (listed st d).card) := by
  have htransitions : (v.addCall c).transitions ≠ 0 := by
    rw [transitions_addCall_of_pos hc]
    exact cons_ne_zero
  rw [kvPages, if_pos (.inr htransitions), flight_addCall, card_add, add_assoc]

theorem kvPages_of_asleep (hasleep : st.isSleeping = true) (h : v.transitions = 0) :
    v.kvPages st d = (v.flight d).card := by
  rw [kvPages, if_neg, Nat.add_zero]
  rw [Counted, hasleep, h]
  simp

/-- The pages on the lists stay mapped until the sleep has unmapped them. -/
theorem mappedPages_addSleep (hc : c.isSleep = true) : (v.addCall c).mappedPages st d =
    listed st d + (c.mappedPages d + (v.calls.map fun c => c.mappedPages d).sum) := by
  have hsleep : (v.addCall c).transitions.filter (fun c => c.isSleep) ≠ 0 := by
    rw [transitions_addCall_of_pos (c.isTransition_of_isSleep hc),
      filter_cons_of_pos (p := fun c : Call => c.isSleep = true) _ hc]
    exact cons_ne_zero
  rw [mappedPages, if_pos (.inr hsleep), mappedSum_addCall]

theorem mappedPages_of_asleep (hasleep : st.isSleeping = true)
    (h : v.transitions.filter (fun c => c.isSleep) = 0) :
    v.mappedPages st d = (v.calls.map fun c => c.mappedPages d).sum := by
  rw [mappedPages, if_neg, zero_add]
  rw [ListsMapped, hasleep, h]
  simp

theorem Phase.eq_zero {groups : List (Nat × List Nat)} {ts : Multiset Call}
    (h : Phase m groups false ts) : ts = 0 := by
  cases h
  rfl

/-- A model in transition is asleep and has no other transition. -/
theorem Phase.of_cons {groups : List (Nat × List Nat)} {asleep : Bool} {ts : Multiset Call}
    (h : Phase m groups asleep (c ::ₘ ts)) :
    asleep = true ∧ ts = 0 ∧ ((∃ n, c = .sleepWeights m n groups) ∨ c = .sleepUnmap m groups ∨
      ∃ n, c = .wakeMap m n groups) := by
  generalize hts : c ::ₘ ts = all at h
  cases h with
  | awake => exact absurd hts cons_ne_zero
  | asleep => exact absurd hts cons_ne_zero
  | freeing n =>
      obtain ⟨hc, hrest⟩ := (singleton_eq_cons_iff _).mp hts.symm
      exact ⟨rfl, hrest, .inl ⟨n, hc.symm⟩⟩
  | unmapping =>
      obtain ⟨hc, hrest⟩ := (singleton_eq_cons_iff _).mp hts.symm
      exact ⟨rfl, hrest, .inr (.inl hc.symm)⟩
  | waking n =>
      obtain ⟨hc, hrest⟩ := (singleton_eq_cons_iff _).mp hts.symm
      exact ⟨rfl, hrest, .inr (.inr ⟨n, hc.symm⟩)⟩

end PhyView

section

variable {c : Call} {pages : List Nat}

@[simp] theorem phyView_setModel : (p.setModel m st).phyView = p.phyView := rfl

@[simp] theorem phyView_setGroup (g : DpGroupPages) :
    (p.setGroup m st d g).phyView = p.phyView := rfl

@[simp] theorem phyView_setHeld : (p.setHeld m d pages).phyView = p.phyView := rfl

@[simp] theorem phyView_consumePhyPages (n : Nat → Nat) :
    (p.consumePhyPages n).phyView = p.phyView := rfl

@[simp] theorem phyView_releasePhyPages (covers : Nat → Bool) :
    (p.releasePhyPages covers n).phyView = p.phyView := rfl

@[simp] theorem phyView_addCall :
    (p.addCall c).phyView c.modelId = (p.phyView c.modelId).addCall c := by
  simp [phyView, PageAllocator.addCall, PhyView.addCall]

@[simp] theorem phyView_addCall_of_ne (h : m ≠ c.modelId) :
    (p.addCall c).phyView m = p.phyView m := by
  simp [phyView, addCall, h.symm]

theorem phyView_mapVirtPages : (p.mapVirtPages m d pages).phyView m =
    { p.phyView m with
      mapped := Function.update (p.phyView m).mapped d
        ((p.phyView m).mapped d ∪ pages.toFinset) } := by
  simp [phyView, mapVirtPages]

@[simp] theorem phyView_mapVirtPages_of_ne (h : m' ≠ m) :
    (p.mapVirtPages m d pages).phyView m' = p.phyView m' := by
  simp [phyView, mapVirtPages, h]

theorem phyView_unmapVirtPages : (p.unmapVirtPages m d pages).phyView m =
    { p.phyView m with
      mapped := Function.update (p.phyView m).mapped d
        ((p.phyView m).mapped d \ pages.toFinset) } := by
  simp [phyView, unmapVirtPages]

@[simp] theorem phyView_unmapVirtPages_of_ne (h : m' ≠ m) :
    (p.unmapVirtPages m d pages).phyView m' = p.phyView m' := by
  simp [phyView, unmapVirtPages, h]

@[simp] theorem phyView_setWeights : (p.setWeights m n).phyView m =
    { p.phyView m with weights := n } := by
  simp [phyView, setWeights]

@[simp] theorem phyView_setWeights_of_ne (h : m' ≠ m) :
    (p.setWeights m n).phyView m' = p.phyView m' := by
  simp [phyView, setWeights, h]

theorem phyView_calls_perm {calls : List Call} (h : p.calls.Perm calls) :
    { p with calls := calls }.phyView = p.phyView := by
  funext m
  have hcalls : ((calls.filter fun c => c.modelId = m : List Call) : Multiset Call) =
      (p.calls.filter fun c => c.modelId = m : List Call) :=
    Multiset.coe_eq_coe.mpr (h.filter _).symm
  simp only [phyView, hcalls]

end

/-- A model with a call of a transition is asleep, has no other such call, and the call
carries the pages of its lists. -/
theorem ModelSound.transition {v : PhyView} {c : Call} (h : p.ModelSound m st (v.addCall c))
    (hc : c.isTransition = true) :
    st.isSleeping = true ∧ v.transitions = 0 ∧ c.groups = p.collectPages st := by
  have hphase := h.phase
  rw [PhyView.transitions_addCall_of_pos hc] at hphase
  obtain ⟨hasleep, hnone, hcall⟩ := hphase.of_cons
  refine ⟨hasleep, hnone, ?_⟩
  obtain ⟨n, rfl⟩ | rfl | ⟨n, rfl⟩ := hcall
  all_goals rfl

theorem ModelSound.transitions_eq_zero {v : PhyView} (h : p.ModelSound m st v)
    (hawake : st.isSleeping = false) : v.transitions = 0 := by
  have hphase := h.phase
  rw [hawake] at hphase
  exact hphase.eq_zero

theorem ModelSound.mapped_of_awake {v : PhyView} (h : p.ModelSound m st v)
    (hawake : st.isSleeping = false) (hd : d < p.dpSize) : v.mapped d =
      (PhyView.listed st d + (v.calls.map fun c => c.mappedPages d).sum).toFinset := by
  have hmapped := h.mapped d hd
  rwa [PhyView.mappedPages, if_pos (.inl hawake)] at hmapped

end PageAllocator

end Xllm
