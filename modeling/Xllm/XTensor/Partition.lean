import Xllm.XTensor.PageAllocator
import Mathlib.Algebra.Order.Group.Multiset
import Mathlib.Data.Multiset.Range
import Mathlib.Tactic.Abel

/-!
# Virtual pages are partitioned

A virtual page of a group is on the free list, on the reserved list, in the set of
allocated pages, or it was taken by a call or by the background thread and is not
recorded yet. Whatever the order of the sections and whichever broadcasts fail,
these places stay disjoint and cover all pages of the group.

Everything that the invariant says about one model depends on the `View` of that
model. A section changes the view of one model only, so each section needs one
argument about that model and one that the other views are the same.
-/

namespace Xllm

open List Function Multiset

namespace Call

variable {c : Call} {m m' : String} {d : Nat}

def modelId : Call → String
  | allocMap m _ _ => m
  | allocRecord m _ _ => m
  | unmap m _ _ => m
  | sleepWait m _ => m
  | sleepWeights m _ _ => m
  | sleepUnmap m _ => m
  | wakeMap m _ _ => m
  | weightAlloc m _ => m

/-- Pages on their way from the free list to the allocated pages. -/
def allocPages (c : Call) (m : String) (d : Nat) : Multiset Nat :=
  match c with
  | allocMap m' d' page => if m' = m ∧ d' = d then {page} else 0
  | allocRecord m' d' page => if m' = m ∧ d' = d then {page} else 0
  | _ => 0

def freedPages (c : Call) (m : String) (d : Nat) : Multiset Nat :=
  match c with
  | unmap m' d' pages => if m' = m ∧ d' = d then pages else 0
  | _ => 0

def mapsPage (c : Call) (m : String) : Nat :=
  match c with
  | allocMap m' _ _ => if m' = m then 1 else 0
  | _ => 0

@[simp] theorem allocPages_of_ne (h : c.modelId ≠ m) : c.allocPages m d = 0 := by
  cases c <;> simp_all [allocPages, modelId]

@[simp] theorem freedPages_of_ne (h : c.modelId ≠ m) : c.freedPages m d = 0 := by
  cases c <;> simp_all [freedPages, modelId]

@[simp] theorem mapsPage_of_ne (h : c.modelId ≠ m) : c.mapsPage m = 0 := by
  cases c <;> simp_all [mapsPage, modelId]

end Call

namespace Reservation

/-- The reserved pages that belong to a group. -/
def pagesOf (r : Reservation) (m : String) (d : Nat) : Multiset Nat :=
  if r.modelId = m ∧ r.dpRank = d then r.pages else 0

/-- The reservation counts as a pending map operation of the model. -/
def mapsPage (r : Reservation) (m : String) : Nat := if r.modelId = m then 1 else 0

end Reservation

namespace PageAllocator

open Contract

variable {p q : PageAllocator} {m m' : String} {d d' : Nat} {st st' : ModelState}

/-- Pages of a group that `alloc_kv_cache_page` has taken and not recorded. -/
def allocFlight (p : PageAllocator) (m : String) (d : Nat) : Multiset Nat :=
  (p.calls.map fun c => c.allocPages m d).sum

/-- Pages of a group that are being unmapped or reserved. -/
def freedFlight (p : PageAllocator) (m : String) (d : Nat) : Multiset Nat :=
  (p.calls.map fun c => c.freedPages m d).sum +
    ((p.preallocMapping.toList ++ p.preallocTodo).map fun r => r.pagesOf m d).sum

/-- Map operations of a model that are going on. -/
def mapOps (p : PageAllocator) (m : String) : Nat :=
  (p.calls.map fun c => c.mapsPage m).sum +
    (p.preallocMapping.toList.map fun r => r.mapsPage m).sum

def inFlight (p : PageAllocator) (m : String) (d : Nat) : Multiset Nat :=
  p.allocFlight m d + p.freedFlight m d

/-- No operation is between two of its sections. -/
def Quiescent (p : PageAllocator) : Prop :=
  p.calls = [] ∧ p.preallocMapping = none ∧ p.preallocTodo = []

instance (p : PageAllocator) : Decidable p.Quiescent := inferInstanceAs (Decidable (_ ∧ _))

/-- What the invariant says about a group, given the pages in flight and the
pages that the block manager holds. -/
structure GroupInv (n : Nat) (g : DpGroupPages) (alloc freed : Multiset Nat) (held : List Nat) :
    Prop where
  partition : (g.freeVirtPageList : Multiset Nat) + g.reservedVirtPageList +
    g.allocatedVirtPageList + (alloc + freed) = Multiset.range n
  numFree : g.numFreeVirtPages =
    g.freeVirtPageList.length + g.reservedVirtPageList.length + freed.card
  held_eq : held = g.allocatedVirtPageList

/-- The part of the state that concerns one model. -/
structure View where
  state : Option ModelState
  alloc : Nat → Multiset Nat
  freed : Nat → Multiset Nat
  mapOps : Nat
  held : Nat → List Nat

def view (p : PageAllocator) (m : String) : View where
  state := p.modelStates m
  alloc := p.allocFlight m
  freed := p.freedFlight m
  mapOps := p.mapOps m
  held := p.blockManagerPages m

/-- What the invariant says about a registered model. -/
structure ModelInv (dpSize : Nat) (st : ModelState) (v : View) : Prop where
  pending : st.pendingMapOps = v.mapOps
  awake : 0 < v.mapOps → st.isSleeping = false
  group : ∀ d < dpSize,
    GroupInv st.numTotalVirtPages (st.dpGroupPages d) (v.alloc d) (v.freed d) (v.held d)

/-- The invariant of one model. A model that is not registered has nothing in flight. -/
def View.Inv (dpSize : Nat) (v : View) : Prop :=
  match v.state with
  | some st => ModelInv dpSize st v
  | none => (∀ d, v.alloc d = 0 ∧ v.freed d = 0 ∧ v.held d = []) ∧ v.mapOps = 0

structure Partitioned (p : PageAllocator) : Prop where
  model : ∀ m, (p.view m).Inv p.dpSize
  notSlept : p.sleptAfterMapping = false

theorem View.inv_of_state {dpSize : Nat} {v : View} (hst : v.state = some st) :
    v.Inv dpSize ↔ ModelInv dpSize st v := by
  rw [View.Inv, hst]

theorem Partitioned.modelInv (h : p.Partitioned) (hst : p.modelStates m = some st) :
    ModelInv p.dpSize st (p.view m) :=
  (View.inv_of_state hst).mp (h.model m)

/-- A section that concerns one registered model keeps the invariant if it keeps
the invariant of that model and the views of the others. -/
theorem Partitioned.of_model (h : p.Partitioned) (hst : p.modelStates m = some st)
    (hst' : q.modelStates m = some st') (hsize : q.dpSize = p.dpSize)
    (hslept : q.sleptAfterMapping = p.sleptAfterMapping)
    (others : ∀ m', m' ≠ m → q.view m' = p.view m')
    (hm : ModelInv p.dpSize st (p.view m) → ModelInv p.dpSize st' (q.view m)) :
    q.Partitioned := by
  refine ⟨fun m' => ?_, hslept.trans h.notSlept⟩
  rw [hsize]
  by_cases hm' : m' = m
  · rw [hm']
    exact (View.inv_of_state hst').mpr (hm (h.modelInv hst))
  · rw [others m' hm']
    exact h.model m'

theorem Partitioned.of_view_eq (h : p.Partitioned) (hsize : q.dpSize = p.dpSize)
    (hslept : q.sleptAfterMapping = p.sleptAfterMapping) (hview : q.view = p.view) :
    q.Partitioned := by
  refine ⟨fun m => ?_, hslept.trans h.notSlept⟩
  rw [hsize, hview]
  exact h.model m

theorem ModelInv.of_group {dpSize : Nat} {v v' : View} (h : ModelInv dpSize st v) (d : Nat)
    (hpages : st'.numTotalVirtPages = st.numTotalVirtPages)
    (hpending : st'.pendingMapOps = v'.mapOps)
    (hawake : 0 < v'.mapOps → st'.isSleeping = false)
    (others : ∀ d', d' ≠ d → st'.dpGroupPages d' = st.dpGroupPages d' ∧
      v'.alloc d' = v.alloc d' ∧ v'.freed d' = v.freed d' ∧ v'.held d' = v.held d')
    (hgroup : GroupInv st.numTotalVirtPages (st.dpGroupPages d) (v.alloc d) (v.freed d)
        (v.held d) →
      GroupInv st.numTotalVirtPages (st'.dpGroupPages d) (v'.alloc d) (v'.freed d) (v'.held d)) :
    ModelInv dpSize st' v' := by
  refine ⟨hpending, hawake, fun d' hd' => ?_⟩
  rw [hpages]
  by_cases hd : d' = d
  · subst hd
    exact hgroup (h.group d' hd')
  · obtain ⟨hst, halloc, hfreed, hheld⟩ := others d' hd
    rw [hst, halloc, hfreed, hheld]
    exact h.group d' hd'

namespace GroupInv

variable {n page : Nat} {g : DpGroupPages} {alloc freed : Multiset Nat}
  {held rest pages : List Nat}

theorem nodup (h : GroupInv n g alloc freed held) :
    ((g.freeVirtPageList : Multiset Nat) + g.reservedVirtPageList + g.allocatedVirtPageList +
      (alloc + freed)).Nodup := by
  rw [h.partition]
  exact Multiset.nodup_range n

theorem not_mem_allocated (h : GroupInv n g alloc freed held)
    (hpage : page ∈ (g.freeVirtPageList : Multiset Nat) + g.reservedVirtPageList +
      (alloc + freed)) : page ∉ g.allocatedVirtPageList := by
  have hall := h.nodup
  rw [add_right_comm] at hall
  have hdisjoint := (Multiset.nodup_add.mp hall).2.2
  intro hmem
  exact Multiset.disjoint_left.mp hdisjoint hpage (Multiset.mem_coe.mpr hmem)

theorem coe_insert_of_not_mem (hpage : page ∉ pages) :
    ((pages.insert page : List Nat) : Multiset Nat) = {page} + pages := by
  rw [insert_of_not_mem hpage, singleton_add, cons_coe]

theorem take_reserved (h : GroupInv n g alloc freed held)
    (hreserved : g.reservedVirtPageList = page :: rest) :
    GroupInv n { g with
      numFreeVirtPages := g.numFreeVirtPages - 1
      reservedVirtPageList := rest
      allocatedVirtPageList := g.allocatedVirtPageList.insert page }
      alloc freed (held.insert page) := by
  have hpage : page ∉ g.allocatedVirtPageList := h.not_mem_allocated (by simp [hreserved])
  refine ⟨?_, ?_, by rw [h.held_eq]⟩
  · rw [← h.partition, hreserved, coe_insert_of_not_mem hpage, ← cons_coe,
      ← singleton_add]
    abel
  · have hnum := h.numFree
    rw [hreserved, length_cons] at hnum
    dsimp only
    omega

theorem take_free (h : GroupInv n g alloc freed held)
    (hfree : g.freeVirtPageList = page :: rest) :
    GroupInv n { g with
      numFreeVirtPages := g.numFreeVirtPages - 1
      freeVirtPageList := rest } ({page} + alloc) freed held := by
  refine ⟨?_, ?_, h.held_eq⟩
  · rw [← h.partition, hfree, ← cons_coe, ← singleton_add]
    abel
  · have hnum := h.numFree
    rw [hfree, length_cons] at hnum
    dsimp only
    omega

theorem put_free (h : GroupInv n g ({page} + alloc) freed held) :
    GroupInv n { g with
      numFreeVirtPages := g.numFreeVirtPages + 1
      freeVirtPageList := page :: g.freeVirtPageList } alloc freed held := by
  refine ⟨?_, ?_, h.held_eq⟩
  · rw [← h.partition, ← cons_coe, ← singleton_add]
    abel
  · have hnum := h.numFree
    dsimp only
    rw [length_cons]
    omega

theorem record (h : GroupInv n g ({page} + alloc) freed held) :
    GroupInv n { g with allocatedVirtPageList := g.allocatedVirtPageList.insert page }
      alloc freed (held.insert page) := by
  have hpage : page ∉ g.allocatedVirtPageList := h.not_mem_allocated (by simp)
  refine ⟨?_, h.numFree, by rw [h.held_eq]⟩
  rw [← h.partition, coe_insert_of_not_mem hpage]
  abel

theorem free (h : GroupInv n g alloc freed held) (hnodup : pages.Nodup) (hpages : pages ⊆ held)
    (kept : Nat) :
    GroupInv n { g with
      numFreeVirtPages := g.numFreeVirtPages + pages.length
      reservedVirtPageList := g.reservedVirtPageList ++ pages.take kept
      allocatedVirtPageList := g.allocatedVirtPageList.diff pages }
      alloc (↑(pages.drop kept) + freed) (held.diff pages) := by
  rw [h.held_eq] at hpages
  have hle : (pages : Multiset Nat) ≤ g.allocatedVirtPageList :=
    (le_iff_subset (Multiset.coe_nodup.mpr hnodup)).mpr hpages
  have hdiff : ((g.allocatedVirtPageList.diff pages : List Nat) : Multiset Nat) + pages =
      g.allocatedVirtPageList := by
    exact Multiset.sub_add_cancel hle
  have hsplit : ((pages.take kept : List Nat) : Multiset Nat) + ↑(pages.drop kept) = pages := by
    rw [coe_add, take_append_drop]
  refine ⟨?_, ?_, by rw [h.held_eq]⟩
  · rw [← h.partition, ← coe_add]
    conv_rhs => rw [← hdiff, ← hsplit]
    abel
  · have hlength := congrArg List.length (take_append_drop kept pages)
    have hnum := h.numFree
    rw [length_append] at hlength
    dsimp only
    rw [length_append, card_add, coe_card]
    omega

theorem trim (h : GroupInv n g alloc freed held) :
    GroupInv n { g with reservedVirtPageList := [] } alloc (↑g.reservedVirtPageList + freed)
      held := by
  refine ⟨?_, ?_, h.held_eq⟩
  · rw [← h.partition]
    simp only [coe_nil]
    abel
  · have hnum := h.numFree
    dsimp only
    rw [card_add, coe_card, length_nil]
    omega

theorem reserve (h : GroupInv n g alloc freed held) (k : Nat) :
    GroupInv n { g with freeVirtPageList := g.freeVirtPageList.drop k } alloc
      (freed + ↑(g.freeVirtPageList.take k)) held := by
  have hsplit : ((g.freeVirtPageList.take k : List Nat) : Multiset Nat) +
      ↑(g.freeVirtPageList.drop k) = g.freeVirtPageList := by
    rw [coe_add, take_append_drop]
  refine ⟨?_, ?_, h.held_eq⟩
  · rw [← h.partition]
    conv_rhs => rw [← hsplit]
    abel
  · have hlength := congrArg List.length (take_append_drop k g.freeVirtPageList)
    have hnum := h.numFree
    rw [length_append] at hlength
    dsimp only
    rw [card_add, coe_card]
    omega

theorem unmapped (h : GroupInv n g alloc (↑pages + freed) held) :
    GroupInv n { g with freeVirtPageList := g.freeVirtPageList ++ pages } alloc freed held := by
  refine ⟨?_, ?_, h.held_eq⟩
  · rw [← h.partition, ← coe_add]
    abel
  · have hnum := h.numFree
    rw [card_add, coe_card] at hnum
    dsimp only
    rw [length_append]
    omega

theorem cancel (h : GroupInv n g alloc (↑pages + freed) held) :
    GroupInv n { g with freeVirtPageList := pages ++ g.freeVirtPageList } alloc freed held := by
  refine ⟨?_, ?_, h.held_eq⟩
  · rw [← h.partition, ← coe_add]
    abel
  · have hnum := h.numFree
    rw [card_add, coe_card] at hnum
    dsimp only
    rw [length_append]
    omega

theorem keep (h : GroupInv n g alloc (↑pages + freed) held) :
    GroupInv n { g with reservedVirtPageList := g.reservedVirtPageList ++ pages } alloc freed
      held := by
  refine ⟨?_, ?_, h.held_eq⟩
  · rw [← h.partition, ← coe_add]
    abel
  · have hnum := h.numFree
    rw [card_add, coe_card] at hnum
    dsimp only
    rw [length_append]
    omega

end GroupInv

section

variable {c : Call} {pages : List Nat} {n : Nat}

@[simp] theorem view_consumePhyPages (n : Nat → Nat) : (p.consumePhyPages n).view = p.view := rfl

@[simp] theorem view_releasePhyPages (covers : Nat → Bool) :
    (p.releasePhyPages covers n).view = p.view := rfl

@[simp] theorem view_mapVirtPages : (p.mapVirtPages m d pages).view = p.view := rfl

@[simp] theorem view_unmapVirtPages : (p.unmapVirtPages m d pages).view = p.view := rfl

@[simp] theorem view_setWeights : (p.setWeights m n).view = p.view := rfl

@[simp] theorem view_setModel : (p.setModel m st).view m = { p.view m with state := some st } := by
  have hstate : (p.setModel m st).modelStates m = some st := update_self ..
  rw [view, hstate]
  rfl

@[simp] theorem view_setModel_of_ne (h : m' ≠ m) : (p.setModel m st).view m' = p.view m' := by
  have hstate : (p.setModel m st).modelStates m' = p.modelStates m' := update_of_ne h ..
  rw [view, hstate]
  rfl

@[simp] theorem view_setHeld : (p.setHeld m d pages).view m =
    { p.view m with held := update (p.view m).held d pages } := by
  have hheld : (p.setHeld m d pages).blockManagerPages m =
      update (p.blockManagerPages m) d pages := update_self ..
  rw [view, hheld]
  rfl

@[simp] theorem view_setHeld_of_ne (h : m' ≠ m) : (p.setHeld m d pages).view m' = p.view m' := by
  have hheld : (p.setHeld m d pages).blockManagerPages m' = p.blockManagerPages m' :=
    update_of_ne h ..
  rw [view, hheld]
  rfl

theorem view_addCall : (p.addCall c).view m =
    { p.view m with
      alloc := fun d => c.allocPages m d + (p.view m).alloc d
      freed := fun d => c.freedPages m d + (p.view m).freed d
      mapOps := c.mapsPage m + (p.view m).mapOps } := by
  simp [view, addCall, funext_iff, allocFlight, freedFlight, mapOps, add_assoc]

@[simp] theorem view_addCall_of_ne (h : m ≠ c.modelId) : (p.addCall c).view m = p.view m := by
  rw [view_addCall]
  simp [Call.allocPages_of_ne h.symm, Call.freedPages_of_ne h.symm, Call.mapsPage_of_ne h.symm]

theorem view_calls_perm {calls : List Call} (h : p.calls.Perm calls) :
    { p with calls := calls }.view = p.view := by
  funext m
  have halloc : ∀ d, (calls.map fun c => c.allocPages m d).sum =
      (p.calls.map fun c => c.allocPages m d).sum := fun d => (h.map _).symm.sum_eq
  have hfreed : ∀ d, (calls.map fun c => c.freedPages m d).sum =
      (p.calls.map fun c => c.freedPages m d).sum := fun d => (h.map _).symm.sum_eq
  have hops : (calls.map fun c => c.mapsPage m).sum = (p.calls.map fun c => c.mapsPage m).sum :=
    (h.map _).symm.sum_eq
  simp [view, funext_iff, allocFlight, freedFlight, mapOps, halloc, hfreed, hops]

end

theorem partitioned_init (numPhyPages dpSize maxWorldSize : Nat) :
    (init numPhyPages dpSize maxWorldSize).Partitioned := by
  refine ⟨fun m => ?_, rfl⟩
  exact ⟨fun d => ⟨rfl, rfl, rfl⟩, rfl⟩

/-- A registered model has no page in use. -/
theorem partitioned_registerModel (h : p.Partitioned) (numLayers : Nat) :
    IfOk (p.registerModel m numLayers) Partitioned := by
  rw [registerModel]
  split
  case h_1 => exact h
  case h_2 hnone =>
    split_ifs
    · exact trivial
    · have hfresh := h.model m
      rw [View.Inv, show (p.view m).state = none from hnone] at hfresh
      refine ⟨fun m' => ?_, h.notSlept⟩
      by_cases hm : m' = m
      · subst hm
        refine (View.inv_of_state (update_self ..)).mpr ⟨?_, fun _ => rfl, ?_⟩
        · exact congrArg Nat.cast hfresh.2.symm
        · intro d _
          obtain ⟨halloc, hfreed, hheld⟩ := hfresh.1 d
          refine ⟨?_, ?_, hheld⟩
          · change _ + ((p.view m').alloc d + (p.view m').freed d) = _
            rw [halloc, hfreed]
            simp [Multiset.range]
          · change _ = _ + _ + ((p.view m').freed d).card
            rw [hfreed]
            simp
      · exact (view_setModel_of_ne hm).symm ▸ h.model m'

theorem partitioned_setModelParallelStrategy (h : p.Partitioned) (dpSize tpSize : Nat) :
    (p.setModelParallelStrategy m dpSize tpSize).Partitioned := by
  rw [setModelParallelStrategy]
  split
  case h_1 => exact h
  case h_2 st hst =>
    refine h.of_model hst (update_self ..) rfl rfl
      (fun m' hm' => view_setModel_of_ne hm') fun hm => ?_
    exact ⟨hm.pending, hm.awake, hm.group⟩

theorem partitioned_setWeightPagesCount (h : p.Partitioned) (n : Nat) :
    IfOk (p.setWeightPagesCount m n) Partitioned := by
  rw [setWeightPagesCount]
  split
  case h_1 => exact trivial
  case h_2 st hst =>
    refine h.of_model hst (update_self ..) rfl rfl
      (fun m' hm' => view_setModel_of_ne hm') fun hm => ?_
    exact ⟨hm.pending, hm.awake, hm.group⟩

/-- First section of an allocation: a page is reserved, free or about to be mapped. -/
theorem partitioned_allocKvCachePage (h : p.Partitioned) :
    IfOk (p.allocKvCachePage m d) Partitioned := by
  rw [allocKvCachePage]
  split
  case h_1 => exact trivial
  case h_2 st hst =>
    split
    · exact trivial
    rename_i hstop
    obtain ⟨-, hawake⟩ := not_or.mp hstop
    rw [Bool.not_eq_true] at hawake
    dsimp only
    split
    case h_1 page rest hreserved =>
      refine h.of_model hst (update_self ..) rfl rfl
        (fun m' hm' => (view_setHeld_of_ne hm').trans (view_setModel_of_ne hm')) fun hm => ?_
      rw [view_setHeld, setGroup, view_setModel]
      refine hm.of_group d rfl hm.pending hm.awake (fun d' hd' => by simp [hd']) fun hg => ?_
      simpa [view] using hg.take_reserved hreserved
    case h_2 page rest hreserved hfree =>
      split
      · refine h.of_model hst (update_self ..) rfl rfl
          (fun m' hm' => (view_addCall_of_ne hm').trans (view_setModel_of_ne hm')) fun hm => ?_
        rw [view_addCall, setGroup, consumePhyPagesForDp]
        refine hm.of_group d rfl ?_ (fun _ => hawake)
          (fun d' hd' => by simp [hd', hd'.symm, Call.allocPages, Call.freedPages]) fun hg => ?_
        · simp [hm.pending, Call.mapsPage, add_comm]
        · simpa [Call.allocPages, Call.freedPages] using hg.take_free hfree
      · exact h
    case h_3 => exact h

/-- Second section: the page is mapped, or given back. -/
theorem partitioned_allocMapped {page : Nat} {success : Bool}
    (h : (p.addCall (.allocMap m d page)).Partitioned) :
    IfOk (p.allocMapped m d page success) Partitioned := by
  rw [allocMapped]
  split
  case h_1 => exact trivial
  case h_2 st hst =>
    split
    · refine h.of_model hst (update_self ..) rfl rfl (fun m' hm' => ?_) fun hm => ?_
      · rw [view_addCall_of_ne hm', view_mapVirtPages, view_setModel_of_ne hm',
          view_addCall_of_ne hm']
      · rw [view_addCall] at hm
        rw [view_addCall, view_mapVirtPages, view_setModel]
        have hpending := hm.pending
        have hawake := hm.awake
        simp only [Call.mapsPage, if_pos] at hpending hawake
        refine ⟨?_, fun _ => hawake (by omega), fun d' hd' => hm.group d' hd'⟩
        simp only [Call.mapsPage]
        omega
    · refine h.of_model hst (update_self ..) rfl rfl (fun m' hm' => ?_) fun hm => ?_
      · rw [setGroup, view_setModel_of_ne hm', view_addCall_of_ne hm', releasePhyPagesForDp,
          view_releasePhyPages]
      · rw [view_addCall] at hm
        rw [setGroup, view_setModel, releasePhyPagesForDp, view_releasePhyPages]
        have hpending := hm.pending
        have hawake := hm.awake
        simp only [Call.mapsPage, if_pos] at hpending hawake
        refine hm.of_group d rfl ?_ (fun _ => hawake (by omega))
          (fun d' hd' => by simp [hd', hd'.symm, Call.allocPages, Call.freedPages]) fun hg => ?_
        · simp only [ModelState.setGroup_pendingMapOps]
          omega
        · simp only [Call.allocPages, Call.freedPages] at hg
          simpa using hg.put_free

theorem partitioned_allocRecorded {page : Nat}
    (h : (p.addCall (.allocRecord m d page)).Partitioned) :
    IfOk (p.allocRecorded m d page) Partitioned := by
  rw [allocRecorded]
  split
  case h_1 => exact trivial
  case h_2 st hst =>
    refine h.of_model hst (update_self ..) rfl rfl (fun m' hm' => ?_) fun hm => ?_
    · rw [view_setHeld_of_ne hm', setGroup, view_setModel_of_ne hm', view_addCall_of_ne hm']
    · rw [view_addCall] at hm
      rw [view_setHeld, setGroup, view_setModel]
      simp only [Call.mapsPage, zero_add] at hm
      refine hm.of_group d rfl hm.pending hm.awake
        (fun d' hd' => by simp [hd', hd'.symm, Call.allocPages, Call.freedPages]) fun hg => ?_
      simp only [Call.allocPages, Call.freedPages] at hg
      simpa [view] using hg.record

/-- Freed pages are reserved while there is room and unmapped otherwise. -/
theorem partitioned_freeBlocks (h : p.Partitioned) (ids : List Nat) :
    IfOk (p.freeBlocks m d ids) Partitioned := by
  rw [freeBlocks, freeKvCachePages]
  generalize hpages : (ids.dedup.filter fun page => page ∈ p.blockManagerPages m d) = pages
  have hnodup : pages.Nodup := hpages ▸ (List.nodup_dedup ids).filter _
  have hheld : pages ⊆ p.blockManagerPages m d := by
    intro page hpage
    rw [← hpages, List.mem_filter] at hpage
    exact of_decide_eq_true hpage.2
  dsimp only
  split
  case h_1 => exact trivial
  case h_2 st hst =>
    split
    · exact trivial
    generalize (if st.isSleeping = true then 0
      else min (numToReserve (st.dpGroupPages d)) pages.length) = kept
    split
    case isTrue hnil =>
      refine h.of_model hst (update_self ..) rfl rfl (fun m' hm' => ?_) fun hm => ?_
      · rw [setGroup, view_setModel_of_ne hm', view_setHeld_of_ne hm']
      · rw [setGroup, view_setModel, view_setHeld]
        refine hm.of_group d rfl hm.pending hm.awake (fun d' hd' => by simp [hd']) fun hg => ?_
        have hfree := hg.free hnodup hheld kept
        rw [hnil] at hfree
        simpa [view] using hfree
    case isFalse hrest =>
      refine h.of_model hst (update_self ..) rfl rfl (fun m' hm' => ?_) fun hm => ?_
      · rw [view_addCall_of_ne hm', setGroup, view_setModel_of_ne hm', view_setHeld_of_ne hm']
      · rw [view_addCall, setGroup, view_setModel, view_setHeld]
        simp only [Call.mapsPage, zero_add]
        refine hm.of_group d rfl hm.pending hm.awake
          (fun d' hd' => by simp [hd', hd'.symm, Call.allocPages, Call.freedPages]) fun hg => ?_
        simpa [view, Call.allocPages, Call.freedPages] using hg.free hnodup hheld kept

theorem partitioned_trimKvCache (h : p.Partitioned) : IfOk (p.trimKvCache m d) Partitioned := by
  rw [trimKvCache]
  split
  case h_1 => exact trivial
  case h_2 st hst =>
    split
    · exact trivial
    dsimp only
    split
    · exact h
    · refine h.of_model hst (update_self ..) rfl rfl (fun m' hm' => ?_) fun hm => ?_
      · rw [view_addCall_of_ne hm', setGroup, view_setModel_of_ne hm']
      · rw [view_addCall, setGroup]
        simp only [Call.mapsPage, zero_add]
        refine hm.of_group d rfl hm.pending hm.awake
          (fun d' hd' => by simp [hd', hd'.symm, Call.allocPages, Call.freedPages]) fun hg => ?_
        simpa [Call.allocPages, Call.freedPages] using hg.trim

/-- Unmapped pages are free again. -/
theorem partitioned_pagesUnmapped {pages : List Nat} {success : Bool}
    (h : (p.addCall (.unmap m d pages)).Partitioned) :
    IfOk (p.pagesUnmapped m d pages success) Partitioned := by
  rw [pagesUnmapped]
  split
  case h_1 => exact trivial
  case h_2 st hst =>
    split
    · refine h.of_model hst (update_self ..) rfl rfl (fun m' hm' => ?_) fun hm => ?_
      · rw [view_unmapVirtPages, setGroup, view_setModel_of_ne hm', view_addCall_of_ne hm',
          releasePhyPagesForDp, view_releasePhyPages]
      · rw [view_addCall] at hm
        rw [setGroup, releasePhyPagesForDp]
        simp only [Call.mapsPage, zero_add] at hm
        refine hm.of_group d rfl hm.pending hm.awake
          (fun d' hd' => by simp [hd', hd'.symm, Call.allocPages, Call.freedPages]) fun hg => ?_
        simp only [Call.allocPages, Call.freedPages] at hg
        simpa using hg.unmapped
    · refine h.of_model hst (update_self ..) rfl rfl (fun m' hm' => ?_) fun hm => ?_
      · rw [setGroup, view_setModel_of_ne hm', view_addCall_of_ne hm']
      · rw [view_addCall] at hm
        rw [setGroup]
        simp only [Call.mapsPage, zero_add] at hm
        refine hm.of_group d rfl hm.pending hm.awake
          (fun d' hd' => by simp [hd', hd'.symm, Call.allocPages, Call.freedPages]) fun hg => ?_
        simp only [Call.allocPages, Call.freedPages] at hg
        simpa using hg.keep

/-- A call that carries no page of a group and maps none. -/
def Call.Pageless (c : Call) : Prop :=
  (∀ m d, c.allocPages m d = 0 ∧ c.freedPages m d = 0) ∧ ∀ m, c.mapsPage m = 0

@[simp] theorem view_addCall_of_pageless {c : Call} (hc : Call.Pageless c) :
    (p.addCall c).view = p.view := by
  funext m
  rw [view_addCall]
  simp [(hc.1 m _).1, (hc.1 m _).2, hc.2 m]

@[simp] theorem partitioned_addCall_iff {c : Call} (hc : Call.Pageless c) :
    (p.addCall c).Partitioned ↔ p.Partitioned :=
  ⟨fun h => h.of_view_eq rfl rfl (view_addCall_of_pageless hc).symm,
    fun h => h.of_view_eq rfl rfl (view_addCall_of_pageless hc)⟩

theorem partitioned_allocWeightPages (h : p.Partitioned) (n : Nat) :
    IfOk (p.allocWeightPages m n) Partitioned := by
  rw [allocWeightPages]
  split
  case h_1 => exact trivial
  case h_2 st hst =>
    split
    · exact h
    · refine (partitioned_addCall_iff ⟨fun _ _ => ⟨rfl, rfl⟩, fun _ => rfl⟩).mpr ?_
      refine h.of_model hst (update_self ..) rfl rfl
        (fun m' hm' => view_setModel_of_ne hm') fun hm => ?_
      exact ⟨hm.pending, hm.awake, hm.group⟩

theorem partitioned_freeWeightPages (h : p.Partitioned) (n : Nat) (success : Bool) :
    IfOk (p.freeWeightPages m n success) Partitioned := by
  rw [freeWeightPages]
  split
  · split
    case h_1 => exact trivial
    case h_2 st hst => exact h.of_view_eq rfl rfl rfl
  · exact h

theorem partitioned_fallAsleep (h : p.Partitioned) (hst : p.modelStates m = some st)
    (hpending : ¬0 < st.pendingMapOps) (skip : Bool) : (p.fallAsleep m st skip).Partitioned := by
  have hasleep : (p.setModel m { st with isSleeping := true }).Partitioned := by
    refine h.of_model hst (update_self ..) rfl rfl
      (fun m' hm' => view_setModel_of_ne hm') fun hm => ?_
    rw [view_setModel]
    refine ⟨hm.pending, fun hpos => ?_, hm.group⟩
    have hzero := hm.pending
    dsimp only at hpos
    omega
  rw [fallAsleep]
  split
  · exact (partitioned_addCall_iff ⟨fun _ _ => ⟨rfl, rfl⟩, fun _ => rfl⟩).mpr hasleep
  · exact (partitioned_addCall_iff ⟨fun _ _ => ⟨rfl, rfl⟩, fun _ => rfl⟩).mpr hasleep

theorem partitioned_sleepModel (h : p.Partitioned) (skip : Bool) :
    (p.sleepModel m skip).Partitioned := by
  rw [sleepModel]
  split
  case h_1 => exact h
  case h_2 st hst =>
    split_ifs with hsleeping hpending
    · exact h
    · exact (partitioned_addCall_iff ⟨fun _ _ => ⟨rfl, rfl⟩, fun _ => rfl⟩).mpr h
    · exact partitioned_fallAsleep h hst hpending skip

theorem partitioned_sleepWaited (h : p.Partitioned) (skip : Bool) :
    IfOk (p.sleepWaited m skip) Partitioned := by
  rw [sleepWaited]
  split
  case h_1 => exact trivial
  case h_2 st hst =>
    split_ifs with hpending
    · exact (partitioned_addCall_iff ⟨fun _ _ => ⟨rfl, rfl⟩, fun _ => rfl⟩).mpr h
    · exact partitioned_fallAsleep h hst hpending skip

theorem partitioned_sleepFreedWeights (h : p.Partitioned) (n : Nat)
    (groups : List (Nat × List Nat)) (success : Bool) :
    IfOk (p.sleepFreedWeights m n groups success) Partitioned := by
  rw [sleepFreedWeights]
  split
  · refine (partitioned_freeWeightPages h n true).bind fun q hq => ?_
    exact (partitioned_addCall_iff ⟨fun _ _ => ⟨rfl, rfl⟩, fun _ => rfl⟩).mpr hq
  · exact h

theorem partitioned_sleepUnmapped (h : p.Partitioned) (groups : List (Nat × List Nat))
    (failed : List Nat) : IfOk (p.sleepUnmapped m groups failed) Partitioned := by
  rw [sleepUnmapped]
  split
  case h_1 => exact trivial
  case h_2 st hst =>
    exact List.foldlRecOn _ _ h fun q hq group _ => hq.of_view_eq rfl rfl rfl

theorem partitioned_wakeupModel (h : p.Partitioned) : (p.wakeupModel m).Partitioned := by
  rw [wakeupModel]
  split
  case h_1 => exact h
  case h_2 st hst =>
    dsimp only
    split_ifs
    · exact h
    · refine (partitioned_addCall_iff ⟨fun _ _ => ⟨rfl, rfl⟩, fun _ => rfl⟩).mpr ?_
      exact h.of_view_eq rfl rfl rfl
    · exact h

theorem partitioned_awake (h : p.Partitioned) (hst : p.modelStates m = some st) :
    (p.setModel m { st with isSleeping := false }).Partitioned := by
  refine h.of_model hst (update_self ..) rfl rfl
    (fun m' hm' => view_setModel_of_ne hm') fun hm => ?_
  exact ⟨hm.pending, fun _ => rfl, hm.group⟩

theorem partitioned_wakeupMapped (h : p.Partitioned) (n : Nat) (groups : List (Nat × List Nat))
    (failed : List Nat) : IfOk (p.wakeupMapped m n groups failed) Partitioned := by
  rw [wakeupMapped]
  split
  case h_1 => exact trivial
  case h_2 st hst =>
    generalize groups.zipIdx.takeWhile (fun group => group.2 ∉ failed) = mappedGroups
    obtain ⟨hq, hqst⟩ := List.foldlRecOn
      (motive := fun q : PageAllocator => q.Partitioned ∧ q.modelStates m = some st)
      mappedGroups (fun q group => q.mapVirtPages m group.1.1 group.1.2) ⟨h, hst⟩
      fun q hq group _ => ⟨hq.1.of_view_eq rfl rfl rfl, hq.2⟩
    dsimp only
    split_ifs
    · exact hq
    · exact partitioned_awake hq hqst
    · exact hq
    · exact partitioned_awake (hq.of_view_eq rfl rfl rfl) hqst

theorem view_preallocTodo {r : Reservation} {todo : List Reservation}
    (htodo : q.preallocTodo = todo) (h : p.preallocTodo.Perm (r :: todo))
    (hcalls : p.calls = q.calls) (hmapping : p.preallocMapping = q.preallocMapping)
    (hstates : p.modelStates m = q.modelStates m)
    (hheld : p.blockManagerPages = q.blockManagerPages) :
    p.view m =
      { q.view m with freed := fun d => r.pagesOf m d + (q.view m).freed d } := by
  have hsum : ∀ d, (p.preallocTodo.map fun r => r.pagesOf m d).sum =
      r.pagesOf m d + (todo.map fun r => r.pagesOf m d).sum := by
    intro d
    rw [(h.map _).sum_eq, List.map_cons, List.sum_cons]
  subst htodo
  simp only [view, funext_iff, allocFlight, freedFlight, mapOps, hcalls, hmapping, hstates, hheld,
    map_append, sum_append, hsum, View.mk.injEq, true_and, and_true]
  exact ⟨fun _ => trivial, fun d => by abel⟩

/-- The preallocation takes pages of one group. -/
theorem partitioned_reserveGroup (h : p.Partitioned) : (reserveGroup m p d).Partitioned := by
  rw [reserveGroup]
  split
  case h_1 => exact h
  case h_2 st hst =>
    dsimp only
    generalize min (min (minReservedPages - (st.dpGroupPages d).reservedVirtPageList.length)
      (st.dpGroupPages d).freeVirtPageList.length)
      (p.minFreePages (p.inDpGroup st d) / st.phyPagesPerVirtPage) = k
    split
    · exact h
    · generalize hr : (⟨m, d, (st.dpGroupPages d).freeVirtPageList.take k⟩ : Reservation) = r
      have hview : ∀ (q : PageAllocator) (m' : String), (q.addReservation r).view m' =
          { q.view m' with freed := fun d => r.pagesOf m' d + (q.view m').freed d } :=
        fun q m' => view_preallocTodo rfl (perm_append_singleton _ _) rfl rfl rfl rfl
      refine h.of_model hst (update_self ..) rfl rfl (fun m' hm' => ?_) fun hm => ?_
      · rw [hview, setGroup, view_setModel_of_ne hm', consumePhyPagesForDp]
        simp [Reservation.pagesOf, ← hr, hm'.symm]
      · rw [hview, setGroup, consumePhyPagesForDp]
        refine hm.of_group d rfl hm.pending hm.awake
          (fun d' hd' => by simp [hd', hd'.symm, Reservation.pagesOf, ← hr]) fun hg => ?_
        simpa [Reservation.pagesOf, ← hr, add_comm] using hg.reserve k

theorem partitioned_preallocScan (h : p.Partitioned) (order : List String) :
    IfOk (p.preallocScan order) Partitioned := by
  rw [preallocScan]
  split
  · refine List.foldlRecOn order reserveModel h fun q hq m _ => ?_
    rw [reserveModel]
    split
    · exact hq
    · split
      · exact hq
      · exact List.foldlRecOn _ _ hq fun q hq d _ => partitioned_reserveGroup hq
  · exact trivial

theorem partitioned_cancelReservation {r : Reservation}
    (hm : ModelInv p.dpSize st
      { p.view r.modelId with
        freed := fun d => r.pagesOf r.modelId d + (p.view r.modelId).freed d })
    (others : ∀ m, m ≠ r.modelId → (p.view m).Inv p.dpSize)
    (hslept : p.sleptAfterMapping = false) : (p.cancelReservation st r).Partitioned := by
  refine ⟨fun m => ?_, hslept⟩
  by_cases hr : m = r.modelId
  · subst hr
    refine (View.inv_of_state (update_self ..)).mpr ?_
    rw [cancelReservation, setGroup, releasePhyPagesForDp]
    refine hm.of_group r.dpRank rfl hm.pending hm.awake
      (fun d' hd' => by simp [hd', hd'.symm, Reservation.pagesOf]) fun hg => ?_
    simp only [Reservation.pagesOf] at hg
    simpa using hg.cancel
  · rw [cancelReservation, setGroup, view_setModel_of_ne hr]
    exact others m hr

theorem partitioned_preallocNext (h : p.Partitioned) : IfOk p.preallocNext Partitioned := by
  rw [preallocNext]
  split
  case h_2 => exact trivial
  case h_1 r todo hmapping htodo =>
    dsimp only
    have hview := fun m => view_preallocTodo (m := m) (p := p) (r := r)
      (q := { p with preallocTodo := todo }) rfl (htodo ▸ List.Perm.refl _) rfl rfl rfl rfl
    split
    case h_1 hnone =>
      -- a model that is not registered has no reservations
      have hfresh := h.model r.modelId
      rw [View.Inv, show (p.view r.modelId).state = none from hnone] at hfresh
      refine h.of_view_eq rfl rfl (funext fun m => ?_)
      rw [hview]
      by_cases hm : r.modelId = m
      · subst hm
        rw [hview] at hfresh
        have hzero : ∀ d, r.pagesOf r.modelId d = 0 := by
          intro d
          exact Multiset.le_zero.mp ((hfresh.1 d).2.1 ▸ Multiset.le_add_right _ _)
        simp [hzero]
      · simp [Reservation.pagesOf, hm]
    case h_2 st hst =>
      have hm := h.modelInv hst
      have others : ∀ m, m ≠ r.modelId → { p with preallocTodo := todo }.view m = p.view m := by
        intro m hr
        rw [hview]
        simp [Reservation.pagesOf, hr.symm]
      split
      · refine partitioned_cancelReservation ?_ (fun m hr => ?_) h.notSlept
        · rw [hview] at hm
          exact hm
        · rw [others m hr]
          exact h.model m
      case isFalse hawake =>
        rw [Bool.not_eq_true] at hawake
        refine h.of_model hst (update_self ..) rfl rfl (fun m hr => ?_) fun hm => ?_
        · rw [← others m hr]
          simp [view, setModel, funext_iff, allocFlight, freedFlight, mapOps, hmapping, hr, hr.symm,
            Reservation.mapsPage, Reservation.pagesOf]
        · refine ⟨?_, fun _ => hawake, fun d hd => ?_⟩
          · have hpending := hm.pending
            simp only [view, mapOps, hmapping] at hpending
            simp [view, mapOps, setModel, hpending, Reservation.mapsPage]
          · have hg := hm.group d hd
            simpa [view, setModel, allocFlight, freedFlight, hmapping, htodo] using hg

/-- Preallocated pages join the reserve, or are given back. -/
theorem partitioned_preallocMapped (h : p.Partitioned) (success : Bool) :
    IfOk (p.preallocMapped success) Partitioned := by
  rw [preallocMapped]
  split
  case h_1 => exact trivial
  case h_2 r hmapping =>
    dsimp only
    have hview : ∀ m, p.view m =
        { { p with preallocMapping := none }.view m with
          freed := fun d => r.pagesOf m d + ({ p with preallocMapping := none }.view m).freed d
          mapOps := r.mapsPage m + ({ p with preallocMapping := none }.view m).mapOps } := by
      intro m
      simp [view, funext_iff, allocFlight, freedFlight, mapOps, hmapping, add_left_comm, add_comm]
    have others : ∀ m, m ≠ r.modelId → { p with preallocMapping := none }.view m = p.view m := by
      intro m hr
      rw [hview]
      simp [Reservation.pagesOf, Reservation.mapsPage, hr.symm]
    split
    case h_1 hnone =>
      have hfresh := h.model r.modelId
      rw [View.Inv, show (p.view r.modelId).state = none from hnone, hview] at hfresh
      have hops := hfresh.2
      simp [Reservation.mapsPage] at hops
    case h_2 st hst =>
      have hm := h.modelInv hst
      rw [hview] at hm
      have hpending := hm.pending
      have hawake := hm.awake
      simp only [Reservation.mapsPage, if_pos] at hpending hawake
      have hsleeping : st.isSleeping = false := hawake (by omega)
      split
      · refine partitioned_cancelReservation ?_ (fun m hr => ?_) h.notSlept
        · rw [view_setModel]
          refine ⟨?_, fun _ => hsleeping, hm.group⟩
          dsimp only
          omega
        · rw [view_setModel_of_ne hr, others m hr]
          exact h.model m
      · refine h.of_model hst (update_self ..) rfl rfl (fun m hr => ?_) fun _ => ?_
        · rw [setGroup, view_setModel_of_ne hr, view_mapVirtPages, others m hr]
        · rw [setGroup, view_setModel, view_mapVirtPages]
          refine hm.of_group r.dpRank rfl ?_ (fun _ => hsleeping)
            (fun d' hd' => by simp [hd', hd'.symm, Reservation.pagesOf]) fun hg => ?_
          · simp only [ModelState.setGroup_pendingMapOps]
            omega
          · simp only [Reservation.pagesOf] at hg
            simpa using hg.keep

/-- Step lemma: every section of every call. -/
theorem partitioned_step (h : p.Partitioned) (op : Op) : IfOk (p.step op) Partitioned := by
  cases op with
  | registerModel m numLayers => exact partitioned_registerModel h numLayers
  | setModelParallelStrategy m dpSize tpSize =>
      exact partitioned_setModelParallelStrategy h dpSize tpSize
  | setWeightPagesCount m n => exact partitioned_setWeightPagesCount h n
  | allocKvCachePage m d => exact partitioned_allocKvCachePage h
  | freeBlocks m d ids => exact partitioned_freeBlocks h ids
  | trimKvCache m d => exact partitioned_trimKvCache h
  | allocWeightPages m n => exact partitioned_allocWeightPages h n
  | freeWeightPages m n success => exact partitioned_freeWeightPages h n success
  | sleepModel m skip => exact partitioned_sleepModel h skip
  | wakeupModel m => exact partitioned_wakeupModel h
  | resume i failed =>
      rw [step]
      split
      case h_1 => exact trivial
      case h_2 c hc =>
        obtain ⟨hi, rfl⟩ := List.getElem?_eq_some_iff.mp hc
        -- the call that goes on may stand in front of the others
        have hfront : ({ p with calls := p.calls.eraseIdx i }.addCall p.calls[i]).Partitioned :=
          h.of_view_eq rfl rfl (view_calls_perm (getElem_cons_eraseIdx_perm hi).symm)
        cases hcall : p.calls[i] with
        | allocMap m d page => exact partitioned_allocMapped (hcall ▸ hfront)
        | allocRecord m d page => exact partitioned_allocRecorded (hcall ▸ hfront)
        | unmap m d pages => exact partitioned_pagesUnmapped (hcall ▸ hfront)
        | sleepWait m skip =>
            rw [hcall, partitioned_addCall_iff ⟨fun _ _ => ⟨rfl, rfl⟩, fun _ => rfl⟩] at hfront
            exact partitioned_sleepWaited hfront skip
        | sleepWeights m n groups =>
            rw [hcall, partitioned_addCall_iff ⟨fun _ _ => ⟨rfl, rfl⟩, fun _ => rfl⟩] at hfront
            exact partitioned_sleepFreedWeights hfront n groups _
        | sleepUnmap m groups =>
            rw [hcall, partitioned_addCall_iff ⟨fun _ _ => ⟨rfl, rfl⟩, fun _ => rfl⟩] at hfront
            exact partitioned_sleepUnmapped hfront groups failed
        | wakeMap m n groups =>
            rw [hcall, partitioned_addCall_iff ⟨fun _ _ => ⟨rfl, rfl⟩, fun _ => rfl⟩] at hfront
            exact partitioned_wakeupMapped hfront n groups failed
        | weightAlloc m n =>
            rw [hcall, partitioned_addCall_iff ⟨fun _ _ => ⟨rfl, rfl⟩, fun _ => rfl⟩] at hfront
            rw [resume]
            split_ifs
            · exact hfront.of_view_eq rfl rfl rfl
            · exact hfront
  | preallocScan order => exact partitioned_preallocScan h order
  | preallocNext => exact partitioned_preallocNext h
  | preallocMapped success => exact partitioned_preallocMapped h success

/-- In every reachable state the free pages, the reserved pages, the allocated
pages and the pages in flight of a group are the pages `0, …, N - 1`, each once.
The counter of free pages is exact when no operation is in flight, and the
background thread has never found a model asleep after mapping its pages. -/
theorem run_pages_partitioned {numPhyPages dpSize maxWorldSize : Nat} {ops : List Op}
    (hrun : run step (init numPhyPages dpSize maxWorldSize) ops = .ok p) :
    (∀ m st, p.modelStates m = some st → ∀ d < p.dpSize,
      (st.dpGroupPages d).freeVirtPageList + (st.dpGroupPages d).reservedVirtPageList +
          (st.dpGroupPages d).allocatedVirtPageList + p.inFlight m d =
        Multiset.range st.numTotalVirtPages ∧
      (p.Quiescent → (st.dpGroupPages d).numFreeVirtPages =
        (st.dpGroupPages d).freeVirtPageList.length +
          (st.dpGroupPages d).reservedVirtPageList.length)) ∧
    p.sleptAfterMapping = false := by
  have hinv : p.Partitioned := by
    have h : Ensures (run step (init numPhyPages dpSize maxWorldSize) ops) (fun _ => True)
        Partitioned :=
      Ensures.run (fun q op hq => partitioned_step hq op)
        (partitioned_init numPhyPages dpSize maxWorldSize)
    exact h.of_ok hrun
  refine ⟨fun m st hst d hd => ?_, hinv.notSlept⟩
  have hg := (hinv.modelInv hst).group d hd
  refine ⟨hg.partition, fun hquiet => ?_⟩
  have hfreed : p.freedFlight m d = 0 := by
    simp [freedFlight, hquiet.1, hquiet.2.1, hquiet.2.2]
  have hnum := hg.numFree
  rw [show (p.view m).freed d = p.freedFlight m d from rfl, hfreed] at hnum
  simpa using hnum

/-- Two models share the workers. A mapping of one fails, the other one falls asleep
while the background thread holds reservations of both, and a page of the sleeping
model is freed. -/
theorem run_pages_partitioned_two_models :
    ∃ p, run step (init 24 1 1)
        [.registerModel "a" 1, .registerModel "b" 1, .allocKvCachePage "a" 0,
          .allocKvCachePage "b" 0, .resume 0 [0], .resume 0 [], .preallocScan ["b", "a"],
          .resume 0 [], .preallocNext, .sleepModel "a" true, .preallocMapped true, .preallocNext,
          .freeBlocks "a" 0 [0]] = .ok p ∧
      p.sleptAfterMapping = false := by
  have hrun : ∃ p, run step (init 24 1 1)
        [.registerModel "a" 1, .registerModel "b" 1, .allocKvCachePage "a" 0,
          .allocKvCachePage "b" 0, .resume 0 [0], .resume 0 [], .preallocScan ["b", "a"],
          .resume 0 [], .preallocNext, .sleepModel "a" true, .preallocMapped true, .preallocNext,
          .freeBlocks "a" 0 [0]] = .ok p := ⟨_, rfl⟩
  obtain ⟨p, hp⟩ := hrun
  exact ⟨p, hp, (run_pages_partitioned hp).2⟩

end PageAllocator

end Xllm
