import Xllm.XTensor.PhyPages.Accounted

/-!
# The preallocation thread

The thread reserves pages of awake models, maps them one reservation at a time and puts
them on the reserved lists. A reservation of a model that has fallen asleep is given up.
-/

namespace Xllm

open Contract Function Multiset

namespace PageAllocator

namespace PhyView

variable {v : PhyView} {r : Reservation} {st : ModelState} {d n : Nat}

@[simps mapped weights calls]
def addReservation (v : PhyView) (r : Reservation) : PhyView :=
  { v with reservations := r ::ₘ v.reservations }

@[simp] theorem flight_addReservation : (v.addReservation r).flight d =
    (if r.dpRank = d then (r.pages : Multiset Nat) else 0) + v.flight d := by
  simp only [flight, addReservation, map_cons, sum_cons]
  abel

@[simp] theorem kvPages_addReservation : (v.addReservation r).kvPages st d =
    (if r.dpRank = d then (r.pages : Multiset Nat) else 0).card + v.kvPages st d := by
  rw [kvPages, flight_addReservation, card_add, add_assoc]
  rfl

theorem mem_addReservation_self : r ∈ (v.addReservation r).reservations :=
  mem_cons_self r _

theorem mem_addReservation_of_mem {r' : Reservation} (h : r' ∈ v.reservations) :
    r' ∈ (v.addReservation r).reservations :=
  mem_cons_of_mem h

theorem addReservation_ne_zero : (v.addReservation r).reservations ≠ 0 := cons_ne_zero

theorem reserved_addReservation (hr : r.dpRank < n) (h : ∀ r ∈ v.reservations, r.dpRank < n) :
    ∀ r' ∈ (v.addReservation r).reservations, r'.dpRank < n :=
  Multiset.forall_mem_cons.mpr ⟨hr, h⟩

end PhyView

open PhyView

variable {p q : PageAllocator} {m m' : String} {d d' w n : Nat} {st st' : ModelState}

theorem phyView_reservation {r : Reservation}
    (hcalls : q.calls = p.calls) (hmapped : q.mapped = p.mapped)
    (hweights : q.weightsResident = p.weightsResident)
    (h : (q.preallocMapping.toList ++ q.preallocTodo).Perm
      (r :: (p.preallocMapping.toList ++ p.preallocTodo))) (m : String) :
    q.phyView m = if r.modelId = m then (p.phyView m).addReservation r else p.phyView m := by
  have hperm : (((q.preallocMapping.toList ++ q.preallocTodo).filter
      fun r => r.modelId = m : List Reservation) : Multiset Reservation) =
      ((r :: (p.preallocMapping.toList ++ p.preallocTodo)).filter
        fun r => r.modelId = m : List Reservation) := Multiset.coe_eq_coe.mpr (h.filter _)
  rw [phyView, hcalls, hmapped, hweights, hperm]
  split_ifs with hr
  · rw [List.filter_cons_of_pos (by simpa using hr)]
    rfl
  · rw [List.filter_cons_of_neg (by simpa using hr)]
    rfl

/-- The pages to be preallocated are consumed in advance. -/
theorem accounted_reserveGroup (h : p.Accounted) (hst : p.modelStates m = some st)
    (hawake : st.isSleeping = false) (hd : d < p.dpSize) : (reserveGroup m p d).Accounted := by
  rw [reserveGroup, hst]
  dsimp only
  have hphy := Nat.mul_le_of_le_div st.phyPagesPerVirtPage
    (min (min (minReservedPages - (st.dpGroupPages d).reservedVirtPageList.length)
      (st.dpGroupPages d).freeVirtPageList.length)
      (p.minFreePages (p.inDpGroup st d) / st.phyPagesPerVirtPage)) _ (min_le_right _ _)
  have hfree : min (min (minReservedPages - (st.dpGroupPages d).reservedVirtPageList.length)
      (st.dpGroupPages d).freeVirtPageList.length)
      (p.minFreePages (p.inDpGroup st d) / st.phyPagesPerVirtPage) ≤
        (st.dpGroupPages d).freeVirtPageList.length :=
    (min_le_left _ _).trans (min_le_right _ _)
  generalize min (min (minReservedPages - (st.dpGroupPages d).reservedVirtPageList.length)
    (st.dpGroupPages d).freeVirtPageList.length)
    (p.minFreePages (p.inDpGroup st d) / st.phyPagesPerVirtPage) = k at hphy hfree ⊢
  split
  · exact h
  · have hm := h.model m st hst
    generalize hr : (⟨m, d, (st.dpGroupPages d).freeVirtPageList.take k⟩ : Reservation) = r
    have hrm : r.modelId = m := hr ▸ rfl
    have hrd : r.dpRank = d := hr ▸ rfl
    have hrk : r.pages.length = k := by
      rw [← hr]
      exact List.length_take_of_le hfree
    have hview : ∀ (q : PageAllocator) (m' : String), (q.addReservation r).phyView m' =
        if r.modelId = m' then (q.phyView m').addReservation r else q.phyView m' := by
      intro q m'
      refine phyView_reservation (p := q) (q := q.addReservation r) rfl rfl rfl ?_ m'
      rw [PageAllocator.addReservation, ← List.append_assoc]
      exact List.perm_append_singleton _ _
    refine h.of_awake ⟨hst, update_self .., rfl,
        (show _ = (p.phyView m).addReservation r from (hview _ m).trans (if_pos hrm)),
        ⟨rfl, rfl, rfl, rfl⟩, fun m' hm' => ⟨update_of_ne hm' ..,
          (hview _ m').trans (if_neg (hrm ▸ hm'.symm))⟩⟩ hawake hd rfl hm.inRange
      (reserved_addReservation (hrd ▸ hd) hm.reserved) rfl rfl rfl
      (fun d' hd' => ⟨?_, rfl, rfl⟩) (fun hmapped => hmapped) 0 k ?_ (fun w => ?_) (fun w => ?_) rfl
    · rw [flight_addReservation, hrd, if_neg hd'.symm, zero_add]
    · rw [flight_addReservation, if_pos hrd, card_add, coe_card,
        listed, card_add, coe_card, coe_card]
      dsimp only
      omega
    · rw [Nat.zero_mul, ite_self]
      rfl
    · exact used_add_le_of_minFreePages h.used_le (fun w => lt_maxWorldSize_of_inDpGroup) hphy w

theorem reserveGroup_isSleeping (hst : p.modelStates m = some st) :
    ∃ st', (reserveGroup m p d).modelStates m = some st' ∧ st'.isSleeping = st.isSleeping ∧
      (reserveGroup m p d).dpSize = p.dpSize := by
  rw [reserveGroup, hst]
  dsimp only
  split
  · exact ⟨st, hst, rfl, rfl⟩
  · exact ⟨_, update_self .., rfl, rfl⟩

theorem accounted_reserveModel (h : p.Accounted) : (reserveModel p m).Accounted := by
  rw [reserveModel]
  split
  case h_1 => exact h
  case h_2 st hst =>
    split
    · exact h
    rename_i hawake
    rw [Bool.not_eq_true] at hawake
    have hfold := List.foldlRecOn
      (motive := fun q : PageAllocator => q.Accounted ∧ q.dpSize = p.dpSize ∧
        ∃ st, q.modelStates m = some st ∧ st.isSleeping = false)
      (List.range p.dpSize) (reserveGroup m) ⟨h, rfl, st, hst, hawake⟩ fun q hq d hd => by
        obtain ⟨hacc, hsize, st, hst, hawake⟩ := hq
        rw [List.mem_range, ← hsize] at hd
        obtain ⟨st', hst', hsleep, hsize'⟩ := reserveGroup_isSleeping (d := d) hst
        exact ⟨accounted_reserveGroup hacc hst hawake hd, hsize'.trans hsize, st', hst',
          hsleep.trans hawake⟩
    exact hfold.1

theorem accounted_preallocScan (h : p.Accounted) (order : List String) :
    IfOk (p.preallocScan order) Accounted := by
  rw [preallocScan]
  split
  · exact List.foldlRecOn order reserveModel h fun q hq m _ => accounted_reserveModel hq
  · exact trivial

/-- The background thread gives up a reservation of a model that is asleep. -/
theorem accounted_cancelReservation {r : Reservation} (h : q.Accounted)
    (hst : p.modelStates r.modelId = some st)
    (hq : q = { p with preallocTodo := q.preallocTodo })
    (hview : q.phyView r.modelId = (p.phyView r.modelId).addReservation r)
    (others : ∀ m, m ≠ r.modelId → q.phyView m = p.phyView m) :
    (p.cancelReservation st r).Accounted := by
  have hstates : q.modelStates r.modelId = some st := by rw [hq]; exact hst
  have hm := h.model r.modelId st hstates
  rw [hview] at hm
  have hrd : r.dpRank < q.dpSize := hm.reserved r mem_addReservation_self
  have hlists : SameLists st (st.setGroup r.dpRank { st.dpGroupPages r.dpRank with
      freeVirtPageList := r.pages ++ (st.dpGroupPages r.dpRank).freeVirtPageList }) :=
    SameLists.setGroup st.pendingMapOps rfl rfl
  refine h.of_release (n := r.pages.length) ⟨hstates, update_self .., hview,
    (show _ = p.phyView r.modelId from rfl), ?_, fun m' hm' => ⟨?_, ?_⟩⟩ rfl rfl hrd
    (fun d' hd' => ?_) ?_ ?_ ?_ ?_
  · rw [hq]
    exact ⟨rfl, rfl, rfl, rfl⟩
  · rw [hq]
    exact update_of_ne hm' ..
  · exact (others m' hm').symm
  · rw [hlists.kvPages_eq, kvPages_addReservation, if_neg hd'.symm, card_zero,
      Nat.zero_add]
  · rw [hlists.kvPages_eq, kvPages_addReservation, if_pos rfl, coe_card,
      Nat.add_comm]
  · rw [hq]
    rfl
  · rw [hq]
    rfl
  · exact hlists.modelSound ⟨hm.phase, hm.noAlloc, hm.inRange,
      fun r' hr' => hm.reserved r' (mem_addReservation_of_mem hr'), hm.weightCalls, hm.mapped⟩

theorem accounted_preallocNext (h : p.Accounted) : IfOk p.preallocNext Accounted := by
  rw [preallocNext]
  split
  case h_2 => exact trivial
  case h_1 r todo hmapping htodo =>
    dsimp only
    have hview : ∀ m, p.phyView m = if r.modelId = m
        then ({ p with preallocTodo := todo }.phyView m).addReservation r
        else { p with preallocTodo := todo }.phyView m := by
      intro m
      refine phyView_reservation (p := { p with preallocTodo := todo }) (q := p) rfl rfl rfl ?_ m
      rw [hmapping, htodo]
      exact List.Perm.refl _
    have hself := (hview r.modelId).trans (if_pos rfl)
    split
    case h_1 hnone =>
      have hreservations := (h.unregistered r.modelId hnone).2.1
      rw [hself] at hreservations
      exact absurd hreservations addReservation_ne_zero
    case h_2 st hst =>
      split
      · refine accounted_cancelReservation h hst rfl hself fun m hm => ?_
        rw [hview, if_neg hm.symm]
      · have hsame : ∀ m', ({ p with preallocTodo := todo, preallocMapping := some r }.setModel
            r.modelId { st with pendingMapOps := st.pendingMapOps + 1 }).phyView m' =
              p.phyView m' := by
          intro m'
          simp [phyView, hmapping, htodo, setModel]
        exact h.of_sameLists ⟨hst, update_self .., rfl, hsame _, ⟨rfl, rfl, rfl, rfl⟩,
          fun m' hm' => ⟨update_of_ne hm' .., hsame m'⟩⟩ ⟨rfl, fun _ => rfl, fun _ => rfl⟩
          rfl rfl rfl

/-- Mapped pages are charged to the reserve of their group. -/
theorem accounted_preallocMapped (hp : p.Partitioned) (h : p.Accounted) :
    IfOk (p.preallocMapped true) Accounted := by
  rw [preallocMapped]
  split
  case h_1 => exact trivial
  case h_2 r hmapping =>
    dsimp only
    have hview : ∀ m, p.phyView m = if r.modelId = m
        then ({ p with preallocMapping := none }.phyView m).addReservation r
        else { p with preallocMapping := none }.phyView m := by
      intro m
      refine phyView_reservation (p := { p with preallocMapping := none }) (q := p) rfl rfl rfl ?_ m
      rw [hmapping]
      exact List.Perm.refl _
    have hself := (hview r.modelId).trans (if_pos rfl)
    split
    case h_1 hnone =>
      have hreservations := (h.unregistered r.modelId hnone).2.1
      rw [hself] at hreservations
      exact absurd hreservations addReservation_ne_zero
    case h_2 st hst =>
      have hawake : st.isSleeping = false := by
        refine (hp.modelInv hst).awake ?_
        simp [view, mapOps, hmapping, Reservation.mapsPage]
      have hm := h.model r.modelId st hst
      rw [hself] at hm
      have hrd : r.dpRank < p.dpSize := hm.reserved r mem_addReservation_self
      rw [if_pos hawake]
      refine h.of_awake ⟨hst, update_self .., hself,
          (congrFun (phyView_setGroup _) _).trans phyView_mapVirtPages, ⟨rfl, rfl, rfl, rfl⟩,
          fun m' hm' => ⟨update_of_ne hm' .., ?_⟩⟩ hawake hrd rfl hm.inRange
        (fun r' hr' => hm.reserved r' (mem_addReservation_of_mem hr')) rfl rfl rfl
        (fun d' hd' => ⟨?_, update_of_ne hd' .., rfl⟩) (fun hmapped => ?_) 0 0 ?_
        (fun w => rfl) h.used_le rfl
      · rw [hview, if_neg hm'.symm, phyView_setGroup]
        exact phyView_mapVirtPages_of_ne hm'
      · rw [flight_addReservation, if_neg hd'.symm, zero_add]
        rfl
      · change p.mapped r.modelId r.dpRank = _ at hmapped
        dsimp only
        rw [update_self]
        change p.mapped r.modelId r.dpRank ∪ r.pages.toFinset = _
        rw [hmapped]
        ext x
        simp only [listed, toFinset_add, mem_toFinset, Finset.mem_union,
          mem_coe, List.mem_toFinset, List.mem_append]
        tauto
      · rw [flight_addReservation, if_pos rfl, card_add, coe_card,
          listed, card_add, coe_card, coe_card,
          List.length_append]
        change (({ p with preallocMapping := none }.phyView r.modelId).flight r.dpRank).card +
          (((st.dpGroupPages r.dpRank).reservedVirtPageList.length + r.pages.length) +
            (st.dpGroupPages r.dpRank).allocatedVirtPageList.length) + 0 = _
        omega

end PageAllocator

end Xllm
