import Xllm.XTensor.PhyPages.Accounted

/-!
# Pages of the key-value cache

`alloc_kv_cache_page`, `free_kv_cache_pages` and `trim_kv_cache` keep the accounting,
in each of their sections.
-/

namespace Xllm

open Contract List Function Multiset

namespace PageAllocator

open PhyView

variable {p q : PageAllocator} {m m' : String} {d d' w n : Nat} {st st' : ModelState}

/-- The page to be mapped is paid for in advance. -/
theorem accounted_allocKvCachePage (hp : p.Partitioned) (h : p.Accounted) :
    IfOk (p.allocKvCachePage m d) Accounted := by
  rw [allocKvCachePage]
  split
  case h_1 => exact trivial
  case h_2 st hst =>
    split
    · exact trivial
    rename_i hstop
    obtain ⟨hd, hawake⟩ := not_or.mp hstop
    rw [not_le] at hd
    rw [Bool.not_eq_true] at hawake
    dsimp only
    have hm := h.model m st hst
    have hg := (hp.modelInv hst).group d hd
    split
    case h_1 page rest hreserved =>
      have hpage : page ∉ (st.dpGroupPages d).allocatedVirtPageList :=
        hg.not_mem_allocated (by simp [hreserved])
      -- the page goes from one list to the other
      have hlists : (rest : Multiset Nat) +
          ((st.dpGroupPages d).allocatedVirtPageList.insert page : List Nat) =
            listed st d := by
        rw [listed, hreserved, GroupInv.coe_insert_of_not_mem hpage, ← cons_coe,
          ← singleton_add]
        abel
      refine h.of_awake ⟨hst, update_self .., rfl, (show _ = p.phyView m from rfl),
          ⟨rfl, rfl, rfl, rfl⟩, fun m' hm' => ⟨update_of_ne hm' .., rfl⟩⟩ hawake hd rfl
        hm.inRange hm.reserved rfl rfl rfl (fun _ _ => ⟨rfl, rfl, rfl⟩) (fun hmapped => ?_) 0 0 ?_
          (fun w => rfl)
        h.used_le rfl
      · rw [hlists]
        exact hmapped
      · rw [← hlists, card_add, coe_card, coe_card]
    case h_2 page rest hreserved hfree =>
      split
      case isTrue hfreePages =>
        refine h.of_groupCall ⟨hst, update_self .., rfl,
            phyView_addCall (c := .allocMap m d page), ⟨rfl, rfl, rfl, rfl⟩,
            fun m' hm' => ⟨update_of_ne hm' .., phyView_addCall_of_ne hm'⟩⟩ hawake hd rfl
          rfl rfl hd (fun d' hd' => ⟨if_neg hd'.symm, rfl⟩) (add_zero _) 1 ?_ (fun w => ?_)
          (fun w => ?_) rfl
        · simp [Call.flightPages, Call.mappedPages]
        · rw [Nat.one_mul]
          rfl
        · exact used_add_le_of_minFreePages h.used_le (fun w => lt_maxWorldSize_of_inDpGroup)
            hfreePages w
      · exact h
    case h_3 => exact h

theorem accounted_allocMapped {page : Nat}
    (h : (p.addCall (.allocMap m d page)).Accounted) :
    IfOk (p.allocMapped m d page true) Accounted := by
  rw [allocMapped]
  split
  case h_1 => exact trivial
  case h_2 st hst =>
    have hv : (p.addCall (.allocMap m d page)).phyView m =
        (p.phyView m).addCall (.allocMap m d page) := phyView_addCall
    have hm := h.model m st hst
    rw [hv] at hm
    have hd : d < p.dpSize := hm.inRange (.allocMap m d page) mem_addCall_self
    have hawake : st.isSleeping = false := by
      refine Bool.eq_false_iff.mpr fun hsleep => ?_
      cases hm.noAlloc hsleep (.allocMap m d page) mem_addCall_self
    have hgroup : ({ st with pendingMapOps := st.pendingMapOps - 1 } : ModelState) =
        { st with pendingMapOps := st.pendingMapOps - 1 }.setGroup d (st.dpGroupPages d) := by
      simp [ModelState.setGroup]
    rw [hgroup]
    refine h.of_awake ⟨hst, update_self .., hv,
        (show _ = PhyView.addCall { p.phyView m with
            mapped := update (p.phyView m).mapped d
              ((p.phyView m).mapped d ∪ [page].toFinset) } (.allocRecord m d page) from
          phyView_addCall.trans (congrArg (PhyView.addCall · _) phyView_mapVirtPages)),
        ⟨rfl, rfl, rfl, rfl⟩,
        fun m' hm' => ⟨update_of_ne hm' .., ?_⟩⟩ hawake hd
      ((transitions_addCall rfl).trans (transitions_addCall rfl).symm)
      (inRange_addCall (c := .allocRecord m d page) hd
        fun c hc => hm.inRange c (mem_addCall_of_mem hc))
      hm.reserved ((mapsWeights_addCall rfl).trans (mapsWeights_addCall rfl).symm)
      (weightPages_addCall.trans weightPages_addCall.symm) rfl
      (fun d' hd' => ⟨?_, update_of_ne hd' .., ?_⟩) (fun hmapped => ?_) 0 0 ?_
      (fun w => rfl) h.used_le rfl
    · rw [phyView_addCall_of_ne hm', phyView_mapVirtPages_of_ne hm', phyView_addCall_of_ne hm',
        phyView_setModel]
    · rw [flight_addCall, flight_addCall]
      rfl
    · rw [mappedSum_addCall, mappedSum_addCall]
      simp [Call.mappedPages, hd'.symm]
    · rw [mappedSum_addCall] at hmapped ⊢
      simp only [Call.mappedPages] at hmapped ⊢
      simp only [PhyView.addCall] at hmapped ⊢
      rw [hmapped]
      ext x
      simp [listed]
    · rw [flight_addCall, flight_addCall, listed, card_add,
        card_add, card_add]
      rfl

theorem accounted_allocRecorded {page : Nat}
    (hp : (p.addCall (.allocRecord m d page)).Partitioned)
    (h : (p.addCall (.allocRecord m d page)).Accounted) :
    IfOk (p.allocRecorded m d page) Accounted := by
  rw [allocRecorded]
  split
  case h_1 => exact trivial
  case h_2 st hst =>
    have hv : (p.addCall (.allocRecord m d page)).phyView m =
        (p.phyView m).addCall (.allocRecord m d page) := phyView_addCall
    have hm := h.model m st hst
    rw [hv] at hm
    have hd : d < p.dpSize := hm.inRange (.allocRecord m d page) mem_addCall_self
    have hawake : st.isSleeping = false := by
      refine Bool.eq_false_iff.mpr fun hsleep => ?_
      cases hm.noAlloc hsleep (.allocRecord m d page) mem_addCall_self
    have hg := (hp.modelInv hst).group d hd
    have hpage : page ∉ (st.dpGroupPages d).allocatedVirtPageList :=
      hg.not_mem_allocated (by simp [view_addCall, Call.allocPages])
    refine h.of_awake ⟨hst, update_self .., hv, (show _ = p.phyView m from rfl),
        ⟨rfl, rfl, rfl, rfl⟩,
        fun m' hm' => ⟨update_of_ne hm' .., (phyView_addCall_of_ne hm').symm⟩⟩ hawake hd
      (transitions_addCall rfl).symm
      (fun c hc => hm.inRange c (mem_addCall_of_mem hc)) hm.reserved
      (mapsWeights_addCall rfl).symm
      (weightPages_addCall.trans (Nat.zero_add _)).symm rfl
      (fun d' hd' => ⟨?_, rfl, ?_⟩) (fun hmapped => ?_) 0 0 ?_ (fun w => rfl) h.used_le rfl
    · rw [flight_addCall]
      simp [Call.flightPages, hd'.symm]
    · rw [mappedSum_addCall]
      simp [Call.mappedPages, hd'.symm]
    · rw [mappedSum_addCall, addCall_mapped,
        show (Call.allocRecord m d page).mappedPages d = {page} from if_pos rfl] at hmapped
      rw [hmapped]
      ext x
      simp only [listed, toFinset_add, Multiset.mem_toFinset, Finset.mem_union,
        Multiset.mem_singleton, mem_coe, mem_insert_iff]
      tauto
    · rw [flight_addCall, insert_of_not_mem hpage]
      simp only [listed, Call.flightPages, if_pos, card_add,
        card_singleton, coe_card, length_cons]
      omega

/-- Pages that leave the lists stay charged until they are unmapped. -/
theorem accounted_freeBlocks (hp : p.Partitioned) (h : p.Accounted) (ids : List Nat)
    (hawake : ∀ st, p.modelStates m = some st → st.isSleeping = false) :
    IfOk (p.freeBlocks m d ids) Accounted := by
  rw [freeBlocks, freeKvCachePages]
  generalize hpages : (ids.dedup.filter fun page => page ∈ p.blockManagerPages m d) = pages
  have hnodup : pages.Nodup := hpages ▸ (List.nodup_dedup ids).filter _
  have hheld : pages ⊆ p.blockManagerPages m d := by
    intro page hpage
    rw [← hpages, List.mem_filter] at hpage
    exact of_decide_eq_true hpage.2
  dsimp only
  split
  case h_1 => exact trivial
  case h_2 st hst =>
    split
    · exact trivial
    rename_i hstop
    have hd : d < p.dpSize := not_le.mp hstop
    have hawake := hawake st hst
    have hm := h.model m st hst
    have hg := (hp.modelInv hst).group d hd
    generalize (if st.isSleeping = true then 0
      else min (numToReserve (st.dpGroupPages d)) pages.length) = kept
    -- the pages leave the allocated pages for the reserved list and the call
    have hlists : (((st.dpGroupPages d).reservedVirtPageList ++ pages.take kept : List Nat) :
        Multiset Nat) + ((st.dpGroupPages d).allocatedVirtPageList.diff pages : List Nat) +
          (pages.drop kept : List Nat) = listed st d := by
      have hpart := (hg.free hnodup hheld kept).partition
      rw [← hg.partition] at hpart
      refine add_left_cancel (a := ((st.dpGroupPages d).freeVirtPageList : Multiset Nat) +
        ((p.view m).alloc d + (p.view m).freed d)) ?_
      rw [listed]
      calc _ = _ := by abel
        _ = _ := hpart
        _ = _ := by abel
    split
    case isTrue hnil =>
      rw [hnil, coe_nil, add_zero] at hlists
      refine h.of_awake ⟨hst, update_self .., rfl, (show _ = p.phyView m from rfl),
          ⟨rfl, rfl, rfl, rfl⟩, fun m' hm' => ⟨update_of_ne hm' .., rfl⟩⟩ hawake hd rfl
        hm.inRange hm.reserved rfl rfl rfl (fun _ _ => ⟨rfl, rfl, rfl⟩) (fun hmapped => ?_) 0 0 ?_
          (fun w => rfl)
        h.used_le rfl
      · rw [hlists]
        exact hmapped
      · rw [← hlists, card_add, coe_card, coe_card]
    case isFalse =>
      exact h.of_groupCall ⟨hst, update_self .., rfl,
          phyView_addCall (c := .unmap m d (pages.drop kept)), ⟨rfl, rfl, rfl, rfl⟩,
          fun m' hm' => ⟨update_of_ne hm' .., phyView_addCall_of_ne hm'⟩⟩ hawake hd rfl
        rfl rfl hd (fun d' hd' => ⟨if_neg hd'.symm, if_neg hd'.symm⟩)
        ((congrArg _ (if_pos rfl)).trans hlists) 0 rfl (fun w =>
          by rw [Nat.zero_mul, ite_self]; rfl)
        h.used_le rfl

/-- The reserve of a group is charged to the call that unmaps it. -/
theorem accounted_trimKvCache (h : p.Accounted)
    (hawake : ∀ st, p.modelStates m = some st → (st.dpGroupPages d).reservedVirtPageList ≠ [] →
      st.isSleeping = false) : IfOk (p.trimKvCache m d) Accounted := by
  rw [trimKvCache]
  split
  case h_1 => exact trivial
  case h_2 st hst =>
    split
    · exact trivial
    rename_i hstop
    have hd : d < p.dpSize := not_le.mp hstop
    have hm := h.model m st hst
    dsimp only
    split
    case isTrue => exact h
    case isFalse hreserved =>
      refine h.of_groupCall ⟨hst, update_self .., rfl,
          phyView_addCall (c := .unmap m d (st.dpGroupPages d).reservedVirtPageList),
          ⟨rfl, rfl, rfl, rfl⟩,
          fun m' hm' => ⟨update_of_ne hm' .., phyView_addCall_of_ne hm'⟩⟩
        (hawake st hst hreserved) hd rfl rfl rfl hd
        (fun d' hd' => ⟨if_neg hd'.symm, if_neg hd'.symm⟩) ?_ 0 rfl
        (fun w => by rw [Nat.zero_mul, ite_self]; rfl) h.used_le rfl
      rw [Call.mappedPages, if_pos rfl, listed, coe_nil, zero_add, add_comm]
theorem accounted_freeBlocks_none (h : p.Accounted) {ids : List Nat}
    (hnone : ∀ id ∈ ids, id ∉ p.blockManagerPages m d) : IfOk (p.freeBlocks m d ids) Accounted := by
  have hpages : (ids.dedup.filter fun page => page ∈ p.blockManagerPages m d) = [] := by
    rw [filter_eq_nil_iff]
    intro page hpage
    simpa using hnone page (List.mem_dedup.mp hpage)
  rw [freeBlocks, freeKvCachePages, hpages]
  dsimp only
  split
  case h_1 => exact trivial
  case h_2 st hst =>
    split
    · exact trivial
    · rw [drop_nil, take_nil, append_nil]
      exact h.of_sameLists ⟨hst, update_self .., rfl, rfl, ⟨rfl, rfl, rfl, rfl⟩,
        fun m' hm' => ⟨update_of_ne hm' .., rfl⟩⟩ (SameLists.setGroup _ rfl rfl) rfl rfl rfl

theorem sum_map_filter_eq {α M : Type} [AddCommMonoid M] (l : List α) (keep : α → Prop)
    [DecidablePred keep] (f : α → M) (hf : ∀ a, ¬keep a → f a = 0) :
    ((l.filter keep).map f).sum = (l.map f).sum := by
  induction l with
  | nil => rfl
  | cons a l ih =>
      by_cases ha : keep a
      · rw [List.filter_cons_of_pos (by simpa using ha), List.map_cons, List.map_cons,
          List.sum_cons, List.sum_cons, ih]
      · rw [List.filter_cons_of_neg (by simpa using ha), List.map_cons, List.sum_cons, ih,
          hf a ha, zero_add]

theorem inFlight_eq_flight (p : PageAllocator) (m : String) (d : Nat) :
    p.inFlight m d = (p.phyView m).flight d := by
  have halloc := sum_map_filter_eq p.calls (fun c => c.modelId = m) (fun c => c.allocPages m d)
    fun c hc => Call.allocPages_of_ne hc
  have hfreed := sum_map_filter_eq p.calls (fun c => c.modelId = m) (fun c => c.freedPages m d)
    fun c hc => Call.freedPages_of_ne hc
  have hreserved := sum_map_filter_eq (p.preallocMapping.toList ++ p.preallocTodo)
    (fun r => r.modelId = m) (fun r => r.pagesOf m d) fun r hr => if_neg fun h => hr h.1
  have hcalls : ((p.phyView m).calls.map fun c => c.flightPages d).sum =
      ((p.phyView m).calls.map fun c => c.allocPages m d).sum +
        ((p.phyView m).calls.map fun c => c.freedPages m d).sum := by
    rw [← Multiset.sum_map_add]
    refine congrArg Multiset.sum (Multiset.map_congr rfl fun c hc => ?_)
    have hcm : c.modelId = m := by simpa using (List.mem_filter.mp (Multiset.mem_coe.mp hc)).2
    rw [Call.flightPages_eq, hcm]
  have hreservations : ((p.phyView m).reservations.map fun r =>
        if r.dpRank = d then (r.pages : Multiset Nat) else 0).sum =
      ((p.phyView m).reservations.map fun r => r.pagesOf m d).sum := by
    refine congrArg Multiset.sum (Multiset.map_congr rfl fun r hr => ?_)
    have hrm : r.modelId = m := by simpa using (List.mem_filter.mp (Multiset.mem_coe.mp hr)).2
    simp [Reservation.pagesOf, hrm]
  rw [flight, hcalls, hreservations, inFlight, allocFlight, freedFlight, ← halloc,
    ← hfreed, ← hreserved, add_assoc]
  rfl

theorem nodup_mappedPages (hp : p.Partitioned) (hst : p.modelStates m = some st)
    (hd : d < p.dpSize) : ((p.phyView m).mappedPages st d).Nodup := by
  have hg := ((hp.modelInv hst).group d hd).nodup
  have hle : (p.phyView m).mappedPages st d ≤
      listed st d + (p.phyView m).flight d := by
    refine add_le_add ?_ ((?_ : _ ≤ _).trans (Multiset.le_add_right _ _))
    · split_ifs
      · exact le_refl _
      · exact Multiset.zero_le _
    · refine sum_map_le_sum_map _ _ fun c _ => ?_
      cases c <;> simp [Call.mappedPages, Call.flightPages]
  refine nodup_of_le hle ?_
  rw [← inFlight_eq_flight]
  have hsplit : ((st.dpGroupPages d).freeVirtPageList : Multiset Nat) +
      (st.dpGroupPages d).reservedVirtPageList + (st.dpGroupPages d).allocatedVirtPageList +
        ((p.view m).alloc d + (p.view m).freed d) =
      (st.dpGroupPages d).freeVirtPageList + (listed st d + p.inFlight m d) := by
    rw [listed, inFlight]
    abel
  rw [hsplit] at hg
  exact (Multiset.nodup_add.mp hg).2.1

theorem toFinset_add_sdiff {pages : List Nat} {rest : Multiset Nat}
    (h : ((pages : Multiset Nat) + rest).Nodup) :
    ((pages : Multiset Nat) + rest).toFinset \ pages.toFinset = rest.toFinset := by
  have hdisjoint := (Multiset.nodup_add.mp h).2.2
  ext x
  simp only [toFinset_add, Finset.mem_sdiff, Finset.mem_union, Multiset.mem_toFinset,
    List.mem_toFinset]
  have := fun hx : x ∈ (pages : Multiset Nat) => Multiset.disjoint_left.mp hdisjoint hx
  tauto

/-- The two states of a model agree on the pages that are mapped. -/
theorem accounted_pagesUnmapped {pages : List Nat}
    (hp : (p.addCall (.unmap m d pages)).Partitioned)
    (h : (p.addCall (.unmap m d pages)).Accounted) :
    IfOk (p.pagesUnmapped m d pages true) Accounted := by
  rw [pagesUnmapped]
  split
  case h_1 => exact trivial
  case h_2 st hst =>
    have hv : (p.addCall (.unmap m d pages)).phyView m =
        (p.phyView m).addCall (.unmap m d pages) := phyView_addCall
    have hm := h.model m st hst
    rw [hv] at hm
    have hd : d < p.dpSize := hm.inRange (.unmap m d pages) mem_addCall_self
    have hlists : SameLists st (st.setGroup d { st.dpGroupPages d with
        freeVirtPageList := (st.dpGroupPages d).freeVirtPageList ++ pages }) :=
      SameLists.setGroup st.pendingMapOps rfl rfl
    have hnodup := nodup_mappedPages hp hst hd
    rw [hv, mappedPages_addCall rfl,
      show (Call.unmap m d pages).mappedPages d = pages from if_pos rfl] at hnodup
    refine h.of_release (n := pages.length) ⟨hst, update_self .., hv,
        phyView_unmapVirtPages, ⟨rfl, rfl, rfl, rfl⟩,
        fun m' hm' => ⟨update_of_ne hm' .., ?_⟩⟩ rfl
      (weightPages_addCall.trans (Nat.zero_add _)).symm hd
      (fun d' hd' => ?_) ?_ rfl rfl ?_
    · rw [phyView_unmapVirtPages_of_ne hm', phyView_addCall_of_ne hm']
      rfl
    · rw [hlists.kvPages_eq, kvPages_addCall rfl]
      simp [Call.flightPages, hd'.symm]
      rfl
    · rw [hlists.kvPages_eq, kvPages_addCall rfl,
        show (Call.unmap m d pages).flightPages d = pages from if_pos rfl,
        Nat.add_comm]
      rfl
    · refine hlists.modelSound (hm.of_addCall rfl rfl rfl ?_ fun d' hd' => ?_)
      · have hw := hm.weightCalls
        exact hw
      · have hmapped := hm.mapped d' hd'
        rw [mappedPages_addCall rfl, addCall_mapped] at hmapped
        change update (p.phyView m).mapped d ((p.phyView m).mapped d \ pages.toFinset) d' =
          ((p.phyView m).mappedPages st d').toFinset
        by_cases hdd : d' = d
        · subst hdd
          rw [show (Call.unmap m d' pages).mappedPages d' = pages from if_pos rfl] at hmapped
          rw [update_self, hmapped]
          exact toFinset_add_sdiff hnodup
        · rw [update_of_ne hdd, hmapped]
          simp [Call.mappedPages, Ne.symm hdd]

end PageAllocator

end Xllm
