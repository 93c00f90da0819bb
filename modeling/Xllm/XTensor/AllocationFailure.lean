import Xllm.XTensor.BlockManager

/-!
# A failing allocation of XTensor blocks

`alloc_kv_cache_page` can give a null pointer or throw while `alloc_internal` already holds
blocks. The null pointer ends in a shorter answer, whose handles bring the blocks back; the
exception leaves `allocate` with the blocks in a local vector. `try_to_reserve` takes any
answer that is not empty for a success.
-/

namespace Xllm.XTensorBlocks

open Contract List

/-- A page that `PageAllocator` refuses. -/
inductive Refusal where
  | null
  | throws

/-- How `PageAllocator` refuses one of the new pages for `remaining` blocks, and how many blocks
are missing by then. -/
def answersRefusal (g : Geometry) : Nat → List PageAnswer → Option (Refusal × Nat)
  | 0, _ => none
  | _ + 1, [] => none
  | remaining + 1, .null :: _ => some (.null, remaining + 1)
  | remaining + 1, .throws :: _ => some (.throws, remaining + 1)
  | remaining + 1, .page pageId :: answers =>
      if g.blocks pageId = [] then none
      else answersRefusal g (remaining + 1 - (g.blocks pageId).length) answers

/-- How `PageAllocator` refuses a page when the pages that are at hand come first. -/
def refusal (g : Geometry) (answers : List PageAnswer) :
    List VirtPage → Nat → Option (Refusal × Nat)
  | [], remaining => answersRefusal g remaining answers
  | _ :: _, 0 => none
  | p :: rest, remaining + 1 =>
      if p.freeList = [] then none
      else refusal g answers rest (remaining + 1 - p.freeList.length)

namespace Manager

variable {g : Geometry} {m m' : Manager} {out : List Nat}

def Delivers (numBlocks : Nat) (outcome : Outcome) : Prop :=
  ∃ ids, outcome = .ids ids ∧ ids.Nodup ∧ ids.length = numBlocks

/-- The handles of some blocks are dropped one after another. -/
def dropAll (g : Geometry) (m : Manager) (ids : List Nat) : Except NotARun Manager :=
  run (fun m b => m.drop g b) m ids

/-- All blocks that a call took are free again, and the pages have the free blocks that they
had. The page of a free block may have gone back as a whole. -/
structure Restored (g : Geometry) (m : Manager) (taken : List Nat) (m' : Manager) : Prop where
  free : ∀ b ∈ taken, b ∈ m'.freeOf ∨ b ∈ m'.reservedBlocks ∨ b ∉ m'.blocksOf g
  unused : ∀ b ∈ taken, b ∉ m'.handedOut ∧ b ∉ m'.lost
  numAvail : m'.numAvailBlocks = m.numAvailBlocks
  same_free : m'.freeOf.Perm m.freeOf

/-- An allocation that fails because `PageAllocator` refuses a page is undone when its handles
are dropped, and it is no exception once a block has been taken. -/
def AllocationClean (g : Geometry) (m : Manager) (numBlocks : Nat) :
    Outcome → Manager → Prop
  | .ids ids, m' => ¬ Delivers numBlocks (.ids ids) →
      ∃ m₁, dropAll g m' ids = .ok m₁ ∧ Restored g m ids m₁
  | .thrown .noFreePages taken, _ => taken = []
  | .thrown .virtPage _, _ => True

/-- A reservation is complete or adds nothing. -/
def ReservationClean (m : Manager) (needSize : Nat) (reservation : Reservation) (m' : Manager) :
    Prop :=
  match reservation with
  | .answer true => needSize ≤ m'.reservedBlocks.length
  | _ => ∀ b ∈ m'.reservedBlocks, b ∈ m.reservedBlocks

def LeaksNothing (g : Geometry) (m : Manager) (n reservedPages : Nat)
    (answers : List PageAnswer) : Prop :=
  (∀ outcome m', m.allocate g n answers = .ok (outcome, m') →
    AllocationClean g m n outcome m') ∧
  (∀ reservation m', m.tryToReserve g n reservedPages answers = .ok (reservation, m') →
    ReservationClean m n reservation m')

/-- A page that has a reserved block has only reserved blocks. -/
def ReservedWhole (g : Geometry) (m : Manager) : Prop :=
  ∀ pageId, ∀ b ∈ g.blocks pageId, ∀ c ∈ g.blocks pageId,
    b ∈ m.reservedBlocks → c ∈ m.reservedBlocks

/-- What a refusal must find. The blocks in `reserved_blocks_` go out first. -/
def RefusedInTime (g : Geometry) (m : Manager) (n reservedPages : Nat)
    (answers : List PageAnswer) : Prop :=
  match refusal g answers m.availPages (n - m.reservedBlocks.length) with
  | none => True
  | some (.throws, missing) => missing = n
  | some (.null, missing) =>
      ReservedWhole g m ∧ (missing = n ∨ m.availableSize g reservedPages < n)

variable {answers rest : List PageAnswer} {fuel need : Nat} {retIndex : List Nat}
  {outcome : Outcome}

def Predicted (retIndex : List Nat) (need : Nat) (outcome : Outcome) :
    Option (Refusal × Nat) → Prop
  | none => (∃ ids, outcome = .ids ids ∧ ids.length = retIndex.length + need) ∨
      ∃ taken, outcome = .thrown .virtPage taken
  | some (.null, missing) =>
      0 < missing ∧ ∃ ids, outcome = .ids ids ∧ ids.length + missing = retIndex.length + need
  | some (.throws, missing) =>
      0 < missing ∧ ∃ taken, outcome = .thrown .noFreePages taken ∧
        taken.length + missing = retIndex.length + need

theorem Predicted.later {allocated : List Nat} {prediction : Option (Refusal × Nat)}
    (at_most : allocated.length ≤ need)
    (h : Predicted (retIndex ++ allocated) (need - allocated.length) outcome prediction) :
    Predicted retIndex need outcome prediction := by
  have total : (retIndex ++ allocated).length + (need - allocated.length) =
      retIndex.length + need := by
    rw [length_append]
    omega
  cases prediction with
  | none =>
      rw [Predicted, total] at h
      exact h
  | some refused =>
      obtain ⟨how, missing⟩ := refused
      cases how <;> rw [Predicted, total] at h <;> exact h

@[simp] theorem refusal_zero (pages : List VirtPage) : refusal g answers pages 0 = none := by
  cases pages with
  | nil => rw [refusal, answersRefusal]
  | cons p rest => rw [refusal]

theorem sub_length_take (need : Nat) (xs : List Nat) :
    need - (xs.take (min xs.length need)).length = need - xs.length := by
  rw [length_take]
  omega

theorem Going.refusal_eq {allocated : List Nat} {next : Manager}
    (going : Going g m (need + 1) answers allocated next rest) :
    refusal g rest next.availPages (need + 1 - allocated.length) =
      refusal g answers m.availPages (need + 1) := by
  cases going with
  | @front p others _ avail has =>
      rw [avail, refusal, sub_length_take, takeFront]
      split
      · rfl
      · rename_i left
        have short : need + 1 - p.freeList.length = 0 := by
          have cut : ¬ p.freeList.length ≤ min p.freeList.length (need + 1) :=
            fun all => left (List.drop_eq_nil_iff.mpr all)
          omega
        rw [short, refusal_zero, refusal_zero]
  | @new pageId p _ avail fresh init has =>
      obtain ⟨rfl, -⟩ := init_some init
      rw [avail, refusal, answersRefusal, sub_length_take, takeFront]
      split
      · rfl
      · rename_i left
        have short : need + 1 - (g.blocks pageId).length = 0 := by
          have cut : ¬ (g.blocks pageId).length ≤ min (g.blocks pageId).length (need + 1) :=
            fun all => left (List.drop_eq_nil_iff.mpr all)
          omega
        rw [short, refusal_zero, answersRefusal]

theorem blocks_of_init_none {pageId : Nat} (init : VirtPage.init g pageId = none) :
    g.blocks pageId = [] := by
  rw [VirtPage.init] at init
  split at init
  · apply List.length_eq_zero_iff.mp
    rw [Geometry.length_blocks]
    omega
  · cases init

theorem Ending.predicted (ending : Ending g m retIndex answers outcome m') :
    Predicted retIndex (need + 1) outcome (refusal g answers m.availPages (need + 1)) := by
  cases ending with
  | blocklessFront avail none =>
      rw [avail, refusal, if_pos none]
      exact .inr ⟨retIndex, rfl⟩
  | null avail =>
      rw [avail]
      exact ⟨Nat.succ_pos need, retIndex, rfl, rfl⟩
  | throws avail =>
      rw [avail]
      exact ⟨Nat.succ_pos need, retIndex, rfl, rfl⟩
  | noRange avail fresh init =>
      rw [avail, refusal, answersRefusal, if_pos (blocks_of_init_none init)]
      exact .inr ⟨retIndex, rfl⟩
  | blockless avail fresh init none =>
      obtain ⟨rfl, -⟩ := init_some init
      rw [avail, refusal, answersRefusal, if_pos none]
      exact .inr ⟨retIndex, rfl⟩

theorem allocLoop_predicted (h : Inv g m retIndex)
    (run : allocLoop g fuel m need retIndex answers = .ok (outcome, m')) :
    Predicted retIndex need outcome (refusal g answers m.availPages need) := by
  induction fuel generalizing m need retIndex answers with
  | zero =>
      cases need with
      | zero =>
          cases run
          rw [refusal_zero]
          exact .inl ⟨_, rfl, rfl⟩
      | succ need =>
          cases run
  | succ fuel ih =>
      cases need with
      | zero =>
          cases run
          rw [refusal_zero]
          exact .inl ⟨_, rfl, rfl⟩
      | succ need =>
          cases iteration run with
          | inl ending => exact ending.predicted
          | inr going =>
              obtain ⟨allocated, next, rest, going, run⟩ := going
              have took := going.took (Nat.succ_pos need) h
              have later := ih took.inv run
              rw [going.refusal_eq] at later
              exact later.later took.at_most

/-- The block is reserved, behind a handle or lost. -/
def Used (m : Manager) (b : Nat) : Prop :=
  b ∈ m.reservedBlocks ∨ b ∈ m.handedOut ∨ b ∈ m.lost

theorem not_used_of_free (h : Inv g m []) {b : Nat} (free : b ∈ m.freeOf) : ¬ Used m b := by
  have total := h.partition b
  have single := count_blocksOf_le h b
  have here := List.count_pos_iff.mpr free
  rintro (reserved | handed | lost)
  · have there := List.count_pos_iff.mpr reserved
    omega
  · have there := List.count_pos_iff.mpr handed
    omega
  · have there := List.count_pos_iff.mpr lost
    omega

theorem held_of_used (h : Inv g m []) {b : Nat} (used : Used m b) : b ∈ m.blocksOf g := by
  apply h.mem_iff.mpr
  rcases used with reserved | handed | lost
  · exact .inr (.inl reserved)
  · exact .inr (.inr (.inl handed))
  · exact .inr (.inr (.inr (.inl lost)))

theorem exists_used (h : Inv g m []) {p : VirtPage} (hp : p ∈ m.pages) {b : Nat}
    (hb : b ∈ g.blocks p.pageId) : ∃ c ∈ g.blocks p.pageId, Used m c := by
  by_contra none
  have size := (h.sound p hp).size
  have pos : 0 < (g.blocks p.pageId).length := List.length_pos_iff.mpr (ne_nil_of_mem hb)
  have occupied := h.occupied p hp (by omega)
  have all : g.blocks p.pageId ⊆ p.freeList := by
    intro c hc
    have held := h.mem_iff.mp (mem_blocksOf hp hc)
    have free : c ∈ m.freeOf := by
      rcases held with free | reserved | handed | lost | out
      · exact free
      · exact absurd ⟨c, hc, .inl reserved⟩ none
      · exact absurd ⟨c, hc, .inr (.inl handed)⟩ none
      · exact absurd ⟨c, hc, .inr (.inr lost)⟩ none
      · exact absurd out not_mem_nil
    rw [← List.count_pos_iff, count_freeOf h hp hc] at free
    exact List.count_pos_iff.mp free
  have enough := (Geometry.nodup_blocks.subperm all).length_le
  omega

theorem mem_freeOf_iff (h : Inv g m []) {b : Nat} : b ∈ m.freeOf ↔
    ¬ Used m b ∧ ∃ pageId, b ∈ g.blocks pageId ∧ ∃ c ∈ g.blocks pageId, Used m c := by
  constructor
  · intro free
    obtain ⟨p, hp, own⟩ := List.mem_flatMap.mp free
    have mem := (h.sound p hp).own b own
    exact ⟨not_used_of_free h free, p.pageId, mem, exists_used h hp mem⟩
  · rintro ⟨unused, pageId, mem, c, hc, used⟩
    obtain ⟨p, hp, on_page⟩ := exists_page (held_of_used h used)
    have same : p.pageId = pageId :=
      (Geometry.getVirtPageId_of_mem on_page).symm.trans (Geometry.getVirtPageId_of_mem hc)
    have held := h.mem_iff.mp (mem_blocksOf hp (same ▸ mem))
    rcases held with free | reserved | handed | lost | out
    · exact free
    · exact absurd (.inl reserved) unused
    · exact absurd (.inr (.inl handed)) unused
    · exact absurd (.inr (.inr lost)) unused
    · exact absurd out not_mem_nil

/-- When the reserve is used up and everything else is as before, the pages have the free blocks
that they had if and only if no page was shared between the reserve and others. -/
theorem same_free_iff (h : Inv g m []) (h' : Inv g m' []) (none_left : m'.reservedBlocks = [])
    (handed : ∀ b, b ∈ m'.handedOut ↔ b ∈ m.handedOut) (lost : m'.lost = m.lost) :
    m'.freeOf.Perm m.freeOf ↔ ReservedWhole g m := by
  have used_iff (b) : Used m' b ↔ b ∈ m.handedOut ∨ b ∈ m.lost := by
    rw [Used, none_left, handed, lost]
    simp
  have more {b} (used : Used m' b) : Used m b := .inr ((used_iff b).mp used)
  have apart {b} (reserved : b ∈ m.reservedBlocks) : ¬ Used m' b := by
    intro used
    have total := h.partition b
    have single := count_blocksOf_le h b
    have here := List.count_pos_iff.mpr reserved
    rcases (used_iff b).mp used with there | there
    · have other := List.count_pos_iff.mpr there
      omega
    · have other := List.count_pos_iff.mpr there
      omega
  have split {b} (used : Used m b) : b ∈ m.reservedBlocks ∨ Used m' b :=
    used.imp_right (used_iff b).mpr
  rw [perm_ext_iff_of_nodup (nodup_freeOf h') (nodup_freeOf h)]
  constructor
  · intro same pageId b hb c hc reserved
    by_contra other
    by_cases used : ∃ d ∈ g.blocks pageId, Used m' d
    · -- The page stays, so that `b` is free on it now.
      have free := (mem_freeOf_iff h').mpr ⟨apart reserved, pageId, hb, used⟩
      exact not_used_of_free h ((same b).mp free) (.inl reserved)
    · -- The page goes, and `c` was free on it.
      have free : c ∈ m.freeOf := by
        refine (mem_freeOf_iff h).mpr ⟨?_, pageId, hc, b, hb, .inl reserved⟩
        intro used_c
        cases split used_c with
        | inl there => exact other there
        | inr there => exact used ⟨c, hc, there⟩
      obtain ⟨-, pageId', mem, d, hd, used_d⟩ := (mem_freeOf_iff h').mp ((same c).mpr free)
      have same_page : pageId' = pageId :=
        (Geometry.getVirtPageId_of_mem mem).symm.trans (Geometry.getVirtPageId_of_mem hc)
      exact used ⟨d, same_page ▸ hd, used_d⟩
  · intro whole b
    rw [mem_freeOf_iff h, mem_freeOf_iff h']
    constructor
    · rintro ⟨unused, pageId, mem, c, hc, used⟩
      refine ⟨?_, pageId, mem, c, hc, more used⟩
      intro used_b
      cases split used_b with
      | inl reserved => exact apart (whole pageId b mem c hc reserved) used
      | inr there => exact unused there
    · rintro ⟨unused, pageId, mem, c, hc, used⟩
      refine ⟨fun used_b => unused (more used_b), pageId, mem, c, hc, ?_⟩
      cases split used with
      | inl reserved => exact absurd (.inl (whole pageId c hc b mem reserved)) unused
      | inr there => exact there

/-- The blocks of a failed allocation come back, those handed out before stay out. -/
theorem dropAll_spec {ids old : List Nat} (h : Inv g m [])
    (handles : m.handedOut.Perm (ids ++ old)) :
    ∃ m₁, dropAll g m ids = .ok m₁ ∧ Inv g m₁ [] ∧ m₁.handedOut.Perm old ∧
      m₁.reservedBlocks = m.reservedBlocks ∧ m₁.lost = m.lost := by
  induction ids generalizing m with
  | nil => exact ⟨m, rfl, h, handles, rfl, rfl⟩
  | cons b ids ih =>
      have had : b ∈ m.handedOut := handles.mem_iff.mpr mem_cons_self
      have ran : m.drop g b = .ok
          ({ m with handedOut := m.handedOut.erase b }.freeBlocks g [b]) :=
        if_pos had
      have drop := dropped h ran
      have left : (m.handedOut.erase b).Perm (ids ++ old) :=
        (perm_cons_erase had).symm.trans handles |>.cons_inv
      have handles_left := (List.Perm.of_eq drop.handed).trans left
      obtain ⟨m₁, rest, inv, handed, reserved, lost⟩ := ih drop.inv handles_left
      refine ⟨m₁, ?_, inv, handed, reserved.trans drop.reserved, lost.trans drop.lost⟩
      rw [dropAll, run_cons, ran]
      exact rest

variable {n reservedPages : Nat}

theorem allocInternal_predicted (h : Inv g m [])
    (run : m.allocInternal g n answers = .ok (outcome, m')) :
    Predicted [] n outcome (refusal g answers m.availPages (n - m.reservedBlocks.length)) := by
  have predicted := allocLoop_predicted (inv_withoutReserve h) run
  have need : n - min m.reservedBlocks.length n = n - m.reservedBlocks.length := by omega
  rw [need] at predicted
  have later : Predicted ([] ++ m.fromReserve n) (n - (m.fromReserve n).length) outcome
      (refusal g answers m.availPages (n - m.reservedBlocks.length)) := by
    rw [length_fromReserve, need]
    exact predicted
  apply later.later
  rw [length_fromReserve]
  exact Nat.min_le_right _ _

theorem length_reserved_lt {refused : Refusal × Nat}
    (some_refusal : refusal g answers m.availPages (n - m.reservedBlocks.length) = some refused) :
    m.reservedBlocks.length < n := by
  by_contra enough
  have zero : n - m.reservedBlocks.length = 0 := by omega
  rw [zero, refusal_zero] at some_refusal
  cases some_refusal

theorem reserve_used_up (h : Inv g m []) (run : m.allocInternal g n answers = .ok (outcome, m'))
    (short : m.reservedBlocks.length < n) : m'.reservedBlocks = [] := by
  rw [(allocInternal_looped h run).same.reserved]
  apply drop_eq_nil_of_le
  omega

theorem nodup_taken (h : Inv g m' outcome.taken) : outcome.taken.Nodup := by
  apply List.nodup_iff_count_le_one.mpr
  intro b
  have total := h.partition b
  have single := count_blocksOf_le h b
  omega

/-- After a null pointer, the answer is short, and dropping its handles restores everything if
and only if the reserve had its pages for itself. -/
theorem clean_null_iff {ids : List Nat} (h : Inv g m [])
    (run : m.allocInternal g n answers = .ok (.ids ids, m')) (short : ids.length < n)
    (used_up : m'.reservedBlocks = []) :
    AllocationClean g m n (.ids ids) (m'.handOut (.ids ids)) ↔ ReservedWhole g m := by
  have looped := allocInternal_looped h run
  have inv : Inv g (m'.handOut (.ids ids)) [] := inv_handOut looped.inv
  have handles : (m'.handOut (.ids ids)).handedOut.Perm (ids ++ m.handedOut) := by
    show (m'.handedOut ++ ids).Perm _
    rw [looped.same.handed]
    exact perm_append_comm
  obtain ⟨m₁, dropped_all, inv₁, handed, reserved, lost⟩ := dropAll_spec inv handles
  have reserved₁ : m₁.reservedBlocks = [] := reserved.trans used_up
  have lost₁ : m₁.lost = m.lost := lost.trans looped.same.lost
  have same_free := same_free_iff h inv₁ reserved₁ (fun b => handed.mem_iff) lost₁
  have fails : ¬ Delivers n (.ids ids) := by
    rintro ⟨all, same, -, full⟩
    cases same
    omega
  constructor
  · intro clean
    obtain ⟨m₂, dropped_all', restored⟩ := clean fails
    rw [dropped_all] at dropped_all'
    cases dropped_all'
    exact same_free.mp restored.same_free
  · intro whole _
    have perm := same_free.mpr whole
    have unused : ∀ b ∈ ids, b ∉ m₁.handedOut ∧ b ∉ m₁.lost := by
      intro b hb
      have total := looped.inv.partition b
      have single := count_blocksOf_le looped.inv b
      have here : 0 < (Outcome.ids ids).taken.count b := List.count_pos_iff.mpr hb
      rw [looped.same.handed, looped.same.lost] at total
      rw [handed.mem_iff, lost₁, ← List.count_pos_iff, ← List.count_pos_iff]
      have handed_eq : (m.withoutReserve n).handedOut = m.handedOut := rfl
      have lost_eq : (m.withoutReserve n).lost = m.lost := rfl
      rw [handed_eq, lost_eq] at total
      omega
    refine ⟨m₁, dropped_all, ⟨?_, unused, ?_, perm⟩⟩
    · intro b hb
      by_cases held : b ∈ m₁.blocksOf g
      · rcases inv₁.mem_iff.mp held with free | reserved | handed | lost | out
        · exact .inl free
        · exact .inr (.inl reserved)
        · exact absurd handed (unused b hb).1
        · exact absurd lost (unused b hb).2
        · exact absurd out not_mem_nil
      · exact .inr (.inr held)
    · rw [numAvail_eq inv₁, numAvail_eq h, perm.length_eq]

theorem allocationClean_iff (h : Inv g m [])
    (run : m.allocInternal g n answers = .ok (outcome, m')) :
    AllocationClean g m n outcome (m'.handOut outcome) ↔
      match refusal g answers m.availPages (n - m.reservedBlocks.length) with
      | none => True
      | some (.throws, missing) => missing = n
      | some (.null, _) => ReservedWhole g m := by
  have predicted := allocInternal_predicted h run
  have inv := (allocInternal_looped h run).inv
  cases refused : refusal g answers m.availPages (n - m.reservedBlocks.length) with
  | none =>
      rw [refused] at predicted
      rcases predicted with ⟨ids, rfl, size⟩ | ⟨taken, rfl⟩
      · refine iff_of_true ?_ trivial
        intro fails
        rw [length_nil, Nat.zero_add] at size
        exact absurd ⟨ids, rfl, nodup_taken inv, size⟩ fails
      · exact iff_of_true trivial trivial
  | some refused' =>
      obtain ⟨how, missing⟩ := refused'
      rw [refused] at predicted
      cases how with
      | null =>
          obtain ⟨pos, ids, rfl, size⟩ := predicted
          rw [length_nil] at size
          exact clean_null_iff h run (by omega)
            (reserve_used_up h run (length_reserved_lt refused))
      | throws =>
          obtain ⟨pos, taken, rfl, size⟩ := predicted
          rw [length_nil] at size
          show taken = [] ↔ missing = n
          rw [← length_eq_zero_iff]
          omega

theorem reservationClean_iff {reservation : Reservation} {m₁ m₂ : Manager} (h : Inv g m [])
    (run : m.allocInternal g n answers = .ok (outcome, m₁))
    (reserves : m.tryToReserve g n reservedPages answers = .ok (reservation, m₂)) :
    ReservationClean m n reservation m₂ ↔
      match refusal g answers m.availPages (n - m.reservedBlocks.length) with
      | some (.null, missing) => missing = n ∨ m.availableSize g reservedPages < n
      | _ => True := by
  have predicted := allocInternal_predicted h run
  have looped := allocInternal_looped h run
  rw [tryToReserve] at reserves
  split at reserves
  · rename_i unavailable
    cases reserves
    have clean : ReservationClean m n (.answer false) m := fun b hb => hb
    refine iff_of_true clean ?_
    split
    · exact .inr unavailable
    · exact trivial
  · rename_i available
    have left : ∀ b ∈ m₁.reservedBlocks, b ∈ m.reservedBlocks := by
      rw [looped.same.reserved]
      exact fun b hb => mem_of_mem_drop hb
    rw [run] at reserves
    cases refused : refusal g answers m.availPages (n - m.reservedBlocks.length) with
    | none =>
        rw [refused] at predicted
        refine iff_of_true ?_ trivial
        rcases predicted with ⟨ids, rfl, size⟩ | ⟨taken, rfl⟩
        · cases ids with
          | nil =>
              cases reserves
              exact left
          | cons first others =>
              cases reserves
              rw [length_nil, Nat.zero_add] at size
              show n ≤ (m₁.reservedBlocks ++ first :: others).length
              rw [length_append, size]
              exact Nat.le_add_left _ _
        · cases reserves
          exact left
    | some refused' =>
        obtain ⟨how, missing⟩ := refused'
        rw [refused] at predicted
        cases how with
        | null =>
            have used_up := reserve_used_up h run (length_reserved_lt refused)
            obtain ⟨pos, ids, rfl, size⟩ := predicted
            rw [length_nil] at size
            cases ids with
            | nil =>
                cases reserves
                exact iff_of_true left (.inl (by simpa using size))
            | cons first others =>
                cases reserves
                rw [length_cons] at size
                apply iff_of_false
                · show ¬ n ≤ (m₁.reservedBlocks ++ first :: others).length
                  rw [used_up, nil_append, length_cons]
                  omega
                · rintro (all | short)
                  · omega
                  · exact available short
        | throws =>
            obtain ⟨pos, taken, rfl, size⟩ := predicted
            cases reserves
            exact iff_of_true left trivial

/-- A failing allocation or reservation leaks nothing if and only if `PageAllocator` refuses
before any block is taken, or gives a null pointer to an allocation whose reserve had its pages
for itself and which no reservation mistakes for a success. -/
theorem leaks_nothing_iff (reachable : Reachable g m)
    (answered : ∃ result, m.allocInternal g n answers = .ok result) :
    LeaksNothing g m n reservedPages answers ↔ RefusedInTime g m n reservedPages answers := by
  have h := reachable.inv
  obtain ⟨⟨outcome, m₁⟩, run⟩ := answered
  have allocates : m.allocate g n answers = .ok (outcome, m₁.handOut outcome) := by
    rw [allocate, run]
    rfl
  have reserves : ∃ reservation m₂,
      m.tryToReserve g n reservedPages answers = .ok (reservation, m₂) := by
    rw [tryToReserve, run]
    split
    · exact ⟨_, _, rfl⟩
    · exact ⟨_, _, rfl⟩
  obtain ⟨reservation, m₂, reserves⟩ := reserves
  have leaks : LeaksNothing g m n reservedPages answers ↔
      AllocationClean g m n outcome (m₁.handOut outcome) ∧
        ReservationClean m n reservation m₂ := by
    constructor
    · exact fun clean => ⟨clean.1 _ _ allocates, clean.2 _ _ reserves⟩
    · rintro ⟨allocation, reservation_clean⟩
      constructor
      · intro outcome' m' allocates'
        rw [allocates] at allocates'
        cases allocates'
        exact allocation
      · intro reservation' m' reserves'
        rw [reserves] at reserves'
        cases reserves'
        exact reservation_clean
  rw [leaks, allocationClean_iff h run, reservationClean_iff h run reserves, RefusedInTime]
  cases refusal g answers m.availPages (n - m.reservedBlocks.length) with
  | none => exact Iff.of_eq (and_true _)
  | some refused =>
      obtain ⟨how, missing⟩ := refused
      cases how with
      | null => exact Iff.rfl
      | throws => exact Iff.of_eq (and_true _)

/-- Five blocks of pages of four: the second page is a null pointer, and there is nothing that a
reservation could count on. -/
theorem leaks_nothing_after_null :
    LeaksNothing ⟨4, 1, by decide, by decide⟩ {} 5 0 [.page 0, .null] := by
  apply (leaks_nothing_iff ⟨[], rfl⟩ ⟨_, rfl⟩).mpr
  refine ⟨?_, .inr (by decide)⟩
  exact fun pageId b hb c hc reserved => absurd reserved not_mem_nil

/-- Five blocks of pages of four. When the second page throws, four blocks belong to nobody; when
it is a null pointer, a reservation of four blocks reports five. -/
theorem four_blocks_belong_to_nobody :
    (∃ m, ({} : Manager).allocate ⟨4, 1, by decide, by decide⟩ 5 [.page 0, .throws] =
        .ok (.thrown .noFreePages [0, 1, 2, 3], m) ∧ m.lost = [0, 1, 2, 3]) ∧
    (∃ m, ({} : Manager).tryToReserve ⟨4, 1, by decide, by decide⟩ 5 2 [.page 0, .null] =
        .ok (.answer true, m) ∧ m.reservedBlocks = [0, 1, 2, 3]) ∧
    ¬ LeaksNothing ⟨4, 1, by decide, by decide⟩ {} 5 2 [.page 0, .throws] ∧
    ¬ LeaksNothing ⟨4, 1, by decide, by decide⟩ {} 5 2 [.page 0, .null] := by
  refine ⟨⟨_, rfl, rfl⟩, ⟨_, rfl, rfl⟩, ?_, ?_⟩
  · intro clean
    have none_taken : [0, 1, 2, 3] = [] := clean.1 _ _ rfl
    cases none_taken
  · intro clean
    have enough : 5 ≤ [0, 1, 2, 3].length := clean.2 _ _ rfl
    exact absurd enough (by decide)

end Manager

end Xllm.XTensorBlocks
