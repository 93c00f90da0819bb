import Xllm.XTensor.BlockManager

/-!
# The block counters of `XTensorBlockManagerImpl`

`get_num_allocated_blocks` assumes that every page has `get_num_blocks` blocks and adds
`reserved_blocks_`, although a reserved block has already left the free list of its page. It
counts what is in use exactly in the runs in which nothing gets reserved and every page has
`get_num_blocks` blocks, at least one.
-/

namespace Xllm.XTensorBlocks

open Contract List

/-- A page that has `get_num_blocks` blocks. -/
def Geometry.Whole (g : Geometry) (pageId : Nat) : Prop :=
  0 < g.getNumBlocks ∧ (g.blocks pageId).length = g.getNumBlocks

/-- `PageAllocator` gives a page, and the page has `get_num_blocks` blocks. -/
def PageAnswer.Whole (g : Geometry) : PageAnswer → Prop
  | .page pageId => g.Whole pageId
  | .null => False
  | .throws => False

namespace Manager

variable {g : Geometry} {m m' : Manager} {out : List Nat}

structure Exact (g : Geometry) (m : Manager) : Prop where
  placed : ∀ p ∈ m.pages, ∀ b ∈ g.blocks p.pageId,
    p.freeList.count b + m.reservedBlocks.count b + m.handedOut.count b = 1
  on_page : ∀ b, b ∈ m.reservedBlocks ∨ b ∈ m.handedOut →
    ∃ p ∈ m.pages, b ∈ g.blocks p.pageId
  keys : (m.pages.map VirtPage.pageId).Nodup
  avail : ∀ p ∈ m.availPages, p.freeList ≠ []
  full : ∀ p ∈ m.fullPages, p.freeList = []
  numAvail : m.numAvailBlocks = (m.availPages.flatMap VirtPage.freeList).length
  allocated : m.getNumAllocatedBlocks g = m.handedOut.length + m.reservedBlocks.length
  page_of : ∀ p ∈ m.pages, ∀ b ∈ g.blocks p.pageId, g.getVirtPageId b = p.pageId
  obtained : ∀ id, m.obtained.count id =
    m.returned.count id + (m.pages.map VirtPage.pageId).count id
  occupied : ∀ p ∈ m.pages, p.freeList.length < (g.blocks p.pageId).length

/-- A step in which every page of `PageAllocator` has `get_num_blocks` blocks and nothing gets
reserved. -/
def Counted (g : Geometry) (m : Manager) : Op → Prop
  | .allocate _ answers => ∀ answer ∈ answers, answer.Whole g
  | .tryToReserve needSize reservedPages _ =>
      needSize = 0 ∨ m.availableSize g reservedPages < needSize
  | _ => True

theorem length_blocksOf (h : Inv g m out) : m.freeOf.length + m.reservedBlocks.length +
    m.handedOut.length + m.lost.length + out.length = (m.blocksOf g).length := by
  have same : (m.freeOf ++ m.reservedBlocks ++ m.handedOut ++ m.lost ++ out).Perm
      (m.blocksOf g) := by
    apply List.perm_iff_count.mpr
    intro b
    simp only [count_append]
    exact h.partition b
  have sizes := same.length_eq
  simp only [length_append] at sizes
  exact sizes

theorem getNumAllocatedBlocks_add (h : Inv g m out) :
    m.getNumAllocatedBlocks g + (m.blocksOf g).length =
      m.pages.length * g.getNumBlocks + m.handedOut.length + 2 * m.reservedBlocks.length +
        m.lost.length + out.length := by
  have free := numAvail_eq h
  have total := length_blocksOf h
  rw [getNumAllocatedBlocks, pages, length_append]
  push_cast
  rw [Int.add_mul]
  omega

theorem length_flatMap_le (pages : List VirtPage) :
    (pages.flatMap fun p => g.blocks p.pageId).length ≤ pages.length * g.getNumBlocks := by
  induction pages with
  | nil => exact Nat.zero_le _
  | cons p rest ih =>
      have first : (g.blocks p.pageId).length ≤ g.getNumBlocks := Geometry.length_blocks_le
      rw [flatMap_cons, length_append, length_cons, Nat.succ_mul]
      omega

theorem length_flatMap_eq_iff (pages : List VirtPage) :
    (pages.flatMap fun p => g.blocks p.pageId).length = pages.length * g.getNumBlocks ↔
      ∀ p ∈ pages, (g.blocks p.pageId).length = g.getNumBlocks := by
  induction pages with
  | nil => simp
  | cons p rest ih =>
      have first : (g.blocks p.pageId).length ≤ g.getNumBlocks := Geometry.length_blocks_le
      have others := length_flatMap_le (g := g) rest
      rw [flatMap_cons, length_append, length_cons, Nat.succ_mul,
        forall_mem_cons, ← ih]
      omega

theorem counter_exact_iff (h : Inv g m []) (none_lost : m.lost = []) :
    m.getNumAllocatedBlocks g = m.handedOut.length + m.reservedBlocks.length ↔
      m.reservedBlocks = [] ∧ ∀ p ∈ m.pages, (g.blocks p.pageId).length = g.getNumBlocks := by
  have counter := getNumAllocatedBlocks_add h
  have bound : (m.blocksOf g).length ≤ _ := length_flatMap_le m.pages
  rw [← length_flatMap_eq_iff, ← length_eq_zero_iff]
  rw [none_lost, length_nil] at counter
  show _ ↔ _ ∧ (m.blocksOf g).length = _
  omega

variable {answers rest : List PageAnswer} {fuel need : Nat} {retIndex : List Nat}
  {outcome : Outcome}

/-- All pages have `get_num_blocks` blocks, and no page without free blocks is available. -/
structure Plain (g : Geometry) (m : Manager) : Prop where
  whole : ∀ p ∈ m.pages, g.Whole p.pageId
  avail : ∀ p ∈ m.availPages, p.freeList ≠ []
  lostPages : m.lostPages = []

theorem init_whole {pageId : Nat} (whole : g.Whole pageId) :
    VirtPage.init g pageId = some ⟨pageId, (g.blocks pageId).length, g.blocks pageId⟩ := by
  have size := whole.2
  have pos := whole.1
  rw [Geometry.length_blocks] at size ⊢
  exact if_neg (by omega)

theorem plain_takeFront {p : VirtPage} {others : List VirtPage} {k : Nat} (h : Plain g m)
    (whole : g.Whole p.pageId) (avail : ∀ q ∈ others, g.Whole q.pageId ∧ q.freeList ≠ []) :
    Plain g (m.takeFront p others k) := by
  constructor
  · intro q hq
    cases List.mem_cons.mp (pages_takeFront.mem_iff.mp hq) with
    | inl here => exact here ▸ whole
    | inr there =>
        cases List.mem_append.mp there with
        | inl other => exact (avail q other).1
        | inr full => exact h.whole q (mem_append_right _ full)
  · rw [takeFront]
    split
    · exact fun q hq => (avail q hq).2
    · rename_i left
      intro q hq
      cases List.mem_cons.mp hq with
      | inl here => exact here ▸ left
      | inr there => exact (avail q there).2
  · exact flow_takeFront.2.2.trans h.lostPages

theorem Going.plain {allocated : List Nat} (going : Going g m need answers allocated m' rest)
    (h : Plain g m) (whole : ∀ answer ∈ answers, answer.Whole g) :
    Plain g m' ∧ ∀ answer ∈ rest, answer.Whole g := by
  cases going with
  | @front p others _ avail has =>
      have mem {q} (hq : q ∈ p :: others) : q ∈ m.availPages := avail ▸ hq
      refine ⟨plain_takeFront h ?_ ?_, whole⟩
      · exact h.whole p (mem_append_left _ (mem mem_cons_self))
      · intro q hq
        have there := mem (mem_cons_of_mem p hq)
        exact ⟨h.whole q (mem_append_left _ there), h.avail q there⟩
  | @new pageId p _ avail fresh init has =>
      have first : g.Whole pageId := whole _ mem_cons_self
      obtain ⟨rfl, -⟩ := init_some init
      refine ⟨?_, fun answer hanswer => whole answer (mem_cons_of_mem _ hanswer)⟩
      have added : Plain g (m.addPage ⟨pageId, (g.blocks pageId).length, g.blocks pageId⟩) := by
        constructor
        · intro q hq
          rw [pages, addPage, append_assoc] at hq
          cases List.mem_cons.mp (List.perm_middle.mem_iff.mp hq) with
          | inl here => exact here ▸ first
          | inr there => exact h.whole q there
        · intro q hq
          cases List.mem_append.mp hq with
          | inl old => exact h.avail q old
          | inr new =>
              rw [List.mem_singleton.mp new]
              exact has
        · exact h.lostPages
      exact plain_takeFront added first fun q hq => absurd hq not_mem_nil

theorem Ending.not_plain (ending : Ending g m retIndex answers outcome m')
    (h : Plain g m) (whole : ∀ answer ∈ answers, answer.Whole g) : False := by
  cases ending with
  | @blocklessFront p _ _ avail none =>
      exact h.avail p (avail ▸ mem_cons_self) none
  | null => exact whole _ mem_cons_self
  | throws => exact whole _ mem_cons_self
  | noRange avail fresh init =>
      have page : g.Whole _ := whole _ mem_cons_self
      rw [init_whole page] at init
      cases init
  | blockless avail fresh init none =>
      have page : g.Whole _ := whole _ mem_cons_self
      rw [init_whole page] at init
      cases init
      have size := page.2
      have pos := page.1
      rw [show g.blocks _ = [] from none, length_nil] at size
      omega

theorem allocLoop_plain (inv : Inv g m retIndex) (h : Plain g m)
    (whole : ∀ answer ∈ answers, answer.Whole g)
    (run : allocLoop g fuel m need retIndex answers = .ok (outcome, m')) :
    Plain g m' ∧ ∃ ids, outcome = .ids ids := by
  induction fuel generalizing m need retIndex answers with
  | zero =>
      cases need with
      | zero =>
          cases run
          exact ⟨h, _, rfl⟩
      | succ need =>
          cases run
  | succ fuel ih =>
      cases need with
      | zero =>
          cases run
          exact ⟨h, _, rfl⟩
      | succ need =>
          cases iteration run with
          | inl ending => exact (ending.not_plain h whole).elim
          | inr going =>
              obtain ⟨allocated, next, rest, going, run⟩ := going
              have took := going.took (Nat.succ_pos need) inv
              have next_plain := going.plain h whole
              exact ih took.inv next_plain.1 next_plain.2 run

theorem plain_freeGroup {pageId : Nat} {idxs : List Nat} (h : Plain g m) (some_idx : idxs ≠ []) :
    Plain g (m.freeGroup pageId idxs) := by
  have freed_ne (p : VirtPage) : (p.freeBatch idxs).freeList ≠ [] :=
    fun none => some_idx (List.append_eq_nil_iff.mp none).2
  rw [freeGroup]
  split
  · rename_i page found
    have page_whole : g.Whole page.pageId :=
      h.whole page (mem_append_right _ (mem_of_find?_eq_some found))
    have others {q} (hq : q ∈ m.fullPages.filter (·.pageId != pageId)) : g.Whole q.pageId :=
      h.whole q (mem_append_right _ (mem_of_mem_filter hq))
    dsimp only
    split
    · refine ⟨?_, h.avail, h.lostPages⟩
      intro q hq
      cases List.mem_append.mp hq with
      | inl avail => exact h.whole q (mem_append_left _ avail)
      | inr full => exact others full
    · refine ⟨?_, ?_, h.lostPages⟩
      · intro q hq
        cases List.mem_append.mp hq with
        | inl avail =>
            cases List.mem_append.mp avail with
            | inl old => exact h.whole q (mem_append_left _ old)
            | inr new =>
                rw [List.mem_singleton.mp new]
                exact page_whole
        | inr full => exact others full
      · intro q hq
        cases List.mem_append.mp hq with
        | inl old => exact h.avail q old
        | inr new =>
            rw [List.mem_singleton.mp new]
            exact freed_ne page
  · split
    · rename_i page found
      have page_whole : g.Whole page.pageId :=
        h.whole page (mem_append_left _ (mem_of_find?_eq_some found))
      have others {q} (hq : q ∈ m.availPages.filter (·.pageId != pageId)) : q ∈ m.availPages :=
        mem_of_mem_filter hq
      dsimp only
      split
      · refine ⟨?_, fun q hq => h.avail q (others hq), h.lostPages⟩
        intro q hq
        cases List.mem_append.mp hq with
        | inl avail => exact h.whole q (mem_append_left _ (others avail))
        | inr full => exact h.whole q (mem_append_right _ full)
      · refine ⟨?_, ?_, h.lostPages⟩
        · intro q hq
          cases List.mem_append.mp hq with
          | inl avail =>
              cases List.mem_append.mp avail with
              | inl old => exact h.whole q (mem_append_left _ (others old))
              | inr new =>
                  rw [List.mem_singleton.mp new]
                  exact page_whole
          | inr full => exact h.whole q (mem_append_right _ full)
        · intro q hq
          cases List.mem_append.mp hq with
          | inl old => exact h.avail q (others old)
          | inr new =>
              rw [List.mem_singleton.mp new]
              exact freed_ne page
    · exact h

theorem plain_freeBlocks {indices : List Nat} (h : Plain g m) :
    Plain g (m.freeBlocks g indices) := by
  have some_idx : ∀ id ∈ (indices.map g.getVirtPageId).dedup,
      indices.filter (g.getVirtPageId · == id) ≠ [] := by
    intro id hid
    obtain ⟨b, hb, on_page⟩ := List.mem_map.mp (List.mem_dedup.mp hid)
    exact ne_nil_of_mem (List.mem_filter.mpr ⟨hb, by simpa using on_page⟩)
  rw [freeBlocks]
  generalize (indices.map g.getVirtPageId).dedup = ids at some_idx
  induction ids generalizing m with
  | nil => exact h
  | cons id ids ih =>
      apply ih
      · exact plain_freeGroup h (some_idx id mem_cons_self)
      · exact fun id' hid => some_idx id' (mem_cons_of_mem id hid)

/-- The invariant of the runs in which nothing is reserved. -/
structure Unreserved (g : Geometry) (m : Manager) : Prop where
  inv : Inv g m []
  plain : Plain g m
  reserved : m.reservedBlocks = []
  lost : m.lost = []

theorem unreserved_allocate {numBlocks : Nat} {result : Outcome × Manager}
    (h : Unreserved g m) (whole : ∀ answer ∈ answers, answer.Whole g)
    (run : m.allocate g numBlocks answers = .ok result) : Unreserved g result.2 := by
  have inv := inv_allocate h.inv run
  obtain ⟨⟨outcome, m₁⟩, allocated, rfl⟩ := map_eq_ok run
  have start : Plain g (m.withoutReserve numBlocks) :=
    ⟨h.plain.whole, h.plain.avail, h.plain.lostPages⟩
  have looped := allocInternal_looped h.inv allocated
  obtain ⟨plain, ids, rfl⟩ :=
    allocLoop_plain (inv_withoutReserve h.inv) start whole allocated
  have reserved : (m.withoutReserve numBlocks).reservedBlocks = [] := by
    rw [withoutReserve, h.reserved, drop_nil]
  constructor
  · exact inv
  · exact ⟨plain.whole, plain.avail, plain.lostPages⟩
  · exact looped.same.reserved.trans reserved
  · exact looped.same.lost.trans h.lost

theorem tryToReserve_zero {reservedPages : Nat} {result : Reservation × Manager}
    (run : m.tryToReserve g 0 reservedPages answers = .ok result) : result.2 = m := by
  rw [tryToReserve] at run
  split at run
  · cases run
    rfl
  · obtain ⟨⟨outcome, m₁⟩, allocated, rfl⟩ := map_eq_ok run
    simp only [allocInternal, Nat.min_zero] at allocated
    cases allocated
    rfl

theorem unreserved_step {op : Op} (h : Unreserved g m) (counted : Counted g m op)
    (run : m.step g op = .ok m') : Unreserved g m' := by
  have inv := inv_step h.inv run
  cases op with
  | allocate numBlocks answers =>
      obtain ⟨result, ran, rfl⟩ := map_eq_ok run
      exact unreserved_allocate h counted ran
  | drop blockId =>
      have drop := dropped h.inv run
      refine ⟨inv, ?_, drop.reserved.trans h.reserved, drop.lost.trans h.lost⟩
      rw [step, Manager.drop] at run
      split at run
      · cases run
        exact plain_freeBlocks ⟨h.plain.whole, h.plain.avail, h.plain.lostPages⟩
      · cases run
  | tryToReserve needSize reservedPages answers =>
      obtain ⟨result, ran, rfl⟩ := map_eq_ok run
      cases counted with
      | inl zero =>
          subst zero
          exact (tryToReserve_zero ran) ▸ h
      | inr short =>
          rw [Manager.tryToReserve, if_pos short] at ran
          cases ran
          exact h
  | freeReserved =>
      cases run
      have same : m.freeReserved g = m := by
        rw [Manager.freeReserved, h.reserved]
        show ({ m with reservedBlocks := [] } : Manager) = m
        rw [← h.reserved]
      exact same.symm ▸ h
  | trim =>
      cases run
      exact h
  | reorder order =>
      rw [step] at run
      split at run
      · rename_i same
        cases run
        refine ⟨inv, ⟨?_, ?_, h.plain.lostPages⟩, h.reserved, h.lost⟩
        · intro p hp
          have pages_same : ({ m with availPages := order } : Manager).pages.Perm m.pages :=
            same.append_right m.fullPages
          exact h.plain.whole p (pages_same.mem_iff.mp hp)
        · exact fun p hp => h.plain.avail p (same.mem_iff.mp hp)
      · cases run

theorem unreserved_empty : Unreserved g {} := by
  refine ⟨inv_empty, ⟨?_, ?_, rfl⟩, rfl, rfl⟩
  · exact fun p hp => absurd hp not_mem_nil
  · exact fun p hp => absurd hp not_mem_nil

theorem Unreserved.exact (h : Unreserved g m) : Exact g m := by
  have total (b : Nat) := h.inv.partition b
  constructor
  · intro p hp b hb
    have held : (m.blocksOf g).count b = 1 :=
      Nat.le_antisymm (count_blocksOf_le h.inv b) (List.count_pos_iff.mpr (mem_blocksOf hp hb))
    have own := count_freeOf h.inv hp hb
    have sum := total b
    rw [h.lost] at sum
    omega
  · intro b hb
    apply exists_page
    apply h.inv.mem_iff.mpr
    cases hb with
    | inl reserved => exact .inr (.inl reserved)
    | inr handed => exact .inr (.inr (.inl handed))
  · exact h.inv.keys
  · exact h.plain.avail
  · exact h.inv.full
  · exact h.inv.numAvail
  · apply (counter_exact_iff h.inv h.lost).mpr
    exact ⟨h.reserved, fun p hp => (h.plain.whole p hp).2⟩
  · exact fun p hp b hb => Geometry.getVirtPageId_of_mem hb
  · intro id
    rw [h.inv.flow id, h.plain.lostPages, count_nil, Nat.add_zero]
  · intro p hp
    have whole := h.plain.whole p hp
    have size := (h.inv.sound p hp).size
    have pos := whole.1
    rw [← size]
    apply h.inv.occupied p hp
    rw [size, whole.2]
    omega

/-- The counters are exact after every run in which each new page has `get_num_blocks` blocks
and nothing gets reserved. -/
theorem counters_exact {ops : List Op} (along : Along (step g) (Counted g) {} ops)
    (ran : Contract.run (step g) {} ops = .ok m) : Exact g m := by
  have all : Ensures (Contract.run (step g) {} ops) (fun _ => True) (Unreserved g) := by
    apply along.ensures_run ?_ unreserved_empty
    intro m op h counted
    exact ensures_of_forall_ok fun m' ran => unreserved_step h counted ran
  exact (all.of_ok ran).exact

theorem counters_exact_two_blocks :
    ∃ m, Contract.run (step ⟨4, 1, by decide, by decide⟩) {}
      [.allocate 2 [.page 5], .drop 20] = .ok m ∧ Exact ⟨4, 1, by decide, by decide⟩ m := by
  have whole : PageAnswer.Whole ⟨4, 1, by decide, by decide⟩ (.page 5) :=
    ⟨by decide, by decide⟩
  have along : Along (step ⟨4, 1, by decide, by decide⟩)
      (Counted ⟨4, 1, by decide, by decide⟩) {} [.allocate 2 [.page 5], .drop 20] := by
    refine ⟨List.forall_mem_singleton.mpr whole, fun m _ => ⟨trivial, fun m' _ => trivial⟩⟩
  refine ⟨_, rfl, counters_exact along rfl⟩

/-- One block of a page of four is reserved and counts twice; a page of seven bytes has room for
two blocks of three, but page 1 has only one. -/
theorem reserved_block_counted_twice :
    (∃ m, Contract.run (step ⟨4, 1, by decide, by decide⟩) {} [.tryToReserve 1 1 [.page 0]] =
        .ok m ∧ m.reservedBlocks = [0] ∧ m.handedOut = [] ∧
      m.getNumAllocatedBlocks ⟨4, 1, by decide, by decide⟩ = 2 ∧
      ¬ Exact ⟨4, 1, by decide, by decide⟩ m) ∧
    (∃ m, Contract.run (step ⟨7, 3, by decide, by decide⟩) {} [.allocate 1 [.page 1]] =
        .ok m ∧ m.reservedBlocks = [] ∧ m.handedOut = [3] ∧
      m.getNumAllocatedBlocks ⟨7, 3, by decide, by decide⟩ = 2 ∧
      ¬ Exact ⟨7, 3, by decide, by decide⟩ m) :=
  ⟨⟨_, rfl, rfl, rfl, by decide, fun h => absurd h.allocated (by decide)⟩,
    ⟨_, rfl, rfl, rfl, by decide, fun h => absurd h.allocated (by decide)⟩⟩

end Manager

end Xllm.XTensorBlocks
