import Xllm.Block.Held
import Xllm.Block.Ownership

/-!
# When an allocation succeeds

`allocate(n)` first asks `has_enough_blocks`, which takes a `uint32_t` and evicts
cached blocks until `n` blocks are free. In every state of a manager and its
callers the answer is exact: the blocks that can be found are the free ones and
the cached ones whose only handle is the cache's, and an eviction that reports
enough blocks has freed that many.

Callers cache valid blocks only, as the pool does with the blocks of a sequence.
A request of `2 ^ 32` blocks or more is cut to 32 bits by the first question and
not by the check that follows it.
-/

namespace Xllm

open Contract Ledger List Multiset

namespace BlockManagerImpl

/-- The branch of `has_enough_blocks` that logs a potential block leak: the
eviction reported enough blocks, but they are not free. -/
def PotentialBlockLeak (m : BlockManagerImpl) (numBlocks : Nat) : Prop :=
  m.heap.numFreeBlocks < numBlocks % 2 ^ 32 ∧ m.options.enablePrefixCache = true ∧
    ∃ r, m.prefixCache.evict m.heap (numBlocks % 2 ^ 32 - m.heap.numFreeBlocks) = .ok r ∧
      numBlocks % 2 ^ 32 - m.heap.numFreeBlocks ≤ r.evictCount ∧
      r.heap.numFreeBlocks < numBlocks % 2 ^ 32

end BlockManagerImpl

namespace Sound

variable {m m' : BlockManagerImpl} {live : Multiset (Handle Int)} {bs : List Block} {n : Nat}

theorem count_of_not_shared (h : Sound m live)
    (hentries : ∀ b ∈ m.prefixCache.entries, b.refCount.isSome) {b : Block}
    (hb : b ∈ m.prefixCache.entries) (hone : m.heap.isShared b = false) :
    m.cachedIds.count b.id = 1 ∧ b.id ∉ ids live := by
  have hcount := h.owned.refCount_eq
    ((handle_le_handles hb).trans (Multiset.le_add_right _ _)) (hentries b hb)
  rw [Multiset.map_add, count_add, map_id_handles hentries, coe_count] at hcount
  have hpos := List.count_pos_iff.mpr (List.mem_map_of_mem (f := Block.id) hb)
  simp only [BlockHeap.isShared, decide_eq_false_iff_not] at hone
  rw [not_mem_ids_iff_count, BlockManagerImpl.cachedIds]
  omega

theorem available_le (h : Sound m live)
    (hentries : ∀ b ∈ m.prefixCache.entries, b.refCount.isSome) :
    m.available ≤ m.options.numBlocks := by
  have hfree : m.heap.free.length = m.heap.numFreeBlocks := by
    rw [BlockHeap.free, length_take]
    exact Nat.min_eq_left h.owned.numFree_le
  let alone := m.prefixCache.entries.filter fun b => !m.heap.isShared b
  have halone : ∀ b ∈ alone, b ∈ m.prefixCache.entries ∧ m.heap.isShared b = false :=
    fun b hb => by simpa [alone] using hb
  have hidle : ∀ b ∈ alone, m.cachedIds.count b.id = 1 := fun b hb =>
    (h.count_of_not_shared hentries (halone b hb).1 (halone b hb).2).1
  have hnodup : (alone.map Block.id).Nodup := by
    rw [List.nodup_iff_count_le_one]
    intro i
    by_cases hi : i ∈ alone.map Block.id
    · obtain ⟨b, hb, rfl⟩ := List.mem_map.mp hi
      rw [← hidle b hb]
      exact (List.filter_sublist.map Block.id).count_le b.id
    · rw [count_eq_zero_of_not_mem hi]
      exact Nat.zero_le 1
  have hhandle : ∀ b ∈ alone, ∃ k ∈ handles m.prefixCache.entries + live, k.id = b.id := by
    intro b hb
    obtain ⟨r, hr⟩ := Option.isSome_iff_exists.mp (hentries b (halone b hb).1)
    exact ⟨⟨b.id, r⟩, Multiset.mem_add.mpr (.inl (mem_handles.mpr
      ⟨b, (halone b hb).1, Block.mem_handle.mpr ⟨hr, rfl⟩⟩)), rfl⟩
  have hall : (m.heap.free ++ alone.map Block.id).Nodup := by
    refine List.nodup_append.mpr ⟨h.owned.balanced.nodup, hnodup, ?_⟩
    rintro i hi j hj rfl
    obtain ⟨b, hb, rfl⟩ := List.mem_map.mp hj
    obtain ⟨k, hk, hid⟩ := hhandle b hb
    exact h.owned.not_mem_free hk (hid ▸ hi)
  have hlen := length_le_of_nodup_range (n := m.options.numBlocks) hall fun i hi => by
    rw [← h.numBlocks_eq]
    rcases List.mem_append.mp hi with hi | hi
    · exact (h.owned.balanced.cover i).mpr (.inl hi)
    · obtain ⟨b, hb, rfl⟩ := List.mem_map.mp hi
      obtain ⟨k, hk, hid⟩ := hhandle b hb
      exact hid ▸ h.owned.id_range hk
  rw [length_append, hfree, length_map] at hlen
  rw [BlockManagerImpl.available]
  split
  · rw [countP_eq_length_filter]
    exact hlen
  · omega

theorem not_potentialBlockLeak (h : Sound m live)
    (hentries : ∀ b ∈ m.prefixCache.entries, b.refCount.isSome) :
    ¬m.PotentialBlockLeak n := by
  rintro ⟨hshort, -, r, hr, hcount, hleak⟩
  have hevict := (PrefixCache.evict_owned h.wf (n % 2 ^ 32 - m.heap.numFreeBlocks) h.owned).of_ok hr
  have hall := List.countP_eq_length.mpr fun b hb =>
    hentries b ((Lru.sweep_perm m.heap.isShared (n % 2 ^ 32 - m.heap.numFreeBlocks)
      m.prefixCache.entries).subset (mem_append_left _ hb))
  omega

theorem allocate_of_short (h : Sound m live)
    (hentries : ∀ b ∈ m.prefixCache.entries, b.refCount.isSome)
    (hshort : m.available < n % 2 ^ 32) : ∃ r, m.allocate n = .ok r := by
  obtain ⟨⟨enough, m₁⟩, hask, -, -, hiff⟩ := (h.hasEnoughBlocks n).exists_ok
  have hno : enough = false := by
    rw [← Bool.not_eq_true, hiff hentries]
    omega
  rw [BlockManagerImpl.allocate, hask, hno]
  exact ⟨([], m₁), rfl⟩

theorem Allocated.refCount_eq (h : Allocated m live n bs m') (hm : Sound m live)
    (hentries : ∀ b ∈ m.prefixCache.entries, b.refCount.isSome) {b : Block}
    (hb : b.handle ≤ live) : m'.heap.refCount b = m.heap.refCount b := by
  cases hr : b.refCount with
  | none => simp [BlockHeap.refCount, hr]
  | some r =>
      have hvalid : b.refCount.isSome := by simp [hr]
      obtain ⟨k, hkept, -⟩ := h.swept
      have hsweep := Lru.sweep_perm m.heap.isShared k m.prefixCache.entries
      have hkeptValid : ∀ c ∈ m'.prefixCache.entries, c.refCount.isSome := by
        intro c hc
        rw [hkept] at hc
        exact hentries c (hsweep.subset (mem_append_right _ hc))
      have hheld : b.id ∈ ids live :=
        mem_ids.mpr ⟨⟨b.id, r⟩, mem_of_le hb (Block.mem_handle.mpr ⟨hr, rfl⟩), rfl⟩
      -- No evicted block is held, so the cache names the block as often as before.
      have hgone : ((Lru.sweep m.heap.isShared k m.prefixCache.entries).2.map Block.id).count b.id =
          0 := by
        rw [List.count_eq_zero]
        intro hmem
        obtain ⟨c, hc, hid⟩ := List.mem_map.mp hmem
        have hone := hm.count_of_not_shared hentries
          (hsweep.subset (mem_append_left _ hc)) (Lru.not_inUse_of_mem_sweep hc)
        exact hone.2 (hid ▸ hheld)
      have hcached : m'.cachedIds.count b.id = m.cachedIds.count b.id := by
        rw [BlockManagerImpl.cachedIds, BlockManagerImpl.cachedIds, hkept,
          ← (hsweep.map Block.id).count_eq, map_append, count_append, hgone, Nat.zero_add]
      have hnew : ((handles bs).map Handle.id).count b.id = 0 := by
        rw [map_id_handles h.valid, coe_count, List.count_eq_zero]
        intro hmem
        obtain ⟨c, hc, hid⟩ := List.mem_map.mp hmem
        exact h.fresh_ids.2 c hc (hid ▸ hheld)
      rw [h.sound.refCount_eq_add hkeptValid (hb.trans (Multiset.le_add_left _ _)) hvalid,
        hm.refCount_eq_add hentries hb hvalid, hcached, Multiset.map_add, count_add, hnew,
        Nat.zero_add]

end Sound

namespace ManagerState

variable {st : ManagerState} {options : Options}

/-- `n` distinct blocks, of which no handle was live outside the prefix cache. -/
structure FreshBlocks (st : ManagerState) (n : Nat) (bs : List Block) : Prop where
  length_eq : bs.length = n
  distinct : (bs.map Block.id).Nodup
  unheld : ∀ b ∈ bs, ∀ c ∈ st.manager.paddingBlock :: st.held, c.refCount.isSome → c.id ≠ b.id

structure HeldUnchanged (st : ManagerState) (m : BlockManagerImpl) : Prop where
  refCount_eq : ∀ b ∈ st.held, m.heap.refCount b = st.manager.heap.refCount b
  not_free : ∀ b ∈ st.held, b.refCount.isSome → b.id ∉ m.heap.free

/-- `allocate(n)` succeeds exactly when the blocks can be found, and otherwise
returns nothing; the eviction on the way never leaks. -/
structure AllocatesExactly (st : ManagerState) (n : Nat) : Prop where
  returns_iff : (∃ bs m, st.manager.allocate n = .ok (bs, m) ∧ FreshBlocks st n bs) ↔
    n ≤ st.manager.available
  otherwise : st.manager.available < n →
    ∃ m, st.manager.allocate n = .ok ([], m) ∧ HeldUnchanged st m
  no_leak : ¬st.manager.PotentialBlockLeak n

def CachesValid (st : ManagerState) : ManagerOp → Prop
  | .cache _ start len _ => ∀ b ∈ st.slice start len, b.refCount.isSome
  | _ => True

instance (st : ManagerState) (op : ManagerOp) : Decidable (st.CachesValid op) := by
  cases op <;> unfold CachesValid <;> infer_instance

/-- The invariant of the runs in which only valid blocks are cached. -/
structure Tidy (options : Options) (st : ManagerState) : Prop where
  inv : Inv options st
  entries_valid : ∀ b ∈ st.manager.prefixCache.entries, b.refCount.isSome

theorem valid_of_stored {c : PrefixCache} {s : BlockHeap} {blocks : List Block}
    {r : PrefixCache.Inserted} (h : c.Wf) (hr : PrefixCache.Stored c s blocks r)
    (hentries : ∀ b ∈ c.entries, b.refCount.isSome) (hblocks : ∀ b ∈ blocks, b.refCount.isSome) :
    ∀ b ∈ r.cache.entries, b.refCount.isSome := by
  intro b hb
  rcases List.mem_append.mp ((hr.perm h).mem_iff.mp hb) with hb | hb
  · exact hblocks b ((Lru.walkStored_sublist _ _).subset hb)
  · exact hentries b hb

section

variable [XXH3]

theorem Tidy.step (h : Tidy options st) (op : ManagerOp) (hop : st.CachesValid op) :
    IfOk (st.step op) (Tidy options) := by
  have hinv := h.inv.step op
  suffices hvalid : IfOk (st.step op)
      (fun t => ∀ b ∈ t.manager.prefixCache.entries, b.refCount.isSome) from
    (hinv.and hvalid).ifOk.mono_post fun t ht => ⟨ht.1, ht.2⟩
  have hentries := h.entries_valid
  cases op with
  | allocate n =>
      refine (h.inv.sound.allocate n).ifOk.bind
        fun r hr => ?_
      obtain ⟨k, hkept, -⟩ := hr.swept
      intro b hb
      rw [hkept] at hb
      exact hentries b ((Lru.sweep_kept_sublist k _).subset hb)
  | allocateOne =>
      rw [ManagerState.step, BlockManagerImpl.allocateOne]
      split
      · exact hentries
      · exact trivial
  | allocateShared tokens start len =>
      have hslice : ∀ b ∈ st.slice start len, b.handle ≤ handles st.held :=
        fun b hb => mem_held_of_mem_slice hb
      refine (h.inv.sound.allocateShared tokens hslice).ifOk.bind fun r hr => ?_
      exact fun b hb => hentries b (hr.entries_perm.mem_iff.mp hb)
  | cache tokens start len k =>
      have hcache : IfOk (st.manager.cache tokens (st.slice start len) k)
          (fun r => ∀ b ∈ r.2.prefixCache.entries, b.refCount.isSome) := by
        rw [BlockManagerImpl.cache]
        split
        · have hinsert := PrefixCache.insert_ensures h.inv.sound.wf st.manager.heap tokens
            (st.slice start len) k
          refine hinsert.ifOk.bind fun r hr => ?_
          obtain ⟨-, -, -, hstored⟩ := hr
          refine valid_of_stored h.inv.sound.wf hstored hentries fun b hb => ?_
          obtain ⟨a, ha, hcore⟩ := PrefixCache.exists_of_mem_stamped hb
          rw [← (Block.core_eq_iff.mp hcore).2.2]
          exact hop a ha
        · exact hentries
      exact hcache.bind fun r hr => hr
  | cacheBlocks start len =>
      rw [ManagerState.step, BlockManagerImpl.cacheBlocks]
      split
      · refine valid_of_stored h.inv.sound.wf (PrefixCache.insertBlocks_stored h.inv.sound.wf
          st.manager.heap (st.slice start len)) hentries fun b hb => ?_
        have hisValid := List.of_mem_filter hb
        simp only [Block.isValid, Bool.and_eq_true] at hisValid
        exact hisValid.2
      · exact hentries
  | deallocate start len =>
      refine (h.inv.sound.deallocate (st.slice start len)).ifOk.bind fun m hm => ?_
      obtain ⟨-, ⟨used, rfl⟩, -⟩ := hm
      exact hentries
  | copy i =>
      rw [ManagerState.step]
      split <;> exact hentries
  | copyAssign i j =>
      rw [ManagerState.step]
      split
      · split
        · exact hentries
        · exact ensures_any.bind fun _ _ => hentries
      · exact hentries
  | move i =>
      rw [ManagerState.step]
      split <;> exact hentries
  | moveAssign i j =>
      rw [ManagerState.step]
      split
      · split
        · exact hentries
        · exact ensures_any.bind fun _ _ => hentries
      · exact hentries
  | drop i =>
      rw [ManagerState.step]
      split
      · exact ensures_any.bind fun _ _ => hentries
      · exact hentries

end

theorem Tidy.freshBlocks {n : Nat} {bs : List Block} {m : BlockManagerImpl}
    (h : Tidy options st) (hr : Sound.Allocated st.manager (handles st.held) n bs m)
    (hlen : bs.length = n) : FreshBlocks st n bs := by
  refine ⟨hlen, hr.fresh_ids.1, fun b hb c hc hvalid hid => ?_⟩
  obtain ⟨r, hcr⟩ := Option.isSome_iff_exists.mp hvalid
  rcases List.mem_cons.mp hc with rfl | hc
  · -- Block 0 stays with the padding handle.
    obtain ⟨k, hk⟩ := Option.isSome_iff_exists.mp (hr.valid b hb)
    have hmem : (⟨b.id, k⟩ : Handle Int) ∈ handles bs + handles st.held :=
      Multiset.mem_add.mpr (.inl (mem_handles.mpr ⟨b, hb, Block.mem_handle.mpr ⟨hk, rfl⟩⟩))
    refine hr.sound.owned.nonzero _ (Multiset.mem_add.mpr (.inr hmem)) ?_
    rw [← hid]
    exact h.inv.sound.owned.padding_id
  · refine hr.fresh_ids.2 b hb (mem_ids.mpr ⟨⟨c.id, r⟩, mem_handles.mpr ⟨c, hc, ?_⟩, hid⟩)
    exact Block.mem_handle.mpr ⟨hcr, rfl⟩

theorem Tidy.heldUnchanged {n : Nat} {m : BlockManagerImpl} (h : Tidy options st)
    (hr : Sound.Allocated st.manager (handles st.held) n [] m) : HeldUnchanged st m := by
  refine ⟨fun b hb => hr.refCount_eq h.inv.sound h.entries_valid (handle_le_handles hb),
    fun b hb hvalid => ?_⟩
  obtain ⟨r, hbr⟩ := Option.isSome_iff_exists.mp hvalid
  have hmem : (⟨b.id, r⟩ : Handle Int) ∈
      handles m.prefixCache.entries + (handles [] + handles st.held) :=
    Multiset.mem_add.mpr (.inr (Multiset.mem_add.mpr (.inr
      (mem_handles.mpr ⟨b, hb, Block.mem_handle.mpr ⟨hbr, rfl⟩⟩))))
  exact hr.sound.owned.not_mem_free hmem

/-- A request that is not cut short succeeds exactly when the blocks can be found. -/
theorem Tidy.allocatesExactly (h : Tidy options st) (hsize : st.manager.available < 2 ^ 32)
    (n : Nat) : AllocatesExactly st n ↔ n < 2 ^ 32 ∨ st.manager.available < n % 2 ^ 32 := by
  have hleak := h.inv.sound.not_potentialBlockLeak (n := n) h.entries_valid
  have hallocate := h.inv.sound.allocate n
  constructor
  · intro hexact
    by_contra hcut
    obtain ⟨m, hm, -⟩ := hexact.otherwise (by omega)
    rw [hm] at hallocate
    have hr : Sound.Allocated st.manager (handles st.held) n [] m := hallocate
    have hzero := (hr.enough h.entries_valid).mpr (by omega)
    rw [length_nil] at hzero
    omega
  · intro hfine
    obtain ⟨⟨bs, m⟩, hcase⟩ : ∃ r, st.manager.allocate n = .ok r := by
      rcases hfine with hsmall | hshort
      · refine (hallocate.mono (fun e he => ?_) fun _ hr => hr).exists_ok.imp fun _ hr => hr.1
        omega
      · exact (h.inv.sound.allocate_of_short h.entries_valid hshort).imp fun _ hr => hr
    rw [hcase] at hallocate
    have hr : Sound.Allocated st.manager (handles st.held) n bs m := hallocate
    have henough := hr.enough h.entries_valid
    have hcut : n % 2 ^ 32 ≤ st.manager.available ↔ n ≤ st.manager.available := by
      rcases hfine with hsmall | hshort
      · rw [Nat.mod_eq_of_lt hsmall]
      · have hle := Nat.mod_le n (2 ^ 32)
        exact iff_of_false (by omega) (by omega)
    rw [hcut] at henough
    refine ⟨⟨?_, fun hle => ⟨bs, m, hcase, h.freshBlocks hr (henough.mpr hle)⟩⟩, ?_, hleak⟩
    · rintro ⟨bs', m', hsame, hfresh⟩
      cases hcase.symm.trans hsame
      exact henough.mp hfresh.length_eq
    · intro hshort
      have hne : bs.length ≠ n := fun hlen => Nat.not_le_of_lt hshort (henough.mp hlen)
      rcases hr.length_eq with rfl | hlen
      · exact ⟨m, hcase, h.heldUnchanged hr⟩
      · exact absurd hlen hne

/-- In every state that a new manager and its callers reach, a request for `n` blocks
succeeds exactly when they can be found, unless it is cut to 32 bits and then fits. -/
theorem run_allocates_exactly [XXH3] {options : Options} {m : BlockManagerImpl}
    (hblocks : options.numBlocks < 2 ^ 32) (hcreate : BlockManagerImpl.create options = .ok m)
    {ops : List ManagerOp} (along : Along step CachesValid ⟨m, []⟩ ops) :
    Ensures (run step ⟨m, []⟩ ops) (fun _ => True) fun st =>
      ∀ n, AllocatesExactly st n ↔ n < 2 ^ 32 ∨ st.manager.available < n % 2 ^ 32 := by
  obtain ⟨hsound, hoptions, -, hempty⟩ := Sound.of_create hcreate
  have hstart : Tidy options ⟨m, []⟩ := ⟨⟨hsound, hoptions⟩, by simp [hempty]⟩
  refine (along.ensures_run (fun st op h hop => h.step op hop) hstart).mono_post fun st h n => ?_
  have hle := h.inv.sound.available_le h.entries_valid
  rw [h.inv.options_eq] at hle
  exact h.allocatesExactly (Nat.lt_of_le_of_lt hle hblocks) n

theorem run_allocates_exactly_evicting :
    let _ : XXH3 := XXH3.lastBytes
    ∃ m, BlockManagerImpl.create ⟨4, 1, true⟩ = .ok m ∧
      Ensures (run step ⟨m, []⟩
          [.allocate 2, .cache [1, 2] 0 2 0, .drop 0, .drop 0, .allocate 2])
        (fun _ => True) fun st =>
          ∀ n, AllocatesExactly st n ↔ n < 2 ^ 32 ∨ st.manager.available < n % 2 ^ 32 := by
  intro hash
  have hcreate : BlockManagerImpl.create ⟨4, 1, true⟩ = .ok _ := rfl
  refine ⟨_, hcreate, @run_allocates_exactly _ ⟨4, 1, true⟩ _ (by decide) hcreate _ ?_⟩
  decide +kernel

/-- A request for `2 ^ 32` blocks passes the first question as a request for none,
and then fails the check. -/
theorem request_cut_to_32_bits :
    ∃ m, BlockManagerImpl.create ⟨4, 1, true⟩ = .ok m ∧ m.available < 2 ^ 32 ∧
      m.allocate (2 ^ 32) = .error .notEnoughBlocks ∧ ¬AllocatesExactly ⟨m, []⟩ (2 ^ 32) := by
  have hcreate : BlockManagerImpl.create ⟨4, 1, true⟩ = .ok _ := rfl
  have hfails : ∀ m, BlockManagerImpl.create ⟨4, 1, true⟩ = .ok m →
      m.available < 2 ^ 32 ∧ m.allocate (2 ^ 32) = .error .notEnoughBlocks := by
    intro m hm
    cases hcreate.symm.trans hm
    exact ⟨by decide, rfl⟩
  obtain ⟨hshort, herror⟩ := hfails _ hcreate
  refine ⟨_, hcreate, hshort, herror, fun hexact => ?_⟩
  obtain ⟨m, hm, -⟩ := hexact.otherwise hshort
  cases herror.symm.trans hm

end ManagerState

end Xllm
