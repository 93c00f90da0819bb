import Xllm.Block.PoolRun

/-!
# Counting the blocks in use

`num_used_blocks_` should be the number of block ids that some handle outside the
prefix cache names. The manager does not look for such handles: it compares a
reference count with two, one handle for the caller and one for the cache. The
lemmas below say when this comparison is right, for the two members that use it
and for a request of new blocks.
-/

namespace Xllm

open Contract Ledger Multiset

variable {bs : List Block} {live : Multiset (Handle Int)} {m m' : BlockManagerImpl}

@[simp] theorem ids_handles (hvalid : ∀ b ∈ bs, b.refCount.isSome) :
    ids (handles bs) = (bs.map Block.id).toFinset := by
  rw [ids, map_id_handles hvalid]
  rfl

theorem id_mem_ids_handles {b : Block} (hb : b ∈ bs) (hvalid : b.refCount.isSome) :
    b.id ∈ ids (handles bs) := by
  obtain ⟨r, hr⟩ := Option.isSome_iff_exists.mp hvalid
  exact mem_ids.mpr ⟨⟨b.id, r⟩, mem_handles.mpr ⟨b, hb, Block.mem_handle.mpr ⟨hr, rfl⟩⟩, rfl⟩

theorem card_ids_handles_add (hvalid : ∀ b ∈ bs, b.refCount.isSome)
    (hnodup : (bs.map Block.id).Nodup) :
    (ids (handles bs + live)).card = (ids live).card + bs.countP fun b => b.id ∉ ids live := by
  induction bs with
  | nil => simp
  | cons b bs ih =>
      obtain ⟨hnew, hnodup⟩ := List.nodup_cons.mp hnodup
      have hrest : ∀ c ∈ bs, c.refCount.isSome := fun c hc => hvalid c (List.mem_cons_of_mem _ hc)
      have hone : ids b.handle = {b.id} := by
        have hids : ids (handles [b]) = ([b].map Block.id).toFinset :=
          ids_handles (by simpa using hvalid b List.mem_cons_self)
        simpa using hids
      have hmem : b.id ∈ ids (handles bs + live) ↔ b.id ∈ ids live := by
        rw [ids_add, Finset.mem_union, ids_handles hrest, List.mem_toFinset]
        exact or_iff_right hnew
      rw [handles_cons, add_assoc, ids_add, hone, ← Finset.insert_eq, List.countP_cons,
        ← Nat.add_assoc, ← ih hrest hnodup]
      by_cases hheld : b.id ∈ ids live
      · rw [Finset.insert_eq_self.mpr (hmem.mpr hheld)]
        simp [hheld]
      · rw [Finset.card_insert_of_notMem (fun h => hheld (hmem.mp h))]
        simp [hheld]

def BlockManagerImpl.cachedIds (m : BlockManagerImpl) : List Int :=
  m.prefixCache.entries.map Block.id

namespace Sound

theorem refCount_eq_add (h : Sound m live)
    (hentries : ∀ b ∈ m.prefixCache.entries, b.refCount.isSome) {b : Block} (hb : b.handle ≤ live)
    (hvalid : b.refCount.isSome) :
    m.heap.refCount b = m.cachedIds.count b.id + (live.map Handle.id).count b.id := by
  rw [h.refCount_eq hb hvalid, map_id_handles hentries, coe_count]
  rfl

theorem count_handles_add (hvalid : ∀ b ∈ bs, b.refCount.isSome)
    (hnodup : (bs.map Block.id).Nodup) {b : Block} (hb : b ∈ bs) :
    ((handles bs + live).map Handle.id).count b.id = 1 + (live.map Handle.id).count b.id := by
  rw [Multiset.map_add, count_add, map_id_handles hvalid, coe_count,
    List.count_eq_one_of_mem hnodup (List.mem_map_of_mem hb)]

/-- `allocate_shared` counts exactly the matched blocks that nobody used, when all
of them are in the cache once. -/
theorem Shared.used_add [XXH3] {tokenIds : List Token} {existed : List Block}
    (h : Shared m live tokenIds existed bs m')
    (hentries : ∀ b ∈ m.prefixCache.entries, b.refCount.isSome) (hdistinct : m.cachedIds.Nodup)
    (hvalid : ∀ b ∈ bs, b.refCount.isSome) (hnodup : (bs.map Block.id).Nodup)
    (hcached : ∀ b ∈ bs, b.id ∈ m.cachedIds) :
    m'.numUsedBlocks + (ids live).card = m.numUsedBlocks + (ids (handles bs + live)).card := by
  have hperm : m'.cachedIds.Perm m.cachedIds := h.entries_perm.map Block.id
  have hentries' : ∀ b ∈ m'.prefixCache.entries, b.refCount.isSome :=
    fun b hb => hentries b (h.entries_perm.mem_iff.mp hb)
  have hcount : bs.countP (fun b => decide (m'.heap.refCount b ≤ 2)) =
      bs.countP fun b => decide (b.id ∉ ids live) := by
    refine List.countP_congr fun b hb => ?_
    have hle : b.handle ≤ handles bs + live :=
      (handle_le_handles hb).trans (Multiset.le_add_right _ _)
    have honce : m'.cachedIds.count b.id = 1 := by
      rw [hperm.count_eq]
      exact List.count_eq_one_of_mem hdistinct (hcached b hb)
    rw [decide_eq_true_iff, decide_eq_true_iff,
      h.sound.refCount_eq_add hentries' hle (hvalid b hb),
      count_handles_add hvalid hnodup hb, not_mem_ids_iff_count]
    omega
  rw [h.used_eq, card_ids_handles_add hvalid hnodup]
  omega

theorem Allocated.fresh_ids {n : Nat} (h : Allocated m live n bs m') :
    (bs.map Block.id).Nodup ∧ ∀ b ∈ bs, b.id ∉ ids live := by
  have hcount : ∀ b ∈ bs,
      ((handles m'.prefixCache.entries + (handles bs + live)).map Handle.id).count b.id = 1 := by
    intro b hb
    rw [← h.sound.owned.refCount_eq ?_ (h.valid b hb), h.fresh b hb]
    exact ((handle_le_handles hb).trans (Multiset.le_add_right _ _)).trans
      (Multiset.le_add_left _ _)
  simp only [Multiset.map_add, count_add, map_id_handles h.valid,
    coe_count] at hcount
  constructor
  · rw [List.nodup_iff_count_le_one]
    intro i
    by_cases hi : i ∈ bs.map Block.id
    · obtain ⟨b, hb, rfl⟩ := List.mem_map.mp hi
      have := hcount b hb
      omega
    · rw [List.count_eq_zero_of_not_mem hi]
      exact Nat.zero_le 1
  · intro b hb
    rw [not_mem_ids_iff_count]
    have hpos := List.count_pos_iff.mpr (List.mem_map_of_mem (f := Block.id) hb)
    have := hcount b hb
    omega

theorem Allocated.card_ids {n : Nat} (h : Allocated m live n bs m') :
    (ids (handles bs + live)).card = (ids live).card + bs.length := by
  obtain ⟨hnodup, hnew⟩ := h.fresh_ids
  rw [card_ids_handles_add h.valid hnodup, Nat.add_left_cancel_iff, List.countP_eq_length]
  intro b hb
  rw [decide_eq_true_iff]
  exact hnew b hb

theorem Allocated.cachedIds_mem {n : Nat} (h : Allocated m live n bs m') (hm : Sound m live)
    (hentries : ∀ b ∈ m.prefixCache.entries, b.refCount.isSome) {i : Int}
    (hcached : i ∈ m.cachedIds) (hheld : i ∈ ids live) : i ∈ m'.cachedIds := by
  obtain ⟨k, hkept, -⟩ := h.swept
  obtain ⟨b, hb, rfl⟩ := List.mem_map.mp hcached
  have hmem := (Lru.sweep_perm m.heap.isShared k m.prefixCache.entries).mem_iff.mpr hb
  rcases List.mem_append.mp hmem with hgone | hstays
  · -- An evicted block has one handle, but this one has two.
    have hone := Lru.not_inUse_of_mem_sweep hgone
    have hcount := hm.owned.refCount_eq
      ((handle_le_handles hb).trans (Multiset.le_add_right _ _)) (hentries b hb)
    have hpos := mem_ids_iff_count_pos.mp hheld
    have hpos' := mem_ids_iff_count_pos.mp (id_mem_ids_handles hb (hentries b hb))
    rw [Multiset.map_add, count_add] at hcount
    simp only [BlockHeap.isShared, decide_eq_false_iff_not] at hone
    omega
  · rw [BlockManagerImpl.cachedIds, hkept]
    exact List.mem_map_of_mem hstays

theorem Allocated.distinct {n : Nat} (h : Allocated m live n bs m') (hm : m.cachedIds.Nodup) :
    m'.cachedIds.Nodup := by
  obtain ⟨k, hkept, -⟩ := h.swept
  rw [BlockManagerImpl.cachedIds, hkept]
  exact hm.sublist ((Lru.sweep_kept_sublist k _).map Block.id)

/-- The blocks that `deallocate` counts down are those that nobody else uses, when
every block with one other handle is in the cache. -/
theorem countP_releasable (h : Sound m (handles bs + live))
    (hentries : ∀ b ∈ m.prefixCache.entries, b.refCount.isSome) (hdistinct : m.cachedIds.Nodup)
    (hvalid : ∀ b ∈ bs, b.refCount.isSome) (hnodup : (bs.map Block.id).Nodup)
    (hcached : ∀ b ∈ bs, (live.map Handle.id).count b.id = 1 → b.id ∈ m.cachedIds) :
    (ids (handles bs + live)).card = (ids live).card + bs.countP m.releasable := by
  rw [card_ids_handles_add hvalid hnodup, Nat.add_left_cancel_iff]
  refine List.countP_congr fun b hb => ?_
  have hle : b.handle ≤ handles bs + live :=
    (handle_le_handles hb).trans (Multiset.le_add_right _ _)
  obtain ⟨r, hr⟩ := Option.isSome_iff_exists.mp (hvalid b hb)
  have hid : 0 ≤ b.id := (h.owned.id_range (h := ⟨b.id, r⟩) (mem_of_le
    (hle.trans (Multiset.le_add_left _ _)) (Block.mem_handle.mpr ⟨hr, rfl⟩))).1
  have hcount := h.refCount_eq_add hentries hle (hvalid b hb)
  rw [count_handles_add hvalid hnodup hb] at hcount
  have honce : m.cachedIds.count b.id ≤ 1 := List.nodup_iff_count_le_one.mp hdistinct b.id
  have hone : (live.map Handle.id).count b.id = 1 → m.cachedIds.count b.id = 1 := fun hlive =>
    List.count_eq_one_of_mem hdistinct (hcached b hb hlive)
  simp only [BlockManagerImpl.releasable, Block.isValid, hid, decide_true, hvalid b hb,
    Bool.true_and, decide_eq_true_iff, not_mem_ids_iff_count]
  omega

end Sound

end Xllm
