import Xllm.Block.Basic

/-!
# Ownership of block handles

`Owned s padding live` is the ledger of one manager's heap: besides the padding
handle, the live handles are exactly `live`. Each handle operation of the source
has one contract here, stated on the multiset of handles, so that the proofs
above never look at a counter cell. None of the operations can abort while the
ledger is balanced; in particular the bound check of `free` never fires.
-/

namespace Xllm

open Contract Ledger List Multiset

def BlockId (numBlocks : Nat) (i : Int) : Prop := 0 ≤ i ∧ i < numBlocks

/-- The heap is balanced with the padding handle and `live`, and block 0 is
held by the padding handle alone. -/
structure Owned (s : BlockHeap) (padding : Block) (live : Multiset (Handle Int)) : Prop where
  balanced : Balanced (BlockId s.freeBlocks.length) s.refCounts s.nextRef s.free
    (padding.handle + live)
  padding_id : padding.id = 0
  padding_live : padding.refCount.isSome
  nonzero : ∀ h ∈ live, h.id ≠ 0
  numFree_le : s.numFreeBlocks ≤ s.freeBlocks.length

namespace Owned

variable {s t : BlockHeap} {padding b : Block} {live : Multiset (Handle Int)}
variable {bs : List Block} {h : Handle Int}

theorem mem_padding (o : Owned s padding live) : ∃ h ∈ padding.handle, h.id = 0 := by
  obtain ⟨r, hr⟩ := Option.isSome_iff_exists.mp o.padding_live
  exact ⟨⟨padding.id, r⟩, Block.mem_handle.mpr ⟨hr, rfl⟩, o.padding_id⟩

theorem not_mem_padding (o : Owned s padding live) (hh : h ∈ live) :
    ∀ k ∈ padding.handle, k.id ≠ h.id := by
  intro k hk he
  have hid := (Block.mem_handle.mp hk).2
  exact o.nonzero h hh (by rw [← he, hid, o.padding_id])

theorem refCount_eq (o : Owned s padding live) (hb : b.handle ≤ live)
    (hvalid : b.refCount.isSome) : s.refCount b = (live.map Handle.id).count b.id := by
  obtain ⟨r, hr⟩ := Option.isSome_iff_exists.mp hvalid
  have hmem : (⟨b.id, r⟩ : Handle Int) ∈ live :=
    mem_of_le hb (Block.mem_handle.mpr ⟨hr, rfl⟩)
  have hcount := o.balanced.count_eq _ (Multiset.mem_add.mpr (.inr hmem))
  have hzero : (padding.handle.map Handle.id).count b.id = 0 := by
    rw [Multiset.count_eq_zero, Multiset.mem_map]
    rintro ⟨k, hk, he⟩
    exact o.not_mem_padding hmem k hk he
  rw [Multiset.map_add, count_add, hzero, Nat.zero_add] at hcount
  simpa only [BlockHeap.refCount, hr] using hcount

theorem id_range (o : Owned s padding live) (hh : h ∈ live) :
    BlockId s.freeBlocks.length h.id :=
  (o.balanced.cover h.id).mpr (.inr ⟨h, Multiset.mem_add.mpr (.inr hh), rfl⟩)

theorem not_mem_free (o : Owned s padding live) (hh : h ∈ live) : h.id ∉ s.free :=
  o.balanced.disjoint h (Multiset.mem_add.mpr (.inr hh))

/-- A block taken from the free list is owned by its one handle. -/
theorem takeBlock (o : Owned s padding live) (hfree : 0 < s.numFreeBlocks) (size : Nat) :
    Owned (s.takeBlock size).2 padding ((s.takeBlock size).1.handle + live) := by
  have hlt : s.numFreeBlocks - 1 < s.freeBlocks.length := by
    have := o.numFree_le
    omega
  obtain ⟨i, hi⟩ : ∃ i, s.freeBlocks.getD (s.numFreeBlocks - 1) 0 = i := ⟨_, rfl⟩
  have hget : s.freeBlocks[s.numFreeBlocks - 1] = i := by
    rw [← hi, getD_eq_getElem?_getD, getElem?_eq_getElem hlt, Option.getD_some]
  have hsplit : s.free = s.freeBlocks.take (s.numFreeBlocks - 1) ++ [i] := by
    rw [← hget, ← take_succ_eq_append_getElem hlt, BlockHeap.free, Nat.sub_add_cancel hfree]
  have hperm : (i :: s.freeBlocks.take (s.numFreeBlocks - 1)).Perm s.free := by
    rw [hsplit]
    exact (perm_append_singleton _ _).symm
  have hnew := (o.balanced.perm_free hperm).acquire
  have hhandle : (s.takeBlock size).1.handle = {⟨i, s.nextRef⟩} := by
    simp only [BlockHeap.takeBlock, Block.handle, hi]
  have hfresh : i ∈ s.free := by simp [hsplit]
  refine ⟨?_, o.padding_id, o.padding_live, ?_, Nat.le_of_lt hlt⟩
  · rw [hhandle, ← add_assoc, add_comm padding.handle, add_assoc]
    exact hnew
  · intro h hh
    rw [hhandle, singleton_add, Multiset.mem_cons] at hh
    rcases hh with rfl | hh
    · obtain ⟨k, hk, hzero⟩ := o.mem_padding
      intro he
      exact o.balanced.disjoint k (Multiset.mem_add.mpr (.inl hk))
        (by rw [hzero, ← he]; exact hfresh)
    · exact o.nonzero h hh

theorem incRefCount (o : Owned s padding live) (hb : b.handle ≤ live) :
    Owned (s.incRefCount b) padding (b.handle + live) := by
  unfold BlockHeap.incRefCount
  split
  · rename_i hr
    have hnone : b.handle = 0 := by simp [Block.handle, hr]
    rw [hnone, zero_add]
    exact o
  · rename_i r hr
    have hhandle : b.handle = {⟨b.id, r⟩} := by simp [Block.handle, hr]
    have hmem : (⟨b.id, r⟩ : Handle Int) ∈ live :=
      mem_of_le hb (Block.mem_handle.mpr ⟨hr, rfl⟩)
    refine ⟨?_, o.padding_id, o.padding_live, ?_, o.numFree_le⟩
    · rw [hhandle, ← add_assoc, add_comm padding.handle, add_assoc]
      exact o.balanced.retain (Multiset.mem_add.mpr (.inr hmem))
    · intro h hh
      rw [hhandle, singleton_add, Multiset.mem_cons] at hh
      rcases hh with rfl | hh
      · exact o.nonzero _ hmem
      · exact o.nonzero h hh

theorem incAll (o : Owned s padding live) (hbs : ∀ b ∈ bs, b.handle ≤ live) :
    Owned (s.incAll bs) padding (handles bs + live) := by
  induction bs generalizing s live with
  | nil => simpa using o
  | cons b bs ih =>
      have hcopy := o.incRefCount (hbs b List.mem_cons_self)
      have hrest := ih hcopy fun c hc =>
        (hbs c (List.mem_cons_of_mem _ hc)).trans (Multiset.le_add_left _ _)
      rw [handles_cons, add_assoc, add_left_comm]
      exact hrest

/-- Freeing an id that no live handle names. The bound check holds because the
free ids and this one are distinct numbers below the number of blocks. -/
private theorem freeBlock_ok {i : Int} {count : Nat → Nat} {live' : Multiset (Handle Int)}
    (hi : i ≠ 0) (hle : s.numFreeBlocks ≤ s.freeBlocks.length)
    (hbalanced : Balanced (BlockId s.freeBlocks.length) count s.nextRef (i :: s.free) live') :
    ∃ t, BlockHeap.freeBlock { s with refCounts := count } i = .ok t ∧
      t.refCounts = count ∧ t.nextRef = s.nextRef ∧
      t.freeBlocks.length = s.freeBlocks.length ∧
      t.numFreeBlocks = s.numFreeBlocks + 1 ∧
      t.free.Perm (i :: s.free) := by
  have hrange : ∀ j ∈ i :: s.free, BlockId s.freeBlocks.length j :=
    fun j hj => (hbalanced.cover j).mpr (.inl hj)
  have hlen := length_le_of_nodup_range hbalanced.nodup hrange
  have hfree : s.free.length = s.numFreeBlocks := by
    rw [BlockHeap.free, length_take, Nat.min_eq_left hle]
  have hlt : s.numFreeBlocks < s.freeBlocks.length := by
    rw [length_cons, hfree] at hlen
    exact hlen
  refine ⟨⟨count, s.nextRef, s.freeBlocks.set s.numFreeBlocks i, s.numFreeBlocks + 1⟩,
    by simp only [BlockHeap.freeBlock, if_pos hi, if_pos hlt], rfl, rfl,
    List.length_set, rfl, ?_⟩
  have htake : (s.freeBlocks.set s.numFreeBlocks i).take (s.numFreeBlocks + 1) =
      s.free ++ [i] := by
    rw [take_succ_eq_append_getElem (by simpa using hlt), getElem_set_self,
      take_set_of_le (Nat.le_refl _), BlockHeap.free]
  simp only [BlockHeap.free] at htake ⊢
  rw [htake]
  exact perm_append_singleton _ _

/-- A handle dropped: the block is free again if it was the last one. -/
theorem decRefCount (o : Owned s padding (b.handle + live)) :
    Yields (s.decRefCount b) (fun t => Owned t padding live ∧
      t.freeBlocks.length = s.freeBlocks.length ∧
      t.numFreeBlocks = s.numFreeBlocks + if s.refCount b = 1 then 1 else 0) := by
  unfold BlockHeap.decRefCount
  split
  · rename_i hr
    have hnone : b.handle = 0 := by simp [Block.handle, hr]
    rw [hnone, zero_add] at o
    exact ⟨o, rfl, by simp [BlockHeap.refCount, hr]⟩
  · rename_i r hr
    have hcount : s.refCount b = s.refCounts r := by simp only [BlockHeap.refCount, hr]
    have hhandle : b.handle = {⟨b.id, r⟩} := by simp [Block.handle, hr]
    have hcons : padding.handle + (b.handle + live) =
        (⟨b.id, r⟩ : Handle Int) ::ₘ (padding.handle + live) := by
      rw [hhandle, add_left_comm, singleton_add]
    have hbal := o.balanced
    rw [hcons] at hbal
    have hnz : b.id ≠ 0 :=
      o.nonzero ⟨b.id, r⟩ (Multiset.mem_add.mpr (.inl (Block.mem_handle.mpr ⟨hr, rfl⟩)))
    have hrest : ∀ h ∈ live, h.id ≠ 0 :=
      fun h hh => o.nonzero h (Multiset.mem_add.mpr (.inr hh))
    by_cases hone : s.refCounts r = 1
    · have hlast := hbal.count_eq_one_iff.mp hone
      have hrel := hbal.release_last hlast
      obtain ⟨t, ht, hcells, hnext, hlen, hnum, hperm⟩ := freeBlock_ok hnz o.numFree_le hrel
      have hreturn : (if s.refCounts r = 1 then
          BlockHeap.freeBlock { s with
            refCounts := Function.update s.refCounts r (s.refCounts r - 1) } b.id
          else .ok { s with
            refCounts := Function.update s.refCounts r (s.refCounts r - 1) }) = .ok t := by
        rw [if_pos hone]
        exact ht
      rw [hreturn]
      refine ⟨⟨?_, o.padding_id, o.padding_live, hrest, ?_⟩, hlen, ?_⟩
      · rw [hlen, hcells, hnext]
        exact hrel.perm_free hperm
      · have hfull := length_le_of_nodup_range hrel.nodup
          (fun j hj => (hrel.cover j).mpr (.inl hj))
        rw [length_cons, BlockHeap.free, length_take] at hfull
        omega
      · rw [hnum, hcount, if_pos hone]
    · have hother : ∃ k ∈ padding.handle + live, k.id = b.id := by
        by_contra hno
        push Not at hno
        exact hone (hbal.count_eq_one_iff.mpr hno)
      rw [if_neg hone]
      refine ⟨⟨hbal.release_shared hother, o.padding_id, o.padding_live, hrest, o.numFree_le⟩,
        rfl, ?_⟩
      rw [hcount, if_neg hone, Nat.add_zero]

theorem refCount_decRefCount_of_not_shared {c : Block}
    (o : Owned s padding (b.handle + live)) (hshared : s.isShared b = false)
    (ot : Owned t padding live) (hc : c.handle ≤ live) : t.refCount c = s.refCount c := by
  cases hr : c.refCount with
  | none => simp only [BlockHeap.refCount, hr]
  | some r =>
      have hvalid : c.refCount.isSome := by simp [hr]
      rw [ot.refCount_eq hc hvalid, o.refCount_eq (hc.trans (Multiset.le_add_left _ _)) hvalid,
        Multiset.map_add, count_add]
      have hzero : (b.handle.map Handle.id).count c.id = 0 := by
        rw [Multiset.count_eq_zero, Multiset.mem_map]
        rintro ⟨h, hh, he⟩
        obtain ⟨hb, hid⟩ := Block.mem_handle.mp hh
        have hcount := o.refCount_eq (Multiset.le_add_right _ _) (by simp [hb])
        have hc' : (⟨c.id, r⟩ : Handle Int) ∈ live :=
          mem_of_le hc (Block.mem_handle.mpr ⟨hr, rfl⟩)
        have htwo : 2 ≤ ((b.handle + live).map Handle.id).count b.id := by
          rw [Multiset.map_add, count_add]
          have hone := Multiset.count_pos.mpr (Multiset.mem_map_of_mem Handle.id hh)
          have hone' := Multiset.count_pos.mpr (Multiset.mem_map_of_mem Handle.id hc')
          rw [hid] at hone
          rw [← he, hid] at hone'
          omega
        simp only [BlockHeap.isShared, decide_eq_false_iff_not] at hshared
        omega
      rw [hzero, Nat.zero_add]

theorem freed_of_not_shared (o : Owned s padding (b.handle + live))
    (hshared : s.isShared b = false) :
    (if s.refCount b = 1 then 1 else 0) = if b.refCount.isSome then 1 else 0 := by
  cases hr : b.refCount with
  | none => simp [BlockHeap.refCount, hr]
  | some r =>
      have hmem : (⟨b.id, r⟩ : Handle Int) ∈ padding.handle + (b.handle + live) := by
        refine Multiset.mem_add.mpr (.inr (Multiset.mem_add.mpr (.inl ?_)))
        exact Block.mem_handle.mpr ⟨hr, rfl⟩
      have hpos := o.balanced.count_pos hmem
      simp only [BlockHeap.isShared, BlockHeap.refCount, hr, decide_eq_false_iff_not] at hshared
      have hone : s.refCounts r = 1 := by
        simp only at hpos
        omega
      simp [BlockHeap.refCount, hr, hone]

theorem decAll (o : Owned s padding (handles bs + live)) :
    Yields (s.decAll bs) (fun t => Owned t padding live ∧
      t.freeBlocks.length = s.freeBlocks.length) := by
  induction bs generalizing s with
  | nil => exact ⟨by simpa using o, rfl⟩
  | cons b bs ih =>
      rw [handles_cons, add_assoc] at o
      refine o.decRefCount.bind fun t ht => ?_
      exact (ih ht.1).mono_post fun u hu => ⟨hu.1, hu.2.trans ht.2.1⟩

end Owned

end Xllm
