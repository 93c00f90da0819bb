import Mathlib.Tactic.Abel
import Xllm.Block.Sound

/-!
# Who owns a block id

A manager runs together with the `Block` objects that its callers hold. The
operations are the members of the manager and the special members of `Block`:
copy and move construction, both assignments, and destruction. After any run the
free stack and the live handles split the ids, every count is the number of
handles, block 0 stays with the padding handle, and `free` has never overrun its
stack.
-/

namespace Xllm

open Contract Ledger List

structure ManagerState where
  manager : BlockManagerImpl
  held : List Block

/-- What callers do. Vectors and slices of blocks are runs of the held objects. -/
inductive ManagerOp where
  | allocate (numBlocks : Nat)
  | allocateOne
  | allocateShared (tokensIds : List Token) (start len : Nat)
  | cache (tokenIds : List Token) (start len existedSharedBlocksNum : Nat)
  | cacheBlocks (start len : Nat)
  | deallocate (start len : Nat)
  | copy (i : Nat)
  | copyAssign (i j : Nat)
  | move (i : Nat)
  | moveAssign (i j : Nat)
  | drop (i : Nat)

namespace ManagerState

/-- A run of the held objects. -/
def slice (st : ManagerState) (start len : Nat) : List Block := (st.held.drop start).take len

def setHeap (st : ManagerState) (heap : BlockHeap) : ManagerState :=
  { st with manager := { st.manager with heap := heap } }

def step [XXH3] (st : ManagerState) : ManagerOp → Except Check ManagerState
  | .allocate numBlocks => do
      let (blocks, m) ← st.manager.allocate numBlocks
      .ok ⟨m, st.held ++ blocks⟩
  | .allocateOne => do
      let (block, m) ← st.manager.allocateOne
      .ok ⟨m, st.held ++ [block]⟩
  | .allocateShared tokensIds start len => do
      let (blocks, m) ← st.manager.allocateShared tokensIds (st.slice start len)
      .ok ⟨m, st.held ++ blocks⟩
  | .cache tokenIds start len existedSharedBlocksNum => do
      let (blocks, m) ← st.manager.cache tokenIds (st.slice start len) existedSharedBlocksNum
      .ok ⟨m, st.held.take start ++ blocks ++ (st.held.drop start).drop len⟩
  | .cacheBlocks start len => .ok ⟨st.manager.cacheBlocks (st.slice start len), st.held⟩
  | .deallocate start len => do
      let m ← st.manager.deallocate (st.slice start len)
      .ok ⟨m, st.held⟩
  | .copy i =>
      match st.held[i]? with
      | some b => .ok ⟨(st.setHeap (st.manager.heap.incRefCount b)).manager, st.held ++ [b]⟩
      | none => .ok st
  | .copyAssign i j =>
      match st.held[i]?, st.held[j]? with
      | some a, some b =>
          if i = j then .ok st
          else do
            let heap ← st.manager.heap.decRefCount a
            .ok ⟨(st.setHeap (heap.incRefCount b)).manager, st.held.set i b⟩
      | _, _ => .ok st
  | .move i =>
      match st.held[i]? with
      | some b => .ok ⟨st.manager, st.held.set i b.movedFrom ++ [b]⟩
      | none => .ok st
  | .moveAssign i j =>
      match st.held[i]?, st.held[j]? with
      | some a, some b =>
          if i = j then .ok st
          else do
            let heap ← st.manager.heap.decRefCount a
            .ok ⟨(st.setHeap heap).manager, (st.held.set j b.movedFrom).set i b⟩
      | _, _ => .ok st
  | .drop i =>
      match st.held[i]? with
      | some b => do
          let heap ← st.manager.heap.decRefCount b
          .ok ⟨(st.setHeap heap).manager, st.held.eraseIdx i⟩
      | none => .ok st

/-- The live `Block` objects: the padding block, the cache's and the held ones. -/
def live (st : ManagerState) : List Block :=
  (st.manager.paddingBlock :: (st.manager.prefixCache.entries ++ st.held)).filter
    (·.refCount.isSome)

/-- The free ids and the live ids split the ids of the manager, and counts count. -/
structure Partitioned (numBlocks : Nat) (st : ManagerState) : Prop where
  free_nodup : st.manager.heap.free.Nodup
  free_disjoint : ∀ b ∈ st.live, b.id ∉ st.manager.heap.free
  cover : ∀ i : Int, 0 ≤ i ∧ i < numBlocks ↔
    i ∈ st.manager.heap.free ∨ ∃ b ∈ st.live, b.id = i
  refCount_eq : ∀ b ∈ st.live, st.manager.heap.refCount b = st.live.countP (·.id = b.id)
  nonzero : ∀ b ∈ st.manager.prefixCache.entries ++ st.held, b.refCount.isSome → b.id ≠ 0

/-- The invariant of every run: the held objects are the callers' share of the ledger. -/
structure Inv (options : Options) (st : ManagerState) : Prop where
  sound : Sound st.manager (handles st.held)
  options_eq : st.manager.options = options

variable {st : ManagerState} {options : Options}

theorem handles_live (st : ManagerState) : handles st.live =
    st.manager.paddingBlock.handle +
      (handles st.manager.prefixCache.entries + handles st.held) := by
  have hfilter : ∀ bs : List Block, handles (bs.filter (·.refCount.isSome)) = handles bs := by
    intro bs
    induction bs with
    | nil => rfl
    | cons b bs ih =>
        cases hr : b.refCount with
        | none =>
            have hnone : b.handle = 0 := by simp [Block.handle, hr]
            rw [filter_cons_of_neg (by simp [hr]), ih, handles_cons, hnone, zero_add]
        | some r => rw [filter_cons_of_pos (by simp [hr]), handles_cons, handles_cons, ih]
  rw [live, hfilter, handles_cons, handles_append]

theorem count_handles {bs : List Block} (h : ∀ b ∈ bs, b.refCount.isSome) (i : Int) :
    ((handles bs).map Handle.id).count i = bs.countP (·.id = i) := by
  induction bs with
  | nil => rfl
  | cons b bs ih =>
      obtain ⟨r, hr⟩ := Option.isSome_iff_exists.mp (h b mem_cons_self)
      have hhandle : b.handle = {⟨b.id, r⟩} := by simp [Block.handle, hr]
      rw [handles_cons, Multiset.map_add, Multiset.count_add, hhandle, Multiset.map_singleton,
        Multiset.count_singleton, ih fun c hc => h c (mem_cons_of_mem _ hc),
        countP_cons, Nat.add_comm]
      simp [eq_comm]

/-- The invariant puts every block in one place. -/
theorem Inv.partitioned (h : Inv options st) : Partitioned options.numBlocks st := by
  have hbal := h.sound.owned.balanced
  rw [← handles_live, h.sound.numBlocks_eq, h.options_eq] at hbal
  have hvalid : ∀ b ∈ st.live, b.refCount.isSome := fun b hb => (List.mem_filter.mp hb).2
  have hmem : ∀ b ∈ st.live, ∃ k ∈ handles st.live, k.id = b.id ∧ b.refCount = some k.ref := by
    intro b hb
    obtain ⟨r, hr⟩ := Option.isSome_iff_exists.mp (hvalid b hb)
    exact ⟨⟨b.id, r⟩, mem_handles.mpr ⟨b, hb, Block.mem_handle.mpr ⟨hr, rfl⟩⟩, rfl, hr⟩
  refine ⟨hbal.nodup, ?_, ?_, ?_, ?_⟩
  · intro b hb
    obtain ⟨k, hk, hid, -⟩ := hmem b hb
    rw [← hid]
    exact hbal.disjoint k hk
  · intro i
    rw [← BlockId, hbal.cover i]
    refine or_congr_right ⟨?_, ?_⟩
    · rintro ⟨k, hk, rfl⟩
      obtain ⟨b, hb, hkb⟩ := mem_handles.mp hk
      exact ⟨b, hb, (Block.mem_handle.mp hkb).2.symm⟩
    · rintro ⟨b, hb, rfl⟩
      obtain ⟨k, hk, hid, -⟩ := hmem b hb
      exact ⟨k, hk, hid⟩
  · intro b hb
    obtain ⟨k, hk, hid, hr⟩ := hmem b hb
    rw [← count_handles hvalid, ← hid, ← hbal.count_eq k hk]
    simp only [BlockHeap.refCount, hr]
  · intro b hb hsome
    obtain ⟨r, hr⟩ := Option.isSome_iff_exists.mp hsome
    refine h.sound.owned.nonzero ⟨b.id, r⟩ ?_
    rw [← handles_append]
    exact mem_handles.mpr ⟨b, hb, Block.mem_handle.mpr ⟨hr, rfl⟩⟩

variable {held : List Block}

theorem handle_le_of_getElem? {i : Nat} {b : Block} (h : held[i]? = some b) :
    b.handle ≤ handles held := handle_le_handles (mem_of_getElem? h)

theorem handles_set {i : Nat} {a : Block} (h : held[i]? = some a)
    (b : Block) : a.handle + handles (held.set i b) = b.handle + handles held := by
  obtain ⟨hi, rfl⟩ := List.getElem?_eq_some_iff.mp h
  conv_rhs => rw [← take_append_drop i held, drop_eq_getElem_cons hi]
  rw [set_eq_take_append_cons_drop, if_pos hi]
  simp only [handles_append, handles_cons]
  abel

theorem handles_eraseIdx {i : Nat} {a : Block} (h : held[i]? = some a) :
    a.handle + handles (held.eraseIdx i) = handles held := by
  obtain ⟨hi, rfl⟩ := List.getElem?_eq_some_iff.mp h
  conv_rhs => rw [← take_append_drop i held, drop_eq_getElem_cons hi]
  rw [eraseIdx_eq_take_drop_succ]
  simp only [handles_append, handles_cons]
  abel

theorem mem_held_of_mem_slice {start len : Nat} {b : Block} (hb : b ∈ st.slice start len) :
    b.handle ≤ handles st.held :=
  handle_le_handles (mem_of_mem_drop (mem_of_mem_take hb))

theorem Inv.setHeap {heap : BlockHeap} (h : Inv options st)
    (owned : Owned heap st.manager.paddingBlock
      (handles st.manager.prefixCache.entries + handles held))
    (hlen : heap.freeBlocks.length = st.manager.heap.freeBlocks.length) :
    Inv options ⟨(st.setHeap heap).manager, held⟩ :=
  ⟨⟨h.sound.wf, owned, hlen.trans h.sound.numBlocks_eq, h.sound.blockSize_eq,
    h.sound.blockSize_pos⟩, h.options_eq⟩

/-- A handle that goes away gives its reference back. -/
theorem Inv.decRefCount {a : Block} {rest : Multiset (Handle Int)} (h : Inv options st)
    (ha : a.handle + rest = handles st.held) : Yields (st.manager.heap.decRefCount a) (fun heap =>
      Owned heap st.manager.paddingBlock (handles st.manager.prefixCache.entries + rest) ∧
      heap.freeBlocks.length = st.manager.heap.freeBlocks.length) := by
  have howned := h.sound.owned
  rw [← ha, add_left_comm] at howned
  exact howned.decRefCount.mono_post fun heap hheap => ⟨hheap.1, hheap.2.1⟩

section

variable [XXH3]

theorem Inv.cache (h : Inv options st) (tokenIds : List Token) (start len existedNum : Nat) :
    Ensures (st.step (.cache tokenIds start len existedNum)) (· ≠ .freeBlocksOverflow)
      (Inv options) := by
  have hslice : ∀ b ∈ st.slice start len, b.handle ≤ handles st.held :=
    fun b hb => mem_held_of_mem_slice hb
  refine ((h.sound.cache tokenIds existedNum hslice).mono ?_ fun _ hr => hr).bind fun r hr => ?_
  · rintro e (⟨rfl, -⟩ | ⟨rfl, -⟩) <;> decide
  · have hsame : handles r.1 = handles (st.slice start len) := by
      rw [hr.blocks_eq]
      split
      · rename_i hcache
        exact handles_eq_of_core (PrefixCache.map_core_restamped (hr.existed_le hcache))
      · rfl
    have hheld : handles (st.held.take start ++ r.1 ++ (st.held.drop start).drop len) =
        handles st.held := by
      conv_rhs => rw [← take_append_drop start st.held,
        ← take_append_drop len (st.held.drop start)]
      rw [handles_append, handles_append, hsame, handles_append, handles_append, slice, add_assoc]
    refine ⟨?_, hr.options_eq.trans h.options_eq⟩
    rw [hheld]
    exact hr.sound

theorem Inv.copyAssign (h : Inv options st) (i j : Nat) :
    Ensures (st.step (.copyAssign i j)) (· ≠ .freeBlocksOverflow) (Inv options) := by
  rw [step]
  split
  · rename_i a b ha hb
    split
    · exact h
    · rename_i hij
      have hrest := handles_eraseIdx ha
      refine (h.decRefCount hrest).total.bind fun heap hheap => ?_
      obtain ⟨howned, hlen⟩ := hheap
      -- `other` is a different object, so its handle is still held.
      have hset := handles_set ha b
      rw [← hrest, add_left_comm] at hset
      have hset' := add_left_cancel hset
      have hkeep : b.handle ≤ handles st.manager.prefixCache.entries +
          handles (st.held.eraseIdx i) := by
        refine le_trans ?_ (Multiset.le_add_left _ _)
        refine handle_le_handles ?_
        rw [mem_eraseIdx_iff_getElem?]
        exact ⟨j, fun he => hij he.symm, hb⟩
      have hcopy := howned.incRefCount hkeep
      rw [add_left_comm, ← hset'] at hcopy
      exact h.setHeap hcopy (by simpa using hlen)
  · exact h

theorem Inv.moveAssign (h : Inv options st) (i j : Nat) :
    Ensures (st.step (.moveAssign i j)) (· ≠ .freeBlocksOverflow) (Inv options) := by
  rw [step]
  split
  · rename_i a b ha hb
    split
    · exact h
    · rename_i hij
      refine (h.decRefCount (handles_eraseIdx ha)).total.bind fun heap hheap => ?_
      obtain ⟨howned, hlen⟩ := hheap
      refine h.setHeap ?_ hlen
      have hfrom : (st.held.set j b.movedFrom)[i]? = some a := by
        rw [getElem?_set_ne (fun he => hij he.symm), ha]
      have hto := handles_set hfrom b
      have hout := handles_set hb b.movedFrom
      rw [Block.movedFrom_handle, zero_add] at hout
      rw [hout, ← handles_eraseIdx ha] at hto
      rw [add_left_cancel hto]
      exact howned
  · exact h

/-- Step lemma: no operation fills the free list beyond its size. -/
theorem Inv.step (h : Inv options st) (op : ManagerOp) :
    Ensures (st.step op) (· ≠ .freeBlocksOverflow) (Inv options) := by
  cases op with
  | allocate n =>
      refine ((h.sound.allocate n).mono ?_ fun _ hr => hr).bind fun r hr => ?_
      · rintro e ⟨rfl, -⟩
        decide
      · refine ⟨?_, hr.options_eq.trans h.options_eq⟩
        rw [handles_append, add_comm]
        exact hr.sound
  | allocateOne =>
      refine (h.sound.allocateOne.mono ?_ fun _ hr => hr).bind fun r hr => ?_
      · rintro e rfl
        decide
      · refine ⟨?_, hr.2.trans h.options_eq⟩
        rw [handles_append, handles_cons, handles_nil, add_zero, add_comm]
        exact hr.1
  | allocateShared tokens start len =>
      have hslice : ∀ b ∈ st.slice start len, b.handle ≤ handles st.held :=
        fun b hb => mem_held_of_mem_slice hb
      refine ((h.sound.allocateShared tokens hslice).mono ?_ fun _ hr => hr).bind fun r hr => ?_
      · rintro e ⟨rfl, -⟩
        decide
      · refine ⟨?_, hr.options_eq.trans h.options_eq⟩
        rw [handles_append, add_comm]
        exact hr.sound
  | cache tokens start len k => exact h.cache tokens start len k
  | cacheBlocks start len =>
      have hcached := h.sound.cacheBlocks fun b (hb : b ∈ st.slice start len) =>
        mem_held_of_mem_slice hb
      exact ⟨hcached.1, hcached.2.trans h.options_eq⟩
  | deallocate start len =>
      refine ((h.sound.deallocate (st.slice start len)).mono ?_ fun _ hr => hr).bind
        fun m hm => ?_
      · rintro e ⟨rfl, -⟩
        decide
      · obtain ⟨hsound, ⟨used, rfl⟩, -⟩ := hm
        exact ⟨hsound, h.options_eq⟩
  | copy i =>
      rw [ManagerState.step]
      split
      · rename_i b hb
        have hle := (handle_le_of_getElem? hb).trans
          (Multiset.le_add_left _ (handles st.manager.prefixCache.entries))
        have hcopy := h.sound.owned.incRefCount hle
        refine h.setHeap ?_ (by simp)
        rw [handles_append, handles_cons, handles_nil, add_zero, add_comm (handles st.held),
          add_left_comm]
        exact hcopy
      · exact h
  | copyAssign i j => exact h.copyAssign i j
  | move i =>
      rw [ManagerState.step]
      split
      · rename_i b hb
        have hset := handles_set hb b.movedFrom
        rw [Block.movedFrom_handle, zero_add] at hset
        refine ⟨?_, h.options_eq⟩
        rw [handles_append, handles_cons, handles_nil, add_zero, add_comm, hset]
        exact h.sound
      · exact h
  | moveAssign i j => exact h.moveAssign i j
  | drop i =>
      rw [ManagerState.step]
      split
      · rename_i b hb
        refine (h.decRefCount (handles_eraseIdx hb)).total.bind fun heap hheap => ?_
        exact h.setHeap hheap.1 hheap.2
      · exact h

/-- Block-id ownership, for every run of a new manager and its callers. -/
theorem run_partitioned {options : Options} (hblocks : 0 < options.numBlocks)
    (hsize : 0 < options.blockSize) (ops : List ManagerOp) :
    ∃ m, BlockManagerImpl.create options = .ok m ∧
      Ensures (run step ⟨m, []⟩ ops) (· ≠ .freeBlocksOverflow)
        (Partitioned options.numBlocks) := by
  obtain ⟨m, hm, hsound, hoptions, -, -⟩ := Sound.create hblocks hsize
  have hstart : Inv options ⟨m, []⟩ := ⟨hsound, hoptions⟩
  exact ⟨m, hm, (Ensures.run (fun st op h => Inv.step h op) hstart).mono_post
    fun st hst => hst.partitioned⟩

end

theorem run_partitioned_evicting :
    let _ : XXH3 := XXH3.lastBytes
    ∃ m, BlockManagerImpl.create ⟨4, 1, true⟩ = .ok m ∧
      Ensures (run step ⟨m, []⟩
          [.allocate 2, .cache [1, 2] 0 2 0, .copy 0, .drop 0, .moveAssign 0 1, .drop 1,
            .allocate 2])
        (· ≠ .freeBlocksOverflow) (Partitioned 4) :=
  let _ : XXH3 := XXH3.lastBytes
  let options : Options := ⟨4, 1, true⟩
  have hblocks : 0 < options.numBlocks := by decide
  run_partitioned hblocks (by decide) _

end ManagerState

end Xllm
