import Mathlib.Algebra.Order.Group.Multiset
import Mathlib.Data.Multiset.Basic
import Xllm.Lib.Contract
import Xllm.Lib.Ledger
import Xllm.Util.HashUtil

/-!
# Block handles and the heap they act on

A `Block` is a handle: copies share one reference count, and the destructor of
the last copy returns the block id to its manager. The copy and move members of
the source are modelled by what they do to that count. A copied handle is the
same value with `incRefCount` run on the heap; a moved-from handle is the
default value; `decRefCount` is the destructor and the release half of both
assignments.

`BlockHeap` is the part of a manager that handles touch: the reference-count
cells and the stack of free ids. `Owned` says who may be holding handles, and
the lemmas below say how ownership moves with each handle operation.
-/

namespace Xllm

open Contract Ledger

/-- `Block`. A default or moved-from handle has id `-1` and no count.

`hashTokens` is a ghost: the token prefix whose chained key `hash_value_` was
last set to. No modelled function reads it. -/
structure Block where
  id : Int := -1
  size : Nat := 0
  refCount : Option Nat := none
  hashValue : XXH3Key := default
  hashTokens : List Token := []
  deriving DecidableEq

def Block.isValid (b : Block) : Bool := 0 ≤ b.id && b.refCount.isSome

def Block.setHashValue (b : Block) (key : XXH3Key) (tokens : List Token) : Block :=
  { b with hashValue := key, hashTokens := tokens }

def Block.core (b : Block) : Int × Nat × Option Nat := (b.id, b.size, b.refCount)

@[simp] theorem Block.setHashValue_core (b : Block) (key : XXH3Key) (tokens : List Token) :
    (b.setHashValue key tokens).core = b.core := rfl

def Block.movedFrom (b : Block) : Block := { b with id := -1, size := 0, refCount := none }

@[simp] theorem Block.setHashValue_id (b : Block) (key : XXH3Key) (tokens : List Token) :
    (b.setHashValue key tokens).id = b.id := rfl

@[simp] theorem Block.setHashValue_size (b : Block) (key : XXH3Key) (tokens : List Token) :
    (b.setHashValue key tokens).size = b.size := rfl

@[simp] theorem Block.setHashValue_refCount (b : Block) (key : XXH3Key) (tokens : List Token) :
    (b.setHashValue key tokens).refCount = b.refCount := rfl

@[simp] theorem Block.setHashValue_hashValue (b : Block) (key : XXH3Key) (tokens : List Token) :
    (b.setHashValue key tokens).hashValue = key := rfl

@[simp] theorem Block.setHashValue_hashTokens (b : Block) (key : XXH3Key) (tokens : List Token) :
    (b.setHashValue key tokens).hashTokens = tokens := rfl

/-- Reference-count cells by address, and the free ids
`free_blocks_[0 .. num_free_blocks_)`. -/
structure BlockHeap where
  refCounts : Nat → Nat
  nextRef : Nat
  freeBlocks : List Int
  numFreeBlocks : Nat

namespace BlockHeap

def free (s : BlockHeap) : List Int := s.freeBlocks.take s.numFreeBlocks

/-- `ref_count`: zero for a handle without a count. -/
def refCount (s : BlockHeap) (b : Block) : Nat :=
  match b.refCount with
  | none => 0
  | some r => s.refCounts r

def isShared (s : BlockHeap) (b : Block) : Bool := 1 < s.refCount b

/-- Pop an id and construct its first handle, as both `allocate` members do. -/
def takeBlock (s : BlockHeap) (size : Nat) : Block × BlockHeap :=
  let prevCount := s.numFreeBlocks
  let blockId := s.freeBlocks.getD (prevCount - 1) 0
  ({ id := blockId, size := size, refCount := some s.nextRef },
    { s with
      numFreeBlocks := prevCount - 1
      refCounts := Function.update s.refCounts s.nextRef 1
      nextRef := s.nextRef + 1 })

/-- `BlockManagerImpl::free`: nothing happens for the reserved block 0. -/
def freeBlock (s : BlockHeap) (blockId : Int) : Except Check BlockHeap :=
  if blockId ≠ 0 then
    let prevCount := s.numFreeBlocks
    if prevCount < s.freeBlocks.length then
      .ok { s with
        numFreeBlocks := prevCount + 1
        freeBlocks := s.freeBlocks.set prevCount blockId }
    else .error .freeBlocksOverflow
  else .ok s

/-- `inc_ref_count`, run by the copy constructor and copy assignment. -/
def incRefCount (s : BlockHeap) (b : Block) : BlockHeap :=
  match b.refCount with
  | none => s
  | some r => { s with refCounts := Function.update s.refCounts r (s.refCounts r + 1) }

/-- `dec_ref_count`, run by the destructor and both assignments. -/
def decRefCount (s : BlockHeap) (b : Block) : Except Check BlockHeap :=
  match b.refCount with
  | none => .ok s
  | some r =>
      let s' := { s with refCounts := Function.update s.refCounts r (s.refCounts r - 1) }
      if s.refCounts r = 1 then s'.freeBlock b.id else .ok s'

def incAll (s : BlockHeap) (bs : List Block) : BlockHeap := bs.foldl incRefCount s

def decAll (s : BlockHeap) (bs : List Block) : Except Check BlockHeap := bs.foldlM decRefCount s

@[simp] theorem incAll_nil (s : BlockHeap) : s.incAll [] = s := rfl

@[simp] theorem incAll_cons (s : BlockHeap) (b : Block) (bs : List Block) :
    s.incAll (b :: bs) = (s.incRefCount b).incAll bs := rfl

theorem incAll_append (s : BlockHeap) (bs cs : List Block) :
    s.incAll (bs ++ cs) = (s.incAll bs).incAll cs := List.foldl_append

@[simp] theorem decAll_nil (s : BlockHeap) : s.decAll [] = .ok s := rfl

@[simp] theorem decAll_cons (s : BlockHeap) (b : Block) (bs : List Block) :
    s.decAll (b :: bs) = s.decRefCount b >>= fun t => t.decAll bs := List.foldlM_cons

@[simp] theorem incRefCount_freeBlocks (s : BlockHeap) (b : Block) :
    (s.incRefCount b).freeBlocks = s.freeBlocks := by
  unfold incRefCount
  split <;> rfl

@[simp] theorem incRefCount_numFreeBlocks (s : BlockHeap) (b : Block) :
    (s.incRefCount b).numFreeBlocks = s.numFreeBlocks := by
  unfold incRefCount
  split <;> rfl

@[simp] theorem incAll_freeBlocks (s : BlockHeap) (bs : List Block) :
    (s.incAll bs).freeBlocks = s.freeBlocks := by
  induction bs generalizing s with
  | nil => rfl
  | cons b bs ih => rw [incAll_cons, ih, incRefCount_freeBlocks]

@[simp] theorem incAll_numFreeBlocks (s : BlockHeap) (bs : List Block) :
    (s.incAll bs).numFreeBlocks = s.numFreeBlocks := by
  induction bs generalizing s with
  | nil => rfl
  | cons b bs ih => rw [incAll_cons, ih, incRefCount_numFreeBlocks]

end BlockHeap

/-- The live handle that a `Block` object accounts for, if it is valid. -/
def Block.handle (b : Block) : Multiset (Handle Int) :=
  match b.refCount with
  | none => 0
  | some r => {⟨b.id, r⟩}

theorem Block.core_eq_iff {a b : Block} :
    a.core = b.core ↔ a.id = b.id ∧ a.size = b.size ∧ a.refCount = b.refCount := by
  simp [Block.core]

theorem Block.handle_eq_of_core {a b : Block} (h : a.core = b.core) : a.handle = b.handle := by
  obtain ⟨hid, -, href⟩ := Block.core_eq_iff.mp h
  rw [Block.handle, Block.handle, hid, href]

def handles (bs : List Block) : Multiset (Handle Int) := (bs.map Block.handle).sum

@[simp] theorem handles_nil : handles [] = 0 := rfl

@[simp] theorem handles_cons (b : Block) (bs : List Block) :
    handles (b :: bs) = b.handle + handles bs := by simp [handles]

@[simp] theorem handles_append (bs cs : List Block) :
    handles (bs ++ cs) = handles bs + handles cs := by simp [handles]

theorem handles_eq_of_core {bs cs : List Block} (h : bs.map Block.core = cs.map Block.core) :
    handles bs = handles cs := by
  have hfactor : ∀ ds : List Block, ds.map Block.handle =
      (ds.map Block.core).map fun c =>
        Block.handle { id := c.1, size := c.2.1, refCount := c.2.2 } := by
    intro ds
    rw [List.map_map]
    exact List.map_congr_left fun d _ => Block.handle_eq_of_core rfl
  rw [handles, handles, hfactor, hfactor, h]

theorem handles_perm {bs cs : List Block} (h : bs.Perm cs) : handles bs = handles cs :=
  (h.map Block.handle).sum_eq

@[simp] theorem Block.setHashValue_handle (b : Block) (key : XXH3Key) (tokens : List Token) :
    (b.setHashValue key tokens).handle = b.handle := rfl

@[simp] theorem Block.movedFrom_handle (b : Block) : b.movedFrom.handle = 0 := rfl

@[simp] theorem Block.default_handle : ({} : Block).handle = 0 := rfl

theorem mem_handles {bs : List Block} {h : Handle Int} :
    h ∈ handles bs ↔ ∃ b ∈ bs, h ∈ b.handle := by
  induction bs with
  | nil => simp
  | cons b bs ih => simp [ih]

/-- The ids of the handles are those of the blocks. -/
@[simp] theorem map_id_handles {bs : List Block} (hvalid : ∀ b ∈ bs, b.refCount.isSome) :
    (handles bs).map Handle.id = ((bs.map Block.id : List Int) : Multiset Int) := by
  induction bs with
  | nil => rfl
  | cons c cs ih =>
      obtain ⟨r, hr⟩ := Option.isSome_iff_exists.mp (hvalid c List.mem_cons_self)
      have hhandle : c.handle = {⟨c.id, r⟩} := by simp [Block.handle, hr]
      rw [handles_cons, Multiset.map_add, ih fun d hd => hvalid d (List.mem_cons_of_mem _ hd),
        hhandle]
      rfl

theorem handle_le_handles {bs : List Block} {b : Block} (hb : b ∈ bs) :
    b.handle ≤ handles bs := by
  obtain ⟨l, r, rfl⟩ := List.append_of_mem hb
  rw [handles_append, handles_cons, add_left_comm]
  exact Multiset.le_add_right _ _

theorem Block.mem_handle {b : Block} {h : Handle Int} :
    h ∈ b.handle ↔ b.refCount = some h.ref ∧ h.id = b.id := by
  unfold Block.handle
  split
  · rename_i hr
    simp [hr]
  · rename_i r hr
    cases h
    simp only [hr, Multiset.mem_singleton, Handle.mk.injEq, Option.some.injEq]
    tauto

end Xllm
