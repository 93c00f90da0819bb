import Xllm.Block.Basic

/-!
# Embedding ids

`EmbeddingManager` hands out one id per running sequence. It is a block manager
without a prefix cache and without a reserved block. Its handles are `Block`s
whose counts live in cells of their own.
-/

namespace Xllm

structure EmbeddingManager where
  freeIds : List Int
  inUseIds : List Bool
  numFreeBlocks : Nat
  numUsedBlocks : Nat := 0
  refCounts : Nat → Nat := fun _ => 0
  nextRef : Nat := 0

namespace EmbeddingManager

def create (numIds : Nat) : EmbeddingManager where
  freeIds := (List.range numIds).map fun (id : Nat) => (numIds : Int) - id - 1
  inUseIds := List.replicate numIds false
  numFreeBlocks := numIds

def refCount (m : EmbeddingManager) (b : Block) : Nat :=
  match b.refCount with
  | none => 0
  | some r => m.refCounts r

def allocate (m : EmbeddingManager) : Except Check (Option Block × EmbeddingManager) :=
  if m.numFreeBlocks < 1 then .ok (none, m)
  else
    let prevCount := m.numFreeBlocks
    let blockId := m.freeIds.getD (prevCount - 1) 0
    if 0 ≤ blockId ∧ m.inUseIds[blockId.toNat]? = some false then
      .ok (some { id := blockId, size := 1, refCount := some m.nextRef },
        { m with
          numFreeBlocks := prevCount - 1
          numUsedBlocks := m.numUsedBlocks + 1
          inUseIds := m.inUseIds.set blockId.toNat true
          refCounts := Function.update m.refCounts m.nextRef 1
          nextRef := m.nextRef + 1 })
    else .error .embeddingIds

def deallocate (m : EmbeddingManager) (b : Block) : Except Check EmbeddingManager :=
  if b.isValid && m.refCount b = 1 then
    if 0 < m.numUsedBlocks then .ok { m with numUsedBlocks := m.numUsedBlocks - 1 }
    else .error .embeddingIds
  else .ok m

def free (m : EmbeddingManager) (blockId : Int) : Except Check EmbeddingManager :=
  if blockId < 0 then .ok m
  else if m.inUseIds[blockId.toNat]? = some true ∧ m.numFreeBlocks < m.freeIds.length then
    .ok { m with
      inUseIds := m.inUseIds.set blockId.toNat false
      numFreeBlocks := m.numFreeBlocks + 1
      freeIds := m.freeIds.set m.numFreeBlocks blockId }
  else .error .embeddingIds

def decRefCount (m : EmbeddingManager) (b : Block) : Except Check EmbeddingManager :=
  match b.refCount with
  | none => .ok m
  | some r =>
      let m' := { m with refCounts := Function.update m.refCounts r (m.refCounts r - 1) }
      if m.refCounts r = 1 then m'.free b.id else .ok m'

/-- Give up a moved-out handle: `deallocate`, then the destructor. -/
def release (m : EmbeddingManager) (b : Block) : Except Check EmbeddingManager :=
  if b.isValid then do
    let m ← m.deallocate b
    m.decRefCount b
  else .ok m

end EmbeddingManager

end Xllm
