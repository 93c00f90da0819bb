import Mathlib.Tactic.Abel
import Xllm.Block.Sound
import Xllm.Runtime.RawForwardInput

/-!
# The key-value cache state of a sequence

`KVCacheState` holds the blocks of a sequence, how many of them at the front came
from the prefix cache, and how many tokens have their keys and values in them.
Members that destroy or overwrite `Block` objects run the destructors on the
heap of the manager that owns the blocks, in the order of the source.
-/

namespace Xllm

open Contract Ledger

structure KVCacheState where
  kvCacheTokensNum : Nat := 0
  blocks : List Block := []
  srcBlocks : List Block := []
  needSwap : Bool := false
  numOwnedSharedBlocks : Nat := 0
  transferKvInfo : Option SharedMemory.TransferKVInfo := none
  deriving DecidableEq

namespace KVCacheState

variable (kv : KVCacheState)

def numKvBlocks : Nat := kv.blocks.length

def currentMaxTokensCapacity : Nat :=
  match kv.blocks with
  | [] => 0
  | b :: _ => kv.blocks.length * b.size

/-- The blocks that `allocate_shared` may reuse. -/
def existedSharedBlocks : List Block := kv.blocks.take kv.numOwnedSharedBlocks

def incrKvCacheTokensNum (num : Nat) : Except Check KVCacheState :=
  if kv.kvCacheTokensNum + num ≤ kv.currentMaxTokensCapacity then
    .ok { kv with kvCacheTokensNum := kv.kvCacheTokensNum + num }
  else .error .kvTokensOverCapacity

def kvCacheSlots (posStart posEnd : Nat) : Except Check (List Int) :=
  match kv.blocks with
  | [] => .error .noCacheBlocks
  | b :: _ =>
      (List.range' posStart (posEnd - posStart)).mapM fun i =>
        match kv.blocks[i / b.size]? with
        | some block => .ok (block.id * b.size + ((i % b.size : Nat) : Int))
        | none => .error .outOfBounds

def setKvCacheTokensNum (num : Nat) : KVCacheState := { kv with kvCacheTokensNum := num }

/-- `add_kv_blocks`; the caller's copies are destroyed at its end. -/
def addKvBlocks (newBlocks : List Block) : KVCacheState :=
    { kv with blocks := kv.blocks ++ newBlocks }

def incrSharedKvBlocksNum (num : Nat) : Except Check KVCacheState :=
  if kv.numOwnedSharedBlocks + num ≤ kv.numKvBlocks then
    .ok { kv with numOwnedSharedBlocks := kv.numOwnedSharedBlocks + num }
  else .error .sharedOverBlocks

/-- What `try_allocate` does with matched blocks. -/
def addTryShared (sharedBlocks : List Block) : Except Check KVCacheState :=
  if sharedBlocks = [] then .ok kv
  else (kv.addKvBlocks sharedBlocks).incrSharedKvBlocksNum sharedBlocks.length

/-- `try_replace_unique_blocks`. Moving a matched block over an owned one drops the
owned handle; matched blocks that are not moved die with the caller's vector. -/
def tryReplaceUniqueBlocks (matched : List Block) (s : BlockHeap) :
    Except Check (KVCacheState × BlockHeap) :=
  if kv.numOwnedSharedBlocks < matched.length then
    if matched.length ≤ kv.blocks.length then do
      let s ← s.decAll (kv.blocks.take matched.length)
      .ok ({ kv with
        blocks := matched ++ kv.blocks.drop matched.length
        numOwnedSharedBlocks := matched.length }, s)
    else .error .matchedOverOwned
  else do
    let s ← s.decAll matched
    .ok (kv, s)

/-- The last part of `add_shared_kv_blocks`, after the matched blocks have become
the blocks of the sequence: step back by one block when they cover all tokens. -/
def settleShared (currentTotalNumTokens : Nat) (s : BlockHeap) :
    Except Check (KVCacheState × BlockHeap) :=
  let blockSize := (kv.blocks.head?.map Block.size).getD 0
  let numSharedTokens := kv.blocks.length * blockSize
  if numSharedTokens = currentTotalNumTokens then
    if 0 < blockSize then do
      let numSharedTokens := (currentTotalNumTokens - 1) / blockSize * blockSize
      let s ← if 0 < kv.numOwnedSharedBlocks then s.decAll kv.blocks.getLast?.toList else .ok s
      let kv := if 0 < kv.numOwnedSharedBlocks then
        { kv with
          numOwnedSharedBlocks := kv.numOwnedSharedBlocks - 1
          blocks := kv.blocks.dropLast }
        else kv
      if numSharedTokens < currentTotalNumTokens then
        .ok ({ kv with kvCacheTokensNum := numSharedTokens }, s)
      else .error .sharedTokensNotBelowTotal
    else .error .zeroBlockSize
  else if numSharedTokens < currentTotalNumTokens then
    .ok ({ kv with kvCacheTokensNum := numSharedTokens }, s)
  else .error .sharedTokensNotBelowTotal

def addSharedKvBlocks (blocks : List Block) (currentTotalNumTokens : Nat) (s : BlockHeap) :
    Except Check (KVCacheState × BlockHeap) :=
  if blocks = [] then .ok (kv, s)
  else if blocks.length ≤ kv.blocks.length then kv.tryReplaceUniqueBlocks blocks s
  else do
    let s ← s.decAll kv.blocks
    { kv with blocks := blocks, numOwnedSharedBlocks := blocks.length }.settleShared
      currentTotalNumTokens s

/-- `reset`. Source blocks for a beam swap are kept, the transfer info is not. -/
def reset (s : BlockHeap) : Except Check (KVCacheState × BlockHeap) := do
  let s ← s.decAll kv.blocks
  .ok ({ kv with
    kvCacheTokensNum := 0
    numOwnedSharedBlocks := 0
    blocks := []
    transferKvInfo := none }, s)

def setTransferKvInfo (info : SharedMemory.TransferKVInfo) : KVCacheState :=
  { kv with transferKvInfo := some info }

def setSrcBlocks (srcBlocks : List Block) (needSwap : Bool) (s : BlockHeap) :
    Except Check (KVCacheState × BlockHeap) := do
  let s ← (s.incAll srcBlocks).decAll kv.srcBlocks
  .ok ({ kv with srcBlocks := srcBlocks, needSwap := needSwap }, s)

def processBeamSearch (newBlock : Option Block) (s : BlockHeap) :
    Except Check (KVCacheState × BlockHeap) := do
  let s ← s.decAll kv.blocks
  match newBlock with
  | none => .ok ({ kv with blocks := kv.srcBlocks, srcBlocks := [] }, s)
  | some b => do
      let s ← s.decAll kv.srcBlocks.getLast?.toList
      .ok ({ kv with blocks := kv.srcBlocks.dropLast ++ [b], srcBlocks := [] }, s)

variable {kv} in
/-- Positions within the capacity have a slot each. -/
theorem kvCacheSlots_ensures {posStart posEnd : Nat} (hpos : 0 < posEnd)
    (hroom : posEnd ≤ kv.currentMaxTokensCapacity) : Yields (kv.kvCacheSlots posStart posEnd)
      (fun slots => slots.length = posEnd - posStart) := by
  unfold kvCacheSlots
  rw [currentMaxTokensCapacity] at hroom
  split
  · rename_i hnil
    rw [hnil] at hroom
    simp only at hroom
    omega
  · rename_i b bs hblocks
    rw [hblocks] at hroom
    simp only at hroom
    have hslots := Ensures.mapM (E := fun _ : Check => False) (l := List.range' posStart
      (posEnd - posStart)) (f := fun i => match kv.blocks[i / b.size]? with
        | some block => .ok (block.id * b.size + ((i % b.size : Nat) : Int))
        | none => .error .outOfBounds) ?_
    · rwa [List.length_range'] at hslots
    · intro i hi
      have hlt : i < (b :: bs).length * b.size := by
        have := List.mem_range'_1.mp hi
        omega
      have hidx : i / b.size < (b :: bs).length := Nat.div_lt_of_lt_mul (by rwa [Nat.mul_comm])
      rw [hblocks, List.getElem?_eq_getElem hidx]
      exact trivial

def handles : Multiset (Handle Int) := Xllm.handles kv.blocks + Xllm.handles kv.srcBlocks

def headSize (blocks : List Block) : Nat := (blocks.head?.map Block.size).getD 0

def withShared (blocks : List Block) (currentTotalNumTokens : Nat) : KVCacheState :=
  if blocks = [] then kv
  else if blocks.length ≤ kv.blocks.length then
    if kv.numOwnedSharedBlocks < blocks.length then
      { kv with
        blocks := blocks ++ kv.blocks.drop blocks.length
        numOwnedSharedBlocks := blocks.length }
    else kv
  else if blocks.length * headSize blocks = currentTotalNumTokens then
    { kv with
      kvCacheTokensNum := (currentTotalNumTokens - 1) / headSize blocks * headSize blocks
      blocks := blocks.dropLast
      numOwnedSharedBlocks := blocks.length - 1 }
  else
    { kv with
      kvCacheTokensNum := blocks.length * headSize blocks
      blocks := blocks
      numOwnedSharedBlocks := blocks.length }

def givenUp (blocks : List Block) (currentTotalNumTokens : Nat) : List Block :=
  if blocks = [] then []
  else if blocks.length ≤ kv.blocks.length then
    if kv.numOwnedSharedBlocks < blocks.length then kv.blocks.take blocks.length else blocks
  else if blocks.length * headSize blocks = currentTotalNumTokens then
    kv.blocks ++ blocks.getLast?.toList
  else kv.blocks

variable {kv}

@[simp] theorem withShared_srcBlocks (blocks : List Block) (total : Nat) :
    (kv.withShared blocks total).srcBlocks = kv.srcBlocks := by
  rw [withShared]
  split_ifs <;> rfl

theorem blocks_nil_of_withShared {blocks : List Block} {total : Nat}
    (h : (kv.withShared blocks total).blocks = []) : kv.blocks = [] := by
  rw [withShared] at h
  split_ifs at h with hnil hle hlt hexact
  · exact h
  · exact absurd (List.append_eq_nil_iff.mp h).1 hnil
  · exact h
  · have hlen := congrArg List.length h
    rw [List.length_dropLast, List.length_nil] at hlen
    rw [← List.length_eq_zero_iff]
    omega
  · exact absurd h hnil

variable (kv) in
theorem handles_withShared (blocks : List Block) (total : Nat) :
    Xllm.handles blocks + kv.handles =
      Xllm.handles (kv.givenUp blocks total) + (kv.withShared blocks total).handles := by
  unfold givenUp withShared handles
  split_ifs with hnil hle hlt hexact
  · simp [hnil]
  · simp only [handles_append]
    conv_lhs => rw [← List.take_append_drop blocks.length kv.blocks]
    rw [handles_append]
    abel
  · abel
  · have hlast : blocks.dropLast ++ blocks.getLast?.toList = blocks := by
      rw [List.getLast?_eq_some_getLast hnil]
      exact List.dropLast_append_getLast hnil
    conv_lhs => rw [← hlast]
    simp only [handles_append]
    abel
  · abel

theorem addSharedKvBlocks_ensures {s : BlockHeap} {padding : Block}
    {rest : Multiset (Handle Int)} (blocks : List Block) (total : Nat)
    (o : Owned s padding (Xllm.handles blocks + (kv.handles + rest))) :
    Ensures (kv.addSharedKvBlocks blocks total s)
      (fun e => (e = .sharedTokensNotBelowTotal ∨ e = .zeroBlockSize) ∧
        ¬(blocks.length * headSize blocks < total ∨
          blocks.length * headSize blocks = total ∧ 0 < headSize blocks ∧ 0 < total))
      (fun r => r.1 = kv.withShared blocks total ∧
        Owned r.2 padding ((kv.withShared blocks total).handles + rest) ∧
        r.2.freeBlocks.length = s.freeBlocks.length) := by
  have hall := handles_withShared kv blocks total
  rw [← add_assoc, hall, add_assoc] at o
  unfold addSharedKvBlocks withShared
  unfold givenUp withShared at o
  by_cases hnil : blocks = []
  · simp only [if_pos hnil] at o ⊢
    exact ⟨rfl, by simpa using o, rfl⟩
  simp only [if_neg hnil] at o ⊢
  by_cases hle : blocks.length ≤ kv.blocks.length
  · simp only [if_pos hle] at o ⊢
    rw [tryReplaceUniqueBlocks]
    by_cases hlt : kv.numOwnedSharedBlocks < blocks.length
    · simp only [if_pos hlt, if_pos hle] at o ⊢
      exact o.decAll.total.bind fun s' hs => ⟨rfl, hs⟩
    · simp only [if_neg hlt] at o ⊢
      exact o.decAll.total.bind fun s' hs => ⟨rfl, hs⟩
  · simp only [if_neg hle] at o ⊢
    have hpos : 0 < blocks.length := List.length_pos_iff.mpr hnil
    by_cases hexact : blocks.length * headSize blocks = total
    · simp only [if_pos hexact, handles_append, add_assoc] at o ⊢
      refine o.decAll.total.bind fun s' hs => ?_
      unfold settleShared
      have hsize : (blocks.head?.map Block.size).getD 0 = headSize blocks := rfl
      simp only [hsize, if_pos hexact, if_pos hpos]
      by_cases hbs : 0 < headSize blocks
      · rw [if_pos hbs]
        refine hs.1.decAll.total.bind fun s'' hs' => ?_
        have htotal : 0 < total := by
          rw [← hexact]
          exact Nat.mul_pos hpos hbs
        have hbelow : (total - 1) / headSize blocks * headSize blocks < total := by
          have := Nat.div_mul_le_self (total - 1) (headSize blocks)
          omega
        simp only [if_pos hbelow]
        exact ⟨rfl, hs'.1, hs'.2.trans hs.2⟩
      · rw [if_neg hbs]
        exact ⟨.inr rfl, by omega⟩
    · simp only [if_neg hexact] at o ⊢
      refine o.decAll.total.bind fun s' hs => ?_
      unfold settleShared
      have hsize : (blocks.head?.map Block.size).getD 0 = headSize blocks := rfl
      simp only [hsize, if_neg hexact]
      by_cases hbelow : blocks.length * headSize blocks < total
      · rw [if_pos hbelow]
        exact ⟨rfl, hs⟩
      · rw [if_neg hbelow]
        exact ⟨.inl rfl, by omega⟩

variable (kv) in
def cleared : KVCacheState :=
  { kv with
    kvCacheTokensNum := 0
    numOwnedSharedBlocks := 0
    blocks := []
    transferKvInfo := none }

@[simp] theorem handles_cleared : kv.cleared.handles = Xllm.handles kv.srcBlocks := by
  simp [handles, cleared]

/-- A reset gives every reference of the state back. -/
theorem reset_ensures {s : BlockHeap} {padding : Block} {rest : Multiset (Handle Int)}
    (o : Owned s padding (kv.handles + rest)) : Yields (kv.reset s) (fun r => r.1 = kv.cleared ∧
      Owned r.2 padding (kv.cleared.handles + rest) ∧
      r.2.freeBlocks.length = s.freeBlocks.length) := by
  rw [handles, add_assoc] at o
  rw [handles_cleared]
  exact o.decAll.bind fun s' hs => ⟨rfl, hs⟩

end KVCacheState

end Xllm
