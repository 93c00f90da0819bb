import Xllm.Runtime.RawForwardInput
import Mathlib.Data.List.Induction
import Mathlib.Data.List.Nodup

/-!
# Pushing the blocks of a prompt to a decode instance

The decode instance answers a request with the ids of the blocks it has for the prompt,
without those of a prefix it already holds. Each time the prefill instance computes a chunk
of the prompt, `setup_kv_cache_info` pairs the last of its own blocks with these ids, and
`merge_kv_blocks` collects the pairs for each worker of the decode instance.

Sizes are `size_t`, the number of blocks to leave out is a `uint32_t`.
-/

namespace Xllm.DisaggPD

open List Option

open SharedMemory (Text XTensorLayerOffsets)

/-- A block id where a `uint64_t` is expected. -/
def blockId (id : Int32) : UInt64 := id.toInt64.toUInt64

theorem blockId_inj {id id' : Int32} : blockId id = blockId id' ↔ id = id' := by
  constructor
  · intro h
    have hint := congrArg (fun x : UInt64 => x.toInt64.toInt) h
    simp only [blockId, Int64.toInt64_toUInt64, Int32.toInt_toInt64] at hint
    exact Int32.toInt_inj.1 hint
  · intro h
    rw [h]

def decodeRecvBlocksIds (blocks : List Int32) (sharedNum : Nat) : List UInt64 :=
  (blocks.drop sharedNum).map blockId

/-- `push_size` in `setup_kv_cache_info`. -/
def pushSize (blocks : List Int32) (info : SharedMemory.TransferKVInfo) : UInt32 :=
  (UInt64.ofNat blocks.length - UInt64.ofNat info.remoteBlocksIds.length).toUInt32

structure BlockIds where
  blockIds : List Int32 := []
  uBlockIds : List UInt64 := []

def BlockIds.add (pushSize : UInt32) (ids : BlockIds) (id : Int32) : BlockIds :=
  let blockIds := ids.blockIds ++ [id]
  { blockIds := blockIds
    uBlockIds :=
      if pushSize.toNat < blockIds.length then ids.uBlockIds ++ [blockId id]
      else ids.uBlockIds }

/-- The part of `setup_kv_cache_info` that is about the transfer. -/
def setupTransfer (blocks : List Int32) (info : SharedMemory.TransferKVInfo) :
    SharedMemory.TransferKVInfo :=
  { info with localBlocksIds := (blocks.foldl (BlockIds.add (pushSize blocks info)) {}).uBlockIds }

section Chunk

variable {blocks : List Int32} {info : SharedMemory.TransferKVInfo} {size : UInt32}

theorem foldl_add (size : UInt32) (blocks : List Int32) :
    blocks.foldl (BlockIds.add size) {} =
      { blockIds := blocks, uBlockIds := (blocks.drop size.toNat).map blockId } := by
  induction blocks using List.reverseRecOn with
  | nil => simp
  | append_singleton blocks id ih =>
      rw [foldl_append, ih, foldl_cons, BlockIds.add]
      simp only [length_append, length_singleton, drop_append]
      split
      · rw [show size.toNat - blocks.length = 0 by omega]
        simp
      · rw [drop_eq_nil_of_le (show [id].length ≤ size.toNat - blocks.length by
          rw [length_singleton]; omega)]
        simp

@[simp] theorem localBlocksIds_setupTransfer (blocks : List Int32)
    (info : SharedMemory.TransferKVInfo) :
    (setupTransfer blocks info).localBlocksIds =
      (blocks.drop (pushSize blocks info).toNat).map blockId := by
  rw [setupTransfer, foldl_add]

/-- Without a wrap the range begins where the remote blocks would end on a line with the
local ones. -/
theorem toNat_pushSize (hle : info.remoteBlocksIds.length ≤ blocks.length)
    (hlt : blocks.length < 2 ^ 31) :
    (pushSize blocks info).toNat = blocks.length - info.remoteBlocksIds.length := by
  rw [pushSize, UInt64.toNat_toUInt32, UInt64.toNat_sub_of_le, UInt64.toNat_ofNat',
    UInt64.toNat_ofNat']
  · omega
  · rw [UInt64.le_iff_toNat_le, UInt64.toNat_ofNat', UInt64.toNat_ofNat']
    omega

end Chunk

/-- A chunk of the prompt on the prefill instance: the tokens that are computed behind it,
and the blocks of the sequence. Their ids are different numbers below `2 ^ 31`. -/
structure Chunk where
  seqLen : Nat
  blocks : List Int32
  nodup : blocks.Nodup
  length_lt : blocks.length < 2 ^ 31

/-- A prompt whose blocks are pushed. Both instances have room for the tokens, the chunks
follow each other to the end of the prompt. -/
structure Transfer where
  blockSize : Nat
  promptLen : Nat
  /-- The blocks on the decode instance, and how many of them it shares. -/
  remoteBlocks : List Int32
  sharedNum : Nat
  info : SharedMemory.TransferKVInfo
  chunks : List Chunk
  sharedNum_le : sharedNum ≤ remoteBlocks.length
  remote_room : promptLen ≤ remoteBlocks.length * blockSize
  remoteBlocksIds_eq : info.remoteBlocksIds = decodeRecvBlocksIds remoteBlocks sharedNum
  increasing : (chunks.map Chunk.seqLen).Pairwise (· < ·)
  last : chunks.getLast?.map Chunk.seqLen = some promptLen
  room : ∀ chunk ∈ chunks, chunk.seqLen ≤ chunk.blocks.length * blockSize

namespace Transfer

variable {t : Transfer} {chunk : Chunk}

def pushed (t : Transfer) (chunk : Chunk) : SharedMemory.TransferKVInfo :=
    setupTransfer chunk.blocks t.info

/-- Local and remote block at each index are at the same position of the prompt. -/
structure Paired (t : Transfer) (chunk : Chunk) : Prop where
  /-- The push range does not wrap. -/
  le : (t.pushed chunk).remoteBlocksIds.length ≤ chunk.blocks.length
  length_eq : (t.pushed chunk).localBlocksIds.length = (t.pushed chunk).remoteBlocksIds.length
  local_eq : ∀ j id, (t.pushed chunk).localBlocksIds[j]? = some id →
    (chunk.blocks[t.sharedNum + j]?).map blockId = some id
  remote_eq : ∀ j id, (t.pushed chunk).remoteBlocksIds[j]? = some id →
    (t.remoteBlocks[t.sharedNum + j]?).map blockId = some id

/-- The block at a position of the prompt is pushed to its place behind a chunk with which
all its tokens are computed. -/
def Delivers (t : Transfer) (position : Nat) : Prop :=
  ∃ chunk ∈ t.chunks, ∃ j, min ((position + 1) * t.blockSize) t.promptLen ≤ chunk.seqLen ∧
    (chunk.blocks[position]?).map blockId = (t.pushed chunk).localBlocksIds[j]? ∧
    (t.remoteBlocks[position]?).map blockId = (t.pushed chunk).remoteBlocksIds[j]? ∧
    j < (t.pushed chunk).localBlocksIds.length ∧ j < (t.pushed chunk).remoteBlocksIds.length

/-- Behind every chunk the pairs are right, and every position that the decode instance does
not share is pushed when it is computed. -/
def Sound (t : Transfer) : Prop :=
  (∀ chunk ∈ t.chunks, t.Paired chunk) ∧
    ∀ position, t.sharedNum ≤ position → position * t.blockSize < t.promptLen →
      t.Delivers position

/-- The decode instance shares the whole prompt, or both instances always have the same
number of blocks. -/
def Even (t : Transfer) : Prop :=
  t.sharedNum = t.remoteBlocks.length ∨
    ∀ chunk ∈ t.chunks, chunk.blocks.length = t.remoteBlocks.length

@[simp] theorem length_remoteBlocksIds (t : Transfer) :
    t.info.remoteBlocksIds.length = t.remoteBlocks.length - t.sharedNum := by
  rw [t.remoteBlocksIds_eq, decodeRecvBlocksIds, length_map, length_drop]

@[simp] theorem getElem?_remoteBlocksIds (t : Transfer) (j : Nat) :
    t.info.remoteBlocksIds[j]? = (t.remoteBlocks[t.sharedNum + j]?).map blockId := by
  rw [t.remoteBlocksIds_eq, decodeRecvBlocksIds, getElem?_map, getElem?_drop]

theorem getElem?_localBlocksIds (hle : t.info.remoteBlocksIds.length ≤ chunk.blocks.length)
    (j : Nat) :
    (t.pushed chunk).localBlocksIds[j]? =
      (chunk.blocks[chunk.blocks.length - t.info.remoteBlocksIds.length + j]?).map blockId := by
  rw [pushed, localBlocksIds_setupTransfer, toNat_pushSize hle chunk.length_lt, getElem?_map,
    getElem?_drop]

theorem length_localBlocksIds (hle : t.info.remoteBlocksIds.length ≤ chunk.blocks.length) :
    (t.pushed chunk).localBlocksIds.length = t.info.remoteBlocksIds.length := by
  rw [pushed, localBlocksIds_setupTransfer, toNat_pushSize hle chunk.length_lt, length_map,
    length_drop]
  omega

theorem Paired.length_blocks (h : t.Paired chunk)
    (hshared : t.sharedNum < t.remoteBlocks.length) :
    chunk.blocks.length = t.remoteBlocks.length := by
  have hlength := t.length_remoteBlocksIds
  have hle : t.info.remoteBlocksIds.length ≤ chunk.blocks.length := h.le
  have hfirst := getElem?_localBlocksIds hle 0
  have hlt : chunk.blocks.length - t.info.remoteBlocksIds.length + 0 < chunk.blocks.length := by
    omega
  rw [getElem?_eq_getElem hlt] at hfirst
  have hplace := h.local_eq 0 _ hfirst
  obtain ⟨id, hid, heq⟩ := Option.map_eq_some_iff.1 hplace
  have hsame : chunk.blocks[t.sharedNum + 0]? =
      chunk.blocks[chunk.blocks.length - t.info.remoteBlocksIds.length + 0]? := by
    rw [hid, getElem?_eq_getElem hlt, blockId_inj.1 heq]
  have hindex := (getElem?_inj (List.getElem?_eq_some_iff.1 hid).1 chunk.nodup).1 hsame
  omega

theorem paired_of_length (h : t.sharedNum = t.remoteBlocks.length ∨
    chunk.blocks.length = t.remoteBlocks.length) : t.Paired chunk := by
  have hlength := t.length_remoteBlocksIds
  have hle : t.info.remoteBlocksIds.length ≤ chunk.blocks.length := by omega
  refine ⟨hle, length_localBlocksIds hle, ?_, ?_⟩
  · intro j id hid
    have hj := (List.getElem?_eq_some_iff.1 hid).1
    rw [length_localBlocksIds hle] at hj
    rw [getElem?_localBlocksIds hle] at hid
    rw [← hid]
    congr 2
    omega
  · intro j id hid
    rw [← hid]
    exact (t.getElem?_remoteBlocksIds j).symm

theorem exists_last (t : Transfer) : ∃ chunk ∈ t.chunks, chunk.seqLen = t.promptLen := by
  obtain ⟨chunk, hchunk, hseqLen⟩ := Option.map_eq_some_iff.1 t.last
  exact ⟨chunk, mem_of_getLast? hchunk, hseqLen⟩

theorem delivers_of_even (h : t.Even) {position : Nat} (hshared : t.sharedNum ≤ position)
    (hlt : position * t.blockSize < t.promptLen) : t.Delivers position := by
  have hroom := t.remote_room
  have hposition : position < t.remoteBlocks.length :=
    Nat.lt_of_mul_lt_mul_right (Nat.lt_of_lt_of_le hlt hroom)
  have hlengths : ∀ chunk ∈ t.chunks, chunk.blocks.length = t.remoteBlocks.length := by
    rcases h with h | h
    · omega
    · exact h
  obtain ⟨chunk, hchunk, hseqLen⟩ := t.exists_last
  have hblocks := hlengths chunk hchunk
  have hlength := t.length_remoteBlocksIds
  have hle : t.info.remoteBlocksIds.length ≤ chunk.blocks.length := by omega
  have hsum : t.sharedNum + (position - t.sharedNum) = position := by omega
  refine ⟨chunk, hchunk, position - t.sharedNum, ?_, ?_, ?_, ?_, ?_⟩
  · rw [hseqLen]
    exact Nat.min_le_right _ _
  · rw [getElem?_localBlocksIds hle,
      show chunk.blocks.length - t.info.remoteBlocksIds.length = t.sharedNum by omega, hsum]
  · change _ = t.info.remoteBlocksIds[_]?
    rw [t.getElem?_remoteBlocksIds, hsum]
  · rw [length_localBlocksIds hle]
    omega
  · change _ < t.info.remoteBlocksIds.length
    omega

theorem sound_iff_even (t : Transfer) : t.Sound ↔ t.Even := by
  constructor
  · intro h
    by_cases hshared : t.sharedNum = t.remoteBlocks.length
    · exact Or.inl hshared
    · have hlt : t.sharedNum < t.remoteBlocks.length := by
        have hle := t.sharedNum_le
        omega
      exact Or.inr fun chunk hchunk => (h.1 chunk hchunk).length_blocks hlt
  · intro h
    refine ⟨fun chunk hchunk => ?_, fun position hshared hlt => delivers_of_even h hshared hlt⟩
    rcases h with h | h
    · exact paired_of_length (Or.inl h)
    · exact paired_of_length (Or.inr (h chunk hchunk))

end Transfer

structure KVCacheInfo where
  dstClusterId : UInt64
  dstAddr : Text
  dstKCacheId : Int64
  dstVCacheId : Int64
  srcBlocks : List UInt64 := []
  dstBlocks : List UInt64 := []
  dstXtensorLayerOffsets : List XTensorLayerOffsets := []

structure ParallelArgs where
  rank : Nat
  dpSize : Nat
  worldSize : Nat

abbrev MergedKvInfos := List (Text × KVCacheInfo)

def toText (digits : String) : Text := digits.toUTF8.toList

def workerKey (dst : KVCacheInfo) : Text :=
  toText (toString dst.dstClusterId.toNat) ++ toText "_" ++ dst.dstAddr ++ toText "_" ++
    toText (toString dst.dstKCacheId.toInt) ++ toText "_" ++
    toText (toString dst.dstVCacheId.toInt)

def mergeOffsets (existing offsets : List XTensorLayerOffsets) : List XTensorLayerOffsets :=
  if offsets.isEmpty then existing
  else if existing.isEmpty then offsets
  else List.zipWith (fun e o => ⟨e.kOffsets ++ o.kOffsets, e.vOffsets ++ o.vOffsets⟩) existing
      offsets ++ existing.drop offsets.length

/-- The blocks of a request behind those for the same worker. -/
def KVCacheInfo.append (kvInfo : KVCacheInfo) (info : SharedMemory.TransferKVInfo) : KVCacheInfo :=
  { kvInfo with
    srcBlocks := kvInfo.srcBlocks ++ info.localBlocksIds
    dstBlocks := kvInfo.dstBlocks ++ info.remoteBlocksIds
    dstXtensorLayerOffsets :=
      mergeOffsets kvInfo.dstXtensorLayerOffsets info.dstXtensorLayerOffsets }

/-- Merge the blocks of a request into the entry of a worker, or make an entry. -/
def mergeInto (dst : KVCacheInfo) (info : SharedMemory.TransferKVInfo) :
    MergedKvInfos → MergedKvInfos
  | [] => [(workerKey dst, dst.append info)]
  | (key, kvInfo) :: merged =>
      if key = workerKey dst then (key, kvInfo.append info) :: merged
      else (key, kvInfo) :: mergeInto dst info merged

/-- The values of `i` in a loop from `start` to `stop` in steps. -/
def stepRange (start stop step : Nat) : List Nat :=
  List.range' start ((stop - start + step - 1) / step) step

/-- The worker `i` of the decode instance. An index outside of a vector fails. -/
def destination (info : SharedMemory.TransferKVInfo) (i : Nat) : Option KVCacheInfo := do
  let dstClusterId ← info.remoteInstanceInfo.clusterIds[i]?
  let dstAddr ← info.remoteInstanceInfo.addrs[i]?
  let dstKCacheId ← info.remoteInstanceInfo.kCacheIds[i]?
  let dstVCacheId ← info.remoteInstanceInfo.vCacheIds[i]?
  return { dstClusterId, dstAddr, dstKCacheId, dstVCacheId }

/-- The workers to which this worker pushes the blocks of a request. Division by zero
fails. -/
def destinations (parallelArgs : ParallelArgs) (info : SharedMemory.TransferKVInfo) :
    Option (List KVCacheInfo) := do
  guard (parallelArgs.dpSize ≠ 0)
  let srcTpSize := parallelArgs.worldSize / parallelArgs.dpSize
  guard (srcTpSize ≠ 0)
  let srcDpLocalTpRank := parallelArgs.rank % srcTpSize
  let dstWorldSize := info.remoteInstanceInfo.clusterIds.length
  guard (0 < info.remoteInstanceInfo.dpSize.toInt)
  let dstTpSize := dstWorldSize / info.remoteInstanceInfo.dpSize.toInt.toNat
  guard (dstTpSize ≠ 0 ∨ dstWorldSize ≤ srcDpLocalTpRank)
  let linkedDpRanks := (stepRange srcDpLocalTpRank dstWorldSize srcTpSize).map (· / dstTpSize)
  if 0 ≤ info.dpRank.toInt ∧ info.dpRank.toInt.toNat ∈ linkedDpRanks then
    let dstDpRank := info.dpRank.toInt.toNat
    (stepRange (srcDpLocalTpRank % dstTpSize + dstTpSize * dstDpRank)
      (dstTpSize * (dstDpRank + 1)) srcTpSize).mapM (destination info)
  else return []

def mergeRequest (parallelArgs : ParallelArgs) (merged : MergedKvInfos)
    (info : SharedMemory.TransferKVInfo) :
    Option MergedKvInfos := do
  let dsts ← destinations parallelArgs info
  return dsts.foldl (fun merged dst => mergeInto dst info merged) merged

def mergeKvBlocks (parallelArgs : ParallelArgs) (merged : MergedKvInfos)
    (transferKvInfos : List SharedMemory.TransferKVInfo) : Option MergedKvInfos :=
  transferKvInfos.foldlM (mergeRequest parallelArgs) merged

section Merge

variable {parallelArgs : ParallelArgs} {merged merged' : MergedKvInfos} {key : Text}

/-- The pairs that are collected for a worker. -/
def pairs (merged : MergedKvInfos) (key : Text) : List (UInt64 × UInt64) :=
  match merged.lookup key with
  | none => []
  | some kvInfo => kvInfo.srcBlocks.zip kvInfo.dstBlocks

/-- Every entry has as many local as remote blocks. -/
def Aligned (merged : MergedKvInfos) : Prop :=
  ∀ entry ∈ merged, entry.2.srcBlocks.length = entry.2.dstBlocks.length

def requestPairs (info : SharedMemory.TransferKVInfo) : List (UInt64 × UInt64) :=
  info.localBlocksIds.zip info.remoteBlocksIds

variable {info : SharedMemory.TransferKVInfo}

theorem aligned_append {kvInfo : KVCacheInfo}
    (h : kvInfo.srcBlocks.length = kvInfo.dstBlocks.length)
    (hinfo : info.localBlocksIds.length = info.remoteBlocksIds.length) :
    (kvInfo.append info).srcBlocks.length = (kvInfo.append info).dstBlocks.length := by
  rw [KVCacheInfo.append, length_append, length_append, h, hinfo]

theorem aligned_mergeInto {dst : KVCacheInfo} (h : Aligned merged)
    (hdst : dst.srcBlocks.length = dst.dstBlocks.length)
    (hinfo : info.localBlocksIds.length = info.remoteBlocksIds.length) :
    Aligned (mergeInto dst info merged) := by
  induction merged with
  | nil =>
      intro entry hentry
      rw [List.mem_singleton.1 hentry]
      exact aligned_append hdst hinfo
  | cons first merged ih =>
      obtain ⟨hfirst, hrest⟩ := List.forall_mem_cons.1 h
      rw [mergeInto]
      split
      · exact List.forall_mem_cons.2 ⟨aligned_append hfirst hinfo, hrest⟩
      · exact List.forall_mem_cons.2 ⟨hfirst, ih hrest⟩

@[simp] theorem pairs_cons_self (kvInfo : KVCacheInfo) :
    pairs ((key, kvInfo) :: merged) key = kvInfo.srcBlocks.zip kvInfo.dstBlocks := by
  rw [pairs, lookup_cons_self]

theorem pairs_cons_of_ne {first : Text} (kvInfo : KVCacheInfo) (hne : key ≠ first) :
    pairs ((first, kvInfo) :: merged) key = pairs merged key := by
  rw [pairs, lookup_cons, beq_eq_false_iff_ne.2 hne, pairs]

theorem pairs_mergeInto {dst : KVCacheInfo} (h : Aligned merged)
    (hsrc : dst.srcBlocks = []) (hdst : dst.dstBlocks = []) :
    pairs (mergeInto dst info merged) key =
      pairs merged key ++ if key = workerKey dst then requestPairs info else [] := by
  induction merged with
  | nil =>
      rw [mergeInto]
      by_cases hkey : key = workerKey dst
      · rw [if_pos hkey, ← hkey, pairs_cons_self, KVCacheInfo.append, hsrc, hdst]
        rfl
      · rw [if_neg hkey, pairs_cons_of_ne _ hkey, append_nil]
  | cons first merged ih =>
      obtain ⟨firstKey, kvInfo⟩ := first
      obtain ⟨hfirst, hrest⟩ := List.forall_mem_cons.1 h
      rw [mergeInto]
      by_cases hmatch : firstKey = workerKey dst
      · rw [if_pos hmatch]
        by_cases hkey : key = firstKey
        · subst hkey
          rw [if_pos hmatch, pairs_cons_self, pairs_cons_self]
          exact zip_append hfirst
        · rw [if_neg (fun h => hkey (h.trans hmatch.symm)), append_nil,
            pairs_cons_of_ne _ hkey, pairs_cons_of_ne _ hkey]
      · rw [if_neg hmatch]
        by_cases hkey : key = firstKey
        · subst hkey
          rw [if_neg hmatch, append_nil, pairs_cons_self, pairs_cons_self]
        · rw [pairs_cons_of_ne _ hkey, pairs_cons_of_ne _ hkey, ih hrest]

theorem destination_blocks {i : Nat} {dst : KVCacheInfo}
    (h : destination info i = some dst) : dst.srcBlocks = [] ∧ dst.dstBlocks = [] := by
  simp only [destination, bind_eq_bind, bind_eq_some_iff] at h
  obtain ⟨dstClusterId, -, dstAddr, -, dstKCacheId, -, dstVCacheId, -, hdst⟩ := h
  obtain rfl := Option.some.inj hdst
  exact ⟨rfl, rfl⟩

theorem exists_of_mem_mapM {α β : Type} {f : α → Option β} {xs : List α} {ys : List β}
    (h : xs.mapM f = some ys) {y : β} (hy : y ∈ ys) : ∃ x ∈ xs, f x = some y := by
  induction xs generalizing ys with
  | nil =>
      obtain rfl := Option.some.inj h
      cases hy
  | cons x xs ih =>
      rw [mapM_cons] at h
      simp only [bind_eq_bind, bind_eq_some_iff] at h
      obtain ⟨z, hz, zs, hzs, hys⟩ := h
      obtain rfl := Option.some.inj hys
      rcases List.mem_cons.1 hy with rfl | hmem
      · exact ⟨x, mem_cons_self, hz⟩
      · obtain ⟨x', hx', hfx⟩ := ih hzs hmem
        exact ⟨x', mem_cons_of_mem x hx', hfx⟩

theorem destinations_blocks {dsts : List KVCacheInfo}
    (h : destinations parallelArgs info = some dsts) :
    ∀ dst ∈ dsts, dst.srcBlocks = [] ∧ dst.dstBlocks = [] := by
  simp only [destinations, bind_eq_bind, bind_eq_some_iff] at h
  obtain ⟨_, -, _, -, _, -, _, -, hdsts⟩ := h
  split at hdsts
  · intro dst hdst
    obtain ⟨i, -, hi⟩ := exists_of_mem_mapM hdsts hdst
    exact destination_blocks hi
  · obtain rfl := Option.some.inj hdsts
    exact forall_mem_nil _

/-- The pairs of a request, as often as it goes to a worker. -/
def sentTo (parallelArgs : ParallelArgs) (key : Text) (info : SharedMemory.TransferKVInfo) :
    List (UInt64 × UInt64) :=
  ((destinations parallelArgs info).getD []).flatMap fun dst =>
    if key = workerKey dst then requestPairs info else []

theorem merged_foldl {dsts : List KVCacheInfo}
    (hinfo : info.localBlocksIds.length = info.remoteBlocksIds.length)
    (hdsts : ∀ dst ∈ dsts, dst.srcBlocks = [] ∧ dst.dstBlocks = []) (h : Aligned merged) :
    Aligned (dsts.foldl (fun merged dst => mergeInto dst info merged) merged) ∧
      ∀ key, pairs (dsts.foldl (fun merged dst => mergeInto dst info merged) merged) key =
        pairs merged key ++
          dsts.flatMap fun dst => if key = workerKey dst then requestPairs info else [] := by
  induction dsts generalizing merged with
  | nil => exact ⟨h, fun key => (append_nil _).symm⟩
  | cons dst dsts ih =>
      obtain ⟨⟨hsrc, hdst⟩, hrest⟩ := List.forall_mem_cons.1 hdsts
      have hstep : Aligned (mergeInto dst info merged) :=
        aligned_mergeInto h (by rw [hsrc, hdst]) hinfo
      obtain ⟨haligned, hpairs⟩ := ih hrest hstep
      refine ⟨haligned, fun key => ?_⟩
      rw [foldl_cons, hpairs, pairs_mergeInto h hsrc hdst, flatMap_cons,
        append_assoc]

/-- `merge_kv_blocks` keeps local and remote blocks in step: what it collects for a worker
are the pairs of the requests, one request behind the other. -/
theorem aligned_mergeKvBlocks {transferKvInfos : List SharedMemory.TransferKVInfo}
    (hinfos : ∀ info ∈ transferKvInfos, info.localBlocksIds.length = info.remoteBlocksIds.length)
    (h : Aligned merged)
    (hrun : mergeKvBlocks parallelArgs merged transferKvInfos = some merged') :
    Aligned merged' ∧ ∀ key, pairs merged' key =
      pairs merged key ++ transferKvInfos.flatMap (sentTo parallelArgs key) := by
  induction transferKvInfos generalizing merged with
  | nil =>
      obtain rfl := Option.some.inj hrun
      exact ⟨h, fun key => (append_nil _).symm⟩
  | cons info transferKvInfos ih =>
      obtain ⟨hinfo, hrest⟩ := List.forall_mem_cons.1 hinfos
      obtain ⟨middle, hmiddle, hrun'⟩ := Option.bind_eq_some_iff.1 hrun
      obtain ⟨dsts, hdsts, hfold⟩ := Option.bind_eq_some_iff.1 hmiddle
      obtain rfl := Option.some.inj hfold
      obtain ⟨hstep, hpairs⟩ := merged_foldl hinfo (destinations_blocks hdsts) h
      obtain ⟨haligned, hpairs'⟩ := ih hrest hstep hrun'
      refine ⟨haligned, fun key => ?_⟩
      rw [hpairs', hpairs, flatMap_cons, append_assoc, sentTo, hdsts]
      rfl

end Merge

/-- The pairs of a prompt are right behind every chunk, and everything is pushed, if and only
if both instances have the same number of blocks at each chunk, or nothing is to be pushed.
Pairs that are right stay so when requests are merged. -/
theorem transfer_sound_iff (t : Transfer) :
    (t.Sound ↔ t.Even) ∧
      ∀ parallelArgs transferKvInfos merged,
        (∀ info ∈ transferKvInfos, ∃ t : Transfer, ∃ chunk ∈ t.chunks,
          t.Even ∧ info = t.pushed chunk) →
        mergeKvBlocks parallelArgs [] transferKvInfos = some merged →
        Aligned merged ∧
          ∀ key, pairs merged key = transferKvInfos.flatMap (sentTo parallelArgs key) := by
  refine ⟨t.sound_iff_even, ?_⟩
  intro parallelArgs transferKvInfos merged hinfos hrun
  have hlengths : ∀ info ∈ transferKvInfos,
      info.localBlocksIds.length = info.remoteBlocksIds.length := by
    intro info hinfo
    obtain ⟨t, chunk, hchunk, heven, rfl⟩ := hinfos info hinfo
    exact ((t.sound_iff_even.2 heven).1 chunk hchunk).length_eq
  exact aligned_mergeKvBlocks hlengths (forall_mem_nil _) hrun

def wholeTransfer : Transfer where
  blockSize := 2
  promptLen := 4
  remoteBlocks := [7, 8]
  sharedNum := 1
  info := ⟨[], [], [8], 0,
    { clusterIds := [5], addrs := [[0x61]], kCacheIds := [1], vCacheIds := [2], dpSize := 1 }, []⟩
  chunks := [⟨4, [3, 4], by decide, by decide⟩]
  sharedNum_le := by decide
  remote_room := by decide
  remoteBlocksIds_eq := by decide
  increasing := by decide
  last := rfl
  room := by decide

/-- A transfer in one chunk. -/
theorem wholeTransfer_sound :
    wholeTransfer.Sound ∧
      ∀ merged, mergeKvBlocks ⟨0, 1, 1⟩ []
        [wholeTransfer.pushed ⟨4, [3, 4], by decide, by decide⟩] = some merged →
      Aligned merged := by
  have heven : wholeTransfer.Even := by
    refine Or.inr fun chunk hchunk => ?_
    rw [List.mem_singleton.1 hchunk]
    rfl
  obtain ⟨hsound, hmerge⟩ := transfer_sound_iff wholeTransfer
  refine ⟨hsound.2 heven, fun merged hrun => (hmerge _ _ merged ?_ hrun).1⟩
  intro info hinfo
  exact ⟨wholeTransfer, _, mem_singleton_self _, heven, List.mem_singleton.1 hinfo⟩

/-- A prompt of one block. The prefill instance allocates for a multiple of twice its context
parallel size, for 18 tokens, and so has a second block. -/
def paddedTransfer : Transfer where
  blockSize := 16
  promptLen := 16
  remoteBlocks := [7]
  sharedNum := 0
  info := ⟨[], [], [7], 0, {}, []⟩
  chunks := [⟨16, [3, 4], by decide, by decide⟩]
  sharedNum_le := by decide
  remote_room := by decide
  remoteBlocksIds_eq := by decide
  increasing := by decide
  last := rfl
  room := by decide

/-- The second block, which has no token of the prompt, is pushed to the place of the first. -/
theorem paddedTransfer_not_sound :
    ¬ paddedTransfer.Sound ∧
      (paddedTransfer.chunks.map fun chunk =>
        ((paddedTransfer.pushed chunk).localBlocksIds,
          (paddedTransfer.pushed chunk).remoteBlocksIds)) = [([4], [7])] := by
  refine ⟨fun h => ?_, by decide⟩
  have hpaired := h.1 ⟨16, [3, 4], by decide, by decide⟩ mem_cons_self
  exact absurd (hpaired.local_eq 0 4 (by decide)) (by decide)

end Xllm.DisaggPD
