import Mathlib.Data.Nat.ModEq
import Xllm.DisaggPD.KVPush
import Xllm.Lib.Decimal

/-!
# Which worker pushes to which

Every worker of a prefill group runs `merge_kv_blocks` on the same requests. For each
request it enumerates workers of the decode group in steps of its own group's size, if
one of the decode workers with its residue is in that group. When one of the two group
sizes divides the other, the workers that it enumerates are those of the group whose
index is congruent to its rank, so the enumerations of a whole prefill group split the
decode group.

What a worker collects for a key are the block lists of the requests, one behind the
other, and the key of a worker determines it.
-/

namespace Xllm.DisaggPD

open List

open SharedMemory (Text)

section Stride

variable {start stop step i : Nat}

theorem mem_stepRange (hstep : 0 < step) :
    i ∈ stepRange start stop step ↔ start ≤ i ∧ i < stop ∧ i % step = start % step := by
  rw [stepRange, mem_range']
  constructor
  · rintro ⟨k, hk, rfl⟩
    rw [Nat.lt_div_iff_mul_lt hstep] at hk
    refine ⟨Nat.le_add_right _ _, ?_, Nat.add_mul_mod_self_left _ _ _⟩
    have hcomm := Nat.mul_comm k step
    omega
  · rintro ⟨hle, hlt, hmod⟩
    have hdvd : step ∣ i - start := (Nat.modEq_iff_dvd' hle).mp hmod.symm
    obtain ⟨k, hk⟩ := hdvd
    refine ⟨k, ?_, by omega⟩
    rw [Nat.lt_div_iff_mul_lt hstep]
    have hcomm := Nat.mul_comm k step
    omega

theorem nodup_stepRange (hstep : 0 < step) : (stepRange start stop step).Nodup :=
  nodup_range' _ hstep

end Stride

def dstTpSize (info : SharedMemory.TransferKVInfo) : Nat :=
  info.remoteInstanceInfo.clusterIds.length / info.remoteInstanceInfo.dpSize.toInt.toNat

def dstDpRank (info : SharedMemory.TransferKVInfo) : Nat := info.dpRank.toInt.toNat

def decodeGroup (info : SharedMemory.TransferKVInfo) : List Nat :=
  List.range' (dstTpSize info * dstDpRank info) (dstTpSize info)

/-- The worker indices that the worker with a rank in its prefill group enumerates. -/
def chosen (srcTpSize rank : Nat) (info : SharedMemory.TransferKVInfo) : List Nat :=
  if dstDpRank info ∈ (stepRange rank info.remoteInstanceInfo.clusterIds.length srcTpSize).map
      (· / dstTpSize info) then
    stepRange (rank % dstTpSize info + dstTpSize info * dstDpRank info)
      (dstTpSize info * (dstDpRank info + 1)) srcTpSize
  else []

/-- A request for a decode instance whose groups have `dst_tp_size` workers each, one of
which the request names. One of the two group sizes divides the other. -/
structure Fits (srcTpSize : Nat) (info : SharedMemory.TransferKVInfo) : Prop where
  dpSize_pos : 0 < info.remoteInstanceInfo.dpSize.toInt
  tpSize_pos : 0 < dstTpSize info
  world_eq : info.remoteInstanceInfo.clusterIds.length =
    dstTpSize info * info.remoteInstanceInfo.dpSize.toInt.toNat
  dpRank_nonneg : 0 ≤ info.dpRank.toInt
  dpRank_lt : dstDpRank info < info.remoteInstanceInfo.dpSize.toInt.toNat
  divides : srcTpSize ∣ dstTpSize info ∨ dstTpSize info ∣ srcTpSize
  addrs_le : info.remoteInstanceInfo.clusterIds.length ≤ info.remoteInstanceInfo.addrs.length
  kCacheIds_le :
    info.remoteInstanceInfo.clusterIds.length ≤ info.remoteInstanceInfo.kCacheIds.length
  vCacheIds_le :
    info.remoteInstanceInfo.clusterIds.length ≤ info.remoteInstanceInfo.vCacheIds.length

section Chosen

variable {srcTpSize rank i : Nat} {info : SharedMemory.TransferKVInfo}

theorem mem_decodeGroup : i ∈ decodeGroup info ↔
    dstTpSize info * dstDpRank info ≤ i ∧ i < dstTpSize info * (dstDpRank info + 1) := by
  rw [decodeGroup, mem_range'_1, Nat.mul_add_one]

theorem Fits.lt_world (h : Fits srcTpSize info) (hi : i ∈ decodeGroup info) :
    i < info.remoteInstanceInfo.clusterIds.length := by
  rw [h.world_eq]
  exact Nat.lt_of_lt_of_le (mem_decodeGroup.mp hi).2 (Nat.mul_le_mul_left _ h.dpRank_lt)

theorem Fits.div_eq (h : Fits srcTpSize info) (hi : i ∈ decodeGroup info) :
    i / dstTpSize info = dstDpRank info := by
  obtain ⟨hle, hlt⟩ := mem_decodeGroup.mp hi
  rw [Nat.div_eq_iff h.tpSize_pos]
  have hcomm := Nat.mul_comm (dstTpSize info) (dstDpRank info)
  have hsucc := Nat.mul_add_one (dstTpSize info) (dstDpRank info)
  omega

/-- The enumeration of a worker: the members of the group that have its residue. -/
theorem Fits.mem_chosen (h : Fits srcTpSize info) (hrank : rank < srcTpSize) :
    i ∈ chosen srcTpSize rank info ↔ i ∈ decodeGroup info ∧ i % srcTpSize = rank := by
  have hpos : 0 < srcTpSize := Nat.lt_of_le_of_lt (Nat.zero_le _) hrank
  have hdst := h.tpSize_pos
  have hrankMod : rank % srcTpSize = rank := Nat.mod_eq_of_lt hrank
  rw [chosen]
  -- The group is linked through any of its members that has the residue.
  have hlinked : ∀ j ∈ decodeGroup info, j % srcTpSize = rank →
      dstDpRank info ∈ (stepRange rank info.remoteInstanceInfo.clusterIds.length srcTpSize).map
        (· / dstTpSize info) := by
    intro j hj hmod
    refine List.mem_map.mpr ⟨j, (mem_stepRange hpos).mpr ⟨?_, h.lt_world hj, ?_⟩, h.div_eq hj⟩
    · rw [← hmod]
      exact Nat.mod_le _ _
    · rw [hmod, hrankMod]
  rcases h.divides with hdvd | hdvd
  · -- Whole strides fit into a group, and every group has members of every residue.
    have hbase : srcTpSize ∣ dstTpSize info * dstDpRank info := Dvd.dvd.mul_right hdvd _
    have hle : srcTpSize ≤ dstTpSize info := Nat.le_of_dvd hdst hdvd
    have hfirst : rank % dstTpSize info = rank := Nat.mod_eq_of_lt (Nat.lt_of_lt_of_le hrank hle)
    have hmod : (rank + dstTpSize info * dstDpRank info) % srcTpSize = rank := by
      rw [Nat.add_mod, Nat.mod_eq_zero_of_dvd hbase, Nat.add_zero, Nat.mod_mod, hrankMod]
    have hmem : rank + dstTpSize info * dstDpRank info ∈ decodeGroup info := by
      rw [mem_decodeGroup, Nat.mul_add_one]
      omega
    rw [if_pos (hlinked _ hmem hmod), mem_stepRange hpos, hfirst, hmod, mem_decodeGroup]
    constructor
    · rintro ⟨hge, hlt, hres⟩
      exact ⟨⟨by omega, hlt⟩, hres⟩
    · rintro ⟨⟨hge, hlt⟩, hres⟩
      refine ⟨?_, hlt, hres⟩
      -- The residue of the offset in the group is the rank, so the offset is at least the rank.
      have hoffset : (i - dstTpSize info * dstDpRank info) % srcTpSize = rank := by
        obtain ⟨k, hk⟩ := hbase
        rw [hk] at hge ⊢
        rw [Nat.sub_mul_mod hge, hres]
      have := Nat.mod_le (i - dstTpSize info * dstDpRank info) srcTpSize
      omega
  · -- A stride covers whole groups, so a linked group has one member of the residue.
    split
    · rename_i hlink
      obtain ⟨j, hj, hdiv⟩ := List.mem_map.mp hlink
      obtain ⟨hge, -, hmod⟩ := (mem_stepRange hpos).mp hj
      rw [hrankMod] at hmod
      -- The member through which the group is linked.
      have hj' : j = rank % dstTpSize info + dstTpSize info * dstDpRank info := by
        have hsame : j % dstTpSize info = rank % dstTpSize info := by
          rw [← hmod, Nat.mod_mod_of_dvd _ hdvd]
        rw [← hsame, ← hdiv, Nat.mod_add_div]
      rw [mem_stepRange hpos, ← hj', hmod, mem_decodeGroup]
      constructor
      · rintro ⟨hji, hlt, hres⟩
        exact ⟨⟨by omega, hlt⟩, hres⟩
      · rintro ⟨hgroup, hres⟩
        have hi : i = j := by
          have hsame : i % dstTpSize info = j % dstTpSize info := by
            rw [← Nat.mod_mod_of_dvd i hdvd, ← Nat.mod_mod_of_dvd j hdvd, hres, hmod]
          rw [← Nat.mod_add_div i (dstTpSize info), ← Nat.mod_add_div j (dstTpSize info), hsame,
            h.div_eq (mem_decodeGroup.mpr hgroup), hdiv]
        exact ⟨Nat.le_of_eq hi.symm, hgroup.2, hres⟩
    · rename_i hlink
      refine iff_of_false (by simp) ?_
      rintro ⟨hgroup, hres⟩
      exact hlink (hlinked i hgroup hres)

theorem nodup_chosen (hpos : 0 < srcTpSize) : (chosen srcTpSize rank info).Nodup := by
  rw [chosen]
  split
  · exact nodup_stepRange hpos
  · exact nodup_nil

theorem Fits.flatMap_chosen_perm (h : Fits srcTpSize info) (hpos : 0 < srcTpSize) :
    ((range srcTpSize).flatMap fun rank => chosen srcTpSize rank info).Perm
      (decodeGroup info) := by
  rw [perm_ext_iff_of_nodup]
  · intro i
    rw [mem_flatMap]
    constructor
    · rintro ⟨rank, hrank, hi⟩
      exact ((h.mem_chosen (List.mem_range.mp hrank)).mp hi).1
    · intro hi
      have hlt := Nat.mod_lt i hpos
      exact ⟨i % srcTpSize, List.mem_range.mpr hlt, (h.mem_chosen hlt).mpr ⟨hi, rfl⟩⟩
  · rw [nodup_flatMap]
    refine ⟨fun rank _ => nodup_chosen hpos, ?_⟩
    refine List.Pairwise.imp_of_mem ?_ nodup_range
    intro rank rank' hrank hrank' hne i hi hi'
    have hres := ((h.mem_chosen (List.mem_range.mp hrank)).mp hi).2
    have hres' := ((h.mem_chosen (List.mem_range.mp hrank')).mp hi').2
    exact hne (hres.symm.trans hres')
  · exact nodup_range'

end Chosen

def worker (info : SharedMemory.TransferKVInfo) (i : Nat) : KVCacheInfo where
  dstClusterId := info.remoteInstanceInfo.clusterIds.getD i 0
  dstAddr := info.remoteInstanceInfo.addrs.getD i []
  dstKCacheId := info.remoteInstanceInfo.kCacheIds.getD i 0
  dstVCacheId := info.remoteInstanceInfo.vCacheIds.getD i 0

def srcWorker (srcTpSize srcDpSize group rank : Nat) : ParallelArgs :=
  ⟨group * srcTpSize + rank, srcDpSize, srcDpSize * srcTpSize⟩

section Destinations

variable {srcTpSize srcDpSize group rank i : Nat} {info : SharedMemory.TransferKVInfo}

theorem Fits.destination_eq (h : Fits srcTpSize info) (hi : i ∈ decodeGroup info) :
    destination info i = some (worker info i) := by
  have hlt := h.lt_world hi
  have haddr := Nat.lt_of_lt_of_le hlt h.addrs_le
  have hkCache := Nat.lt_of_lt_of_le hlt h.kCacheIds_le
  have hvCache := Nat.lt_of_lt_of_le hlt h.vCacheIds_le
  simp only [destination, worker, getD_eq_getElem?_getD, getElem?_eq_getElem hlt,
    getElem?_eq_getElem haddr, getElem?_eq_getElem hkCache,
    getElem?_eq_getElem hvCache]
  rfl

theorem mapM_eq_map {α β : Type} {f : α → Option β} {g : α → β} {xs : List α}
    (h : ∀ x ∈ xs, f x = some (g x)) : xs.mapM f = some (xs.map g) := by
  induction xs with
  | nil => rfl
  | cons x xs ih =>
      rw [mapM_cons, h x mem_cons_self, ih fun y hy => h y (mem_cons_of_mem x hy)]
      rfl

/-- The workers that one rank sends to. -/
theorem Fits.destinations_eq (h : Fits srcTpSize info) (hdp : 0 < srcDpSize)
    (hrank : rank < srcTpSize) :
    destinations (srcWorker srcTpSize srcDpSize group rank) info =
      some ((chosen srcTpSize rank info).map (worker info)) := by
  have hpos : 0 < srcTpSize := Nat.lt_of_le_of_lt (Nat.zero_le _) hrank
  have hlocal : (group * srcTpSize + rank) % srcTpSize = rank := by
    rw [Nat.mul_add_mod_self_right, Nat.mod_eq_of_lt hrank]
  have hmap : (chosen srcTpSize rank info).mapM (destination info) =
      some ((chosen srcTpSize rank info).map (worker info)) :=
    mapM_eq_map fun i hi => h.destination_eq ((h.mem_chosen hrank).mp hi).1
  have hguards : destinations (srcWorker srcTpSize srcDpSize group rank) info =
      if 0 ≤ info.dpRank.toInt ∧ dstDpRank info ∈
          (stepRange rank info.remoteInstanceInfo.clusterIds.length srcTpSize).map
            (· / dstTpSize info) then
        (stepRange (rank % dstTpSize info + dstTpSize info * dstDpRank info)
          (dstTpSize info * (dstDpRank info + 1)) srcTpSize).mapM (destination info)
      else some [] := by
    have htp : ¬ info.remoteInstanceInfo.clusterIds.length /
        info.remoteInstanceInfo.dpSize.toInt.toNat = 0 := h.tpSize_pos.ne'
    simp only [destinations, srcWorker, Nat.mul_div_cancel_left _ hdp, hlocal, ne_eq,
      hdp.ne', hpos.ne', htp, h.dpSize_pos]
    rfl
  rw [hguards, ← hmap, chosen]
  by_cases hlink : dstDpRank info ∈
      (stepRange rank info.remoteInstanceInfo.clusterIds.length srcTpSize).map
        (· / dstTpSize info)
  · rw [if_pos hlink, if_pos ⟨h.dpRank_nonneg, hlink⟩]
  · rw [if_neg hlink, if_neg fun hboth => hlink hboth.2]
    rfl

end Destinations

/-- The worker of an entry is the one that is looked for. -/
def SameWorker (kvInfo dst : KVCacheInfo) : Prop :=
  kvInfo.dstClusterId = dst.dstClusterId ∧ kvInfo.dstAddr = dst.dstAddr ∧
    kvInfo.dstKCacheId = dst.dstKCacheId ∧ kvInfo.dstVCacheId = dst.dstVCacheId

instance (kvInfo dst : KVCacheInfo) : Decidable (SameWorker kvInfo dst) :=
  inferInstanceAs (Decidable (_ ∧ _))

theorem underscore_notMem_nat (n : Nat) : 0x5f ∉ toText (toString n) :=
  Decimal.ne_of_mem_utf8 (by decide) fun _ hc => .inl (Decimal.isDigit_of_mem_toString hc)

theorem underscore_notMem_int (i : Int) : 0x5f ∉ toText (toString i) :=
  Decimal.ne_of_mem_utf8 (by decide) fun _ hc => Decimal.isDigit_of_mem_toString_int hc

theorem toText_underscore : toText "_" = [0x5f] :=
  Decimal.utf8_eq_flatMap "_"

theorem workerKey_eq_iff {kvInfo dst : KVCacheInfo} :
    workerKey kvInfo = workerKey dst ↔ SameWorker kvInfo dst := by
  constructor
  · intro h
    simp only [workerKey, toText_underscore, append_assoc, singleton_append] at h
    obtain ⟨hcluster, hrest⟩ := Decimal.append_cons_inj (underscore_notMem_nat _)
      (underscore_notMem_nat _) h
    have hlast : (kvInfo.dstAddr ++ 0x5f :: toText (toString kvInfo.dstKCacheId.toInt)) ++
          0x5f :: toText (toString kvInfo.dstVCacheId.toInt) =
        (dst.dstAddr ++ 0x5f :: toText (toString dst.dstKCacheId.toInt)) ++
          0x5f :: toText (toString dst.dstVCacheId.toInt) :=
      (append_assoc _ _ _).trans (hrest.trans (append_assoc _ _ _).symm)
    obtain ⟨hfront, hvCache⟩ := Decimal.append_cons_inj_right (underscore_notMem_int _)
      (underscore_notMem_int _) hlast
    obtain ⟨haddr, hkCache⟩ := Decimal.append_cons_inj_right (underscore_notMem_int _)
      (underscore_notMem_int _) hfront
    refine ⟨?_, haddr, ?_, ?_⟩
    · exact UInt64.toNat_inj.mp (Decimal.toString_inj (Decimal.utf8_inj.mp hcluster))
    · exact Int64.toInt_inj.mp (Decimal.toString_int_inj (Decimal.utf8_inj.mp hkCache))
    · exact Int64.toInt_inj.mp (Decimal.toString_int_inj (Decimal.utf8_inj.mp hvCache))
  · rintro ⟨hcluster, haddr, hkCache, hvCache⟩
    rw [workerKey, workerKey, hcluster, haddr, hkCache, hvCache]

/-- A list of the entry of a worker. -/
def collected (get : KVCacheInfo → List UInt64) (merged : MergedKvInfos) (dst : KVCacheInfo) :
    List UInt64 :=
  match merged.lookup (workerKey dst) with
  | none => []
  | some kvInfo => get kvInfo

structure Keyed (merged : MergedKvInfos) : Prop where
  nodup : (merged.map Prod.fst).Nodup
  key_eq : ∀ entry ∈ merged, entry.1 = workerKey entry.2

structure Filled (get : KVCacheInfo → List UInt64)
    (part : SharedMemory.TransferKVInfo → List UInt64) :
    Prop where
  append : ∀ kvInfo info, get (kvInfo.append info) = get kvInfo ++ part info
  blank : ∀ info i, get (worker info i) = []

theorem filled_srcBlocks :
      Filled KVCacheInfo.srcBlocks SharedMemory.TransferKVInfo.localBlocksIds :=
  ⟨fun _ _ => rfl, fun _ _ => rfl⟩

theorem filled_dstBlocks :
      Filled KVCacheInfo.dstBlocks SharedMemory.TransferKVInfo.remoteBlocksIds :=
  ⟨fun _ _ => rfl, fun _ _ => rfl⟩

/-- What the worker with a rank sends for a request to a decode worker, from one of the lists
of the request. -/
def share (part : SharedMemory.TransferKVInfo → List UInt64) (srcTpSize rank : Nat)
    (dst : KVCacheInfo)
    (info : SharedMemory.TransferKVInfo) : List UInt64 :=
  (chosen srcTpSize rank info).flatMap fun i =>
    if SameWorker (worker info i) dst then part info else []

section Lists

variable {get : KVCacheInfo → List UInt64} {part : SharedMemory.TransferKVInfo → List UInt64}
variable {merged : MergedKvInfos} {info : SharedMemory.TransferKVInfo} {dst : KVCacheInfo}

@[simp] theorem collected_nil : collected get [] dst = [] := rfl

@[simp] theorem workerKey_append (kvInfo : KVCacheInfo) (info : SharedMemory.TransferKVInfo) :
    workerKey (kvInfo.append info) = workerKey kvInfo := rfl

@[simp] theorem collected_cons_self {key : Text} {kvInfo : KVCacheInfo}
    (hkey : workerKey dst = key) :
    collected get ((key, kvInfo) :: merged) dst = get kvInfo := by
  subst hkey
  rw [collected, lookup_cons_self]

@[simp] theorem collected_cons_of_ne {key : Text} {kvInfo : KVCacheInfo}
    (hkey : workerKey dst ≠ key) :
    collected get ((key, kvInfo) :: merged) dst = collected get merged dst := by
  rw [collected, lookup_cons, beq_eq_false_iff_ne.mpr hkey, collected]

theorem Filled.collected_mergeInto (h : Filled get part) (i : Nat) (merged : MergedKvInfos) :
    collected get (mergeInto (worker info i) info merged) dst =
      collected get merged dst ++ if SameWorker (worker info i) dst then part info else [] := by
  induction merged with
  | nil =>
      rw [mergeInto, collected_nil, nil_append]
      by_cases hsame : SameWorker (worker info i) dst
      · rw [if_pos hsame, collected_cons_self (workerKey_eq_iff.mpr hsame).symm, h.append,
          h.blank, nil_append]
      · rw [if_neg hsame,
          collected_cons_of_ne fun hkey => hsame (workerKey_eq_iff.mp hkey.symm), collected_nil]
  | cons entry merged ih =>
      obtain ⟨key, kvInfo⟩ := entry
      rw [mergeInto]
      by_cases hentry : key = workerKey (worker info i)
      · rw [if_pos hentry]
        by_cases hkey : workerKey dst = key
        · have hsame := workerKey_eq_iff.mp (hkey.trans hentry).symm
          rw [collected_cons_self hkey, collected_cons_self hkey, if_pos hsame, h.append]
        · have hsame : ¬ SameWorker (worker info i) dst := fun hsame =>
            hkey ((workerKey_eq_iff.mpr hsame).symm.trans hentry.symm)
          rw [collected_cons_of_ne hkey, collected_cons_of_ne hkey, if_neg hsame, append_nil]
      · rw [if_neg hentry]
        by_cases hkey : workerKey dst = key
        · have hsame : ¬ SameWorker (worker info i) dst := fun hsame =>
            hentry (hkey.symm.trans (workerKey_eq_iff.mpr hsame).symm)
          rw [collected_cons_self hkey, collected_cons_self hkey, if_neg hsame, append_nil]
        · rw [collected_cons_of_ne hkey, collected_cons_of_ne hkey, ih]

theorem Filled.collected_foldl (h : Filled get part) (is : List Nat) (merged : MergedKvInfos) :
    collected get ((is.map (worker info)).foldl (fun merged dst => mergeInto dst info merged)
        merged) dst =
      collected get merged dst ++
        is.flatMap fun i => if SameWorker (worker info i) dst then part info else [] := by
  induction is generalizing merged with
  | nil => rw [map_nil, foldl_nil, flatMap_nil, append_nil]
  | cons i is ih =>
      rw [map_cons, foldl_cons, ih, h.collected_mergeInto, flatMap_cons, append_assoc]

theorem mem_keys_mergeInto {key : Text} : key ∈ (mergeInto dst info merged).map Prod.fst →
    key ∈ merged.map Prod.fst ∨ key = workerKey dst := by
  induction merged with
  | nil => exact fun hkey => .inr (List.mem_singleton.mp hkey)
  | cons entry merged ih =>
      rw [mergeInto]
      split
      · exact .inl
      · intro hkey
        rcases List.mem_cons.mp hkey with rfl | hrest
        · exact .inl mem_cons_self
        · exact (ih hrest).imp_left (mem_cons_of_mem _)

theorem keyed_nil : Keyed [] := ⟨nodup_nil, forall_mem_nil _⟩

theorem keyed_mergeInto (h : Keyed merged) (dst : KVCacheInfo)
    (info : SharedMemory.TransferKVInfo) : Keyed (mergeInto dst info merged) := by
  induction merged with
  | nil =>
      refine ⟨nodup_singleton _, ?_⟩
      intro entry hentry
      rw [List.mem_singleton.mp hentry]
      exact (workerKey_append dst info).symm
  | cons entry merged ih =>
      obtain ⟨hnotMem, hnodup⟩ := List.nodup_cons.mp h.nodup
      obtain ⟨hkey, hkeys⟩ := List.forall_mem_cons.mp h.key_eq
      rw [mergeInto]
      split
      · exact ⟨h.nodup, List.forall_mem_cons.mpr ⟨hkey.trans (workerKey_append _ _).symm, hkeys⟩⟩
      · rename_i hne
        have hrest := ih ⟨hnodup, hkeys⟩
        refine ⟨List.nodup_cons.mpr ⟨?_, hrest.nodup⟩,
          List.forall_mem_cons.mpr ⟨hkey, hrest.key_eq⟩⟩
        intro hmem
        rcases mem_keys_mergeInto hmem with hmem | heq
        · exact hnotMem hmem
        · exact hne heq

theorem keyed_foldl (h : Keyed merged) (dsts : List KVCacheInfo)
    (info : SharedMemory.TransferKVInfo) :
    Keyed (dsts.foldl (fun merged dst => mergeInto dst info merged) merged) := by
  induction dsts generalizing merged with
  | nil => exact h
  | cons dst dsts ih => exact ih (keyed_mergeInto h dst info)

end Lists

section Group

variable {srcTpSize srcDpSize rank : Nat} {infos : List SharedMemory.TransferKVInfo}
    {merged : MergedKvInfos}

theorem mergeKvBlocks_eq (hdp : 0 < srcDpSize) (hrank : rank < srcTpSize) (group : Nat)
    (hfits : ∀ info ∈ infos, Fits srcTpSize info) (hkeyed : Keyed merged) :
    ∃ merged', mergeKvBlocks (srcWorker srcTpSize srcDpSize group rank) merged infos =
        some merged' ∧ Keyed merged' ∧
      ∀ get part, Filled get part → ∀ dst, collected get merged' dst =
        collected get merged dst ++ infos.flatMap (share part srcTpSize rank dst) := by
  induction infos generalizing merged with
  | nil => exact ⟨merged, rfl, hkeyed, fun get part _ dst => (append_nil _).symm⟩
  | cons info infos ih =>
      obtain ⟨hinfo, hrest⟩ := List.forall_mem_cons.mp hfits
      let middle := ((chosen srcTpSize rank info).map (worker info)).foldl
        (fun merged dst => mergeInto dst info merged) merged
      have hmiddle : mergeRequest (srcWorker srcTpSize srcDpSize group rank) merged info =
          some middle := by
        rw [mergeRequest, hinfo.destinations_eq hdp hrank]
        rfl
      obtain ⟨merged', hrun, hkeyed', hlists⟩ := ih hrest (keyed_foldl hkeyed _ info)
      refine ⟨merged', ?_, hkeyed', ?_⟩
      · rw [mergeKvBlocks, foldlM_cons, hmiddle]
        exact hrun
      · intro get part hfilled dst
        rw [hlists get part hfilled dst, hfilled.collected_foldl,
          append_assoc]
        rfl

theorem flatMap_ite_eq {xs : List Nat} (hnodup : xs.Nodup) (i : Nat) (ys : List UInt64) :
    (xs.flatMap fun j => if j = i then ys else []) = if i ∈ xs then ys else [] := by
  induction xs with
  | nil => rfl
  | cons x xs ih =>
      obtain ⟨hnotMem, hrest⟩ := List.nodup_cons.mp hnodup
      rw [flatMap_cons, ih hrest]
      by_cases hx : x = i
      · subst hx
        rw [if_pos rfl, if_neg hnotMem, if_pos mem_cons_self, append_nil]
      · rw [if_neg hx]
        refine if_congr ?_ rfl rfl
        rw [mem_cons]
        exact ⟨.inr, fun h => h.resolve_left (Ne.symm hx)⟩

theorem share_worker {part : SharedMemory.TransferKVInfo → List UInt64}
    {info : SharedMemory.TransferKVInfo} {i : Nat} (h : Fits srcTpSize info)
    (hrank : rank < srcTpSize) (hclusters : info.remoteInstanceInfo.clusterIds.Nodup)
    (hi : i ∈ decodeGroup info) : share part srcTpSize rank (worker info i) info =
      if i % srcTpSize = rank then part info else [] := by
  have hsame : ∀ j ∈ chosen srcTpSize rank info,
      (if SameWorker (worker info j) (worker info i) then part info else []) =
        if j = i then part info else [] := by
    intro j hj
    have hjGroup := ((h.mem_chosen hrank).mp hj).1
    refine if_congr ⟨?_, ?_⟩ rfl rfl
    · rintro ⟨hcluster, -⟩
      have hjlt := h.lt_world hjGroup
      have hilt := h.lt_world hi
      have hget : info.remoteInstanceInfo.clusterIds[j] =
        info.remoteInstanceInfo.clusterIds[i] := by
        simpa only [worker, getD_eq_getElem?_getD, getElem?_eq_getElem, hjlt, hilt,
          Option.getD_some] using hcluster
      exact (List.Nodup.getElem_inj_iff hclusters).mp hget
    · rintro rfl
      exact ⟨rfl, rfl, rfl, rfl⟩
  rw [share, flatMap_congr hsame, flatMap_ite_eq (nodup_chosen (Nat.zero_lt_of_lt hrank))]
  exact if_congr ((h.mem_chosen hrank).trans (and_iff_right hi)) rfl rfl

end Group

/-- The workers of a prefill group push every request to each worker of its decode group
once, and to no other. Each of them collects for a decode worker what it pushes there, one
request behind the other. -/
theorem group_pushes_once {srcTpSize srcDpSize : Nat} (htp : 0 < srcTpSize) (hdp : 0 < srcDpSize)
    (group : Nat) (infos : List SharedMemory.TransferKVInfo)
    (hfits : ∀ info ∈ infos, Fits srcTpSize info) : (∀ info ∈ infos,
      (∀ rank < srcTpSize, destinations (srcWorker srcTpSize srcDpSize group rank) info =
        some ((chosen srcTpSize rank info).map (worker info))) ∧
      ((range srcTpSize).flatMap fun rank => chosen srcTpSize rank info).Perm
        (decodeGroup info)) ∧
    (∀ rank < srcTpSize, ∃ merged,
      mergeKvBlocks (srcWorker srcTpSize srcDpSize group rank) [] infos = some merged ∧
      Keyed merged ∧
      ∀ dst, collected KVCacheInfo.srcBlocks merged dst =
          infos.flatMap (share SharedMemory.TransferKVInfo.localBlocksIds srcTpSize rank dst) ∧
        collected KVCacheInfo.dstBlocks merged dst =
          infos.flatMap (share SharedMemory.TransferKVInfo.remoteBlocksIds srcTpSize rank dst)) ∧
    ∀ info ∈ infos, info.remoteInstanceInfo.clusterIds.Nodup → ∀ i ∈ decodeGroup info,
      ∀ rank < srcTpSize, ∀ part, share part srcTpSize rank (worker info i) info =
        if i % srcTpSize = rank then part info else [] := by
  refine ⟨?_, ?_, ?_⟩
  · intro info hinfo
    have hfit := hfits info hinfo
    exact ⟨fun rank hrank => hfit.destinations_eq hdp hrank, hfit.flatMap_chosen_perm htp⟩
  · intro rank hrank
    obtain ⟨merged, hrun, hkeyed, hlists⟩ := mergeKvBlocks_eq hdp hrank group hfits keyed_nil
    refine ⟨merged, hrun, hkeyed, fun dst => ⟨?_, ?_⟩⟩
    · exact hlists _ _ filled_srcBlocks dst
    · exact hlists _ _ filled_dstBlocks dst
  · intro info hinfo hclusters i hi rank hrank part
    exact share_worker (hfits info hinfo) hrank hclusters hi

/-- Two requests for a decode instance with two groups of two workers. -/
def toFirstGroup : SharedMemory.TransferKVInfo :=
  ⟨[], [3, 4], [7, 8], 0,
    { clusterIds := [5, 6, 7, 8], addrs := [[0x61], [0x62], [0x63], [0x64]]
      kCacheIds := [1, 2, 3, 4], vCacheIds := [1, 2, 3, 4], dpSize := 2 }, []⟩

def toSecondGroup : SharedMemory.TransferKVInfo :=
  { toFirstGroup with localBlocksIds := [5], remoteBlocksIds := [9], dpRank := 1 }

theorem group_pushes_once_four :
    ((range 4).map fun rank => (chosen 4 rank toFirstGroup, chosen 4 rank toSecondGroup)) =
        [([0], []), ([1], []), ([], [2]), ([], [3])] ∧
      ((range 4).flatMap fun rank => chosen 4 rank toSecondGroup).Perm
        (decodeGroup toSecondGroup) := by
  refine ⟨by decide, ?_⟩
  have hfits : ∀ info ∈ [toFirstGroup, toSecondGroup], Fits 4 info := by
    intro info hinfo
    rcases List.mem_pair.mp hinfo with rfl | rfl
    · refine ⟨?_, ?_, ?_, ?_, ?_, ?_, ?_, ?_, ?_⟩ <;> decide
    · refine ⟨?_, ?_, ?_, ?_, ?_, ?_, ?_, ?_, ?_⟩ <;> decide
  have honce := group_pushes_once (show 0 < 4 by decide) (show 0 < 1 by decide) 0
    [toFirstGroup, toSecondGroup] hfits
  exact (honce.1 toSecondGroup (List.mem_pair.mpr (.inr rfl))).2

end Xllm.DisaggPD
