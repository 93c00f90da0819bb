import Mathlib.Data.List.GetD
import Mathlib.Data.List.Sort
import Xllm.Batch.InputBuilder
import Xllm.Lib.Scatter

/-!
# Balancing the sequences of a batch over the cores

On the npu a batch of more than 24 sequences is reordered before the input is built:
`cal_seq_exchange_index` leaves the longest `n % 24` sequences for the end, sorts the others by
their number of cached tokens and lays them in snake order over the 24 cores. The sequences and
their token budgets move to their new places. The embeddings and the multimodal data that the
batch collected while the sequences were added stay where they are.

`std::nth_element` and `std::sort` leave the order of equal elements open, and so does the
traversal of the map. What a sequence was added as, its number, is a ghost.
-/

namespace Xllm.DpBalance

open Contract Scatter List

def numNpuCores : Nat := 24

/-- The algorithms of the standard library; the elements are compared by their `key`. -/
structure Algorithms where
  nthElement : (key : Nat → Nat) → (nth : Nat) → List Nat → List Nat
  nth_perm : ∀ key nth l, (nthElement key nth l).Perm l
  nth_split : ∀ key nth l, ∀ x ∈ (nthElement key nth l).take nth,
    ∀ y ∈ (nthElement key nth l).drop nth, key x ≤ key y
  sortDescending : (key : Nat → Nat) → List Nat → List Nat
  sort_perm : ∀ key l, (sortDescending key l).Perm l
  sort_sorted : ∀ key l, (sortDescending key l).Pairwise fun x y => key y ≤ key x
  traverse : List (Nat × Nat) → List (Nat × Nat)
  traverse_perm : ∀ m, (traverse m).Perm m

/-- Insertion sorts do what is asked of both algorithms. -/
def Algorithms.insertion : Algorithms where
  nthElement key _ l := l.insertionSort fun x y => key x ≤ key y
  nth_perm key _ l := perm_insertionSort _ l
  nth_split key nth l x hx y hy := by
    have total : Std.Total fun x y : Nat => key x ≤ key y :=
      ⟨fun x y => Nat.le_total (key x) (key y)⟩
    have trans : IsTrans Nat fun x y => key x ≤ key y := ⟨fun _ _ _ => Nat.le_trans⟩
    have sorted := pairwise_insertionSort (fun x y : Nat => key x ≤ key y) l
    rw [← take_append_drop nth (l.insertionSort _), pairwise_append] at sorted
    exact sorted.2.2 x hx y hy
  sortDescending key l := l.insertionSort fun x y => key y ≤ key x
  sort_perm key l := perm_insertionSort _ l
  sort_sorted key l := by
    have total : Std.Total fun x y : Nat => key y ≤ key x :=
      ⟨fun x y => Nat.le_total (key y) (key x)⟩
    have trans : IsTrans Nat fun x y => key y ≤ key x := ⟨fun _ _ _ h h' => Nat.le_trans h' h⟩
    exact pairwise_insertionSort _ l
  traverse m := m
  traverse_perm m := Perm.refl m

variable (alg : Algorithms)

/-- `indices`, divided by `std::nth_element`. -/
def indices (kv : List Nat) : List Nat :=
  if 0 < kv.length % numNpuCores then
    alg.nthElement (kv.getD · 0) (kv.length - kv.length % numNpuCores) (range kv.length)
  else range kv.length

def baseIndices (kv : List Nat) : List Nat :=
  alg.sortDescending (kv.getD · 0)
    ((indices alg kv).take (kv.length - kv.length % numNpuCores))

def remainderIndices (kv : List Nat) : List Nat :=
  (indices alg kv).drop (kv.length - kv.length % numNpuCores)

def calSeqExchangeIndex (kv : List Nat) : List (Nat × Nat) :=
  let basePerCore := kv.length / numNpuCores
  let remainder := kv.length % numNpuCores
  let baseAssignment := snakeTable numNpuCores basePerCore (baseIndices alg kv)
  let indexShift := (range numNpuCores).foldl (fun indexShift i =>
    (range basePerCore).foldl (fun indexShift j =>
      assign indexShift (entry baseAssignment i j) (i + j * numNpuCores)) indexShift) []
  (range remainder).foldl (fun indexShift i =>
    assign indexShift ((remainderIndices alg kv).getD i 0) (i + numNpuCores * basePerCore))
    indexShift

variable {E M : Type}

/-- A sequence as it is added to the batch. -/
structure Member (E M : Type) where
  number : Nat
  sequence : Sequence
  inputEmbedding : Option E := none
  mmData : Option M := none

/-- The embedding that belongs to a sequence, with its number. -/
def Member.embeddingOf (m : Member E M) : Option (Nat × E) :=
  m.inputEmbedding.map fun e => (m.number, e)

/-- The multimodal data that a prefill sequence brings, with its number. -/
def Member.mmDataOf (m : Member E M) : Option (Nat × M) :=
  if m.sequence.stage = .prefill then m.mmData.map fun d => (m.number, d) else none

/-- `Batch`. A null pointer is `none`. -/
structure Batch (E M : Type) where
  sequences : List (Option (Member E M)) := []
  allowedMaxTokens : List Nat := []
  inputEmbeddingsVec : List (Nat × E) := []
  mmDataVec : List (Nat × M) := []

inductive AddCheck where
  | finished
  | noToken
  deriving DecidableEq

structure Addition (E M : Type) where
  sequence : Sequence
  inputEmbedding : Option E := none
  mmData : Option M := none
  allowedMaxToken : Nat

def Batch.add (b : Batch E M) (a : Addition E M) : Except AddCheck (Batch E M) :=
  if a.sequence.finished then .error .finished
  else if a.allowedMaxToken = 0 then .error .noToken
  else
    let member : Member E M :=
      ⟨b.sequences.length, a.sequence, a.inputEmbedding, a.mmData⟩
    .ok {
      sequences := b.sequences ++ [some member]
      allowedMaxTokens := b.allowedMaxTokens ++ [a.allowedMaxToken]
      inputEmbeddingsVec := b.inputEmbeddingsVec ++ member.embeddingOf.toList
      mmDataVec := b.mmDataVec ++ member.mmDataOf.toList }

/-- The platform and the flags that switch the balancing on. -/
structure DpFlags where
  platform : Platform
  enableCustomizeMlaKernel : Bool
  enableDpBalance : Bool

/-- Whether the sequences are reordered. -/
def DpFlags.shuffles (flags : DpFlags) (numSequences : Nat) : Bool :=
  flags.platform = .npu && flags.enableCustomizeMlaKernel && flags.enableDpBalance &&
    numNpuCores < numSequences

def Batch.kvCacheTokensNum (b : Batch E M) : List Nat :=
  b.sequences.map fun m =>
    (m.map fun m => m.sequence.kvState.kvCacheTokensNum).getD 0 % 4294967296

def Batch.dpBalanceShuffleSeqs (b : Batch E M) (flags : DpFlags) : Batch E M :=
  if flags.shuffles b.sequences.length then
    let seqIndexShift := alg.traverse (calSeqExchangeIndex alg b.kvCacheTokensNum)
    { b with
      sequences := seqIndexShift.foldl
        (fun balanced ele => balanced.set ele.2 (b.sequences.getD ele.1 none))
        (replicate b.sequences.length none)
      allowedMaxTokens := seqIndexShift.foldl
        (fun balanced ele => balanced.set ele.2 (b.allowedMaxTokens.getD ele.1 0))
        (replicate b.allowedMaxTokens.length 0) }
  else b

/-- All indices by rank: the sorted base, then the remainder. -/
def ranked (kv : List Nat) : List Nat :=
  baseIndices alg kv ++ remainderIndices alg kv

/-- The place of a rank among `n` sequences; ranks and places are exchanged by it. -/
def place (n r : Nat) : Nat :=
  if r < numNpuCores * (n / numNpuCores) then snake numNpuCores r else r

variable {alg} {kv : List Nat} {n r : Nat}

theorem base_size (n : Nat) : n - n % numNpuCores = numNpuCores * (n / numNpuCores) := by
  have := Nat.div_add_mod n numNpuCores
  omega

@[simp] theorem place_place : place n (place n r) = r := by
  by_cases h : r < numNpuCores * (n / numNpuCores)
  · have back : snake numNpuCores r < numNpuCores * (n / numNpuCores) :=
      snake_lt (by decide) h
    rw [place, place, if_pos h, if_pos back]
    exact snake_snake (by decide)
  · rw [place, place, if_neg h, if_neg h]

theorem place_lt (h : r < n) : place n r < n := by
  rw [place]
  split
  · next base =>
      have within : snake numNpuCores r < numNpuCores * (n / numNpuCores) :=
        snake_lt (by decide) base
      exact Nat.lt_of_lt_of_le within (Nat.mul_div_le n numNpuCores)
  · exact h

theorem map_place_perm (n : Nat) : ((range n).map (place n)).Perm (range n) := by
  apply (perm_ext_iff_of_nodup _ nodup_range).mpr
  · intro t
    rw [mem_map, mem_range]
    constructor
    · rintro ⟨r, hr, rfl⟩
      exact place_lt (List.mem_range.mp hr)
    · intro ht
      exact ⟨place n t, List.mem_range.mpr (place_lt ht), place_place⟩
  · apply List.Nodup.map _ nodup_range
    intro a b h
    rw [← place_place (n := n) (r := a), h, place_place]

theorem indices_perm : (indices alg kv).Perm (range kv.length) := by
  rw [indices]
  split
  · exact alg.nth_perm _ _ _
  · exact Perm.refl _

@[simp] theorem length_indices : (indices alg kv).length = kv.length := by
  rw [indices_perm.length_eq, length_range]

@[simp] theorem length_baseIndices :
    (baseIndices alg kv).length = numNpuCores * (kv.length / numNpuCores) := by
  rw [baseIndices, (alg.sort_perm _ _).length_eq, length_take, length_indices, ← base_size]
  exact Nat.min_eq_left (Nat.sub_le _ _)

theorem ranked_perm : (ranked alg kv).Perm (range kv.length) := by
  have divided : (ranked alg kv).Perm (indices alg kv) := by
    rw [ranked, remainderIndices]
    refine ((alg.sort_perm _ _).append_right _).trans ?_
    rw [take_append_drop]
  exact divided.trans indices_perm

@[simp] theorem length_ranked : (ranked alg kv).length = kv.length := by
  rw [ranked_perm.length_eq, length_range]

/-- The index of the sequence that goes to place `t`. -/
def origin (alg : Algorithms) (kv : List Nat) (t : Nat) : Nat :=
  (ranked alg kv).getD (place kv.length t) 0

theorem map_getD_range (l : List Nat) : (range l.length).map (l.getD · 0) = l := by
  apply ext_getElem
  · simp
  · intro i _ hi
    simp [hi]

theorem origins_perm :
    ((range kv.length).map (origin alg kv)).Perm (range kv.length) := by
  have all : (range kv.length).map ((ranked alg kv).getD · 0) = ranked alg kv := by
    rw [← @length_ranked alg kv]
    exact map_getD_range _
  have moved := (map_place_perm kv.length).map ((ranked alg kv).getD · 0)
  rw [all, map_map] at moved
  exact moved.trans ranked_perm

/-- The places in the order in which they are entered. -/
def places (n : Nat) : List Nat :=
  ((range numNpuCores).flatMap fun i =>
      (range (n / numNpuCores)).map fun j => i + j * numNpuCores) ++
    (range (n % numNpuCores)).map (· + numNpuCores * (n / numNpuCores))

@[simp] theorem length_places (n : Nat) : (places n).length = n := by
  have cores : (range numNpuCores).flatMap (fun i =>
      (range (n / numNpuCores)).map fun j => i + j * numNpuCores) =
      ((range numNpuCores).map fun i =>
        (range (n / numNpuCores)).map fun j => i + j * numNpuCores).flatten :=
    flatMap_def
  rw [places, length_append, cores, length_flatten, map_map]
  simp only [Function.comp_def, length_map, length_range, map_const']
  rw [sum_replicate_nat]
  exact Nat.div_add_mod n numNpuCores

theorem places_perm (n : Nat) : (places n).Perm (range n) := by
  have covered : range n ⊆ places n := by
    intro t ht
    rw [mem_range] at ht
    rw [places, mem_append, mem_flatMap, mem_map]
    by_cases base : t < numNpuCores * (n / numNpuCores)
    · refine .inl ⟨t % numNpuCores, List.mem_range.mpr (Nat.mod_lt t (by decide)), ?_⟩
      refine List.mem_map.mpr ⟨t / numNpuCores, ?_, ?_⟩
      · exact List.mem_range.mpr (Nat.div_lt_of_lt_mul base)
      · rw [Nat.mul_comm]
        exact Nat.mod_add_div t numNpuCores
    · have divided := Nat.div_add_mod n numNpuCores
      refine .inr ⟨t - numNpuCores * (n / numNpuCores), List.mem_range.mpr ?_, ?_⟩
      · omega
      · omega
  apply List.Perm.symm
  apply (List.nodup_range.subperm covered).perm_of_length_le
  rw [length_places, length_range]

theorem calSeqExchangeIndex_eq :
    calSeqExchangeIndex alg kv = (places kv.length).map fun t => (origin alg kv t, t) := by
  have table : ∀ i < numNpuCores, ∀ j < kv.length / numNpuCores,
      entry (snakeTable numNpuCores (kv.length / numNpuCores) (baseIndices alg kv)) i j =
        origin alg kv (i + j * numNpuCores) := by
    intro i hi j hj
    have base : i + numNpuCores * j < numNpuCores * (kv.length / numNpuCores) := by
      have col : numNpuCores * (j + 1) ≤ numNpuCores * (kv.length / numNpuCores) :=
        Nat.mul_le_mul_left _ hj
      rw [Nat.mul_succ] at col
      omega
    have rank : snake numNpuCores (i + numNpuCores * j) <
        numNpuCores * (kv.length / numNpuCores) := snake_lt (by decide) base
    rw [entry_snakeTable length_baseIndices hi hj, origin, Nat.mul_comm j, place, if_pos base,
      ranked, getD_append _ _ _ _ (by rw [length_baseIndices]; exact rank)]
  have rest : ∀ i, (remainderIndices alg kv).getD i 0 =
      origin alg kv (i + numNpuCores * (kv.length / numNpuCores)) := by
    intro i
    rw [origin, place, if_neg (by omega), ranked,
      getD_append_right _ _ _ _ (by rw [length_baseIndices]; omega), length_baseIndices,
      Nat.add_sub_cancel]
  have entries : calSeqExchangeIndex alg kv =
      ((places kv.length).map fun t => (origin alg kv t, t)).foldl
        (fun m entry => assign m entry.1 entry.2) [] := by
    rw [foldl_map, places, foldl_append, foldl_flatMap, calSeqExchangeIndex]
    have cores : ∀ m : List (Nat × Nat), ∀ i ∈ range numNpuCores,
        (range (kv.length / numNpuCores)).foldl (fun m j => assign m
          (entry (snakeTable numNpuCores (kv.length / numNpuCores) (baseIndices alg kv)) i j)
          (i + j * numNpuCores)) m =
        ((range (kv.length / numNpuCores)).map fun j => i + j * numNpuCores).foldl
          (fun m t => assign m (origin alg kv t) t) m := by
      intro m i hi
      rw [foldl_map]
      apply foldl_ext
      intro m j hj
      rw [table i (List.mem_range.mp hi) j (List.mem_range.mp hj)]
    simp only [rest]
    rw [foldl_ext _ _ _ cores, foldl_map]
  rw [entries]
  apply foldl_assign
  rw [nil_append, map_map]
  have distinct := ((places_perm kv.length).map (origin alg kv)).trans origins_perm
  exact distinct.nodup_iff.mpr nodup_range

theorem calSeqExchangeIndex_perm :
    (calSeqExchangeIndex alg kv).Perm
      ((range kv.length).map fun t => (origin alg kv t, t)) := by
  rw [calSeqExchangeIndex_eq]
  exact (places_perm kv.length).map _

/-- The map exchanges the indices. The base is what is left without the longest sequences, and
core `i` gets its elements of ranks `24 * j + i` and, in every other column, `24 * j + 23 - i`. -/
structure ExchangeSound (alg : Algorithms) (kv : List Nat) : Prop where
  origins : ((calSeqExchangeIndex alg kv).map Prod.fst).Perm (range kv.length)
  targets : ((calSeqExchangeIndex alg kv).map Prod.snd).Perm (range kv.length)
  base_length : (baseIndices alg kv).length = numNpuCores * (kv.length / numNpuCores)
  descending : (baseIndices alg kv).Pairwise fun x y => kv.getD y 0 ≤ kv.getD x 0
  longest : ∀ x ∈ baseIndices alg kv, ∀ y ∈ remainderIndices alg kv, kv.getD x 0 ≤ kv.getD y 0
  snake : ∀ i < numNpuCores, ∀ j < kv.length / numNpuCores,
    ((baseIndices alg kv).getD
      (numNpuCores * j + if j % 2 = 0 then i else numNpuCores - 1 - i) 0, i + numNpuCores * j) ∈
      calSeqExchangeIndex alg kv

theorem base_place {i j : Nat} (hi : i < numNpuCores) (hj : j < n / numNpuCores) :
    i + numNpuCores * j < numNpuCores * (n / numNpuCores) := by
  have col : numNpuCores * (j + 1) ≤ numNpuCores * (n / numNpuCores) := Nat.mul_le_mul_left _ hj
  rw [Nat.mul_succ] at col
  omega

/-- Sorted sequences are dealt out in snake order. -/
theorem exchangeSound (alg : Algorithms) (kv : List Nat) : ExchangeSound alg kv := by
  have perm := @calSeqExchangeIndex_perm alg kv
  constructor
  · have moved := perm.map Prod.fst
    rw [map_map] at moved
    exact moved.trans origins_perm
  · have moved := perm.map Prod.snd
    simpa [Function.comp_def] using moved
  · exact length_baseIndices
  · exact alg.sort_sorted _ _
  · intro x hx y hy
    have front := (alg.sort_perm _ _).mem_iff.mp hx
    rw [indices] at front
    rw [remainderIndices, indices] at hy
    split at hy
    · next some_left =>
        rw [if_pos some_left] at front
        exact alg.nth_split _ _ _ x front y hy
    · next none_left =>
        have all : kv.length - kv.length % numNpuCores = kv.length := by omega
        rw [all, drop_eq_nil_of_le (by simp)] at hy
        cases hy
  · intro i hi j hj
    have base := base_place hi hj
    have within : i + numNpuCores * j < kv.length :=
      Nat.lt_of_lt_of_le base (Nat.mul_div_le kv.length numNpuCores)
    have rank : snake numNpuCores (i + numNpuCores * j) < (baseIndices alg kv).length := by
      rw [length_baseIndices]
      exact snake_lt (by decide) base
    have moved : origin alg kv (i + numNpuCores * j) = (baseIndices alg kv).getD
        (numNpuCores * j + if j % 2 = 0 then i else numNpuCores - 1 - i) 0 := by
      rw [origin, place, if_pos base, ranked, getD_append _ _ _ _ rank, snake_place hi]
    rw [← moved]
    exact perm.mem_iff.mpr (List.mem_map.mpr ⟨_, List.mem_range.mpr within, rfl⟩)

theorem exchange_list {α : Type} {l : List α} {d : α} (size : l.length = kv.length) :
    (alg.traverse (calSeqExchangeIndex alg kv)).foldl
        (fun balanced ele => balanced.set ele.2 (l.getD ele.1 d)) (replicate l.length d) =
      (range kv.length).map fun t => l.getD (origin alg kv t) d := by
  have perm := (alg.traverse_perm _).trans (@calSeqExchangeIndex_perm alg kv)
  have writes := perm.map fun ele => (ele.2, l.getD ele.1 d)
  rw [map_map] at writes
  have once : (((alg.traverse (calSeqExchangeIndex alg kv)).map
      fun ele => (ele.2, l.getD ele.1 d)).map Prod.fst).Nodup := by
    have targets := writes.map Prod.fst
    apply targets.nodup_iff.mpr
    simpa [Function.comp_def] using nodup_range
  have scattered : (alg.traverse (calSeqExchangeIndex alg kv)).foldl
      (fun balanced ele => balanced.set ele.2 (l.getD ele.1 d)) (replicate l.length d) =
      scatter (replicate l.length d)
        ((alg.traverse (calSeqExchangeIndex alg kv)).map fun ele => (ele.2, l.getD ele.1 d)) := by
    rw [scatter, foldl_map]
  rw [scattered]
  apply ext_getElem?
  intro t
  by_cases ht : t < kv.length
  · have mem : (t, l.getD (origin alg kv t) d) ∈
        (alg.traverse (calSeqExchangeIndex alg kv)).map fun ele => (ele.2, l.getD ele.1 d) :=
      writes.mem_iff.mpr (List.mem_map.mpr ⟨t, List.mem_range.mpr ht, rfl⟩)
    rw [getElem?_scatter once mem (by rwa [length_replicate, size])]
    simp [ht]
  · rw [getElem?_eq_none (by simpa [size] using ht), getElem?_eq_none (by simpa using ht)]

/-- Two sequences that both have such data keep their order: the snake place of the first one
is the smaller one. -/
def KeepsOrder (alg : Algorithms) (kv : List Nat) (has : Nat → Bool) : Prop :=
  ∀ r < kv.length, ∀ s < kv.length,
    has ((ranked alg kv).getD r 0) = true → has ((ranked alg kv).getD s 0) = true →
    (ranked alg kv).getD r 0 < (ranked alg kv).getD s 0 →
    place kv.length r < place kv.length s

theorem ranked_inj {r s : Nat} (hr : r < kv.length) (hs : s < kv.length)
    (h : (ranked alg kv).getD r 0 = (ranked alg kv).getD s 0) : r = s := by
  have nodup : (ranked alg kv).Nodup := ranked_perm.nodup_iff.mpr nodup_range
  rw [← @length_ranked alg kv] at hr hs
  rw [getD_eq_getElem _ _ hr, getD_eq_getElem _ _ hs] at h
  exact (List.Nodup.getElem_inj_iff nodup).mp h

theorem keepsOrder_iff {has : Nat → Bool} :
    KeepsOrder alg kv has ↔ ∀ t < kv.length, ∀ u < kv.length,
      has (origin alg kv t) = true → has (origin alg kv u) = true →
      t < u → origin alg kv t < origin alg kv u := by
  constructor
  · intro keeps t ht u hu hast hasu htu
    rcases Nat.lt_trichotomy (origin alg kv t) (origin alg kv u) with hlt | heq | hgt
    · exact hlt
    · have same := ranked_inj (place_lt ht) (place_lt hu) heq
      have back : t = u := by rw [← place_place (n := kv.length) (r := t), same, place_place]
      omega
    · have wrong := keeps _ (place_lt hu) _ (place_lt ht) hasu hast hgt
      rw [place_place, place_place] at wrong
      omega
  · intro keeps r hr s hs hasr hass hrs
    have rank : ∀ q, origin alg kv (place kv.length q) = (ranked alg kv).getD q 0 := by
      intro q
      rw [origin, place_place]
    rcases Nat.lt_trichotomy (place kv.length r) (place kv.length s) with hlt | heq | hgt
    · exact hlt
    · have back : r = s := by
        rw [← place_place (n := kv.length) (r := r), heq, place_place]
      subst back
      omega
    · have wrong := keeps _ (place_lt hs) _ (place_lt hr) (by rwa [rank]) (by rwa [rank]) hgt
      rw [rank, rank] at wrong
      omega

theorem filter_origins_iff {has : Nat → Bool} :
    (range kv.length).filter has =
        ((range kv.length).map (origin alg kv)).filter has ↔ KeepsOrder alg kv has := by
  have ordered : (((range kv.length).map (origin alg kv)).filter has).Pairwise (· < ·) ↔
      KeepsOrder alg kv has := by
    rw [keepsOrder_iff, pairwise_filter, pairwise_map, pairwise_iff_getElem]
    simp only [length_range, getElem_range]
    constructor
    · exact fun h t ht u hu hast hasu htu => h t u ht hu htu hast hasu
    · exact fun h t u ht hu htu hast hasu => h t ht u hu hast hasu htu
  rw [← ordered]
  have sorted : ((range kv.length).filter has).Pairwise (· < ·) :=
    List.pairwise_lt_range.filter has
  constructor
  · intro h
    rwa [← h]
  · intro h
    have perm := (@origins_perm alg kv).symm.filter has
    exact perm.eq_of_pairwise (fun a b _ _ hab hba => absurd hab (Nat.lt_asymm hba)) sorted h

theorem filterMap_origins_iff {γ : Type} {data : Nat → Option (Nat × γ)}
    (numbered : ∀ i x, data i = some x → x.1 = i) :
    (range kv.length).filterMap data =
        ((range kv.length).map (origin alg kv)).filterMap data ↔
      KeepsOrder alg kv fun i => (data i).isSome := by
  rw [← filter_origins_iff]
  have numbers : ∀ l : List Nat, (l.filterMap data).map Prod.fst =
      l.filter fun i => (data i).isSome := by
    intro l
    induction l with
    | nil => rfl
    | cons i l ih =>
        cases h : data i with
        | none => rw [filterMap_cons_none h, filter_cons_of_neg (by simp [h]), ih]
        | some x =>
            rw [filterMap_cons_some h, filter_cons_of_pos (by simp [h]),
              map_cons, ih, numbered i x h]
  have only : ∀ l : List Nat, l.filterMap data =
      (l.filter fun i => (data i).isSome).filterMap data := by
    intro l
    rw [filterMap_filter]
    congr 1
    funext i
    cases data i <;> rfl
  constructor
  · intro h
    rw [← numbers, ← numbers, h]
  · intro h
    rw [only, h, ← only]

structure Collected (b : Batch E M) : Prop where
  numbered : ∀ t < b.sequences.length, ∃ m, b.sequences.getD t none = some m ∧ m.number = t
  budgets : b.allowedMaxTokens.length = b.sequences.length
  embeddings : b.inputEmbeddingsVec = b.sequences.filterMap (·.bind Member.embeddingOf)
  mmData : b.mmDataVec = b.sequences.filterMap (·.bind Member.mmDataOf)

variable {b : Batch E M}

theorem Collected.add (h : Collected b) (a : Addition E M) :
    IfOk (b.add a) Collected := by
  rw [Batch.add]
  split
  · exact trivial
  · split
    · exact trivial
    · constructor
      · intro t ht
        rw [length_append, length_singleton] at ht
        by_cases old : t < b.sequences.length
        · rw [getD_append _ _ _ _ old]
          exact h.numbered t old
        · have last : t = b.sequences.length := by omega
          subst last
          rw [getD_append_right _ _ _ _ (Nat.le_refl _), Nat.sub_self]
          exact ⟨_, rfl, rfl⟩
      · simp [h.budgets]
      · simp only [h.embeddings, filterMap_append]
        rfl
      · simp only [h.mmData, filterMap_append]
        rfl

theorem collected_of_additions {additions : List (Addition E M)}
    (built : additions.foldlM Batch.add ({} : Batch E M) = .ok b) : Collected b := by
  have start : Collected ({} : Batch E M) := by
    constructor
    · exact fun t ht => absurd ht (Nat.not_lt_zero t)
    · rfl
    · rfl
    · rfl
  have run : IfOk (Contract.run Batch.add ({} : Batch E M) additions)
      Collected := Ensures.run (fun b a h => h.add a) start
  exact run.of_ok built

def Batch.dataOf {γ : Type} (b : Batch E M) (data : Member E M → Option γ) (i : Nat) : Option γ :=
  (b.sequences.getD i none).bind data

/-- Sequences and budgets are rearranged together, none is lost, and what is handed to the
builder stands in the order of the sequences. -/
structure PermutesOnly (before after : Batch E M) : Prop where
  complete : ∀ m ∈ after.sequences, m ≠ none
  lengths : after.sequences.length = before.sequences.length ∧
    after.allowedMaxTokens.length = before.allowedMaxTokens.length
  budgets : (after.sequences.zip after.allowedMaxTokens).Perm
    (before.sequences.zip before.allowedMaxTokens)
  embeddings : after.inputEmbeddingsVec = after.sequences.filterMap (·.bind Member.embeddingOf)
  mmData : after.mmDataVec = after.sequences.filterMap (·.bind Member.mmDataOf)

theorem Collected.numbered_data {γ : Type} (h : Collected b)
    {data : Member E M → Option (Nat × γ)} (own : ∀ m x, data m = some x → x.1 = m.number)
    (i : Nat) (x : Nat × γ) (hx : b.dataOf data i = some x) : x.1 = i := by
  rw [Batch.dataOf] at hx
  by_cases hi : i < b.sequences.length
  · obtain ⟨m, hm, number⟩ := h.numbered i hi
    rw [hm] at hx
    rw [own m x hx, number]
  · rw [getD_eq_default _ _ (Nat.le_of_not_lt hi)] at hx
    cases hx

theorem Collected.handed_iff {γ : Type} (h : Collected b)
    {data : Member E M → Option (Nat × γ)} (own : ∀ m x, data m = some x → x.1 = m.number) :
    b.sequences.filterMap (·.bind data) =
        ((range b.sequences.length).map fun t =>
          b.sequences.getD (origin alg b.kvCacheTokensNum t) none).filterMap (·.bind data) ↔
      KeepsOrder alg b.kvCacheTokensNum fun i => (b.dataOf data i).isSome := by
  have size : b.kvCacheTokensNum.length = b.sequences.length := length_map _
  have before : b.sequences.filterMap (·.bind data) =
      (range b.kvCacheTokensNum.length).filterMap (b.dataOf data) := by
    have all : (range b.sequences.length).map (b.sequences.getD · none) = b.sequences := by
      apply ext_getElem
      · simp
      · intro i _ hi
        simp [hi]
    calc b.sequences.filterMap (·.bind data)
        = ((range b.sequences.length).map (b.sequences.getD · none)).filterMap
            (·.bind data) := by rw [all]
      _ = (range b.kvCacheTokensNum.length).filterMap (b.dataOf data) := by
        rw [filterMap_map, size]
        rfl
  have after : ((range b.sequences.length).map fun t =>
        b.sequences.getD (origin alg b.kvCacheTokensNum t) none).filterMap (·.bind data) =
      ((range b.kvCacheTokensNum.length).map
        (origin alg b.kvCacheTokensNum)).filterMap (b.dataOf data) := by
    rw [filterMap_map, filterMap_map, size]
    rfl
  rw [before, after]
  exact filterMap_origins_iff (h.numbered_data own)

theorem embeddingOf_number (m : Member E M) (x : Nat × E) (h : m.embeddingOf = some x) :
    x.1 = m.number := by
  obtain ⟨e, -, rfl⟩ := Option.map_eq_some_iff.mp h
  rfl

theorem mmDataOf_number (m : Member E M) (x : Nat × M) (h : m.mmDataOf = some x) :
    x.1 = m.number := by
  rw [Member.mmDataOf] at h
  split at h
  · obtain ⟨d, -, rfl⟩ := Option.map_eq_some_iff.mp h
    rfl
  · cases h

/-- The condition under which nothing has to follow the sequences. -/
def DataInPlace (alg : Algorithms) (flags : DpFlags) (b : Batch E M) : Prop :=
  flags.shuffles b.sequences.length = true →
    KeepsOrder alg b.kvCacheTokensNum (fun i => (b.dataOf Member.embeddingOf i).isSome) ∧
    KeepsOrder alg b.kvCacheTokensNum (fun i => (b.dataOf Member.mmDataOf i).isSome)

theorem Collected.complete (h : Collected b) : ∀ m ∈ b.sequences, m ≠ none := by
  intro m hm
  obtain ⟨t, ht, rfl⟩ := List.mem_iff_getElem.mp hm
  obtain ⟨m, hm, -⟩ := h.numbered t ht
  rw [getD_eq_getElem _ _ ht] at hm
  rw [hm]
  exact Option.some_ne_none m

theorem dpBalanceShuffleSeqs_eq (h : Collected b) {flags : DpFlags}
    (shuffles : flags.shuffles b.sequences.length = true) :
    b.dpBalanceShuffleSeqs alg flags = { b with
      sequences := (range b.sequences.length).map fun t =>
        b.sequences.getD (origin alg b.kvCacheTokensNum t) none
      allowedMaxTokens := (range b.sequences.length).map fun t =>
        b.allowedMaxTokens.getD (origin alg b.kvCacheTokensNum t) 0 } := by
  have size : b.kvCacheTokensNum.length = b.sequences.length := length_map _
  rw [Batch.dpBalanceShuffleSeqs, if_pos shuffles]
  have sequences := @exchange_list alg b.kvCacheTokensNum _ b.sequences none size.symm
  have budgets := @exchange_list alg b.kvCacheTokensNum _ b.allowedMaxTokens 0
    (h.budgets.trans size.symm)
  simp only [sequences, budgets, size]

/-- The exchange index is as it should be, and the batch is rearranged as a whole. -/
def DpBalanceSound (alg : Algorithms) (flags : DpFlags) (b : Batch E M) : Prop :=
  (∀ kv, numNpuCores < kv.length → ExchangeSound alg kv) ∧
    PermutesOnly b (b.dpBalanceShuffleSeqs alg flags)

/-- Balancing rearranges the batch as a whole if and only if the sequences that brought an
embedding keep their order, and so do those that brought multimodal data. -/
theorem dp_balance_permutes_iff {additions : List (Addition E M)} {b : Batch E M}
    (built : additions.foldlM Batch.add ({} : Batch E M) = .ok b) (flags : DpFlags) :
    DpBalanceSound alg flags b ↔ DataInPlace alg flags b := by
  have h := collected_of_additions built
  have size : b.kvCacheTokensNum.length = b.sequences.length := length_map _
  cases shuffles : flags.shuffles b.sequences.length with
  | false =>
      have same : b.dpBalanceShuffleSeqs alg flags = b := by
        rw [Batch.dpBalanceShuffleSeqs, shuffles]
        rfl
      constructor
      · intro _ on
        rw [shuffles] at on
        cases on
      · intro _
        refine ⟨fun kv _ => exchangeSound alg kv, ?_⟩
        rw [same]
        exact ⟨h.complete, ⟨rfl, rfl⟩, Perm.refl _, h.embeddings, h.mmData⟩
  | true =>
      have moved : b.dpBalanceShuffleSeqs alg flags = _ := dpBalanceShuffleSeqs_eq h shuffles
      constructor
      · rintro ⟨-, only⟩ -
        have embeddings := only.embeddings
        have mmData := only.mmData
        rw [moved] at embeddings mmData
        constructor
        · exact (h.handed_iff embeddingOf_number).mp (h.embeddings.symm.trans embeddings)
        · exact (h.handed_iff mmDataOf_number).mp (h.mmData.symm.trans mmData)
      · intro inPlace
        obtain ⟨embeddings, mmData⟩ := inPlace shuffles
        refine ⟨fun kv _ => exchangeSound alg kv, ?_⟩
        rw [moved]
        constructor
        · intro m hm
          obtain ⟨t, ht, rfl⟩ := List.mem_map.mp hm
          have ho : origin alg b.kvCacheTokensNum t < b.sequences.length := by
            rw [← size]
            apply List.mem_range.mp
            apply origins_perm.mem_iff.mp
            exact List.mem_map.mpr ⟨t, by rwa [size], rfl⟩
          obtain ⟨m, hm, -⟩ := h.numbered _ ho
          rw [hm]
          exact Option.some_ne_none m
        · simp [h.budgets]
        · -- both lists are read at the same origins
          have pairs : ∀ l : List Nat, (l.map (b.sequences.getD · none)).zip
              (l.map (b.allowedMaxTokens.getD · 0)) =
              l.map fun i => (b.sequences.getD i none, b.allowedMaxTokens.getD i 0) := by
            intro l
            rw [zip_map']
          have before : b.sequences.zip b.allowedMaxTokens = (range b.sequences.length).map
              fun i => (b.sequences.getD i none, b.allowedMaxTokens.getD i 0) := by
            apply ext_getElem
            · simp [h.budgets]
            · intro i hi _
              rw [length_zip, h.budgets, Nat.min_self] at hi
              simp [hi, h.budgets]
          have origins := (@origins_perm alg b.kvCacheTokensNum).map
            fun i => (b.sequences.getD i none, b.allowedMaxTokens.getD i 0)
          rw [← pairs, map_map, map_map, size, ← before] at origins
          exact origins
        · exact h.embeddings.trans ((h.handed_iff embeddingOf_number).mpr embeddings)
        · exact h.mmData.trans ((h.handed_iff mmDataOf_number).mpr mmData)

/-- Twenty-five sequences, the first of which has one token cached. -/
def longFirst (inputEmbedding : Nat → Option Unit) : List (Addition Unit Unit) :=
  (range 25).map fun i => {
    sequence := { numTokens := 2, kvState := { kvCacheTokensNum := if i = 0 then 1 else 0 } }
    inputEmbedding := inputEmbedding i
    allowedMaxToken := 1 }

def longFirstBatch (inputEmbedding : Nat → Option Unit) : Batch Unit Unit where
  sequences := (range 25).map fun i => some {
    number := i
    sequence := { numTokens := 2, kvState := { kvCacheTokensNum := if i = 0 then 1 else 0 } }
    inputEmbedding := inputEmbedding i }
  allowedMaxTokens := replicate 25 1
  inputEmbeddingsVec := (range 25).filterMap fun i => (inputEmbedding i).map fun e => (i, e)

def npuBalance : DpFlags := ⟨.npu, true, true⟩

def twoEmbeddings (i : Nat) : Option Unit := if i = 7 ∨ i = 20 then some () else none

/-- The two sequences that brought an embedding move up, in the order in which they came. -/
theorem dp_balance_permutes_two_embeddings :
    npuBalance.shuffles (longFirstBatch twoEmbeddings).sequences.length = true ∧
      DpBalanceSound Algorithms.insertion npuBalance (longFirstBatch twoEmbeddings) := by
  have built : (longFirst twoEmbeddings).foldlM Batch.add ({} : Batch Unit Unit) =
      .ok (longFirstBatch twoEmbeddings) := rfl
  refine ⟨rfl, (dp_balance_permutes_iff built npuBalance).mpr ?_⟩
  intro _
  constructor
  · exact filter_origins_iff.mp (by decide +kernel)
  · exact filter_origins_iff.mp (by decide +kernel)

/-- The longest sequence goes to the end, its embedding stays in front. -/
theorem embedding_left_in_front :
    (longFirst fun i => if i < 2 then some () else none).foldlM Batch.add
        ({} : Batch Unit Unit) =
      .ok (longFirstBatch fun i => if i < 2 then some () else none) ∧
    ¬ DpBalanceSound Algorithms.insertion npuBalance
        (longFirstBatch fun i => if i < 2 then some () else none) := by
  refine ⟨rfl, ?_⟩
  rintro ⟨-, only⟩
  have same := only.embeddings
  cases same

end Xllm.DpBalance
