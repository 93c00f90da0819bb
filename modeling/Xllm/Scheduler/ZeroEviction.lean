import Xllm.Scheduler.BlockCapacityGuard

/-!
# Soundness of zero-eviction admission

An admitted set of sequences is decoded step by step. In step `n` a sequence that is
not finished needs blocks for all its tokens but the one that the step generates.
The guard should admit only sets whose sequences never need more blocks than the
manager can give out, whenever each of them ends.

Two slips of the guard spoil this. The padding block is counted as available, and
the blocks for the prefill are subtracted without a comparison, so that a prefill
that does not fit leaves a huge number. `Admissible` rules them out and names what
else the simulation takes for granted.
-/

namespace Xllm

open BlockCapacityGuard List

section Rounds

variable {α : Type} {need rel credit : α → Int} {act : α → Bool} {S : List α}

def statuses (need rel : α → Int) (S : List α) : List SequenceStatus :=
  S.map fun s => ⟨need s, rel s⟩

theorem updateRequestStatusEachStep_statuses (rem : Int) :
    updateRequestStatusEachStep id rem (statuses need rel S) =
      (rem + ((S.filter fun s => need s = 0).map rel).sum,
        statuses (fun s => need s - 1) (fun s => rel s + 1) (S.filter fun s => need s ≠ 0)) := by
  induction S generalizing rem with
  | nil => simp [statuses, updateRequestStatusEachStep]
  | cons s S ih =>
      rw [statuses, map_cons, updateRequestStatusEachStep]
      by_cases hs : need s = 0
      · rw [if_pos hs, ← statuses, ih, filter_cons_of_pos (by simpa using hs),
          filter_cons_of_neg (by simpa using hs), map_cons, sum_cons, id_eq,
          Int.add_assoc]
      · rw [if_neg hs, ← statuses, ih, filter_cons_of_neg (by simpa using hs),
          filter_cons_of_pos (by simpa using hs)]
        rfl

theorem foldl_add_eq_sum (f : α → Int) (S : List α) (n : Int) :
    S.foldl (fun num s => num + f s) n = n + (S.map f).sum := by
  induction S generalizing n with
  | nil => simp
  | cons s S ih => rw [foldl_cons, ih, map_cons, sum_cons, Int.add_assoc]

theorem getNumReservedFullBlocks_statuses :
    getNumReservedFullBlocks id (statuses need rel S) = (S.map need).sum := by
  rw [getNumReservedFullBlocks, statuses, foldl_map]
  exact (foldl_add_eq_sum need S 0).trans (Int.zero_add _)

theorem sum_terms_le {j : Int} (hact : ∀ s ∈ S, act s → need s ≠ 0)
    (hcredit : ∀ s ∈ S, rel s ≤ credit s + 1) :
    (S.map fun s => if act s then j else -credit s).sum ≤
      ((S.filter fun s => need s ≠ 0).map fun s => if act s then j - 1 else -rel s).sum -
        ((S.filter fun s => need s = 0).map rel).sum + S.length := by
  induction S with
  | nil => simp
  | cons s S ih =>
      have ih := ih (fun t ht => hact t (mem_cons_of_mem _ ht))
        fun t ht => hcredit t (mem_cons_of_mem _ ht)
      have hs := hcredit s mem_cons_self
      have hs' := hact s mem_cons_self
      rw [map_cons, sum_cons, length_cons]
      by_cases hzero : need s = 0
      · rw [filter_cons_of_neg (by simpa using hzero),
          filter_cons_of_pos (by simpa using hzero), map_cons, sum_cons]
        have hidle : act s = false := by
          rw [Bool.eq_false_iff]
          exact fun h => hs' h hzero
        rw [hidle]
        push_cast
        linarith
      · rw [filter_cons_of_pos (by simpa using hzero),
          filter_cons_of_neg (by simpa using hzero), map_cons, sum_cons]
        push_cast
        split_ifs <;> linarith

theorem sum_map_nonpos {f : α → Int} (h : ∀ s ∈ S, f s ≤ 0) : (S.map f).sum ≤ 0 := by
  induction S with
  | nil => exact le_refl 0
  | cons s S ih =>
      exact Int.add_nonpos (h s mem_cons_self) (ih fun t ht => h t (mem_cons_of_mem _ ht))

/-- In an accepted simulation the sequences that are still active in round `j` have
room for `j` blocks each, given what the others have released. -/
theorem simulateRounds_fits (act : α → Bool) (credit : α → Int) {rounds : Nat} {rem : Int}
    (hrem : 0 ≤ rem)
    (hneed : ∀ s ∈ S, 0 ≤ need s ∧ need s ≤ rounds) (hrel : ∀ s ∈ S, 0 ≤ rel s)
    (hcredit : ∀ s ∈ S, 0 ≤ credit s ∧ rel s ≤ credit s + 1)
    (haccept : simulateRounds id rounds rem (statuses need rel S)) {j : Int} (hj : 0 ≤ j)
    (hact : ∀ s ∈ S, act s → j ≤ need s) :
    (S.map fun s => if act s then j else -credit s).sum ≤ rem := by
  induction rounds generalizing need rel credit S rem j with
  | zero =>
      refine (sum_map_nonpos fun s hs => ?_).trans hrem
      have hs₁ := hneed s hs
      have hs₂ := hcredit s hs
      split_ifs with h
      · have := hact s hs h
        omega
      · omega
  | succ rounds ih =>
      rcases hj.eq_or_lt with rfl | hj
      · refine (sum_map_nonpos fun s hs => ?_).trans hrem
        have hs₂ := hcredit s hs
        split_ifs <;> omega
      rw [simulateRounds] at haccept
      simp only [id_eq, updateRequestStatusEachStep_statuses,
        getNumReservedFullBlocks_statuses] at haccept
      split at haccept
      · cases haccept
      rename_i henough
      have hlen : ((statuses need rel S).length : Int) = S.length := by rw [statuses, length_map]
      rw [hlen] at haccept henough
      have hreleased : 0 ≤ ((S.filter fun s => need s = 0).map rel).sum := by
        refine sum_nonneg fun x hx => ?_
        obtain ⟨s, hs, rfl⟩ := List.mem_map.mp hx
        exact hrel s (List.mem_filter.mp hs).1
      have hmem : ∀ s ∈ S.filter (fun s => need s ≠ 0), s ∈ S ∧ need s ≠ 0 := by
        intro s hs
        simpa using List.mem_filter.mp hs
      have hnext : ((S.filter fun s => need s ≠ 0).map
            fun s => if act s then j - 1 else -rel s).sum ≤
          rem - S.length + ((S.filter fun s => need s = 0).map rel).sum := by
        split at haccept
        · -- the reserved blocks cover every remaining round
          rename_i hreserved
          refine le_trans (sum_le_sum fun s hs => ?_) hreserved.le
          have hs' := hmem s hs
          have h₁ := hneed s hs'.1
          have h₂ := hrel s hs'.1
          split_ifs with h
          · have := hact s hs'.1 h
            omega
          · omega
        · refine ih rel (by linarith) (fun s hs => ?_) (fun s hs => ?_) (fun s hs => ?_) haccept
            (by omega) (fun s hs h => ?_)
          · have hs' := hmem s hs
            have h₁ := hneed s hs'.1
            omega
          · have := hrel s (hmem s hs).1
            omega
          · have := hrel s (hmem s hs).1
            omega
          · have := hact s (hmem s hs).1 h
            omega
      have hbusy : ∀ s ∈ S, act s → need s ≠ 0 := by
        intro s hs h
        have := hact s hs h
        omega
      have hterms := sum_terms_le (j := j) hbusy fun s hs => (hcredit s hs).2
      linarith

end Rounds

section Wrap

variable {α : Type} {need rel : α → Int} {S : List α} {rem : Int}

theorem wrapUInt32_eq {n : Int} (hn : 0 ≤ n) (hlt : n < 2 ^ 32) : wrapUInt32 n = n :=
  Int.emod_eq_of_lt hn hlt

theorem sum_map_nonneg {f : α → Int} (h : ∀ s ∈ S, 0 ≤ f s) : 0 ≤ (S.map f).sum := by
  refine sum_nonneg fun x hx => ?_
  obtain ⟨s, hs, rfl⟩ := List.mem_map.mp hx
  exact h s hs

theorem foldl_wrapUInt32 {f : α → Int} (hf : ∀ s ∈ S, 0 ≤ f s) {n : Int} (hn : 0 ≤ n)
    (hlt : n + (S.map f).sum < 2 ^ 32) :
    S.foldl (fun num s => wrapUInt32 (num + f s)) n = n + (S.map f).sum := by
  induction S generalizing n with
  | nil => simp
  | cons s S ih =>
      rw [map_cons, sum_cons] at hlt ⊢
      have hs := hf s mem_cons_self
      have hrest : ∀ t ∈ S, 0 ≤ f t := fun t ht => hf t (mem_cons_of_mem _ ht)
      have hsum : 0 ≤ (S.map f).sum := sum_map_nonneg hrest
      rw [foldl_cons, wrapUInt32_eq (by omega) (by omega), ih hrest (by omega) (by omega),
        Int.add_assoc]

theorem updateRequestStatusEachStep_wrapUInt32 (hneed : ∀ s ∈ S, 0 ≤ need s ∧ need s < 2 ^ 32)
    (hrel : ∀ s ∈ S, 0 ≤ rel s) (hrem : 0 ≤ rem)
    (hlt : rem + (S.map fun s => rel s + 1).sum < 2 ^ 32) :
    updateRequestStatusEachStep wrapUInt32 rem (statuses need rel S) =
      updateRequestStatusEachStep id rem (statuses need rel S) := by
  induction S generalizing rem with
  | nil => rfl
  | cons s S ih =>
      have hs := hneed s mem_cons_self
      have hs' := hrel s mem_cons_self
      have hsum : 0 ≤ (S.map fun s => rel s + 1).sum := by
        refine sum_map_nonneg fun t ht => ?_
        have := hrel t (mem_cons_of_mem _ ht)
        omega
      have ih : ∀ {rem : Int}, 0 ≤ rem → rem + (S.map fun s => rel s + 1).sum < 2 ^ 32 →
          updateRequestStatusEachStep wrapUInt32 rem (statuses need rel S) =
            updateRequestStatusEachStep id rem (statuses need rel S) :=
        ih (fun t ht => hneed t (mem_cons_of_mem _ ht))
          (fun t ht => hrel t (mem_cons_of_mem _ ht))
      rw [map_cons, sum_cons] at hlt
      rw [statuses, map_cons, updateRequestStatusEachStep, updateRequestStatusEachStep]
      split
      · rw [wrapUInt32_eq (by dsimp only; omega) (by dsimp only; omega)]
        exact ih (by dsimp only; omega) (by dsimp only; omega)
      · rename_i hzero
        dsimp only at hzero ⊢
        rw [wrapUInt32_eq (by omega) (by omega), wrapUInt32_eq (by omega) (by omega), ← statuses,
          ih (by omega) (by omega)]
        rfl

theorem sum_map_ite {f f' : α → Int} {p : α → Bool} :
    (S.map fun s => if p s then f s else f' s).sum =
      ((S.filter p).map f).sum + ((S.filter fun s => !p s).map f').sum := by
  induction S with
  | nil => rfl
  | cons s S ih =>
      rw [map_cons, sum_cons]
      cases hs : p s
      · rw [filter_cons_of_neg (by simp [hs]), filter_cons_of_pos (by simp [hs]),
          map_cons, sum_cons, if_neg (by decide)]
        omega
      · rw [filter_cons_of_pos hs, filter_cons_of_neg (by simp [hs]), map_cons,
          sum_cons, if_pos rfl]
        omega

theorem sum_filter_add_sum_filter {f : α → Int} {p : α → Bool} :
    ((S.filter p).map f).sum + ((S.filter fun s => !p s).map f).sum = (S.map f).sum := by
  rw [← sum_map_ite]
  simp only [ite_self]

/-- A simulation whose blocks can be counted in 32 bits is one over the integers. -/
theorem simulateRounds_wrapUInt32 (rounds : Nat) (hneed : ∀ s ∈ S, 0 ≤ need s)
    (hrel : ∀ s ∈ S, 0 ≤ rel s) (hrem : 0 ≤ rem) (hneeds : (S.map need).sum < 2 ^ 32)
    (hlt : rem + (S.map rel).sum < 2 ^ 32) :
    simulateRounds wrapUInt32 rounds rem (statuses need rel S) =
      simulateRounds id rounds rem (statuses need rel S) := by
  induction rounds generalizing need rel S rem with
  | zero => rfl
  | succ rounds ih =>
      have hlen : ((statuses need rel S).length : Int) = S.length := by
        rw [statuses, length_map]
      simp only [simulateRounds, hlen]
      by_cases hfew : rem < S.length
      · rw [if_pos hfew, if_pos hfew]
      · have hrels : 0 ≤ (S.map rel).sum := sum_map_nonneg hrel
        have hone : (S.map fun s => rel s + 1).sum = (S.map rel).sum + S.length := by
          simp [sum_map_add]
        have hsmall : ∀ s ∈ S, 0 ≤ need s ∧ need s < 2 ^ 32 := by
          intro s hs
          have hle := single_le_sum (l := S.map need)
            (fun x hx => by
              obtain ⟨t, ht, rfl⟩ := List.mem_map.mp hx
              exact hneed t ht) (need s) (mem_map_of_mem hs)
          exact ⟨hneed s hs, by omega⟩
        rw [if_neg hfew, wrapUInt32_eq (by omega) (by omega), id_eq,
          updateRequestStatusEachStep_wrapUInt32 hsmall hrel (by omega) (by omega),
          updateRequestStatusEachStep_statuses]
        have hmem : ∀ s ∈ S.filter (fun s => need s ≠ 0), s ∈ S ∧ need s ≠ 0 := by
          intro s hs
          simpa using List.mem_filter.mp hs
        have hneed' : ∀ s ∈ S.filter (fun s => need s ≠ 0), 0 ≤ need s - 1 := by
          intro s hs
          have := hneed s (hmem s hs).1
          have := (hmem s hs).2
          omega
        have hsplit : ∀ f : α → Int, ((S.filter fun s => need s = 0).map f).sum +
            ((S.filter fun s => need s ≠ 0).map f).sum = (S.map f).sum := by
          intro f
          have hsum := sum_filter_add_sum_filter (S := S) (f := f) (p := fun s => need s = 0)
          simpa only [decide_not] using hsum
        have hless : ((S.filter fun s => need s ≠ 0).map fun s => need s - 1).sum ≤
            ((S.filter fun s => need s ≠ 0).map need).sum :=
          sum_le_sum fun s _ => Int.sub_le_self _ (by decide)
        have hidle : 0 ≤ ((S.filter fun s => need s = 0).map need).sum :=
          sum_map_nonneg fun s hs => hneed s (List.mem_filter.mp hs).1
        have hneeds' : ((S.filter fun s => need s ≠ 0).map fun s => need s - 1).sum < 2 ^ 32 := by
          have := hsplit need
          omega
        have hreserved : getNumReservedFullBlocks wrapUInt32 (statuses (fun s => need s - 1)
              (fun s => rel s + 1) (S.filter fun s => need s ≠ 0)) =
            getNumReservedFullBlocks id (statuses (fun s => need s - 1)
              (fun s => rel s + 1) (S.filter fun s => need s ≠ 0)) := by
          rw [getNumReservedFullBlocks_statuses, getNumReservedFullBlocks, statuses,
            foldl_map, foldl_wrapUInt32 hneed' (le_refl 0) (by omega), Int.zero_add]
        rw [hreserved]
        split
        · rfl
        · refine ih hneed' (fun s hs => ?_) ?_ hneeds' ?_
          · have := hrel s (hmem s hs).1
            omega
          · have : 0 ≤ ((S.filter fun s => need s = 0).map rel).sum :=
              sum_map_nonneg fun s hs => hrel s (List.mem_filter.mp hs).1
            omega
          · have hsum : ((S.filter fun s => need s ≠ 0).map fun s => rel s + 1).sum =
                ((S.filter fun s => need s ≠ 0).map rel).sum +
                  (S.filter fun s => need s ≠ 0).length := by
              simp [sum_map_add]
            have hle := length_filter_le (fun s => decide (need s ≠ 0)) S
            have := hsplit rel
            omega

end Wrap

def blocksFor (blockSize n : Nat) : Nat := (n + blockSize - 1) / blockSize

@[simp] theorem blocksFor_le_iff {blockSize : Nat} (hpos : 0 < blockSize) {n k : Nat} :
    blocksFor blockSize n ≤ k ↔ n ≤ k * blockSize := by
  rw [blocksFor, ← Nat.lt_succ_iff, Nat.div_lt_iff_lt_mul hpos, Nat.succ_mul]
  omega

theorem blocksFor_add_le {blockSize : Nat} (hpos : 0 < blockSize) (m n : Nat) :
    blocksFor blockSize (m + n) ≤ blocksFor blockSize m + blocksFor blockSize n := by
  rw [blocksFor_le_iff hpos, Nat.add_mul]
  exact Nat.add_le_add ((blocksFor_le_iff hpos).mp (le_refl _))
    ((blocksFor_le_iff hpos).mp (le_refl _))

theorem blocksFor_mono {blockSize m n : Nat} (h : m ≤ n) :
    blocksFor blockSize m ≤ blocksFor blockSize n :=
  Nat.div_le_div_right (by omega)

/-- The blocks that a sequence has when its `n`-th token is generated. -/
def KVCacheView.blocksAt (kv : KVCacheView) (seq : GuardSequence) (n : Nat) : Nat :=
  max seq.blocks.length (blocksFor kv.blockSize (seq.numTokens + n - 1))

/-- The blocks that a set of sequences needs in step `n`; a shared block counts once. -/
def KVCacheView.demand (kv : KVCacheView) (active : List Nat) (n : Nat) : Nat :=
  (active.flatMap fun i => (kv.sequences i).blocks).toFinset.card +
    (active.map fun i => kv.blocksAt (kv.sequences i) n - (kv.sequences i).blocks.length).sum

/-- Whenever the sequences end, no step needs more blocks than there are beside the
padding block. -/
def BlockCapacityGuard.DecodingFits (g : BlockCapacityGuard) (kv : KVCacheView)
    (all : List Nat) : Prop :=
  ∀ lifetime : Nat → Nat,
    (∀ i ∈ all, lifetime i ≤ (g.remainingDecodeTokenNum (kv.sequences i)).toNat) →
    ∀ n, 0 < n → kv.demand (all.filter fun i => n ≤ lifetime i) n ≤ kv.numBlocks - 1

/-- What the simulation takes for granted, and what its slips require. -/
structure BlockCapacityGuard.Admissible (g : BlockCapacityGuard) (kv : KVCacheView)
    (runningSequences candidates queue : List Nat) : Prop where
  blockSize_pos : 0 < kv.blockSize
  nodup : (runningSequences ++ candidates ++ queue).Nodup
  /-- No sequence has more blocks than its tokens fill. -/
  covered : ∀ i ∈ runningSequences ++ candidates ++ queue,
    (kv.sequences i).blocks.length ≤ blocksFor kv.blockSize (kv.sequences i).numTokens
  /-- A running sequence has blocks for all tokens but the last one. -/
  computed : ∀ i ∈ runningSequences ++ queue,
    blocksFor kv.blockSize ((kv.sequences i).numTokens - 1) ≤ (kv.sequences i).blocks.length
  /-- A block that is counted as released has no other holder. -/
  exclusive : ∀ i ∈ runningSequences ++ candidates ++ queue,
    (kv.releasedBlocks (kv.sequences i)).Nodup ∧
      ∀ k ∈ runningSequences ++ candidates ++ queue, k ≠ i →
        ∀ id ∈ kv.releasedBlocks (kv.sequences i), id ∉ (kv.sequences k).blocks
  /-- Every block that a sequence holds is counted as used. -/
  counted : ((runningSequences ++ candidates ++ queue).flatMap
    fun i => (kv.sequences i).blocks).toFinset.card ≤ kv.numUsedBlocks
  used_le : kv.numUsedBlocks ≤ kv.numBlocks
  /-- The counters have 32 bits. -/
  tokens_lt : ∀ i ∈ runningSequences ++ candidates ++ queue,
    (kv.sequences i).numTokens + kv.blockSize ≤ 2 ^ 32 ∧
      g.remainingDecodeTokenNum (kv.sequences i) + kv.blockSize ≤ 2 ^ 32
  blocks_lt : kv.numBlocks + ((runningSequences ++ candidates ++ queue).map
    fun i => blocksFor kv.blockSize (kv.sequences i).numTokens).sum < 2 ^ 32
  needs_lt : ((runningSequences ++ candidates ++ queue).map
    fun i => g.numBlockNeedToUseFor id kv (kv.sequences i)).sum < 2 ^ 32
  /-- The prefill of the candidates fits. -/
  prefill_fits : ∀ needed, g.getNeededBlockNumForPrefill wrapUInt32 kv candidates = .ok needed →
    needed ≤ (kv.numBlocks : Int) - kv.numUsedBlocks
  /-- The padding block does not decide. -/
  padding : ∀ needed, g.getNeededBlockNumForPrefill wrapUInt32 kv candidates = .ok needed →
    let sts := g.getAllSequenceStatus wrapUInt32 kv (runningSequences ++ candidates ++ queue)
    let remaining := (kv.numBlocks : Int) - kv.numUsedBlocks - needed
    0 < remaining → simulateRounds wrapUInt32 (getMaxIterNum sts).toNat remaining sts →
      simulateRounds wrapUInt32 (getMaxIterNum sts).toNat (remaining - 1) sts

section Admissible

variable {g : BlockCapacityGuard} {kv : KVCacheView} {running candidates queue : List Nat} {i : Nat}

@[simp] theorem ceilingDiv_id (n blockSize : Nat) (hpos : 0 < blockSize) :
    ceilingDiv id n blockSize = blocksFor blockSize n := by
  rw [blocksFor]
  push_cast [Nat.cast_sub (show 1 ≤ n + blockSize by omega)]
  rfl

theorem ceilingDiv_wrapUInt32 {n : Int} {blockSize : Nat} (hpos : 0 < blockSize) (hn : 0 ≤ n)
    (hlt : n + blockSize ≤ 2 ^ 32) :
    ceilingDiv wrapUInt32 n blockSize = ceilingDiv id n blockSize := by
  rw [ceilingDiv, wrapUInt32_eq (by omega) (by omega)]
  rfl

namespace BlockCapacityGuard

theorem numReleaseBlockFor_id (hpos : 0 < kv.blockSize) (seq : GuardSequence) :
    numReleaseBlockFor id kv seq = (blocksFor kv.blockSize seq.numTokens : Int) -
      seq.blocks.length + (kv.releasedBlocks seq).length := by
  rw [numReleaseBlockFor, ceilingDiv_id _ _ hpos]
  rfl

theorem length_releasedBlocks_le (kv : KVCacheView) (seq : GuardSequence) :
    (kv.releasedBlocks seq).length ≤ seq.blocks.length :=
  (dropWhile_sublist _).length_le

theorem mem_of_candidate (hi : i ∈ candidates) : i ∈ running ++ candidates ++ queue :=
  mem_append_left _ (mem_append_right _ hi)

theorem sum_candidates_le (running candidates queue : List Nat) (f : Nat → Nat) :
    (candidates.map f).sum ≤ ((running ++ candidates ++ queue).map f).sum := by
  rw [map_append, map_append, sum_append, sum_append]
  omega

theorem sum_map_cast (l : List Nat) (f : Nat → Nat) :
    (l.map fun i => (f i : Int)).sum = ((l.map f).sum : Nat) := by
  rw [Nat.cast_list_sum, map_map]
  rfl

theorem le_foldl_max {sts : List SequenceStatus} (n : Int) :
    n ≤ sts.foldl (fun maxIterNum st => max maxIterNum st.numBlockNeedToUse) n ∧
      ∀ st ∈ sts, st.numBlockNeedToUse ≤
        sts.foldl (fun maxIterNum st => max maxIterNum st.numBlockNeedToUse) n := by
  induction sts generalizing n with
  | nil => exact ⟨le_refl n, fun st hst => nomatch hst⟩
  | cons st sts ih =>
      obtain ⟨hstart, hrest⟩ := ih (max n st.numBlockNeedToUse)
      refine ⟨(le_max_left _ _).trans hstart, fun st' hst' => ?_⟩
      rcases List.mem_cons.mp hst' with rfl | hst'
      · exact (le_max_right _ _).trans hstart
      · exact hrest st' hst'

theorem need_le_maxIterNum {all : List Nat} (hi : i ∈ all) :
    g.numBlockNeedToUseFor id kv (kv.sequences i) ≤
      (getMaxIterNum (g.getAllSequenceStatus id kv all)).toNat :=
  ((le_foldl_max 0).2 _ (mem_map_of_mem hi)).trans (Int.self_le_toNat _)

/-- The blocks of its tokens that a sequence gets in the prefill. -/
def lacking (kv : KVCacheView) (candidates : List Nat) (i : Nat) : Nat :=
  if i ∈ candidates then
    blocksFor kv.blockSize (kv.sequences i).numTokens - (kv.sequences i).blocks.length
  else 0

theorem sum_map_neg (l : List Nat) (f : Nat → Int) :
    (l.map fun i => -f i).sum = -(l.map f).sum := by
  induction l with
  | nil => rfl
  | cons i l ih =>
      rw [map_cons, sum_cons, ih, map_cons, sum_cons, Int.neg_add]

theorem sum_filter_add_sum_filter_nat {l : List Nat} {f : Nat → Nat} {p : Nat → Bool} :
    ((l.filter p).map f).sum + ((l.filter fun i => !p i).map f).sum = (l.map f).sum := by
  have hsum := sum_filter_add_sum_filter (S := l) (f := fun i => (f i : Int)) (p := p)
  rw [sum_map_cast, sum_map_cast, sum_map_cast] at hsum
  omega

namespace Admissible

variable (h : g.Admissible kv running candidates queue)

include h

theorem need_eq (hi : i ∈ running ++ candidates ++ queue) :
    g.numBlockNeedToUseFor wrapUInt32 kv (kv.sequences i) =
      g.numBlockNeedToUseFor id kv (kv.sequences i) := by
  rw [numBlockNeedToUseFor, numBlockNeedToUseFor]
  split_ifs with hneg
  · rfl
  · exact ceilingDiv_wrapUInt32 h.blockSize_pos (not_lt.mp hneg) (h.tokens_lt i hi).2

theorem tokensBlock_eq (hi : i ∈ running ++ candidates ++ queue) :
    ceilingDiv wrapUInt32 (kv.sequences i).numTokens kv.blockSize =
      blocksFor kv.blockSize (kv.sequences i).numTokens := by
  have htokens := (h.tokens_lt i hi).1
  rw [ceilingDiv_wrapUInt32 h.blockSize_pos (Int.natCast_nonneg _) (by omega),
    ceilingDiv_id _ _ h.blockSize_pos]

theorem release_eq (hi : i ∈ running ++ candidates ++ queue) :
    numReleaseBlockFor wrapUInt32 kv (kv.sequences i) =
      numReleaseBlockFor id kv (kv.sequences i) := by
  have hcovered := h.covered i hi
  have hreleased := length_releasedBlocks_le kv (kv.sequences i)
  have hle : blocksFor kv.blockSize (kv.sequences i).numTokens ≤
      ((running ++ candidates ++ queue).map
        fun i => blocksFor kv.blockSize (kv.sequences i).numTokens).sum :=
    single_le_sum (fun _ _ => Nat.zero_le _) _ (mem_map_of_mem hi)
  have hlt := h.blocks_lt
  have hmissing : wrapUInt32 ((blocksFor kv.blockSize (kv.sequences i).numTokens : Int) -
      (kv.sequences i).blocks.length) = (blocksFor kv.blockSize (kv.sequences i).numTokens : Int) -
        (kv.sequences i).blocks.length := wrapUInt32_eq (by omega) (by omega)
  rw [numReleaseBlockFor_id h.blockSize_pos, numReleaseBlockFor, h.tokensBlock_eq hi, hmissing]
  exact wrapUInt32_eq (by omega) (by omega)

theorem status_eq :
    g.getAllSequenceStatus wrapUInt32 kv (running ++ candidates ++ queue) =
      g.getAllSequenceStatus id kv (running ++ candidates ++ queue) := by
  refine map_congr_left fun i hi => ?_
  rw [h.need_eq hi, h.release_eq hi]

theorem reserved_id : computeReservedBlockNum id kv candidates =
    ((candidates.map fun i => blocksFor kv.blockSize (kv.sequences i).numTokens).sum : Nat) := by
  rw [← sum_map_cast, computeReservedBlockNum]
  simp only [id_eq, ceilingDiv_id _ _ h.blockSize_pos]
  rw [foldl_add_eq_sum, Int.zero_add]

theorem reserved_eq : computeReservedBlockNum wrapUInt32 kv candidates =
    computeReservedBlockNum id kv candidates := by
  have hsum := sum_candidates_le running candidates queue fun i =>
    blocksFor kv.blockSize (kv.sequences i).numTokens
  have hlt := h.blocks_lt
  rw [h.reserved_id, ← sum_map_cast, computeReservedBlockNum,
    foldl_ext _ (fun num i => wrapUInt32 (num +
      (blocksFor kv.blockSize (kv.sequences i).numTokens : Int))) 0 fun num i hi => by
        rw [h.tokensBlock_eq (mem_of_candidate hi)],
    foldl_wrapUInt32 (fun i _ => Int.natCast_nonneg _) (le_refl 0) (by rw [sum_map_cast]; omega),
    Int.zero_add]

theorem held_eq : (candidates.foldl
      (fun num i => wrapUInt32 (num + (kv.sequences i).blocks.length)) 0) =
    candidates.foldl (fun num i => num + ((kv.sequences i).blocks.length : Int)) 0 := by
  have hsum := sum_candidates_le running candidates queue fun i =>
    blocksFor kv.blockSize (kv.sequences i).numTokens
  have hlt := h.blocks_lt
  have hheld : (candidates.map fun i => (kv.sequences i).blocks.length).sum ≤
      (candidates.map fun i => blocksFor kv.blockSize (kv.sequences i).numTokens).sum :=
    sum_le_sum fun i hi => h.covered i (mem_of_candidate hi)
  rw [foldl_add_eq_sum, foldl_wrapUInt32 (fun i _ => Int.natCast_nonneg _) (le_refl 0)
    (by rw [sum_map_cast]; omega)]

theorem needed_eq : g.getNeededBlockNumForPrefill wrapUInt32 kv candidates =
    g.getNeededBlockNumForPrefill id kv candidates := by
  have hsum := sum_candidates_le running candidates queue fun i =>
    blocksFor kv.blockSize (kv.sequences i).numTokens
  have hlt := h.blocks_lt
  simp only [getNeededBlockNumForPrefill, h.reserved_eq, h.held_eq, h.reserved_id, id_eq]
  rw [foldl_add_eq_sum, sum_map_cast]
  split_ifs
  · rfl
  · rw [wrapUInt32_eq (by omega) (by omega)]
  · rfl

theorem lacking_le {needed : Int} (hneeded : g.getNeededBlockNumForPrefill id kv candidates =
      .ok needed) :
    ((candidates.map fun i => blocksFor kv.blockSize (kv.sequences i).numTokens -
      (kv.sequences i).blocks.length).sum : Nat) ≤ needed ∧ needed < 2 ^ 32 := by
  have hlack : (candidates.map fun i => blocksFor kv.blockSize (kv.sequences i).numTokens -
        (kv.sequences i).blocks.length).sum +
      (candidates.map fun i => (kv.sequences i).blocks.length).sum =
      (candidates.map fun i => blocksFor kv.blockSize (kv.sequences i).numTokens).sum := by
    rw [← sum_map_add]
    refine congrArg List.sum (map_congr_left fun i hi => ?_)
    exact Nat.sub_add_cancel (h.covered i (mem_of_candidate hi))
  have hsum := sum_candidates_le running candidates queue fun i =>
    blocksFor kv.blockSize (kv.sequences i).numTokens
  have hlt := h.blocks_lt
  simp only [getNeededBlockNumForPrefill, h.reserved_id, id_eq] at hneeded
  rw [foldl_add_eq_sum, sum_map_cast] at hneeded
  split_ifs at hneeded
  · cases hneeded
    omega
  · cases hneeded
    omega

theorem need_nonneg (i : Nat) : 0 ≤ g.numBlockNeedToUseFor id kv (kv.sequences i) := by
  rw [numBlockNeedToUseFor]
  split_ifs with hneg
  · decide
  · have hpos := h.blockSize_pos
    exact Int.ediv_nonneg (by rw [id_eq]; omega) (Int.natCast_nonneg _)

theorem release_nonneg (hi : i ∈ running ++ candidates ++ queue) :
    0 ≤ numReleaseBlockFor id kv (kv.sequences i) := by
  have hcovered := h.covered i hi
  rw [numReleaseBlockFor_id h.blockSize_pos]
  omega

theorem sum_release_le : ((running ++ candidates ++ queue).map
      fun i => numReleaseBlockFor id kv (kv.sequences i)).sum ≤
    ((running ++ candidates ++ queue).map
      fun i => blocksFor kv.blockSize (kv.sequences i).numTokens).sum := by
  rw [← sum_map_cast]
  refine sum_le_sum fun i hi => ?_
  have hreleased := length_releasedBlocks_le kv (kv.sequences i)
  rw [numReleaseBlockFor_id h.blockSize_pos]
  omega

theorem simulateRounds_eq (rounds : Nat) {rem : Int} (hrem : 0 ≤ rem) (hle : rem ≤ kv.numBlocks) :
    simulateRounds wrapUInt32 rounds rem
        (g.getAllSequenceStatus wrapUInt32 kv (running ++ candidates ++ queue)) =
      simulateRounds id rounds rem
        (g.getAllSequenceStatus id kv (running ++ candidates ++ queue)) := by
  have hrel := h.sum_release_le
  have hlt := h.blocks_lt
  rw [h.status_eq]
  exact simulateRounds_wrapUInt32 rounds (fun i _ => h.need_nonneg i)
    (fun i hi => h.release_nonneg hi) hrem h.needs_lt (by omega)

theorem remaining_eq {needed : Int}
    (hneeded : g.getNeededBlockNumForPrefill id kv candidates = .ok needed) :
    wrapUInt32 (numBlocksInUseless wrapUInt32 kv - needed) =
        (kv.numBlocks : Int) - kv.numUsedBlocks - needed ∧
      0 ≤ (kv.numBlocks : Int) - kv.numUsedBlocks - needed ∧ 0 ≤ needed := by
  have hfits := h.prefill_fits needed (h.needed_eq.trans hneeded)
  have hlack := h.lacking_le hneeded
  have hlt := h.blocks_lt
  have huseless : numBlocksInUseless wrapUInt32 kv = (kv.numBlocks : Int) - kv.numUsedBlocks :=
    wrapUInt32_eq (by omega) (by omega)
  rw [wrapUInt32_eq (by omega) (by omega)]
  omega

theorem simulate_eq : g.simulateIsSatisfied wrapUInt32 kv candidates
      (running ++ candidates ++ queue) =
    g.simulateIsSatisfied id kv candidates (running ++ candidates ++ queue) := by
  rw [simulateIsSatisfied, simulateIsSatisfied, h.needed_eq]
  cases hneeded : g.getNeededBlockNumForPrefill id kv candidates with
  | error e => rfl
  | ok needed =>
      obtain ⟨heq, hrem, hpos⟩ := h.remaining_eq hneeded
      change (if 0 < wrapUInt32 (numBlocksInUseless wrapUInt32 kv - needed) ∧ _ then _ else _) =
        if 0 < (kv.numBlocks : Int) - kv.numUsedBlocks - needed ∧ _ then _ else _
      simp only [heq]
      rw [h.simulateRounds_eq _ hrem (by omega), h.status_eq]
      rfl

theorem held_add_released_le (act : Nat → Bool) :
    (((running ++ candidates ++ queue).filter act).flatMap
        fun i => (kv.sequences i).blocks).toFinset.card +
      (((running ++ candidates ++ queue).filter fun i => !act i).map
        fun i => (kv.releasedBlocks (kv.sequences i)).length).sum ≤ kv.numUsedBlocks := by
  have hmem : ∀ i ∈ (running ++ candidates ++ queue).filter (fun i => !act i),
      i ∈ running ++ candidates ++ queue ∧ act i = false := by
    intro i hi
    simpa using List.mem_filter.mp hi
  have hnodup : (((running ++ candidates ++ queue).filter fun i => !act i).flatMap
      fun i => kv.releasedBlocks (kv.sequences i)).Nodup := by
    refine List.nodup_flatMap.mpr ⟨fun i hi => (h.exclusive i (hmem i hi).1).1, ?_⟩
    refine (h.nodup.filter _).pairwise_of_forall_ne fun i hi k hk hne => ?_
    intro id hid hid'
    exact (h.exclusive i (hmem i hi).1).2 k (hmem k hk).1 hne.symm id hid
      ((dropWhile_sublist _).subset hid')
  have hdisjoint : Disjoint (((running ++ candidates ++ queue).filter act).flatMap
      fun i => (kv.sequences i).blocks).toFinset
      (((running ++ candidates ++ queue).filter fun i => !act i).flatMap
        fun i => kv.releasedBlocks (kv.sequences i)).toFinset := by
    rw [Finset.disjoint_left]
    intro id hid hid'
    obtain ⟨k, hk, hid⟩ := List.mem_flatMap.mp (List.mem_toFinset.mp hid)
    obtain ⟨i, hi, hid'⟩ := List.mem_flatMap.mp (List.mem_toFinset.mp hid')
    obtain ⟨hk, hact⟩ := List.mem_filter.mp hk
    have hne : k ≠ i := by
      rintro rfl
      rw [(hmem k hi).2] at hact
      cases hact
    exact (h.exclusive i (hmem i hi).1).2 k hk hne id hid' hid
  rw [← length_flatMap, ← toFinset_card_of_nodup hnodup,
    ← Finset.card_union_of_disjoint hdisjoint]
  refine (Finset.card_le_card fun id hid => ?_).trans h.counted
  rw [mem_toFinset, mem_flatMap]
  rcases Finset.mem_union.mp hid with hid | hid
  · obtain ⟨k, hk, hid⟩ := List.mem_flatMap.mp (List.mem_toFinset.mp hid)
    exact ⟨k, (List.mem_filter.mp hk).1, hid⟩
  · obtain ⟨k, hk, hid⟩ := List.mem_flatMap.mp (List.mem_toFinset.mp hid)
    exact ⟨k, (hmem k hk).1, (dropWhile_sublist _).subset hid⟩

theorem running_of_not_mem (hi : i ∈ running ++ candidates ++ queue) (hcand : i ∉ candidates) :
    blocksFor kv.blockSize ((kv.sequences i).numTokens - 1) ≤ (kv.sequences i).blocks.length := by
  refine h.computed i ?_
  simp only [mem_append] at hi ⊢
  tauto

/-- In step `n` an active sequence has taken one block for each `block_size` steps, beside
those of the prefill. -/
theorem extra_le (hi : i ∈ running ++ candidates ++ queue) {n : Nat} (hn : 0 < n) :
    kv.blocksAt (kv.sequences i) n - (kv.sequences i).blocks.length ≤
      blocksFor kv.blockSize n + lacking kv candidates i := by
  have hpos := h.blockSize_pos
  rw [KVCacheView.blocksAt, lacking]
  split_ifs with hcand
  · have hcovered := h.covered i hi
    have hle : blocksFor kv.blockSize ((kv.sequences i).numTokens + n - 1) ≤
        blocksFor kv.blockSize (kv.sequences i).numTokens + blocksFor kv.blockSize n :=
      (blocksFor_mono (by omega)).trans (blocksFor_add_le hpos _ n)
    omega
  · have hcomputed := h.running_of_not_mem hi hcand
    have hle : blocksFor kv.blockSize ((kv.sequences i).numTokens + n - 1) ≤
        blocksFor kv.blockSize ((kv.sequences i).numTokens - 1) + blocksFor kv.blockSize n :=
      (blocksFor_mono (by omega)).trans (blocksFor_add_le hpos _ n)
    omega

theorem release_le (hi : i ∈ running ++ candidates ++ queue) :
    numReleaseBlockFor id kv (kv.sequences i) ≤
      ((kv.releasedBlocks (kv.sequences i)).length + lacking kv candidates i : Nat) + 1 := by
  have hpos := h.blockSize_pos
  rw [numReleaseBlockFor_id hpos, lacking]
  split_ifs with hcand
  · omega
  · have hcomputed := h.running_of_not_mem hi hcand
    have hone : blocksFor kv.blockSize 1 ≤ 1 := (blocksFor_le_iff hpos).mpr (by omega)
    have hle : blocksFor kv.blockSize (kv.sequences i).numTokens ≤
        blocksFor kv.blockSize ((kv.sequences i).numTokens - 1) + blocksFor kv.blockSize 1 :=
      (blocksFor_mono (by omega)).trans (blocksFor_add_le hpos _ 1)
    omega

theorem sum_lacking : ((running ++ candidates ++ queue).map (lacking kv candidates)).sum =
    (candidates.map fun i => blocksFor kv.blockSize (kv.sequences i).numTokens -
      (kv.sequences i).blocks.length).sum := by
  have hnodup := h.nodup
  have hzero : ∀ l : List Nat, (∀ i ∈ l, i ∉ candidates) →
      (l.map (lacking kv candidates)).sum = 0 := by
    intro l hl
    rw [sum_eq_zero]
    intro x hx
    obtain ⟨i, hi, rfl⟩ := List.mem_map.mp hx
    exact if_neg (hl i hi)
  have hcand : candidates.map (lacking kv candidates) = candidates.map fun i =>
      blocksFor kv.blockSize (kv.sequences i).numTokens - (kv.sequences i).blocks.length :=
    map_congr_left fun i hi => if_pos hi
  rw [nodup_append, nodup_append] at hnodup
  obtain ⟨⟨-, -, hrunning⟩, -, hqueue⟩ := hnodup
  rw [map_append, map_append, sum_append, sum_append, hcand,
    hzero running fun i hi hc => hrunning i hi i hc rfl,
    hzero queue fun i hi hc => hqueue i (mem_append_right _ hc) i hi rfl]
  omega

theorem exists_accepted (haccept : g.simulateIsSatisfied wrapUInt32 kv candidates
      (running ++ candidates ++ queue) = .ok true) :
    ∃ needed, g.getNeededBlockNumForPrefill id kv candidates = .ok needed ∧
      0 ≤ (kv.numBlocks : Int) - kv.numUsedBlocks - needed - 1 ∧
      simulateRounds id (getMaxIterNum
          (g.getAllSequenceStatus id kv (running ++ candidates ++ queue))).toNat
        ((kv.numBlocks : Int) - kv.numUsedBlocks - needed - 1)
        (g.getAllSequenceStatus id kv (running ++ candidates ++ queue)) := by
  rw [simulateIsSatisfied, h.needed_eq] at haccept
  cases hneeded : g.getNeededBlockNumForPrefill id kv candidates with
  | error e =>
      rw [hneeded] at haccept
      cases haccept
  | ok needed =>
      obtain ⟨heq, hrem, hpos⟩ := h.remaining_eq hneeded
      rw [hneeded] at haccept
      change (if 0 < wrapUInt32 (numBlocksInUseless wrapUInt32 kv - needed) ∧ _ then _ else _) =
        Except.ok true at haccept
      rw [heq] at haccept
      split at haccept
      case isFalse => cases haccept
      case isTrue hchecks =>
        have hsim := h.padding needed (h.needed_eq.trans hneeded) hchecks.1
          (Except.ok.inj haccept)
        rw [h.simulateRounds_eq _ (by omega) (by omega), h.status_eq] at hsim
        exact ⟨needed, rfl, by omega, hsim⟩

theorem blocksFor_le_need (i : Nat) {n : Nat} (hn : 0 < n)
    (hle : n ≤ (g.remainingDecodeTokenNum (kv.sequences i)).toNat) :
    (blocksFor kv.blockSize n : Int) ≤ g.numBlockNeedToUseFor id kv (kv.sequences i) := by
  have hpos := h.blockSize_pos
  rw [numBlockNeedToUseFor]
  obtain ⟨m, hm⟩ := Int.eq_ofNat_of_zero_le (a := g.remainingDecodeTokenNum (kv.sequences i))
    (by omega)
  rw [hm, ceilingDiv_id _ _ hpos]
  exact Int.ofNat_le.mpr (blocksFor_mono (by omega))

theorem decodingFits (haccept : g.simulateIsSatisfied wrapUInt32 kv candidates
      (running ++ candidates ++ queue) = .ok true) :
    g.DecodingFits kv (running ++ candidates ++ queue) := by
  intro lifetime hlife n hn
  obtain ⟨needed, hneeded, hrem, hsim⟩ := h.exists_accepted haccept
  have hlack := (h.lacking_le hneeded).1
  rw [← h.sum_lacking] at hlack
  have hheld := h.held_add_released_le fun i => n ≤ lifetime i
  have hround := simulateRounds_fits (fun i => n ≤ lifetime i)
    (fun i => (((kv.releasedBlocks (kv.sequences i)).length + lacking kv candidates i : Nat) : Int))
    (j := blocksFor kv.blockSize n) hrem
    (fun i hi => ⟨h.need_nonneg i, need_le_maxIterNum hi⟩) (fun i hi => h.release_nonneg hi)
    (fun i hi => ⟨Int.natCast_nonneg _, h.release_le hi⟩) hsim (Int.natCast_nonneg _)
    fun i hi hact => h.blocksFor_le_need i hn ((of_decide_eq_true hact).trans (hlife i hi))
  rw [sum_map_ite, sum_map_neg, sum_map_cast, sum_map_cast, sum_map_add] at hround
  rw [← sum_filter_add_sum_filter_nat (p := fun i => n ≤ lifetime i)] at hlack
  have hextra : (((running ++ candidates ++ queue).filter fun i => n ≤ lifetime i).map fun i =>
        kv.blocksAt (kv.sequences i) n - (kv.sequences i).blocks.length).sum ≤
      (((running ++ candidates ++ queue).filter fun i => n ≤ lifetime i).map
        fun _ => blocksFor kv.blockSize n).sum +
      (((running ++ candidates ++ queue).filter fun i => n ≤ lifetime i).map
        (lacking kv candidates)).sum := by
    rw [← sum_map_add]
    exact sum_le_sum fun i hi => h.extra_le (List.mem_filter.mp hi).1 hn
  rw [KVCacheView.demand]
  omega

end Admissible

/-- The guard computes without wrapping, and decoding the sequences that it accepts never
needs more blocks than there are. -/
theorem accepted_candidates_fit (g : BlockCapacityGuard) (kv : KVCacheView)
    (candidates : List Nat) (runningQueue : List (List Nat)) (runningSequences : List Nat)
    (h : g.Admissible (g.prefixCacheForCandidateSequences kv candidates) runningSequences
      candidates (getRunningSequences kv runningQueue)) :
    g.ifAcceptCandidateSequences wrapUInt32 kv candidates runningQueue runningSequences =
        g.ifAcceptCandidateSequences id kv candidates runningQueue runningSequences ∧
      ∀ kv', g.ifAcceptCandidateSequences wrapUInt32 kv candidates runningQueue runningSequences =
          .ok (true, kv') →
        g.DecodingFits kv' (runningSequences ++ candidates ++
          getRunningSequences kv runningQueue) := by
  constructor
  · rw [ifAcceptCandidateSequences, ifAcceptCandidateSequences, h.simulate_eq]
  · intro kv' haccept
    rw [ifAcceptCandidateSequences] at haccept
    cases hsim : g.simulateIsSatisfied wrapUInt32 (g.prefixCacheForCandidateSequences kv candidates)
        candidates (runningSequences ++ candidates ++ getRunningSequences kv runningQueue) with
    | error e =>
        rw [hsim] at haccept
        cases haccept
    | ok accepted =>
        rw [hsim] at haccept
        cases haccept
        exact h.decodingFits hsim

def twoSequences (numBlocks : Nat) : KVCacheView where
  blockSize := 2
  numBlocks := numBlocks
  numUsedBlocks := 1
  refCount := fun _ => 1
  sequences := fun i => if i = 0 then ⟨2, 2, false, [1]⟩ else ⟨2, 2, false, []⟩

/-- A candidate beside a sequence that decodes. -/
theorem accepted_candidates_fit_two :
    ifAcceptCandidateSequences wrapUInt32 ⟨false, 2, fun kv _ => kv⟩ (twoSequences 5) [1] [[0]] []
        = .ok (true, twoSequences 5) ∧
      DecodingFits ⟨false, 2, fun kv _ => kv⟩ (twoSequences 5) [1, 0] := by
  have hneeded : getNeededBlockNumForPrefill wrapUInt32 ⟨false, 2, fun kv _ => kv⟩
      (twoSequences 5) [1] = .ok 1 := rfl
  have haccept : ifAcceptCandidateSequences wrapUInt32 ⟨false, 2, fun kv _ => kv⟩ (twoSequences 5)
      [1] [[0]] [] = .ok (true, twoSequences 5) := rfl
  refine ⟨haccept, (accepted_candidates_fit ⟨false, 2, fun kv _ => kv⟩ (twoSequences 5) [1] [[0]] []
    ⟨by decide, by decide, by decide, by decide, by decide, by decide, by decide, by decide,
      by decide, by decide, fun needed h => ?_, fun needed h => ?_⟩).2 _ haccept⟩
  · cases hneeded.symm.trans h
    decide
  · cases hneeded.symm.trans h
    decide

/-- A candidate that needs two blocks is accepted with two blocks, one of which is the
padding block. -/
theorem padding_block_accepted :
    ∃ kv, ifAcceptCandidateSequences wrapUInt32 ⟨false, 2, fun kv _ => kv⟩
        ⟨2, 2, 0, fun _ => 0, fun _ => ⟨2, 2, false, []⟩⟩ [0] [] [] = .ok (true, kv) ∧
      ¬ DecodingFits ⟨false, 2, fun kv _ => kv⟩ kv [0] := by
  refine ⟨_, rfl, fun h => ?_⟩
  have hdemand := h (fun _ => 2) (by decide) 2 (by decide)
  revert hdemand
  decide

theorem oversized_prompt_accepted :
    ∃ kv, ifAcceptCandidateSequences wrapUInt32 ⟨false, 2, fun kv _ => kv⟩
        ⟨2, 4, 0, fun _ => 0, fun _ => ⟨20, 20, false, []⟩⟩ [0] [] [] = .ok (true, kv) ∧
      ¬ DecodingFits ⟨false, 2, fun kv _ => kv⟩ kv [0] := by
  refine ⟨_, rfl, fun h => ?_⟩
  have hdemand := h (fun _ => 1) (by decide) 1 (by decide)
  revert hdemand
  decide

end BlockCapacityGuard

end Admissible

end Xllm
