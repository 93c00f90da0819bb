import Mathlib.Algebra.Order.Ring.Rat
import Mathlib.Data.List.Infix
import Mathlib.Tactic.Linarith
import Mathlib.Tactic.NormNum
import Xllm.Lib.BinarySearch

/-!
# Binary searches of the mix scheduler

`get_max_chunk` looks for the longest chunk whose predicted time fits a budget, and
`get_needed_copy_block_num` for the split of the blocks of one request between copying and
computing. Both test the middle of a half-open interval and step back by one at the end.

Step times come from a predictor, which is a parameter; times are rational numbers. A failed
`CHECK` is `none`. The `size_t` operations of `get_needed_copy_block_num` go through
`reduce`: with `wrapSize` they are those of the code, with `checkedSize` an operation whose
exact result is no `size_t` value breaks the run off.
-/

namespace Xllm.MixScheduler

open List Option

def toInt32 (n : Int) : Int := Int.bmod n (2 ^ 32)

/-- The result of a `size_t` operation. -/
def wrapSize (n : Int) : Option Int := some (n % 2 ^ 64)

/-- The exact result of an operation, if it is a `size_t` value. -/
def checkedSize (n : Int) : Option Int := if 0 ≤ n ∧ n < 2 ^ 64 then some n else none

/-- `index--` and `size() - 1`, which may wrap. -/
def indexBefore (index : Int) : Int := (index - 1) % 2 ^ 64

section

variable (predictor : Int → Int → ℚ)

/-- `ProfileManager::predict_step_time`, without the constant term. The arguments are
converted to `int32_t`. -/
def predictStepTime (length prefixLength : Int) : Option ℚ :=
  if toInt32 prefixLength < toInt32 length then
    some (predictor (toInt32 length) (toInt32 prefixLength))
  else none

def getMaxChunk (numTokens kvCacheTokensNum : Nat) (latencyBudget : Int)
    (useQuadraticFormula : Bool) (quadraticRoot : Int) : Option Int :=
  if numTokens ≤ kvCacheTokensNum then some (toInt32 kvCacheTokensNum)
  else
    (predictStepTime predictor numTokens kvCacheTokensNum).bind fun whole =>
      if whole ≤ (latencyBudget : ℚ) then some (toInt32 numTokens)
      else if latencyBudget ≤ 0 then some (toInt32 kvCacheTokensNum)
      else if useQuadraticFormula then some quadraticRoot
      else
        let test := fun mid =>
          (predictStepTime predictor mid kvCacheTokensNum).map fun time =>
            (decide (time ≤ (latencyBudget : ℚ)), ())
        (BinarySearch.loop test (toInt32 (kvCacheTokensNum + 1)) (toInt32 (numTokens + 1)) none).map
          fun r => r.1 - 1

end

/-- The profile of block copies, without the note. -/
structure CopyBlockProfile where
  modelName : List Char
  blockSize : Nat
  /-- Milliseconds for each block. -/
  slope : ℚ
  intercept : ℚ

def copyBlockProfiles : List CopyBlockProfile :=
  [⟨"Qwen2-7B".toList, 128, 48 / 100, 24 / 100⟩, ⟨"Qwen2-7B".toList, 64, 20 / 100, 25 / 100⟩]

/-- `find_profile`, with the default values where no profile is found. -/
def findProfile (modelName : List Char) (blockSize : Nat) : CopyBlockProfile :=
  (copyBlockProfiles.find? fun profile =>
    decide (profile.modelName <:+: modelName) && profile.blockSize == blockSize).getD
      ⟨modelName, blockSize, 1, 0⟩

theorem slope_pos (modelName : List Char) (blockSize : Nat) :
    0 < (findProfile modelName blockSize).slope := by
  unfold findProfile
  cases hfind : copyBlockProfiles.find? fun profile =>
      decide (profile.modelName <:+: modelName) && profile.blockSize == blockSize with
  | none => exact one_pos
  | some profile =>
      have hmem := mem_of_find?_eq_some hfind
      simp only [copyBlockProfiles, mem_cons, not_mem_nil, or_false] at hmem
      cases hmem with
      | inl h =>
          rw [h]
          norm_num
      | inr h =>
          rw [h]
          norm_num

def CopyBlockProfile.predictCopyBlocksTime (profile : CopyBlockProfile) (numCopyBlocks : Int)
    (constantTerm : Bool) : ℚ :=
  if constantTerm then profile.slope * numCopyBlocks + profile.intercept
  else profile.slope * numCopyBlocks

/-- What is read of the sequence of a request. -/
structure CopySequence where
  numTokens : Nat
  deviceTokens : Nat
  hostTokens : Nat

namespace CopySequence

def kvCacheTokensNum (s : CopySequence) : Nat := max s.deviceTokens s.hostTokens

def copyBlocks (s : CopySequence) (blockSize : Nat) : Nat :=
  if s.hostTokens / blockSize > s.deviceTokens / blockSize then
    s.hostTokens / blockSize - s.deviceTokens / blockSize
  else 0

end CopySequence

/-- The blocks that can be copied for some requests. -/
def maxCopyBlocks (blockSize : Nat) : List CopySequence → Nat
  | [] => 0
  | s :: rest => s.copyBlocks blockSize + maxCopyBlocks blockSize rest

section

variable (reduce : Int → Option Int) (predictor : Int → Int → ℚ) (profile : CopyBlockProfile)
  (blockSize : Nat)

/-- The tokens in the device cache once `blocks` blocks have been copied. -/
def cachedTokens (s : CopySequence) (blocks : Int) : Option Int :=
  if blocks = 0 then some s.deviceTokens
  else (reduce ((s.deviceTokens / blockSize : Nat) + blocks)).bind fun all =>
    reduce (all * blockSize)

def curSeqExecTime (s : CopySequence) (blocks : Int) : Option ℚ :=
  (cachedTokens reduce blockSize s blocks).bind fun kvCacheTokensNum =>
    predictStepTime predictor s.numTokens kvCacheTokensNum

/-- The test of the search, with the latency for `mid` blocks. -/
def splitTest (h2dTransferTime baseTotalExecTime : ℚ) (s : CopySequence) (mid : Int) :
    Option (Bool × ℚ) :=
  (curSeqExecTime reduce predictor blockSize s mid).map fun exec =>
    let copy := profile.predictCopyBlocksTime mid false
    (decide (h2dTransferTime + copy < baseTotalExecTime + exec),
      max (h2dTransferTime + copy) (baseTotalExecTime + exec))

/-- The blocks that are copied for the request at which the loop stops. Before a test has
succeeded `min_latency` is the largest number. -/
def neededCopyBlocks (h2dTransferTime baseTotalExecTime : ℚ) (s : CopySequence)
    (copyBlockNum : Int) : Option Int :=
  (reduce (copyBlockNum + 1)).bind fun right =>
    let test := splitTest reduce predictor profile blockSize h2dTransferTime baseTotalExecTime s
    (BinarySearch.loop test 0 right none).bind fun found =>
      (reduce (found.1 - 1)).bind fun before =>
        if found.1 ≤ copyBlockNum then
          (curSeqExecTime reduce predictor blockSize s found.1).map fun exec =>
            let candidate := max (h2dTransferTime + profile.predictCopyBlocksTime found.1 false)
              (baseTotalExecTime + exec)
            if found.2.all fun minLatency => decide (minLatency > candidate) then found.1
            else before
        else some before

/-- The loop of `get_needed_copy_block_num`, from the last request to the first one. The
result consists of the blocks and of the value of `index` behind the loop. -/
def copyLoop (reqCopyBlockNumVec : List Nat) :
    List CopySequence → Int → Int → ℚ → ℚ → Option (Int × Int)
  | [], index, totalNeededCopyBlocks, _, _ => some (totalNeededCopyBlocks, index)
  | s :: rest, index, totalNeededCopyBlocks, totalExecTime, h2dTransferTime =>
      (reqCopyBlockNumVec[index.toNat]?).bind fun copyBlockNum =>
      (reduce (totalNeededCopyBlocks - copyBlockNum)).bind fun totalNeededCopyBlocks =>
      (predictStepTime predictor s.numTokens s.kvCacheTokensNum).bind fun minExecTime =>
      (predictStepTime predictor s.numTokens s.deviceTokens).bind fun curSeqMaxExecTime =>
        let totalExecTime := totalExecTime - minExecTime + curSeqMaxExecTime
        let h2dTransferTime := h2dTransferTime - profile.predictCopyBlocksTime copyBlockNum false
        if h2dTransferTime < totalExecTime then
          (neededCopyBlocks reduce predictor profile blockSize h2dTransferTime
              (totalExecTime - curSeqMaxExecTime) s copyBlockNum).bind fun needed =>
            (reduce (totalNeededCopyBlocks + needed)).map fun total => (total, index)
        else
          copyLoop reqCopyBlockNumVec rest (indexBefore index) totalNeededCopyBlocks totalExecTime
            h2dTransferTime

def getNeededCopyBlockNum (reqVec : List CopySequence) (reqCopyBlockNumVec : List Nat)
    (maxH2dTransferTime minTotalExecTime : ℚ) (maxH2dBlockNum : Nat) : Option (Int × Int) :=
  if maxH2dTransferTime > minTotalExecTime then
    copyLoop reduce predictor profile blockSize reqCopyBlockNumVec reqVec.reverse
      (indexBefore reqVec.length) maxH2dBlockNum minTotalExecTime maxH2dTransferTime
  else none

end

@[simp] theorem toInt32_of_lt {n : Int} (h : 0 ≤ n) (hlt : n < 2 ^ 31) : toInt32 n = n := by
  apply Int.bmod_eq_of_le <;> omega

/-- A predictor rises with the length and falls with the part that is cached. -/
structure MonotonePredictor (predictor : Int → Int → ℚ) : Prop where
  rises : ∀ {l l' p}, 0 ≤ p → p < l → l ≤ l' → predictor l p ≤ predictor l' p
  falls : ∀ {l p p'}, 0 ≤ p → p ≤ p' → p' < l → predictor l p' ≤ predictor l p

section

variable {predictor : Int → Int → ℚ}

theorem predictStepTime_eq {l p : Int} (hp : 0 ≤ p) (hpl : p < l) (hl : l < 2 ^ 31) :
    predictStepTime predictor l p = some (predictor l p) := by
  rw [predictStepTime, toInt32_of_lt (by omega) hl, toInt32_of_lt hp (by omega), if_pos hpl]

/-- The longest chunk within the bound that fits the budget, or no chunk. -/
structure LargestChunk (predictor : Int → Int → ℚ) (numTokens kvCacheTokensNum : Nat)
    (latencyBudget : Int) (chunk : Int) : Prop where
  lower : kvCacheTokensNum ≤ chunk
  upper : chunk ≤ numTokens
  fits : chunk ≠ kvCacheTokensNum → predictor chunk kvCacheTokensNum ≤ latencyBudget
  largest : ∀ l : Int, kvCacheTokensNum < l → l ≤ numTokens →
    predictor l kvCacheTokensNum ≤ latencyBudget → l ≤ chunk

theorem getMaxChunk_of_lt {numTokens kvCacheTokensNum : Nat} {latencyBudget quadraticRoot : Int}
    (hmono : MonotonePredictor predictor) (hkv : kvCacheTokensNum < numTokens)
    (hnum : numTokens + 1 < 2 ^ 31)
    (hbudget : 0 < latencyBudget ∨ predictor numTokens kvCacheTokensNum ≤ latencyBudget) :
    ∃ chunk, getMaxChunk predictor numTokens kvCacheTokensNum latencyBudget false quadraticRoot =
        some chunk ∧
      LargestChunk predictor numTokens kvCacheTokensNum latencyBudget chunk := by
  have hpredict : ∀ l : Int, kvCacheTokensNum < l → l ≤ numTokens →
      predictStepTime predictor l kvCacheTokensNum = some (predictor l kvCacheTokensNum) :=
    fun l h h' => predictStepTime_eq (by omega) h (by omega)
  rw [getMaxChunk, if_neg (by omega), hpredict numTokens (by omega) (by omega), bind_some]
  by_cases hwhole : predictor numTokens kvCacheTokensNum ≤ latencyBudget
  case pos =>
    rw [if_pos hwhole, toInt32_of_lt (by omega) (by omega)]
    exact ⟨_, rfl, by omega, by omega, fun _ => hwhole, fun l _ h _ => h⟩
  case neg =>
    rw [if_neg hwhole, if_neg (by have := hbudget.resolve_right hwhole; omega),
      toInt32_of_lt (by omega) (by omega),
      toInt32_of_lt (by omega) (by omega)]
    obtain ⟨r, hloop, hends⟩ := BinarySearch.loop_spec
      (fun mid => (predictStepTime predictor mid kvCacheTokensNum).map fun time =>
        (decide (time ≤ (latencyBudget : ℚ)), ()))
      (fun l => predictor l kvCacheTokensNum ≤ latencyBudget) (fun _ => ())
      (kvCacheTokensNum + 1) (numTokens + 1) none (by omega) (fun i h h' =>
        by rw [hpredict i (by omega) (by omega)]; rfl)
      (fun i j h h' h'' hj => le_trans (hmono.rises (by omega) (by omega) h') hj)
    have hlower := hends.lower
    have hupper := hends.upper
    dsimp only
    rw [hloop]
    refine ⟨r.1 - 1, rfl, by omega, by omega, ?_, ?_⟩
    · intro hne
      exact hends.before (r.1 - 1) (by omega) (by omega)
    · intro l hl hle hfits
      by_cases hlr : l < r.1
      · omega
      · exact absurd hfits (hends.behind l (by omega) (by omega))

end

/-- Operations whose exact result is a `size_t` value yield it. -/
def Exact (reduce : Int → Option Int) : Prop := ∀ n, 0 ≤ n → n < 2 ^ 64 → reduce n = some n

theorem exact_wrapSize : Exact wrapSize := by
  intro n h hlt
  rw [wrapSize, Int.emod_eq_of_lt h hlt]

theorem exact_checkedSize : Exact checkedSize := fun _ h hlt => if_pos ⟨h, hlt⟩

/-- The number of tokens that are cached once `blocks` blocks have been copied. -/
def cached (blockSize : Nat) (s : CopySequence) (blocks : Int) : Int :=
  if blocks = 0 then s.deviceTokens else ((s.deviceTokens / blockSize : Nat) + blocks) * blockSize

def splitLatency (predictor : Int → Int → ℚ) (profile : CopyBlockProfile) (blockSize : Nat)
    (h2dTransferTime baseTotalExecTime : ℚ) (s : CopySequence) (blocks : Int) : ℚ :=
  max (h2dTransferTime + profile.slope * blocks)
    (baseTotalExecTime + predictor s.numTokens (cached blockSize s blocks))

structure BestSplit (latency : Int → ℚ) (copyBlockNum : Nat) (split : Int) : Prop where
  lower : 0 ≤ split
  upper : split ≤ copyBlockNum
  least : ∀ blocks : Int, 0 ≤ blocks → blocks ≤ copyBlockNum → latency split ≤ latency blocks

/-- What the `CHECK` of `predict_step_time` asks of a sequence. -/
structure CopySequence.Valid (s : CopySequence) : Prop where
  cached_lt : s.kvCacheTokensNum < s.numTokens
  small : s.numTokens < 2 ^ 31

section

variable {reduce : Int → Option Int} {predictor : Int → Int → ℚ} {profile : CopyBlockProfile}
  {blockSize : Nat} {s : CopySequence} {h2d base : ℚ} {i j : Int}

@[simp] theorem cached_zero : cached blockSize s 0 = s.deviceTokens := if_pos rfl

@[simp] theorem cached_of_pos (h : 0 < i) :
    cached blockSize s i = ((s.deviceTokens / blockSize : Nat) + i) * blockSize :=
  if_neg (by omega)

theorem deviceTokens_le_cached (hsize : 0 < blockSize) (hi : 0 ≤ i) :
    s.deviceTokens ≤ cached blockSize s i := by
  by_cases hzero : i = 0
  · rw [hzero, cached_zero]
  · have hlt : s.deviceTokens < (s.deviceTokens / blockSize + 1) * blockSize := by
      rw [Nat.add_mul, Nat.one_mul, Nat.mul_comm]
      exact Nat.lt_mul_div_succ s.deviceTokens hsize
    have hle : (((s.deviceTokens / blockSize : Nat) : Int) + 1) * blockSize ≤
        ((s.deviceTokens / blockSize : Nat) + i) * blockSize :=
      mul_le_mul_of_nonneg_right (by omega) (by omega)
    rw [cached_of_pos (by omega)]
    refine le_trans ?_ hle
    exact_mod_cast hlt.le

theorem cached_mono (hsize : 0 < blockSize) (hi : 0 ≤ i) (hij : i ≤ j) :
    cached blockSize s i ≤ cached blockSize s j := by
  by_cases hzero : i = 0
  · rw [hzero]
    exact deviceTokens_le_cached hsize (by omega)
  · rw [cached_of_pos (by omega), cached_of_pos (by omega)]
    exact mul_le_mul_of_nonneg_right (by omega) (by omega)

theorem blocks_le_host (hi : 0 < i) (hle : i ≤ s.copyBlocks blockSize) :
    ((s.deviceTokens / blockSize : Nat) : Int) + i ≤ (s.hostTokens / blockSize : Nat) := by
  unfold CopySequence.copyBlocks at hle
  split at hle <;> omega

theorem copyBlocks_le (s : CopySequence) (blockSize : Nat) :
    s.copyBlocks blockSize ≤ s.kvCacheTokensNum := by
  have hhost : s.hostTokens / blockSize ≤ s.kvCacheTokensNum :=
    (Nat.div_le_self _ _).trans (Nat.le_max_right _ _)
  unfold CopySequence.copyBlocks
  split
  case isTrue => exact (Nat.sub_le _ _).trans hhost
  case isFalse => exact Nat.zero_le _

theorem cached_le (hi : 0 ≤ i) (hle : i ≤ s.copyBlocks blockSize) :
    cached blockSize s i ≤ s.kvCacheTokensNum := by
  by_cases hzero : i = 0
  · rw [hzero, cached_zero]
    exact_mod_cast Nat.le_max_left _ _
  · have hhost := blocks_le_host (by omega) hle
    rw [cached_of_pos (by omega)]
    refine le_trans (mul_le_mul_of_nonneg_right hhost (by omega)) ?_
    exact_mod_cast (Nat.div_mul_le_self _ _).trans (Nat.le_max_right _ _)

theorem cached_nonneg (hi : 0 ≤ i) : 0 ≤ cached blockSize s i := by
  unfold cached
  split <;> positivity

theorem cachedTokens_eq (hreduce : Exact reduce) (hs : s.Valid) (hi : 0 ≤ i)
    (hle : i ≤ s.copyBlocks blockSize) :
    cachedTokens reduce blockSize s i = some (cached blockSize s i) := by
  have hcached := cached_le hi hle
  have hnonneg : 0 ≤ cached blockSize s i := cached_nonneg hi
  have hlt := hs.cached_lt
  have hsmall := hs.small
  unfold cachedTokens
  by_cases hzero : i = 0
  · rw [if_pos hzero, hzero, cached_zero]
  · have hpos : 0 < i := by omega
    have hhost := blocks_le_host hpos hle
    have hdiv : s.hostTokens / blockSize ≤ s.kvCacheTokensNum :=
      (Nat.div_le_self _ _).trans (Nat.le_max_right _ _)
    rw [cached_of_pos hpos] at hcached hnonneg ⊢
    rw [if_neg hzero]
    generalize s.deviceTokens / blockSize = device at *
    rw [hreduce _ (by omega) (by omega), bind_some, hreduce _ hnonneg (by omega)]

theorem curSeqExecTime_eq (hreduce : Exact reduce) (hs : s.Valid) (hi : 0 ≤ i)
    (hle : i ≤ s.copyBlocks blockSize) :
    curSeqExecTime reduce predictor blockSize s i =
      some (predictor s.numTokens (cached blockSize s i)) := by
  have hcached := cached_le hi hle
  have hlt := hs.cached_lt
  have hsmall := hs.small
  rw [curSeqExecTime, cachedTokens_eq hreduce hs hi hle, bind_some,
    predictStepTime_eq (cached_nonneg hi) (by omega) (by omega)]

/-- Copying blocks takes less time than the execution with them in the cache. -/
def Hidden (predictor : Int → Int → ℚ) (profile : CopyBlockProfile) (blockSize : Nat)
    (h2d base : ℚ) (s : CopySequence) (i : Int) : Prop :=
  h2d + profile.slope * i < base + predictor s.numTokens (cached blockSize s i)

instance : Decidable (Hidden predictor profile blockSize h2d base s i) :=
  inferInstanceAs (Decidable (_ < _))

theorem Hidden.of_le (hmono : MonotonePredictor predictor) (hslope : 0 < profile.slope)
    (hsize : 0 < blockSize) (hs : s.Valid) (hi : 0 ≤ i) (hij : i ≤ j)
    (hj : j ≤ s.copyBlocks blockSize) (h : Hidden predictor profile blockSize h2d base s j) :
    Hidden predictor profile blockSize h2d base s i := by
  have hcached := cached_le (by omega) hj
  have hlt := hs.cached_lt
  have hcopy : profile.slope * i ≤ profile.slope * j :=
    mul_le_mul_of_nonneg_left (by exact_mod_cast hij) hslope.le
  have hexec : predictor s.numTokens (cached blockSize s j) ≤
      predictor s.numTokens (cached blockSize s i) :=
    hmono.falls (cached_nonneg hi) (cached_mono hsize hi hij) (by omega)
  unfold Hidden at h ⊢
  linarith

theorem splitLatency_le_of_hidden (hmono : MonotonePredictor predictor) (hsize : 0 < blockSize)
    (hs : s.Valid) (hi : 0 ≤ i) (hij : i ≤ j) (hj : j ≤ s.copyBlocks blockSize)
    (h : Hidden predictor profile blockSize h2d base s j) :
    splitLatency predictor profile blockSize h2d base s j ≤
      splitLatency predictor profile blockSize h2d base s i := by
  have hcached := cached_le (by omega) hj
  have hlt := hs.cached_lt
  have hexec : predictor s.numTokens (cached blockSize s j) ≤
      predictor s.numTokens (cached blockSize s i) :=
    hmono.falls (cached_nonneg hi) (cached_mono hsize hi hij) (by omega)
  exact BinarySearch.max_le_of_before (fun i : Int => h2d + profile.slope * i)
    (fun i => base + predictor s.numTokens (cached blockSize s i))
    (by linarith) (le_of_lt h)

theorem splitLatency_le_of_not_hidden (hslope : 0 < profile.slope) (hji : j ≤ i)
    (h : ¬ Hidden predictor profile blockSize h2d base s j) :
    splitLatency predictor profile blockSize h2d base s j ≤
      splitLatency predictor profile blockSize h2d base s i := by
  have hcopy : profile.slope * j ≤ profile.slope * i :=
    mul_le_mul_of_nonneg_left (by exact_mod_cast hji) hslope.le
  exact BinarySearch.max_le_of_behind (fun i : Int => h2d + profile.slope * i)
    (fun i => base + predictor s.numTokens (cached blockSize s i))
    (by linarith) (not_lt.1 h)

theorem splitTest_eq (hreduce : Exact reduce) (hs : s.Valid) (hi : 0 ≤ i)
    (hle : i ≤ s.copyBlocks blockSize) :
    splitTest reduce predictor profile blockSize h2d base s i =
      some (decide (Hidden predictor profile blockSize h2d base s i),
        splitLatency predictor profile blockSize h2d base s i) := by
  rw [splitTest, curSeqExecTime_eq hreduce hs hi hle]
  rfl

/-- The search for the split of a request whose execution takes longer than the copy of the
blocks before it. -/
theorem neededCopyBlocks_spec (hreduce : Exact reduce) (hmono : MonotonePredictor predictor)
    (hslope : 0 < profile.slope) (hsize : 0 < blockSize) (hs : s.Valid)
    (hstop : Hidden predictor profile blockSize h2d base s 0) :
    ∃ split, neededCopyBlocks reduce predictor profile blockSize h2d base s
        (s.copyBlocks blockSize) = some split ∧
      BestSplit (splitLatency predictor profile blockSize h2d base s) (s.copyBlocks blockSize)
        split := by
  have hbound : s.copyBlocks blockSize < 2 ^ 31 := by
    have hle := copyBlocks_le s blockSize
    have hlt := hs.cached_lt
    have hsmall := hs.small
    omega
  generalize hn : s.copyBlocks blockSize = n at hbound ⊢
  obtain ⟨⟨left, minLatency⟩, hloop, hends⟩ := BinarySearch.loop_spec
    (splitTest reduce predictor profile blockSize h2d base s)
    (Hidden predictor profile blockSize h2d base s)
    (splitLatency predictor profile blockSize h2d base s) 0 (n + 1) none (by omega) (fun i h h' =>
      splitTest_eq hreduce hs h (by omega))
    (fun i j h h' h'' hj => hj.of_le hmono hslope hsize hs h h' (by omega))
  have hlower : 0 ≤ left := hends.lower
  have hupper : left ≤ n + 1 := hends.upper
  have hbefore : ∀ i, 0 ≤ i → i < left → Hidden predictor profile blockSize h2d base s i :=
    hends.before
  have hbehind : ∀ i, left ≤ i → i < n + 1 → ¬ Hidden predictor profile blockSize h2d base s i :=
    hends.behind
  -- the test holds at zero, so that the search has moved
  have hpos : 0 < left := by
    by_contra hzero
    exact hbehind 0 (by omega) (by omega) hstop
  have hkept : minLatency =
      some (splitLatency predictor profile blockSize h2d base s (left - 1)) :=
    hends.kept_eq.trans (if_neg (by dsimp only; omega))
  have hfalls : ∀ i, 0 ≤ i → i ≤ left - 1 →
      splitLatency predictor profile blockSize h2d base s (left - 1) ≤
        splitLatency predictor profile blockSize h2d base s i :=
    fun i h h' => splitLatency_le_of_hidden hmono hsize hs h h' (by omega)
      (hbefore _ (by omega) (by omega))
  rw [neededCopyBlocks, hreduce _ (by omega) (by omega), bind_some]
  dsimp only
  rw [hloop, bind_some, hreduce _ (by dsimp only; omega) (by dsimp only; omega),
    bind_some]
  by_cases hle : left ≤ n
  case neg =>
    rw [if_neg hle]
    refine ⟨left - 1, rfl, by omega, by omega, ?_⟩
    intro i hi hin
    exact hfalls i hi (by omega)
  case pos =>
    have hrises : ∀ i, left ≤ i →
        splitLatency predictor profile blockSize h2d base s left ≤
          splitLatency predictor profile blockSize h2d base s i :=
      fun i h => splitLatency_le_of_not_hidden hslope h (hbehind _ (by omega) (by omega))
    rw [if_pos hle, curSeqExecTime_eq hreduce hs hlower (by omega)]
    have hchoice : ∀ candidate : ℚ, candidate = splitLatency predictor profile blockSize h2d base
        s left → ∃ split, (if minLatency.all fun minLatency => decide (minLatency > candidate) then
            left else left - 1) = split ∧
          BestSplit (splitLatency predictor profile blockSize h2d base s) n split := by
      intro candidate hcandidate
      rw [hcandidate, hkept, all_some]
      by_cases hbetter : splitLatency predictor profile blockSize h2d base s (left - 1) >
          splitLatency predictor profile blockSize h2d base s left
      case pos =>
        refine ⟨left, if_pos (decide_eq_true hbetter), hlower, hle, ?_⟩
        intro i hi hin
        by_cases hil : i ≤ left - 1
        · exact hbetter.le.trans (hfalls i hi hil)
        · exact hrises i (by omega)
      case neg =>
        refine ⟨left - 1, if_neg (by rw [decide_eq_false hbetter]; exact Bool.false_ne_true),
          by omega, by omega, ?_⟩
        intro i hi hin
        by_cases hil : i ≤ left - 1
        · exact hfalls i hi hil
        · exact (not_lt.1 hbetter).trans (hrises i (by omega))
    obtain ⟨split, hsplit, hbest⟩ := hchoice _ rfl
    exact ⟨split, congrArg some hsplit, hbest⟩

/-- The time for the copies of the requests before `s`. -/
def h2dBefore (profile : CopyBlockProfile) (blockSize : Nat) (h2d : ℚ) (s : CopySequence) : ℚ :=
  h2d - profile.slope * (s.copyBlocks blockSize : Int)

/-- The time of the other requests if nothing is copied for those behind `s`. -/
def baseTime (predictor : Int → Int → ℚ) (exec : ℚ) (s : CopySequence) : ℚ :=
  exec - predictor s.numTokens s.kvCacheTokensNum

/-- What the loop does with requests, given from the last one on. It stops at the first
request for which the copies before it are hidden even if nothing is copied for it. -/
inductive Outcome (predictor : Int → Int → ℚ) (profile : CopyBlockProfile) (blockSize : Nat) :
    List CopySequence → ℚ → ℚ → Int → Int → Prop
  /-- No request is left, and `index` has wrapped. -/
  | passed (exec h2d : ℚ) : Outcome predictor profile blockSize [] exec h2d 0 (2 ^ 64 - 1)
  | stop {s rest exec h2d split}
      (hidden : Hidden predictor profile blockSize (h2dBefore profile blockSize h2d s)
        (baseTime predictor exec s) s 0)
      (best : BestSplit (splitLatency predictor profile blockSize
        (h2dBefore profile blockSize h2d s) (baseTime predictor exec s) s)
        (s.copyBlocks blockSize) split) :
      Outcome predictor profile blockSize (s :: rest) exec h2d
        (maxCopyBlocks blockSize rest + split) rest.length
  | next {s rest exec h2d total index}
      (notHidden : ¬ Hidden predictor profile blockSize (h2dBefore profile blockSize h2d s)
        (baseTime predictor exec s) s 0)
      (outcome : Outcome predictor profile blockSize rest
        (baseTime predictor exec s + predictor s.numTokens s.deviceTokens)
        (h2dBefore profile blockSize h2d s) total index) :
      Outcome predictor profile blockSize (s :: rest) exec h2d total index

theorem hidden_zero : Hidden predictor profile blockSize h2d base s 0 ↔
    h2d < base + predictor s.numTokens s.deviceTokens := by
  rw [Hidden, cached_zero, Int.cast_zero, mul_zero, add_zero]

theorem indexBefore_succ {n : Nat} (h : n < 2 ^ 64) : indexBefore (n + 1 : Nat) = n := by
  unfold indexBefore
  omega

/-- The loop over the sequences hides as many copied blocks as the computation covers. -/
theorem copyLoop_spec (hreduce : Exact reduce) (hmono : MonotonePredictor predictor)
    (hslope : 0 < profile.slope) (hsize : 0 < blockSize) (rev done : List CopySequence)
    (hvalid : ∀ s ∈ rev, s.Valid)
    (hsum : maxCopyBlocks blockSize rev < 2 ^ 64) (hlen : rev.length < 2 ^ 64)
    (exec h2d : ℚ) :
    ∃ total index, copyLoop reduce predictor profile blockSize
        ((rev.reverse ++ done).map fun s => s.copyBlocks blockSize) rev (indexBefore rev.length)
        (maxCopyBlocks blockSize rev) exec h2d = some (total, index) ∧
      Outcome predictor profile blockSize rev exec h2d total index := by
  induction rev generalizing done exec h2d with
  | nil => exact ⟨0, 2 ^ 64 - 1, rfl, Outcome.passed exec h2d⟩
  | cons s rest ih =>
      have hs : s.Valid := hvalid s mem_cons_self
      have hlt := hs.cached_lt
      have hsmall := hs.small
      have hdevice : s.deviceTokens ≤ s.kvCacheTokensNum := Nat.le_max_left _ _
      have hvec : (s :: rest).reverse ++ done = rest.reverse ++ s :: done := by
        rw [reverse_cons, append_assoc, singleton_append]
      have hget : ((rest.reverse ++ s :: done).map fun s => s.copyBlocks blockSize)[rest.length]? =
          some (s.copyBlocks blockSize) := by
        rw [getElem?_map, getElem?_append_right (by rw [length_reverse]),
          length_reverse, Nat.sub_self]
        rfl
      simp only [maxCopyBlocks, length_cons] at hsum hlen ⊢
      rw [hvec, indexBefore_succ (by omega), copyLoop, Int.toNat_natCast, hget, bind_some,
        hreduce _ (by omega) (by omega), bind_some,
        predictStepTime_eq (by omega) (by omega) (by omega), bind_some,
        predictStepTime_eq (by omega) (by omega) (by omega), bind_some]
      dsimp only
      have htotal : ((s.copyBlocks blockSize + maxCopyBlocks blockSize rest : Nat) : Int) -
          s.copyBlocks blockSize = maxCopyBlocks blockSize rest := by
        omega
      rw [htotal, add_sub_cancel_right]
      change ∃ total index, (if h2dBefore profile blockSize h2d s <
          baseTime predictor exec s + predictor s.numTokens s.deviceTokens then _ else _) = _ ∧ _
      by_cases hhidden : Hidden predictor profile blockSize (h2dBefore profile blockSize h2d s)
          (baseTime predictor exec s) s 0
      case pos =>
        obtain ⟨split, hsplit, hbest⟩ := neededCopyBlocks_spec hreduce hmono hslope hsize hs hhidden
        have hlower := hbest.lower
        have hupper := hbest.upper
        rw [if_pos (hidden_zero.1 hhidden)]
        refine ⟨_, _, ?_, Outcome.stop hhidden hbest⟩
        change Option.bind (neededCopyBlocks reduce predictor profile blockSize
          (h2dBefore profile blockSize h2d s) (baseTime predictor exec s) s _) _ = _
        rw [hsplit, bind_some, hreduce _ (by omega) (by omega)]
        rfl
      case neg =>
        rw [if_neg fun h => hhidden (hidden_zero.2 h)]
        obtain ⟨total, index, hloop, houtcome⟩ := ih (s :: done)
          (fun t ht => hvalid t (mem_cons_of_mem s ht)) (by omega) (by omega)
          (baseTime predictor exec s + predictor s.numTokens s.deviceTokens)
          (h2dBefore profile blockSize h2d s)
        exact ⟨total, index, hloop, Outcome.next hhidden houtcome⟩

@[simp] theorem maxCopyBlocks_append (blockSize : Nat) (reqs reqs' : List CopySequence) :
    maxCopyBlocks blockSize (reqs ++ reqs') =
      maxCopyBlocks blockSize reqs + maxCopyBlocks blockSize reqs' := by
  induction reqs with
  | nil => exact (Nat.zero_add _).symm
  | cons s reqs ih => simp only [cons_append, maxCopyBlocks, ih, Nat.add_assoc]

@[simp] theorem maxCopyBlocks_reverse (blockSize : Nat) (reqs : List CopySequence) :
    maxCopyBlocks blockSize reqs.reverse = maxCopyBlocks blockSize reqs := by
  induction reqs with
  | nil => rfl
  | cons s reqs ih =>
      simp only [reverse_cons, maxCopyBlocks_append, maxCopyBlocks]
      omega

theorem getNeededCopyBlockNum_spec (hreduce : Exact reduce) (hmono : MonotonePredictor predictor)
    (hslope : 0 < profile.slope) (hsize : 0 < blockSize) {reqVec : List CopySequence}
    (hvalid : ∀ s ∈ reqVec, s.Valid) (hsum : maxCopyBlocks blockSize reqVec < 2 ^ 64)
    (hlen : reqVec.length < 2 ^ 64) {exec h2d : ℚ} (hcheck : exec < h2d) :
    ∃ total index, getNeededCopyBlockNum reduce predictor profile blockSize reqVec
        (reqVec.map fun s => s.copyBlocks blockSize) h2d exec (maxCopyBlocks blockSize reqVec) =
          some (total, index) ∧
      Outcome predictor profile blockSize reqVec.reverse exec h2d total index := by
  rw [← maxCopyBlocks_reverse] at hsum ⊢
  rw [← length_reverse] at hlen
  have hspec := copyLoop_spec hreduce hmono hslope hsize reqVec.reverse []
    (fun s hs => hvalid s (List.mem_reverse.1 hs)) hsum hlen exec h2d
  rw [reverse_reverse, append_nil, length_reverse] at hspec
  rw [getNeededCopyBlockNum, if_pos hcheck]
  exact hspec

section

variable {reduce' : Int → Option Int}

theorem bind_agrees {α β : Type} {x x' : Option α} {f f' : α → Option β} {r : β}
    (hx : ∀ v, x = some v → x' = some v) (hf : ∀ v, f v = some r → f' v = some r)
    (h : x.bind f = some r) : x'.bind f' = some r := by
  obtain ⟨v, hv, hr⟩ := Option.bind_eq_some_iff.1 h
  rw [hx v hv]
  exact hf v hr

theorem wrapSize_of_checkedSize {n v : Int} (h : checkedSize n = some v) : wrapSize n = some v := by
  unfold checkedSize at h
  split at h
  case isTrue hrange => rw [← h, exact_wrapSize n hrange.1 hrange.2]
  case isFalse => exact absurd h (by simp)

variable (hagrees : ∀ n v, reduce n = some v → reduce' n = some v)

include hagrees

theorem curSeqExecTime_agrees {time : ℚ}
    (h : curSeqExecTime reduce predictor blockSize s i = some time) :
    curSeqExecTime reduce' predictor blockSize s i = some time := by
  refine bind_agrees (fun v hv => ?_) (fun v hv => hv) h
  unfold cachedTokens at hv ⊢
  split
  case isTrue hzero => rwa [if_pos hzero] at hv
  case isFalse hne =>
    rw [if_neg hne] at hv
    exact bind_agrees (hagrees _) (fun all => hagrees _ _) hv

theorem splitTest_agrees {o : Bool × ℚ}
    (h : splitTest reduce predictor profile blockSize h2d base s i = some o) :
    splitTest reduce' predictor profile blockSize h2d base s i = some o := by
  unfold splitTest at h ⊢
  obtain ⟨time, htime, ho⟩ := Option.map_eq_some_iff.1 h
  rw [curSeqExecTime_agrees hagrees htime, ← ho]
  rfl

theorem neededCopyBlocks_agrees {n needed : Int}
    (h : neededCopyBlocks reduce predictor profile blockSize h2d base s n = some needed) :
    neededCopyBlocks reduce' predictor profile blockSize h2d base s n = some needed := by
  refine bind_agrees (hagrees _) (fun right h => ?_) h
  refine bind_agrees (fun found => BinarySearch.loop_agrees fun i o =>
    splitTest_agrees hagrees) (fun found h => ?_) h
  refine bind_agrees (hagrees _) (fun before h => ?_) h
  split
  case isTrue hle =>
    rw [if_pos hle] at h
    obtain ⟨time, htime, hneeded⟩ := Option.map_eq_some_iff.1 h
    rw [curSeqExecTime_agrees hagrees htime, ← hneeded]
    rfl
  case isFalse hgt => rwa [if_neg hgt] at h

theorem copyLoop_agrees {vec : List Nat} {rev : List CopySequence} {index total : Int}
    {exec : ℚ} {r : Int × Int}
    (h : copyLoop reduce predictor profile blockSize vec rev index total exec h2d = some r) :
    copyLoop reduce' predictor profile blockSize vec rev index total exec h2d = some r := by
  induction rev generalizing index total exec h2d with
  | nil => exact h
  | cons s rest ih =>
      refine bind_agrees (fun n hn => hn) (fun n h => ?_) h
      refine bind_agrees (hagrees _) (fun total h => ?_) h
      refine bind_agrees (fun time htime => htime) (fun minExec h => ?_) h
      refine bind_agrees (fun time htime => htime) (fun maxExec h => ?_) h
      dsimp only at h ⊢
      split
      case isTrue hstop =>
        rw [if_pos hstop] at h
        refine bind_agrees (fun needed => neededCopyBlocks_agrees hagrees) (fun needed h => ?_) h
        obtain ⟨total, htotal, hr⟩ := Option.map_eq_some_iff.1 h
        rw [hagrees _ _ htotal, ← hr]
        rfl
      case isFalse hnext =>
        rw [if_neg hnext] at h
        exact ih h

theorem getNeededCopyBlockNum_agrees {reqVec : List CopySequence} {vec : List Nat} {exec : ℚ}
    {total : Nat} {r : Int × Int}
    (h : getNeededCopyBlockNum reduce predictor profile blockSize reqVec vec h2d exec total =
      some r) :
    getNeededCopyBlockNum reduce' predictor profile blockSize reqVec vec h2d exec total =
      some r := by
  unfold getNeededCopyBlockNum at h ⊢
  split
  case isTrue hcheck =>
    rw [if_pos hcheck] at h
    exact copyLoop_agrees hagrees h
  case isFalse hcheck => rwa [if_neg hcheck] at h

end

end

/-- `get_max_chunk` with the search, and what it returns where nothing is searched for. -/
structure ChunkOptimal (predictor : Int → Int → ℚ) (numTokens kvCacheTokensNum : Nat)
    (latencyBudget quadraticRoot : Int) : Prop where
  cached : numTokens ≤ kvCacheTokensNum →
    getMaxChunk predictor numTokens kvCacheTokensNum latencyBudget false quadraticRoot =
      some (kvCacheTokensNum : Int)
  longest : kvCacheTokensNum < numTokens →
    0 < latencyBudget ∨ predictor numTokens kvCacheTokensNum ≤ latencyBudget →
    ∃ chunk, getMaxChunk predictor numTokens kvCacheTokensNum latencyBudget false quadraticRoot =
        some chunk ∧
      LargestChunk predictor numTokens kvCacheTokensNum latencyBudget chunk
  /-- Without a budget only the whole sequence is looked at. -/
  fallback : kvCacheTokensNum < numTokens → latencyBudget ≤ 0 →
    ¬ predictor numTokens kvCacheTokensNum ≤ latencyBudget →
    getMaxChunk predictor numTokens kvCacheTokensNum latencyBudget false quadraticRoot =
      some (kvCacheTokensNum : Int)

theorem chunkOptimal {predictor : Int → Int → ℚ} (hmono : MonotonePredictor predictor)
    {numTokens kvCacheTokensNum : Nat} (latencyBudget quadraticRoot : Int)
    (hnum : numTokens + 1 < 2 ^ 31) (hkv : kvCacheTokensNum < 2 ^ 31) :
    ChunkOptimal predictor numTokens kvCacheTokensNum latencyBudget quadraticRoot := by
  constructor
  case cached =>
    intro hle
    rw [getMaxChunk, if_pos hle, toInt32_of_lt (by omega) (by omega)]
  case longest =>
    intro hlt hbudget
    exact getMaxChunk_of_lt hmono hlt hnum hbudget
  case fallback =>
    intro hlt hbudget hwhole
    rw [getMaxChunk, if_neg (by omega), predictStepTime_eq (by omega) (by omega) (by omega),
      bind_some, if_neg hwhole, if_pos hbudget, toInt32_of_lt (by omega) (by omega)]

/-- The search for the longest chunk and the search for the best split. The second one runs
as the code does (`wrapSize`) and without a `size_t` operation that wraps (`checkedSize`),
apart from the counter `index`, the value of which is in the outcome. -/
theorem chunk_and_split_optimal {predictor : Int → Int → ℚ} (hmono : MonotonePredictor predictor) :
    (∀ (numTokens kvCacheTokensNum : Nat) (latencyBudget quadraticRoot : Int),
      numTokens + 1 < 2 ^ 31 → kvCacheTokensNum < 2 ^ 31 →
      ChunkOptimal predictor numTokens kvCacheTokensNum latencyBudget quadraticRoot) ∧
    ∀ (modelName : List Char) (blockSize : Nat) (reqVec : List CopySequence)
      (maxH2dTransferTime minTotalExecTime : ℚ),
      0 < blockSize → (∀ s ∈ reqVec, s.Valid) → maxCopyBlocks blockSize reqVec < 2 ^ 64 →
      reqVec.length < 2 ^ 64 → minTotalExecTime < maxH2dTransferTime →
      ∃ total index,
        getNeededCopyBlockNum wrapSize predictor (findProfile modelName blockSize) blockSize reqVec
            (reqVec.map fun s => s.copyBlocks blockSize) maxH2dTransferTime minTotalExecTime
            (maxCopyBlocks blockSize reqVec) = some (total, index) ∧
        getNeededCopyBlockNum checkedSize predictor (findProfile modelName blockSize) blockSize
            reqVec (reqVec.map fun s => s.copyBlocks blockSize) maxH2dTransferTime
            minTotalExecTime (maxCopyBlocks blockSize reqVec) = some (total, index) ∧
        Outcome predictor (findProfile modelName blockSize) blockSize reqVec.reverse
          minTotalExecTime maxH2dTransferTime total index := by
  constructor
  case left =>
    intro numTokens kvCacheTokensNum latencyBudget quadraticRoot hnum hkv
    exact chunkOptimal hmono latencyBudget quadraticRoot hnum hkv
  case right =>
    intro modelName blockSize reqVec h2d exec hsize hvalid hsum hlen hcheck
    obtain ⟨total, index, hrun, houtcome⟩ := getNeededCopyBlockNum_spec exact_checkedSize hmono
      (slope_pos modelName blockSize) hsize hvalid hsum hlen hcheck
    refine ⟨total, index, ?_, hrun, houtcome⟩
    exact getNeededCopyBlockNum_agrees (fun n v => wrapSize_of_checkedSize) hrun

/-- A step takes as long as it has tokens to compute. -/
def linearTime (l p : Int) : ℚ := (l - p : Int)

theorem linearTime_monotone : MonotonePredictor linearTime where
  rises _ _ h := by
    rw [linearTime, linearTime]
    exact_mod_cast (by omega)
  falls _ h _ := by
    rw [linearTime, linearTime]
    exact_mod_cast (by omega)

/-- Three blocks of the first sequence can be copied and two of the second one. -/
def twoCopies : List CopySequence := [⟨300, 64, 256⟩, ⟨200, 0, 128⟩]

/-- Two sequences with blocks to copy. -/
theorem chunk_and_split_optimal_two_copies :
    ChunkOptimal linearTime 300 64 100 0 ∧ ∃ total index,
      getNeededCopyBlockNum wrapSize linearTime (findProfile "Qwen2-7B".toList 64) 64 twoCopies
          (twoCopies.map fun s => s.copyBlocks 64) 400 100 5 = some (total, index) ∧
        getNeededCopyBlockNum checkedSize linearTime (findProfile "Qwen2-7B".toList 64) 64
          twoCopies (twoCopies.map fun s => s.copyBlocks 64) 400 100 5 = some (total, index) ∧
        Outcome linearTime (findProfile "Qwen2-7B".toList 64) 64 twoCopies.reverse 100 400 total
          index := by
  have hvalid : ∀ s ∈ twoCopies, s.Valid :=
    List.forall_mem_cons.mpr ⟨⟨by decide, by decide⟩,
      List.forall_mem_singleton.mpr ⟨by decide, by decide⟩⟩
  obtain ⟨hchunk, hsplit⟩ := chunk_and_split_optimal linearTime_monotone
  exact ⟨hchunk 300 64 100 0 (by decide) (by decide),
    hsplit _ 64 twoCopies 400 100 (by decide) hvalid (by decide) (by decide) (by norm_num)⟩

/-- The predicted time is zero for one token and positive for two. Without a budget the chunk
of one token is not found, although it fits. Where nothing is hidden, `index` has wrapped
at the end. -/
theorem no_budget_and_index_wraps :
    getMaxChunk (fun l p => if l ≤ p + 1 then 0 else 1) 2 0 0 false 0 = some 0 ∧
      (if (1 : Int) ≤ 0 + 1 then (0 : ℚ) else 1) ≤ (0 : Int) ∧
      getNeededCopyBlockNum wrapSize (fun _ _ => 0) (findProfile "Qwen2-7B".toList 64) 64
        [⟨200, 0, 128⟩] [2] (13 / 20) 0 2 = some (0, 18446744073709551615) := by
  decide +kernel

end Xllm.MixScheduler
