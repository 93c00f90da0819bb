import Mathlib.Data.List.Basic
import Mathlib.Tactic.Ring
import Xllm.Lib.Decimal

/-!
# The groups and domains of `MappingNPU`

Each communicator cuts the ranks into groups, of consecutive ranks (`get_tp_group`) or with a
stride (`get_dp_group`). A domain is an offset plus the rank in another communicator, which is
meant to number the groups. What ends the constructor (a `CHECK`, a division by zero, a loop
without an end) is `none`.
-/

namespace Xllm

structure ParallelInfo where
  groupSize : Int := 1
  numGroup : Int := -1
  rankPerGroup : List (List Int) := []
  currentGroupId : Nat := 0
  rank : Nat := 0
  domain : String := ""

/-- The rank at a place of a group. -/
def ParallelInfo.at (info : ParallelInfo) (i j : Nat) : Option Int :=
  info.rankPerGroup[i]?.bind (·[j]?)

structure MappingNPU where
  wordEmbedTp : ParallelInfo := {}
  wordEmbedDp : ParallelInfo := {}
  attnTp : ParallelInfo := {}
  attnOProjTp : ParallelInfo := {}
  attnDp : ParallelInfo := {}
  attnOProjDp : ParallelInfo := {}
  mlpTp : ParallelInfo := {}
  mlpDp : ParallelInfo := {}
  moeTp : ParallelInfo := {}
  moeEp : ParallelInfo := {}
  lmHeadTp : ParallelInfo := {}
  lmHeadDp : ParallelInfo := {}
  attnInnerSp : ParallelInfo := {}
  attnCp : ParallelInfo := {}
  lcclCommDomainLowerBound : Int := 0
  lcclCommDomainUpperBound : Int := 0

namespace MappingNPU

def maxLcclCommDomain : Int := 63

/-- The sizes that can be set; -1 leaves the default. -/
structure Options where
  numLcclCommShards : Int := 1
  lcclCommShardId : Int := 0
  dpSize : Int := -1
  tpSize : Int := -1
  moeTpSize : Int := -1
  moeEpSize : Int := -1
  spSize : Int := -1
  cpSize : Int := -1

def sizeOr (size default : Int) : Int := if size ≠ -1 then size else default

def parseParallelInfo (worldSize : Int) (options : Options) : MappingNPU :=
  let attnTp : ParallelInfo := { groupSize := sizeOr options.tpSize worldSize }
  let attnDp : ParallelInfo := { groupSize := sizeOr options.dpSize 1 }
  { attnTp := attnTp
    attnDp := attnDp
    mlpTp := { groupSize := worldSize }
    moeTp := { groupSize := sizeOr options.moeTpSize (sizeOr options.tpSize worldSize) }
    moeEp := { groupSize := sizeOr options.moeEpSize 1 }
    attnInnerSp := { groupSize := sizeOr options.spSize 1 }
    attnCp := { groupSize := sizeOr options.cpSize 1 }
    wordEmbedTp := attnTp
    wordEmbedDp := attnDp
    lmHeadTp := attnTp
    lmHeadDp := attnDp }

/-- The `CHECK`s of `validate`. -/
def validate (numNodes worldSize : Int) (m : MappingNPU) : Prop :=
  let localWorldSize := worldSize.tdiv numNodes
  worldSize.tmod numNodes = 0 ∧
  (1 < m.attnCp.groupSize → m.attnDp.groupSize = 1) ∧
  m.attnTp.groupSize * m.attnDp.groupSize * m.attnCp.groupSize = worldSize ∧
  (m.attnTp.groupSize ≠ worldSize → m.attnTp.groupSize ≤ localWorldSize) ∧
  (if 1 < m.moeEp.groupSize then
    m.moeEp.groupSize * m.moeTp.groupSize = worldSize ∧
      (m.moeTp.groupSize ≠ worldSize → m.moeTp.groupSize ≤ localWorldSize)
  else m.moeTp.groupSize = worldSize) ∧
  (1 < m.attnInnerSp.groupSize → m.attnInnerSp.groupSize = m.attnTp.groupSize)

instance (numNodes worldSize : Int) (m : MappingNPU) : Decidable (validate numNodes worldSize m) :=
  inferInstanceAs (Decidable (_ ∧ _ ∧ _ ∧ _ ∧ _ ∧ _))

def getCurrentGroupId : List (List Int) → Int → Option (Nat × Nat)
  | [], _ => none
  | group :: rest, targetRankId =>
      if targetRankId ∈ group then some (0, group.idxOf targetRankId)
      else (getCurrentGroupId rest targetRankId).map fun found => (found.1 + 1, found.2)

/-- What `get_tp_group` and `get_dp_group` share: one group more than `num_group`. -/
def fillGroups (worldSize rank : Int) (info : ParallelInfo) (ranks : Nat → List Int) :
    Option ParallelInfo :=
  let numGroup := worldSize.tdiv info.groupSize
  let rankPerGroup := info.rankPerGroup ++ (List.range (numGroup + 1).toNat).map ranks
  (getCurrentGroupId rankPerGroup rank).map fun found =>
    { info with
      numGroup := numGroup, rankPerGroup := rankPerGroup
      currentGroupId := found.1, rank := found.2 }

def tpRanks (groupSize : Int) (i : Nat) : List Int :=
  let start := i * groupSize
  let stop := (i + 1) * groupSize
  (List.range (stop - start).toNat).map fun j : Nat => start + j

def getTpGroup (worldSize rank : Int) (info : ParallelInfo) : Option ParallelInfo :=
  if info.groupSize = 0 then none
  else fillGroups worldSize rank info (tpRanks info.groupSize)

def dpRanks (worldSize numGroup : Int) (i : Nat) : List Int :=
  (List.range ((worldSize.toNat - i + numGroup.toNat - 1) / numGroup.toNat)).map fun k : Nat =>
    i + k * numGroup

def getDpGroup (worldSize rank : Int) (info : ParallelInfo) : Option ParallelInfo :=
  let numGroup := worldSize.tdiv info.groupSize
  -- with the stride 0 the loop over the first group does not end
  if info.groupSize = 0 ∨ numGroup = 0 ∧ 0 < worldSize then none
  else fillGroups worldSize rank info (dpRanks worldSize numGroup)

def getDomain (src dst : ParallelInfo) (startIdx : Int) : ParallelInfo :=
  { src with domain := toString (startIdx + dst.rank) }

/-- The constructor, without extra `o_proj` tp and local `lm_head` tp. -/
def create (numNodes worldSize rank : Int) (options : Options) : Option MappingNPU := do
  let m := parseParallelInfo worldSize options
  if numNodes = 0 ∨ options.numLcclCommShards = 0 ∨ ¬ validate numNodes worldSize m then none
  else
    let wordEmbedTp ← getTpGroup worldSize rank m.wordEmbedTp
    let wordEmbedDp ← getDpGroup worldSize rank m.wordEmbedDp
    let attnTp ← getTpGroup worldSize rank m.attnTp
    let attnOProjTp ← getTpGroup worldSize rank m.attnOProjTp
    let attnDp ← getDpGroup worldSize rank m.attnDp
    let attnOProjDp ← getDpGroup worldSize rank m.attnOProjDp
    let mlpTp ← getTpGroup worldSize rank m.mlpTp
    let mlpDp ← getDpGroup worldSize rank m.mlpDp
    let moeTp ← getTpGroup worldSize rank m.moeTp
    let moeEp ← getDpGroup worldSize rank m.moeEp
    let lmHeadTp ← getTpGroup worldSize rank m.lmHeadTp
    let lmHeadDp ← getDpGroup worldSize rank m.lmHeadDp
    let attnInnerSp ← getTpGroup worldSize rank m.attnInnerSp
    let attnCp ← getDpGroup worldSize rank m.attnCp
    let attnTp := getDomain attnTp attnDp 0
    let numLcclPerShards := (maxLcclCommDomain + 1).tdiv options.numLcclCommShards
    some {
      wordEmbedTp, wordEmbedDp, attnOProjTp, attnOProjDp, mlpDp, lmHeadTp, lmHeadDp, attnTp
      attnDp := getDomain attnDp attnTp attnDp.groupSize
      attnCp := getDomain attnCp attnTp attnCp.groupSize
      moeTp := getDomain moeTp moeEp (2 * worldSize)
      moeEp := getDomain moeEp moeTp (2 * worldSize + moeEp.groupSize)
      mlpTp := { mlpTp with domain := toString maxLcclCommDomain }
      attnInnerSp := { attnInnerSp with domain := attnTp.domain }
      lcclCommDomainLowerBound := numLcclPerShards * options.lcclCommShardId
      lcclCommDomainUpperBound := numLcclPerShards * (options.lcclCommShardId + 1) }

/-- The communicators that have a domain of their own. -/
inductive Communicator
  | attnTp
  | attnDp
  | attnCp
  | moeTp
  | moeEp

def Communicator.info (m : MappingNPU) : Communicator → ParallelInfo
  | attnTp => m.attnTp
  | attnDp => m.attnDp
  | attnCp => m.attnCp
  | moeTp => m.moeTp
  | moeEp => m.moeEp

def infos (m : MappingNPU) : List ParallelInfo :=
  [m.wordEmbedTp, m.wordEmbedDp, m.attnTp, m.attnOProjTp, m.attnDp, m.attnOProjDp, m.mlpTp,
    m.mlpDp, m.moeTp, m.moeEp, m.lmHeadTp, m.lmHeadDp, m.attnInnerSp, m.attnCp]

/-- The rank is in one of the first `num_group` groups, once, at the stored index. -/
def OccursOnce (r : Int) (info : ParallelInfo) : Prop :=
  (info.currentGroupId : Int) < info.numGroup ∧ ∀ i j : Nat, (i : Int) < info.numGroup →
    (info.at i j = some r ↔ i = info.currentGroupId ∧ j = info.rank)

/-- Both ranks are in one of the first `num_group` groups. -/
def SameGroup (info : ParallelInfo) (r r' : Int) : Prop :=
  ∃ i j j' : Nat, (i : Int) < info.numGroup ∧ info.at i j = some r ∧ info.at i j' = some r'

/-- The options pass `validate`. -/
def Accepted (numNodes worldSize : Int) (options : Options) : Prop :=
  numNodes ≠ 0 ∧ validate numNodes worldSize (parseParallelInfo worldSize options)

/-- Every rank is in one group of each communicator, and domains tell the groups apart. -/
structure Identifies (numNodes : Int) (worldSize : Nat) (options : Options) : Prop where
  placed : ∀ r < worldSize, ∃ m, create numNodes worldSize r options = some m ∧
    ∀ info ∈ m.infos, OccursOnce r info
  domains : ∀ r < worldSize, ∀ r' < worldSize, ∀ m m',
    create numNodes worldSize r options = some m → create numNodes worldSize r' options = some m' →
    ∀ c c' : Communicator, 1 < (c.info m).groupSize → 1 < (c'.info m').groupSize →
      ((c.info m).domain = (c'.info m').domain ↔ c = c' ∧ SameGroup (c.info m) r r')

/-- With groups of `g`, rank `x` is at `place x` of `group x`; `r` is the rank of the process. -/
structure Placed (W g : Nat) (group place : Nat → Nat) (r : Nat) (info : ParallelInfo) :
    Prop where
  groupSize : info.groupSize = g
  numGroup : info.numGroup = (W / g : Nat)
  at_iff : ∀ i j q, i < W / g →
    (info.at i j = some q ↔ ∃ x : Nat, x < W ∧ q = x ∧ group x = i ∧ place x = j)
  group_lt : ∀ x < W, group x < W / g
  current : info.currentGroupId = group r
  rank : info.rank = place r

variable {W g r n : Nat} {group place : Nat → Nat} {info : ParallelInfo}

theorem getCurrentGroupId_eq {groups : List (List Int)} {target : Int} {i j : Nat}
    (hat : groups[i]?.bind (·[j]?) = some target)
    (first : ∀ i' j', groups[i']?.bind (·[j']?) = some target → i < i' ∨ i' = i ∧ j' = j) :
    getCurrentGroupId groups target = some (i, j) := by
  induction groups generalizing i with
  | nil => cases hat
  | cons head groups ih =>
      cases i with
      | zero =>
          have hmem : target ∈ head := List.mem_of_getElem? hat
          have hidx := first 0 (head.idxOf target)
            (by simp [List.getElem?_eq_getElem (List.idxOf_lt_length_iff.mpr hmem)])
          rw [getCurrentGroupId, if_pos hmem]
          exact congrArg (fun k => some (0, k)) (by omega)
      | succ i =>
          have hmem : target ∉ head := by
            intro hmem
            have := first 0 (head.idxOf target)
              (by simp [List.getElem?_eq_getElem (List.idxOf_lt_length_iff.mpr hmem)])
            omega
          rw [getCurrentGroupId, if_neg hmem, ih hat fun i' j' h => by
            have := first (i' + 1) j' h
            omega]
          rfl

theorem fillGroups_placed {ranks : Nat → List Int} (hsize : info.groupSize = g)
    (hnil : info.rankPerGroup = []) (hgroup : ∀ x < W, group x < W / g)
    (hall : ∀ x < W, (ranks (group x))[place x]? = some (x : Int))
    (honly : ∀ i < W / g, ∀ (j : Nat) (q : Int), (ranks i)[j]? = some q →
      ∃ x : Nat, x < W ∧ q = x ∧ group x = i ∧ place x = j) (hr : r < W) :
    ∃ info', fillGroups W r info ranks = some info' ∧ Placed W g group place r info' := by
  have hnum : (W : Int).tdiv info.groupSize = (W / g : Nat) := by
    rw [hsize]
    rfl
  have hat : ∀ i j : Nat, i < W / g + 1 →
      (info.rankPerGroup ++ (List.range (W / g + 1)).map ranks)[i]?.bind (·[j]?) =
        (ranks i)[j]? := by
    intro i j hi
    simp [hnil, hi]
  have hfound : getCurrentGroupId (info.rankPerGroup ++ (List.range (W / g + 1)).map ranks) r =
      some (group r, place r) := by
    have hlt := hgroup r hr
    refine getCurrentGroupId_eq ?_ fun i' j' h => ?_
    · rw [hat _ _ (Nat.lt_succ_of_lt hlt), hall r hr]
    · by_cases hi : i' < W / g
      · rw [hat _ _ (Nat.lt_succ_of_lt hi)] at h
        obtain ⟨x, -, hx, hgx, hpx⟩ := honly i' hi j' r h
        obtain rfl := Int.ofNat_inj.mp hx
        exact Or.inr ⟨hgx.symm, hpx.symm⟩
      · omega
  refine ⟨{ info with
      numGroup := (W / g : Nat)
      rankPerGroup := info.rankPerGroup ++ (List.range (W / g + 1)).map ranks
      currentGroupId := group r, rank := place r }, ?_, hsize, rfl, fun i j q hi => ?_, hgroup,
    rfl, rfl⟩
  · rw [fillGroups, hnum, Int.toNat_natCast_add_one, hfound]
    rfl
  rw [ParallelInfo.at, hat _ _ (Nat.lt_succ_of_lt hi)]
  constructor
  · exact honly i hi j q
  · intro hx
    obtain ⟨x, hx, rfl, rfl, rfl⟩ := hx
    exact hall x hx

theorem getElem?_map_range {f : Nat → Int} {count j : Nat} {q : Int} :
    ((List.range count).map f)[j]? = some q ↔ j < count ∧ f j = q := by
  by_cases hj : j < count <;> simp [hj]

theorem exists_getTpGroup (hg : 0 < g) (hdvd : g ∣ W) (hr : r < W) (hsize : info.groupSize = g)
    (hnil : info.rankPerGroup = []) :
    ∃ info', getTpGroup W r info = some info' ∧ Placed W g (· / g) (· % g) r info' := by
  have hlength : ∀ i : Nat, ((i + 1) * (g : Int) - i * g).toNat = g := fun i => by
    rw [← Int.sub_mul, add_sub_cancel_left, Int.one_mul, Int.toNat_natCast]
  rw [getTpGroup, if_neg (by omega), hsize]
  apply fillGroups_placed hsize hnil
  · exact fun x hx => Nat.div_lt_div_of_lt_of_dvd hdvd hx
  · intro x hx
    rw [tpRanks, hlength, getElem?_map_range]
    exact ⟨Nat.mod_lt x hg, by exact_mod_cast Nat.div_add_mod' x g⟩
  · intro i hi j q h
    rw [tpRanks, hlength, getElem?_map_range] at h
    obtain ⟨hj, rfl⟩ := h
    have hlt := Nat.mul_le_of_le_div g (i + 1) W hi
    rw [Nat.succ_mul] at hlt
    exact ⟨i * g + j, by omega, by push_cast; rfl, by
      rw [Nat.mul_comm, Nat.mul_add_div hg, Nat.div_eq_of_lt hj, Nat.add_zero], by
      rw [Nat.mul_comm, Nat.mul_add_mod, Nat.mod_eq_of_lt hj]⟩
  · exact hr

theorem exists_getDpGroup (hg : 0 < g) (hdvd : g ∣ W) (hr : r < W) (hsize : info.groupSize = g)
    (hnil : info.rankPerGroup = []) :
    ∃ info', getDpGroup W r info = some info' ∧
      Placed W g (· % (W / g)) (· / (W / g)) r info' := by
  have hn : 0 < W / g := Nat.div_pos (Nat.le_of_dvd (Nat.zero_lt_of_lt hr) hdvd) hg
  have hnum : (W : Int).tdiv info.groupSize = (W / g : Nat) := by
    rw [hsize]
    rfl
  have hcount : ∀ i k, k < (W - i + W / g - 1) / (W / g) ↔ i + k * (W / g) < W := fun i k => by
    rw [Nat.lt_div_iff_mul_lt hn]
    omega
  rw [getDpGroup, hnum, if_neg (by omega)]
  apply fillGroups_placed hsize hnil
  · exact fun x _ => Nat.mod_lt x hn
  · intro x hx
    rw [dpRanks, getElem?_map_range, Int.toNat_natCast, Int.toNat_natCast, hcount, Nat.mul_comm,
      Nat.mod_add_div]
    exact ⟨hx, by exact_mod_cast Nat.mod_add_div' x (W / g)⟩
  · intro i hi j q h
    rw [dpRanks, getElem?_map_range, Int.toNat_natCast, Int.toNat_natCast, hcount] at h
    obtain ⟨hj, rfl⟩ := h
    exact ⟨i + j * (W / g), hj, by push_cast; rfl, by
      rw [Nat.add_mul_mod_self_right, Nat.mod_eq_of_lt hi], by
      rw [Nat.add_mul_div_right _ _ hn, Nat.div_eq_of_lt hi, Nat.zero_add]⟩
  · exact hr

theorem Placed.occursOnce (h : Placed W g group place r info) (hr : r < W) : OccursOnce r info := by
  rw [OccursOnce, h.numGroup, h.current, h.rank]
  refine ⟨by exact_mod_cast h.group_lt r hr, fun i j hi => ?_⟩
  rw [h.at_iff i j r (by exact_mod_cast hi)]
  constructor
  · intro hx
    obtain ⟨x, -, hx, rfl, rfl⟩ := hx
    rw [Int.ofNat_inj.mp hx]
    exact ⟨rfl, rfl⟩
  · intro hij
    exact ⟨r, hr, rfl, hij.1.symm, hij.2.symm⟩

theorem Placed.sameGroup_iff (h : Placed W g group place r info) (hr : r < W) {r' : Nat}
    (hr' : r' < W) : SameGroup info r r' ↔ group r = group r' := by
  rw [SameGroup, h.numGroup]
  constructor
  · intro hsame
    obtain ⟨i, j, j', hi, hj, hj'⟩ := hsame
    obtain ⟨x, -, hx, rfl, -⟩ := (h.at_iff i j r (by exact_mod_cast hi)).mp hj
    obtain ⟨x', -, hx', hgroup, -⟩ := (h.at_iff _ j' r' (by exact_mod_cast hi)).mp hj'
    rw [Int.ofNat_inj.mp hx, Int.ofNat_inj.mp hx', hgroup]
  · intro hgroup
    have hlt := h.group_lt r hr
    exact ⟨group r, place r, place r', by exact_mod_cast hlt,
      (h.at_iff _ _ _ hlt).mpr ⟨r, hr, rfl, rfl, rfl⟩,
      (h.at_iff _ _ _ hlt).mpr ⟨r', hr', rfl, hgroup.symm, rfl⟩⟩

variable {size : Communicator → Nat} {numNodes : Int} {options : Options} {m : MappingNPU}

def groupOf (W : Nat) (size : Communicator → Nat) (x : Nat) : Communicator → Nat
  | .attnTp => x / size .attnTp
  | .attnDp => x % (W / size .attnDp)
  | .attnCp => x % (W / size .attnCp)
  | .moeTp => x / size .moeTp
  | .moeEp => x % (W / size .moeEp)

/-- The number that `get_domain` writes. -/
def number (W : Nat) (size : Communicator → Nat) (x : Nat) : Communicator → Nat
  | .attnTp => x / (W / size .attnDp)
  | .attnDp => size .attnDp + x % size .attnTp
  | .attnCp => size .attnCp + x % size .attnTp
  | .moeTp => 2 * W + x / (W / size .moeEp)
  | .moeEp => 2 * W + size .moeEp + x % size .moeTp

/-- The mapping of one rank. -/
structure Mapped (W : Nat) (size : Communicator → Nat) (r : Nat) (m : MappingNPU) : Prop where
  placed : ∀ info ∈ m.infos, OccursOnce r info
  groupSize : ∀ c : Communicator, (c.info m).groupSize = size c
  domain : ∀ c : Communicator, (c.info m).domain = toString ((number W size r c : Nat) : Int)
  sameGroup : ∀ (c : Communicator) {r' : Nat}, r' < W →
    (SameGroup (c.info m) r r' ↔ groupOf W size r c = groupOf W size r' c)

section

variable (hvalid : validate numNodes W (parseParallelInfo W options))
  (hsize : ∀ c : Communicator, (c.info (parseParallelInfo W options)).groupSize = size c)
  (hpos : ∀ c, 0 < size c) (hsp : 0 < (parseParallelInfo W options).attnInnerSp.groupSize)

include hvalid hsize hpos hsp

theorem sizes_of_validate :
    size .attnTp * size .attnDp * size .attnCp = W ∧ size .moeEp * size .moeTp = W ∧
      (1 < size .attnCp → size .attnDp = 1) ∧ ∃ sp : Nat, (sp = 1 ∨ sp = size .attnTp) ∧
        (parseParallelInfo W options).attnInnerSp.groupSize = sp := by
  obtain ⟨-, hcp, hattn, -, hmoe, hinner⟩ := hvalid
  have htp : (parseParallelInfo W options).attnTp.groupSize = size .attnTp := hsize .attnTp
  have hdp : (parseParallelInfo W options).attnDp.groupSize = size .attnDp := hsize .attnDp
  have hcpSize : (parseParallelInfo W options).attnCp.groupSize = size .attnCp := hsize .attnCp
  have hmoeTp : (parseParallelInfo W options).moeTp.groupSize = size .moeTp := hsize .moeTp
  have hmoeEp : (parseParallelInfo W options).moeEp.groupSize = size .moeEp := hsize .moeEp
  rw [htp, hdp, hcpSize] at hattn
  rw [hdp, hcpSize] at hcp
  rw [hmoeTp, hmoeEp] at hmoe
  rw [htp] at hinner
  refine ⟨by exact_mod_cast hattn, ?_, fun h => by exact_mod_cast hcp (by exact_mod_cast h), ?_⟩
  · have hep := hpos .moeEp
    split at hmoe
    · exact_mod_cast hmoe.1
    · have hone : size .moeEp = 1 := by omega
      rw [hone, Nat.one_mul]
      exact_mod_cast hmoe
  · by_cases h : 1 < (parseParallelInfo W options).attnInnerSp.groupSize
    · exact ⟨size .attnTp, Or.inr rfl, hinner h⟩
    · exact ⟨1, Or.inl rfl, by omega⟩

theorem exists_create (hnodes : numNodes ≠ 0) (hshards : options.numLcclCommShards ≠ 0)
    (hr : r < W) :
    ∃ m, create numNodes W r options = some m ∧ Mapped W size r m := by
  obtain ⟨hattn, hmoe, -, sp, hsp', hinner⟩ := sizes_of_validate hvalid hsize hpos hsp
  have tp : size .attnTp ∣ W := ⟨_, by rw [← hattn, Nat.mul_assoc]⟩
  have dp : size .attnDp ∣ W := ⟨_, by rw [← hattn, Nat.mul_right_comm, Nat.mul_comm]⟩
  have cp : size .attnCp ∣ W := ⟨_, by rw [← hattn, Nat.mul_comm]⟩
  have moeTp : size .moeTp ∣ W := ⟨_, by rw [← hmoe, Nat.mul_comm]⟩
  have moeEp : size .moeEp ∣ W := ⟨_, hmoe.symm⟩
  have spDvd : 0 < sp ∧ sp ∣ W := by
    obtain rfl | rfl := hsp'
    · exact ⟨Nat.one_pos, one_dvd W⟩
    · exact ⟨hpos .attnTp, tp⟩
  obtain ⟨wordTp, h₁, p₁⟩ := exists_getTpGroup (hpos .attnTp) tp hr (hsize .attnTp) rfl
  obtain ⟨wordDp, h₂, p₂⟩ := exists_getDpGroup (hpos .attnDp) dp hr (hsize .attnDp) rfl
  obtain ⟨oTp, h₃, p₃⟩ := @exists_getTpGroup W 1 r {} Nat.one_pos (one_dvd W) hr rfl rfl
  obtain ⟨oDp, h₄, p₄⟩ := @exists_getDpGroup W 1 r {} Nat.one_pos (one_dvd W) hr rfl rfl
  obtain ⟨mlp, h₅, p₅⟩ := @exists_getTpGroup W W r { groupSize := W } (Nat.zero_lt_of_lt hr)
    (Nat.dvd_refl W) hr rfl rfl
  obtain ⟨mTp, h₆, p₆⟩ := exists_getTpGroup (hpos .moeTp) moeTp hr (hsize .moeTp) rfl
  obtain ⟨mEp, h₇, p₇⟩ := exists_getDpGroup (hpos .moeEp) moeEp hr (hsize .moeEp) rfl
  obtain ⟨inner, h₈, p₈⟩ := exists_getTpGroup spDvd.1 spDvd.2 hr hinner rfl
  obtain ⟨aCp, h₉, p₉⟩ := exists_getDpGroup (hpos .attnCp) cp hr (hsize .attnCp) rfl
  have hcreate : ¬ (numNodes = 0 ∨ options.numLcclCommShards = 0 ∨
      ¬ validate numNodes W (parseParallelInfo W options)) := by
    simp [hnodes, hshards, hvalid]
  rw [create, if_neg hcreate]
  simp only [parseParallelInfo, Communicator.info] at h₁ h₂ h₃ h₄ h₅ h₆ h₇ h₈ h₉ ⊢
  simp only [h₁, h₂, h₃, h₄, h₅, h₆, h₇, h₈, h₉, Option.bind_eq_bind, Option.bind_some,
    Option.some.injEq, exists_eq_left']
  constructor
  case placed =>
    simp only [infos, List.forall_mem_cons, List.not_mem_nil, false_implies, implies_true, and_true]
    exact ⟨p₁.occursOnce hr, p₂.occursOnce hr, p₁.occursOnce hr, p₃.occursOnce hr,
      p₂.occursOnce hr, p₄.occursOnce hr, p₅.occursOnce hr, p₄.occursOnce hr, p₆.occursOnce hr,
      p₇.occursOnce hr, p₁.occursOnce hr, p₂.occursOnce hr, p₈.occursOnce hr, p₉.occursOnce hr⟩
  case groupSize =>
    intro c
    cases c
    exacts [p₁.groupSize, p₂.groupSize, p₉.groupSize, p₆.groupSize, p₇.groupSize]
  case domain =>
    intro c
    cases c
    all_goals
      simp only [Communicator.info, getDomain, number, p₁.rank, p₂.rank, p₆.rank, p₇.rank,
        p₂.groupSize, p₇.groupSize, p₉.groupSize, Nat.cast_add, Nat.cast_mul, Nat.cast_ofNat,
        zero_add]
  case sameGroup =>
    intro c r' hr'
    cases c
    exacts [p₁.sameGroup_iff hr hr', p₂.sameGroup_iff hr hr', p₉.sameGroup_iff hr hr',
      p₆.sameGroup_iff hr hr', p₇.sameGroup_iff hr hr']

end

/-- Where the numbers of a communicator start. -/
def base (W : Nat) (size : Communicator → Nat) : Communicator → Nat
  | .attnTp => 0
  | .attnDp => size .attnDp
  | .attnCp => size .attnCp
  | .moeTp => 2 * W
  | .moeEp => 2 * W + size .moeEp

/-- How many groups a communicator has, if tp and cp are not combined. -/
def width (size : Communicator → Nat) : Communicator → Nat
  | .attnTp => size .attnDp
  | .attnDp => size .attnTp
  | .attnCp => 1
  | .moeTp => size .moeEp
  | .moeEp => size .moeTp

section

variable (hpos : ∀ c, 0 < size c) (hattn : size .attnTp * size .attnDp * size .attnCp = W)
  (hmoe : size .moeEp * size .moeTp = W) (hcp : 1 < size .attnCp → size .attnDp = 1)
  (hone : size .attnTp = 1 ∨ size .attnCp = 1)

include hpos hattn hmoe hcp hone

theorem number_eq {c : Communicator} (hc : 1 < size c) (hr : r < W) :
    number W size r c = base W size c + groupOf W size r c ∧
      groupOf W size r c < width size c := by
  have hmoeDiv : W / size .moeEp = size .moeTp := by
    rw [← hmoe, Nat.mul_div_cancel_left _ (hpos .moeEp)]
  have hmoeLt : r / size .moeTp < size .moeEp :=
    (Nat.div_lt_iff_lt_mul (hpos .moeTp)).mpr (hmoe ▸ hr)
  have hdiv : size .attnCp = 1 → W / size .attnDp = size .attnTp := fun h => by
    rw [← hattn, h, Nat.mul_one, Nat.mul_div_cancel _ (hpos .attnDp)]
  cases c with
  | attnTp =>
      have h := hone.resolve_left hc.ne'
      rw [h, Nat.mul_one, Nat.mul_comm] at hattn
      rw [number, hdiv h]
      exact ⟨(Nat.zero_add _).symm, (Nat.div_lt_iff_lt_mul (hpos .attnTp)).mpr (hattn ▸ hr)⟩
  | attnDp =>
      have h : size .attnCp = 1 := by
        have := hpos .attnCp
        omega
      rw [groupOf, hdiv h]
      exact ⟨rfl, Nat.mod_lt _ (hpos .attnTp)⟩
  | attnCp =>
      have h := hone.resolve_right hc.ne'
      rw [h, hcp hc, Nat.one_mul] at hattn
      rw [number, groupOf, base, h, hattn, Nat.div_self (Nat.zero_lt_of_lt hr), Nat.mod_one]
      exact ⟨rfl, Nat.one_pos⟩
  | moeTp => exact ⟨by rw [number, hmoeDiv]; rfl, hmoeLt⟩
  | moeEp =>
      rw [groupOf, hmoeDiv]
      exact ⟨rfl, Nat.mod_lt _ (hpos .moeTp)⟩

theorem number_eq_iff {c c' : Communicator} (hc : 1 < size c) (hc' : 1 < size c') {r' : Nat}
    (hr : r < W) (hr' : r' < W) :
    number W size r c = number W size r' c' ↔
      c = c' ∧ groupOf W size r c = groupOf W size r' c := by
  obtain ⟨heq, hlt⟩ := number_eq hpos hattn hmoe hcp hone hc hr
  obtain ⟨heq', hlt'⟩ := number_eq hpos hattn hmoe hcp hone hc' hr'
  constructor
  · intro h
    have hsame : c = c' := by
      have hW := Nat.zero_lt_of_lt hr
      have tp : size .attnTp ≤ W := Nat.le_of_dvd hW ⟨_, by rw [← hattn, Nat.mul_assoc]⟩
      have dp : size .attnDp ≤ W :=
        Nat.le_of_dvd hW ⟨_, by rw [← hattn, Nat.mul_right_comm, Nat.mul_comm]⟩
      have cp : size .attnCp ≤ W := Nat.le_of_dvd hW ⟨_, by rw [← hattn, Nat.mul_comm]⟩
      cases c <;> cases c' <;> simp only [base, width] at * <;> omega
    subst hsame
    exact ⟨rfl, by omega⟩
  · intro h
    obtain ⟨rfl, hgroup⟩ := h
    omega

end

@[simp] theorem getCurrentGroupId_none {groups : List (List Int)} {target : Int}
    (h : ∀ group ∈ groups, target ∉ group) : getCurrentGroupId groups target = none := by
  induction groups with
  | nil => rfl
  | cons group groups ih =>
      rw [getCurrentGroupId, if_neg (h group List.mem_cons_self),
        ih fun group hgroup => h group (List.mem_cons_of_mem _ hgroup)]
      rfl

theorem pos_of_getTpGroup {worldSize rank : Int} {info' : ParallelInfo}
    (hnil : info.rankPerGroup = []) (h : getTpGroup worldSize rank info = some info') :
    0 < info.groupSize := by
  by_contra hneg
  have hempty : ∀ i, tpRanks info.groupSize i = [] := by
    intro i
    have hle : ((i : Int) + 1) * info.groupSize - i * info.groupSize ≤ 0 := by
      rw [← Int.sub_mul]
      omega
    rw [tpRanks, Int.toNat_of_nonpos hle]
    rfl
  rw [getTpGroup] at h
  split at h
  · cases h
  · rw [fillGroups, getCurrentGroupId_none] at h
    · cases h
    · intro group hgroup
      rw [hnil] at hgroup
      obtain ⟨i, -, rfl⟩ := List.mem_map.mp hgroup
      rw [hempty i]
      exact List.not_mem_nil

theorem pos_of_getDpGroup {rank : Int} {info' : ParallelInfo} (hW : 0 < W)
    (hnil : info.rankPerGroup = []) (h : getDpGroup W rank info = some info') :
    0 < info.groupSize := by
  by_contra hneg
  have hle : (W : Int).tdiv info.groupSize ≤ 0 :=
    Int.tdiv_nonpos_of_nonneg_of_nonpos (by omega) (by omega)
  rw [getDpGroup] at h
  split at h
  · cases h
  · rw [fillGroups, Int.toNat_of_nonpos (by omega), hnil] at h
    cases h

theorem pos_of_create (hW : 0 < W) (h : create numNodes W r options = some m) :
    options.numLcclCommShards ≠ 0 ∧
      (∀ c : Communicator, 0 < (c.info (parseParallelInfo W options)).groupSize) ∧
      0 < (parseParallelInfo W options).attnInnerSp.groupSize := by
  rw [create] at h
  split at h
  · cases h
  · rename_i hguard
    obtain ⟨_, -, h⟩ := Option.bind_eq_some_iff.mp h
    obtain ⟨_, -, h⟩ := Option.bind_eq_some_iff.mp h
    obtain ⟨_, h₁, h⟩ := Option.bind_eq_some_iff.mp h
    obtain ⟨_, -, h⟩ := Option.bind_eq_some_iff.mp h
    obtain ⟨_, h₂, h⟩ := Option.bind_eq_some_iff.mp h
    obtain ⟨_, -, h⟩ := Option.bind_eq_some_iff.mp h
    obtain ⟨_, -, h⟩ := Option.bind_eq_some_iff.mp h
    obtain ⟨_, -, h⟩ := Option.bind_eq_some_iff.mp h
    obtain ⟨_, h₃, h⟩ := Option.bind_eq_some_iff.mp h
    obtain ⟨_, h₄, h⟩ := Option.bind_eq_some_iff.mp h
    obtain ⟨_, -, h⟩ := Option.bind_eq_some_iff.mp h
    obtain ⟨_, -, h⟩ := Option.bind_eq_some_iff.mp h
    obtain ⟨_, h₅, h⟩ := Option.bind_eq_some_iff.mp h
    obtain ⟨_, h₆, h⟩ := Option.bind_eq_some_iff.mp h
    refine ⟨fun hshards => hguard (.inr (.inl hshards)), fun c => ?_, pos_of_getTpGroup rfl h₅⟩
    cases c
    exacts [pos_of_getTpGroup rfl h₁, pos_of_getDpGroup hW rfl h₂, pos_of_getDpGroup hW rfl h₆,
      pos_of_getTpGroup rfl h₃, pos_of_getDpGroup hW rfl h₄]

theorem exists_size (hpos : ∀ c : Communicator, 0 < (c.info m).groupSize) :
    ∃ size : Communicator → Nat, (∀ c : Communicator, (c.info m).groupSize = size c) ∧
      ∀ c, 0 < size c :=
  ⟨fun c => (c.info m).groupSize.toNat, fun c => (Int.toNat_of_nonneg (hpos c).le).symm,
    fun c => Int.lt_toNat.mpr (hpos c)⟩

/-- Groups and domains are as they should be exactly if there are shards, all sizes are positive
and attention's tp is not combined with cp: the domain of attention's tp is the rank in dp, which
is 0 then. -/
theorem identifies_iff (hW : 0 < W) (accepted : Accepted numNodes W options) :
    Identifies numNodes W options ↔
      options.numLcclCommShards ≠ 0 ∧
        (∀ c : Communicator, 0 < (c.info (parseParallelInfo W options)).groupSize) ∧
        0 < (parseParallelInfo W options).attnInnerSp.groupSize ∧
        ((parseParallelInfo W options).attnTp.groupSize = 1 ∨
          (parseParallelInfo W options).attnCp.groupSize = 1) := by
  obtain ⟨hnodes, hvalid⟩ := accepted
  constructor
  · intro h
    obtain ⟨m₀, hm₀, -⟩ := h.placed 0 hW
    obtain ⟨hshards, hpos, hsp⟩ := pos_of_create hW hm₀
    refine ⟨hshards, hpos, hsp, ?_⟩
    by_contra hboth
    obtain ⟨size, hsize, hpos'⟩ := exists_size hpos
    obtain ⟨hattn, -, hcp, -⟩ := sizes_of_validate hvalid hsize hpos' hsp
    have htp : (parseParallelInfo W options).attnTp.groupSize = size .attnTp := hsize .attnTp
    have hcpSize : (parseParallelInfo W options).attnCp.groupSize = size .attnCp := hsize .attnCp
    have tp : 1 < size .attnTp := by
      have := hpos' .attnTp
      omega
    have cp : 1 < size .attnCp := by
      have := hpos' .attnCp
      omega
    have hlt : size .attnTp < W := by
      rw [← hattn, hcp cp, Nat.mul_one]
      exact (Nat.lt_mul_iff_one_lt_right (hpos' _)).mpr cp
    obtain ⟨m, hm, hmapped⟩ := exists_create hvalid hsize hpos' hsp hnodes hshards hW
    obtain ⟨m', hm', hmapped'⟩ := exists_create hvalid hsize hpos' hsp hnodes hshards hlt
    have hsame := (h.domains 0 hW _ hlt m m' hm hm' .attnTp .attnTp
      (by rw [hmapped.groupSize]; exact_mod_cast tp)
      (by rw [hmapped'.groupSize]; exact_mod_cast tp)).mp (by
        rw [hmapped.domain, hmapped'.domain, number, number, hcp cp, Nat.div_one,
          Nat.div_eq_of_lt hlt, Nat.div_eq_of_lt hW])
    have hgroups := (hmapped.sameGroup .attnTp hlt).mp hsame.2
    rw [groupOf, groupOf, Nat.zero_div, Nat.div_self (hpos' _)] at hgroups
    exact Nat.zero_ne_one hgroups
  · intro h
    obtain ⟨hshards, hpos, hsp, hone⟩ := h
    obtain ⟨size, hsize, hpos'⟩ := exists_size hpos
    obtain ⟨hattn, hmoe, hcp, -⟩ := sizes_of_validate hvalid hsize hpos' hsp
    have hcreate := fun r hr =>
      @exists_create W r size numNodes options hvalid hsize hpos' hsp hnodes hshards hr
    have hone' : size .attnTp = 1 ∨ size .attnCp = 1 :=
      hone.imp (fun h => by exact_mod_cast (hsize .attnTp).symm.trans h)
        fun h => by exact_mod_cast (hsize .attnCp).symm.trans h
    constructor
    case placed =>
      intro r hr
      obtain ⟨m, hm, hmapped⟩ := hcreate r hr
      exact ⟨m, hm, hmapped.placed⟩
    case domains =>
      intro r hr r' hr' m m' hm hm' c c' hc hc'
      obtain ⟨_, hm₁, hmapped⟩ := hcreate r hr
      obtain rfl := Option.some.inj (hm₁.symm.trans hm)
      obtain ⟨_, hm₁', hmapped'⟩ := hcreate r' hr'
      obtain rfl := Option.some.inj (hm₁'.symm.trans hm')
      rw [hmapped.groupSize] at hc
      rw [hmapped'.groupSize] at hc'
      rw [hmapped.domain, hmapped'.domain, hmapped.sameGroup c hr', ← number_eq_iff hpos' hattn hmoe
        hcp hone' (by exact_mod_cast hc) (by exact_mod_cast hc') hr hr']
      exact ⟨fun h => Int.ofNat_inj.mp (Decimal.toString_int_inj h), fun h => by rw [h]⟩

/-- Two data-parallel groups of eight ranks each. -/
theorem identifies_sixteen :
    Identifies 1 16 { dpSize := 2, tpSize := 8, moeTpSize := 2, moeEpSize := 8 } := by
  refine (identifies_iff (by decide) ⟨by decide, by decide⟩).mpr
    ⟨by decide, ?_, by decide, .inr (by decide)⟩
  intro c
  cases c
  all_goals decide

/-- With 2 for tp and 2 for cp the two tp groups of four ranks share the domain 0. -/
theorem shared_domain :
    let options : Options := { tpSize := 2, cpSize := 2, moeTpSize := 4 }
    Accepted 1 4 options ∧ ¬ Identifies 1 4 options := by
  refine ⟨⟨by decide, by decide⟩, fun h => ?_⟩
  obtain ⟨-, i, j, j', hi, hj, hj'⟩ := (h.domains 0 (by decide) 2 (by decide) _ _ rfl rfl .attnTp
    .attnTp (by decide) (by decide)).mp rfl
  have hlt : i < 2 := Int.ofNat_lt.mp hi
  obtain rfl | rfl : i = 0 ∨ i = 1 := by omega
  · exact absurd (List.mem_of_getElem? (l := [0, 1]) hj') (by decide)
  · exact absurd (List.mem_of_getElem? (l := [2, 3]) hj) (by decide)

end MappingNPU

end Xllm
