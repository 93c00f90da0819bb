import Xllm.Lib.Contract
import Mathlib.Algebra.GroupWithZero.Nat
import Mathlib.Data.Finset.Basic
import Mathlib.Data.Finset.SDiff
import Mathlib.Data.Finset.Union
import Mathlib.Logic.Function.Basic

/-!
# The page allocator

`PageAllocator` hands out the virtual pages of the kv cache of every model and
data parallel group, and counts the physical pages that each worker has in use.
One mutex protects its members, but the mutex is released around every broadcast
to the workers. An operation is therefore a sequence of sections, each of which
runs under the lock, and sections of different calls interleave freely.

The state below holds the members of the class together with what exists between
two sections: the calls that wait for a broadcast, the pages that the background
thread has taken, the pages that the block managers hold, and what the workers
have mapped. A broadcast is joined to the section that follows it; its outcome is
an argument of the step. Which wakeups the condition variable delivers is left
open: a waiting call may look again at any time.
-/

namespace Xllm

structure DpGroupPages where
  numFreeVirtPages : Nat
  /-- Unmapped virtual pages. -/
  freeVirtPageList : List Nat
  /-- Mapped virtual pages that are ready for use. -/
  reservedVirtPageList : List Nat
  /-- Mapped virtual pages that a block manager uses. -/
  allocatedVirtPageList : List Nat

structure ModelState where
  numTotalVirtPages : Nat
  phyPagesPerVirtPage : Nat
  /-- Not cleared on free; `wakeup_model` reads it. -/
  weightPagesAllocated : Nat
  isSleeping : Bool
  pendingMapOps : Int
  dpGroupPages : Nat → DpGroupPages
  /-- Zero stands for a group of one worker. -/
  modelTpSize : Nat
  /-- Zero stands for all workers. -/
  modelWorldSize : Nat

@[simps]
def ModelState.setGroup (st : ModelState) (d : Nat) (g : DpGroupPages) : ModelState :=
  { st with dpGroupPages := Function.update st.dpGroupPages d g }

/-- Pages that the background thread takes from the free list of a group. -/
structure Reservation where
  modelId : String
  dpRank : Nat
  pages : List Nat

inductive Call where
  /-- `alloc_kv_cache_page` maps the page that it took from the free list. -/
  | allocMap (modelId : String) (dpRank page : Nat)
  /-- `alloc_kv_cache_page` has mapped the page and not yet recorded it. -/
  | allocRecord (modelId : String) (dpRank page : Nat)
  /-- `free_kv_cache_pages` or `trim_kv_cache` unmaps pages. -/
  | unmap (modelId : String) (dpRank : Nat) (pages : List Nat)
  /-- `sleep_model` waits for pending map operations. -/
  | sleepWait (modelId : String) (skipWeightRelease : Bool)
  /-- `sleep_model` frees the weight pages. -/
  | sleepWeights (modelId : String) (weightPages : Nat) (groups : List (Nat × List Nat))
  /-- `sleep_model` unmaps the pages that it collected from each group. -/
  | sleepUnmap (modelId : String) (groups : List (Nat × List Nat))
  /-- `wakeup_model` maps the collected pages and allocates the weight pages. -/
  | wakeMap (modelId : String) (weightPages : Nat) (groups : List (Nat × List Nat))
  /-- `alloc_weight_pages` broadcasts. -/
  | weightAlloc (modelId : String) (numPages : Nat)
  deriving DecidableEq

structure PageAllocator where
  dpSize : Nat
  maxWorldSize : Nat
  numTotalPhyPages : Nat
  workerPagesUsed : Nat → Nat
  /-- The keys of `model_states_`, in the order of their registration. -/
  modelIds : List String
  modelStates : String → Option ModelState
  calls : List Call
  /-- The reservation that `prealloc_worker` is mapping. -/
  preallocMapping : Option Reservation
  /-- The reservations that `prealloc_worker` has not come to yet. -/
  preallocTodo : List Reservation
  /-- `avail_pages_` and `full_pages_` of the block manager of each group. -/
  blockManagerPages : String → Nat → List Nat
  /-- The virtual pages that the workers of each group have mapped. -/
  mapped : String → Nat → Finset Nat
  /-- The weight pages that each worker of a model has recorded. -/
  weightsResident : String → Nat
  /-- A release found fewer pages in use than it was to subtract. -/
  underflow : Bool
  /-- `prealloc_worker` found its model asleep after the mapping. -/
  sleptAfterMapping : Bool

inductive PageAllocator.Stop where
  | check
  | idle

namespace PageAllocator

def minReservedPages : Nat := 8

def maxReservedPages : Nat := 32

def init (numPhyPages dpSize maxWorldSize : Nat) : PageAllocator where
  dpSize := dpSize
  maxWorldSize := if 0 < maxWorldSize then maxWorldSize else 1
  numTotalPhyPages := numPhyPages
  workerPagesUsed := fun _ => 0
  modelIds := []
  modelStates := fun _ => none
  calls := []
  preallocMapping := none
  preallocTodo := []
  blockManagerPages := fun _ _ => []
  mapped := fun _ _ => ∅
  weightsResident := fun _ => 0
  underflow := false
  sleptAfterMapping := false

def setModel (p : PageAllocator) (m : String) (st : ModelState) : PageAllocator :=
  { p with modelStates := Function.update p.modelStates m (some st) }

def setGroup (p : PageAllocator) (m : String) (st : ModelState) (d : Nat) (g : DpGroupPages) :
    PageAllocator :=
  p.setModel m (st.setGroup d g)

/-- A call leaves its section and waits for a broadcast. -/
def addCall (p : PageAllocator) (c : Call) : PageAllocator := { p with calls := c :: p.calls }

/-- `prealloc_worker` takes pages that it will map later. -/
def addReservation (p : PageAllocator) (r : Reservation) : PageAllocator :=
  { p with preallocTodo := p.preallocTodo ++ [r] }

/-- The pages that the block manager of a group holds. -/
def setHeld (p : PageAllocator) (m : String) (d : Nat) (pages : List Nat) : PageAllocator :=
  { p with
    blockManagerPages := Function.update p.blockManagerPages m
      (Function.update (p.blockManagerPages m) d pages) }

/-- A worker in the range `get_dp_group_worker_range` of the group. -/
def inDpGroup (p : PageAllocator) (st : ModelState) (d w : Nat) : Bool :=
  let tpSize := if 0 < st.modelTpSize then st.modelTpSize else 1
  d * tpSize ≤ w && w < d * tpSize + tpSize && w < p.maxWorldSize

def inWorld (p : PageAllocator) (st : ModelState) (w : Nat) : Bool :=
  let modelWorldSize := if 0 < st.modelWorldSize then st.modelWorldSize else p.maxWorldSize
  w < modelWorldSize && w < p.maxWorldSize

/-- `get_min_free_pages_in_range`, for the workers that satisfy `covers`. -/
def minFreePages (p : PageAllocator) (covers : Nat → Bool) : Nat :=
  ((List.range p.maxWorldSize).filter covers).foldl
    (fun minFree w => min minFree (p.numTotalPhyPages - p.workerPagesUsed w)) p.numTotalPhyPages

/-- Count `n w` more pages on each worker `w`. -/
def consumePhyPages (p : PageAllocator) (n : Nat → Nat) : PageAllocator :=
  { p with workerPagesUsed := fun w => p.workerPagesUsed w + n w }

/-- Count `n` fewer pages on the workers that satisfy `covers`, with the guard
that stops at zero. -/
def releasePhyPages (p : PageAllocator) (covers : Nat → Bool) (n : Nat) : PageAllocator :=
  { p with
    workerPagesUsed := fun w =>
      if covers w then
        if n ≤ p.workerPagesUsed w then p.workerPagesUsed w - n else 0
      else p.workerPagesUsed w
    underflow := p.underflow ||
      (List.range p.maxWorldSize).any fun w => covers w && p.workerPagesUsed w < n }

def releasePhyPagesForDp (p : PageAllocator) (st : ModelState) (d n : Nat) : PageAllocator :=
  p.releasePhyPages (p.inDpGroup st d) n

def consumePhyPagesForDp (p : PageAllocator) (st : ModelState) (d n : Nat) : PageAllocator :=
  p.consumePhyPages fun w => if p.inDpGroup st d w then n else 0

def mapVirtPages (p : PageAllocator) (m : String) (d : Nat) (pages : List Nat) : PageAllocator :=
  { p with
    mapped := Function.update p.mapped m
      (Function.update (p.mapped m) d (p.mapped m d ∪ pages.toFinset)) }

def unmapVirtPages (p : PageAllocator) (m : String) (d : Nat) (pages : List Nat) :
    PageAllocator :=
  { p with
    mapped := Function.update p.mapped m
      (Function.update (p.mapped m) d (p.mapped m d \ pages.toFinset)) }

def setWeights (p : PageAllocator) (m : String) (n : Nat) : PageAllocator :=
  { p with weightsResident := Function.update p.weightsResident m n }

def registerModel (p : PageAllocator) (m : String) (numLayers : Nat) : Except Stop PageAllocator :=
  match p.modelStates m with
  | some _ => .ok p
  | none =>
      -- the division by the layer count
      if numLayers = 0 then .error .check
      else
        let numTotalVirtPages := p.numTotalPhyPages / numLayers / 2
        let group : DpGroupPages :=
          { numFreeVirtPages := numTotalVirtPages
            freeVirtPageList := List.range numTotalVirtPages
            reservedVirtPageList := []
            allocatedVirtPageList := [] }
        .ok { p.setModel m
            { numTotalVirtPages := numTotalVirtPages
              phyPagesPerVirtPage := 2 * numLayers
              weightPagesAllocated := 0
              isSleeping := false
              pendingMapOps := 0
              dpGroupPages := fun _ => group
              modelTpSize := 0
              modelWorldSize := 0 } with
          modelIds := p.modelIds ++ [m] }

def setModelParallelStrategy (p : PageAllocator) (m : String) (dpSize tpSize : Nat) :
    PageAllocator :=
  match p.modelStates m with
  | none => p
  | some st => p.setModel m { st with modelTpSize := tpSize, modelWorldSize := dpSize * tpSize }

def setWeightPagesCount (p : PageAllocator) (m : String) (n : Nat) : Except Stop PageAllocator :=
  match p.modelStates m with
  | none => .error .check
  | some st => .ok (p.setModel m { st with weightPagesAllocated := n })

/-- The first section of `alloc_kv_cache_page`. The branches that wait or put the
page back are not reached, since the test of the free pages and the consumption
read the same counters. -/
def allocKvCachePage (p : PageAllocator) (m : String) (d : Nat) : Except Stop PageAllocator :=
  match p.modelStates m with
  | none => .error .check
  | some st =>
      if p.dpSize ≤ d ∨ st.isSleeping then .error .check
      else
        let g := st.dpGroupPages d
        match g.reservedVirtPageList, g.freeVirtPageList with
        | page :: rest, _ =>
            .ok ((p.setGroup m st d
                { g with
                  numFreeVirtPages := g.numFreeVirtPages - 1
                  reservedVirtPageList := rest
                  allocatedVirtPageList := g.allocatedVirtPageList.insert page }).setHeld
              m d ((p.blockManagerPages m d).insert page))
        | [], page :: rest =>
            if st.phyPagesPerVirtPage ≤ p.minFreePages (p.inDpGroup st d) then
              .ok (((p.consumePhyPagesForDp st d st.phyPagesPerVirtPage).setGroup m
                  { st with pendingMapOps := st.pendingMapOps + 1 } d
                  { g with
                    numFreeVirtPages := g.numFreeVirtPages - 1
                    freeVirtPageList := rest }).addCall (.allocMap m d page))
            -- "No free physical pages left" is thrown
            else .ok p
        -- "No free virtual pages left" is thrown
        | [], [] => .ok p

/-- The second section of `alloc_kv_cache_page`, after the page was mapped. -/
def allocMapped (p : PageAllocator) (m : String) (d page : Nat) (success : Bool) :
    Except Stop PageAllocator :=
  match p.modelStates m with
  | none => .error .check
  | some st =>
      let g := st.dpGroupPages d
      let st := { st with pendingMapOps := st.pendingMapOps - 1 }
      if success then
        .ok (((p.setModel m st).mapVirtPages m d [page]).addCall (.allocRecord m d page))
      else
        .ok ((p.releasePhyPagesForDp st d st.phyPagesPerVirtPage).setGroup m st d
          { g with
            numFreeVirtPages := g.numFreeVirtPages + 1
            freeVirtPageList := page :: g.freeVirtPageList })

/-- The third section of `alloc_kv_cache_page`; the page goes to the block manager. -/
def allocRecorded (p : PageAllocator) (m : String) (d page : Nat) : Except Stop PageAllocator :=
  match p.modelStates m with
  | none => .error .check
  | some st =>
      let g := st.dpGroupPages d
      .ok ((p.setGroup m st d
          { g with allocatedVirtPageList := g.allocatedVirtPageList.insert page }).setHeld
        m d ((p.blockManagerPages m d).insert page))

/-- How many of the freed pages stay mapped: the `size_t` difference
`max_reserved_pages_ - reserved_virt_page_list.size()`. -/
def numToReserve (g : DpGroupPages) : Nat :=
  if g.reservedVirtPageList.length ≤ maxReservedPages then
    maxReservedPages - g.reservedVirtPageList.length
  else 2 ^ 64 + maxReservedPages - g.reservedVirtPageList.length

def freeKvCachePages (p : PageAllocator) (m : String) (d : Nat) (pages : List Nat) :
    Except Stop PageAllocator :=
  match p.modelStates m with
  | none => .error .check
  | some st =>
      if p.dpSize ≤ d then .error .check
      else
        let g := st.dpGroupPages d
        let kept := if st.isSleeping then 0 else min (numToReserve g) pages.length
        let q := p.setGroup m st d
          { g with
            numFreeVirtPages := g.numFreeVirtPages + pages.length
            reservedVirtPageList := g.reservedVirtPageList ++ pages.take kept
            allocatedVirtPageList := g.allocatedVirtPageList.diff pages }
        if pages.drop kept = [] then .ok q
        else .ok (q.addCall (.unmap m d (pages.drop kept)))

/-- `free_blocks` of the block manager. It finds the pages of the freed blocks
that it holds and that became empty, forgets them and frees them. -/
def freeBlocks (p : PageAllocator) (m : String) (d : Nat) (ids : List Nat) :
    Except Stop PageAllocator :=
  let pages := ids.dedup.filter fun page => page ∈ p.blockManagerPages m d
  (p.setHeld m d ((p.blockManagerPages m d).diff pages)).freeKvCachePages m d pages

def trimKvCache (p : PageAllocator) (m : String) (d : Nat) : Except Stop PageAllocator :=
  match p.modelStates m with
  | none => .error .check
  | some st =>
      if p.dpSize ≤ d then .error .check
      else
        let g := st.dpGroupPages d
        if g.reservedVirtPageList = [] then .ok p
        else
          .ok ((p.setGroup m st d { g with reservedVirtPageList := [] }).addCall
            (.unmap m d g.reservedVirtPageList))

/-- The second section of `free_kv_cache_pages` and of `trim_kv_cache`. -/
def pagesUnmapped (p : PageAllocator) (m : String) (d : Nat) (pages : List Nat) (success : Bool) :
    Except Stop PageAllocator :=
  match p.modelStates m with
  | none => .error .check
  | some st =>
      let g := st.dpGroupPages d
      if success then
        .ok (((p.releasePhyPagesForDp st d (pages.length * st.phyPagesPerVirtPage)).setGroup m st d
          { g with freeVirtPageList := g.freeVirtPageList ++ pages }).unmapVirtPages m d pages)
      else
        .ok (p.setGroup m st d
          { g with reservedVirtPageList := g.reservedVirtPageList ++ pages })

def allocWeightPages (p : PageAllocator) (m : String) (n : Nat) : Except Stop PageAllocator :=
  match p.modelStates m with
  | none => .error .check
  | some st =>
      if p.minFreePages (p.inWorld st) < n then .ok p
      else
        .ok (((p.consumePhyPages fun w => if p.inWorld st w then n else 0).setModel m
          { st with weightPagesAllocated := n }).addCall (.weightAlloc m n))

/-- The section of `free_weight_pages`, after the broadcast. -/
def freeWeightPages (p : PageAllocator) (m : String) (n : Nat) (success : Bool) :
    Except Stop PageAllocator :=
  if success then
    match p.modelStates m with
    | none => .error .check
    | some st => .ok ((p.releasePhyPages (p.inWorld st) n).setWeights m 0)
  else .ok p

/-- The mapped pages of each group that has some. -/
def collectPages (p : PageAllocator) (st : ModelState) : List (Nat × List Nat) :=
  ((List.range p.dpSize).map fun d =>
    (d, (st.dpGroupPages d).reservedVirtPageList ++
      (st.dpGroupPages d).allocatedVirtPageList)).filter fun group => group.2 ≠ []

/-- `sleep_model` once no map operation is pending. It does not look at
`is_sleeping` again. -/
def fallAsleep (p : PageAllocator) (m : String) (st : ModelState) (skipWeightRelease : Bool) :
    PageAllocator :=
  let groups := p.collectPages st
  let q := p.setModel m { st with isSleeping := true }
  if skipWeightRelease = false ∧ 0 < st.weightPagesAllocated then
    q.addCall (.sleepWeights m st.weightPagesAllocated groups)
  else q.addCall (.sleepUnmap m groups)

/-- The first section of `sleep_model`, up to its wait. -/
def sleepModel (p : PageAllocator) (m : String) (skipWeightRelease : Bool) : PageAllocator :=
  match p.modelStates m with
  | none => p
  | some st =>
      if st.isSleeping then p
      else if 0 < st.pendingMapOps then p.addCall (.sleepWait m skipWeightRelease)
      else p.fallAsleep m st skipWeightRelease

/-- `sleep_model` looks again at the pending map operations. -/
def sleepWaited (p : PageAllocator) (m : String) (skipWeightRelease : Bool) :
    Except Stop PageAllocator :=
  match p.modelStates m with
  | none => .error .check
  | some st =>
      if 0 < st.pendingMapOps then .ok (p.addCall (.sleepWait m skipWeightRelease))
      else .ok (p.fallAsleep m st skipWeightRelease)

def sleepFreedWeights (p : PageAllocator) (m : String) (n : Nat) (groups : List (Nat × List Nat))
    (success : Bool) : Except Stop PageAllocator :=
  if success then do
    let q ← p.freeWeightPages m n true
    .ok (q.addCall (.sleepUnmap m groups))
  else .ok p

def releaseGroup (m : String) (st : ModelState) (p : PageAllocator) (group : Nat × List Nat) :
    PageAllocator :=
  (p.releasePhyPagesForDp st group.1 (group.2.length * st.phyPagesPerVirtPage)).unmapVirtPages
    m group.1 group.2

/-- The last section of `sleep_model`. The groups whose broadcast failed are
listed by their position. -/
def sleepUnmapped (p : PageAllocator) (m : String) (groups : List (Nat × List Nat))
    (failed : List Nat) : Except Stop PageAllocator :=
  match p.modelStates m with
  | none => .error .check
  | some st =>
      .ok ((groups.zipIdx.filter fun group => group.2 ∉ failed).foldl
        (fun q group => releaseGroup m st q group.1) p)

/-- `pages_to_consume_per_worker` of `wakeup_model`. -/
def pagesToConsume (p : PageAllocator) (st : ModelState) (groups : List (Nat × List Nat))
    (w : Nat) : Nat :=
  (groups.map fun group =>
      if p.inDpGroup st group.1 w then group.2.length * st.phyPagesPerVirtPage else 0).sum +
    if p.inWorld st w then st.weightPagesAllocated else 0

/-- The first section of `wakeup_model`. -/
def wakeupModel (p : PageAllocator) (m : String) : PageAllocator :=
  match p.modelStates m with
  | none => p
  | some st =>
      if st.isSleeping = false then p
      else
        let groups := p.collectPages st
        if (List.range p.maxWorldSize).all fun w =>
            p.pagesToConsume st groups w ≤ p.numTotalPhyPages - p.workerPagesUsed w then
          (p.consumePhyPages fun w =>
              if w < p.maxWorldSize then p.pagesToConsume st groups w else 0).addCall
            (.wakeMap m st.weightPagesAllocated groups)
        else p

/-- The last section of `wakeup_model`. Broadcast `i` maps group `i`; the broadcast
after those of the groups allocates the weight pages. Nothing is undone when one
of them fails. -/
def wakeupMapped (p : PageAllocator) (m : String) (n : Nat) (groups : List (Nat × List Nat))
    (failed : List Nat) : Except Stop PageAllocator :=
  match p.modelStates m with
  | none => .error .check
  | some st =>
      let mappedGroups := groups.zipIdx.takeWhile fun group => group.2 ∉ failed
      let q := mappedGroups.foldl (fun q group => q.mapVirtPages m group.1.1 group.1.2) p
      if mappedGroups.length < groups.length then .ok q
      else if n = 0 then .ok (q.setModel m { st with isSleeping := false })
      else if groups.length ∈ failed then .ok q
      else .ok ((q.setWeights m n).setModel m { st with isSleeping := false })

/-- What `prealloc_worker` takes from one group of a model that is awake. -/
def reserveGroup (m : String) (p : PageAllocator) (d : Nat) : PageAllocator :=
  match p.modelStates m with
  | none => p
  | some st =>
      let g := st.dpGroupPages d
      let missing := minReservedPages - g.reservedVirtPageList.length
      let toReserve := min (min missing g.freeVirtPageList.length)
        (p.minFreePages (p.inDpGroup st d) / st.phyPagesPerVirtPage)
      if toReserve = 0 then p
      else
        ((p.consumePhyPagesForDp st d (toReserve * st.phyPagesPerVirtPage)).setGroup m st d
            { g with freeVirtPageList := g.freeVirtPageList.drop toReserve }).addReservation
          ⟨m, d, g.freeVirtPageList.take toReserve⟩

def reserveModel (p : PageAllocator) (m : String) : PageAllocator :=
  match p.modelStates m with
  | none => p
  | some st => if st.isSleeping then p else (List.range p.dpSize).foldl (reserveGroup m) p

/-- The first section of a round of `prealloc_worker`. The models are visited in
the order in which the hash map lists them. -/
def preallocScan (p : PageAllocator) (order : List String) : Except Stop PageAllocator :=
  if p.preallocMapping = none ∧ p.preallocTodo = [] ∧ order.Perm p.modelIds then
    .ok (order.foldl reserveModel p)
  else .error .idle

def cancelReservation (p : PageAllocator) (st : ModelState) (r : Reservation) : PageAllocator :=
  let g := st.dpGroupPages r.dpRank
  (p.releasePhyPagesForDp st r.dpRank (r.pages.length * st.phyPagesPerVirtPage)).setGroup
    r.modelId st r.dpRank { g with freeVirtPageList := r.pages ++ g.freeVirtPageList }

/-- The section of `prealloc_worker` before it maps a reservation. -/
def preallocNext (p : PageAllocator) : Except Stop PageAllocator :=
  match p.preallocMapping, p.preallocTodo with
  | none, r :: todo =>
      let p := { p with preallocTodo := todo }
      match p.modelStates r.modelId with
      | none => .ok p
      | some st =>
          if st.isSleeping then .ok (p.cancelReservation st r)
          else
            .ok { p.setModel r.modelId { st with pendingMapOps := st.pendingMapOps + 1 } with
              preallocMapping := some r }
  | _, _ => .error .idle

/-- The section of `prealloc_worker` after the mapping. -/
def preallocMapped (p : PageAllocator) (success : Bool) : Except Stop PageAllocator :=
  match p.preallocMapping with
  | none => .error .idle
  | some r =>
      let p := { p with preallocMapping := none }
      match p.modelStates r.modelId with
      | none => .ok p
      | some st =>
          let g := st.dpGroupPages r.dpRank
          let st := { st with pendingMapOps := st.pendingMapOps - 1 }
          if success = false then .ok ((p.setModel r.modelId st).cancelReservation st r)
          else
            let p := p.mapVirtPages r.modelId r.dpRank r.pages
            if st.isSleeping = false then
              .ok (p.setGroup r.modelId st r.dpRank
                { g with reservedVirtPageList := g.reservedVirtPageList ++ r.pages })
            else
              .ok { (p.releasePhyPagesForDp st r.dpRank
                  (r.pages.length * st.phyPagesPerVirtPage)).setModel r.modelId st with
                sleptAfterMapping := true }

/-- A call whose broadcasts are done goes on with its next section. -/
def resume (p : PageAllocator) (failed : List Nat) : Call → Except Stop PageAllocator
  | .allocMap m d page => p.allocMapped m d page (failed = [])
  | .allocRecord m d page => p.allocRecorded m d page
  | .unmap m d pages => p.pagesUnmapped m d pages (failed = [])
  | .sleepWait m skip => p.sleepWaited m skip
  | .sleepWeights m n groups => p.sleepFreedWeights m n groups (failed = [])
  | .sleepUnmap m groups => p.sleepUnmapped m groups failed
  | .wakeMap m n groups => p.wakeupMapped m n groups failed
  | .weightAlloc m n => .ok (if failed = [] then p.setWeights m n else p)

inductive Op where
  | registerModel (modelId : String) (numLayers : Nat)
  | setModelParallelStrategy (modelId : String) (dpSize tpSize : Nat)
  | setWeightPagesCount (modelId : String) (numPages : Nat)
  | allocKvCachePage (modelId : String) (dpRank : Nat)
  | freeBlocks (modelId : String) (dpRank : Nat) (pages : List Nat)
  | trimKvCache (modelId : String) (dpRank : Nat)
  | allocWeightPages (modelId : String) (numPages : Nat)
  | freeWeightPages (modelId : String) (numPages : Nat) (success : Bool)
  | sleepModel (modelId : String) (skipWeightRelease : Bool)
  | wakeupModel (modelId : String)
  /-- The call at a position goes on; the failed broadcasts are listed. -/
  | resume (position : Nat) (failed : List Nat)
  | preallocScan (order : List String)
  | preallocNext
  | preallocMapped (success : Bool)

def step (p : PageAllocator) : Op → Except Stop PageAllocator
  | .registerModel m numLayers => p.registerModel m numLayers
  | .setModelParallelStrategy m dpSize tpSize => .ok (p.setModelParallelStrategy m dpSize tpSize)
  | .setWeightPagesCount m n => p.setWeightPagesCount m n
  | .allocKvCachePage m d => p.allocKvCachePage m d
  | .freeBlocks m d pages => p.freeBlocks m d pages
  | .trimKvCache m d => p.trimKvCache m d
  | .allocWeightPages m n => p.allocWeightPages m n
  | .freeWeightPages m n success => p.freeWeightPages m n success
  | .sleepModel m skip => .ok (p.sleepModel m skip)
  | .wakeupModel m => .ok (p.wakeupModel m)
  | .resume i failed =>
      match p.calls[i]? with
      | none => .error .idle
      | some c => { p with calls := p.calls.eraseIdx i }.resume failed c
  | .preallocScan order => p.preallocScan order
  | .preallocNext => p.preallocNext
  | .preallocMapped success => p.preallocMapped success

end PageAllocator

end Xllm
