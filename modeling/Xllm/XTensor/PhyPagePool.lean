import Xllm.Lib.Contract
import Mathlib.Logic.Function.Basic

/-!
# The pool of physical pages

The pool creates its pages once and keeps two representations of which are free: the deque
`free_page_ids_` and the bitmap `page_allocated_`. Single pages for the cache are popped
from the left and given away with their ownership. Pages for weights are searched from the
right; they stay in the pool, and only their ids are given away.

The allocator of weights takes pages outside of its own lock and records them for the model
under it. One call is therefore cut into the sections between which other threads may run.
Page ids are signed.
-/

namespace Xllm.PagePool

open Contract

/-- The failed checks that stop the process. `vmm` is one of the driver wrappers. -/
inductive Abort
  | notInitialized
  | deviceMismatch
  | invalidPageId
  | vmm

structure PhyPage where
  device : Nat
  pageId : Int

structure PhyPagePool where
  initialized : Bool := false
  device : Nat := 0
  numTotalPages : Nat := 0
  /-- From the front to the back of the deque. -/
  freePageIds : List Int := []
  pageAllocated : Int → Bool := fun _ => false
  /-- The pages that the pool owns. -/
  allPages : Int → Option PhyPage := fun _ => none

def pageRange (start : Int) (count : Nat) : List Int :=
  (List.range count).map fun i : Nat => start + i

namespace PhyPagePool

def init (p : PhyPagePool) (device : Nat) (numPages : Nat) : PhyPagePool :=
  if p.initialized then p
  else
    { p with
      device := device
      numTotalPages := numPages
      allPages := fun i => if 0 ≤ i ∧ i < numPages then some ⟨device, i⟩ else p.allPages i
      freePageIds := p.freePageIds ++ pageRange 0 numPages
      initialized := true }

def popFront (p : PhyPagePool) (pageId : Int) (rest : List Int) : PhyPagePool :=
  { p with
    freePageIds := rest
    pageAllocated := Function.update p.pageAllocated pageId true
    allPages := Function.update p.allPages pageId none }

def get (p : PhyPagePool) : Except Abort (Option PhyPage × PhyPagePool) :=
  if !p.initialized then .error .notInitialized
  else
    match p.freePageIds with
    | [] => .ok (none, p)
    | pageId :: rest => .ok (p.allPages pageId, p.popFront pageId rest)

/-- The loop of `batchGet`. The caller has checked that the deque is long enough. -/
def popPages : Nat → PhyPagePool → List (Option PhyPage) × PhyPagePool
  | 0, p => ([], p)
  | count + 1, p =>
      match p.freePageIds with
      | [] => ([], p)
      | pageId :: rest =>
          let (pages, p') := popPages count (p.popFront pageId rest)
          (p.allPages pageId :: pages, p')

def batchGet (p : PhyPagePool) (count : Nat) :
    Except Abort (List (Option PhyPage) × PhyPagePool) :=
  if !p.initialized then .error .notInitialized
  else if count = 0 then .ok ([], p)
  else if p.freePageIds.length < count then .ok ([], p)
  else .ok (popPages count p)

/-- The id is an index of the pool. -/
def InRange (p : PhyPagePool) (i : Int) : Prop := 0 ≤ i ∧ i < p.numTotalPages

instance (p : PhyPagePool) (i : Int) : Decidable (p.InRange i) :=
  inferInstanceAs (Decidable (0 ≤ i ∧ i < (p.numTotalPages : Int)))

def putPage (p : PhyPagePool) (page : PhyPage) : Except Abort PhyPagePool :=
  if page.device ≠ p.device then .error .deviceMismatch
  else if ¬ p.InRange page.pageId then .error .invalidPageId
  else
    .ok { p with
      allPages := Function.update p.allPages page.pageId (some page)
      pageAllocated := Function.update p.pageAllocated page.pageId false
      freePageIds := page.pageId :: p.freePageIds }

def put (p : PhyPagePool) : Option PhyPage → Except Abort PhyPagePool
  | none => .ok p
  | some page => if !p.initialized then .error .notInitialized else p.putPage page

/-- The loop of `batchPut`, which skips the null pages. -/
def putPages (p : PhyPagePool) (pages : List (Option PhyPage)) : Except Abort PhyPagePool :=
  pages.foldlM (fun p page => match page with
    | none => .ok p
    | some page => p.putPage page) p

def batchPut (p : PhyPagePool) (pages : List (Option PhyPage)) : Except Abort PhyPagePool :=
  if pages.isEmpty then .ok p
  else if !p.initialized then .error .notInitialized
  else p.putPages pages

/-- The scan of `allocateContiguousFromRight` over the indices below the first argument; the
second one is the length of the current run. -/
def scanFromRight (p : PhyPagePool) (count : Nat) : Nat → Nat → Int
  | 0, _ => -1
  | i + 1, run =>
      if p.pageAllocated i then p.scanFromRight count i 0
      else if run + 1 = count then i
      else p.scanFromRight count i (run + 1)

def allocateContiguousFromRight (p : PhyPagePool) (count : Nat) :
    Except Abort (Int × PhyPagePool) :=
  if !p.initialized then .error .notInitialized
  else if count = 0 ∨ p.freePageIds.length < count then .ok (-1, p)
  else
    let startPage := p.scanFromRight count p.numTotalPages 0
    if startPage < 0 then .ok (-1, p)
    else
      let endPage := startPage + count
      .ok (startPage, { p with
        pageAllocated := fun i => decide (startPage ≤ i ∧ i < endPage) || p.pageAllocated i
        freePageIds := p.freePageIds.filter fun i => ¬ (startPage ≤ i ∧ i < endPage) })

/-- The scan of `allocatePagesFromRight` over the indices below the first argument. -/
def collectFromRight (p : PhyPagePool) (count : Nat) : Nat → List Int → List Int
  | 0, result => result
  | i + 1, result =>
      if result.length < count then
        if p.pageAllocated i then p.collectFromRight count i result
        else p.collectFromRight count i (result ++ [(i : Int)])
      else result

def allocatePagesFromRight (p : PhyPagePool) (count : Nat) :
    Except Abort (List Int × PhyPagePool) :=
  if !p.initialized then .error .notInitialized
  else if count = 0 ∨ p.freePageIds.length < count then .ok ([], p)
  else
    let result := p.collectFromRight count p.numTotalPages []
    if result.length < count then .ok ([], p)
    else
      .ok (result, { p with
        pageAllocated := fun i => decide (i ∈ result) || p.pageAllocated i
        freePageIds := p.freePageIds.filter fun i => i ∉ result })

def freeWeightPage (p : PhyPagePool) (pageId : Int) : Except Abort PhyPagePool :=
  if ¬ p.InRange pageId then .error .invalidPageId
  else if !p.pageAllocated pageId then .ok p
  else
    .ok { p with
      pageAllocated := Function.update p.pageAllocated pageId false
      freePageIds := p.freePageIds ++ [pageId] }

def freeWeightPages (p : PhyPagePool) (pageIds : List Int) : Except Abort PhyPagePool :=
  if pageIds.isEmpty then .ok p
  else if !p.initialized then .error .notInitialized
  else pageIds.foldlM freeWeightPage p

end PhyPagePool

/-- What the driver answers when an address range is reserved and its pages are mapped: the
first return code that is not zero, and the address. -/
structure VmmAnswer where
  ret : Int
  address : Nat

/-- A driver that reports success has reserved addresses. -/
def VmmAnswer.Documented (a : VmmAnswer) : Prop := a.ret = 0 → a.address ≠ 0

instance (a : VmmAnswer) : Decidable a.Documented :=
  inferInstanceAs (Decidable (a.ret = 0 → a.address ≠ 0))

structure XTensor where
  vaddr : Nat
  preallocatedPageIds : List Int

/-- All pages of the pool have an address for ever, so only the ids can be wrong. -/
def PhyPagePool.mapWithPageIds (p : PhyPagePool) (pageIds : List Int) : Except Abort Bool :=
  if !p.initialized then .error .notInitialized
  else .ok (pageIds.all fun i => decide (p.InRange i))

namespace XTensor

def create (p : PhyPagePool) (pageIds : List Int) (answer : VmmAnswer) :
    Except Abort XTensor :=
  if pageIds.isEmpty then .ok ⟨0, pageIds⟩
  else if answer.ret ≠ 0 then .error .vmm
  else do
    if ← p.mapWithPageIds pageIds then .ok ⟨answer.address, pageIds⟩
    else .ok ⟨0, pageIds⟩

def reset (xtensor : Option XTensor) (p : PhyPagePool) : Except Abort PhyPagePool :=
  match xtensor with
  | none => .ok p
  | some x => p.freeWeightPages x.preallocatedPageIds

end XTensor

/-- What the allocator records of the weights of a model. -/
structure ModelTensors where
  weightStartPageId : Int := -1
  weightNumPages : Nat := 0
  usingWeightXtensor : Bool := false
  weightXtensor : Option XTensor := none
  /-- Offset and size, in bytes. -/
  weightSegments : List (Nat × Nat) := []

def mergeAdjacent (pageSize : Nat) (previous : Int) (segOffset segSize : Nat) :
    List Int → List (Nat × Nat)
  | [] => [(segOffset, segSize)]
  | i :: rest =>
      if i = previous + 1 then mergeAdjacent pageSize i segOffset (segSize + pageSize) rest
      else (segOffset, segSize) :: mergeAdjacent pageSize i (i.toNat * pageSize) pageSize rest

def fallbackSegments (pageSize : Nat) (pageIds : List Int) : List (Nat × Nat) :=
  match pageIds.mergeSort (fun i j => i ≤ j) with
  | [] => []
  | i :: rest => mergeAdjacent pageSize i (i.toNat * pageSize) pageSize rest

/-- Where one call of `broadcast_alloc_weight_pages` stands. -/
inductive Task
  | idle
  /-- There was no contiguous run. -/
  | contiguousFailed (modelId : String) (numPages : Nat)
  /-- Before `record_weight_allocation`. -/
  | contiguousTaken (modelId : String) (startPage : Int) (numPages : Nat)
  /-- Before `record_weight_fallback_allocation`. -/
  | fallbackTaken (modelId : String) (pageIds : List Int)
  /-- The tensor has no address; before the pages are freed. -/
  | fallbackFailed (modelId : String) (pageIds : List Int)
  /-- Before the tensor without an address is destroyed. -/
  | fallbackFreed (modelId : String) (pageIds : List Int)
  /-- The fallback has failed after it had taken these pages. -/
  | failed (took : List Int)

/-- The pool, the pages that were handed out with their ownership, the allocating threads and
the records of the models. -/
structure World where
  pageSize : Nat
  pool : PhyPagePool
  handed : List PhyPage := []
  threads : Nat → Task := fun _ => .idle
  models : String → ModelTensors := fun _ => {}

inductive Op
  | init (device numPages : Nat)
  | get
  | batchGet (count : Nat)
  /-- The page with this id goes back, if the callers have it. -/
  | put (pageId : Int)
  | batchPut (pageIds : List Int)
  | broadcastAllocWeightPages (thread : Nat) (modelId : String) (numPages : Nat)
  /-- The next section of the call of a thread. -/
  | advance (thread : Nat) (answer : VmmAnswer)
  | freeWeight (modelId : String)

/-- The driver behaves as documented where the operation asks it. -/
def Op.Documented : Op → Prop
  | .advance _ answer => answer.Documented
  | _ => True

instance : DecidablePred Op.Documented := fun op => by
  cases op <;> unfold Op.Documented <;> infer_instance

namespace World

def start (pageSize device numPages : Nat) : World where
  pageSize := pageSize
  pool := PhyPagePool.init {} device numPages

def setTask (w : World) (t : Nat) (task : Task) : World :=
  { w with threads := Function.update w.threads t task }

def setModel (w : World) (modelId : String) (tensors : ModelTensors) : World :=
  { w with models := Function.update w.models modelId tensors }

/-- A caller gives the page with this id away. A pointer that nobody has is null. -/
def release (w : World) (pageId : Int) : Option PhyPage × World :=
  (w.handed.find? (·.pageId == pageId),
    { w with handed := w.handed.filter (·.pageId != pageId) })

def releaseAll (w : World) : List Int → List (Option PhyPage) × World
  | [] => ([], w)
  | pageId :: rest =>
      let (page, w') := w.release pageId
      let (pages, w'') := w'.releaseAll rest
      (page :: pages, w'')

/-- The first section: a contiguous run is tried. -/
def broadcastAllocWeightPages (w : World) (t : Nat) (modelId : String) (numPages : Nat) :
    Except Abort World := do
  let (startPage, pool) ← w.pool.allocateContiguousFromRight numPages
  let w := { w with pool }
  if 0 ≤ startPage then .ok (w.setTask t (.contiguousTaken modelId startPage numPages))
  else .ok (w.setTask t (.contiguousFailed modelId numPages))

/-- The second section: single pages are tried. -/
def tryFallback (w : World) (t : Nat) (modelId : String) (numPages : Nat) :
    Except Abort World := do
  let (pageIds, pool) ← w.pool.allocatePagesFromRight numPages
  let w := { w with pool }
  if pageIds.isEmpty then .ok (w.setTask t (.failed []))
  else .ok (w.setTask t (.fallbackTaken modelId pageIds))

def recordWeightAllocation (w : World) (modelId : String) (startPageId : Int)
    (numPages : Nat) : Except Abort World := do
  let pool ← XTensor.reset (w.models modelId).weightXtensor w.pool
  .ok ({ w with pool }.setModel modelId
    { weightStartPageId := startPageId
      weightNumPages := numPages
      usingWeightXtensor := false
      weightXtensor := none
      weightSegments := [(startPageId.toNat * w.pageSize, numPages * w.pageSize)] })

/-- The assignment of the new tensor destroys the one that was there. -/
def recordWeightFallbackAllocation (w : World) (t : Nat) (modelId : String)
    (pageIds : List Int) (answer : VmmAnswer) : Except Abort World := do
  let xtensor ← XTensor.create w.pool pageIds answer
  let tensors := w.models modelId
  let pool ← XTensor.reset tensors.weightXtensor w.pool
  let w := { w with pool }
  if xtensor.vaddr = 0 then
    .ok ((w.setModel modelId { tensors with weightXtensor := some xtensor }).setTask t
      (.fallbackFailed modelId pageIds))
  else
    .ok ((w.setModel modelId
      { weightStartPageId := -1
        weightNumPages := pageIds.length
        usingWeightXtensor := true
        weightXtensor := some xtensor
        weightSegments := fallbackSegments w.pageSize pageIds }).setTask t .idle)

def advance (w : World) (t : Nat) (answer : VmmAnswer) : Except Abort World :=
  match w.threads t with
  | .idle => .ok w
  | .contiguousFailed modelId numPages => w.tryFallback t modelId numPages
  | .contiguousTaken modelId startPage numPages => do
      let w ← w.recordWeightAllocation modelId startPage numPages
      .ok (w.setTask t .idle)
  | .fallbackTaken modelId pageIds =>
      w.recordWeightFallbackAllocation t modelId pageIds answer
  | .fallbackFailed modelId pageIds => do
      let pool ← w.pool.freeWeightPages pageIds
      .ok ({ w with pool }.setTask t (.fallbackFreed modelId pageIds))
  | .fallbackFreed modelId pageIds => do
      let tensors := w.models modelId
      let pool ← XTensor.reset tensors.weightXtensor w.pool
      .ok (({ w with pool }.setModel modelId { tensors with weightXtensor := none }).setTask t
        (.failed pageIds))
  | .failed _ => .ok w

def freeWeight (w : World) (modelId : String) : Except Abort World := do
  let tensors := w.models modelId
  if tensors.weightNumPages = 0 then .ok w
  else
    let (pool, tensors) ← if tensors.usingWeightXtensor && tensors.weightXtensor.isSome then do
        let pool ← XTensor.reset tensors.weightXtensor w.pool
        pure (pool, { tensors with weightXtensor := none, usingWeightXtensor := false })
      else do
        let pool ← w.pool.freeWeightPages
          (pageRange tensors.weightStartPageId tensors.weightNumPages)
        pure (pool, tensors)
    .ok ({ w with pool }.setModel modelId
      { tensors with weightStartPageId := -1, weightNumPages := 0, weightSegments := [] })

/-- One call, or one section of a call that is cut into several. A thread starts a call when
its last one has ended. -/
def step (w : World) : Op → Except Abort World
  | .init device numPages => .ok { w with pool := w.pool.init device numPages }
  | .get => do
      let (page, pool) ← w.pool.get
      .ok { w with pool, handed := w.handed ++ page.toList }
  | .batchGet count => do
      let (pages, pool) ← w.pool.batchGet count
      .ok { w with pool, handed := w.handed ++ pages.reduceOption }
  | .put pageId => do
      let (page, w) := w.release pageId
      let pool ← w.pool.put page
      .ok { w with pool }
  | .batchPut pageIds => do
      let (pages, w) := w.releaseAll pageIds
      let pool ← w.pool.batchPut pages
      .ok { w with pool }
  | .broadcastAllocWeightPages t modelId numPages =>
      match w.threads t with
      | .idle => w.broadcastAllocWeightPages t modelId numPages
      | .failed _ => w.broadcastAllocWeightPages t modelId numPages
      | _ => .ok w
  | .advance t answer => w.advance t answer
  | .freeWeight modelId => w.freeWeight modelId

def run (w : World) (ops : List Op) : Except Abort World := Contract.run step w ops

end World

end Xllm.PagePool
