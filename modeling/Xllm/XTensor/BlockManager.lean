import Xllm.Lib.Contract
import Xllm.Lib.Keyed

/-!
# Blocks on virtual pages

`XTensorBlockManagerImpl` cuts the virtual pages that it gets from `PageAllocator` into blocks.
A page with free blocks stands in `avail_pages_`, one without in `full_pages_`; a page whose
blocks are all free goes back. `try_to_reserve` takes blocks out of their pages and keeps them
in `reserved_blocks_`.

What `PageAllocator` answers is an input of each operation, and so is the order in which
`avail_pages_` is traversed. Page ids, block ids and byte counts are natural numbers. The
handles that are alive, the blocks that an exception lost and the pages that came and went are
ghosts.
-/

namespace Xllm.XTensorBlocks

open Contract List

structure Geometry where
  pageSize : Nat
  blockMemSize : Nat
  pageSize_pos : 0 < pageSize := by decide
  blockMemSize_pos : 0 < blockMemSize := by decide

namespace Geometry

variable (g : Geometry)

/-- The first block of `VirtPage::get_block_range`. -/
def startBlock (pageId : Nat) : Nat :=
  (pageId * g.pageSize + g.blockMemSize - 1) / g.blockMemSize

/-- The end of `VirtPage::get_block_range`. -/
def endBlock (pageId : Nat) : Nat :=
  (pageId + 1) * g.pageSize / g.blockMemSize

def blocks (pageId : Nat) : List Nat :=
  List.range' (g.startBlock pageId) (g.endBlock pageId - g.startBlock pageId)

def getNumBlocks : Nat :=
  g.pageSize / g.blockMemSize

def getVirtPageId (blockId : Nat) : Nat :=
  blockId * g.blockMemSize / g.pageSize

end Geometry

structure VirtPage where
  pageId : Nat
  numKvBlocks : Nat
  freeList : List Nat
  deriving DecidableEq

/-- `VirtPage::init`. A range that ends before it starts has no size that can be reserved. -/
def VirtPage.init (g : Geometry) (pageId : Nat) : Option VirtPage :=
  if g.endBlock pageId < g.startBlock pageId then none
  else some {
    pageId
    numKvBlocks := g.endBlock pageId - g.startBlock pageId
    freeList := g.blocks pageId }

def VirtPage.alloc (p : VirtPage) (numBlocks : Nat) : Option (List Nat × VirtPage) :=
  if p.freeList = [] then none
  else
    let actualAlloc := min numBlocks p.freeList.length
    some (p.freeList.take actualAlloc, { p with freeList := p.freeList.drop actualAlloc })

def VirtPage.freeBatch (p : VirtPage) (blockIds : List Nat) : VirtPage :=
  { p with freeList := p.freeList ++ blockIds }

/-- `XTensorBlockManagerImpl`, with its ghosts. -/
structure Manager where
  numAvailBlocks : Int := 0
  availPages : List VirtPage := []
  fullPages : List VirtPage := []
  reservedBlocks : List Nat := []
  handedOut : List Nat := []
  lost : List Nat := []
  obtained : List Nat := []
  returned : List Nat := []
  lostPages : List Nat := []

/-- What `alloc_kv_cache_page` does: a page, a null pointer, or `No free ... pages left`. -/
inductive PageAnswer where
  | page (pageId : Nat)
  | null
  | throws

/-- What does not happen: `PageAllocator` gives out a page that is in use or gives no answer, a
handle is dropped that nobody has, the order of a map has other entries, a loop does not end. -/
inductive NotARun where
  | pageInUse
  | noAnswer
  | noHandle
  | notAnOrder
  | outOfFuel

inductive Thrown where
  | noFreePages
  | virtPage

/-- How `alloc_internal` ends; an exception loses the blocks in `ret_index`. -/
inductive Outcome where
  | ids (retIndex : List Nat)
  | thrown (exception : Thrown) (retIndex : List Nat)

def Outcome.taken : Outcome → List Nat
  | .ids retIndex => retIndex
  | .thrown _ retIndex => retIndex

namespace Manager

variable (g : Geometry)

def pages (m : Manager) : List VirtPage :=
  m.availPages ++ m.fullPages

def addPage (m : Manager) (p : VirtPage) : Manager :=
  { m with
    numAvailBlocks := m.numAvailBlocks + p.freeList.length
    availPages := m.availPages ++ [p]
    obtained := p.pageId :: m.obtained }

def takeBlocks (m : Manager) (p : VirtPage) (rest : List VirtPage) (remainingNeed : Nat) :
    Option (List Nat × Manager) :=
  (p.alloc (min p.freeList.length remainingNeed)).map fun (allocated, p) =>
    let m := if p.freeList = [] then
        { m with availPages := rest, fullPages := m.fullPages ++ [p] }
      else { m with availPages := p :: rest }
    (allocated, { m with numAvailBlocks := m.numAvailBlocks - allocated.length })

/-- The `while` loop of `alloc_internal`. Every iteration takes a block or ends the loop. -/
def allocLoop : Nat → Manager → Nat → List Nat → List PageAnswer →
    Except NotARun (Outcome × Manager)
  | _, m, 0, retIndex, _ => .ok (.ids retIndex, m)
  | 0, _, _ + 1, _, _ => .error .outOfFuel
  | fuel + 1, m, need + 1, retIndex, answers =>
      match m.availPages with
      | p :: rest =>
          match m.takeBlocks p rest (need + 1) with
          | none => .ok (.thrown .virtPage retIndex, m)
          | some (allocated, m) =>
              allocLoop fuel m (need + 1 - allocated.length) (retIndex ++ allocated) answers
      | [] =>
          match answers with
          | [] => .error .noAnswer
          | .null :: _ => .ok (.ids retIndex, m)
          | .throws :: _ => .ok (.thrown .noFreePages retIndex, m)
          | .page pageId :: answers =>
              if pageId ∈ m.pages.map VirtPage.pageId then .error .pageInUse
              else
                match VirtPage.init g pageId with
                | none => .ok (.thrown .virtPage retIndex,
                    { m with obtained := pageId :: m.obtained, lostPages := pageId :: m.lostPages })
                | some p =>
                    match (m.addPage p).takeBlocks p [] (need + 1) with
                    | none => .ok (.thrown .virtPage retIndex, m.addPage p)
                    | some (allocated, m) =>
                        allocLoop fuel m (need + 1 - allocated.length) (retIndex ++ allocated)
                          answers

/-- `alloc_internal`: reserved blocks first. -/
def allocInternal (m : Manager) (needSize : Nat) (answers : List PageAnswer) :
    Except NotARun (Outcome × Manager) :=
  let numFromReserved := min m.reservedBlocks.length needSize
  allocLoop g (needSize - numFromReserved)
    { m with reservedBlocks := m.reservedBlocks.drop numFromReserved }
    (needSize - numFromReserved) (m.reservedBlocks.take numFromReserved) answers

/-- The blocks become handles, unless an exception left the function. -/
def handOut (m : Manager) : Outcome → Manager
  | .ids retIndex => { m with handedOut := m.handedOut ++ retIndex }
  | .thrown _ retIndex => { m with lost := m.lost ++ retIndex }

def allocate (m : Manager) (numBlocks : Nat) (answers : List PageAnswer) :
    Except NotARun (Outcome × Manager) :=
  (m.allocInternal g numBlocks answers).map fun (outcome, m) => (outcome, m.handOut outcome)

/-- The blocks of one page in `free_blocks`. -/
def freeGroup (m : Manager) (pageId : Nat) (idxs : List Nat) : Manager :=
  match m.fullPages.find? (·.pageId == pageId) with
  | some page =>
      let page := page.freeBatch idxs
      let fullPages := m.fullPages.filter (·.pageId != pageId)
      if page.freeList.length = page.numKvBlocks then
        { m with
          numAvailBlocks := m.numAvailBlocks + idxs.length - page.freeList.length
          fullPages, returned := pageId :: m.returned }
      else
        { m with
          numAvailBlocks := m.numAvailBlocks + idxs.length
          availPages := m.availPages ++ [page], fullPages }
  | none =>
      match m.availPages.find? (·.pageId == pageId) with
      | some page =>
          let page := page.freeBatch idxs
          let availPages := m.availPages.filter (·.pageId != pageId)
          if page.freeList.length = page.numKvBlocks then
            { m with
              numAvailBlocks := m.numAvailBlocks + idxs.length - page.freeList.length
              availPages, returned := pageId :: m.returned }
          else
            { m with
              numAvailBlocks := m.numAvailBlocks + idxs.length
              availPages := availPages ++ [page] }
      | none => m

def freeBlocks (m : Manager) (indices : List Nat) : Manager :=
  (indices.map g.getVirtPageId).dedup.foldl
    (fun m pageId => m.freeGroup pageId (indices.filter (g.getVirtPageId · == pageId))) m

def drop (m : Manager) (blockId : Nat) : Except NotARun Manager :=
  if blockId ∈ m.handedOut then
    .ok ({ m with handedOut := m.handedOut.erase blockId }.freeBlocks g [blockId])
  else .error .noHandle

def availableSize (m : Manager) (reservedPages : Nat) : Int :=
  m.numAvailBlocks + m.reservedBlocks.length + reservedPages * g.getNumBlocks

inductive Reservation where
  | answer (reserved : Bool)
  | thrown

def tryToReserve (m : Manager) (needSize reservedPages : Nat) (answers : List PageAnswer) :
    Except NotARun (Reservation × Manager) :=
  if m.availableSize g reservedPages < needSize then .ok (.answer false, m)
  else
    (m.allocInternal g needSize answers).map fun (outcome, m) =>
      match outcome with
      | .thrown _ retIndex => (.thrown, { m with lost := m.lost ++ retIndex })
      | .ids [] => (.answer false, m)
      | .ids reserved => (.answer true, { m with reservedBlocks := m.reservedBlocks ++ reserved })

def freeReserved (m : Manager) : Manager :=
  { m with reservedBlocks := [] }.freeBlocks g m.reservedBlocks

def getNumAllocatedBlocks (m : Manager) : Int :=
  m.fullPages.length * g.getNumBlocks +
    (m.availPages.length * g.getNumBlocks - m.numAvailBlocks) + m.reservedBlocks.length

inductive Op where
  | allocate (numBlocks : Nat) (answers : List PageAnswer)
  | drop (blockId : Nat)
  | tryToReserve (needSize reservedPages : Nat) (answers : List PageAnswer)
  | freeReserved
  | trim
  | reorder (order : List VirtPage)

def step (m : Manager) : Op → Except NotARun Manager
  | .allocate numBlocks answers => (m.allocate g numBlocks answers).map Prod.snd
  | .drop blockId => m.drop g blockId
  | .tryToReserve needSize reservedPages answers =>
      (m.tryToReserve g needSize reservedPages answers).map Prod.snd
  | .freeReserved => .ok (m.freeReserved g)
  | .trim => .ok m
  | .reorder order =>
      if order.Perm m.availPages then .ok { m with availPages := order } else .error .notAnOrder

def Reachable (m : Manager) : Prop :=
  ∃ ops, run (step g) ({} : Manager) ops = .ok m

end Manager

namespace Geometry

variable {g : Geometry} {pageId blockId : Nat}

theorem mem_blocks : blockId ∈ g.blocks pageId ↔
    g.startBlock pageId ≤ blockId ∧ blockId < g.endBlock pageId := by
  rw [blocks, mem_range'_1]
  omega

theorem nodup_blocks : (g.blocks pageId).Nodup :=
  nodup_range'

@[simp] theorem length_blocks :
    (g.blocks pageId).length = g.endBlock pageId - g.startBlock pageId :=
  length_range'

theorem bytes_of_mem (h : blockId ∈ g.blocks pageId) :
    pageId * g.pageSize ≤ blockId * g.blockMemSize ∧
      (blockId + 1) * g.blockMemSize ≤ (pageId + 1) * g.pageSize := by
  obtain ⟨first, last⟩ := mem_blocks.mp h
  constructor
  · have scaled : g.blockMemSize * g.startBlock pageId ≤ g.blockMemSize * blockId :=
      Nat.mul_le_mul_left _ first
    have division := Nat.div_add_mod (pageId * g.pageSize + g.blockMemSize - 1) g.blockMemSize
    have below := Nat.mod_lt (pageId * g.pageSize + g.blockMemSize - 1) g.blockMemSize_pos
    rw [startBlock] at scaled
    rw [Nat.mul_comm blockId]
    omega
  · exact (Nat.le_div_iff_mul_le g.blockMemSize_pos).mp last

theorem getVirtPageId_of_mem (h : blockId ∈ g.blocks pageId) :
    g.getVirtPageId blockId = pageId := by
  obtain ⟨first, last⟩ := bytes_of_mem h
  have pos := g.blockMemSize_pos
  rw [Nat.succ_mul] at last
  apply Nat.div_eq_of_lt_le first
  omega

theorem length_blocks_le : (g.blocks pageId).length ≤ g.getNumBlocks := by
  rw [getNumBlocks, Nat.le_div_iff_mul_le g.blockMemSize_pos]
  by_cases none : g.blocks pageId = []
  · rw [none, length_nil, Nat.zero_mul]
    exact Nat.zero_le _
  · have size : 0 < (g.blocks pageId).length := List.length_pos_iff.mpr none
    rw [length_blocks] at size ⊢
    have first : g.startBlock pageId ∈ g.blocks pageId := mem_blocks.mpr ⟨Nat.le_refl _, by omega⟩
    have last : g.endBlock pageId - 1 ∈ g.blocks pageId :=
      mem_blocks.mpr ⟨by omega, by omega⟩
    have from_start := (bytes_of_mem first).1
    have to_end := (bytes_of_mem last).2
    have endpoint : g.endBlock pageId - 1 + 1 = g.endBlock pageId := by omega
    rw [endpoint, Nat.succ_mul] at to_end
    rw [Nat.sub_mul]
    omega

end Geometry

namespace Manager

variable {g : Geometry} {m : Manager} {out : List Nat}

def freeOf (m : Manager) : List Nat :=
  m.pages.flatMap VirtPage.freeList

def blocksOf (g : Geometry) (m : Manager) : List Nat :=
  m.pages.flatMap fun p => g.blocks p.pageId

structure PageSound (g : Geometry) (p : VirtPage) : Prop where
  size : p.numKvBlocks = (g.blocks p.pageId).length
  own : ∀ b ∈ p.freeList, b ∈ g.blocks p.pageId

/-- Every block of a page is free, reserved, handed out, lost or in `out`, the list of a
function that is running. A page that has blocks is not free as a whole. -/
structure Inv (g : Geometry) (m : Manager) (out : List Nat) : Prop where
  keys : (m.pages.map VirtPage.pageId).Nodup
  sound : ∀ p ∈ m.pages, PageSound g p
  partition : ∀ b, m.freeOf.count b + m.reservedBlocks.count b + m.handedOut.count b +
    m.lost.count b + out.count b = (m.blocksOf g).count b
  full : ∀ p ∈ m.fullPages, p.freeList = []
  numAvail : m.numAvailBlocks = (m.availPages.flatMap VirtPage.freeList).length
  occupied : ∀ p ∈ m.pages, p.numKvBlocks ≠ 0 → p.freeList.length < p.numKvBlocks
  flow : ∀ id, m.obtained.count id = m.returned.count id + m.lostPages.count id +
    (m.pages.map VirtPage.pageId).count id

theorem Inv.congr {out' : List Nat} (h : Inv g m out) (same : out.Perm out') :
    Inv g m out' := by
  refine ⟨h.keys, h.sound, ?_, h.full, h.numAvail, h.occupied, h.flow⟩
  intro b
  rw [← same.count_eq]
  exact h.partition b

theorem nodup_blocksOf (keys : (m.pages.map VirtPage.pageId).Nodup) : (m.blocksOf g).Nodup := by
  rw [blocksOf, nodup_flatMap]
  constructor
  · exact fun p _ => Geometry.nodup_blocks
  · rw [List.Nodup, pairwise_map] at keys
    refine keys.imp ?_
    intro p q hne b hp hq
    exact hne ((Geometry.getVirtPageId_of_mem hp).symm.trans (Geometry.getVirtPageId_of_mem hq))

theorem count_blocksOf_le (h : Inv g m out) (b : Nat) : (m.blocksOf g).count b ≤ 1 :=
  List.nodup_iff_count_le_one.mp (nodup_blocksOf h.keys) b

theorem mem_blocksOf {p : VirtPage} (hp : p ∈ m.pages) {b : Nat} (hb : b ∈ g.blocks p.pageId) :
    b ∈ m.blocksOf g :=
  List.mem_flatMap.mpr ⟨p, hp, hb⟩

theorem exists_page {b : Nat} (hb : b ∈ m.blocksOf g) :
    ∃ p ∈ m.pages, b ∈ g.blocks p.pageId :=
  List.mem_flatMap.mp hb

theorem Inv.mem_iff (h : Inv g m out) {b : Nat} : b ∈ m.blocksOf g ↔
    b ∈ m.freeOf ∨ b ∈ m.reservedBlocks ∨ b ∈ m.handedOut ∨ b ∈ m.lost ∨ b ∈ out := by
  have total := h.partition b
  simp only [← List.count_pos_iff]
  omega

theorem count_freeOf {p : VirtPage} (h : Inv g m out) (hp : p ∈ m.pages) {b : Nat}
    (hb : b ∈ g.blocks p.pageId) : m.freeOf.count b = p.freeList.count b := by
  have split := Keyed.perm_cons_filter_key h.keys hp
  have elsewhere :
      b ∉ (m.pages.filter (·.pageId != p.pageId)).flatMap VirtPage.freeList := by
    intro there
    obtain ⟨q, hq, free⟩ := List.mem_flatMap.mp there
    obtain ⟨hq, ne⟩ := List.mem_filter.mp hq
    have on_other := Geometry.getVirtPageId_of_mem ((h.sound q hq).own b free)
    have same : q.pageId = p.pageId := on_other.symm.trans (Geometry.getVirtPageId_of_mem hb)
    simp [same] at ne
  rw [freeOf, (split.flatMap_right _).count_eq, flatMap_cons, count_append,
    count_eq_zero_of_not_mem elsewhere, Nat.add_zero]

theorem nodup_freeOf (h : Inv g m out) : m.freeOf.Nodup := by
  apply List.nodup_iff_count_le_one.mpr
  intro b
  have total := h.partition b
  have single := count_blocksOf_le h b
  omega

theorem numAvail_eq (h : Inv g m out) : m.numAvailBlocks = m.freeOf.length := by
  have none : m.fullPages.flatMap VirtPage.freeList = [] :=
    List.flatMap_eq_nil_iff.mpr h.full
  rw [freeOf, pages, flatMap_append, none, append_nil, h.numAvail]

variable {m' : Manager} {out' : List Nat} {p p' : VirtPage} {others : List VirtPage}

structure SameRest (m m' : Manager) : Prop where
  reserved : m'.reservedBlocks = m.reservedBlocks
  handed : m'.handedOut = m.handedOut
  lost : m'.lost = m.lost

theorem SameRest.refl (m : Manager) : SameRest m m :=
  ⟨rfl, rfl, rfl⟩

theorem SameRest.trans {m₁ m₂ m₃ : Manager} (h : SameRest m₁ m₂) (h' : SameRest m₂ m₃) :
    SameRest m₁ m₃ :=
  ⟨h'.reserved.trans h.reserved, h'.handed.trans h.handed, h'.lost.trans h.lost⟩

theorem count_flatMap_cons {pages : List VirtPage} (f : VirtPage → List Nat)
    (same : pages.Perm (p :: others)) (b : Nat) :
    (pages.flatMap f).count b = (f p).count b + (others.flatMap f).count b := by
  rw [(same.flatMap_right f).count_eq, flatMap_cons, count_append]

theorem mem_others (same : m.pages.Perm (p :: others)) {q : VirtPage} (hq : q ∈ others) :
    q ∈ m.pages :=
  same.mem_iff.mpr (mem_cons_of_mem p hq)

theorem mem_page (same : m.pages.Perm (p :: others)) : p ∈ m.pages :=
  same.mem_iff.mpr mem_cons_self

/-- A page gets other free blocks: what it gains comes out of `out`, what it loses goes
there. -/
theorem Inv.replace (h : Inv g m out) (before : m.pages.Perm (p :: others))
    (after : m'.pages.Perm (p' :: others)) (same : SameRest m m')
    (id_eq : p'.pageId = p.pageId) (size : p'.numKvBlocks = p.numKvBlocks)
    (own : ∀ b ∈ p'.freeList, b ∈ g.blocks p.pageId)
    (moved : ∀ b, p'.freeList.count b + out'.count b = p.freeList.count b + out.count b)
    (occupied : p.numKvBlocks ≠ 0 → p'.freeList.length < p.numKvBlocks)
    (full : ∀ q ∈ m'.fullPages, q.freeList = [])
    (numAvail : m'.numAvailBlocks = (m'.availPages.flatMap VirtPage.freeList).length)
    (flow : m'.obtained = m.obtained ∧ m'.returned = m.returned ∧
      m'.lostPages = m.lostPages) : Inv g m' out' := by
  have ids : (m'.pages.map VirtPage.pageId).Perm (m.pages.map VirtPage.pageId) := by
    refine (after.map _).trans (List.Perm.trans ?_ (before.map _).symm)
    rw [map_cons, map_cons, id_eq]
  constructor
  · exact ids.nodup_iff.mpr h.keys
  · intro q hq
    cases List.mem_cons.mp (after.mem_iff.mp hq) with
    | inl here =>
        subst here
        have old := h.sound p (mem_page before)
        constructor
        · rw [size, id_eq]
          exact old.size
        · rw [id_eq]
          exact own
    | inr there => exact h.sound q (mem_others before there)
  · intro b
    have total := h.partition b
    have change := moved b
    rw [freeOf, blocksOf, count_flatMap_cons _ before, count_flatMap_cons _ before] at total
    rw [freeOf, blocksOf, count_flatMap_cons _ after, count_flatMap_cons _ after, id_eq,
      same.reserved, same.handed, same.lost]
    omega
  · exact full
  · exact numAvail
  · intro q hq
    cases List.mem_cons.mp (after.mem_iff.mp hq) with
    | inl here =>
        subst here
        rw [size]
        exact occupied
    | inr there => exact h.occupied q (mem_others before there)
  · intro id
    rw [ids.count_eq, flow.1, flow.2.1, flow.2.2]
    exact h.flow id

/-- A page leaves the lists with the blocks it has free. -/
theorem Inv.remove (h : Inv g m out) (before : m.pages.Perm (p :: others))
    (after : m'.pages.Perm others) (same : SameRest m m')
    (whole : ∀ b, (g.blocks p.pageId).count b + out'.count b = p.freeList.count b + out.count b)
    (full : ∀ q ∈ m'.fullPages, q.freeList = [])
    (numAvail : m'.numAvailBlocks = (m'.availPages.flatMap VirtPage.freeList).length)
    (flow : m'.obtained = m.obtained ∧ m'.returned = p.pageId :: m.returned ∧
      m'.lostPages = m.lostPages) : Inv g m' out' := by
  have ids : (m.pages.map VirtPage.pageId).Perm (p.pageId :: m'.pages.map VirtPage.pageId) :=
    (before.map _).trans ((after.map _).symm.cons _)
  constructor
  · exact (List.nodup_cons.mp (ids.nodup_iff.mp h.keys)).2
  · exact fun q hq => h.sound q (mem_others before (after.mem_iff.mp hq))
  · intro b
    have total := h.partition b
    have change := whole b
    rw [freeOf, blocksOf, count_flatMap_cons _ before, count_flatMap_cons _ before] at total
    rw [freeOf, blocksOf, (after.flatMap_right _).count_eq, (after.flatMap_right _).count_eq,
      same.reserved, same.handed, same.lost]
    omega
  · exact full
  · exact numAvail
  · exact fun q hq => h.occupied q (mem_others before (after.mem_iff.mp hq))
  · intro id
    have old := h.flow id
    rw [ids.count_eq, count_cons] at old
    rw [flow.1, flow.2.1, flow.2.2, count_cons]
    omega

theorem alloc_eq {n : Nat} (h : p.freeList ≠ []) :
    p.alloc n = some (p.freeList.take (min n p.freeList.length),
      { p with freeList := p.freeList.drop (min n p.freeList.length) }) :=
  if_neg h

structure Took (g : Geometry) (m : Manager) (out : List Nat) (need : Nat) (allocated : List Nat)
    (m' : Manager) : Prop where
  inv : Inv g m' (out ++ allocated)
  same : SameRest m m'
  some_taken : 0 < allocated.length
  at_most : allocated.length ≤ need

/-- The first `k` free blocks of the page in front are taken. -/
def takeFront (m : Manager) (p : VirtPage) (rest : List VirtPage) (k : Nat) : Manager :=
  let p := { p with freeList := p.freeList.drop k }
  if p.freeList = [] then
    { m with
      numAvailBlocks := m.numAvailBlocks - k
      availPages := rest, fullPages := m.fullPages ++ [p] }
  else { m with numAvailBlocks := m.numAvailBlocks - k, availPages := p :: rest }

variable {rest : List VirtPage}

theorem takeBlocks_eq {need : Nat} (has : p.freeList ≠ []) :
    m.takeBlocks p rest need = some (p.freeList.take (min p.freeList.length need),
      m.takeFront p rest (min p.freeList.length need)) := by
  have bound : min (min p.freeList.length need) p.freeList.length =
      min p.freeList.length need := by omega
  have size : (p.freeList.take (min p.freeList.length need)).length =
      min p.freeList.length need := by
    rw [length_take]
    omega
  rw [takeBlocks, alloc_eq has, bound, Option.map_some]
  simp only [size, takeFront]
  split <;> rfl

theorem pages_takeFront {k : Nat} :
    (m.takeFront p rest k).pages.Perm
      ({ p with freeList := p.freeList.drop k } :: (rest ++ m.fullPages)) := by
  rw [takeFront]
  split
  · show (rest ++ (m.fullPages ++ [_])).Perm _
    rw [← append_assoc]
    exact perm_append_singleton _ _
  · exact Perm.refl _

theorem sameRest_takeFront {k : Nat} :
    SameRest m (m.takeFront p rest k) := by
  rw [takeFront]
  split <;> exact ⟨rfl, rfl, rfl⟩

theorem flow_takeFront {k : Nat} :
    (m.takeFront p rest k).obtained = m.obtained ∧
      (m.takeFront p rest k).returned = m.returned ∧
      (m.takeFront p rest k).lostPages = m.lostPages := by
  rw [takeFront]
  split <;> exact ⟨rfl, rfl, rfl⟩

theorem full_takeFront {k : Nat}
    (full : ∀ q ∈ m.fullPages, q.freeList = []) :
    ∀ q ∈ (m.takeFront p rest k).fullPages, q.freeList = [] := by
  rw [takeFront]
  split
  · rename_i emptied
    intro q hq
    cases List.mem_append.mp hq with
    | inl old => exact full q old
    | inr new =>
        rw [List.mem_singleton.mp new]
        exact emptied
  · exact full

theorem numAvail_takeFront {k : Nat} (bound : k ≤ p.freeList.length)
    (numAvail : m.numAvailBlocks =
      (p.freeList.length + (rest.flatMap VirtPage.freeList).length : Nat)) :
    (m.takeFront p rest k).numAvailBlocks =
      ((m.takeFront p rest k).availPages.flatMap VirtPage.freeList).length := by
  rw [takeFront]
  split
  · rename_i emptied
    have all : p.freeList.length ≤ k := List.drop_eq_nil_iff.mp emptied
    show m.numAvailBlocks - k = ((rest.flatMap VirtPage.freeList).length : Nat)
    omega
  · show m.numAvailBlocks - k = (List.flatMap _ (_ :: rest)).length
    rw [flatMap_cons, length_append, length_drop]
    omega

theorem count_take_drop (xs : List Nat) (k b : Nat) :
    (xs.take k).count b + (xs.drop k).count b = xs.count b := by
  rw [← count_append, take_append_drop]

theorem took_front {need : Nat} (avail : m.availPages = p :: rest)
    (h : Inv g m out) (needs : 0 < need) (has : p.freeList ≠ []) :
    Took g m out need (p.freeList.take (min p.freeList.length need))
      (m.takeFront p rest (min p.freeList.length need)) := by
  have size := List.length_pos_iff.mpr has
  have before : m.pages = p :: (rest ++ m.fullPages) := by
    rw [pages, avail, cons_append]
  have mem : p ∈ m.pages := before ▸ mem_cons_self
  constructor
  · apply h.replace (List.Perm.of_eq before) pages_takeFront sameRest_takeFront rfl rfl
    · exact fun b hb => (h.sound p mem).own b (mem_of_mem_drop hb)
    · intro b
      have parts := count_take_drop p.freeList (min p.freeList.length need) b
      show (p.freeList.drop _).count b + _ = _
      rw [count_append]
      omega
    · intro blocks
      have old := h.occupied p mem blocks
      rw [length_drop]
      omega
    · exact full_takeFront h.full
    · apply numAvail_takeFront (Nat.min_le_left _ _)
      rw [h.numAvail, avail, flatMap_cons, length_append]
    · exact flow_takeFront
  · exact sameRest_takeFront
  · rw [length_take]
    omega
  · rw [length_take]
    omega

/-- A page joins the lists with its free blocks. -/
theorem Inv.insert (h : Inv g m out) (fresh : p'.pageId ∉ m.pages.map VirtPage.pageId)
    (after : m'.pages.Perm (p' :: m.pages)) (same : SameRest m m')
    (page : PageSound g p')
    (blocks : ∀ b, p'.freeList.count b + out'.count b = (g.blocks p'.pageId).count b + out.count b)
    (occupied : p'.numKvBlocks ≠ 0 → p'.freeList.length < p'.numKvBlocks)
    (full : ∀ q ∈ m'.fullPages, q.freeList = [])
    (numAvail : m'.numAvailBlocks = (m'.availPages.flatMap VirtPage.freeList).length)
    (flow : m'.obtained = p'.pageId :: m.obtained ∧ m'.returned = m.returned ∧
      m'.lostPages = m.lostPages) : Inv g m' out' := by
  have ids : (m'.pages.map VirtPage.pageId).Perm (p'.pageId :: m.pages.map VirtPage.pageId) :=
    after.map _
  constructor
  · exact ids.nodup_iff.mpr (List.nodup_cons.mpr ⟨fresh, h.keys⟩)
  · intro q hq
    cases List.mem_cons.mp (after.mem_iff.mp hq) with
    | inl here => exact here ▸ page
    | inr there => exact h.sound q there
  · intro b
    have total := h.partition b
    have change := blocks b
    rw [freeOf, blocksOf] at total
    rw [freeOf, blocksOf, count_flatMap_cons _ after, count_flatMap_cons _ after,
      same.reserved, same.handed, same.lost]
    omega
  · exact full
  · exact numAvail
  · intro q hq
    cases List.mem_cons.mp (after.mem_iff.mp hq) with
    | inl here => exact here ▸ occupied
    | inr there => exact h.occupied q there
  · intro id
    have old := h.flow id
    rw [flow.1, flow.2.1, flow.2.2, ids.count_eq, count_cons, count_cons]
    omega

theorem init_some {pageId : Nat} (h : VirtPage.init g pageId = some p) :
    p = ⟨pageId, (g.blocks pageId).length, g.blocks pageId⟩ ∧
      g.startBlock pageId ≤ g.endBlock pageId := by
  rw [VirtPage.init] at h
  split at h
  · cases h
  · rw [Geometry.length_blocks]
    exact ⟨(Option.some.inj h).symm, by omega⟩

theorem inv_addPage_blockless {pageId : Nat} (h : Inv g m out)
    (fresh : pageId ∉ m.pages.map VirtPage.pageId) (init : VirtPage.init g pageId = some p)
    (blockless : p.freeList = []) : Inv g (m.addPage p) out := by
  obtain ⟨rfl, -⟩ := init_some init
  have none : g.blocks pageId = [] := blockless
  have page : PageSound g ⟨pageId, (g.blocks pageId).length, g.blocks pageId⟩ :=
    ⟨rfl, fun b hb => hb⟩
  refine h.insert fresh ?_ ⟨rfl, rfl, rfl⟩ page ?_ ?_ ?_ ?_ ⟨rfl, rfl, rfl⟩
  · rw [pages, addPage, append_assoc]
    exact perm_middle
  · exact fun b => rfl
  · intro some_blocks
    exact absurd (congrArg List.length none) some_blocks
  · exact h.full
  · show m.numAvailBlocks + (g.blocks pageId).length = _
    rw [h.numAvail, addPage, flatMap_append, length_append, none]
    rfl

theorem took_new {pageId need : Nat} (empty : m.availPages = [])
    (h : Inv g m out) (fresh : pageId ∉ m.pages.map VirtPage.pageId)
    (init : VirtPage.init g pageId = some p) (needs : 0 < need) (has : p.freeList ≠ []) :
    Took g m out need (p.freeList.take (min p.freeList.length need))
      ((m.addPage p).takeFront p [] (min p.freeList.length need)) := by
  have size := List.length_pos_iff.mpr has
  obtain ⟨rfl, -⟩ := init_some init
  have all : m.pages = m.fullPages := by
    rw [pages, empty, nil_append]
  have added : SameRest m
      (m.addPage ⟨pageId, (g.blocks pageId).length, g.blocks pageId⟩) :=
    ⟨rfl, rfl, rfl⟩
  constructor
  · have page : PageSound g ⟨pageId, (g.blocks pageId).length,
        (g.blocks pageId).drop (min (g.blocks pageId).length need)⟩ :=
      ⟨rfl, fun b hb => mem_of_mem_drop hb⟩
    refine h.insert fresh ?_ ?_ page ?_ ?_ ?_ ?_ ?_
    · rw [all]
      exact pages_takeFront
    · exact added.trans sameRest_takeFront
    · intro b
      have parts := count_take_drop (g.blocks pageId) (min (g.blocks pageId).length need) b
      show ((g.blocks pageId).drop _).count b + (out ++ (g.blocks pageId).take (min
        (g.blocks pageId).length need)).count b = (g.blocks pageId).count b + out.count b
      rw [count_append]
      omega
    · intro _
      show ((g.blocks pageId).drop _).length < (g.blocks pageId).length
      rw [length_drop]
      have pos : 0 < (g.blocks pageId).length := size
      omega
    · exact full_takeFront h.full
    · apply numAvail_takeFront (Nat.min_le_left _ _)
      show m.numAvailBlocks + (g.blocks pageId).length = _
      rw [h.numAvail, empty]
      simp
    · exact flow_takeFront
  · exact added.trans sameRest_takeFront
  · rw [length_take]
    omega
  · rw [length_take]
    omega

inductive Ending (g : Geometry) (m : Manager) (retIndex : List Nat) :
    List PageAnswer → Outcome → Manager → Prop where
  | blocklessFront {p rest answers} (avail : m.availPages = p :: rest) (none : p.freeList = []) :
      Ending g m retIndex answers (.thrown .virtPage retIndex) m
  | null {answers} (avail : m.availPages = []) :
      Ending g m retIndex (.null :: answers) (.ids retIndex) m
  | throws {answers} (avail : m.availPages = []) :
      Ending g m retIndex (.throws :: answers) (.thrown .noFreePages retIndex) m
  | noRange {pageId answers} (avail : m.availPages = [])
      (fresh : pageId ∉ m.pages.map VirtPage.pageId) (init : VirtPage.init g pageId = none) :
      Ending g m retIndex (.page pageId :: answers) (.thrown .virtPage retIndex)
        { m with obtained := pageId :: m.obtained, lostPages := pageId :: m.lostPages }
  | blockless {pageId p answers} (avail : m.availPages = [])
      (fresh : pageId ∉ m.pages.map VirtPage.pageId) (init : VirtPage.init g pageId = some p)
      (none : p.freeList = []) :
      Ending g m retIndex (.page pageId :: answers) (.thrown .virtPage retIndex) (m.addPage p)

inductive Going (g : Geometry) (m : Manager) (need : Nat) :
    List PageAnswer → List Nat → Manager → List PageAnswer → Prop where
  | front {p rest answers} (avail : m.availPages = p :: rest) (has : p.freeList ≠ []) :
      Going g m need answers (p.freeList.take (min p.freeList.length need))
        (m.takeFront p rest (min p.freeList.length need)) answers
  | new {pageId p answers} (avail : m.availPages = [])
      (fresh : pageId ∉ m.pages.map VirtPage.pageId) (init : VirtPage.init g pageId = some p)
      (has : p.freeList ≠ []) :
      Going g m need (.page pageId :: answers) (p.freeList.take (min p.freeList.length need))
        ((m.addPage p).takeFront p [] (min p.freeList.length need)) answers

variable {fuel need : Nat} {retIndex : List Nat} {answers : List PageAnswer} {outcome : Outcome}

@[simp] theorem takeBlocks_none (blockless : p.freeList = []) :
    m.takeBlocks p rest need = none := by
  rw [takeBlocks, VirtPage.alloc, if_pos blockless]
  rfl

theorem iteration
    (run : allocLoop g (fuel + 1) m (need + 1) retIndex answers = .ok (outcome, m')) :
    Ending g m retIndex answers outcome m' ∨
      ∃ allocated next rest, Going g m (need + 1) answers allocated next rest ∧
        allocLoop g fuel next (need + 1 - allocated.length) (retIndex ++ allocated) rest =
          .ok (outcome, m') := by
  rw [allocLoop.eq_def] at run
  dsimp only at run
  split at run
  · rename_i p rest avail
    by_cases none : p.freeList = []
    · rw [takeBlocks_none none] at run
      cases run
      exact .inl (.blocklessFront avail none)
    · rw [takeBlocks_eq none] at run
      exact .inr ⟨_, _, _, .front avail none, run⟩
  · rename_i avail
    split at run
    · cases run
    · cases run
      exact .inl (.null avail)
    · cases run
      exact .inl (.throws avail)
    · rename_i pageId answers
      split at run
      · cases run
      · rename_i fresh
        split at run
        · rename_i init
          cases run
          exact .inl (.noRange avail fresh init)
        · rename_i p init
          by_cases none : p.freeList = []
          · rw [takeBlocks_none none] at run
            cases run
            exact .inl (.blockless avail fresh init none)
          · rw [takeBlocks_eq none] at run
            exact .inr ⟨_, _, _, .new avail fresh init none, run⟩

theorem Going.took {allocated : List Nat} {rest : List PageAnswer} (needs : 0 < need)
    (going : Going g m need answers allocated m' rest) (h : Inv g m out) :
    Took g m out need allocated m' := by
  cases going with
  | front avail has => exact took_front avail h needs has
  | new avail fresh init has => exact took_new avail h fresh init needs has

theorem Ending.inv (ending : Ending g m retIndex answers outcome m') (h : Inv g m out) :
    Inv g m' out ∧ SameRest m m' ∧ outcome.taken = retIndex := by
  cases ending with
  | blocklessFront => exact ⟨h, .refl m, rfl⟩
  | null => exact ⟨h, .refl m, rfl⟩
  | throws => exact ⟨h, .refl m, rfl⟩
  | noRange avail fresh init =>
      refine ⟨⟨h.keys, h.sound, h.partition, h.full, h.numAvail, h.occupied, ?_⟩, ⟨rfl, rfl, rfl⟩,
        rfl⟩
      intro id
      have old := h.flow id
      simp only [count_cons]
      show _ = _ + _ + (m.pages.map VirtPage.pageId).count id
      omega
  | blockless avail fresh init none =>
      exact ⟨inv_addPage_blockless h fresh init none, ⟨rfl, rfl, rfl⟩, rfl⟩

structure Looped (g : Geometry) (m : Manager) (retIndex : List Nat) (need : Nat)
    (outcome : Outcome) (m' : Manager) : Prop where
  inv : Inv g m' outcome.taken
  same : SameRest m m'
  more : ∃ new, outcome.taken = retIndex ++ new
  at_most : outcome.taken.length ≤ retIndex.length + need

theorem allocLoop_looped (h : Inv g m retIndex)
    (run : allocLoop g fuel m need retIndex answers = .ok (outcome, m')) :
    Looped g m retIndex need outcome m' := by
  induction fuel generalizing m need retIndex answers with
  | zero =>
      cases need with
      | zero =>
          cases run
          exact ⟨h, .refl _, ⟨[], (append_nil _).symm⟩, Nat.le_refl _⟩
      | succ need =>
          cases run
  | succ fuel ih =>
      cases need with
      | zero =>
          cases run
          exact ⟨h, .refl _, ⟨[], (append_nil _).symm⟩, Nat.le_refl _⟩
      | succ need =>
          cases iteration run with
          | inl ending =>
              obtain ⟨inv, same, taken⟩ := ending.inv h
              constructor
              · exact taken ▸ inv
              · exact same
              · exact ⟨[], taken.trans (append_nil _).symm⟩
              · rw [taken]
                exact Nat.le_add_right _ _
          | inr going =>
              obtain ⟨allocated, next, rest, going, run⟩ := going
              have took := going.took (Nat.succ_pos need) h
              have looped := ih took.inv run
              obtain ⟨new, more⟩ := looped.more
              constructor
              · exact looped.inv
              · exact took.same.trans looped.same
              · exact ⟨allocated ++ new, more.trans (append_assoc _ _ _)⟩
              · have bound := looped.at_most
                have part := took.at_most
                rw [length_append] at bound
                omega

theorem allocLoop_ends (h : Inv g m retIndex) (enough : need ≤ fuel) :
    (∃ result, allocLoop g fuel m need retIndex answers = .ok result) ∨
      allocLoop g fuel m need retIndex answers = .error .pageInUse ∨
      allocLoop g fuel m need retIndex answers = .error .noAnswer ∧ answers.length < need := by
  induction fuel generalizing m need retIndex answers with
  | zero =>
      obtain rfl : need = 0 := by omega
      exact .inl ⟨_, rfl⟩
  | succ fuel ih =>
      cases need with
      | zero => exact .inl ⟨_, rfl⟩
      | succ need =>
          -- An iteration takes at least one block, so that fuel and answers last.
          have next {allocated after rest}
              (going : Going g m (need + 1) answers allocated after rest)
              (asked : answers.length ≤ rest.length + 1) :
              (∃ result, allocLoop g fuel after (need + 1 - allocated.length)
                (retIndex ++ allocated) rest = .ok result) ∨
              allocLoop g fuel after (need + 1 - allocated.length)
                (retIndex ++ allocated) rest = .error .pageInUse ∨
              allocLoop g fuel after (need + 1 - allocated.length)
                (retIndex ++ allocated) rest = .error .noAnswer ∧ answers.length < need + 1 := by
            have took := going.took (Nat.succ_pos need) h
            have some_taken := took.some_taken
            refine (ih took.inv (by omega)).imp_right fun fails => fails.imp_right ?_
            rintro ⟨fails, short⟩
            exact ⟨fails, by omega⟩
          rw [allocLoop.eq_def]
          dsimp only
          split
          · rename_i p rest avail
            by_cases none : p.freeList = []
            · rw [takeBlocks_none none]
              exact .inl ⟨_, rfl⟩
            · rw [takeBlocks_eq none]
              exact next (.front avail none) (Nat.le_succ _)
          · rename_i avail
            split
            · exact .inr (.inr ⟨rfl, Nat.succ_pos need⟩)
            · exact .inl ⟨_, rfl⟩
            · exact .inl ⟨_, rfl⟩
            · split
              · exact .inr (.inl rfl)
              · rename_i fresh
                split
                · exact .inl ⟨_, rfl⟩
                · rename_i p init
                  by_cases none : p.freeList = []
                  · rw [takeBlocks_none none]
                    exact .inl ⟨_, rfl⟩
                  · rw [takeBlocks_eq none]
                    exact next (.new avail fresh init none) (Nat.le_refl _)

def fromReserve (m : Manager) (needSize : Nat) : List Nat :=
  m.reservedBlocks.take (min m.reservedBlocks.length needSize)

def withoutReserve (m : Manager) (needSize : Nat) : Manager :=
  { m with reservedBlocks := m.reservedBlocks.drop (min m.reservedBlocks.length needSize) }

variable {needSize : Nat}

@[simp] theorem length_fromReserve :
    (m.fromReserve needSize).length = min m.reservedBlocks.length needSize := by
  rw [fromReserve, length_take]
  omega

theorem inv_withoutReserve (h : Inv g m []) :
    Inv g (m.withoutReserve needSize) (m.fromReserve needSize) := by
  refine ⟨h.keys, h.sound, ?_, h.full, h.numAvail, h.occupied, h.flow⟩
  intro b
  have total := h.partition b
  have parts := count_take_drop m.reservedBlocks (min m.reservedBlocks.length needSize) b
  rw [count_nil] at total
  show m.freeOf.count b + (m.reservedBlocks.drop _).count b + m.handedOut.count b +
    m.lost.count b + (m.reservedBlocks.take (min m.reservedBlocks.length needSize)).count b =
      (m.blocksOf g).count b
  omega

theorem allocInternal_looped (h : Inv g m [])
    (run : m.allocInternal g needSize answers = .ok (outcome, m')) :
    Looped g (m.withoutReserve needSize) (m.fromReserve needSize)
      (needSize - min m.reservedBlocks.length needSize) outcome m' :=
  allocLoop_looped (inv_withoutReserve h) run

theorem allocInternal_ends (h : Inv g m []) :
    (∃ result, m.allocInternal g needSize answers = .ok result) ∨
      m.allocInternal g needSize answers = .error .pageInUse ∨
      m.allocInternal g needSize answers = .error .noAnswer ∧
        answers.length < needSize - min m.reservedBlocks.length needSize :=
  allocLoop_ends (inv_withoutReserve h) (Nat.le_refl _)

theorem allocInternal_ne_outOfFuel (h : Inv g m []) :
    m.allocInternal g needSize answers ≠ .error .outOfFuel := by
  obtain ⟨_, ends⟩ | ends | ⟨ends, _⟩ := allocInternal_ends h
  all_goals
    rw [ends]
    intro stuck
    cases stuck

theorem inv_handOut (h : Inv g m outcome.taken) : Inv g (m.handOut outcome) [] := by
  cases outcome with
  | ids retIndex =>
      refine ⟨h.keys, h.sound, ?_, h.full, h.numAvail, h.occupied, h.flow⟩
      intro b
      have total := h.partition b
      show m.freeOf.count b + m.reservedBlocks.count b + (m.handedOut ++ retIndex).count b +
        m.lost.count b + [].count b = (m.blocksOf g).count b
      rw [count_append, count_nil]
      rw [Outcome.taken] at total
      omega
  | thrown exception retIndex =>
      refine ⟨h.keys, h.sound, ?_, h.full, h.numAvail, h.occupied, h.flow⟩
      intro b
      have total := h.partition b
      show m.freeOf.count b + m.reservedBlocks.count b + m.handedOut.count b +
        (m.lost ++ retIndex).count b + [].count b = (m.blocksOf g).count b
      rw [count_append, count_nil]
      rw [Outcome.taken] at total
      omega

section Free

variable {idxs : List Nat}

theorem subperm_blocks (h : Inv g m (idxs ++ out)) (hp : p ∈ m.pages)
    (on_page : ∀ b ∈ idxs, b ∈ g.blocks p.pageId) :
    (p.freeList ++ idxs).Subperm (g.blocks p.pageId) := by
  apply List.Nodup.subperm
  · apply List.nodup_iff_count_le_one.mpr
    intro c
    have part : p.freeList.count c ≤ m.freeOf.count c := by
      apply List.Sublist.count_le
      exact sublist_flatten_of_mem (List.mem_map.mpr ⟨p, hp, rfl⟩)
    have total := h.partition c
    have single := count_blocksOf_le h c
    rw [count_append] at total ⊢
    omega
  · intro c hc
    cases List.mem_append.mp hc with
    | inl free => exact (h.sound p hp).own c free
    | inr new => exact on_page c new

theorem count_whole (h : Inv g m (idxs ++ out)) (hp : p ∈ m.pages)
    (on_page : ∀ b ∈ idxs, b ∈ g.blocks p.pageId)
    (all : (p.freeBatch idxs).freeList.length = p.numKvBlocks) (b : Nat) :
    (g.blocks p.pageId).count b + out.count b = p.freeList.count b + (idxs ++ out).count b := by
  have size : (g.blocks p.pageId).length ≤ (p.freeList ++ idxs).length := by
    rw [← (h.sound p hp).size]
    exact Nat.le_of_eq all.symm
  have same := (subperm_blocks h hp on_page).perm_of_length_le size
  rw [← same.count_eq, count_append, count_append]
  omega

theorem length_part (h : Inv g m (idxs ++ out)) (hp : p ∈ m.pages)
    (on_page : ∀ b ∈ idxs, b ∈ g.blocks p.pageId)
    (some_missing : (p.freeBatch idxs).freeList.length ≠ p.numKvBlocks) :
    (p.freeBatch idxs).freeList.length < p.numKvBlocks := by
  have size := (subperm_blocks h hp on_page).length_le
  rw [← (h.sound p hp).size] at size
  exact Nat.lt_of_le_of_ne size some_missing

/-- What `free_blocks` leaves alone. -/
structure Freed (g : Geometry) (m : Manager) (out : List Nat) (m' : Manager) : Prop where
  inv : Inv g m' out
  same : SameRest m m'

theorem freed_full (h : Inv g m (idxs ++ out)) (hp : p ∈ m.fullPages)
    (on_page : ∀ b ∈ idxs, b ∈ g.blocks p.pageId) :
    Freed g m out (m.freeGroup p.pageId idxs) := by
  have here : p ∈ m.pages := mem_append_right _ hp
  have keys : (m.fullPages.map VirtPage.pageId).Nodup := by
    have keys := h.keys
    rw [pages, map_append] at keys
    exact keys.of_append_right
  have none_free : p.freeList = [] := h.full p hp
  have others := Keyed.perm_cons_filter_key keys hp
  have before : m.pages.Perm
      (p :: (m.availPages ++ m.fullPages.filter (·.pageId != p.pageId))) :=
    (others.append_left _).trans perm_middle
  have full : ∀ q ∈ m.fullPages.filter (·.pageId != p.pageId), q.freeList = [] :=
    fun q hq => h.full q (mem_of_mem_filter hq)
  rw [freeGroup, Keyed.find?_key keys hp]
  dsimp only
  split
  · rename_i all
    refine ⟨h.remove before (Perm.refl _) ⟨rfl, rfl, rfl⟩ (count_whole h here on_page all)
      full ?_ ⟨rfl, rfl, rfl⟩, ⟨rfl, rfl, rfl⟩⟩
    show m.numAvailBlocks + idxs.length - (p.freeList ++ idxs).length =
      (m.availPages.flatMap VirtPage.freeList).length
    rw [none_free, nil_append, h.numAvail]
    omega
  · rename_i part
    have after : (m.availPages ++ [p.freeBatch idxs] ++
        m.fullPages.filter (·.pageId != p.pageId)).Perm (p.freeBatch idxs ::
          (m.availPages ++ m.fullPages.filter (·.pageId != p.pageId))) := by
      rw [append_assoc]
      exact perm_middle
    refine ⟨h.replace before after ⟨rfl, rfl, rfl⟩ rfl rfl ?_ ?_ ?_ full ?_ ⟨rfl, rfl, rfl⟩,
      ⟨rfl, rfl, rfl⟩⟩
    · intro b hb
      rw [VirtPage.freeBatch, none_free] at hb
      exact on_page b hb
    · intro b
      show (p.freeList ++ idxs).count b + _ = _
      rw [count_append, count_append]
      omega
    · exact fun _ => length_part h here on_page part
    · show m.numAvailBlocks + idxs.length = ((m.availPages ++ [_]).flatMap _).length
      rw [flatMap_append, length_append, h.numAvail, flatMap_singleton,
        VirtPage.freeBatch, none_free]
      rfl

theorem freed_avail (h : Inv g m (idxs ++ out)) (hp : p ∈ m.availPages)
    (on_page : ∀ b ∈ idxs, b ∈ g.blocks p.pageId) :
    Freed g m out (m.freeGroup p.pageId idxs) := by
  have here : p ∈ m.pages := mem_append_left _ hp
  have keys : (m.availPages.map VirtPage.pageId).Nodup := by
    have keys := h.keys
    rw [pages, map_append] at keys
    exact keys.of_append_left
  have absent : m.fullPages.find? (·.pageId == p.pageId) = none := by
    apply Keyed.find?_other
    have keys := h.keys
    rw [pages, map_append] at keys
    exact (List.nodup_append'.mp keys).2.2 (List.mem_map.mpr ⟨p, hp, rfl⟩)
  have others := Keyed.perm_cons_filter_key keys hp
  have before : m.pages.Perm
      (p :: (m.availPages.filter (·.pageId != p.pageId) ++ m.fullPages)) :=
    others.append_right _
  have numAvail : m.numAvailBlocks = (p.freeList.length +
      ((m.availPages.filter (·.pageId != p.pageId)).flatMap VirtPage.freeList).length : Nat) := by
    rw [h.numAvail, (others.flatMap_right _).length_eq, flatMap_cons, length_append]
  rw [freeGroup, absent]
  rw [Keyed.find?_key keys hp]
  dsimp only
  split
  · rename_i all
    refine ⟨h.remove before (Perm.refl _) ⟨rfl, rfl, rfl⟩ (count_whole h here on_page all)
      h.full ?_ ⟨rfl, rfl, rfl⟩, ⟨rfl, rfl, rfl⟩⟩
    show m.numAvailBlocks + idxs.length - (p.freeList ++ idxs).length =
      ((m.availPages.filter _).flatMap _).length
    rw [length_append]
    omega
  · rename_i part
    have after : (m.availPages.filter (·.pageId != p.pageId) ++ [p.freeBatch idxs] ++
        m.fullPages).Perm (p.freeBatch idxs ::
          (m.availPages.filter (·.pageId != p.pageId) ++ m.fullPages)) := by
      rw [append_assoc]
      exact perm_middle
    refine ⟨h.replace before after ⟨rfl, rfl, rfl⟩ rfl rfl ?_ ?_ ?_ h.full ?_ ⟨rfl, rfl, rfl⟩,
      ⟨rfl, rfl, rfl⟩⟩
    · intro b hb
      cases List.mem_append.mp hb with
      | inl free => exact (h.sound p here).own b free
      | inr new => exact on_page b new
    · intro b
      show (p.freeList ++ idxs).count b + _ = _
      rw [count_append, count_append]
      omega
    · exact fun _ => length_part h here on_page part
    · show m.numAvailBlocks + idxs.length = ((m.availPages.filter _ ++ [_]).flatMap _).length
      rw [flatMap_append, length_append, flatMap_singleton,
        VirtPage.freeBatch, length_append]
      omega

theorem freed_group {pageId : Nat} (h : Inv g m (idxs ++ out)) (some_idx : idxs ≠ [])
    (on_page : ∀ b ∈ idxs, g.getVirtPageId b = pageId) :
    Freed g m out (m.freeGroup pageId idxs) := by
  have on_blocks {b} (hb : b ∈ idxs) : ∃ p ∈ m.pages, p.pageId = pageId ∧
    b ∈ g.blocks p.pageId := by
    have held : b ∈ m.blocksOf g :=
      h.mem_iff.mpr (.inr (.inr (.inr (.inr (mem_append_left _ hb)))))
    obtain ⟨p, hp, mem⟩ := exists_page held
    exact ⟨p, hp, (Geometry.getVirtPageId_of_mem mem).symm.trans (on_page b hb), mem⟩
  obtain ⟨b, hb⟩ := exists_mem_of_ne_nil idxs some_idx
  obtain ⟨p, hp, rfl, -⟩ := on_blocks hb
  have own : ∀ b ∈ idxs, b ∈ g.blocks p.pageId := by
    intro c hc
    obtain ⟨q, hq, same, mem⟩ := on_blocks hc
    exact same ▸ mem
  cases List.mem_append.mp hp with
  | inl avail => exact freed_avail h avail own
  | inr full => exact freed_full h full own

theorem Freed.trans {m₁ m₂ m₃ : Manager} {out₂ out₃ : List Nat} (h : Freed g m₁ out₂ m₂)
    (h' : Freed g m₂ out₃ m₃) : Freed g m₁ out₃ m₃ :=
  ⟨h'.inv, h.same.trans h'.same⟩

theorem freed_groups {ids indices : List Nat} (nodup : ids.Nodup)
    (some_idx : ∀ id ∈ ids, ∃ b ∈ indices, g.getVirtPageId b = id)
    (h : Inv g m ((ids.flatMap fun id => indices.filter (g.getVirtPageId · == id)) ++ out)) :
    Freed g m out (ids.foldl
      (fun m id => m.freeGroup id (indices.filter (g.getVirtPageId · == id))) m) := by
  induction ids generalizing m with
  | nil => exact ⟨h, .refl m⟩
  | cons id ids ih =>
      rw [flatMap_cons, append_assoc] at h
      obtain ⟨b, hb, on_page⟩ := some_idx id mem_cons_self
      have first : Freed g m ((ids.flatMap fun id => indices.filter (g.getVirtPageId · == id)) ++
          out) (m.freeGroup id (indices.filter (g.getVirtPageId · == id))) := by
        apply freed_group h
        · exact ne_nil_of_mem (List.mem_filter.mpr ⟨hb, by simpa using on_page⟩)
        · intro c hc
          simpa using (List.mem_filter.mp hc).2
      have others : ∀ id ∈ ids, ∃ b ∈ indices, g.getVirtPageId b = id :=
        fun id' hid => some_idx id' (mem_cons_of_mem id hid)
      exact first.trans (ih (List.nodup_cons.mp nodup).2 others first.inv)

theorem freed_blocks {indices : List Nat} (h : Inv g m (indices ++ out)) :
    Freed g m out (m.freeBlocks g indices) := by
  apply freed_groups (nodup_dedup _)
  · intro id hid
    exact List.mem_map.mp (List.mem_dedup.mp hid)
  · exact h.congr ((Keyed.perm_groups indices).symm.append_right out)

end Free

structure Dropped (g : Geometry) (m : Manager) (blockId : Nat) (m' : Manager) : Prop where
  inv : Inv g m' []
  had : blockId ∈ m.handedOut
  handed : m'.handedOut = m.handedOut.erase blockId
  reserved : m'.reservedBlocks = m.reservedBlocks
  lost : m'.lost = m.lost

theorem dropped {blockId : Nat} (h : Inv g m []) (run : m.drop g blockId = .ok m') :
    Dropped g m blockId m' := by
  rw [drop] at run
  split at run
  · rename_i had
    cases run
    have taken : Inv g { m with handedOut := m.handedOut.erase blockId } [blockId] := by
      refine ⟨h.keys, h.sound, ?_, h.full, h.numAvail, h.occupied, h.flow⟩
      intro b
      have total := h.partition b
      have handle := (perm_cons_erase had).count_eq b
      rw [count_nil] at total
      show m.freeOf.count b + m.reservedBlocks.count b + (m.handedOut.erase blockId).count b +
        m.lost.count b + [blockId].count b = (m.blocksOf g).count b
      rw [count_cons] at handle
      rw [count_cons, count_nil]
      omega
    have freed : Freed g _ [] (freeBlocks g _ [blockId]) := freed_blocks taken
    exact ⟨freed.inv, had, freed.same.handed, freed.same.reserved, freed.same.lost⟩
  · cases run

theorem inv_freeReserved (h : Inv g m []) : Inv g (m.freeReserved g) [] := by
  have taken : Inv g { m with reservedBlocks := [] } (m.reservedBlocks ++ []) := by
    refine ⟨h.keys, h.sound, ?_, h.full, h.numAvail, h.occupied, h.flow⟩
    intro b
    have total := h.partition b
    rw [count_nil] at total
    show m.freeOf.count b + [].count b + m.handedOut.count b + m.lost.count b +
      (m.reservedBlocks ++ []).count b = (m.blocksOf g).count b
    rw [append_nil, count_nil]
    omega
  exact (freed_blocks taken).inv

/-- An allocation, granted or thrown. -/
theorem inv_allocate {numBlocks : Nat} {result : Outcome × Manager} (h : Inv g m [])
    (run : m.allocate g numBlocks answers = .ok result) : Inv g result.2 [] := by
  obtain ⟨⟨outcome, m₁⟩, allocated, rfl⟩ := map_eq_ok run
  exact inv_handOut (allocInternal_looped h allocated).inv

theorem inv_reserve {reserved : List Nat} (h : Inv g m reserved) :
    Inv g { m with reservedBlocks := m.reservedBlocks ++ reserved } [] := by
  refine ⟨h.keys, h.sound, ?_, h.full, h.numAvail, h.occupied, h.flow⟩
  intro b
  have total := h.partition b
  show m.freeOf.count b + (m.reservedBlocks ++ reserved).count b + m.handedOut.count b +
    m.lost.count b + [].count b = (m.blocksOf g).count b
  rw [count_append, count_nil]
  omega

/-- A reservation, kept or given back. -/
theorem inv_tryToReserve {needSize reservedPages : Nat} {result : Reservation × Manager}
    (h : Inv g m []) (run : m.tryToReserve g needSize reservedPages answers = .ok result) :
    Inv g result.2 [] := by
  rw [tryToReserve] at run
  split at run
  · cases run
    exact h
  · obtain ⟨⟨outcome, m₁⟩, allocated, rfl⟩ := map_eq_ok run
    have looped := (allocInternal_looped h allocated).inv
    cases outcome with
    | thrown exception retIndex => exact inv_handOut looped
    | ids retIndex =>
        cases retIndex with
        | nil => exact looped
        | cons first others => exact inv_reserve looped

/-- Step lemma: every block stays in one place. -/
theorem inv_step {op : Op} (h : Inv g m []) (run : m.step g op = .ok m') : Inv g m' [] := by
  cases op with
  | allocate numBlocks answers =>
      obtain ⟨result, ran, rfl⟩ := map_eq_ok run
      exact inv_allocate h ran
  | drop blockId => exact (dropped h run).inv
  | tryToReserve needSize reservedPages answers =>
      obtain ⟨result, ran, rfl⟩ := map_eq_ok run
      exact inv_tryToReserve h ran
  | freeReserved =>
      cases run
      exact inv_freeReserved h
  | trim =>
      cases run
      exact h
  | reorder order =>
      rw [step] at run
      split at run
      · rename_i same
        cases run
        have pages_same : ({ m with availPages := order } : Manager).pages.Perm m.pages :=
          same.append_right m.fullPages
        constructor
        · exact (pages_same.map _).nodup_iff.mpr h.keys
        · exact fun p hp => h.sound p (pages_same.mem_iff.mp hp)
        · intro b
          rw [freeOf, blocksOf, (pages_same.flatMap_right _).count_eq,
            (pages_same.flatMap_right _).count_eq]
          exact h.partition b
        · exact h.full
        · exact h.numAvail.trans (congrArg Int.ofNat (same.flatMap_right _).length_eq.symm)
        · exact fun p hp => h.occupied p (pages_same.mem_iff.mp hp)
        · intro id
          rw [(pages_same.map _).count_eq]
          exact h.flow id
      · cases run

theorem inv_empty : Inv g {} [] := by
  refine ⟨nodup_nil, ?_, fun b => rfl, ?_, rfl, ?_, fun id => rfl⟩
  · exact fun p hp => absurd hp (not_mem_nil)
  · exact fun p hp => absurd hp (not_mem_nil)
  · exact fun p hp => absurd hp (not_mem_nil)

theorem Reachable.inv (reachable : Reachable g m) : Inv g m [] := by
  obtain ⟨ops, ran⟩ := reachable
  have all : IfOk (Contract.run (step g) {} ops) (Inv g · []) :=
    Ensures.run (fun m op h => ensures_of_forall_ok fun m' ran => inv_step h ran) inv_empty
  exact all.of_ok ran

/-- After any run a block is in one place if its page is held, and nowhere else. -/
theorem Reachable.one_place (reachable : Reachable g m) (b : Nat) :
    m.freeOf.count b + m.reservedBlocks.count b + m.handedOut.count b + m.lost.count b =
      if b ∈ m.blocksOf g then 1 else 0 := by
  have total := reachable.inv.partition b
  rw [(nodup_blocksOf reachable.inv.keys).count] at total
  exact total

theorem one_place_thrown : ∃ m, run (step ⟨4, 1, by decide, by decide⟩) ({} : Manager)
    [.allocate 5 [.page 0, .throws]] = .ok m ∧ m.freeOf.count 3 + m.reservedBlocks.count 3 +
      m.handedOut.count 3 + m.lost.count 3 = 1 := by
  have ran : run (step ⟨4, 1, by decide, by decide⟩) ({} : Manager)
      [.allocate 5 [.page 0, .throws]] = .ok _ := rfl
  exact ⟨_, ran, (Reachable.one_place ⟨_, ran⟩ 3).trans (if_pos (by decide))⟩

/-- `alloc_internal` asks for at most `needSize` pages, and then its loop is over. What it has
taken are at most `needSize` distinct blocks that belonged to nobody. -/
theorem Reachable.allocInternal_takes {needSize : Nat} (reachable : Reachable g m) :
    (∃ outcome m', m.allocInternal g needSize answers = .ok (outcome, m') ∧
      outcome.taken.length ≤ needSize ∧ outcome.taken.Nodup ∧
      ∀ b ∈ outcome.taken, b ∈ m'.blocksOf g ∧ b ∉ m.handedOut ∧ b ∉ m.lost) ∨
    m.allocInternal g needSize answers = .error .pageInUse ∨
    m.allocInternal g needSize answers = .error .noAnswer ∧ answers.length < needSize := by
  obtain ⟨⟨outcome, m'⟩, ran⟩ | fails := allocInternal_ends reachable.inv
  · left
    have looped := allocInternal_looped reachable.inv ran
    have single (b : Nat) := looped.inv.partition b ▸ count_blocksOf_le looped.inv b
    refine ⟨outcome, m', ran, ?_, ?_, ?_⟩
    · have bound := looped.at_most
      rw [length_fromReserve] at bound
      omega
    · apply List.nodup_iff_count_le_one.mpr
      intro b
      have := single b
      omega
    · intro b hb
      have taken := List.count_pos_iff.mpr hb
      have := single b
      rw [looped.same.handed, looped.same.lost] at this
      refine ⟨looped.inv.mem_iff.mpr (.inr (.inr (.inr (.inr hb)))), ?_, ?_⟩
      · exact List.count_eq_zero.mp (by simp only [withoutReserve] at this; omega)
      · exact List.count_eq_zero.mp (by simp only [withoutReserve] at this; omega)
  · exact .inr (fails.imp_right fun ends => ⟨ends.1, by omega⟩)

theorem allocInternal_takes_five : ∃ outcome m', ({} : Manager).allocInternal
    ⟨4, 1, by decide, by decide⟩ 5 [.page 0, .page 1] = .ok (outcome, m') ∧
      outcome.taken.Nodup := by
  obtain ⟨outcome, m', ran, -, distinct, -⟩ | fails | fails :=
    @Reachable.allocInternal_takes ⟨4, 1, by decide, by decide⟩ {} [.page 0, .page 1] 5
      ⟨[], rfl⟩
  · exact ⟨outcome, m', ran, distinct⟩
  · cases fails
  · cases fails.1

end Manager

end Xllm.XTensorBlocks
