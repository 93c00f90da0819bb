import Mathlib.Data.List.ProdSigma
import Xllm.Lib.Contract
import Xllm.Lib.Supply
import Xllm.XTensor.PhyPagePool

/-!
# Mapping the KV tensors of a model

A worker keeps one K and one V tensor for each layer of a model. `map_to_kv_tensors` maps the
requested offsets in all of them, each with a page of `PhyPagePool`, and
`unmap_from_kv_tensors` gives the pages back.

Offsets are signed 64-bit integers that are divided as unsigned ones. Virtual addresses, the
sizes of the tensors and the weights are left out; other users of the pool take and return
pages between two calls.
-/

namespace Xllm.KvTensors

open Contract Supply List Function

inductive TensorCheck where
  | poolNotInitialized
  | offsetNotAligned
  | numLayersMismatch
  | tensorsCreated
  | layerOutOfRange

structure PhyPagePool where
  initialized : Bool := true
  freePageIds : List Nat

def PhyPagePool.batchGet (pool : PhyPagePool) (count : Nat) :
    Except TensorCheck (List Nat × PhyPagePool) :=
  if pool.initialized then
    if pool.freePageIds.length < count then .ok ([], pool)
    else
      .ok (pool.freePageIds.take count,
        { pool with freePageIds := pool.freePageIds.drop count })
  else .error .poolNotInitialized

def PhyPagePool.batchPut (pool : PhyPagePool) (pages : List Nat) :
    Except TensorCheck PhyPagePool :=
  if pool.initialized then .ok { pool with freePageIds := pages.reverse ++ pool.freePageIds }
  else .error .poolNotInitialized

/-- The free pages of the whole pool. -/
def PhyPagePool.of (p : PagePool.PhyPagePool) : PhyPagePool :=
  ⟨p.initialized, p.freePageIds.map Int.toNat⟩

variable {p : PagePool.PhyPagePool}

theorem popPages_free {count : Nat} (hnodup : p.freePageIds.Nodup)
    (hpresent : ∀ i ∈ p.freePageIds, p.allPages i = some ⟨p.device, i⟩)
    (hle : count ≤ p.freePageIds.length) :
    (PagePool.PhyPagePool.popPages count p).1 =
        (p.freePageIds.take count).map (fun i => some ⟨p.device, i⟩) ∧
      PhyPagePool.of (PagePool.PhyPagePool.popPages count p).2 =
        ⟨p.initialized, (p.freePageIds.drop count).map Int.toNat⟩ := by
  induction count generalizing p with
  | zero => exact ⟨rfl, rfl⟩
  | succ count ih =>
      rw [PagePool.PhyPagePool.popPages]
      cases hfree : p.freePageIds with
      | nil =>
          rw [hfree] at hle
          cases hle
      | cons i rest =>
          rw [hfree] at hnodup hle hpresent
          obtain ⟨hi, hrest⟩ := nodup_cons.mp hnodup
          have hpages := ih (p := p.popFront i rest) hrest
            (fun j hj => (update_of_ne (ne_of_mem_of_not_mem hj hi) ..).trans
              (hpresent j (mem_cons_of_mem i hj))) (Nat.le_of_succ_le_succ hle)
          refine ⟨?_, hpages.2⟩
          rw [take_succ_cons, map_cons, ← hpresent i mem_cons_self]
          exact congrArg _ hpages.1

/-- `batch_get` of the whole pool takes the same pages. -/
theorem batchGet_of (hnodup : p.freePageIds.Nodup)
    (hpresent : ∀ i ∈ p.freePageIds, p.allPages i = some ⟨p.device, i⟩) (count : Nat) :
    ((PhyPagePool.of p).batchGet count).toOption =
      (p.batchGet count).toOption.map fun r =>
        (r.1.filterMap fun page => page.map fun page => page.pageId.toNat, PhyPagePool.of r.2) := by
  rw [PhyPagePool.batchGet, PagePool.PhyPagePool.batchGet]
  cases hinit : p.initialized with
  | false => simp [PhyPagePool.of, hinit, Except.toOption]
  | true =>
      by_cases hzero : count = 0
      · subst hzero
        simp [PhyPagePool.of, hinit, Except.toOption]
      · by_cases hshort : p.freePageIds.length < count
        · simp [PhyPagePool.of, hinit, hshort, Except.toOption]
        · obtain ⟨hpages, hfree⟩ := popPages_free hnodup hpresent (Nat.le_of_not_lt hshort)
          simp only [PhyPagePool.of, hinit,
            hzero, hshort, List.length_map]
          refine congrArg some (Prod.ext ?_ ?_)
          · change _ = filterMap _ (PagePool.PhyPagePool.popPages count p).1
            rw [hpages, filterMap_map, ← map_take]
            exact (congrFun filterMap_eq_map _).symm
          · refine Eq.trans ?_ hfree.symm
            rw [hinit, map_drop]

/-- `batch_put` of the whole pool puts the same pages back. -/
theorem batchPut_of (hinit : p.initialized = true) {ids : List Int}
    (hrange : ∀ i ∈ ids, p.InRange i) :
    ((PhyPagePool.of p).batchPut (ids.map Int.toNat)).toOption =
      (p.batchPut (ids.map fun i => some ⟨p.device, i⟩)).toOption.map PhyPagePool.of := by
  have hput : ∀ (ids : List Int) (p : PagePool.PhyPagePool), p.initialized = true →
      (∀ i ∈ ids, p.InRange i) → ∃ p', p.putPages (ids.map fun i => some ⟨p.device, i⟩) = .ok p' ∧
        PhyPagePool.of p' = ⟨true, (ids.map Int.toNat).reverse ++ p.freePageIds.map Int.toNat⟩ := by
    intro ids
    induction ids with
    | nil => exact fun p hinit _ => ⟨p, rfl, by simp [PhyPagePool.of, hinit]⟩
    | cons i ids ih =>
        intro p hinit hrange
        obtain ⟨hi, hrest⟩ := forall_mem_cons.mp hrange
        obtain ⟨p', hrun, hfree⟩ := ih { p with
          allPages := update p.allPages i (some ⟨p.device, i⟩)
          pageAllocated := update p.pageAllocated i false
          freePageIds := i :: p.freePageIds } hinit hrest
        refine ⟨p', ?_, hfree.trans (by simp)⟩
        rw [← hrun]
        change (p.putPage ⟨p.device, i⟩ >>= _) = _
        rw [PagePool.PhyPagePool.putPage, if_neg (not_not.mpr rfl), if_neg (not_not.mpr hi)]
        rfl
  obtain ⟨p', hrun, hfree⟩ := hput ids p hinit hrange
  rw [PhyPagePool.batchPut, PagePool.PhyPagePool.batchPut, hrun]
  cases ids with
  | nil =>
      simp [PhyPagePool.of, hinit, Except.toOption]
  | cons i ids =>
      simp only [PhyPagePool.of, hinit]
      exact congrArg some hfree.symm

/-- `XTensor`: the pages that are mapped, each with its physical page. -/
structure XTensor where
  mapping : List (Nat × Nat) := []

def toSize (offset : Int) : Nat :=
  (offset % 18446744073709551616).toNat

def XTensor.map (x : XTensor) (pageSize : Nat) (pool : PhyPagePool) (offset : Int) :
    Except TensorCheck (Bool × PhyPagePool × XTensor) :=
  if toSize offset % pageSize = 0 then
    let pageId := toSize offset / pageSize
    if pageId ∈ x.mapping.map Prod.fst then .ok (true, pool, x)
    else do
      let (phyPages, pool) ← pool.batchGet 1
      match phyPages with
      | [] => .ok (false, pool, x)
      | page :: _ => .ok (true, pool, ⟨(pageId, page) :: x.mapping⟩)
  else .error .offsetNotAligned

def XTensor.unmap (x : XTensor) (pageSize : Nat) (pool : PhyPagePool) (offset : Int) :
    Except TensorCheck (PhyPagePool × XTensor) :=
  if toSize offset % pageSize = 0 then
    let pageId := toSize offset / pageSize
    match x.mapping.lookup pageId with
    | none => .ok (pool, x)
    | some page => do
        let pool ← pool.batchPut [page]
        .ok (pool, ⟨x.mapping.filter fun entry => entry.1 != pageId⟩)
  else .error .offsetNotAligned

inductive Side where
  | k
  | v
  deriving DecidableEq

structure ModelTensors where
  kTensors : List XTensor := []
  vTensors : List XTensor := []
  numLayers : Nat := 0

def ModelTensors.side (t : ModelTensors) : Side → List XTensor
  | .k => t.kTensors
  | .v => t.vTensors

def ModelTensors.setTensor (t : ModelTensors) (layer : Nat) (x : XTensor) : Side → ModelTensors
  | .k => { t with kTensors := t.kTensors.set layer x }
  | .v => { t with vTensors := t.vTensors.set layer x }

structure Allocator where
  pageSize : Nat
  pool : PhyPagePool
  modelTensors : String → Option ModelTensors := fun _ => none

/-- The pool and the tensors of the model, while they are mapped. -/
abbrev Mapping := PhyPagePool × ModelTensors

/-- `map` of one tensor, whose answer is not looked at. -/
def mapAt (pageSize : Nat) (s : Mapping) (layer : Nat) (side : Side) (offset : Int) :
    Except TensorCheck Mapping :=
  match (s.2.side side)[layer]? with
  | none => .error .layerOutOfRange
  | some x => do
      let (_, pool, x) ← x.map pageSize s.1 offset
      .ok (pool, s.2.setTensor layer x side)

def unmapAt (pageSize : Nat) (s : Mapping) (layer : Nat) (side : Side) (offset : Int) :
    Except TensorCheck Mapping :=
  match (s.2.side side)[layer]? with
  | none => .error .layerOutOfRange
  | some x => do
      let (pool, x) ← x.unmap pageSize s.1 offset
      .ok (pool, s.2.setTensor layer x side)

/-- The loop over the layers and, inside it, over the offsets: K, then V. -/
def forEachTensor
    (act : Mapping → Nat → Side → Int → Except TensorCheck Mapping)
    (offsets : List Int) (s : Mapping) : Except TensorCheck Mapping :=
  (range s.2.numLayers).foldlM (fun s layer =>
    offsets.foldlM (fun s offset => do
      let s ← act s layer .k offset
      act s layer .v offset) s) s

/-- Both interfaces answer `false` without a model or without its tensors. -/
def Allocator.withTensors (a : Allocator) (modelId : String)
    (body : Mapping → Except TensorCheck Mapping) : Except TensorCheck (Bool × Allocator) :=
  match a.modelTensors modelId with
  | none => .ok (false, a)
  | some tensors =>
      if tensors.kTensors = [] ∨ tensors.vTensors = [] then .ok (false, a)
      else do
        let (pool, tensors) ← body (a.pool, tensors)
        .ok (true, { a with
          pool, modelTensors := update a.modelTensors modelId (some tensors) })

def Allocator.mapToKvTensors (a : Allocator) (modelId : String) (offsets : List Int) :
    Except TensorCheck (Bool × Allocator) :=
  a.withTensors modelId (forEachTensor (mapAt a.pageSize) offsets)

def Allocator.unmapFromKvTensors (a : Allocator) (modelId : String) (offsets : List Int) :
    Except TensorCheck (Bool × Allocator) :=
  a.withTensors modelId (forEachTensor (unmapAt a.pageSize) offsets)

def Allocator.createKvTensors (a : Allocator) (modelId : String) (side : Side) (numLayers : Nat) :
    Except TensorCheck Allocator :=
  let model := (a.modelTensors modelId).getD {}
  if model.numLayers = 0 ∨ model.numLayers = numLayers then
    if model.side side = [] then
      let tensors := List.replicate numLayers ({} : XTensor)
      let model : ModelTensors := match side with
        | .k => { model with kTensors := tensors, numLayers }
        | .v => { model with vTensors := tensors, numLayers }
      .ok { a with modelTensors := update a.modelTensors modelId (some model) }
    else .error .tensorsCreated
  else .error .numLayersMismatch

/-- What changes the tensors, and what the other users of the pool leave. -/
inductive AllocatorOp where
  | create (modelId : String) (side : Side) (numLayers : Nat)
  | map (modelId : String) (offsets : List Int)
  | unmap (modelId : String) (offsets : List Int)
  | poolUsed (freePageIds : List Nat)

def Allocator.step (a : Allocator) : AllocatorOp → Except TensorCheck Allocator
  | .create modelId side numLayers => a.createKvTensors modelId side numLayers
  | .map modelId offsets => (a.mapToKvTensors modelId offsets).map Prod.snd
  | .unmap modelId offsets => (a.unmapFromKvTensors modelId offsets).map Prod.snd
  | .poolUsed freePageIds => .ok { a with pool := { a.pool with freePageIds } }

def Allocator.init (pageSize numPages : Nat) : Allocator where
  pageSize
  pool := { freePageIds := range numPages }

def Allocator.Reachable (a : Allocator) : Prop :=
  ∃ pageSize numPages ops, run Allocator.step (Allocator.init pageSize numPages) ops = .ok a

/-- Each side has a tensor for every layer, or none yet. -/
def ModelTensors.Complete (t : ModelTensors) : Prop :=
  ∀ side, t.side side = [] ∨ (t.side side).length = t.numLayers

structure Allocator.Sound (a : Allocator) : Prop where
  initialized : a.pool.initialized = true
  complete : ∀ modelId t, a.modelTensors modelId = some t → t.Complete

/-- Nothing but the contents of the tensors and the free pages is different. -/
structure SameShape (s s' : Mapping) : Prop where
  initialized : s'.1.initialized = s.1.initialized
  numLayers : s'.2.numLayers = s.2.numLayers
  lengths : ∀ side, (s'.2.side side).length = (s.2.side side).length

variable {s s' : Mapping} {layer pageSize : Nat} {side : Side} {offset : Int} {x : XTensor}

theorem SameShape.refl (s : Mapping) : SameShape s s :=
  ⟨rfl, rfl, fun _ => rfl⟩

theorem SameShape.trans {s₁ s₂ s₃ : Mapping} (h : SameShape s₁ s₂) (h' : SameShape s₂ s₃) :
    SameShape s₁ s₃ :=
  ⟨h'.initialized.trans h.initialized, h'.numLayers.trans h.numLayers,
    fun side => (h'.lengths side).trans (h.lengths side)⟩

@[simp] theorem side_setTensor_same (t : ModelTensors) :
    (t.setTensor layer x side).side side = (t.side side).set layer x := by
  cases side <;> rfl

@[simp] theorem side_setTensor_ne (t : ModelTensors) {other : Side} (h : side ≠ other) :
    (t.setTensor layer x side).side other = t.side other := by
  cases side <;> cases other <;> first | exact absurd rfl h | rfl

theorem sameShape_setTensor (t : ModelTensors) (pool pool' : PhyPagePool)
    (h : pool'.initialized = pool.initialized) :
    SameShape (pool, t) (pool', t.setTensor layer x side) := by
  constructor
  · exact h
  · cases side <;> rfl
  · intro other
    by_cases same : side = other
    · subst same
      rw [side_setTensor_same, List.length_set]
    · rw [side_setTensor_ne t same]

theorem batchGet_initialized (pool : PhyPagePool) (count : Nat) : IfOk (pool.batchGet count)
      fun r => r.2.initialized = pool.initialized := by
  rw [PhyPagePool.batchGet]
  split
  · split
    · exact rfl
    · exact rfl
  · exact trivial

theorem map_initialized (x : XTensor) (pool : PhyPagePool) : IfOk (x.map pageSize pool offset)
      fun r => r.2.1.initialized = pool.initialized := by
  rw [XTensor.map]
  split
  · simp only
    split
    · exact rfl
    · refine (batchGet_initialized pool 1).bind ?_
      rintro ⟨pages, pool'⟩ h
      cases pages with
      | nil => exact h
      | cons page pages => exact h
  · exact trivial

theorem unmap_initialized (x : XTensor) (pool : PhyPagePool) : IfOk (x.unmap pageSize pool offset)
      fun r => r.1.initialized = pool.initialized := by
  rw [XTensor.unmap]
  split
  · simp only
    split
    · exact rfl
    · have put : ∀ page, IfOk (pool.batchPut [page])
          fun pool' => pool'.initialized = pool.initialized := by
        intro page
        rw [PhyPagePool.batchPut]
        split
        · exact rfl
        · exact trivial
      exact (put _).bind fun pool' h => h
  · exact trivial

theorem mapAt_sameShape : IfOk (mapAt pageSize s layer side offset) (SameShape s) := by
  rw [mapAt]
  split
  · exact trivial
  · refine (map_initialized _ s.1).bind ?_
    rintro ⟨answer, pool, x⟩ h
    exact sameShape_setTensor s.2 s.1 pool h

theorem unmapAt_sameShape : IfOk (unmapAt pageSize s layer side offset) (SameShape s) := by
  rw [unmapAt]
  split
  · exact trivial
  · refine (unmap_initialized _ s.1).bind ?_
    rintro ⟨pool, x⟩ h
    exact sameShape_setTensor s.2 s.1 pool h

theorem forEachTensor_sameShape
    {act : Mapping → Nat → Side → Int → Except TensorCheck Mapping}
    (each : ∀ s layer side offset, IfOk (act s layer side offset) (SameShape s))
    (offsets : List Int) (s : Mapping) : IfOk (forEachTensor act offsets s) (SameShape s) := by
  have layerStep : ∀ t layer, SameShape s t → IfOk
      (offsets.foldlM (fun s offset => act s layer .k offset >>= fun s => act s layer .v offset) t)
      (SameShape s) := by
    intro t layer ht
    refine Ensures.run (fun t offset ht => ?_) ht
    refine ((each t layer .k offset).mono_post fun _ h => ht.trans h).bind fun u hu => ?_
    exact (each u layer .v offset).mono_post fun _ h => hu.trans h
  exact Ensures.run (fun t layer ht => layerStep t layer ht) (SameShape.refl s)

variable {a : Allocator}

theorem withTensors_sound (h : a.Sound) (modelId : String)
    {body : Mapping → Except TensorCheck Mapping}
    (shape : ∀ s, IfOk (body s) (SameShape s)) :
    IfOk (a.withTensors modelId body) fun r => r.2.Sound := by
  rw [Allocator.withTensors]
  split
  · exact h
  · next t ht =>
      split
      · exact h
      · refine (shape (a.pool, t)).bind ?_
        rintro ⟨pool, t'⟩ same
        constructor
        · exact same.initialized.trans h.initialized
        · intro m u hu
          by_cases hm : m = modelId
          · subst hm
            simp only [update_self, Option.some.injEq] at hu
            subst hu
            intro side
            have len := same.lengths side
            cases h.complete m t ht side with
            | inl hnil =>
                left
                rw [hnil] at len
                exact List.length_eq_zero_iff.mp len
            | inr hlen => exact .inr (len.trans (hlen.trans same.numLayers.symm))
          · simp only [update_of_ne hm] at hu
            exact h.complete m u hu

theorem createKvTensors_sound (h : a.Sound) (modelId : String) (side : Side)
    (numLayers : Nat) : IfOk (a.createKvTensors modelId side numLayers) Allocator.Sound := by
  have before : ((a.modelTensors modelId).getD {}).Complete := by
    cases hm : a.modelTensors modelId with
    | none =>
        intro side
        cases side <;> exact .inl rfl
    | some t => exact h.complete modelId t hm
  rw [Allocator.createKvTensors]
  split
  · next layers =>
      split
      · constructor
        · exact h.initialized
        · intro m u hu
          by_cases hm : m = modelId
          · subst hm
            simp only [update_self, Option.some.injEq] at hu
            subst hu
            -- the other side has the same number of layers, or no tensor
            have others : ∀ other, (((a.modelTensors m).getD {}).side other) = [] ∨
                (((a.modelTensors m).getD {}).side other).length = numLayers := by
              intro other
              cases before other with
              | inl hnil => exact .inl hnil
              | inr hlen =>
                  cases layers with
                  | inl none_yet =>
                      rw [none_yet] at hlen
                      exact .inl (List.length_eq_zero_iff.mp hlen)
                  | inr same => exact .inr (hlen.trans same)
            intro other
            cases side <;> cases other
            · exact .inr length_replicate
            · exact others .v
            · exact others .k
            · exact .inr length_replicate
          · simp only [update_of_ne hm] at hu
            exact h.complete m u hu
      · exact trivial
  · exact trivial

theorem ensures_map_snd {r : Except TensorCheck (Bool × Allocator)} {P : Allocator → Prop}
    (h : IfOk r fun r => P r.2) : IfOk (r.map Prod.snd) P := by
  cases r with
  | error e => exact trivial
  | ok r => exact h

theorem step_sound (op : AllocatorOp) (h : a.Sound) :
    IfOk (a.step op) Allocator.Sound := by
  cases op with
  | create modelId side numLayers => exact createKvTensors_sound h modelId side numLayers
  | map modelId offsets =>
      apply ensures_map_snd
      apply withTensors_sound h
      exact fun s => forEachTensor_sameShape (fun _ _ _ _ => mapAt_sameShape) offsets s
  | unmap modelId offsets =>
      apply ensures_map_snd
      apply withTensors_sound h
      exact fun s => forEachTensor_sameShape (fun _ _ _ _ => unmapAt_sameShape) offsets s
  | poolUsed freePageIds => exact ⟨h.initialized, h.complete⟩

theorem Allocator.Reachable.sound (reachable : a.Reachable) : a.Sound := by
  obtain ⟨pageSize, numPages, ops, hrun⟩ := reachable
  have start : (Allocator.init pageSize numPages).Sound := by
    constructor
    · rfl
    · intro m t ht
      cases ht
  exact (Ensures.run (fun a op h => step_sound op h) start).of_ok hrun

/-- A page of one tensor: the layer, the side and the page. -/
abbrev Slot := Nat × Side × Nat

/-- The pages that one side has mapped. -/
def sideSlots (side : Side) (tensors : List XTensor) : List Slot :=
  tensors.zipIdx.flatMap fun entry => entry.1.mapping.map fun page => (entry.2, side, page.1)

def ModelTensors.slots (t : ModelTensors) : Finset Slot :=
  (sideSlots .k t.kTensors ++ sideSlots .v t.vTensors).toFinset

theorem mem_sideSlots {tensors : List XTensor} {other : Side} {page : Nat} :
    (layer, other, page) ∈ sideSlots side tensors ↔
      other = side ∧ ∃ x, tensors[layer]? = some x ∧ page ∈ x.mapping.map Prod.fst := by
  rw [sideSlots, mem_flatMap]
  constructor
  · rintro ⟨⟨x, i⟩, hx, hmem⟩
    obtain ⟨entry, hentry, heq⟩ := List.mem_map.mp hmem
    cases heq
    exact ⟨rfl, x, List.mem_zipIdx_iff_getElem?.mp hx, List.mem_map.mpr ⟨entry, hentry, rfl⟩⟩
  · rintro ⟨rfl, x, hx, hpage⟩
    obtain ⟨entry, hentry, rfl⟩ := List.mem_map.mp hpage
    exact ⟨(x, layer), List.mem_zipIdx_iff_getElem?.mpr hx,
      List.mem_map.mpr ⟨entry, hentry, rfl⟩⟩

theorem mem_slots {t : ModelTensors} {page : Nat} :
    (layer, side, page) ∈ t.slots ↔
      ∃ x, (t.side side)[layer]? = some x ∧ page ∈ x.mapping.map Prod.fst := by
  rw [ModelTensors.slots, mem_toFinset, mem_append, mem_sideSlots, mem_sideSlots]
  cases side <;> simp [ModelTensors.side]

theorem slots_setTensor {t : ModelTensors} {page phy : Nat}
    (hx : (t.side side)[layer]? = some x) :
    (t.setTensor layer ⟨(page, phy) :: x.mapping⟩ side).slots =
      insert (layer, side, page) t.slots := by
  ext ⟨i, other, q⟩
  rw [Finset.mem_insert, mem_slots, mem_slots]
  by_cases hside : side = other
  · subst hside
    rw [side_setTensor_same]
    by_cases hi : layer = i
    · subst hi
      have hlt : layer < (t.side side).length := (List.getElem?_eq_some_iff.mp hx).1
      rw [getElem?_set_self hlt, hx]
      simp only [Option.some.injEq, exists_eq_left', map_cons, mem_cons,
        Prod.mk.injEq, true_and]
    · rw [getElem?_set_ne hi]
      simp [Ne.symm hi]
  · rw [side_setTensor_ne t hside]
    simp [Ne.symm hside]

theorem slots_setTensor_same {t : ModelTensors} (hx : (t.side side)[layer]? = some x) :
    t.setTensor layer x side = t := by
  obtain ⟨hlt, hget⟩ := List.getElem?_eq_some_iff.mp hx
  cases side with
  | k =>
      have same : t.kTensors.set layer x = t.kTensors := by
        rw [← hget]
        exact set_getElem_self hlt
      rw [ModelTensors.setTensor, same]
  | v =>
      have same : t.vTensors.set layer x = t.vTensors := by
        rw [← hget]
        exact set_getElem_self hlt
      rw [ModelTensors.setTensor, same]

def account (s : Mapping) : Nat × Finset Slot :=
  (s.1.freePageIds.length, s.2.slots)

def pageOf (pageSize : Nat) (offset : Int) : Nat :=
  toSize offset / pageSize

/-- Mapping one offset of one tensor is one request to the supply of free pages. -/
theorem mapAt_serve (initialized : s.1.initialized = true)
    (aligned : toSize offset % pageSize = 0) (hlt : layer < (s.2.side side).length) :
    Ensures (mapAt pageSize s layer side offset) (fun _ => False)
      fun s' => account s' = serve (account s) (layer, side, pageOf pageSize offset) := by
  obtain ⟨pool, t⟩ := s
  have hx : (t.side side)[layer]? = some ((t.side side)[layer]) := getElem?_eq_getElem hlt
  simp only at initialized
  rw [mapAt]
  simp only [hx]
  rw [XTensor.map, if_pos aligned]
  by_cases there : toSize offset / pageSize ∈ ((t.side side)[layer]).mapping.map Prod.fst
  · have mapped : (layer, side, pageOf pageSize offset) ∈ t.slots := mem_slots.mpr ⟨_, hx, there⟩
    simp only [if_pos there, ok_bind]
    rw [slots_setTensor_same hx]
    exact (serve_there mapped).symm
  · have missing : (layer, side, pageOf pageSize offset) ∉ t.slots := by
      intro mapped
      obtain ⟨y, hy, hpage⟩ := mem_slots.mp mapped
      rw [hx] at hy
      cases hy
      exact there hpage
    simp only [if_neg there, PhyPagePool.batchGet, initialized, if_true]
    cases hfree : pool.freePageIds with
    | nil =>
        have empty : account (pool, t) = (0, t.slots) := by rw [account, hfree, length_nil]
        simp only [length_nil, Nat.lt_one_iff, if_true, ok_bind]
        rw [slots_setTensor_same hx, ensures_ok, empty]
        exact serve_empty.symm
    | cons page pages =>
        have some_free : account (pool, t) = (pages.length + 1, t.slots) := by
          rw [account, hfree, length_cons]
        have enough : ¬ (page :: pages).length < 1 := by simp
        simp only [if_neg enough, take_succ_cons, ok_bind]
        rw [ensures_ok, some_free, serve_missing missing, account, slots_setTensor hx]
        rfl

def requests (pageSize numLayers : Nat) (offsets : List Int) : List Slot :=
  (range numLayers).flatMap fun layer => offsets.flatMap fun offset =>
    [(layer, .k, pageOf pageSize offset), (layer, .v, pageOf pageSize offset)]

variable {numLayers : Nat}

theorem mem_requests {offsets : List Int} {slot : Slot} :
    slot ∈ requests pageSize numLayers offsets ↔
      slot.1 < numLayers ∧ ∃ offset ∈ offsets, slot.2.2 = pageOf pageSize offset := by
  obtain ⟨layer, side, page⟩ := slot
  rw [requests, mem_flatMap]
  constructor
  · rintro ⟨i, hi, hmem⟩
    obtain ⟨offset, hoffset, hslot⟩ := List.mem_flatMap.mp hmem
    rw [mem_pair] at hslot
    obtain hslot | hslot := hslot
    · cases hslot
      exact ⟨List.mem_range.mp hi, offset, hoffset, rfl⟩
    · cases hslot
      exact ⟨List.mem_range.mp hi, offset, hoffset, rfl⟩
  · rintro ⟨hi, offset, hoffset, hpage⟩
    simp only at hi hpage
    refine ⟨layer, List.mem_range.mpr hi, List.mem_flatMap.mpr ⟨offset, hoffset, ?_⟩⟩
    rw [hpage]
    cases side <;> simp

variable {offsets : List Int} {final : Nat × Finset Slot}

structure Ready (s : Mapping) : Prop where
  initialized : s.1.initialized = true
  lengths : ∀ side, (s.2.side side).length = s.2.numLayers

theorem Ready.of_sameShape (ready : Ready s) (same : SameShape s s') : Ready s' := by
  constructor
  · exact same.initialized.trans ready.initialized
  · intro side
    rw [same.lengths side, same.numLayers]
    exact ready.lengths side

structure Serving (numLayers : Nat) (final : Nat × Finset Slot) (rest : List Slot) (s : Mapping) :
    Prop where
  ready : Ready s
  layers : s.2.numLayers = numLayers
  rest_eq : serveAll (account s) rest = final

theorem mapAt_serving {rest : List Slot}
    (h : Serving numLayers final ((layer, side, pageOf pageSize offset) :: rest) s)
    (aligned : toSize offset % pageSize = 0) (hlt : layer < numLayers) :
    Yields (mapAt pageSize s layer side offset) (Serving numLayers final rest) := by
  have within : layer < (s.2.side side).length := by
    rw [h.ready.lengths side, h.layers]
    exact hlt
  have served := mapAt_serve h.ready.initialized aligned within
  refine (served.and mapAt_sameShape).mono (fun _ e => e.1) ?_
  rintro s' ⟨account_eq, same⟩
  constructor
  · exact h.ready.of_sameShape same
  · exact same.numLayers.trans h.layers
  · rw [account_eq]
    exact h.rest_eq

def layerRequests (pageSize : Nat) (offsets : List Int) (layer : Nat) : List Slot :=
  offsets.flatMap fun offset =>
    [(layer, .k, pageOf pageSize offset), (layer, .v, pageOf pageSize offset)]

theorem mapLayer_serving {rest : List Slot}
    (h : Serving numLayers final (layerRequests pageSize offsets layer ++ rest) s)
    (aligned : ∀ offset ∈ offsets, toSize offset % pageSize = 0) (hlt : layer < numLayers) :
    Yields (offsets.foldlM (fun s offset =>
        mapAt pageSize s layer .k offset >>= fun s => mapAt pageSize s layer .v offset) s)
      (Serving numLayers final rest) := by
  induction offsets generalizing s with
  | nil => exact h
  | cons offset offsets ih =>
      rw [forall_mem_cons] at aligned
      refine Ensures.bind ?_ fun s' h' => ih h' aligned.2
      refine (mapAt_serving h aligned.1 hlt).bind fun s' h' => ?_
      exact mapAt_serving h' aligned.1 hlt

theorem mapLayers_serving {layers : List Nat}
    (h : Serving numLayers final (layers.flatMap (layerRequests pageSize offsets)) s)
    (aligned : ∀ offset ∈ offsets, toSize offset % pageSize = 0)
    (within : ∀ layer ∈ layers, layer < numLayers) :
    Yields (layers.foldlM (fun s layer => offsets.foldlM (fun s offset =>
        mapAt pageSize s layer .k offset >>= fun s => mapAt pageSize s layer .v offset) s) s)
      (Serving numLayers final []) := by
  induction layers generalizing s with
  | nil => exact h
  | cons layer layers ih =>
      rw [forall_mem_cons] at within
      exact (mapLayer_serving h aligned within.1).bind fun s' h' => ih h' within.2

theorem forEachTensor_serving (ready : Ready s)
    (aligned : ∀ offset ∈ offsets, toSize offset % pageSize = 0) :
    Yields (forEachTensor (mapAt pageSize) offsets s) fun s' =>
      s'.2.numLayers = s.2.numLayers ∧
      account s' = serveAll (account s) (requests pageSize s.2.numLayers offsets) := by
  have start : Serving s.2.numLayers
      (serveAll (account s) (requests pageSize s.2.numLayers offsets))
      ((range s.2.numLayers).flatMap (layerRequests pageSize offsets)) s :=
    ⟨ready, rfl, rfl⟩
  have within : ∀ layer ∈ range s.2.numLayers, layer < s.2.numLayers :=
    fun _ => List.mem_range.mp
  refine (mapLayers_serving start aligned within).mono_post ?_
  intro s' served
  exact ⟨served.layers, served.rest_eq⟩

theorem mapAt_aligned : IfOk (mapAt pageSize s layer side offset)
      fun _ => toSize offset % pageSize = 0 := by
  apply ensures_of_forall_ok
  intro s' h
  rw [mapAt] at h
  split at h
  · cases h
  · obtain ⟨r, hr, -⟩ := bind_eq_ok h
    rw [XTensor.map] at hr
    split at hr
    · assumption
    · cases hr

theorem mapLayer_aligned : IfOk (offsets.foldlM (fun s offset =>
        mapAt pageSize s layer .k offset >>= fun s => mapAt pageSize s layer .v offset) s)
      fun _ => ∀ offset ∈ offsets, toSize offset % pageSize = 0 := by
  induction offsets generalizing s with
  | nil =>
      intro offset h
      cases h
  | cons offset offsets ih =>
      have first : IfOk (mapAt pageSize s layer .k offset >>= fun s =>
          mapAt pageSize s layer .v offset)
          fun _ => toSize offset % pageSize = 0 :=
        mapAt_aligned.bind fun s' aligned => ensures_any.mono_post fun _ _ => aligned
      refine first.bind fun s' aligned => ih.mono_post ?_
      intro _ rest
      exact List.forall_mem_cons.mpr ⟨aligned, rest⟩

theorem forEachTensor_aligned (some_layer : 0 < s.2.numLayers) :
    IfOk (forEachTensor (mapAt pageSize) offsets s)
      fun _ => ∀ offset ∈ offsets, toSize offset % pageSize = 0 := by
  obtain ⟨n, hn⟩ := Nat.exists_eq_succ_of_ne_zero some_layer.ne'
  rw [forEachTensor, hn, range_succ_eq_map]
  exact mapLayer_aligned.bind fun s' aligned => ensures_any.mono_post fun _ _ => aligned

def Allocator.MappedEverywhere (a : Allocator) (modelId : String) (offset : Int) : Prop :=
  ∃ t, a.modelTensors modelId = some t ∧
    ∀ layer < t.numLayers, ∀ side, (layer, side, pageOf a.pageSize offset) ∈ t.slots

def Allocator.MappedNowhere (a : Allocator) (modelId : String) (offset : Int) : Prop :=
  ∀ t, a.modelTensors modelId = some t →
    ∀ layer side, (layer, side, pageOf a.pageSize offset) ∉ t.slots

/-- `true` stands for offsets that are mapped in all tensors; behind `false` no offset that was
unmapped is mapped in some of the tensors only. -/
def MapReported (a : Allocator) (modelId : String) (offsets : List Int) : Prop :=
  match a.mapToKvTensors modelId offsets with
  | .error _ => True
  | .ok (true, b) => ∀ offset ∈ offsets, b.MappedEverywhere modelId offset
  | .ok (false, b) => ∀ offset ∈ offsets, a.MappedNowhere modelId offset →
      b.MappedNowhere modelId offset ∨ b.MappedEverywhere modelId offset

/-- The pages that a call has to map. -/
def ModelTensors.missing (t : ModelTensors) (pageSize : Nat) (offsets : List Int) : Finset Slot :=
  (requests pageSize t.numLayers offsets).toFinset \ t.slots

/-- The pool has a page for each of them, unless the call changes nothing or stops at an
offset that is not aligned. -/
def EnoughPages (a : Allocator) (modelId : String) (offsets : List Int) : Prop :=
  ∀ t, a.modelTensors modelId = some t → t.kTensors ≠ [] → t.vTensors ≠ [] →
    (∀ offset ∈ offsets, toSize offset % a.pageSize = 0) →
    (t.missing a.pageSize offsets).card ≤ a.pool.freePageIds.length

variable {a : Allocator} {modelId : String}

theorem mapReported_of_none (h : a.withTensors modelId (forEachTensor (mapAt a.pageSize) offsets) =
    .ok (false, a)) : MapReported a modelId offsets := by
  rw [MapReported, Allocator.mapToKvTensors, h]
  exact fun offset _ nowhere => .inl nowhere

/-- A call keeps its promise if and only if the pool has enough pages for it. -/
theorem map_reported_iff (reachable : a.Reachable) (modelId : String) (offsets : List Int) :
    MapReported a modelId offsets ↔ EnoughPages a modelId offsets := by
  have sound := reachable.sound
  cases hm : a.modelTensors modelId with
  | none =>
      have unknown : a.withTensors modelId (forEachTensor (mapAt a.pageSize) offsets) =
          .ok (false, a) := by rw [Allocator.withTensors, hm]
      constructor
      · intro _ t ht
        rw [hm] at ht
        cases ht
      · exact fun _ => mapReported_of_none unknown
  | some t =>
      by_cases created : t.kTensors = [] ∨ t.vTensors = []
      · have uncreated : a.withTensors modelId (forEachTensor (mapAt a.pageSize) offsets) =
            .ok (false, a) := by
          rw [Allocator.withTensors, hm]
          exact if_pos created
        constructor
        · intro _ u hu hk hv
          rw [hm] at hu
          cases hu
          exact absurd created (not_or.mpr ⟨hk, hv⟩)
        · exact fun _ => mapReported_of_none uncreated
      · have body : a.mapToKvTensors modelId offsets =
            forEachTensor (mapAt a.pageSize) offsets (a.pool, t) >>= fun s => .ok (true, { a with
              pool := s.1, modelTensors := update a.modelTensors modelId (some s.2) }) := by
          rw [Allocator.mapToKvTensors, Allocator.withTensors, hm]
          exact if_neg created
        rw [not_or] at created
        have ready : Ready (a.pool, t) := by
          constructor
          · exact sound.initialized
          · intro side
            apply (sound.complete modelId t hm side).resolve_left
            cases side with
            | k => exact created.1
            | v => exact created.2
        have some_layer : 0 < t.numLayers := by
          rw [← ready.lengths .k]
          exact List.length_pos_iff.mpr created.1
        by_cases aligned : ∀ offset ∈ offsets, toSize offset % a.pageSize = 0
        · obtain ⟨s', hs', layers, served⟩ := (forEachTensor_serving ready aligned).exists_ok
          rw [hs', ok_bind] at body
          have mapped : MapReported a modelId offsets ↔
              ∀ slot ∈ requests a.pageSize t.numLayers offsets, slot ∈ s'.2.slots := by
            rw [MapReported, body]
            simp only [Allocator.MappedEverywhere, update_self, Option.some.injEq,
              exists_eq_left']
            constructor
            · rintro all ⟨layer, side, page⟩ hslot
              obtain ⟨hlayer, offset, hoffset, rfl⟩ := mem_requests.mp hslot
              exact all offset hoffset layer (layers ▸ hlayer) side
            · intro all offset hoffset layer hlayer side
              apply all
              exact mem_requests.mpr ⟨layers ▸ hlayer, offset, hoffset, rfl⟩
          have slots : s'.2.slots = (serveAll (a.pool.freePageIds.length, t.slots)
              (requests a.pageSize t.numLayers offsets)).2 := congrArg Prod.snd served
          rw [mapped, slots, serveAll_covers_iff]
          constructor
          · intro enough u hu _ _ _
            rw [hm] at hu
            cases hu
            exact enough
          · exact fun enough => enough t hm created.1 created.2 aligned
        · constructor
          · exact fun _ _ _ _ _ all => absurd all aligned
          · intro _
            rw [MapReported, body]
            cases hrun : forEachTensor (mapAt a.pageSize) offsets (a.pool, t) with
            | error e => exact trivial
            | ok s' =>
                exact absurd ((forEachTensor_aligned (s := (a.pool, t)) some_layer).of_ok hrun)
                  aligned

def oneLayer : List AllocatorOp := [.create "m" .k 1, .create "m" .v 1]

theorem map_reported_two_pages :
    ∃ a, run Allocator.step (Allocator.init 1 2) oneLayer = .ok a ∧ MapReported a "m" [0, 0] := by
  refine ⟨_, rfl, (map_reported_iff ⟨1, 2, oneLayer, rfl⟩ "m" [0, 0]).mpr ?_⟩
  intro t ht _ _ _
  cases ht
  decide

/-- With one free page the K tensor gets it, the V tensor gets none, and the answer is `true`. -/
theorem mapped_in_k_only :
    ∃ a b, run Allocator.step (Allocator.init 1 1) oneLayer = .ok a ∧
      a.mapToKvTensors "m" [0] = .ok (true, b) ∧
      b.modelTensors "m" = some ⟨[⟨[(0, 0)]⟩], [⟨[]⟩], 1⟩ ∧ ¬ MapReported a "m" [0] := by
  refine ⟨_, _, rfl, rfl, rfl, ?_⟩
  intro reported
  obtain ⟨t, ht, all⟩ := reported 0 mem_cons_self
  cases ht
  exact absurd (all 0 (by decide) .v) (by decide)

end Xllm.KvTensors
