import Xllm.Lib.Owners
import Xllm.XTensor.BlockManager
import Xllm.XTensor.XTensorAllocator

/-!
# Blocks in the global tensor

`GlobalXTensor` maps all physical pages one behind the other. For the transfer between two
instances a block of a model is named by its offsets there, one in the K and one in the V
tensor of each layer. The attention kernels address the same block through the tensor of the
layer, where the pages are mapped in the order of their virtual ids.

The offsets are right for the blocks that lie on one page. The block manager never hands out
another one, since `get_block_range` leaves out the blocks that reach over the end of a page.
-/

namespace Xllm.KvTensors

open Contract Owners XTensorBlocks List Function

def XTensor.getPhyPageId (x : XTensor) (pageSize : Nat) (offset : Int) :
    Except TensorCheck Int :=
  if toSize offset % pageSize = 0 then
    match x.mapping.lookup (toSize offset / pageSize) with
    | none => .ok (-1)
    | some page => .ok page
  else .error .offsetNotAligned

/-- The byte of the global tensor that an access to one byte of a tensor reaches. -/
def XTensor.physicalByte (x : XTensor) (pageSize address : Nat) : Option Nat :=
  (x.mapping.lookup (address / pageSize)).map fun page => page * pageSize + address % pageSize

def Allocator.getGlobalOffsetsForBlock (a : Allocator) (globalInitialized : Bool)
    (modelId : String) (layerId : Int) (blockId blockSize : Nat) :
    Except TensorCheck (Option (Nat × Nat)) :=
  match a.modelTensors modelId with
  | none => .ok none
  | some tensors =>
      if layerId < 0 ∨ tensors.numLayers ≤ layerId then .ok none
      else if tensors.kTensors = [] ∨ tensors.vTensors = [] then .ok none
      else if !globalInitialized then .ok none
      else
        let localOffset : Int := ((blockId * blockSize / a.pageSize * a.pageSize : Nat) : Int)
        match tensors.kTensors[layerId.toNat]?, tensors.vTensors[layerId.toNat]? with
        | some kXtensor, some vXtensor => do
            let kPageId ← kXtensor.getPhyPageId a.pageSize localOffset
            if kPageId < 0 then .ok none
            else
              let vPageId ← vXtensor.getPhyPageId a.pageSize localOffset
              if vPageId < 0 then .ok none
              else
                let offsetWithinPage := blockId * blockSize % a.pageSize
                .ok (some (kPageId.toNat * a.pageSize + offsetWithinPage,
                  vPageId.toNat * a.pageSize + offsetWithinPage))
        | _, _ => .error .layerOutOfRange

structure SharedPool where
  allocator : Allocator
  others : List Nat := []

inductive SharedOp where
  | create (modelId : String) (side : Side) (numLayers : Nat)
  | map (modelId : String) (offsets : List Int)
  | unmap (modelId : String) (offsets : List Int)
  /-- The free ones of these pages go to other users. -/
  | othersTake (pageIds : List Nat)
  /-- Those of these pages that other users have come back, to the front or to the back. -/
  | othersReturn (pageIds : List Nat) (atFront : Bool)

namespace SharedPool

def setFree (w : SharedPool) (freePageIds others : List Nat) : SharedPool :=
  { allocator := { w.allocator with pool := { w.allocator.pool with freePageIds } }, others }

def step (w : SharedPool) : SharedOp → Except TensorCheck SharedPool
  | .create modelId side numLayers => do
      let allocator ← w.allocator.createKvTensors modelId side numLayers
      .ok { w with allocator }
  | .map modelId offsets => do
      let (_, allocator) ← w.allocator.mapToKvTensors modelId offsets
      .ok { w with allocator }
  | .unmap modelId offsets => do
      let (_, allocator) ← w.allocator.unmapFromKvTensors modelId offsets
      .ok { w with allocator }
  | .othersTake pageIds =>
      let free := w.allocator.pool.freePageIds
      .ok (w.setFree (free.filter fun i => i ∉ pageIds)
        (free.filter (fun i => i ∈ pageIds) ++ w.others))
  | .othersReturn pageIds atFront =>
      let free := w.allocator.pool.freePageIds
      let back := w.others.filter fun i => i ∈ pageIds
      .ok (w.setFree (if atFront then back ++ free else free ++ back)
        (w.others.filter fun i => i ∉ pageIds))

def start (pageSize numPages : Nat) : SharedPool where
  allocator := Allocator.init pageSize numPages

def run (w : SharedPool) (ops : List SharedOp) : Except TensorCheck SharedPool :=
  Contract.run step w ops

end SharedPool

def ModelTensors.page? (t : ModelTensors) (slot : Slot) : Option Nat :=
  (t.side slot.2.1)[slot.1]?.bind fun x => x.mapping.lookup slot.2.2

def Allocator.page? (a : Allocator) (key : String × Slot) : Option Nat :=
  (a.modelTensors key.1).bind fun t => t.page? key.2

def Allocator.put (a : Allocator) (modelId : String) (s : Mapping) : Allocator :=
  { a with
    pool := s.1
    modelTensors := update a.modelTensors modelId (some s.2) }

variable {a : Allocator} {s : Mapping} {modelId : String} {layer pageSize numPages : Nat}
  {side : Side} {offset : Int} {x : XTensor} {others : List Nat}
variable {t : ModelTensors}

theorem page?_setTensor (hlt : layer < (t.side side).length) (slot : Slot) :
    (t.setTensor layer x side).page? slot =
      if slot.1 = layer ∧ slot.2.1 = side then x.mapping.lookup slot.2.2 else t.page? slot := by
  obtain ⟨i, other, p⟩ := slot
  simp only [ModelTensors.page?]
  by_cases hside : side = other
  · subst hside
    by_cases hi : i = layer
    · subst hi
      simp [getElem?_set_self hlt]
    · simp [getElem?_set_ne (Ne.symm hi), hi]
  · have hother : ¬ (i = layer ∧ other = side) := fun h => hside h.2.symm
    rw [side_setTensor_ne t hside, if_neg hother]

@[simp] theorem page?_put (key : String × Slot) :
    (a.put modelId s).page? key = if key.1 = modelId then s.2.page? key.2 else a.page? key := by
  obtain ⟨m, slot⟩ := key
  by_cases hm : m = modelId
  · subst hm
    simp [Allocator.page?, Allocator.put]
  · simp [Allocator.page?, Allocator.put, hm]

theorem page?_put_setTensor {pool : PhyPagePool} (hlt : layer < (s.2.side side).length)
    {p : Nat} {page : Option Nat}
    (hhere : x.mapping.lookup p = page)
    (hthere : ∀ q, q ≠ p → x.mapping.lookup q = s.2.page? (layer, side, q)) :
    (a.put modelId (pool, s.2.setTensor layer x side)).page? =
      update (a.put modelId s).page? (modelId, layer, side, p) page := by
  funext key
  obtain ⟨m, i, other, q⟩ := key
  by_cases hkey : (m, i, other, q) = (modelId, layer, side, p)
  · cases hkey
    rw [update_self, page?_put, if_pos rfl, page?_setTensor hlt, if_pos ⟨rfl, rfl⟩, hhere]
  · rw [update_of_ne hkey, page?_put, page?_put]
    by_cases hm : m = modelId
    · rw [if_pos hm, page?_setTensor hlt]
      split
      · rename_i hslot
        obtain ⟨hi, hother⟩ := hslot
        have hq : q ≠ p := by
          intro hq
          exact hkey (by rw [hm, hq]; exact congrArg _ (Prod.ext hi (Prod.ext hother rfl)))
        dsimp only at hi hother
        rw [hthere q hq, hi, hother]
      · rfl
    · rw [if_neg hm, if_neg hm]

structure Mapped (numPages pageSize : Nat) (others : List Nat) (a : Allocator) : Prop where
  pageSize_eq : a.pageSize = pageSize
  placed : Lodged (fun i => i < numPages) a.pool.freePageIds others a.page?
  fits : ∀ key page, a.page? key = some page →
    key.2.2.2 * pageSize < 18446744073709551616

@[simp] theorem lookup_filter_ne {l : List (Nat × Nat)} {p q : Nat} (hq : q ≠ p) :
    (l.filter fun entry => entry.1 != p).lookup q = l.lookup q := by
  induction l with
  | nil => rfl
  | cons entry l ih =>
      by_cases hp : entry.1 = p
      · have hne : (q == entry.1) = false := by simpa [hp] using hq
        rw [filter_cons_of_neg (by simpa using hp), ih, lookup_cons, hne]
      · rw [filter_cons_of_pos (by simpa using hp), lookup_cons, lookup_cons, ih]

theorem toSize_lt (offset : Int) : toSize offset < 18446744073709551616 := by
  rw [toSize]
  omega

@[simp] theorem toSize_ofNat {n : Nat} (h : n < 18446744073709551616) : toSize (n : Int) = n := by
  rw [toSize]
  omega

theorem Mapped.take (h : Mapped numPages pageSize others (a.put modelId s))
    (hx : (s.2.side side)[layer]? = some x) {p page : Nat} {rest : List Nat}
    (hp : x.mapping.lookup p = none) (hfree : s.1.freePageIds = page :: rest)
    (hfits : p * pageSize < 18446744073709551616) :
    Mapped numPages pageSize others (a.put modelId ({ s.1 with freePageIds := rest },
      s.2.setTensor layer ⟨(p, page) :: x.mapping⟩ side)) := by
  have hlt : layer < (s.2.side side).length := (List.getElem?_eq_some_iff.mp hx).1
  have hnone : (a.put modelId s).page? (modelId, layer, side, p) = none := by
    rw [page?_put]
    simpa [ModelTensors.page?, hx] using hp
  have htable : (a.put modelId ({ s.1 with freePageIds := rest },
      s.2.setTensor layer ⟨(p, page) :: x.mapping⟩ side)).page? =
        update (a.put modelId s).page? (modelId, layer, side, p) (some page) := by
    apply page?_put_setTensor hlt
    · simp
    · intro q hq
      have hne : (q == p) = false := by simpa using hq
      simp [lookup_cons, hne, ModelTensors.page?, hx]
  have hplaced : Lodged (fun i => i < numPages) (page :: rest) others (a.put modelId s).page? := by
    rw [← hfree]
    exact h.placed
  refine ⟨h.pageSize_eq, ?_, ?_⟩
  · rw [htable]
    exact hplaced.take hnone
  · intro key found hkey
    rw [htable] at hkey
    by_cases heq : key = (modelId, layer, side, p)
    · rw [heq]
      exact hfits
    · rw [update_of_ne heq] at hkey
      exact h.fits key found hkey

theorem Mapped.give (h : Mapped numPages pageSize others (a.put modelId s))
    (hx : (s.2.side side)[layer]? = some x) {p page : Nat} (hp : x.mapping.lookup p = some page) :
    Mapped numPages pageSize others (a.put modelId
      ({ s.1 with freePageIds := page :: s.1.freePageIds },
        s.2.setTensor layer ⟨x.mapping.filter fun entry => entry.1 != p⟩ side)) := by
  have hlt : layer < (s.2.side side).length := (List.getElem?_eq_some_iff.mp hx).1
  have hsome : (a.put modelId s).page? (modelId, layer, side, p) = some page := by
    rw [page?_put]
    simpa [ModelTensors.page?, hx] using hp
  have htable : (a.put modelId ({ s.1 with freePageIds := page :: s.1.freePageIds },
      s.2.setTensor layer ⟨x.mapping.filter fun entry => entry.1 != p⟩ side)).page? =
        update (a.put modelId s).page? (modelId, layer, side, p) none := by
    apply page?_put_setTensor hlt
    · rw [List.lookup_eq_none_iff]
      intro entry hentry
      have hne : entry.1 ≠ p := by simpa using (List.mem_filter.mp hentry).2
      simpa using hne.symm
    · intro q hq
      simp only [ModelTensors.page?, hx]
      exact lookup_filter_ne hq
  refine ⟨h.pageSize_eq, ?_, ?_⟩
  · rw [htable]
    exact h.placed.give hsome
  · intro key found hkey
    rw [htable] at hkey
    by_cases heq : key = (modelId, layer, side, p)
    · rw [heq, update_self] at hkey
      cases hkey
    · rw [update_of_ne heq] at hkey
      exact h.fits key found hkey

theorem mapAt_mapped (h : Mapped numPages pageSize others (a.put modelId s)) :
    IfOk (mapAt pageSize s layer side offset)
      (fun s' => Mapped numPages pageSize others (a.put modelId s')) := by
  rw [mapAt]
  split
  · exact trivial
  · rename_i x hx
    have hsame : s.2.setTensor layer x side = s.2 := slots_setTensor_same hx
    rw [XTensor.map]
    split
    · dsimp only
      split
      · rw [ok_bind, hsame]
        exact h
      · rename_i hmissing
        rw [PhyPagePool.batchGet]
        split
        · split
          · rw [ok_bind, ok_bind, hsame]
            exact h
          · rename_i hroom
            cases hfree : s.1.freePageIds with
            | nil =>
                rw [hfree] at hroom
                exact absurd Nat.zero_lt_one hroom
            | cons page rest =>
                apply h.take hx _ hfree
                · exact Nat.lt_of_le_of_lt (Nat.div_mul_le_self _ _) (toSize_lt offset)
                · rw [List.lookup_eq_none_iff]
                  intro entry hentry
                  rw [bne_iff_ne]
                  intro heq
                  exact hmissing (List.mem_map.mpr ⟨entry, hentry, heq.symm⟩)
        · exact trivial
    · exact trivial

theorem unmapAt_mapped (h : Mapped numPages pageSize others (a.put modelId s)) :
    IfOk (unmapAt pageSize s layer side offset)
      (fun s' => Mapped numPages pageSize others (a.put modelId s')) := by
  rw [unmapAt]
  split
  · exact trivial
  · rename_i x hx
    have hsame : s.2.setTensor layer x side = s.2 := slots_setTensor_same hx
    rw [XTensor.unmap]
    split
    · dsimp only
      split
      · rw [ok_bind, hsame]
        exact h
      · rename_i page hpage
        rw [PhyPagePool.batchPut]
        split
        · exact h.give hx hpage
        · exact trivial
    · exact trivial

theorem forEachTensor_mapped {act : Mapping → Nat → Side → Int → Except TensorCheck Mapping}
    (each : ∀ s layer side offset, Mapped numPages pageSize others (a.put modelId s) →
      IfOk (act s layer side offset) (fun s' => Mapped numPages pageSize others (a.put modelId s')))
    (h : Mapped numPages pageSize others (a.put modelId s)) (offsets : List Int) :
    IfOk (forEachTensor act offsets s)
      (fun s' => Mapped numPages pageSize others (a.put modelId s')) := by
  refine Ensures.run (fun s layer h => ?_) h
  refine Ensures.run (fun s offset h => ?_) h
  exact (each s layer .k offset h).bind fun s' h' => each s' layer .v offset h'

@[simp] theorem put_self (ht : a.modelTensors modelId = some t) :
    a.put modelId (a.pool, t) = a := by
  rw [Allocator.put, ← ht, update_eq_self]

theorem withTensors_mapped {body : Mapping → Except TensorCheck Mapping}
    (hbody : ∀ s, Mapped numPages pageSize others (a.put modelId s) →
      IfOk (body s) (fun s' => Mapped numPages pageSize others (a.put modelId s')))
    (h : Mapped numPages pageSize others a) : IfOk (a.withTensors modelId body)
      (fun r => Mapped numPages pageSize others r.2) := by
  rw [Allocator.withTensors]
  split
  · exact h
  · rename_i t ht
    split
    · exact h
    · have hput : Mapped numPages pageSize others (a.put modelId (a.pool, t)) := by
        rw [put_self ht]
        exact h
      exact (hbody _ hput).bind fun s' h' => h'

theorem mapToKvTensors_mapped (h : Mapped numPages pageSize others a) (offsets : List Int) :
    IfOk (a.mapToKvTensors modelId offsets) (fun r => Mapped numPages pageSize others r.2) := by
  apply withTensors_mapped _ h
  intro s hs
  rw [h.pageSize_eq]
  exact forEachTensor_mapped (fun _ _ _ _ h => mapAt_mapped h) hs offsets

theorem unmapFromKvTensors_mapped (h : Mapped numPages pageSize others a) (offsets : List Int) :
    IfOk (a.unmapFromKvTensors modelId offsets) (fun r => Mapped numPages pageSize others r.2) := by
  apply withTensors_mapped _ h
  intro s hs
  rw [h.pageSize_eq]
  exact forEachTensor_mapped (fun _ _ _ _ h => unmapAt_mapped h) hs offsets

theorem createKvTensors_mapped (h : Mapped numPages pageSize others a) (numLayers : Nat) :
    IfOk (a.createKvTensors modelId side numLayers) (Mapped numPages pageSize others) := by
  rw [Allocator.createKvTensors]
  split
  · split
    · rename_i hnone
      have htable : ∀ t : ModelTensors,
          (∀ other, other ≠ side → t.side other = ((a.modelTensors modelId).getD {}).side other) →
          t.side side = replicate numLayers {} →
          ({ a with modelTensors := update a.modelTensors modelId (some t) } :
            Allocator).page? = a.page? := by
        intro t hother hside
        funext key
        obtain ⟨m, i, other, q⟩ := key
        by_cases hm : m = modelId
        · subst hm
          have hbefore : a.page? (m, i, other, q) =
              ((a.modelTensors m).getD {}).page? (i, other, q) := by
            cases ht : a.modelTensors m with
            | none => cases other <;> simp [Allocator.page?, ht, ModelTensors.page?,
                ModelTensors.side]
            | some t => simp [Allocator.page?, ht]
          rw [hbefore]
          simp only [Allocator.page?, update_self, Option.bind_some, ModelTensors.page?]
          by_cases hs : other = side
          · rw [hs, hside, hnone]
            cases hi : (replicate numLayers ({} : XTensor))[i]? with
            | none => rfl
            | some x =>
                rw [eq_of_mem_replicate (mem_of_getElem? hi)]
                rfl
          · rw [hother other hs]
        · simp [Allocator.page?, hm]
      cases side with
      | k =>
          have := htable { (a.modelTensors modelId).getD {} with
            kTensors := replicate numLayers {}, numLayers } (by
              intro other hne
              cases other with
              | k => exact absurd rfl hne
              | v => rfl) rfl
          exact ⟨h.pageSize_eq, by rw [this]; exact h.placed, by rw [this]; exact h.fits⟩
      | v =>
          have := htable { (a.modelTensors modelId).getD {} with
            vTensors := replicate numLayers {}, numLayers } (by
              intro other hne
              cases other with
              | k => rfl
              | v => exact absurd rfl hne) rfl
          exact ⟨h.pageSize_eq, by rw [this]; exact h.placed, by rw [this]; exact h.fits⟩
    · exact trivial
  · exact trivial

theorem step_mapped {w : SharedPool} (op : SharedOp)
    (h : Mapped numPages pageSize w.others w.allocator) : IfOk (w.step op)
      (fun w' => Mapped numPages pageSize w'.others w'.allocator) := by
  cases op with
  | create modelId side numLayers =>
      exact (createKvTensors_mapped h numLayers).bind fun a' h' => h'
  | map modelId offsets => exact (mapToKvTensors_mapped h offsets).bind fun r h' => h'
  | unmap modelId offsets => exact (unmapFromKvTensors_mapped h offsets).bind fun r h' => h'
  | othersTake pageIds => exact ⟨h.pageSize_eq, h.placed.othersTake pageIds, h.fits⟩
  | othersReturn pageIds atFront =>
      have hreturn := h.placed.othersReturn pageIds
      refine ⟨h.pageSize_eq, ?_, h.fits⟩
      cases atFront with
      | false => exact hreturn.perm perm_append_comm
      | true => exact hreturn

theorem start_mapped (pageSize numPages : Nat) :
    Mapped numPages pageSize (SharedPool.start pageSize numPages).others
      (SharedPool.start pageSize numPages).allocator := by
  refine ⟨rfl, ⟨fun _ => .pool, ?_, ?_, ?_⟩, ?_⟩
  · refine ⟨nodup_range, fun i => ?_⟩
    exact List.mem_range.trans (and_iff_left rfl).symm
  · refine ⟨nodup_nil, fun i => ?_⟩
    exact iff_of_false not_mem_nil (by nofun)
  · intro key
    refine ⟨nodup_nil, fun i => ?_⟩
    exact iff_of_false not_mem_nil (by nofun)
  · intro key page hkey
    cases hkey

def ModelTensors.PageMapped (t : ModelTensors) (p : Nat) : Prop :=
  ∀ layer < t.numLayers, ∀ side, t.page? (layer, side, p) ≠ none

def ModelTensors.BlockMapped (g : Geometry) (t : ModelTensors) (blockId : Nat) : Prop :=
  ∀ p, p * g.pageSize < (blockId + 1) * g.blockMemSize →
    blockId * g.blockMemSize < (p + 1) * g.pageSize → t.PageMapped p

/-- The block is one of those that `get_block_range` gives to its page, which is mapped. -/
def ModelTensors.BlockOnPage (g : Geometry) (t : ModelTensors) (blockId : Nat) : Prop :=
  ∃ p, blockId ∈ g.blocks p ∧ t.PageMapped p

/-- What the offset of a block in one tensor should be: the block lies inside the physical
page of its virtual page, and its bytes are those that a kernel reaches through the tensor. -/
structure OffsetCorrect (g : Geometry) (t : ModelTensors) (slot : Nat × Side)
    (blockId offset : Nat) :
    Prop where
  inside : ∃ page, t.page? (slot.1, slot.2, g.getVirtPageId blockId) = some page ∧
    page * g.pageSize ≤ offset ∧ offset + g.blockMemSize ≤ (page + 1) * g.pageSize
  addressed : ∀ x, (t.side slot.2)[slot.1]? = some x → ∀ j < g.blockMemSize,
    x.physicalByte g.pageSize (blockId * g.blockMemSize + j) = some (offset + j)

def offsetOf (side : Side) (offsets : Nat × Nat) : Nat :=
  match side with
  | .k => offsets.1
  | .v => offsets.2

/-- `get_global_offsets_for_block` answers for the blocks of `eligible` with offsets that are
right, and blocks of different tensors or with different ids have no byte in common. -/
structure OffsetsDisjoint (g : Geometry) (eligible : ModelTensors → Nat → Prop) (w : SharedPool) :
    Prop where
  correct : ∀ modelId t, w.allocator.modelTensors modelId = some t → ∀ b, eligible t b →
    ∀ layer < t.numLayers, Ensures
      (w.allocator.getGlobalOffsetsForBlock true modelId layer b g.blockMemSize) (fun _ => False)
      (fun r => ∃ offsets, r = some offsets ∧
        ∀ side, OffsetCorrect g t (layer, side) b (offsetOf side offsets))
  disjoint : ∀ modelId t, w.allocator.modelTensors modelId = some t →
    ∀ b b', eligible t b → eligible t b' →
    ∀ layer < t.numLayers, ∀ layer' < t.numLayers, ∀ offsets offsets',
    w.allocator.getGlobalOffsetsForBlock true modelId layer b g.blockMemSize = .ok (some offsets) →
    w.allocator.getGlobalOffsetsForBlock true modelId layer' b' g.blockMemSize =
      .ok (some offsets') →
    ∀ side side', (b, layer, side) ≠ (b', layer', side') →
      (List.range' (offsetOf side offsets) g.blockMemSize).Disjoint
        (List.range' (offsetOf side' offsets') g.blockMemSize)

theorem getPhyPageId_page {p page : Nat} (hpos : 0 < pageSize)
    (hfits : p * pageSize < 18446744073709551616) (hpage : t.page? (layer, side, p) = some page) :
    ∃ x, (t.side side)[layer]? = some x ∧ x.mapping.lookup p = some page ∧
      x.getPhyPageId pageSize ((p * pageSize : Nat) : Int) = .ok page := by
  simp only [ModelTensors.page?, Option.bind_eq_some_iff] at hpage
  obtain ⟨x, hx, hlookup⟩ := hpage
  refine ⟨x, hx, hlookup, ?_⟩
  rw [XTensor.getPhyPageId, toSize_ofNat hfits, if_pos (Nat.mul_mod_left _ _),
    Nat.mul_div_cancel _ hpos, hlookup]

theorem getGlobalOffsets_eq (g : Geometry) (h : Mapped numPages g.pageSize others a)
    (ht : a.modelTensors modelId = some t) {b p : Nat} (hb : b ∈ g.blocks p)
    (hp : t.PageMapped p) (hlayer : layer < t.numLayers) :
    ∃ page : Side → Nat, (∀ side, t.page? (layer, side, p) = some (page side)) ∧
      a.getGlobalOffsetsForBlock true modelId layer b g.blockMemSize =
        .ok (some (page .k * g.pageSize + b * g.blockMemSize % g.pageSize,
          page .v * g.pageSize + b * g.blockMemSize % g.pageSize)) := by
  have hpage : ∀ side, ∃ page, t.page? (layer, side, p) = some page :=
    fun side => Option.ne_none_iff_exists'.mp (hp layer hlayer side)
  choose page hpage using hpage
  refine ⟨page, hpage, ?_⟩
  have hfits : p * g.pageSize < 18446744073709551616 := by
    apply h.fits (modelId, layer, .k, p) (page .k)
    simp [Allocator.page?, ht, hpage]
  have hvirt : b * g.blockMemSize / g.pageSize = p := Geometry.getVirtPageId_of_mem hb
  obtain ⟨xk, hxk, -, hk⟩ := getPhyPageId_page g.pageSize_pos hfits (hpage .k)
  obtain ⟨xv, hxv, -, hv⟩ := getPhyPageId_page g.pageSize_pos hfits (hpage .v)
  have hinside : ¬ ((layer : Int) < 0 ∨ (t.numLayers : Int) ≤ layer) := by omega
  have hcreated : ¬ (t.kTensors = [] ∨ t.vTensors = []) := by
    intro hempty
    cases hempty with
    | inl hnil => simp [ModelTensors.side, hnil] at hxk
    | inr hnil => simp [ModelTensors.side, hnil] at hxv
  have hkpos : ¬ ((page .k : Nat) : Int) < 0 := by omega
  have hvpos : ¬ ((page .v : Nat) : Int) < 0 := by omega
  simp only [ModelTensors.side] at hxk hxv
  simp only [Allocator.getGlobalOffsetsForBlock, ht, hinside, hcreated, if_false, Bool.not_true,
    Bool.false_eq_true, Int.toNat_natCast, hxk, hxv, h.pageSize_eq, hvirt, hk, hv, ok_bind, hkpos,
    hvpos]

variable {g : Geometry}

theorem offset_in_page {b p : Nat} (hb : b ∈ g.blocks p) :
    p * g.pageSize + b * g.blockMemSize % g.pageSize = b * g.blockMemSize ∧
      b * g.blockMemSize % g.pageSize + g.blockMemSize ≤ g.pageSize := by
  obtain ⟨hfirst, hlast⟩ := Geometry.bytes_of_mem hb
  have hdiv : b * g.blockMemSize / g.pageSize = p := Geometry.getVirtPageId_of_mem hb
  have hsplit := Nat.div_add_mod (b * g.blockMemSize) g.pageSize
  rw [hdiv, Nat.mul_comm] at hsplit
  rw [Nat.succ_mul, Nat.succ_mul] at hlast
  exact ⟨hsplit, by omega⟩

theorem physicalByte_block {b p page j : Nat} (hb : b ∈ g.blocks p)
    (hpage : x.mapping.lookup p = some page) (hj : j < g.blockMemSize) :
    x.physicalByte g.pageSize (b * g.blockMemSize + j) =
      some (page * g.pageSize + b * g.blockMemSize % g.pageSize + j) := by
  obtain ⟨hstart, hroom⟩ := offset_in_page hb
  have haddress : b * g.blockMemSize + j =
      b * g.blockMemSize % g.pageSize + j + p * g.pageSize := by omega
  have hsmall : b * g.blockMemSize % g.pageSize + j < g.pageSize := by omega
  rw [XTensor.physicalByte, haddress, Nat.add_mul_div_right _ _ g.pageSize_pos,
    Nat.div_eq_of_lt hsmall, Nat.zero_add, hpage, Option.map_some, Nat.add_mul_mod_self_right,
    Nat.mod_eq_of_lt hsmall, Nat.add_assoc]

theorem offset_correct {b p page : Nat} (hb : b ∈ g.blocks p)
    (hpage : t.page? (layer, side, p) = some page) :
    OffsetCorrect g t (layer, side) b (page * g.pageSize + b * g.blockMemSize % g.pageSize) := by
  constructor
  · rw [Geometry.getVirtPageId_of_mem hb]
    obtain ⟨-, hroom⟩ := offset_in_page hb
    refine ⟨page, hpage, Nat.le_add_right _ _, ?_⟩
    rw [Nat.succ_mul]
    omega
  · intro x hx j hj
    apply physicalByte_block hb _ hj
    simpa [ModelTensors.page?, hx] using hpage

theorem disjoint_range' {o o' n : Nat} (h : o + n ≤ o' ∨ o' + n ≤ o) :
    (List.range' o n).Disjoint (List.range' o' n) := by
  intro i hi hi'
  rw [mem_range'_1] at hi hi'
  omega

/-- Two blocks of one page, or on different physical pages, have no byte in common. -/
theorem ranges_apart {b b' p p' page page' : Nat} (hb : b ∈ g.blocks p)
    (hb' : b' ∈ g.blocks p') (hne : page ≠ page' ∨ (p = p' ∧ b ≠ b')) :
    (List.range' (page * g.pageSize + b * g.blockMemSize % g.pageSize) g.blockMemSize).Disjoint
      (List.range' (page' * g.pageSize + b' * g.blockMemSize % g.pageSize) g.blockMemSize) := by
  obtain ⟨hstart, hroom⟩ := offset_in_page hb
  obtain ⟨hstart', hroom'⟩ := offset_in_page hb'
  apply disjoint_range'
  have hpages : ∀ {q q' : Nat}, q < q' → q * g.pageSize + g.pageSize ≤ q' * g.pageSize := by
    intro q q' hlt
    rw [← Nat.succ_mul]
    exact Nat.mul_le_mul_right _ hlt
  have hblocks : ∀ {c c' : Nat}, c < c' → c * g.blockMemSize + g.blockMemSize ≤
      c' * g.blockMemSize := by
    intro c c' hlt
    rw [← Nat.succ_mul]
    exact Nat.mul_le_mul_right _ hlt
  by_cases hpage : page = page'
  · obtain ⟨rfl, hbne⟩ := hne.resolve_left fun h => h hpage
    subst hpage
    cases Nat.lt_or_gt_of_ne hbne with
    | inl hlt =>
        have := hblocks hlt
        omega
    | inr hlt =>
        have := hblocks hlt
        omega
  · cases Nat.lt_or_gt_of_ne hpage with
    | inl hlt =>
        have := hpages hlt
        omega
    | inr hlt =>
        have := hpages hlt
        omega

theorem Mapped.offsetsDisjoint {w : SharedPool}
    (h : Mapped numPages g.pageSize w.others w.allocator) :
    OffsetsDisjoint g (ModelTensors.BlockOnPage g) w := by
  constructor
  · intro modelId t ht b eligible layer hlayer
    obtain ⟨p, hb, hp⟩ := eligible
    obtain ⟨page, hpage, hanswer⟩ := getGlobalOffsets_eq g h ht hb hp hlayer
    rw [hanswer]
    refine ⟨_, rfl, fun side => ?_⟩
    cases side with
    | k => exact offset_correct hb (hpage .k)
    | v => exact offset_correct hb (hpage .v)
  · intro modelId t ht b b' eligible eligible' layer hlayer layer' hlayer' offsets offsets'
      hanswer hanswer' side side' hne
    obtain ⟨p, hb, hp⟩ := eligible
    obtain ⟨p', hb', hp'⟩ := eligible'
    obtain ⟨page, hpage, heq⟩ := getGlobalOffsets_eq g h ht hb hp hlayer
    obtain ⟨page', hpage', heq'⟩ := getGlobalOffsets_eq g h ht hb' hp' hlayer'
    rw [heq] at hanswer
    rw [heq'] at hanswer'
    cases hanswer
    cases hanswer'
    have happart : page side ≠ page' side' ∨ (p = p' ∧ b ≠ b') := by
      by_cases hsame : page side = page' side'
      · right
        have hslot : (modelId, layer, side, p) = (modelId, layer', side', p') :=
          h.placed.injective (i := page side) (by simp [Allocator.page?, ht, hpage])
            (by simp [Allocator.page?, ht, hpage', hsame])
        obtain ⟨rfl, rfl, rfl⟩ := hslot
        refine ⟨rfl, fun hbb => hne ?_⟩
        rw [hbb]
      · exact .inl hsame
    have hdisjoint := ranges_apart hb hb' happart
    cases side <;> cases side' <;> exact hdisjoint

/-- In every state that a run of the allocator leads to, the offsets of the blocks that the
block manager can hand out are right and disjoint, for every size of pages and blocks and
every number of layers. -/
theorem global_offsets_disjoint (g : Geometry) (numPages : Nat) (ops : List SharedOp) :
    Ensures ((SharedPool.start g.pageSize numPages).run ops) (fun _ => True)
      (OffsetsDisjoint g (ModelTensors.BlockOnPage g)) := by
  have hrun : Ensures ((SharedPool.start g.pageSize numPages).run ops) (fun _ => True)
      (fun w => Mapped numPages g.pageSize w.others w.allocator) :=
    Ensures.run (fun w op h => step_mapped op h) (start_mapped g.pageSize numPages)
  exact hrun.mono_post fun w h => h.offsetsDisjoint

def straddledTensors : ModelTensors where
  kTensors := [⟨[(1, 2), (0, 0)]⟩]
  vTensors := [⟨[(1, 3), (0, 1)]⟩]
  numLayers := 1

/-- With pages of 16 bytes and blocks of 6, block 2 reaches over the end of its page. Both pages
are mapped, and its offset is not inside of one physical page with all of its bytes. -/
theorem global_offsets_straddle :
    ¬ ∀ (g : Geometry) (numPages : Nat) (ops : List SharedOp),
      Ensures ((SharedPool.start g.pageSize numPages).run ops) (fun _ => True)
        (OffsetsDisjoint g (ModelTensors.BlockMapped g)) := by
  intro h
  have hrun := h { pageSize := 16, blockMemSize := 6 } 8
    [.create "m" .k 1, .create "m" .v 1, .map "m" [0, 16]]
  have hmapped : straddledTensors.BlockMapped { pageSize := 16, blockMemSize := 6 } 2 := by
    intro p hfirst hlast layer hlayer side
    have hp : p = 0 ∨ p = 1 := by
      dsimp only at hfirst
      omega
    obtain rfl : layer = 0 := Nat.lt_one_iff.mp hlayer
    cases hp with
    | inl hp => subst hp; cases side <;> decide
    | inr hp => subst hp; cases side <;> decide
  have hanswer := hrun.correct "m" straddledTensors rfl 2 hmapped 0 (by decide)
  obtain ⟨offsets, hoffsets, hright⟩ := hanswer
  cases hoffsets
  obtain ⟨page, hpage, -, hend⟩ := (hright .k).inside
  cases hpage
  exact absurd hend (by decide)

end Xllm.KvTensors
