import Xllm.Runtime.ForwardSharedMemory

/-!
# Writers and readers agree on every field

Each `write_*` function of the shared memory segment is followed by its `read_*` function.
Vectors become tensors on the way; a tensor is a description in the descriptor and a block
in the arena. Records, lists and dictionaries are put together from what they hold.
-/

namespace Xllm.SharedMemory

open Codec List

section Fields

variable {α : Type}

theorem framed_data [Packed α] (x : α) : Framed 16 (writeData x) readData x := framed_unpack x

theorem framed_unsigned (x : UInt32) : Framed 16 (writeData x) readData x.toInt32 := by
  have h := framed_data x.toInt32
  rwa [writeData] at h

theorem framed_string (str : Text) : Framed 16 (writeString str) readString str :=
  framed_counted (le_refl _) (writes_put str) (reads_take rfl)

theorem framed_stringVector (vec : List Text) :
    Framed 16 (writeStringVector vec) readStringVector vec :=
  framed_list fun str _ => framed_string str

theorem length_le_vectorBytes [Packed α] (vec : List α) :
    vec.length ≤ (vectorBytes vec).length := by
  rw [length_vectorBytes]
  exact Nat.le_mul_of_pos_right _ Packed.size_pos

theorem reads_vector [Packed α] (vec : List α) :
    Reads (readMany readData vec.length) vec (vectorBytes vec) [] := by
  induction vec with
  | nil => exact Reads.pure
  | cons x vec ih =>
      have h := (reads_unpack x).bind
        (f := fun x => readMany readData vec.length >>= fun vec => pure (x :: vec))
        (ih.bind (f := fun vec => pure (x :: vec)) Reads.pure)
      rwa [append_nil] at h

theorem framed_vector [Packed α] (vec : List α) :
    Framed 16 (writeVector vec) readVector vec :=
  framed_counted (length_le_vectorBytes vec) (writes_put _) (reads_vector vec)

end Fields

section Tensors

variable {α : Type} {shape : List Nat} {dtype : ScalarType} {data : List UInt8}

def describe (shape : List Nat) (dtype : ScalarType) (dataBytes : Nat) : List UInt8 :=
  Packed.bytes (UInt64.ofNat shape.length) ++
    (vectorBytes (shape.map UInt64.ofNat) ++
      (Packed.bytes dtype.toInt8 ++ Packed.bytes (UInt64.ofNat dataBytes)))

theorem describe_ne_nil {dataBytes : Nat} : describe shape dtype dataBytes ≠ [] := by
  simp [describe]

theorem block_nil : block 16 [] = [] := rfl

theorem toInt_int64OfNat {size : Nat} (h : size < 2 ^ 63) :
    (Int64.ofNat size).toInt = size := Int64.toInt_ofNat_of_lt h

theorem vectorBytes_sizes :
    vectorBytes (shape.map UInt64.ofNat) = vectorBytes (shape.map Int64.ofNat) := by
  induction shape with
  | nil => rfl
  | cons size shape ih =>
      exact congrArg _ ih

theorem reads_tensorMeta (dtype : ScalarType) (dataBytes : Nat) (hne : shape ≠ []) :
    Reads readTensorMeta
      ⟨shape.map Int64.ofNat, dtype.toInt8, UInt64.ofNat dataBytes⟩
      (describe shape dtype dataBytes) [] := by
  have hsizes := reads_vector (shape.map Int64.ofNat)
  rw [← vectorBytes_sizes, length_map] at hsizes
  have hrest := hsizes.bind (f := fun shape => readData >>= fun dtype : Int8 =>
      readData >>= fun dataBytes : UInt64 => pure (TensorMeta.mk shape dtype dataBytes))
    ((reads_unpack dtype.toInt8).bind
      ((reads_unpack (UInt64.ofNat dataBytes)).bind Reads.pure))
  intro i hi
  have hroom := hi.descriptor_le
  have hlt := hi.size_lt
  have hle := length_le_vectorBytes (shape.map UInt64.ofNat)
  rw [describe, length_append, length_append] at hroom
  rw [length_map] at hle
  have hcount : (UInt64.ofNat shape.length).toNat = shape.length :=
    UInt64.toNat_ofNat_of_lt' (show shape.length < 2 ^ 64 by omega)
  have hzero : UInt64.ofNat shape.length ≠ 0 := by
    intro h
    rw [h] at hcount
    exact hne (List.length_eq_zero_iff.1 hcount.symm)
  have hsecond : Reads (if UInt64.ofNat shape.length = 0 then pure {} else
      readMany readData (UInt64.ofNat shape.length).toNat >>= fun shape =>
        readData >>= fun dtype : Int8 => readData >>= fun dataBytes : UInt64 =>
          pure (TensorMeta.mk shape dtype dataBytes))
      ⟨shape.map Int64.ofNat, dtype.toInt8, UInt64.ofNat dataBytes⟩
      (vectorBytes (shape.map UInt64.ofNat) ++
        (Packed.bytes dtype.toInt8 ++ Packed.bytes (UInt64.ofNat dataBytes))) [] := by
    rw [if_neg hzero, hcount]
    exact hrest
  have hbind := (reads_unpack (UInt64.ofNat shape.length)).bind (f := fun ndim =>
    if ndim = 0 then pure {} else
      readMany readData ndim.toNat >>= fun shape => readData >>= fun dtype : Int8 =>
        readData >>= fun dataBytes : UInt64 => pure (TensorMeta.mk shape dtype dataBytes)) hsecond
  exact hbind i hi

def tensorMeta (shape : List Nat) (dtype : ScalarType) (dataBytes : Nat) : TensorMeta :=
  ⟨shape.map Int64.ofNat, dtype.toInt8, UInt64.ofNat dataBytes⟩

theorem map_sizes (hsizes : ∀ size ∈ shape, size < 2 ^ 63) :
    (shape.map Int64.ofNat).map (fun size => size.toInt.toNat) = shape := by
  rw [map_map]
  refine (map_congr_left fun size hsize => ?_).trans (map_id _)
  rw [Function.comp_apply, toInt_int64OfNat (hsizes size hsize)]
  rfl

@[simp] theorem tensorOf_data (t : TensorData) : tensorOf t.shape t.dtype t.data = some t := by
  rw [tensorOf, dif_pos ⟨t.sizes_lt, t.length_data⟩]

theorem nonneg_sizes (hsizes : ∀ size ∈ shape, size < 2 ^ 63) :
    (shape.map Int64.ofNat).all (fun size => 0 ≤ size.toInt) = true := by
  refine List.all_eq_true.2 fun size hsize => decide_eq_true ?_
  obtain ⟨k, hk, rfl⟩ := List.mem_map.1 hsize
  rw [toInt_int64OfNat (hsizes k hk)]
  exact Int.natCast_nonneg k

theorem reads_fromBlob (t : TensorData) :
    Reads (fromBlob (tensorMeta t.shape t.dtype t.data.length)) t [] (block 16 t.data) := by
  intro i hi
  have hroom := hi.arena_le
  have hlt := hi.size_lt
  have hle : t.data.length ≤ alignUp t.data.length 16 := le_alignUp (by decide)
  rw [length_block (by decide)] at hroom
  have hbytes : (UInt64.ofNat t.data.length).toNat = t.data.length :=
    UInt64.toNat_ofNat_of_lt' (show t.data.length < 2 ^ 64 by omega)
  have hblock := reads_takeBlock (n := 16) (b := t.data) (by decide) rfl i hi
  rw [fromBlob, tensorMeta]
  simp only [ScalarType.ofInt8_toInt8, map_sizes t.sizes_lt, hbytes,
    if_pos (nonneg_sizes t.sizes_lt), guard]
  change (takeBlock 16 (t.shape.prod * t.dtype.elementSize) t.data.length i).bind (fun p =>
    (tensorOf t.shape t.dtype p.1).bind fun x => some (x, p.2)) = _
  rw [← t.length_data, hblock, Option.bind_some, tensorOf_data, Option.bind_some]

theorem reads_tensor (t : TensorData) (hne : t.shape ≠ []) :
    Reads readTensor (some t) (describe t.shape t.dtype t.data.length) (block 16 t.data) := by
  have hshape : (tensorMeta t.shape t.dtype t.data.length).shape ≠ [] := by
    exact fun h => hne (List.map_eq_nil_iff.1 h)
  have hblob : Reads (if (tensorMeta t.shape t.dtype t.data.length).shape = [] then pure none
      else some <$> fromBlob (tensorMeta t.shape t.dtype t.data.length)) (some t) []
      (block 16 t.data) := by
    rw [if_neg hshape]
    have hmap := (reads_fromBlob t).bind (f := fun t => pure (some t)) Reads.pure
    rwa [append_nil, append_nil] at hmap
  have h := (reads_tensorMeta t.dtype t.data.length hne).bind
    (f := fun info => if info.shape = [] then pure none else some <$> fromBlob info) hblob
  rwa [append_nil] at h

/-- `read_tensor_and_vector` returns a copy of the elements beside the tensor. -/
@[simp] theorem elements_vectorBytes [Packed α] (vec : List α) :
    elements vec.length (vectorBytes vec) = vec := by
  induction vec with
  | nil => rfl
  | cons x vec ih =>
      rw [length_cons, elements, vectorBytes, flatMap_cons,
        take_left' (Packed.length_bytes x), drop_left' (Packed.length_bytes x),
        Packed.ofBytes_bytes]
      exact congrArg _ ih

theorem writes_data [Packed α] (x : α) : Writes 16 (writeData x) (Packed.bytes x) [] :=
  writes_put _

theorem writes_block (data : List UInt8) :
    Writes 16 (place kRawInputTensorArenaAlignment data) [] (block 16 data) :=
  writes_place (by decide) data

theorem writes_sizes (shape : List Nat) :
    Writes 16 (shape.forM fun size => writeData (UInt64.ofNat size))
      (vectorBytes (shape.map UInt64.ofNat)) [] := by
  induction shape with
  | nil => exact Writes.pure
  | cons size shape ih =>
      exact (writes_data (UInt64.ofNat size)).bind
        (f := fun _ => shape.forM fun size => writeData (UInt64.ofNat size)) ih

theorem writes_tensor (t : TensorData) :
    Writes 16 (writeTensor (some t)) (describe t.shape t.dtype t.data.length)
      (block 16 t.data) := by
  have hdata : Writes 16 (if t.shape.prod * t.dtype.elementSize = 0 then pure ()
      else place kRawInputTensorArenaAlignment t.data) [] (block 16 t.data) := by
    split
    · rename_i hzero
      rw [← t.length_data] at hzero
      rw [List.length_eq_zero_iff.1 hzero]
      exact Writes.pure
    · exact writes_block t.data
  have h := (writes_data (UInt64.ofNat t.shape.length)).bind
    (f := fun _ => _) ((writes_sizes t.shape).bind (f := fun _ => _)
      ((writes_data t.dtype.toInt8).bind (f := fun _ => _)
        ((writes_data (UInt64.ofNat (t.shape.prod * t.dtype.elementSize))).bind
          (f := fun _ => _) hdata)))
  rw [← t.length_data] at h
  rw [t.length_data] at h ⊢
  exact h

theorem framed_zero : Framed 16 (writeData (0 : UInt64)) readTensor none :=
  ((framed_data (0 : UInt64)).done (y := TensorMeta.mk [] ScalarType.float.toInt8 0)
    fun _ => rfl).done fun _ => rfl

/-- A tensor without dimensions would be read as an undefined one. -/
def HasDimensions (tensor : Tensor) : Prop := ∀ t ∈ tensor, t.shape ≠ []

instance (tensor : Tensor) : Decidable (HasDimensions tensor) :=
  inferInstanceAs (Decidable (∀ t ∈ tensor, t.shape ≠ []))

theorem framed_tensor {tensor : Tensor} (h : HasDimensions tensor) :
    Framed 16 (writeTensor tensor) readTensor tensor := by
  cases tensor with
  | none => exact framed_zero
  | some t => exact ⟨_, _, describe_ne_nil, writes_tensor t, reads_tensor t (h t rfl)⟩

theorem tensorOf_eq_some (hsizes : ∀ size ∈ shape, size < 2 ^ 63)
    (hlength : data.length = shape.prod * dtype.elementSize) :
    ∃ t : TensorData, tensorOf shape dtype data = some t ∧ t.shape = shape ∧ t.dtype = dtype ∧
      t.data = data := by
  rw [tensorOf, dif_pos ⟨hsizes, hlength⟩]
  exact ⟨_, rfl, rfl, rfl, rfl⟩

/-- No element is lost: a memory that holds the elements has fewer than `2 ^ 63`. -/
theorem length_lt_of_stands {i : Input} {d : List UInt8} (h : Stands i d (block 16 data)) :
    data.length < 2 ^ 63 := by
  have hroom := h.arena_le
  have hlt := h.size_lt
  have hle : data.length ≤ alignUp data.length 16 := le_alignUp (by decide)
  rw [length_block (by decide)] at hroom
  omega

theorem reads_tensorOf (hne : shape ≠ [])
    (hlength : data.length = shape.prod * dtype.elementSize)
    (hsizes : ∀ size ∈ shape, size ≤ data.length) :
    Reads readTensor (tensorOf shape dtype data) (describe shape dtype data.length)
      (block 16 data) := by
  intro i hi
  have hlt := length_lt_of_stands hi
  obtain ⟨t, ht, rfl, rfl, rfl⟩ := tensorOf_eq_some
    (fun size hsize => Nat.lt_of_le_of_lt (hsizes size hsize) hlt) hlength
  rw [ht]
  exact reads_tensor t hne i hi

def vectorTensor [Element α] (vec : List α) : Tensor :=
  if vec.isEmpty then none else torchTensor vec

theorem length_vectorBytes_eq [Element α] (vec : List α) :
    (vectorBytes vec).length = [vec.length].prod * (Element.scalarType α).elementSize := by
  rw [length_vectorBytes, prod_singleton, Element.elementSize_eq]

theorem writes_vectorToTensor [Element α] {vec : List α} (hne : vec.isEmpty = false) :
    Writes 16 (writeVectorToTensor vec)
      (describe [vec.length] (Element.scalarType α) (vectorBytes vec).length)
      (block 16 (vectorBytes vec)) := by
  rw [writeVectorToTensor, hne]
  have h := (writes_data (1 : UInt64)).bind (f := fun _ => _)
    ((writes_data (UInt64.ofNat vec.length)).bind (f := fun _ => _)
      ((writes_data (Element.scalarType α).toInt8).bind (f := fun _ => _)
        ((writes_data (UInt64.ofNat (vec.length * Packed.size α))).bind (f := fun _ => _)
          (writes_block (vectorBytes vec)))))
  rw [← length_vectorBytes] at h
  rw [length_vectorBytes] at h ⊢
  exact h

theorem framed_vectorToTensor [Element α] (vec : List α) :
    Framed 16 (writeVectorToTensor vec) readTensor (vectorTensor vec) := by
  cases hne : vec.isEmpty with
  | true =>
      rw [writeVectorToTensor, vectorTensor, hne]
      exact framed_zero
  | false =>
      refine ⟨_, _, describe_ne_nil, writes_vectorToTensor hne, ?_⟩
      rw [vectorTensor, hne]
      refine reads_tensorOf (cons_ne_nil _ _) (length_vectorBytes_eq vec) ?_
      intro size hsize
      rw [List.mem_singleton.1 hsize]
      exact length_le_vectorBytes vec

theorem reads_copy [Element α] (vec : List α) :
    Reads (copyTensor (tensorMeta [vec.length] (Element.scalarType α) (vectorBytes vec).length))
      (torchTensor vec, vec) [] (block 16 (vectorBytes vec)) := by
  intro i hi
  have hlt := length_lt_of_stands hi
  have hle := length_le_vectorBytes vec
  have hroom := hi.arena_le
  have hblock : (vectorBytes vec).length ≤ alignUp (vectorBytes vec).length 16 :=
    le_alignUp (by decide)
  rw [length_block (by decide)] at hroom
  obtain ⟨t', ht', hshape, hdtype, hdata⟩ := tensorOf_eq_some
    (fun size hsize => (List.mem_singleton.1 hsize) ▸ (by omega)) (length_vectorBytes_eq vec)
  have hread := reads_fromBlob t' i (hdata.symm ▸ hi)
  rw [hshape, hdtype, hdata] at hread
  have hpeek : peekBlock (UInt64.ofNat (vectorBytes vec).length).toNat i =
      some (vectorBytes vec, i) := by
    rw [peekBlock, UInt64.toNat_ofNat_of_lt' (show (vectorBytes vec).length < 2 ^ 64 by omega),
      bytesAt_of_prefix ((prefix_append _ _).trans hi.arena) rfl (by omega)]
    rfl
  change (peekBlock (UInt64.ofNat (vectorBytes vec).length).toNat >>= fun copied =>
    fromBlob (tensorMeta [vec.length] (Element.scalarType α) (vectorBytes vec).length) >>=
      fun tensor => _) i = _
  rw [run_bind, hpeek, Option.bind_some, run_bind, hread,
    toInt_int64OfNat (by omega), Int.toNat_natCast, elements_vectorBytes,
    show torchTensor vec = some t' from ht', guard, if_pos (length_vectorBytes vec).le]
  rfl

theorem framed_tensorAndVector [Element α] (vec : List α) :
    Framed 16 (writeVectorToTensor vec) (readTensorAndVector : Reader (Tensor × List α))
      (vectorTensor vec, vec) := by
  cases hne : vec.isEmpty with
  | true =>
      rw [List.isEmpty_iff.1 hne]
      exact ((framed_data (0 : UInt64)).done (y := TensorMeta.mk [] ScalarType.float.toInt8 0)
        fun _ => rfl).done fun _ => rfl
  | false =>
      refine ⟨_, _, describe_ne_nil, writes_vectorToTensor hne, ?_⟩
      rw [vectorTensor, hne]
      have h := (reads_tensorMeta (Element.scalarType α) (vectorBytes vec).length
        (cons_ne_nil vec.length [])).bind (f := copyTensor) (reads_copy vec)
      rwa [append_nil] at h

def Rectangular (vec2d : List (List α)) : Prop :=
  ∀ row ∈ vec2d, row.length = (vec2d.headD []).length

instance (vec2d : List (List α)) : Decidable (Rectangular vec2d) :=
  inferInstanceAs (Decidable (∀ row ∈ vec2d, row.length = (vec2d.headD []).length))

def vector2dTensor [Element α] (vec2d : List (List α)) : Tensor :=
  match vec2d with
  | [] => none
  | row :: rows =>
      if row.isEmpty then none
      else tensorOf [(row :: rows).length, row.length] (Element.scalarType α)
        (vectorBytes (row :: rows).flatten)

theorem mapM_rowBytes [Packed α] {columns : Nat} {rows : List (List α)}
    (h : ∀ row ∈ rows, row.length = columns) :
    rows.mapM (rowBytes columns) = some (rows.map vectorBytes) := by
  induction rows with
  | nil => rfl
  | cons row rows ih =>
      have hrow := h row mem_cons_self
      rw [mapM_cons, ih fun r hr => h r (mem_cons_of_mem row hr), rowBytes,
        if_pos hrow.ge, take_of_length_le hrow.le]
      rfl

@[simp] theorem flatten_vectorBytes [Packed α] (rows : List (List α)) :
    (rows.map vectorBytes).flatten = vectorBytes rows.flatten := by
  induction rows with
  | nil => rfl
  | cons row rows ih =>
      rw [map_cons, flatten_cons, flatten_cons, ih, vectorBytes, vectorBytes,
        vectorBytes, flatMap_append]

theorem length_flatten_of_rectangular {columns : Nat} {rows : List (List α)}
    (h : ∀ row ∈ rows, row.length = columns) : rows.flatten.length = rows.length * columns := by
  induction rows with
  | nil => rw [flatten_nil, length_nil, length_nil, Nat.zero_mul]
  | cons row rows ih =>
      rw [flatten_cons, length_append, h row mem_cons_self,
        ih fun r hr => h r (mem_cons_of_mem row hr), length_cons, Nat.succ_mul,
        Nat.add_comm]

/-- Rows are read back as a tensor. -/
theorem framed_2dVectorToTensor [Element α] {vec2d : List (List α)} (h : Rectangular vec2d) :
    Framed 16 (write2dVectorToTensor vec2d) readTensor (vector2dTensor vec2d) := by
  cases vec2d with
  | nil => exact framed_zero
  | cons row rows =>
      rw [write2dVectorToTensor, vector2dTensor]
      cases hne : row.isEmpty with
      | true => exact framed_zero
      | false =>
          have hrows : ∀ r ∈ row :: rows, r.length = row.length := h
          have hcells : (vectorBytes (row :: rows).flatten).length =
              (row :: rows).length * (row.length * Packed.size α) := by
            rw [length_vectorBytes, length_flatten_of_rectangular hrows, Nat.mul_assoc]
          have hpos : 0 < row.length := by
            rw [length_pos_iff]
            rintro rfl
            cases hne
          refine ⟨describe [(row :: rows).length, row.length] (Element.scalarType α)
            (vectorBytes (row :: rows).flatten).length,
            block 16 (vectorBytes (row :: rows).flatten), describe_ne_nil, ?_, ?_⟩
          · have hdata : Writes 16 (do
                let data ← ((row :: rows).mapM (rowBytes row.length) :
                  Option (List (List UInt8)))
                place kRawInputTensorArenaAlignment data.flatten) []
                (block 16 (vectorBytes (row :: rows).flatten)) := by
              rw [mapM_rowBytes hrows, ← flatten_vectorBytes]
              exact writes_block _
            have hall := (writes_data (2 : UInt64)).bind (f := fun _ => _)
              ((writes_data (UInt64.ofNat (row :: rows).length)).bind (f := fun _ => _)
                ((writes_data (UInt64.ofNat row.length)).bind (f := fun _ => _)
                  ((writes_data (Element.scalarType α).toInt8).bind (f := fun _ => _)
                    ((writes_data (UInt64.ofNat (vectorBytes (row :: rows).flatten).length)).bind
                      (f := fun _ => _) hdata))))
            rw [hcells] at hall ⊢
            exact hall
          · refine reads_tensorOf (cons_ne_nil _ _) ?_ ?_
            · rw [hcells, prod_cons, prod_singleton, Element.elementSize_eq,
                Nat.mul_assoc]
            · have hsize : 0 < row.length * Packed.size α := Nat.mul_pos hpos Packed.size_pos
              intro size hsizes
              rw [hcells]
              rcases List.mem_cons.1 hsizes with rfl | hsizes
              · exact Nat.le_mul_of_pos_right _ hsize
              · rw [List.mem_singleton.1 hsizes]
                calc row.length ≤ row.length * Packed.size α :=
                      Nat.le_mul_of_pos_right _ Packed.size_pos
                  _ ≤ (row :: rows).length * (row.length * Packed.size α) :=
                      Nat.le_mul_of_pos_left _ (Nat.succ_pos _)

end Tensors

section Records

theorem framed_instanceInfo (info : InstanceInfo) :
    Framed 16 (writeInstanceInfo info) readInstanceInfo info :=
  (framed_string _).bind <| (framed_string _).roundTrip.bind <|
  (framed_string _).roundTrip.bind <| (framed_vector _).roundTrip.bind <|
  (framed_stringVector _).roundTrip.bind <| (framed_vector _).roundTrip.bind <|
  (framed_vector _).roundTrip.bind <| (framed_data _).roundTrip.bind <|
  (framed_vector _).roundTrip.done fun _ => rfl

theorem framed_xtensorLayerOffsets (offsets : List XTensorLayerOffsets) :
    Framed 16 (writeXtensorLayerOffsets offsets) readXtensorLayerOffsets offsets :=
  framed_list fun _ _ => (framed_vector _).bind <| (framed_vector _).roundTrip.done fun _ => rfl

theorem framed_transferKvInfo (info : TransferKVInfo) :
    Framed 16 (writeTransferKvInfo info) readTransferKvInfo info :=
  (framed_string _).bind <| (framed_vector _).roundTrip.bind <|
  (framed_vector _).roundTrip.bind <| (framed_data _).roundTrip.bind <|
  (framed_instanceInfo _).roundTrip.bind <|
  (framed_xtensorLayerOffsets _).roundTrip.done fun _ => rfl

theorem framed_eplbInfo (info : EplbInfo) : Framed 16 (writeEplbInfo info) readEplbInfo info :=
  (framed_data _).bind <| (framed_vector _).roundTrip.bind <|
  (framed_data _).roundTrip.done fun _ => rfl

theorem framed_swapBlocks (blocks : List BlockTransferInfo) :
    Framed 16 (writeSwapBlocks blocks) readSwapBlocks blocks :=
  framed_list fun _ _ => (framed_data _).bind <| (framed_data _).roundTrip.done fun _ => rfl

theorem framed_ditGenerationParams (params : DiTGenerationParams) :
    Framed 16 (writeDitGenerationParams params) readDitGenerationParams params :=
  (framed_data _).bind <| (framed_data _).roundTrip.bind <| (framed_data _).roundTrip.bind <|
  (framed_data _).roundTrip.bind <| (framed_data _).roundTrip.bind <|
  (framed_data _).roundTrip.bind <| (framed_data _).roundTrip.bind <|
  (framed_data _).roundTrip.bind <| (framed_data _).roundTrip.bind <|
  (framed_data _).roundTrip.bind <| (framed_data _).roundTrip.done fun _ => rfl

def DiTForwardInput.tensors (input : DiTForwardInput) : List Tensor :=
  [input.images, input.conditionImages, input.maskImages, input.controlImage,
    input.maskedImageLatents, input.promptEmbeds, input.pooledPromptEmbeds,
    input.negativePromptEmbeds, input.negativePooledPromptEmbeds, input.latents]

theorem framed_ditForwardInput {input : DiTForwardInput}
    (h : ∀ tensor ∈ input.tensors, HasDimensions tensor) :
    Framed 16 (writeDitForwardInput input) readDitForwardInput input := by
  simp only [DiTForwardInput.tensors, List.forall_mem_cons] at h
  obtain ⟨h₁, h₂, h₃, h₄, h₅, h₆, h₇, h₈, h₉, h₁₀, -⟩ := h
  exact (framed_data _).bind <| (framed_stringVector _).roundTrip.bind <|
    (framed_stringVector _).roundTrip.bind <| (framed_stringVector _).roundTrip.bind <|
    (framed_stringVector _).roundTrip.bind <| (framed_tensor h₁).roundTrip.bind <|
    (framed_tensor h₂).roundTrip.bind <| (framed_tensor h₃).roundTrip.bind <|
    (framed_tensor h₄).roundTrip.bind <| (framed_tensor h₅).roundTrip.bind <|
    (framed_tensor h₆).roundTrip.bind <| (framed_tensor h₇).roundTrip.bind <|
    (framed_tensor h₈).roundTrip.bind <| (framed_tensor h₉).roundTrip.bind <|
    (framed_tensor h₁₀).roundTrip.bind <|
    (framed_ditGenerationParams _).roundTrip.done fun _ => rfl

end Records

section Multimodal

/-- All tensors have dimensions, and a list does not look like a single tensor. -/
def MMValue.Plain : MMValue → Prop
  | .tensor value => HasDimensions value
  | .tensors values => (∀ value ∈ values, HasDimensions value) ∧ values.length ≠ 1

instance (value : MMValue) : Decidable value.Plain :=
  match value with
  | .tensor _ => inferInstanceAs (Decidable (HasDimensions _))
  | .tensors _ => inferInstanceAs (Decidable (_ ∧ _))

/-- The number of tensors is an `int32_t`. -/
def MMValue.Countable : MMValue → Prop
  | .tensor _ => True
  | .tensors values => values.length < 2 ^ 31

theorem framed_tensors {values : List Tensor} (h : ∀ value ∈ values, HasDimensions value)
    (hone : values.length ≠ 1) (hlt : values.length < 2 ^ 31) (mmKey : Text) :
    Framed 16 (do
        writeData (Int32.ofNat values.length)
        values.forM writeTensor)
      (do
        let tensorNum : Int32 ← readData
        if tensorNum = 1 then do
          let tensor ← readTensor
          return (mmKey, MMValue.tensor tensor)
        else do
          guard (0 ≤ tensorNum.toInt)
          let tensors ← readMany readTensor tensorNum.toInt.toNat
          return (mmKey, MMValue.tensors tensors)) (mmKey, .tensors values) := by
  have hint : (Int32.ofNat values.length).toInt = values.length :=
    Int32.toInt_ofNat_of_lt hlt
  have hnum : Int32.ofNat values.length ≠ 1 := by
    intro heq
    rw [heq] at hint
    exact hone (Int.natCast_inj.1 hint).symm
  refine (framed_data (Int32.ofNat values.length)).bind ?_
  have hvalues : ∀ value ∈ values, Framed 16 (writeTensor value) readTensor value :=
    fun value hvalue => framed_tensor (h value hvalue)
  obtain ⟨d, a, -, hw, hr⟩ := framed_forM hvalues
  refine ⟨d, a, hw, ?_⟩
  rw [if_neg hnum, hint]
  have hbind := hr.bind (f := fun tensors => pure (mmKey, MMValue.tensors tensors)) Reads.pure
  rw [append_nil, append_nil] at hbind
  exact hbind

theorem framed_mmEntry {entry : Text × MMValue} (hplain : entry.2.Plain)
    (hcount : entry.2.Countable) : Framed 16 (writeMmEntry entry) readMmEntry entry := by
  obtain ⟨mmKey, value⟩ := entry
  refine (framed_string mmKey).bind ?_
  cases value with
  | tensor value =>
      exact (framed_data (1 : Int32)).roundTrip.bind <|
        (framed_tensor hplain).roundTrip.done fun _ => rfl
  | tensors values => exact (framed_tensors hplain.1 hplain.2 hcount mmKey).roundTrip

theorem foldl_assign {entries : List (Text × MMValue)} {dict : MMDict}
    (h : ((dict.entries ++ entries).map Prod.fst).Nodup) :
    (entries.foldl MMDict.assign dict).entries = dict.entries ++ entries := by
  induction entries generalizing dict with
  | nil => rw [foldl_nil, append_nil]
  | cons entry entries ih =>
      have hfilter : dict.entries.filter (fun e => e.1 ≠ entry.1) = dict.entries := by
        refine List.filter_eq_self.2 fun e he => decide_eq_true ?_
        rw [map_append, nodup_append] at h
        exact h.2.2 _ (mem_map_of_mem he) _ (mem_map_of_mem mem_cons_self)
      have hassign : (dict.assign entry).entries = dict.entries ++ [entry] :=
        congrArg (· ++ [entry]) hfilter
      rw [foldl_cons, ih (by rw [hassign]; simpa using h), hassign, append_assoc]
      rfl

def MMDict.values (dict : MMDict) : List MMValue := dict.entries.map Prod.snd

/-- The multimodal data of one request as a dictionary. -/
theorem framed_mmDict {dict : MMDict} (hplain : ∀ value ∈ dict.values, value.Plain)
    (hcount : ∀ value ∈ dict.values, value.Countable) :
    Framed 16 (writeMmDict dict) readMmDict dict := by
  have hentries : ∀ entry ∈ dict.entries, Framed 16 (writeMmEntry entry) readMmEntry entry :=
    fun entry hentry => framed_mmEntry (hplain _ (mem_map_of_mem hentry))
      (hcount _ (mem_map_of_mem hentry))
  have hdict : dict.entries.foldl MMDict.assign .empty = dict :=
    MMDict.ext (foldl_assign dict.distinct)
  have h := Framed.list (g := fun entries => entries.foldl MMDict.assign .empty) hentries
  rw [hdict] at h
  exact h

theorem framed_mmItem {item : MMDataItem} (hplain : ∀ value ∈ item.data.values, value.Plain)
    (hcount : ∀ value ∈ item.data.values, value.Countable) :
    Framed 16 (writeMmItem item) readMmItem item :=
  (framed_data _).bind <| (framed_mmDict hplain hcount).roundTrip.bind <|
  (framed_data _).roundTrip.bind <| (framed_data _).roundTrip.bind <|
  (framed_data _).roundTrip.bind <| (framed_data _).roundTrip.done fun _ => rfl

def MMData.values (mmData : MMData) : List MMValue :=
  match mmData.items with
  | .items mmItems => mmItems.flatMap fun item => item.data.values
  | .dict mmDict => mmDict.values

theorem framed_mmDataItems {mmData : MMData} (hholds : mmData.holdsItems = true)
    (hplain : ∀ value ∈ mmData.values, value.Plain)
    (hcount : ∀ value ∈ mmData.values, value.Countable) :
    Framed 16 (writeMmDataItems mmData) readMmDataItems mmData := by
  obtain ⟨type, items⟩ := mmData
  cases items with
  | dict mmDict => cases hholds
  | items mmItems =>
      have hitems : ∀ item ∈ mmItems, Framed 16 (writeMmItem item) readMmItem item := by
        intro item hitem
        exact framed_mmItem
          (fun value hvalue => hplain value (List.mem_flatMap.2 ⟨item, hitem, hvalue⟩))
          (fun value hvalue => hcount value (List.mem_flatMap.2 ⟨item, hitem, hvalue⟩))
      exact (framed_data type).bind (Framed.list hitems).roundTrip

theorem framed_mmDataDict {mmData : MMData} (hholds : mmData.holdsItems = false)
    (hplain : ∀ value ∈ mmData.values, value.Plain)
    (hcount : ∀ value ∈ mmData.values, value.Countable) :
    Framed 16 (writeMmDataDict mmData) readMmDataDict mmData := by
  obtain ⟨type, items⟩ := mmData
  cases items with
  | items mmItems => cases hholds
  | dict mmDict =>
      exact (framed_data type).bind <| (framed_mmDict hplain hcount).roundTrip.done fun _ => rfl

def OneKind (vec : List MMData) : Prop := ∀ mmData ∈ vec, mmData.holdsItems = isMmItem vec

theorem framed_mmBatchData {vec : List MMData} (hkind : OneKind vec)
    (hplain : ∀ mmData ∈ vec, ∀ value ∈ mmData.values, value.Plain)
    (hcount : ∀ mmData ∈ vec, ∀ value ∈ mmData.values, value.Countable) :
    Framed 16 (writeMmBatchData vec) readMmBatchData vec := by
  have hall : ∀ mmData ∈ vec,
      Framed 16 ((if isMmItem vec then writeMmDataItems else writeMmDataDict) mmData)
        (if isMmItem vec then readMmDataItems else readMmDataDict) mmData := by
    intro mmData hmem
    have hholds := hkind mmData hmem
    cases hitem : isMmItem vec with
    | true =>
        exact framed_mmDataItems (hholds.trans hitem) (hplain mmData hmem) (hcount mmData hmem)
    | false =>
        exact framed_mmDataDict (hholds.trans hitem) (hplain mmData hmem) (hcount mmData hmem)
  obtain ⟨d, a, hle, hw, hr⟩ := framed_forM hall
  refine framed_counted (k := vec.length) (d := Packed.bytes (isMmItem vec) ++ d) (a := [] ++ a)
    (g := fun k => readData >>= fun isMmItem : Bool =>
      readMany (if isMmItem then readMmDataItems else readMmDataDict) k) ?_
    ((writes_data _).bind hw) ((reads_unpack _).bind hr)
  rw [length_append]
  omega

end Multimodal

section Sampling

variable {α : Type} {params : SamplingParameters}

def SamplingParameters.tensors (params : SamplingParameters) : List Tensor :=
  [params.selectedTokenIdxes, params.frequencyPenalties, params.presencePenalties,
    params.repetitionPenalties, params.temperatures, params.topP, params.topK,
    params.uniqueTokenIds, params.uniqueTokenCounts, params.uniqueTokenIdsLens,
    params.sampleIdxes, params.doSample]

/-- Sampling parameters whose tensors have dimensions. -/
theorem framed_samplingParameters (h : ∀ tensor ∈ params.tensors, HasDimensions tensor) :
    Framed 16 (writeSamplingParameters params) readSamplingParameters params := by
  simp only [SamplingParameters.tensors, List.forall_mem_cons] at h
  obtain ⟨h₁, h₂, h₃, h₄, h₅, h₆, h₇, h₈, h₉, h₁₀, h₁₁, h₁₂, -⟩ := h
  exact (framed_tensor h₁).bind <| (framed_tensor h₂).roundTrip.bind <|
    (framed_tensor h₃).roundTrip.bind <| (framed_tensor h₄).roundTrip.bind <|
    (framed_tensor h₅).roundTrip.bind <| (framed_tensor h₆).roundTrip.bind <|
    (framed_tensor h₇).roundTrip.bind <| (framed_tensor h₈).roundTrip.bind <|
    (framed_tensor h₉).roundTrip.bind <| (framed_tensor h₁₀).roundTrip.bind <|
    (framed_tensor h₁₁).roundTrip.bind <| (framed_tensor h₁₂).roundTrip.bind <|
    (framed_data _).roundTrip.bind <| (framed_data _).roundTrip.bind <|
    (framed_data _).roundTrip.bind <| (framed_data _).roundTrip.bind <|
    (framed_data _).roundTrip.bind <| (framed_data _).roundTrip.done fun _ => rfl

theorem hasDimensions_none : HasDimensions none := by
  intro t ht
  cases ht

theorem hasDimensions_tensorOf {shape : List Nat} {dtype : ScalarType} {data : List UInt8}
    (hne : shape ≠ []) : HasDimensions (tensorOf shape dtype data) := by
  intro t ht
  rw [tensorOf] at ht
  split at ht
  · obtain rfl := Option.some.inj ht
    exact hne
  · cases ht

theorem hasDimensions_torchTensor [Element α] (vec : List α) :
    HasDimensions (torchTensor vec) := hasDimensions_tensorOf (cons_ne_nil _ _)

theorem hasDimensions_create2dTensor [Element α] {vec : List (List α)} {tensor : Tensor}
    (h : create2dTensor vec = some tensor) : HasDimensions tensor := by
  cases vec with
  | nil =>
      obtain rfl := Option.some.inj h
      exact hasDimensions_none
  | cons row rows =>
      rw [create2dTensor] at h
      split at h
      · rw [← Option.some.inj h]
        exact hasDimensions_tensorOf (cons_ne_nil _ _)
      · cases h

theorem HasDimensions.ite {c : Prop} [Decidable c] {tensor : Tensor} (h : HasDimensions tensor) :
    HasDimensions (if c then tensor else none) := by
  split
  · exact h
  · exact hasDimensions_none

theorem hasDimensions_uniqueTensor [Element α] {c : Bool} {vec : List (List α)} {tensor : Tensor}
    (h : uniqueTensor c vec = some tensor) : HasDimensions tensor := by
  rw [uniqueTensor] at h
  split at h
  · exact hasDimensions_create2dTensor h
  · obtain rfl := Option.some.inj h
    exact hasDimensions_none

/-- `SamplingParameters::init` makes no tensor without dimensions. -/
theorem hasDimensions_init {reqSamplingParams : List RequestSamplingParam}
    {selectedTokenIdxes sampleIdxes : List Int32} {uniqueTokenIdsVec : List (List Int64)}
    {uniqueTokenCountsVec : List (List Int32)} {uniqueTokenLensVec : List Int32}
    (h : SamplingParameters.init reqSamplingParams selectedTokenIdxes sampleIdxes
      uniqueTokenIdsVec uniqueTokenCountsVec uniqueTokenLensVec = some params) :
    selectedTokenIdxes.length < 2 ^ 63 ∧ ∀ tensor ∈ params.tensors, HasDimensions tensor := by
  rw [SamplingParameters.init] at h
  simp only [Option.bind_eq_bind, Option.bind_eq_some_iff] at h
  obtain ⟨_, hlt, -, -, -, -, -, -, ids, hids, counts, hcounts, doSample, -, hparams⟩ := h
  obtain rfl := Option.some.inj hparams
  refine ⟨by simpa [guard] using hlt, ?_⟩
  simp only [SamplingParameters.tensors, List.forall_mem_cons]
  exact ⟨hasDimensions_torchTensor _, (hasDimensions_torchTensor _).ite,
    (hasDimensions_torchTensor _).ite, (hasDimensions_torchTensor _).ite,
    (hasDimensions_torchTensor _).ite, (hasDimensions_torchTensor _).ite,
    (hasDimensions_torchTensor _).ite, hasDimensions_uniqueTensor hids,
      hasDimensions_uniqueTensor hcounts,
    (hasDimensions_torchTensor _).ite, hasDimensions_torchTensor _, hasDimensions_torchTensor _,
    forall_mem_nil _⟩

/-- The sampling parameters of an input. Without selected tokens there are none. -/
def RawForwardInput.sampling (input : RawForwardInput) : Option SamplingParameters :=
  if input.selectedTokenIdxes.isEmpty then some {} else input.initSampling

theorem framed_sampling {input : RawForwardInput} (h : input.sampling = some params) :
    Framed 16 (writeSampling input) readSampling params := by
  rw [RawForwardInput.sampling] at h
  cases hempty : input.selectedTokenIdxes.isEmpty with
  | true =>
      rw [hempty] at h
      obtain rfl := Option.some.inj h
      have hnil := List.isEmpty_iff.1 hempty
      refine (framed_data (UInt64.ofNat input.selectedTokenIdxes.length)).bind ?_
      rw [hnil]
      exact RoundTrip.pure _
  | false =>
      rw [hempty] at h
      have hinit : input.initSampling = some params := h
      obtain ⟨hlt, hdimensions⟩ := hasDimensions_init hinit
      have hcount : UInt64.ofNat input.selectedTokenIdxes.length ≠ 0 := by
        intro hzero
        have htoNat := UInt64.toNat_ofNat_of_lt' (n := input.selectedTokenIdxes.length)
          (show _ < 2 ^ 64 by omega)
        rw [hzero] at htoNat
        rw [List.length_eq_zero_iff.1 htoNat.symm] at hempty
        cases hempty
      refine (framed_data (UInt64.ofNat input.selectedTokenIdxes.length)).bind ?_
      rw [hempty, if_neg hcount, hinit]
      exact (framed_samplingParameters hdimensions).roundTrip

end Sampling

end Xllm.SharedMemory
