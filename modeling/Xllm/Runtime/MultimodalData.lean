import Xllm.Runtime.ForwardRoundTrip

/-!
# Multimodal data in shared memory

The format keeps counts and no tags. Whether data hold items or a dictionary is read off the
first of a batch, whether a value is a tensor or a list off its number of tensors, and whether a
tensor is defined off its number of dimensions. So what a reader returns is always *plain*: of
one kind, with no list of a single tensor and no tensor without dimensions. Exactly the data that
are plain already survive.

What is sent of `MMBatchData` is the vector it was made of, by which `batch` computes the rest
again.
-/

namespace Xllm.SharedMemory

open Codec RawForwardInput List

variable {vec : List MMData}

theorem returns_lift {α : Type} {x : Option α} {P : α → Prop} (h : ∀ a, x = some a → P a) :
    Returns (liftM x : Reader α) P := by
  intro i a i' hrun
  cases x with
  | none => cases hrun
  | some b =>
      obtain ⟨rfl, -⟩ := Prod.mk.inj (Option.some.inj hrun)
      exact h b rfl

theorem returns_fromBlob (info : TensorMeta) :
    Returns (fromBlob info) fun t => t.shape.length = info.shape.length := by
  refine .after fun _ => .after fun dtype => .after fun data => returns_lift fun t ht => ?_
  rw [shape_of_tensorOf ht, length_map]

theorem returns_tensor : Returns readTensor HasDimensions := by
  refine .after fun info => ?_
  split
  · exact .pure hasDimensions_none
  · rename_i hne
    refine (returns_fromBlob info).bind fun t ht => .pure ?_
    intro t' heq
    cases heq
    intro hnil
    rw [hnil] at ht
    exact hne (List.length_eq_zero_iff.1 ht.symm)

theorem returns_mmEntry_plain : Returns readMmEntry fun entry => entry.2.Plain := by
  refine .after fun mmKey => .after fun tensorNum => ?_
  split
  · exact returns_tensor.bind fun tensor h => .pure h
  · rename_i hone
    refine .after fun _ => (returns_readMany returns_tensor _).bind fun tensors h => .pure ?_
    refine ⟨h.2, ?_⟩
    intro hlength
    apply hone
    have hint : tensorNum.toInt = 1 := by
      omega
    exact Int32.toInt_inj.1 hint

theorem returns_mmEntry_values :
    Returns readMmEntry fun entry => entry.2.Plain ∧ entry.2.Countable := by
  intro i entry i' hrun
  exact ⟨returns_mmEntry_plain i entry i' hrun, returns_mmEntry i entry i' hrun⟩

/-- Data that look like themselves when only counts are known. -/
structure Recognizable (vec : List MMData) : Prop where
  oneKind : OneKind vec
  values : ∀ mmData ∈ vec, ∀ value ∈ mmData.values, value.Plain ∧ value.Countable

theorem returns_recognizable : Returns readMmBatchData Recognizable := by
  intro i vec i' hrun
  have hread := returns_mmBatchData (P := fun value => value.Plain ∧ value.Countable)
    returns_mmEntry_values i vec i' hrun
  exact ⟨hread.1, hread.2⟩

/-- A dry run measures no more bytes than a memory can have. -/
def Measured (vec : List MMData) : Prop :=
  ∀ o, writeMmBatchData vec { descriptor := .counting, arena := .counting } = some ((), o) →
    o.descriptor.size + o.arena.size < 2 ^ 63

theorem stands_append {d a : List UInt8} (h : d.length + a.length < 2 ^ 63) :
    Stands { memory := d ++ a, descriptor := 0, arena := d.length } d a where
  descriptor := prefix_append _ _
  arena := by simp only [drop_left, prefix_rfl]
  descriptor_le := by
    rw [length_append, Nat.zero_add]
    exact Nat.le_add_right _ _
  arena_le := by
    rw [length_append]
  size_lt := by
    rw [length_append]
    exact h

theorem recognizable_of_roundTrip (hmeasured : Measured vec)
    (h : RoundTrip 16 (writeMmBatchData vec) readMmBatchData vec) : Recognizable vec := by
  obtain ⟨d, a, hw, hr⟩ := h
  obtain ⟨o, hrun, hdescriptor, harena, -⟩ := hw { descriptor := .counting, arena := .counting }
  have hsize := hmeasured o hrun
  rw [hdescriptor, harena] at hsize
  have hstands := stands_append (d := d) (a := a) (by simpa [Section.counting] using hsize)
  exact returns_recognizable _ _ _ (hr _ hstands)

theorem roundTrip_of_recognizable (h : Recognizable vec) :
    RoundTrip 16 (writeMmBatchData vec) readMmBatchData vec :=
  (framed_mmBatchData h.oneKind
    (fun mmData hmem value hvalue => (h.values mmData hmem value hvalue).1)
    fun mmData hmem value hvalue => (h.values mmData hmem value hvalue).2).roundTrip

/-- Multimodal data are read as they were written, with both cursors at the end of what was
written, if and only if they are recognizable by their counts. -/
theorem mmBatchData_survives_iff (vec : List MMData) (hmeasured : Measured vec) :
    RoundTrip 16 (writeMmBatchData vec) readMmBatchData vec ↔ Recognizable vec :=
  ⟨recognizable_of_roundTrip hmeasured, roundTrip_of_recognizable⟩

def dictOf (value : MMValue) : List MMData := [⟨1, .dict ⟨[([0x70], value)], by simp⟩⟩]

/-- A number, as a tensor without dimensions. -/
def scalar : TensorData := ⟨[], .int, [5, 0, 0, 0], by simp, rfl⟩

theorem measured_of_run
    (h : ((writeMmBatchData vec { descriptor := .counting, arena := .counting }).all fun p =>
      p.2.descriptor.size + p.2.arena.size < 2 ^ 63) = true) : Measured vec := by
  intro o ho
  rw [ho] at h
  exact of_decide_eq_true h

/-- A tensor without dimensions, a list of one tensor, and items beside a dictionary. -/
theorem unrecognizable_lost :
    ¬ RoundTrip 16 (writeMmBatchData (dictOf (.tensor (some scalar)))) readMmBatchData
        (dictOf (.tensor (some scalar))) ∧
      ¬ RoundTrip 16 (writeMmBatchData (dictOf (.tensors [none]))) readMmBatchData
        (dictOf (.tensors [none])) ∧
      ¬ RoundTrip 16 (writeMmBatchData [⟨1, .items []⟩, ⟨1, .dict .empty⟩]) readMmBatchData
        [⟨1, .items []⟩, ⟨1, .dict .empty⟩] := by
  refine ⟨?_, ?_, ?_⟩
  · intro h
    have hmeasured : Measured (dictOf (.tensor (some scalar))) :=
      measured_of_run (by decide +kernel)
    have hvalue := (recognizable_of_roundTrip hmeasured h).values _ (mem_singleton_self _) _
      (mem_singleton_self _)
    exact hvalue.1 scalar rfl rfl
  · intro h
    have hmeasured : Measured (dictOf (.tensors [none])) :=
      measured_of_run (by decide +kernel)
    have hvalue := (recognizable_of_roundTrip hmeasured h).values _ (mem_singleton_self _) _
      (mem_singleton_self _)
    exact hvalue.1.2 rfl
  · intro h
    have hmeasured : Measured [⟨1, .items []⟩, ⟨1, .dict .empty⟩] :=
      measured_of_run (by decide +kernel)
    have hkind := (recognizable_of_roundTrip hmeasured h).oneKind ⟨1, .dict .empty⟩
      (mem_cons_of_mem _ (mem_singleton_self _))
    cases hkind

theorem mmBatchData_survives_list :
    RoundTrip 16 (writeMmBatchData (dictOf (.tensors [none, torchTensor [(5 : Int32)]])))
      readMmBatchData (dictOf (.tensors [none, torchTensor [(5 : Int32)]])) := by
  have hmeasured : Measured (dictOf (.tensors [none, torchTensor [(5 : Int32)]])) :=
    measured_of_run (by decide +kernel)
  apply (mmBatchData_survives_iff _ hmeasured).2
  refine ⟨?_, ?_⟩
  · intro mmData hmem
    rw [List.mem_singleton.1 hmem]
    rfl
  · intro mmData hmem value hvalue
    rw [List.mem_singleton.1 hmem] at hvalue
    rw [List.mem_singleton.1 hvalue]
    refine ⟨by decide, ?_⟩
    change 2 < 2 ^ 31
    decide

end Xllm.SharedMemory
