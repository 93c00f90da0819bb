import Mathlib.Data.List.Basic

/-!
# Tensors of rows

`create_2d_tensor` and `safe_concat`, on host tensors. A tensor with one dimension is the list
of its values, one with two dimensions carries the length that its rows share, and a tensor that
is not defined is `none`.
-/

namespace Xllm.Util

/-- What ends a call: a `CHECK` that fails, an index outside a tensor, `torch::cat` on tensors
that do not fit, or the maximum of an empty tensor. -/
inductive TensorFault
  | check
  | index
  | cat
  | empty
deriving DecidableEq

def check (holds : Bool) : Except TensorFault Unit :=
  if holds then .ok () else .error .check

def rowAt {α : Type*} (t : List α) (idx : Nat) : Except TensorFault α :=
  (t[idx]?).elim (.error .index) .ok

@[ext]
structure Tensor2d (α : Type*) where
  cols : Nat
  rows : List (List α)
  rows_length : ∀ row ∈ rows, row.length = cols

variable {α : Type*}

def columns (vec : List (List α)) : Nat := (vec.headD []).length

def create2dTensor (vec : List (List α)) : Except TensorFault (Option (Tensor2d α)) :=
  if vec.isEmpty then .ok none
  else
    if h : vec.all (fun row => row.length == columns vec) then
      .ok (some ⟨columns vec, vec, by simpa using h⟩)
    else .error .check

def Tensor2d.cat (s t : Tensor2d α) : Except TensorFault (Tensor2d α) :=
  if h : t.cols = s.cols then
    .ok ⟨s.cols, s.rows ++ t.rows, by
      intro row hrow
      rcases List.mem_append.mp hrow with hrow | hrow
      · exact s.rows_length row hrow
      · exact (t.rows_length row hrow).trans h⟩
  else .error .cat

theorem Tensor2d.cat_of_cols {s t : Tensor2d α} (h : t.cols = s.cols) :
    ∃ u, Tensor2d.cat s t = .ok u ∧ u.cols = s.cols ∧ u.rows = s.rows ++ t.rows :=
  ⟨_, dif_pos h, rfl, rfl⟩

@[simp] theorem Tensor2d.cat_of_cols_ne {s t : Tensor2d α} (h : t.cols ≠ s.cols) :
    Tensor2d.cat s t = .error .cat := dif_neg h

def cat1d (xs ys : List α) : Except TensorFault (List α) := .ok (xs ++ ys)

def safeConcat {τ : Type*} (cat : τ → τ → Except TensorFault τ) :
    Option τ → Option τ → Except TensorFault (Option τ)
  | some s, some t => (cat s t).map some
  | none, t => .ok t
  | some s, none => .ok (some s)

def definedIf {τ : Type*} (needed : Bool) (t : τ) : Option τ := if needed then some t else none

@[simp] theorem definedIf_true {τ : Type*} (t : τ) : definedIf true t = some t := rfl
@[simp] theorem definedIf_false {τ : Type*} (t : τ) : definedIf false t = none := rfl

/-- `safe_concat` of two vectors, which always fit. -/
def join : Option (List α) → Option (List α) → Option (List α)
  | some xs, some ys => some (xs ++ ys)
  | none, ys => ys
  | some xs, none => some xs

theorem safeConcat_cat1d (xs ys : Option (List α)) :
    safeConcat cat1d xs ys = .ok (join xs ys) := by
  cases xs <;> cases ys <;> rfl

/-- Joining two vectors that were built on demand gives the vector of the joined rows exactly if
the second has no rows or both were built alike. -/
theorem join_definedIf_iff {xs ys : List α} {a b : Bool} (hxs : xs ≠ [])
    (hb : ys = [] → b = false) :
    join (definedIf a xs) (definedIf b ys) = definedIf (a || b) (xs ++ ys) ↔
      ys = [] ∨ a = b := by
  cases a <;> cases b
  · simp [join]
  · have hys : ys ≠ [] := fun h => by simpa using hb h
    simp [join, hxs, hys]
  · simp [join]
  · simp [join]

/-- A vector that is not joined is the vector of the joined rows exactly if there are no more
rows, or it is not built. -/
theorem definedIf_append_iff {xs ys : List α} {a b : Bool} (hb : ys = [] → b = false) :
    definedIf a xs = definedIf (a || b) (xs ++ ys) ↔ ys = [] ∨ (a = false ∧ b = false) := by
  cases a <;> cases b
  · simp
  · have hys : ys ≠ [] := fun h => by simpa using hb h
    simp [hys]
  · simp
  · simp

theorem create2dTensor_eq_ok {vec : List (List α)} {t : Option (Tensor2d α)}
    (hvec : vec ≠ []) (h : create2dTensor vec = .ok t) :
    ∃ s, t = some s ∧ s.rows = vec ∧ s.cols = columns vec := by
  unfold create2dTensor at h
  rw [if_neg (by simpa using hvec)] at h
  split at h
  · obtain rfl := (Except.ok.inj h).symm
    exact ⟨_, rfl, rfl, rfl⟩
  · cases h

theorem create2dTensor_of_rows {s : Tensor2d α} (hrows : s.rows ≠ [])
    (hcols : s.cols = columns s.rows) : create2dTensor s.rows = .ok (some s) := by
  have hall : s.rows.all (fun row => row.length == columns s.rows) := by
    simpa [← hcols] using s.rows_length
  unfold create2dTensor
  rw [if_neg (by simpa using hrows), dif_pos hall]
  exact congrArg _ (congrArg _ (Tensor2d.ext hcols.symm rfl))

@[simp] theorem columns_append {xs ys : List (List α)} (hxs : xs ≠ []) :
    columns (xs ++ ys) = columns xs := by
  cases xs with
  | nil => exact absurd rfl hxs
  | cons x xs => rfl

def matrixIf (needed : Bool) (vec : List (List α)) : Except TensorFault (Option (Tensor2d α)) :=
  if needed then create2dTensor vec else .ok none

/-- Joining two matrices that were built on demand gives the matrix of the joined rows exactly if
the second has no rows, or both were built alike and from rows of one length. -/
theorem safeConcat_matrixIf_iff {xs ys : List (List α)} {a b : Bool}
    {s t : Option (Tensor2d α)} (hxs : xs ≠ []) (hb : ys = [] → b = false)
    (hs : matrixIf a xs = .ok s) (ht : matrixIf b ys = .ok t) :
    (∃ u, safeConcat Tensor2d.cat s t = .ok u ∧ matrixIf (a || b) (xs ++ ys) = .ok u) ↔
      ys = [] ∨ (a = b ∧ (a = true → columns xs = columns ys)) := by
  cases a <;> cases b
  · obtain rfl : s = none := (Except.ok.inj hs).symm
    obtain rfl : t = none := (Except.ok.inj ht).symm
    simp [safeConcat, matrixIf]
  · have hys : ys ≠ [] := fun h => by simpa using hb h
    obtain rfl : s = none := (Except.ok.inj hs).symm
    obtain ⟨t, rfl, hrows, -⟩ := create2dTensor_eq_ok hys ht
    constructor
    · rintro ⟨u, hu, hcreate⟩
      obtain rfl : some t = u := Except.ok.inj hu
      obtain ⟨v, hv, hvrows, -⟩ := create2dTensor_eq_ok (by simp [hxs]) hcreate
      obtain rfl : t = v := Option.some.inj hv
      simp [hrows, hxs] at hvrows
    · rintro (h | ⟨h, -⟩)
      · exact absurd h hys
      · cases h
  · obtain ⟨s, rfl, hrows, hcols⟩ := create2dTensor_eq_ok hxs hs
    obtain rfl : t = none := (Except.ok.inj ht).symm
    constructor
    · rintro ⟨u, hu, hcreate⟩
      obtain rfl : some s = u := Except.ok.inj hu
      obtain ⟨v, hv, hvrows, -⟩ := create2dTensor_eq_ok (by simp [hxs]) hcreate
      obtain rfl : s = v := Option.some.inj hv
      left
      simpa [hrows] using hvrows
    · rintro (rfl | ⟨h, -⟩)
      · exact ⟨some s, rfl, by simpa [matrixIf] using hs⟩
      · cases h
  · have hys : ys ≠ [] := fun h => by simpa using hb h
    obtain ⟨s, rfl, hrows, hcols⟩ := create2dTensor_eq_ok hxs hs
    obtain ⟨t, rfl, htrows, htcols⟩ := create2dTensor_eq_ok hys ht
    by_cases hwidth : t.cols = s.cols
    · obtain ⟨u, hjoin, hucols, hurows⟩ := Tensor2d.cat_of_cols hwidth
      have hvec : u.rows = xs ++ ys := by rw [hurows, hrows, htrows]
      have hmade : create2dTensor u.rows = .ok (some u) :=
        create2dTensor_of_rows (by simp [hvec, hxs])
          (by rw [hucols, hcols, hvec, columns_append hxs])
      refine ⟨fun _ => .inr ⟨rfl, fun _ => by rw [← hcols, ← htcols, hwidth]⟩, fun _ => ?_⟩
      exact ⟨some u, by rw [safeConcat, hjoin]; rfl, by rw [← hvec]; exact hmade⟩
    · constructor
      · rintro ⟨u, hu, -⟩
        rw [safeConcat, Tensor2d.cat_of_cols_ne hwidth] at hu
        cases hu
      · rintro (h | ⟨-, h⟩)
        · exact absurd h hys
        · exact absurd (by rw [hcols, htcols, h rfl]) hwidth

end Xllm.Util
