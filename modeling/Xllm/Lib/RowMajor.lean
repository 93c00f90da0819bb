import Mathlib.Data.List.Forall2
import Mathlib.Data.Nat.Notation

/-!
# Tensors in row-major order

A tensor has a shape and a value at every index of the shape. `ravel` numbers the indices with
the last one varying fastest, which is the order that a change of the shape keeps. Two tensors
are the same if they have the same shape and the same values in it.
-/

namespace RowMajor

universe u

def numel : List Nat → Nat
  | [] => 1
  | n :: shape => n * numel shape

theorem numel_perm {shape shape' : List Nat} (h : shape.Perm shape') :
    numel shape = numel shape' := by
  induction h with
  | nil => rfl
  | cons n _ ih => rw [numel, numel, ih]
  | swap m n shape => exact Nat.mul_left_comm n m (numel shape)
  | trans _ _ ih ih' => exact ih.trans ih'

theorem numel_pos {shape : List Nat} (h : ∀ n ∈ shape, 0 < n) : 0 < numel shape := by
  induction shape with
  | nil => exact Nat.one_pos
  | cons n shape ih =>
      exact Nat.mul_pos (h n List.mem_cons_self) (ih fun m hm => h m (List.mem_cons_of_mem n hm))

@[simp] theorem numel_of_ones {shape : List Nat} (h : ∀ n ∈ shape, n = 1) : numel shape = 1 := by
  induction shape with
  | nil => rfl
  | cons n shape ih =>
      rw [numel, h n List.mem_cons_self, ih fun m hm => h m (List.mem_cons_of_mem n hm)]

def ravel : List Nat → List Nat → Nat
  | _ :: shape, i :: index => i * numel shape + ravel shape index
  | _, _ => 0

def unravel : List Nat → Nat → List Nat
  | [], _ => []
  | _ :: shape, n => n / numel shape :: unravel shape (n % numel shape)

def InRange (shape index : List Nat) : Prop := List.Forall₂ (· < ·) index shape

variable {shape index : List Nat}

theorem ravel_lt (h : InRange shape index) : ravel shape index < numel shape := by
  induction h with
  | nil => exact Nat.zero_lt_one
  | @cons i n index shape hi _ ih =>
      have hle := Nat.mul_le_mul_right (numel shape) (Nat.succ_le_of_lt hi)
      rw [Nat.succ_mul] at hle
      rw [ravel, numel]
      omega

/-- The flat position of an index gives the index back. -/
@[simp] theorem unravel_ravel (h : InRange shape index) :
    unravel shape (ravel shape index) = index := by
  induction h with
  | nil => rfl
  | @cons i n index shape hi hrest ih =>
      have hlt := ravel_lt hrest
      rw [ravel, unravel, Nat.mul_comm, Nat.mul_add_div (Nat.zero_lt_of_lt hlt),
        Nat.div_eq_of_lt hlt, Nat.add_zero, Nat.mul_add_mod, Nat.mod_eq_of_lt hlt, ih]

theorem inRange_four {a b c d : Nat} : InRange [a, b, c, d] index ↔
    ∃ i j k l, index = [i, j, k, l] ∧ i < a ∧ j < b ∧ k < c ∧ l < d := by
  constructor
  · intro h
    obtain _ | ⟨hi, _ | ⟨hj, _ | ⟨hk, _ | ⟨hl, _ | _⟩⟩⟩⟩ := h
    exact ⟨_, _, _, _, rfl, hi, hj, hk, hl⟩
  · intro h
    obtain ⟨i, j, k, l, rfl, hi, hj, hk, hl⟩ := h
    exact .cons hi (.cons hj (.cons hk (.cons hl .nil)))

/-- A shape with a value at every index of it. -/
structure Tensor (α : Type u) where
  shape : List Nat
  get : List Nat → α

namespace Tensor

variable {α : Type u} {s t : Tensor α}

/-- Another shape for the same elements in the same order. -/
def reshape (t : Tensor α) (shape : List Nat) : Option (Tensor α) :=
  if numel shape = numel t.shape then
    some { shape := shape, get := fun index => t.get (unravel t.shape (ravel shape index)) }
  else none

/-- Two dimensions change places in a shape or an index. -/
def swap (i j : Nat) (l : List Nat) : List Nat := (l.set i (l.getD j 0)).set j (l.getD i 0)

def transpose (t : Tensor α) (i j : Nat) : Tensor α where
  shape := swap i j t.shape
  get index := t.get (swap i j index)

structure Same (s t : Tensor α) : Prop where
  shape_eq : s.shape = t.shape
  get_eq : ∀ index, InRange s.shape index → s.get index = t.get index

theorem Same.symm (h : Same s t) : Same t s :=
  ⟨h.shape_eq.symm, fun index hindex => (h.get_eq index (h.shape_eq ▸ hindex)).symm⟩

theorem Same.trans {u : Tensor α} (h : Same s t) (h' : Same t u) : Same s u :=
  ⟨h.shape_eq.trans h'.shape_eq, fun index hindex =>
    (h.get_eq index hindex).trans (h'.get_eq index (h.shape_eq ▸ hindex))⟩

/-- A reshape keeps flat positions. -/
theorem exists_reshape (t : Tensor α) {shape : List Nat} (h : numel shape = numel t.shape) :
    ∃ u, t.reshape shape = some u ∧ u.shape = shape ∧ ∀ index index', InRange t.shape index' →
      ravel shape index = ravel t.shape index' → u.get index = t.get index' := by
  refine ⟨_, if_pos h, rfl, fun index index' hrange heq => ?_⟩
  dsimp only
  rw [heq, unravel_ravel hrange]

theorem exists_turned (t : Tensor α) {shape : List Nat} (i j : Nat)
    (h : numel shape = numel t.shape) :
    ∃ u v, t.reshape shape = some u ∧ (u.transpose i j).reshape (swap i j shape) = some v ∧
      v.shape = swap i j shape ∧ ∀ index index', InRange (swap i j shape) index →
        InRange t.shape index' → ravel shape (swap i j index) = ravel t.shape index' →
          v.get index = t.get index' := by
  obtain ⟨u, hu, rfl, hget⟩ := t.exists_reshape h
  obtain ⟨v, hv, hshape, hsame⟩ := (u.transpose i j).exists_reshape rfl
  refine ⟨u, v, hu, hv, hshape, fun index index' hindex hindex' heq => ?_⟩
  rw [hsame index index hindex rfl]
  exact hget _ _ hindex' heq

end Tensor

end RowMajor
