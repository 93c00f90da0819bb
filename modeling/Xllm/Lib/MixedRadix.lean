import Mathlib.Tactic.Ring
import Xllm.Lib.RowMajor

/-!
# Numbers with two kinds of digits

A number below the product of some sizes is written with digits, of which the first one varies
fastest. Each digit belongs to one of two sides. The digits of one side are the digits of a
smaller number, and the pair of these two numbers determines the number.
-/

namespace MixedRadix

open RowMajor List

/-- A digit has a size and a side. -/
abbrev Axes := List (Nat × Bool)

def pick {α : Type*} (side : Bool) : List α → List Bool → List α
  | x :: xs, b :: mask => if b = side then x :: pick side xs mask else pick side xs mask
  | _, _ => []

/-- How many numbers the digits of one side make. -/
def count (side : Bool) : Axes → Nat
  | [] => 1
  | (size, b) :: axes => if b = side then size * count side axes else count side axes

/-- The number in which one side has the digits of `n` and the other side has zeros. -/
def place (side : Bool) : Axes → Nat → Nat
  | [], _ => 0
  | (size, b) :: axes, n =>
      if b = side then n % size + size * place side axes (n / size)
      else size * place side axes n

/-- The number with both kinds of digits. -/
def join (axes : Axes) (i j : Nat) : Nat := place true axes i + place false axes j

variable {axes : Axes} {size i j i' j' n : Nat}

@[simp] theorem join_true (axes : Axes) (size i j : Nat) :
    join ((size, true) :: axes) i j = i % size + size * join axes (i / size) j := by
  simp only [join, place, if_true, Bool.true_eq_false, if_false]
  ring

@[simp] theorem join_false (axes : Axes) (size i j : Nat) :
    join ((size, false) :: axes) i j = j % size + size * join axes i (j / size) := by
  simp only [join, place, if_true, Bool.false_eq_true, if_false]
  ring

theorem count_zip (side : Bool) (sizes : List Nat) (mask : List Bool) :
    count side (sizes.zip mask) = numel (pick side sizes mask) := by
  induction sizes generalizing mask with
  | nil => rfl
  | cons size sizes ih =>
      cases mask with
      | nil => rfl
      | cons b mask =>
          rw [zip_cons_cons, count, pick, ih]
          split <;> rfl

theorem count_mul_count (axes : Axes) :
    count true axes * count false axes = numel (axes.map Prod.fst) := by
  induction axes with
  | nil => rfl
  | cons axis axes ih =>
      obtain ⟨size, _ | _⟩ := axis
      all_goals
        simp only [count, if_true, Bool.true_eq_false, Bool.false_eq_true, if_false, map_cons,
          numel, ← ih]
        ring

theorem div_lt_count (h : i < size * n) : i / size < n := Nat.div_lt_of_lt_mul h

theorem digit_lt (hi : i < size) (h : j < n) : i + size * j < size * n := by
  have hle := Nat.mul_le_mul_left size (Nat.succ_le_of_lt h)
  rw [Nat.mul_succ] at hle
  omega

theorem digit_inj (hi : i < size) (hi' : i' < size) (h : i + size * j = i' + size * j') :
    i = i' ∧ j = j' := by
  have hsize : 0 < size := Nat.zero_lt_of_lt hi
  have hdiv := congrArg (· / size) h
  simp only [Nat.add_mul_div_left _ _ hsize, Nat.div_eq_of_lt hi, Nat.div_eq_of_lt hi',
    Nat.zero_add] at hdiv
  subst hdiv
  exact ⟨Nat.add_right_cancel h, rfl⟩

theorem eq_of_digit (hmod : i % size = i' % size) (hdiv : i / size = i' / size) : i = i' := by
  rw [← Nat.mod_add_div i size, hmod, hdiv, Nat.mod_add_div]

section

variable (hpos : ∀ axis ∈ axes, 0 < axis.1)

include hpos

theorem count_pos (side : Bool) : 0 < count side axes := by
  induction axes with
  | nil => exact Nat.zero_lt_one
  | cons axis axes ih =>
      have hrest := ih fun axis h => hpos axis (mem_cons_of_mem _ h)
      rw [count]
      split
      · exact Nat.mul_pos (hpos axis mem_cons_self) hrest
      · exact hrest

theorem join_lt (hi : i < count true axes) (hj : j < count false axes) :
    join axes i j < numel (axes.map Prod.fst) := by
  induction axes generalizing i j with
  | nil => exact Nat.zero_lt_one
  | cons axis axes ih =>
      obtain ⟨size, b⟩ := axis
      have hsize : 0 < size := hpos _ mem_cons_self
      have hrest := fun axis h => hpos axis (mem_cons_of_mem _ h)
      cases b with
      | true =>
          rw [join_true]
          exact digit_lt (Nat.mod_lt i hsize) (ih hrest (div_lt_count hi) hj)
      | false =>
          rw [join_false]
          exact digit_lt (Nat.mod_lt j hsize) (ih hrest hi (div_lt_count hj))

/-- A number is joined from one pair of sides. -/
theorem join_inj (hi : i < count true axes) (hj : j < count false axes)
    (hi' : i' < count true axes) (hj' : j' < count false axes)
    (h : join axes i j = join axes i' j') : i = i' ∧ j = j' := by
  induction axes generalizing i j i' j' with
  | nil => exact ⟨(Nat.lt_one_iff.mp hi).trans (Nat.lt_one_iff.mp hi').symm,
      (Nat.lt_one_iff.mp hj).trans (Nat.lt_one_iff.mp hj').symm⟩
  | cons axis axes ih =>
      obtain ⟨size, b⟩ := axis
      have hsize : 0 < size := hpos _ mem_cons_self
      have hrest := fun axis h => hpos axis (mem_cons_of_mem _ h)
      cases b with
      | true =>
          rw [join_true, join_true] at h
          obtain ⟨hmod, hjoin⟩ := digit_inj (Nat.mod_lt i hsize) (Nat.mod_lt i' hsize) h
          obtain ⟨hdiv, rfl⟩ := ih hrest (div_lt_count hi) hj (div_lt_count hi') hj' hjoin
          exact ⟨eq_of_digit hmod hdiv, rfl⟩
      | false =>
          rw [join_false, join_false] at h
          obtain ⟨hmod, hjoin⟩ := digit_inj (Nat.mod_lt j hsize) (Nat.mod_lt j' hsize) h
          obtain ⟨rfl, hdiv⟩ := ih hrest hi (div_lt_count hj) hi' (div_lt_count hj') hjoin
          exact ⟨rfl, eq_of_digit hmod hdiv⟩

/-- Every number is joined from two sides. -/
theorem exists_join (h : n < numel (axes.map Prod.fst)) :
    ∃ i < count true axes, ∃ j < count false axes, join axes i j = n := by
  induction axes generalizing n with
  | nil => exact ⟨0, Nat.zero_lt_one, 0, Nat.zero_lt_one, (Nat.lt_one_iff.mp h).symm⟩
  | cons axis axes ih =>
      obtain ⟨size, b⟩ := axis
      have hmod : n % size < size := Nat.mod_lt n (hpos _ mem_cons_self)
      have hdigit : ∀ k, (n % size + size * k) % size = n % size ∧
          (n % size + size * k) / size = k := fun k => by
        rw [Nat.add_mul_mod_self_left, Nat.mod_mod, Nat.add_mul_div_left _ _ (by omega),
          Nat.div_eq_of_lt hmod, Nat.zero_add]
        exact ⟨rfl, rfl⟩
      obtain ⟨i, hi, j, hj, hjoin⟩ :=
        ih (fun axis h => hpos axis (mem_cons_of_mem _ h)) (Nat.div_lt_of_lt_mul h)
      cases b with
      | true =>
          refine ⟨n % size + size * i, digit_lt hmod hi, j, hj, ?_⟩
          rw [join_true, (hdigit i).1, (hdigit i).2, hjoin, Nat.mod_add_div]
      | false =>
          refine ⟨i, hi, n % size + size * j, digit_lt hmod hj, ?_⟩
          rw [join_false, (hdigit j).1, (hdigit j).2, hjoin, Nat.mod_add_div]

end

/-- The other side's digits. -/
def swapSides (axes : Axes) : Axes := axes.map fun axis => (axis.1, !axis.2)

@[simp] theorem swapSides_cons (size : Nat) (b : Bool) (axes : Axes) :
    swapSides ((size, b) :: axes) = (size, !b) :: swapSides axes := rfl

@[simp] theorem count_swapSides (side : Bool) (axes : Axes) :
    count side (swapSides axes) = count (!side) axes := by
  induction axes with
  | nil => rfl
  | cons axis axes ih =>
      obtain ⟨size, b⟩ := axis
      simp only [swapSides_cons, count, ih]
      cases b <;> cases side <;> rfl

@[simp] theorem place_swapSides (side : Bool) (axes : Axes) (n : Nat) :
    place side (swapSides axes) n = place (!side) axes n := by
  induction axes generalizing n with
  | nil => rfl
  | cons axis axes ih =>
      obtain ⟨size, b⟩ := axis
      simp only [swapSides_cons, place, ih]
      cases b <;> cases side <;> rfl

@[simp] theorem join_swapSides (axes : Axes) (i j : Nat) :
    join (swapSides axes) i j = join axes j i := by
  rw [join, place_swapSides, place_swapSides, Nat.add_comm]
  rfl

/-- The numbers that differ in the digits of one side only, and the other groups of this kind,
moved by `first`. -/
def groups (axes : Axes) (first : Int) : List (List Int) :=
  (List.range (count false axes)).map fun j =>
    (List.range (count true axes)).map fun i => (join axes i j : Int) + first

structure Partition (groups : List (List Int)) (first : Int) (n groupSize : Nat) : Prop where
  length_eq : ∀ group ∈ groups, group.length = groupSize
  inside : ∀ group ∈ groups, ∀ x ∈ group, first ≤ x ∧ x < first + n
  once : ∀ x, first ≤ x → x < first + n →
    ∃! place : Nat × Nat, groups[place.1]?.bind (·[place.2]?) = some x

theorem getElem?_groups {axes : Axes} {first x : Int} {place : Nat × Nat} :
    (groups axes first)[place.1]?.bind (·[place.2]?) = some x ↔
      place.1 < count false axes ∧ place.2 < count true axes ∧
        (join axes place.2 place.1 : Int) + first = x := by
  simp only [groups, getElem?_map, Option.bind_map]
  by_cases hj : place.1 < count false axes
  · by_cases hi : place.2 < count true axes
    · simp [hi, hj]
    · simp [hi]
  · simp [hj]

section

variable {axes : Axes} (hpos : ∀ axis ∈ axes, 0 < axis.1) (first : Int)

include hpos

theorem partition_groups :
    Partition (groups axes first) first (numel (axes.map Prod.fst)) (count true axes) := by
  constructor
  case length_eq =>
    intro group hgroup
    obtain ⟨j, -, rfl⟩ := List.mem_map.mp hgroup
    rw [length_map, length_range]
  case inside =>
    intro group hgroup x hx
    obtain ⟨j, hj, rfl⟩ := List.mem_map.mp hgroup
    obtain ⟨i, hi, rfl⟩ := List.mem_map.mp hx
    have hlt := join_lt hpos (List.mem_range.mp hi) (List.mem_range.mp hj)
    omega
  case once =>
    intro x hlow hhigh
    obtain ⟨n, rfl⟩ := Int.eq_ofNat_of_zero_le (Int.sub_nonneg_of_le hlow) |>.imp
      fun n hn => eq_add_of_sub_eq hn
    obtain ⟨i, hi, j, hj, rfl⟩ := exists_join hpos (n := n) (by omega)
    refine ⟨(j, i), getElem?_groups.mpr ⟨hj, hi, rfl⟩, fun place hplace => ?_⟩
    obtain ⟨hj', hi', heq⟩ := getElem?_groups.mp hplace
    obtain ⟨hi, hj⟩ := join_inj hpos hi' hj' hi hj (by omega)
    exact Prod.ext hj hi

theorem groups_of_one (hone : numel (axes.map Prod.fst) = 1) :
    ∀ group ∈ groups axes first, group = [first] := by
  intro group hgroup
  obtain ⟨j, hj, rfl⟩ := List.mem_map.mp hgroup
  have hcount : count true axes = 1 := Nat.eq_one_of_mul_eq_one_right
    ((count_mul_count axes).trans hone)
  have hzero : join axes 0 j = 0 := by
    have hlt := join_lt hpos (hcount ▸ Nat.zero_lt_one) (List.mem_range.mp hj)
    omega
  rw [hcount, range_one, map_singleton, hzero, Nat.cast_zero, Int.zero_add]

/-- A group and a group of the other side share one element. -/
theorem orthogonal_groups : ∀ group ∈ groups axes first, ∀ group' ∈ groups (swapSides axes) first,
    ∃! x, x ∈ group ∧ x ∈ group' := by
  intro group hgroup group' hgroup'
  obtain ⟨j, hj, rfl⟩ := List.mem_map.mp hgroup
  obtain ⟨i, hi, rfl⟩ := List.mem_map.mp hgroup'
  have hj' := List.mem_range.mp hj
  have hi' := List.mem_range.mp hi
  rw [count_swapSides] at hi'
  refine ⟨(join axes i j : Int) + first, ⟨?_, ?_⟩, fun x hx => ?_⟩
  · exact List.mem_map.mpr ⟨i, List.mem_range.mpr hi', rfl⟩
  · refine List.mem_map.mpr ⟨j, ?_, by rw [join_swapSides]⟩
    rw [count_swapSides]
    exact hj
  · obtain ⟨hx, hx'⟩ := hx
    obtain ⟨i₁, hi₁, rfl⟩ := List.mem_map.mp hx
    obtain ⟨j₁, hj₁, heq⟩ := List.mem_map.mp hx'
    rw [count_swapSides] at hj₁
    rw [join_swapSides] at heq
    obtain ⟨rfl, -⟩ := join_inj hpos hi' (List.mem_range.mp hj₁) (List.mem_range.mp hi₁) hj'
      (by omega)
    rfl

end

end MixedRadix
