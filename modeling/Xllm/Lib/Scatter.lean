import Mathlib.Data.List.Nodup
import Mathlib.Data.List.Perm.Basic

/-!
# Tables and lists that are written entry by entry

A list is scattered by writes at positions that do not repeat; the order of the writes does
not matter then. A map from keys to values takes an entry for each assignment, and keys that
do not repeat leave the entries as they were assigned.

In snake order the places of a table are numbered column by column, forwards in the even
columns and backwards in the odd ones. The number of a place and the place of a number are
the same function.
-/

namespace Scatter

open List

universe u

variable {α : Type u}

/-- Each pair writes its value at its position. -/
def scatter (l : List α) (writes : List (Nat × α)) : List α :=
  writes.foldl (fun l write => l.set write.1 write.2) l

variable {l : List α} {writes : List (Nat × α)} {t : Nat} {x : α}

@[simp] theorem length_scatter : (scatter l writes).length = l.length := by
  induction writes generalizing l with
  | nil => rfl
  | cons write writes ih => exact ih.trans List.length_set

@[simp] theorem getElem?_scatter_of_notMem (h : t ∉ writes.map Prod.fst) :
    (scatter l writes)[t]? = l[t]? := by
  induction writes generalizing l with
  | nil => rfl
  | cons write writes ih =>
      rw [map_cons, mem_cons, not_or] at h
      exact (ih h.2).trans (getElem?_set_ne (Ne.symm h.1))

/-- What is written once is there afterwards. -/
theorem getElem?_scatter (once : (writes.map Prod.fst).Nodup) (h : (t, x) ∈ writes)
    (ht : t < l.length) : (scatter l writes)[t]? = some x := by
  induction writes generalizing l with
  | nil => cases h
  | cons write writes ih =>
      rw [map_cons, nodup_cons] at once
      cases h with
      | head =>
          refine (getElem?_scatter_of_notMem once.1).trans ?_
          exact getElem?_set_self ht
      | tail _ h =>
          exact ih once.2 h (by rwa [List.length_set])

def assign (m : List (Nat × Nat)) (key value : Nat) : List (Nat × Nat) :=
  if m.any fun entry => entry.1 == key then
    m.map fun entry => if entry.1 = key then (key, value) else entry
  else m ++ [(key, value)]

@[simp] theorem assign_new {m : List (Nat × Nat)} {key value : Nat} (h : key ∉ m.map Prod.fst) :
    assign m key value = m ++ [(key, value)] := by
  apply if_neg
  intro hany
  obtain ⟨entry, hentry, hkey⟩ := List.any_eq_true.mp hany
  exact h (List.mem_map.mpr ⟨entry, hentry, beq_iff_eq.mp hkey⟩)

theorem foldl_assign {m entries : List (Nat × Nat)}
    (once : ((m ++ entries).map Prod.fst).Nodup) :
    entries.foldl (fun m entry => assign m entry.1 entry.2) m = m ++ entries := by
  induction entries generalizing m with
  | nil => exact (append_nil m).symm
  | cons entry entries ih =>
      have new : entry.1 ∉ m.map Prod.fst := by
        rw [map_append, nodup_append] at once
        intro h
        exact once.2.2 _ h _ mem_cons_self rfl
      rw [foldl_cons, assign_new new, ih]
      · rw [append_assoc, singleton_append]
      · rwa [append_assoc]

def entry (table : List (List Nat)) (row col : Nat) : Nat :=
  (table.getD row []).getD col 0

def setEntry (table : List (List Nat)) (row col x : Nat) : List (List Nat) :=
  table.set row ((table.getD row []).set col x)

structure Shape (table : List (List Nat)) (rows cols : Nat) : Prop where
  length_eq : table.length = rows
  row_length : ∀ row < rows, (table.getD row []).length = cols

variable {table : List (List Nat)} {rows cols : Nat}

theorem shape_replicate : Shape (replicate rows (replicate cols 0)) rows cols := by
  constructor
  · exact length_replicate
  · intro row hrow
    rw [getD_eq_getElem?_getD, getElem?_replicate, if_pos hrow]
    exact length_replicate

theorem getD_setEntry {row col x row' : Nat} (hrow : row < table.length) :
    (setEntry table row col x).getD row' [] =
      if row = row' then (table.getD row []).set col x else table.getD row' [] := by
  rw [setEntry, getD_eq_getElem?_getD, getElem?_set]
  split
  · rfl
  · rw [← getD_eq_getElem?_getD]

theorem Shape.setEntry (h : Shape table rows cols) {row col x : Nat} (hrow : row < rows) :
    Shape (setEntry table row col x) rows cols := by
  constructor
  · exact List.length_set.trans h.length_eq
  · intro row' hrow'
    rw [getD_setEntry (h.length_eq ▸ hrow)]
    split
    · rw [List.length_set]
      exact h.row_length row hrow
    · exact h.row_length row' hrow'

theorem Shape.entry_setEntry (h : Shape table rows cols) {row col x row' col' : Nat}
    (hrow : row < rows) (hcol : col < cols) :
    entry (Scatter.setEntry table row col x) row' col' =
      if row = row' ∧ col = col' then x else entry table row' col' := by
  rw [entry, getD_setEntry (h.length_eq ▸ hrow)]
  by_cases hr : row = row'
  · subst hr
    rw [if_pos rfl, getD_eq_getElem?_getD, getElem?_set]
    by_cases hc : col = col'
    · subst hc
      rw [if_pos rfl, if_pos ((h.row_length row hrow).symm ▸ hcol), if_pos ⟨rfl, rfl⟩]
      rfl
    · rw [if_neg hc, if_neg (fun both => hc both.2)]
      rfl
  · rw [if_neg hr, if_neg (fun both => hr both.1), entry]

/-- The row in which number `i` stands. -/
def snakeRow (rows i : Nat) : Nat :=
  if i / rows % 2 = 0 then i % rows else rows - 1 - i % rows

/-- The place of number `i`, counted column by column. -/
def snake (rows i : Nat) : Nat :=
  snakeRow rows i + rows * (i / rows)

variable {i j : Nat}

theorem snakeRow_lt (hrows : 0 < rows) : snakeRow rows i < rows := by
  have := Nat.mod_lt i hrows
  rw [snakeRow]
  split <;> omega

@[simp] theorem snake_div (hrows : 0 < rows) : snake rows i / rows = i / rows := by
  rw [snake, Nat.add_mul_div_left _ _ hrows, Nat.div_eq_of_lt (snakeRow_lt hrows), Nat.zero_add]

@[simp] theorem snake_mod (hrows : 0 < rows) : snake rows i % rows = snakeRow rows i := by
  rw [snake, Nat.add_mul_mod_self_left, Nat.mod_eq_of_lt (snakeRow_lt hrows)]

/-- The snake is its own inverse. -/
@[simp] theorem snake_snake (hrows : 0 < rows) : snake rows (snake rows i) = i := by
  have back : snakeRow rows (snake rows i) = i % rows := by
    have := Nat.mod_lt i hrows
    rw [snakeRow, snake_div hrows, snake_mod hrows, snakeRow]
    split <;> omega
  rw [snake, back, snake_div hrows, Nat.mod_add_div]

theorem snake_lt (hrows : 0 < rows) (hi : i < rows * cols) : snake rows i < rows * cols := by
  have col := Nat.div_lt_of_lt_mul hi
  have row := snakeRow_lt (i := i) hrows
  calc snake rows i < rows + rows * (i / rows) := Nat.add_lt_add_right row _
    _ = rows * (i / rows + 1) := by rw [Nat.mul_succ, Nat.add_comm]
    _ ≤ rows * cols := Nat.mul_le_mul_left rows col

@[simp] theorem snake_place {row col : Nat} (hrow : row < rows) :
    snake rows (row + rows * col) = rows * col + if col % 2 = 0 then row else rows - 1 - row := by
  have hrows : 0 < rows := Nat.lt_of_le_of_lt (Nat.zero_le row) hrow
  have hdiv : (row + rows * col) / rows = col := by
    rw [Nat.add_mul_div_left _ _ hrows, Nat.div_eq_of_lt hrow, Nat.zero_add]
  have hmod : (row + rows * col) % rows = row := by
    rw [Nat.add_mul_mod_self_left, Nat.mod_eq_of_lt hrow]
  rw [snake, snakeRow, hdiv, hmod, Nat.add_comm]

def snakeTable (rows cols : Nat) (base : List Nat) : List (List Nat) :=
  (range base.length).foldl
    (fun table i => setEntry table (snakeRow rows i) (i / rows) (base.getD i 0))
    (replicate rows (replicate cols 0))

theorem entry_snakeTable {base : List Nat} {row col : Nat}
    (size : base.length = rows * cols) (hrow : row < rows) (hcol : col < cols) :
    entry (snakeTable rows cols base) row col = base.getD (snake rows (row + rows * col)) 0 := by
  have hrows : 0 < rows := Nat.lt_of_le_of_lt (Nat.zero_le row) hrow
  have filled : ∀ k ≤ base.length,
      Shape ((range k).foldl
        (fun table i => setEntry table (snakeRow rows i) (i / rows) (base.getD i 0))
        (replicate rows (replicate cols 0))) rows cols ∧
      ∀ row < rows, ∀ col < cols, snake rows (row + rows * col) < k →
        entry ((range k).foldl
          (fun table i => setEntry table (snakeRow rows i) (i / rows) (base.getD i 0))
          (replicate rows (replicate cols 0))) row col =
          base.getD (snake rows (row + rows * col)) 0 := by
    intro k
    induction k with
    | zero =>
        intro _
        exact ⟨shape_replicate, fun _ _ _ _ h => absurd h (Nat.not_lt_zero _)⟩
    | succ k ih =>
        intro hk
        obtain ⟨shape, before⟩ := ih (Nat.le_of_succ_le hk)
        have hcol' : k / rows < cols := Nat.div_lt_of_lt_mul (size ▸ hk)
        have hrow' := snakeRow_lt (i := k) hrows
        rw [range_succ, foldl_append]
        refine ⟨shape.setEntry hrow', ?_⟩
        intro row hrow col hcol hlt
        refine (shape.entry_setEntry hrow' hcol').trans ?_
        by_cases here : snakeRow rows k = row ∧ k / rows = col
        · have number : snake rows (row + rows * col) = k := by
            rw [← here.1, ← here.2]
            exact snake_snake hrows
          rw [if_pos here, number]
        · rw [if_neg here]
          apply before row hrow col hcol
          have other : snake rows (row + rows * col) ≠ k := by
            intro number
            apply here
            have place : snake rows k = row + rows * col := by
              rw [← number, snake_snake hrows]
            constructor
            · rw [← snake_mod hrows, place, Nat.add_mul_mod_self_left, Nat.mod_eq_of_lt hrow]
            · rw [← snake_div hrows, place, Nat.add_mul_div_left _ _ hrows,
                Nat.div_eq_of_lt hrow, Nat.zero_add]
          omega
  apply (filled base.length (Nat.le_refl _)).2 row hrow col hcol
  rw [size]
  apply snake_lt hrows
  calc row + rows * col < rows + rows * col := Nat.add_lt_add_right hrow _
    _ = rows * (col + 1) := by rw [Nat.mul_succ, Nat.add_comm]
    _ ≤ rows * cols := Nat.mul_le_mul_left rows hcol

end Scatter
