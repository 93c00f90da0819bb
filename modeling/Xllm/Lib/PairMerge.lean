import Mathlib.Logic.Relation
import Mathlib.Order.Lattice
import Xllm.Lib.Parts

/-!
# Merging the best adjacent pair

A list is cut into parts, and a partial rank says which lists may stand as one part. A
step joins the leftmost of the adjacent pairs whose concatenation has the lowest rank. The
result of joining until no pair is left is unique. A merge removes one cut point and leaves the
others.
-/

namespace PairMerge

open Parts List

variable {α β : Type*} {parts parts' : List (List α)} {i j k n : Nat}

def mergeAt (parts : List (List α)) (k : Nat) : List (List α) :=
  parts.take k ++ span parts k 2 :: parts.drop (k + 2)

theorem length_mergeAt (hk : k + 2 ≤ parts.length) :
    (mergeAt parts k).length + 1 = parts.length := by
  rw [mergeAt, length_append, length_cons, length_take, length_drop]
  omega

/-- Where the cut points of the merged parts were before. -/
def skip (k i : Nat) : Nat := if i ≤ k then i else i + 1

@[simp] theorem skip_of_le (h : i ≤ k) : skip k i = i := if_pos h

@[simp] theorem skip_of_lt (h : k < i) : skip k i = i + 1 := if_neg (Nat.not_le_of_lt h)

theorem upTo_mergeAt (hk : k + 2 ≤ parts.length) :
    upTo (mergeAt parts k) i = upTo parts (skip k i) := by
  have hfront : (parts.take k).length = k := by
    rw [length_take]
    omega
  rw [skip]
  split
  · rename_i hi
    rw [upTo, upTo, mergeAt, take_append_of_le_length (by omega), take_take,
      Nat.min_eq_left hi]
  · rename_i hi
    obtain ⟨m, rfl⟩ : ∃ m, i = k + (m + 1) := ⟨i - k - 1, by omega⟩
    have hsplit : upTo parts (k + (m + 1) + 1) =
        upTo parts k ++ span parts k 2 ++ span parts (k + 2) m := by
      rw [← upTo_add, ← upTo_add]
      congr 1
      omega
    rw [hsplit, upTo, mergeAt, take_append, take_of_length_le (by omega), hfront,
      Nat.add_sub_cancel_left, flatten_append,
      append_assoc]
    rfl

theorem span_mergeAt (hk : k + 2 ≤ parts.length) :
    span (mergeAt parts k) i n = span parts (skip k i) (skip k (i + n) - skip k i) := by
  refine span_unique ?_
  have hle : skip k i ≤ skip k (i + n) := by
    unfold skip
    split <;> split <;> omega
  rw [upTo_mergeAt hk, upTo_mergeAt hk, ← upTo_add, Nat.add_sub_cancel' hle]

theorem flatten_mergeAt (hk : k + 2 ≤ parts.length) :
    (mergeAt parts k).flatten = parts.flatten := by
  have hlength := length_mergeAt hk
  rw [← upTo_length, upTo_mergeAt hk, skip_of_lt (by omega), hlength, upTo_length]

section Rank

variable {rank : List α → Option β} {r : β}

def pairRank (rank : List α → Option β) (parts : List (List α)) (i : Nat) : Option β :=
  if i + 2 ≤ parts.length then rank (span parts i 2) else none

theorem pairRank_mergeAt (hk : k + 2 ≤ parts.length) :
    pairRank rank (mergeAt parts k) i =
      if skip k (i + 2) ≤ parts.length then
        rank (span parts (skip k i) (skip k (i + 2) - skip k i))
      else none := by
  have hlength := length_mergeAt hk
  have hrange : i + 2 ≤ (mergeAt parts k).length ↔ skip k (i + 2) ≤ parts.length := by
    rw [skip]
    split <;> omega
  rw [pairRank, span_mergeAt hk]
  simp only [hrange]

@[simp] theorem pairRank_of_length_le (hi : parts.length ≤ i + 1) :
    pairRank rank parts i = none := by
  rw [pairRank, if_neg (by omega)]

variable [LinearOrder β]

structure LeftmostLowest (rank : List α → Option β) (parts : List (List α)) (k : Nat) (r : β) :
    Prop where
  rank_eq : pairRank rank parts k = some r
  lowest : ∀ i r', pairRank rank parts i = some r' → r ≤ r'
  leftmost : ∀ i < k, pairRank rank parts i ≠ some r

theorem LeftmostLowest.inRange (h : LeftmostLowest rank parts k r) : k + 2 ≤ parts.length := by
  by_contra hk
  have hrank := h.rank_eq
  rw [pairRank, if_neg hk] at hrank
  cases hrank

theorem LeftmostLowest.unique {r' : β} (h : LeftmostLowest rank parts k r)
    (h' : LeftmostLowest rank parts j r') : k = j := by
  have hr : r = r' := le_antisymm (h.lowest _ _ h'.rank_eq) (h'.lowest _ _ h.rank_eq)
  subst hr
  rcases Nat.lt_trichotomy k j with hlt | heq | hgt
  · exact absurd h.rank_eq (h'.leftmost k hlt)
  · exact heq
  · exact absurd h'.rank_eq (h.leftmost j hgt)

/-- One round: the leftmost lowest pair is merged. -/
def Step (rank : List α → Option β) (parts parts' : List (List α)) : Prop :=
  ∃ k r, LeftmostLowest rank parts k r ∧ parts' = mergeAt parts k

/-- No two adjacent parts may stand as one. -/
def Stuck (rank : List α → Option β) (parts : List (List α)) : Prop :=
  ∀ i, pairRank rank parts i = none

/-- Rounds are made until none is possible. -/
def MergesTo (rank : List α → Option β) (parts parts' : List (List α)) : Prop :=
  Relation.ReflTransGen (Step rank) parts parts' ∧ Stuck rank parts'

/-- There is one step at most. -/
theorem Step.unique {parts₁ parts₂ : List (List α)} (h₁ : Step rank parts parts₁)
    (h₂ : Step rank parts parts₂) : parts₁ = parts₂ := by
  obtain ⟨k, r, hk, rfl⟩ := h₁
  obtain ⟨j, r', hj, rfl⟩ := h₂
  rw [hk.unique hj]

theorem Stuck.not_step (h : Stuck rank parts) : ¬Step rank parts parts' := by
  rintro ⟨k, r, hk, -⟩
  have hrank := hk.rank_eq
  rw [h k] at hrank
  cases hrank

theorem Step.flatten_eq (h : Step rank parts parts') : parts'.flatten = parts.flatten := by
  obtain ⟨k, r, hk, rfl⟩ := h
  exact flatten_mergeAt hk.inRange

theorem Step.forall_ranked (h : Step rank parts parts') (hall : ∀ p ∈ parts, (rank p).isSome) :
    ∀ p ∈ parts', (rank p).isSome := by
  obtain ⟨k, r, hk, rfl⟩ := h
  intro p hp
  rw [mergeAt, mem_append, mem_cons] at hp
  rcases hp with hp | rfl | hp
  · exact hall p (mem_of_mem_take hp)
  · have hrank := hk.rank_eq
    rw [pairRank, if_pos hk.inRange] at hrank
    rw [hrank]
    rfl
  · exact hall p (mem_of_mem_drop hp)

theorem MergesTo.flatten_eq (h : MergesTo rank parts parts') :
    parts'.flatten = parts.flatten := by
  obtain ⟨hsteps, -⟩ := h
  induction hsteps with
  | refl => rfl
  | tail _ hstep ih => rw [hstep.flatten_eq, ih]

theorem MergesTo.forall_ranked (h : MergesTo rank parts parts')
    (hall : ∀ p ∈ parts, (rank p).isSome) : ∀ p ∈ parts', (rank p).isSome := by
  obtain ⟨hsteps, -⟩ := h
  induction hsteps with
  | refl => exact hall
  | tail _ hstep ih => exact hstep.forall_ranked ih

/-- Merging has one result. -/
theorem MergesTo.unique {parts₁ parts₂ : List (List α)} (h₁ : MergesTo rank parts parts₁)
    (h₂ : MergesTo rank parts parts₂) : parts₁ = parts₂ := by
  obtain ⟨hsteps, hstuck⟩ := h₁
  induction hsteps using Relation.ReflTransGen.head_induction_on with
  | refl =>
      rcases h₂.1.cases_head with heq | ⟨parts', hstep, -⟩
      · exact heq
      · exact absurd hstep hstuck.not_step
  | head hstep _ ih =>
      rcases h₂.1.cases_head with rfl | ⟨parts', hstep', hrest⟩
      · exact absurd hstep h₂.2.not_step
      · rw [hstep'.unique hstep] at hrest
        exact ih ⟨hrest, h₂.2⟩

theorem MergesTo.head (hstep : Step rank parts parts') {parts'' : List (List α)}
    (h : MergesTo rank parts' parts'') : MergesTo rank parts parts'' :=
  ⟨h.1.head hstep, h.2⟩

end Rank

end PairMerge
