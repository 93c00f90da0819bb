import Mathlib.Data.List.Perm.Basic
import Mathlib.Order.Lattice

/-!
# Keeping the best of a list

A bounded priority queue holds the best elements that it has seen. `Best` says what that
means: `k` elements, or all there are, none of which scores lower than one that is left
out. A queue may be skipped as soon as an element is not worth inserting, when the elements
come in the order of their scores.
-/

namespace TopK

open List

universe u v w

variable {α : Type u} {β : Type v} {γ : Type w} [LinearOrder β] {score : α → β} {k : Nat}

structure Best (score : α → β) (k : Nat) (all kept : List α) : Prop where
  length : kept.length = min k all.length
  split : ∃ rest, all.Perm (kept ++ rest) ∧ ∀ a ∈ kept, ∀ b ∈ rest, score b ≤ score a

namespace Best

variable {all all' kept kept' : List α} {a : α}

theorem nil : Best score k [] [] := ⟨by simp, [], .refl _, by simp⟩

theorem perm_all (h : Best score k all kept) (p : all.Perm all') : Best score k all' kept := by
  obtain ⟨hlength, rest, hperm, hbest⟩ := h
  constructor
  · rw [hlength, p.length_eq]
  · exact ⟨rest, p.symm.trans hperm, hbest⟩

theorem perm_kept (h : Best score k all kept) (p : kept.Perm kept') : Best score k all kept' := by
  obtain ⟨hlength, rest, hperm, hbest⟩ := h
  constructor
  · rw [← p.length_eq, hlength]
  · exact ⟨rest, hperm.trans (p.append_right rest), fun a ha => hbest a (p.mem_iff.mpr ha)⟩

theorem mem (h : Best score k all kept) (ha : a ∈ kept) : a ∈ all := by
  obtain ⟨-, rest, hperm, -⟩ := h
  exact hperm.mem_iff.mpr (mem_append_left _ ha)

theorem map {score' : γ → β} (h : Best score k all kept) (f : α → γ)
    (same : ∀ a ∈ all, score' (f a) = score a) : Best score' k (all.map f) (kept.map f) := by
  obtain ⟨hlength, rest, hperm, hbest⟩ := h
  constructor
  · rw [length_map, length_map, hlength]
  · refine ⟨rest.map f, ?_, ?_⟩
    · rw [← map_append]
      exact hperm.map f
    · intro c hc d hd
      obtain ⟨a, ha, rfl⟩ := List.mem_map.mp hc
      obtain ⟨b, hb, rfl⟩ := List.mem_map.mp hd
      rw [same a (hperm.mem_iff.mpr (mem_append_left _ ha)),
        same b (hperm.mem_iff.mpr (mem_append_right _ hb))]
      exact hbest a ha b hb

theorem push (h : Best score k all kept) (room : kept.length < k) (a : α) :
    Best score k (a :: all) (a :: kept) := by
  obtain ⟨hlength, rest, hperm, -⟩ := h
  have hrest : rest = [] := by
    have hsum := hperm.length_eq
    rw [length_append] at hsum
    exact List.length_eq_zero_iff.mp (by omega)
  subst hrest
  constructor
  · rw [length_cons, length_cons]
    omega
  · exact ⟨[], hperm.cons a, by simp⟩

theorem skip (h : Best score k all kept) (full : k ≤ kept.length)
    (low : ∀ m ∈ kept, score a ≤ score m) : Best score k (a :: all) kept := by
  obtain ⟨hlength, rest, hperm, hbest⟩ := h
  constructor
  · rw [length_cons]
    omega
  · refine ⟨a :: rest, (hperm.cons a).trans List.perm_middle.symm, fun m hm b hb => ?_⟩
    obtain rfl | hb := List.mem_cons.mp hb
    · exact low m hm
    · exact hbest m hm b hb

theorem replace [DecidableEq α] {least : α} (h : Best score k all kept) (full : k ≤ kept.length)
    (mem : least ∈ kept) (lowest : ∀ m ∈ kept, score least ≤ score m)
    (higher : score least < score a) : Best score k (a :: all) (a :: kept.erase least) := by
  obtain ⟨hlength, rest, hperm, hbest⟩ := h
  have herase := perm_cons_erase mem
  have hpos := length_pos_of_mem mem
  constructor
  · rw [length_cons, length_cons, length_erase_of_mem mem]
    omega
  · refine ⟨least :: rest, ?_, fun m hm b hb => ?_⟩
    · refine (hperm.trans ((herase.append_right rest).trans ?_)).cons a
      exact List.perm_middle.symm
    · have hm' : score least ≤ score m := by
        obtain rfl | hm := List.mem_cons.mp hm
        · exact higher.le
        · exact lowest m (mem_of_mem_erase hm)
      obtain rfl | hb := List.mem_cons.mp hb
      · exact hm'
      · exact (hbest least mem b hb).trans hm'

theorem skip_all {l : List α} (h : Best score k all kept) (full : k ≤ kept.length)
    (low : ∀ b ∈ l, ∀ m ∈ kept, score b ≤ score m) : Best score k (l ++ all) kept := by
  induction l with
  | nil => exact h
  | cons b l ih =>
      obtain ⟨hb, hl⟩ := List.forall_mem_cons.mp low
      exact (ih hl).skip full hb

end Best

/-- A priority queue with the lowest element on top. It does not say which of several lowest
elements that is. -/
structure Queue (score : α → β) where
  top : List α → Option α
  top_eq_none : ∀ {heap}, top heap = none → heap = []
  top_mem : ∀ {heap least}, top heap = some least → least ∈ heap
  top_le : ∀ {heap least}, top heap = some least → ∀ a ∈ heap, score least ≤ score a

namespace Queue

/-- The queue that prefers what was inserted last. -/
def latest (score : α → β) : Queue score where
  top heap := heap.foldr (fun a best => match best with
    | none => some a
    | some b => if score a ≤ score b then some a else some b) none
  top_eq_none := by
    intro heap h
    cases heap with
    | nil => rfl
    | cons a heap =>
        rw [foldr_cons] at h
        split at h
        · cases h
        · split at h <;> cases h
  top_mem := by
    intro heap
    induction heap with
    | nil => exact fun h => absurd h (by simp)
    | cons a heap ih =>
        intro least h
        rw [foldr_cons] at h
        split at h
        · cases h
          exact mem_cons_self
        · rename_i b hb
          split at h
          · cases h
            exact mem_cons_self
          · cases h
            exact mem_cons_of_mem _ (ih hb)
  top_le := by
    intro heap
    induction heap with
    | nil => exact fun h => absurd h (by simp)
    | cons a heap ih =>
        intro least h
        rw [foldr_cons] at h
        rw [forall_mem_cons]
        split at h
        · rename_i hnone
          cases h
          refine ⟨le_refl _, fun c hc => ?_⟩
          cases heap with
          | nil => exact absurd hc not_mem_nil
          | cons d heap =>
              rw [foldr_cons] at hnone
              split at hnone
              · cases hnone
              · split at hnone <;> cases hnone
        · rename_i b hb
          split at h
          · rename_i hle
            cases h
            exact ⟨le_refl _, fun c hc => hle.trans (ih hb c hc)⟩
          · rename_i hlt
            cases h
            exact ⟨(not_le.mp hlt).le, ih hb⟩

variable [DecidableEq α] (q : Queue score) (k)

/-- Insert into a queue of at most `k` elements. -/
def insert (heap : List α) (a : α) : List α :=
  if heap.length < k then a :: heap
  else
    match q.top heap with
    | none => heap
    | some least => if score least < score a then a :: heap.erase least else heap

def worthInserting (heap : List α) (x : β) : Bool :=
  heap.length < k ||
    match q.top heap with
    | none => false
    | some least => score least < x

/-- Insert from the front until an element is not worth it. -/
def insertWhile : List α → List α → List α
  | heap, [] => heap
  | heap, a :: rest =>
      if q.worthInserting k heap (score a) then insertWhile (q.insert k heap a) rest else heap

def drain : Nat → List α → List α
  | 0, _ => []
  | n + 1, heap =>
      match q.top heap with
      | none => []
      | some least => least :: drain n (heap.erase least)

def sorted (heap : List α) : List α := (q.drain heap.length heap).reverse

variable {q k} {all heap : List α} {a : α}

/-- One insertion keeps the best of what was seen. -/
theorem insert_best (h : Best score k all heap) : Best score k (a :: all) (q.insert k heap a) := by
  rw [insert]
  split
  · rename_i hroom
    exact h.push hroom a
  · rename_i hfull
    have hfull := not_lt.mp hfull
    split
    · rename_i hnone
      have hnil := q.top_eq_none hnone
      subst hnil
      exact h.skip hfull (by simp)
    · rename_i least htop
      split
      · rename_i hhigher
        exact h.replace hfull (q.top_mem htop) (q.top_le htop) hhigher
      · rename_i hlow
        exact h.skip hfull fun m hm => (not_lt.mp hlow).trans (q.top_le htop m hm)

omit [DecidableEq α] in
theorem not_worthInserting {x : β} (h : q.worthInserting k heap x = false) :
    k ≤ heap.length ∧ ∀ m ∈ heap, x ≤ score m := by
  rw [worthInserting, Bool.or_eq_false_iff, decide_eq_false_iff_not, not_lt] at h
  obtain ⟨hfull, hlow⟩ := h
  refine ⟨hfull, fun m hm => ?_⟩
  split at hlow
  · rename_i hnone
    rw [q.top_eq_none hnone] at hm
    exact absurd hm not_mem_nil
  · rename_i least htop
    exact (not_lt.mp (of_decide_eq_false hlow)).trans (q.top_le htop m hm)

/-- In descending order insertion may stop at the first that is not worth it. -/
theorem insertWhile_best {l : List α} (h : Best score k all heap)
    (ordered : l.Pairwise fun a b => score b ≤ score a) :
    Best score k (l ++ all) (q.insertWhile k heap l) := by
  induction l generalizing all heap with
  | nil => exact h
  | cons a l ih =>
      obtain ⟨hfirst, hordered⟩ := List.pairwise_cons.mp ordered
      rw [insertWhile]
      split
      · exact (ih (insert_best h) hordered).perm_all perm_middle
      · rename_i hworth
        obtain ⟨hfull, hlow⟩ := not_worthInserting (Bool.eq_false_iff.mpr hworth)
        refine h.skip_all hfull (List.forall_mem_cons.mpr ⟨hlow, fun b hb m hm => ?_⟩)
        exact (hfirst b hb).trans (hlow m hm)

theorem drain_perm {n : Nat} (h : heap.length = n) : (q.drain n heap).Perm heap := by
  induction n generalizing heap with
  | zero =>
      rw [List.length_eq_zero_iff.mp h]
      exact .refl _
  | succ n ih =>
      rw [drain]
      split
      · rename_i hnone
        rw [q.top_eq_none hnone]
      · rename_i least htop
        have hmem := q.top_mem htop
        have hlength : (heap.erase least).length = n := by
          rw [length_erase_of_mem hmem]
          omega
        exact ((ih hlength).cons least).trans (perm_cons_erase hmem).symm

theorem sorted_perm : (q.sorted heap).Perm heap :=
  (reverse_perm _).trans (drain_perm rfl)

end Queue

end TopK
