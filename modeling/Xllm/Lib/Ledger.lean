import Mathlib.Data.Int.Interval
import Mathlib.Data.Multiset.AddSub
import Mathlib.Data.Multiset.Count
import Mathlib.Data.Finset.Card
import Mathlib.Data.Finset.Dedup

/-!
# Ledgers of reference-counted handles

A pool hands out the resources of a fixed universe. Each resource is either
free or named by live handles, and the handles of one resource share one
counter cell. `Balanced` states this for a counter memory, a list of free
resources and the multiset of live handles, wherever those handles are kept.

The four transfer rules are the only ways in which such a pool moves: take a
free resource, copy a handle, drop a handle that is not the last one, and drop
the last handle of a resource. They say nothing about who owns the handles, so
a program proof can account for each owner by one summand of the multiset.
-/

namespace Ledger

open Function Multiset

variable {ι : Type*}

/-- A live handle: the resource it names and the cell of its counter. -/
structure Handle (ι : Type*) where
  id : ι
  ref : Nat
  deriving DecidableEq

/-- The free list and the live handles split the universe, and every counter
of a live handle holds the number of live handles of its resource. -/
structure Balanced [DecidableEq ι] (U : ι → Prop) (count : Nat → Nat) (next : Nat)
    (free : List ι) (live : Multiset (Handle ι)) : Prop where
  count_eq : ∀ h ∈ live, count h.ref = (live.map Handle.id).count h.id
  same_ref : ∀ h ∈ live, ∀ k ∈ live, h.id = k.id ↔ h.ref = k.ref
  ref_lt : ∀ h ∈ live, h.ref < next
  nodup : free.Nodup
  disjoint : ∀ h ∈ live, h.id ∉ free
  cover : ∀ i, U i ↔ i ∈ free ∨ ∃ h ∈ live, h.id = i

namespace Balanced

variable [DecidableEq ι] {U : ι → Prop} {count : Nat → Nat} {next : Nat}
variable {free : List ι} {live : Multiset (Handle ι)} {h : Handle ι}

theorem perm_free {free' : List ι} (b : Balanced U count next free live)
    (hperm : free'.Perm free) : Balanced U count next free' live where
  count_eq := b.count_eq
  same_ref := b.same_ref
  ref_lt := b.ref_lt
  nodup := hperm.nodup_iff.mpr b.nodup
  disjoint k hk hmem := b.disjoint k hk (hperm.mem_iff.mp hmem)
  cover i := by rw [b.cover i, hperm.mem_iff]

theorem count_pos (b : Balanced U count next free live) (hh : h ∈ live) : 0 < count h.ref := by
  rw [b.count_eq h hh, Multiset.count_pos]
  exact mem_map_of_mem _ hh

/-- Taking a free resource creates its counter with one handle. -/
theorem acquire {i : ι} (b : Balanced U count next (i :: free) live) :
    Balanced U (update count next 1) (next + 1) free (⟨i, next⟩ ::ₘ live) := by
  have hfresh : ∀ k ∈ live, k.id ≠ i := fun k hk he =>
    b.disjoint k hk (by rw [he]; exact List.mem_cons_self)
  have hnext : ∀ k ∈ live, k.ref ≠ next := fun k hk => Nat.ne_of_lt (b.ref_lt k hk)
  refine ⟨?_, ?_, ?_, (List.nodup_cons.mp b.nodup).2, ?_, ?_⟩
  · intro k hk
    rw [map_cons]
    rcases Multiset.mem_cons.mp hk with rfl | hk
    · have hzero : (live.map Handle.id).count i = 0 := by
        rw [count_eq_zero, mem_map]
        rintro ⟨k, hk, he⟩
        exact hfresh k hk he
      simp [hzero]
    · rw [update_of_ne (hnext k hk), count_cons_of_ne (hfresh k hk)]
      exact b.count_eq k hk
  · intro k hk l hl
    rcases Multiset.mem_cons.mp hk with rfl | hk <;> rcases Multiset.mem_cons.mp hl with rfl | hl
    · simp
    · exact iff_of_false (fun he => hfresh l hl he.symm) (fun he => hnext l hl he.symm)
    · exact iff_of_false (hfresh k hk) (hnext k hk)
    · exact b.same_ref k hk l hl
  · intro k hk
    rcases Multiset.mem_cons.mp hk with rfl | hk
    · exact Nat.lt_succ_self _
    · exact Nat.lt_succ_of_lt (b.ref_lt k hk)
  · intro k hk hmem
    rcases Multiset.mem_cons.mp hk with rfl | hk
    · exact (List.nodup_cons.mp b.nodup).1 hmem
    · exact b.disjoint k hk (List.mem_cons_of_mem _ hmem)
  · intro j
    rw [b.cover j]
    simp only [List.mem_cons, mem_cons, exists_eq_or_imp]
    tauto

/-- One more holder of a used item. -/
theorem retain (b : Balanced U count next free live) (hh : h ∈ live) :
    Balanced U (update count h.ref (count h.ref + 1)) next free (h ::ₘ live) := by
  have hold : ∀ k ∈ h ::ₘ live, k ∈ live := by
    intro k hk
    rcases Multiset.mem_cons.mp hk with rfl | hk
    · exact hh
    · exact hk
  refine ⟨?_, fun k hk l hl => b.same_ref k (hold k hk) l (hold l hl),
    fun k hk => b.ref_lt k (hold k hk), b.nodup,
    fun k hk => b.disjoint k (hold k hk), ?_⟩
  · intro k hk
    have hk := hold k hk
    rw [map_cons]
    by_cases he : k.id = h.id
    · have hr : k.ref = h.ref := (b.same_ref k hk h hh).mp he
      rw [hr, update_self, he, count_cons_self, b.count_eq h hh]
    · have hr : k.ref ≠ h.ref := fun hr => he ((b.same_ref k hk h hh).mpr hr)
      rw [update_of_ne hr, count_cons_of_ne he]
      exact b.count_eq k hk
  · intro j
    rw [b.cover j]
    refine or_congr_right ⟨?_, ?_⟩
    · rintro ⟨k, hk, rfl⟩
      exact ⟨k, mem_cons_of_mem hk, rfl⟩
    · rintro ⟨k, hk, rfl⟩
      exact ⟨k, hold k hk, rfl⟩

theorem count_eq_one_iff (b : Balanced U count next free (h ::ₘ live)) :
    count h.ref = 1 ↔ ∀ k ∈ live, k.id ≠ h.id := by
  rw [b.count_eq h (mem_cons_self _ _), map_cons, count_cons_self,
    Nat.add_eq_right, count_eq_zero, mem_map]
  constructor
  · intro hno k hk he
    exact hno ⟨k, hk, he⟩
  · rintro hno ⟨k, hk, he⟩
    exact hno k hk he

private theorem release_counts (b : Balanced U count next free (h ::ₘ live)) (k : Handle ι)
    (hk : k ∈ live) :
    update count h.ref (count h.ref - 1) k.ref = (live.map Handle.id).count k.id := by
  have hk' : k ∈ h ::ₘ live := mem_cons_of_mem hk
  have hself : h ∈ h ::ₘ live := mem_cons_self _ _
  by_cases he : k.id = h.id
  · have hr : k.ref = h.ref := (b.same_ref k hk' h hself).mp he
    rw [hr, update_self, b.count_eq h hself, map_cons,
      count_cons_self, he, Nat.add_sub_cancel]
  · have hr : k.ref ≠ h.ref := fun hr => he ((b.same_ref k hk' h hself).mpr hr)
    rw [update_of_ne hr, b.count_eq k hk', map_cons,
      count_cons_of_ne he]

theorem release_shared (b : Balanced U count next free (h ::ₘ live))
    (hother : ∃ k ∈ live, k.id = h.id) :
    Balanced U (update count h.ref (count h.ref - 1)) next free live := by
  refine ⟨fun k hk => release_counts b k hk,
    fun k hk l hl => b.same_ref k (mem_cons_of_mem hk) l (mem_cons_of_mem hl),
    fun k hk => b.ref_lt k (mem_cons_of_mem hk), b.nodup,
    fun k hk => b.disjoint k (mem_cons_of_mem hk), ?_⟩
  intro j
  rw [b.cover j]
  refine or_congr_right ⟨?_, ?_⟩
  · rintro ⟨k, hk, rfl⟩
    rcases Multiset.mem_cons.mp hk with rfl | hk
    · exact hother
    · exact ⟨k, hk, rfl⟩
  · rintro ⟨k, hk, rfl⟩
    exact ⟨k, mem_cons_of_mem hk, rfl⟩

theorem release_last (b : Balanced U count next free (h ::ₘ live))
    (hlast : ∀ k ∈ live, k.id ≠ h.id) :
    Balanced U (update count h.ref (count h.ref - 1)) next (h.id :: free) live := by
  have hself : h ∈ h ::ₘ live := mem_cons_self _ _
  refine ⟨fun k hk => release_counts b k hk,
    fun k hk l hl => b.same_ref k (mem_cons_of_mem hk) l (mem_cons_of_mem hl),
    fun k hk => b.ref_lt k (mem_cons_of_mem hk),
    List.nodup_cons.mpr ⟨b.disjoint h hself, b.nodup⟩, ?_, ?_⟩
  · intro k hk hmem
    rcases List.mem_cons.mp hmem with he | hmem
    · exact hlast k hk he
    · exact b.disjoint k (mem_cons_of_mem hk) hmem
  · intro j
    rw [b.cover j]
    simp only [List.mem_cons, mem_cons, exists_eq_or_imp]
    tauto

end Balanced

section Ids

variable [DecidableEq ι] {live rest : Multiset (Handle ι)} {i : ι}

/-- The resources that some handle names. -/
def ids (live : Multiset (Handle ι)) : Finset ι := (live.map Handle.id).toFinset

@[simp] theorem mem_ids : i ∈ ids live ↔ ∃ h ∈ live, h.id = i := by simp [ids]

@[simp] theorem ids_zero : ids (0 : Multiset (Handle ι)) = ∅ := rfl

theorem ids_add : ids (live + rest) = ids live ∪ ids rest := by
  rw [ids, Multiset.map_add, toFinset_add]
  rfl

theorem mem_ids_iff_count_pos : i ∈ ids live ↔ 0 < (live.map Handle.id).count i := by
  rw [Multiset.count_pos, ids, mem_toFinset]

theorem not_mem_ids_iff_count : i ∉ ids live ↔ (live.map Handle.id).count i = 0 := by
  rw [mem_ids_iff_count_pos, Nat.pos_iff_ne_zero, not_not]

@[simp] theorem ids_add_of_subset (h : ids live ⊆ ids rest) : ids (live + rest) = ids rest := by
  rw [ids_add]
  exact Finset.union_eq_right.mpr h

end Ids

theorem length_le_of_nodup_range {l : List Int} {n : Nat} (hnodup : l.Nodup)
    (hrange : ∀ i ∈ l, 0 ≤ i ∧ i < n) : l.length ≤ n := by
  have hsub : l.toFinset ⊆ Finset.Ico (0 : Int) n := by
    intro i hi
    exact Finset.mem_Ico.mpr (hrange i (List.mem_toFinset.mp hi))
  have hcard := Finset.card_le_card hsub
  rwa [List.toFinset_card_of_nodup hnodup, Int.card_Ico] at hcard

end Ledger
