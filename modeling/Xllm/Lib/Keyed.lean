import Mathlib.Data.List.Dedup
import Mathlib.Data.List.Nodup
import Mathlib.Data.List.Perm.Subperm

/-!
# Lists with keys

A list whose entries have different keys is a finite map: a search by key finds the entry, and
the entry and the entries with another key are the whole list. Values that are grouped by a
key are the same values in another order.
-/

namespace Keyed

open List

universe u v

variable {α : Type u} {κ : Type v} [BEq κ] [LawfulBEq κ] {key : α → κ} {entry : α}
  {entries : List α}

theorem find?_key (nodup : (entries.map key).Nodup) (here : entry ∈ entries) :
    entries.find? (key · == key entry) = some entry := by
  cases found : entries.find? (key · == key entry) with
  | none =>
      have absent := List.find?_eq_none.mp found entry here
      exact absurd (beq_self_eq_true _) absent
  | some other =>
      have same : key other = key entry := by simpa using find?_some found
      rw [inj_on_of_nodup_map nodup (mem_of_find?_eq_some found) here same]

@[simp] theorem find?_other {k : κ} (absent : k ∉ entries.map key) :
    entries.find? (key · == k) = none := by
  apply List.find?_eq_none.mpr
  intro other there same
  exact absent (List.mem_map.mpr ⟨other, there, by simpa using same⟩)

theorem perm_cons_filter_key (nodup : (entries.map key).Nodup) (here : entry ∈ entries) :
    entries.Perm (entry :: entries.filter (key · != key entry)) := by
  induction entries with
  | nil => cases here
  | cons first rest ih =>
      rw [map_cons, nodup_cons] at nodup
      by_cases same : key first = key entry
      · have eq : first = entry := by
          cases List.mem_cons.mp here with
          | inl eq => exact eq.symm
          | inr there => exact absurd (List.mem_map.mpr ⟨entry, there, same.symm⟩) nodup.1
        subst eq
        have others : rest.filter (key · != key first) = rest := by
          apply List.filter_eq_self.mpr
          intro other there
          have ne : key other ≠ key first :=
            fun eq => nodup.1 (List.mem_map.mpr ⟨other, there, eq⟩)
          simpa using ne
        rw [filter_cons_of_neg (by simp), others]
      · rw [filter_cons_of_pos (by simpa using same)]
        have there : entry ∈ rest := by
          cases List.mem_cons.mp here with
          | inl eq => exact absurd (eq ▸ rfl) same
          | inr there => exact there
        exact ((ih nodup.2 there).cons first).trans (List.Perm.swap entry first _)

/-- Entries grouped by their keys. -/
theorem perm_filter_keys [DecidableEq κ] {keys : List κ} (nodup : keys.Nodup) :
    (keys.flatMap fun k => entries.filter (key · == k)).Perm
      (entries.filter (key · ∈ keys)) := by
  induction keys with
  | nil => simp
  | cons k keys ih =>
      have first : (entries.filter (key · ∈ k :: keys)).filter (key · == k) =
          entries.filter (key · == k) := by
        rw [filter_filter]
        apply filter_congr
        intro x _
        by_cases same : key x = k <;> simp [same]
      have others : (entries.filter (key · ∈ k :: keys)).filter (fun x => !(key x == k)) =
          entries.filter (key · ∈ keys) := by
        rw [filter_filter]
        apply filter_congr
        intro x _
        by_cases same : key x = k
        · simp [same, (List.nodup_cons.mp nodup).1]
        · simp [same]
      have parts := filter_append_perm (key · == k) (entries.filter (key · ∈ k :: keys))
      rw [first, others] at parts
      exact ((ih (List.nodup_cons.mp nodup).2).append_left _).trans parts

theorem perm_groups [DecidableEq κ] (entries : List α) :
    ((entries.map key).dedup.flatMap fun k => entries.filter (key · == k)).Perm entries := by
  have all : entries.filter (key · ∈ (entries.map key).dedup) = entries := by
    apply List.filter_eq_self.mpr
    intro x hx
    simpa using ⟨x, hx, rfl⟩
  exact (perm_filter_keys (nodup_dedup _)).trans (List.Perm.of_eq all)

end Keyed
