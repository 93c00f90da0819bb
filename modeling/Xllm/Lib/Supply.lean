import Mathlib.Data.Finset.Card
import Mathlib.Data.Finset.SDiff

/-!
# Serving requests from a finite supply

Requests name what they want. What is there already is served at no cost, anything else costs
one unit of the supply, and a request that meets an empty supply is dropped. In the end
everything is there exactly when the supply covers the different things that were missing.
-/

namespace Supply

universe u

variable {α : Type u} [DecidableEq α]

/-- One request, with the units that are left and what is there. -/
def serve (s : Nat × Finset α) (a : α) : Nat × Finset α :=
  if a ∈ s.2 then s
  else if s.1 = 0 then s
  else (s.1 - 1, insert a s.2)

/-- Requests one after another. -/
def serveAll (s : Nat × Finset α) (requests : List α) : Nat × Finset α :=
  requests.foldl serve s

variable {free : Nat} {M : Finset α} {a : α} {l : List α}

@[simp] theorem serveAll_cons (s : Nat × Finset α) :
    serveAll s (a :: l) = serveAll (serve s a) l := rfl

@[simp] theorem serve_there (h : a ∈ M) : serve (free, M) a = (free, M) :=
  if_pos h

@[simp] theorem serve_empty : serve (0, M) a = (0, M) := by
  rw [serve]
  split
  · rfl
  · exact if_pos rfl

@[simp] theorem serve_missing (h : a ∉ M) : serve (free + 1, M) a = (free, insert a M) := by
  rw [serve, if_neg h]
  rfl

@[simp] theorem serveAll_empty : serveAll (0, M) l = (0, M) := by
  induction l with
  | nil => rfl
  | cons a l ih => rw [serveAll_cons, serve_empty, ih]

theorem subset_serveAll (s : Nat × Finset α) : s.2 ⊆ (serveAll s l).2 := by
  induction l generalizing s with
  | nil => exact Finset.Subset.refl _
  | cons a l ih =>
      refine Finset.Subset.trans ?_ (ih _)
      rw [serve]
      split
      · exact Finset.Subset.refl _
      · split
        · exact Finset.Subset.refl _
        · exact Finset.subset_insert a s.2

theorem missing_cons (h : a ∉ M) :
    ((a :: l).toFinset \ M).card = (l.toFinset \ insert a M).card + 1 := by
  have here : a ∉ l.toFinset \ insert a M := by
    rw [Finset.mem_sdiff, not_and, not_not]
    exact fun _ => Finset.mem_insert_self a M
  have split : (a :: l).toFinset \ M = insert a (l.toFinset \ insert a M) := by
    ext b
    rw [List.toFinset_cons, Finset.mem_sdiff, Finset.mem_insert, Finset.mem_insert,
      Finset.mem_sdiff, Finset.mem_insert, not_or]
    constructor
    · rintro ⟨hb, hM⟩
      by_cases hab : b = a
      · exact .inl hab
      · exact .inr ⟨hb.resolve_left hab, hab, hM⟩
    · rintro (rfl | ⟨hb, -, hM⟩)
      · exact ⟨.inl rfl, h⟩
      · exact ⟨.inr hb, hM⟩
  rw [split, Finset.card_insert_of_notMem here]

theorem missing_cons_there (h : a ∈ M) : (a :: l).toFinset \ M = l.toFinset \ M := by
  rw [List.toFinset_cons, Finset.insert_sdiff_of_mem _ h]

/-- Everything that is asked for is there in the end if and only if the supply covers what
was missing. -/
theorem serveAll_covers_iff :
    (∀ a ∈ l, a ∈ (serveAll (free, M) l).2) ↔ (l.toFinset \ M).card ≤ free := by
  induction l generalizing free M with
  | nil => simp
  | cons a l ih =>
      by_cases h : a ∈ M
      · rw [serveAll_cons, serve_there h, missing_cons_there h, ← ih, List.forall_mem_cons]
        exact and_iff_right (subset_serveAll (free, M) h)
      · rw [missing_cons h]
        cases free with
        | zero =>
            rw [serveAll_empty]
            constructor
            · intro all
              exact absurd (all a List.mem_cons_self) h
            · intro none
              omega
        | succ free =>
            rw [serveAll_cons, serve_missing h, List.forall_mem_cons, Nat.succ_le_succ_iff, ← ih]
            exact and_iff_right (subset_serveAll (free, insert a M) (Finset.mem_insert_self a M))

end Supply
