import Mathlib.Data.List.Basic
import Mathlib.Data.List.Nodup
import Mathlib.Logic.Function.Basic

/-!
# Resources and their owners

Every resource of a universe has one owner, and the owners keep lists of what is theirs.
`Owns` says that such a list is right. Resources change hands by `assign`; the lemmas say
what becomes of the lists of the giver, of the receiver and of everybody else.

In a table each key owns at most one resource. The rest is in a pool or belongs to others.
-/

namespace Owners

open List

variable {ι ω : Type*} {U : ι → Prop} {owner : ι → ω} {who giver : ω} {l l' t : List ι}

/-- The list has the resources of one owner, each once. -/
structure Owns (U : ι → Prop) (owner : ι → ω) (who : ω) (l : List ι) : Prop where
  nodup : l.Nodup
  mem_iff : ∀ i, i ∈ l ↔ U i ∧ owner i = who

theorem Owns.universe (h : Owns U owner who l) {i : ι} (hi : i ∈ l) : U i :=
  ((h.mem_iff i).mp hi).1

theorem Owns.owner_eq (h : Owns U owner who l) {i : ι} (hi : i ∈ l) : owner i = who :=
  ((h.mem_iff i).mp hi).2

theorem Owns.disjoint (h : Owns U owner who l) (h' : Owns U owner giver l') (ne : who ≠ giver) :
    l.Disjoint l' := by
  intro i hi hi'
  exact ne ((h.owner_eq hi).symm.trans (h'.owner_eq hi'))

theorem Owns.perm (h : Owns U owner who l) (hp : l'.Perm l) : Owns U owner who l' :=
  ⟨hp.nodup_iff.mpr h.nodup, fun i => hp.mem_iff.trans (h.mem_iff i)⟩

variable [DecidableEq ι]

def assign (owner : ι → ω) (t : List ι) (who : ω) : ι → ω := fun i =>
  if i ∈ t then who else owner i

@[simp] theorem assign_of_mem {i : ι} (hi : i ∈ t) : assign owner t who i = who := if_pos hi

@[simp] theorem assign_of_not_mem {i : ι} (hi : i ∉ t) : assign owner t who i = owner i := if_neg hi

@[simp] theorem assign_nil : assign owner [] who = owner := by
  funext i
  exact assign_of_not_mem not_mem_nil

theorem Owns.other (h : Owns U owner giver l) (away : t.Disjoint l) (ne : giver ≠ who) :
    Owns U (assign owner t who) giver l := by
  refine ⟨h.nodup, fun i => ?_⟩
  rw [h.mem_iff]
  by_cases hi : i ∈ t
  · rw [assign_of_mem hi]
    constructor
    · intro mine
      exact absurd ((h.mem_iff i).mpr mine) (away hi)
    · intro theirs
      exact absurd theirs.2.symm ne
  · rw [assign_of_not_mem hi]

theorem Owns.give (h : Owns U owner giver l) (ne : giver ≠ who) :
    Owns U (assign owner t who) giver (l.filter fun i => i ∉ t) := by
  refine ⟨h.nodup.filter _, fun i => ?_⟩
  rw [mem_filter, h.mem_iff, decide_eq_true_iff]
  by_cases hi : i ∈ t
  · rw [assign_of_mem hi]
    exact iff_of_false (fun mine => mine.2 hi) fun theirs => ne theirs.2.symm
  · rw [assign_of_not_mem hi]
    exact and_iff_left hi

theorem Owns.give_front (h : Owns U owner giver (t ++ l)) (ne : giver ≠ who) :
    Owns U (assign owner t who) giver l := by
  have hrest : (t ++ l).filter (fun i => i ∉ t) = l := by
    have hfront : t.filter (fun i => i ∉ t) = [] := by
      rw [filter_eq_nil_iff]
      intro i hi hout
      exact of_decide_eq_true hout hi
    have hback : l.filter (fun i => i ∉ t) = l := by
      rw [filter_eq_self]
      intro i hi
      exact decide_eq_true fun hit => (List.nodup_append.mp h.nodup).2.2 i hit i hi rfl
    rw [filter_append, hfront, hback, nil_append]
  rw [← hrest]
  exact h.give ne

theorem Owns.give_all (h : Owns U owner giver l) (ne : giver ≠ who) :
    Owns U (assign owner l who) giver [] := by
  rw [← append_nil l] at h
  exact h.give_front ne

/-- New items are received. -/
theorem Owns.receive (h : Owns U owner who l) (nodup : t.Nodup) (new : t.Disjoint l)
    (inside : ∀ i ∈ t, U i) : Owns U (assign owner t who) who (t ++ l) := by
  refine ⟨nodup.append h.nodup new, fun i => ?_⟩
  rw [mem_append, h.mem_iff]
  by_cases hi : i ∈ t
  · rw [assign_of_mem hi]
    exact iff_of_true (.inl hi) ⟨inside i hi, rfl⟩
  · rw [assign_of_not_mem hi]
    exact or_iff_right hi

theorem Owns.receive_from (h : Owns U owner who l) (h' : Owns U owner giver l') (ne : giver ≠ who)
    (nodup : t.Nodup) (theirs : t ⊆ l') : Owns U (assign owner t who) who (t ++ l) := by
  apply h.receive nodup
  · intro i hi mine
    exact h'.disjoint h ne (theirs hi) mine
  · intro i hi
    exact h'.universe (theirs hi)

theorem Owns.bystander (h : Owns U owner who l) {receiver : ω} (h' : Owns U owner giver l')
    (theirs : t ⊆ l') (ne : who ≠ giver) (ne' : who ≠ receiver) :
    Owns U (assign owner t receiver) who l := by
  apply h.other _ ne'
  intro i hi mine
  exact h'.disjoint h ne.symm (theirs hi) mine

/-- Where a resource is, when the keys of a table have one each. -/
inductive Place (κ : Type*)
  | pool
  | others
  | key (k : κ)

def Lodged {κ : Type*} (U : ι → Prop) (pool others : List ι) (table : κ → Option ι) : Prop :=
  ∃ place : ι → Place κ, Owns U place .pool pool ∧ Owns U place .others others ∧
    ∀ k, Owns U place (.key k) (table k).toList

variable {κ : Type*} [DecidableEq κ] {pool others : List ι} {table : κ → Option ι}
    {i : ι} {k k' : κ}

omit [DecidableEq ι] [DecidableEq κ] in
omit [DecidableEq ι] [DecidableEq κ] in
theorem Lodged.injective (h : Lodged U pool others table) (hk : table k = some i)
    (hk' : table k' = some i) : k = k' := by
  obtain ⟨place, -, -, keys⟩ := h
  have hi : i ∈ (table k).toList := by simp [hk]
  have hi' : i ∈ (table k').toList := by simp [hk']
  have same := ((keys k).owner_eq hi).symm.trans ((keys k').owner_eq hi')
  cases same
  rfl

/-- A key takes the first item of the pool. -/
theorem Lodged.take (h : Lodged U (i :: pool) others table) (hk : table k = none) :
    Lodged U pool others (Function.update table k (some i)) := by
  obtain ⟨place, free, rest, keys⟩ := h
  have hsub : [i] ⊆ i :: pool := by simp
  refine ⟨assign place [i] (.key k), ?_, ?_, ?_⟩
  · exact Owns.give_front (t := [i]) free (by nofun)
  · exact rest.bystander free hsub (by nofun) (by nofun)
  · intro l
    by_cases hl : l = k
    · subst hl
      have more := (keys l).receive_from free (by nofun) (nodup_singleton i) hsub
      simpa [hk] using more
    · have ne : Place.key l ≠ Place.key k := by
        intro same
        cases same
        exact hl rfl
      rw [Function.update_of_ne hl]
      exact (keys l).bystander free hsub (by nofun) ne

/-- A key gives its item back. -/
theorem Lodged.give (h : Lodged U pool others table) (hk : table k = some i) :
    Lodged U (i :: pool) others (Function.update table k none) := by
  obtain ⟨place, free, rest, keys⟩ := h
  have mine : Owns U place (.key k) [i] := by
    have := keys k
    rw [hk] at this
    exact this
  have hself : [i] ⊆ [i] := List.Subset.refl _
  refine ⟨assign place [i] .pool, ?_, ?_, ?_⟩
  · exact free.receive_from mine (by nofun) (nodup_singleton i) hself
  · exact rest.bystander mine hself (by nofun) (by nofun)
  · intro l
    by_cases hl : l = k
    · subst hl
      simpa using mine.give_all (by nofun)
    · have ne : Place.key l ≠ Place.key k := by
        intro same
        cases same
        exact hl rfl
      rw [Function.update_of_ne hl]
      exact (keys l).bystander mine hself ne (by nofun)

omit [DecidableEq κ] in
theorem Lodged.othersTake (h : Lodged U pool others table) (t : List ι) :
    Lodged U (pool.filter fun i => i ∉ t) (pool.filter (fun i => i ∈ t) ++ others) table := by
  obtain ⟨place, free, rest, keys⟩ := h
  have hsub : pool.filter (fun i => i ∈ t) ⊆ pool := filter_subset_self _
  refine ⟨assign place (pool.filter fun i => i ∈ t) .others, ?_, ?_, ?_⟩
  · have ne : (Place.pool : Place κ) ≠ .others := by nofun
    have kept := free.give (t := pool.filter fun i => i ∈ t) ne
    have same : pool.filter (fun i => i ∉ pool.filter fun i => i ∈ t) =
        pool.filter fun i => i ∉ t := by
      apply filter_congr
      intro i hi
      simp [hi]
    rw [same] at kept
    exact kept
  · exact rest.receive_from free (by nofun) (free.nodup.filter _) hsub
  · intro l
    exact (keys l).bystander free hsub (by nofun) (by nofun)

omit [DecidableEq κ] in
theorem Lodged.othersReturn (h : Lodged U pool others table) (t : List ι) :
    Lodged U (others.filter (fun i => i ∈ t) ++ pool) (others.filter fun i => i ∉ t) table := by
  obtain ⟨place, free, rest, keys⟩ := h
  have hsub : others.filter (fun i => i ∈ t) ⊆ others := filter_subset_self _
  refine ⟨assign place (others.filter fun i => i ∈ t) .pool, ?_, ?_, ?_⟩
  · exact free.receive_from rest (by nofun) (rest.nodup.filter _) hsub
  · have ne : (Place.others : Place κ) ≠ .pool := by nofun
    have kept := rest.give (t := others.filter fun i => i ∈ t) ne
    have same : others.filter (fun i => i ∉ others.filter fun i => i ∈ t) =
        others.filter fun i => i ∉ t := by
      apply filter_congr
      intro i hi
      simp [hi]
    rw [same] at kept
    exact kept
  · intro l
    exact (keys l).bystander rest hsub (by nofun) (by nofun)

omit [DecidableEq ι] [DecidableEq κ] in
theorem Lodged.perm (h : Lodged U pool others table) {pool' : List ι} (hp : pool'.Perm pool) :
    Lodged U pool' others table := by
  obtain ⟨place, free, rest, keys⟩ := h
  exact ⟨place, free.perm hp, rest, keys⟩

end Owners
