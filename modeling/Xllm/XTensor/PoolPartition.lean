import Xllm.Lib.Owners
import Xllm.XTensor.PhyPagePool
import Mathlib.Data.List.Range
import Mathlib.Data.List.Perm.Subperm

/-!
# The two representations of the free pages

`Held` says that the deque and the bitmap agree with an assignment of the pages to their
holders: the deque has the pages that the pool holds, each once, and the bitmap is false at
exactly these. Every operation moves the pages it is about from one holder to another and
keeps `Held`. The scan from the right finds the right-most run of free pages.
-/

namespace Xllm.PagePool

open Contract Owners List

/-- Who has a page. A lost page is allocated and nobody will give it back. -/
inductive Holder
  | pool
  | caller
  | thread (t : Nat)
  | model (modelId : String)
  | lost
  deriving DecidableEq

/-- The ids of a pool of `n` pages. -/
def InPool (n : Nat) (i : Int) : Prop := 0 ≤ i ∧ i < n

theorem mem_pageRange {start i : Int} {count : Nat} :
    i ∈ pageRange start count ↔ start ≤ i ∧ i < start + count := by
  simp only [pageRange, mem_map, mem_range]
  constructor
  · intro h
    omega
  · intro h
    exact ⟨(i - start).toNat, by omega, by omega⟩

theorem nodup_pageRange (start : Int) (count : Nat) : (pageRange start count).Nodup := by
  apply List.Nodup.map
  · intro i j h
    dsimp only at h
    omega
  · exact nodup_range

@[simp] theorem length_pageRange (start : Int) (count : Nat) :
    (pageRange start count).length = count := by
  simp [pageRange]

namespace PhyPagePool

variable {p p' : PhyPagePool} {n d count : Nat} {owner : Int → Holder} {ids : List Int}

def FreeRun (p : PhyPagePool) (start : Int) (count : Nat) : Prop :=
  0 ≤ start ∧ start + count ≤ p.numTotalPages ∧
    ∀ i, start ≤ i → i < start + count → p.pageAllocated i = false

/-- What the scan for a contiguous run knows when the indices below `i` are left: it stands
in front of a run that is too short and blocked on the right, and there is no run of the full
length from here on. -/
structure Scanned (p : PhyPagePool) (count i run : Nat) : Prop where
  free : ∀ j : Int, i ≤ j → j < i + run → p.pageAllocated j = false
  short : run < count
  blocked : i + run = p.numTotalPages ∨ p.pageAllocated ((i + run : Nat) : Int) = true
  within : i + run ≤ p.numTotalPages
  none : ∀ start : Int, p.FreeRun start count → start < i

theorem Scanned.start (hcount : 0 < count) : p.Scanned count p.numTotalPages 0 where
  free := by
    intro j hj hj'
    omega
  short := hcount
  blocked := .inl rfl
  within := Nat.le_refl _
  none := by
    intro start hrun
    have := hrun.2.1
    omega

/-- The scan finds the rightmost free run of its length. -/
theorem scanFromRight_spec {i run : Nat} (h : p.Scanned count i run) :
    (p.scanFromRight count i run = -1 ∧ ∀ start, ¬ p.FreeRun start count) ∨
      (p.FreeRun (p.scanFromRight count i run) count ∧
        ∀ start, p.FreeRun start count → start ≤ p.scanFromRight count i run) := by
  induction i generalizing run with
  | zero =>
      refine .inl ⟨rfl, ?_⟩
      intro start hrun
      have := h.none start hrun
      have := hrun.1
      omega
  | succ i ih =>
      have hfree := h.free
      have hshort := h.short
      have hwithin := h.within
      simp only [scanFromRight]
      split
      · rename_i hbit
        apply ih
        refine ⟨?_, by omega, .inr hbit, by omega, ?_⟩
        · intro j hj hj'
          omega
        · intro start hrun
          have hlt := h.none start hrun
          by_contra hge
          have hclear := hrun.2.2 i (by omega) (by omega)
          simp [hbit] at hclear
      · rename_i hbit
        have hclear : p.pageAllocated i = false := by simpa using hbit
        have hlonger : ∀ j : Int, i ≤ j → j < i + (run + 1 : Nat) →
            p.pageAllocated j = false := by
          intro j hj hj'
          by_cases hij : j = i
          · rw [hij]
            exact hclear
          · apply hfree j <;> omega
        split
        · rename_i hend
          refine .inr ⟨⟨by omega, by omega, ?_⟩, ?_⟩
          · intro j hj hj'
            apply hlonger j hj
            omega
          · intro start hrun
            have := h.none start hrun
            omega
        · rename_i hend
          apply ih
          refine ⟨hlonger, by omega, ?_, by omega, ?_⟩
          · have hsame : i + (run + 1) = i + 1 + run := by omega
            rw [hsame]
            exact h.blocked
          · intro start hrun
            have hlt := h.none start hrun
            by_contra hge
            cases h.blocked with
            | inl htotal =>
                have := hrun.2.1
                omega
            | inr hset =>
                have hclear := hrun.2.2 ((i + 1 + run : Nat) : Int) (by omega) (by omega)
                rw [hset] at hclear
                cases hclear

/-- The pages collected are free and distinct. -/
theorem collectFromRight_spec {i : Nat} {result : List Int} (hi : i ≤ p.numTotalPages)
    (nodup : result.Nodup)
    (collected : ∀ j ∈ result, (i : Int) ≤ j ∧ j < p.numTotalPages ∧ p.pageAllocated j = false) :
    (p.collectFromRight count i result).Nodup ∧
      ∀ j ∈ p.collectFromRight count i result,
        0 ≤ j ∧ j < p.numTotalPages ∧ p.pageAllocated j = false := by
  induction i generalizing result with
  | zero =>
      refine ⟨nodup, ?_⟩
      intro j hj
      simpa using collected j hj
  | succ i ih =>
      have hfar : ∀ j ∈ result,
          (i : Int) ≤ j ∧ j < p.numTotalPages ∧ p.pageAllocated j = false := by
        intro j hj
        have := collected j hj
        exact ⟨by omega, this.2⟩
      simp only [collectFromRight]
      split
      · split
        · exact ih (by omega) nodup hfar
        · rename_i hbit
          apply ih (by omega)
          · rw [nodup_append]
            refine ⟨nodup, nodup_singleton _, ?_⟩
            intro j hj k hk
            have := (collected j hj).1
            rw [mem_singleton] at hk
            omega
          · intro j hj
            rw [mem_append, mem_singleton] at hj
            cases hj with
            | inl hj => exact hfar j hj
            | inr hj =>
                subst hj
                exact ⟨Int.le_refl _, by omega, by simpa using hbit⟩
      · refine ⟨nodup, ?_⟩
        intro j hj
        have := hfar j hj
        exact ⟨by omega, this.2⟩

structure Held (n d : Nat) (p : PhyPagePool) (owner : Int → Holder) : Prop where
  initialized : p.initialized = true
  size : p.numTotalPages = n
  device : p.device = d
  free : Owns (InPool n) owner .pool p.freePageIds
  allocated : ∀ i, InPool n i → (p.pageAllocated i = false ↔ owner i = .pool)
  present : ∀ i, InPool n i → owner i ≠ .caller → p.allPages i = some ⟨d, i⟩

theorem Held.not_uninitialized (h : Held n d p owner) : (!p.initialized) = false := by
  rw [h.initialized, Bool.not_true]

theorem Held.mem_free_iff (h : Held n d p owner) (i : Int) :
    i ∈ p.freePageIds ↔ p.InRange i ∧ p.pageAllocated i = false := by
  rw [h.free.mem_iff, InRange, h.size]
  constructor
  · intro hi
    exact ⟨hi.1, (h.allocated i hi.1).mpr hi.2⟩
  · intro hi
    exact ⟨hi.1, (h.allocated i hi.1).mp hi.2⟩

theorem Held.freeRun_iff (h : Held n d p owner) {start : Int} (hcount : 0 < count) :
    p.FreeRun start count ↔ pageRange start count ⊆ p.freePageIds := by
  constructor
  · intro hrun i hi
    rw [mem_pageRange] at hi
    have := hrun.1
    have := hrun.2.1
    rw [h.mem_free_iff]
    exact ⟨⟨by omega, by omega⟩, hrun.2.2 i hi.1 hi.2⟩
  · intro hsub
    have hfree : ∀ i, start ≤ i → i < start + count → i ∈ p.freePageIds := by
      intro i hi hi'
      exact hsub (mem_pageRange.mpr ⟨hi, hi'⟩)
    have hfirst := ((h.mem_free_iff start).mp (hfree start (by omega) (by omega))).1
    have hlast :=
      ((h.mem_free_iff (start + count - 1)).mp (hfree _ (by omega) (by omega))).1
    refine ⟨hfirst.1, ?_, ?_⟩
    · have := hlast.2
      omega
    · intro i hi hi'
      exact ((h.mem_free_iff i).mp (hfree i hi hi')).2

theorem Held.claim (h : Held n d p owner) (hsub : ids ⊆ p.freePageIds) {who : Holder}
    (outside : who ≠ .pool) {bits : Int → Bool} {rest : List Int}
    (hbits : ∀ i, bits i = (decide (i ∈ ids) || p.pageAllocated i))
    (hrest : rest = p.freePageIds.filter fun i => i ∉ ids) :
    Held n d { p with pageAllocated := bits, freePageIds := rest } (assign owner ids who) where
  initialized := h.initialized
  size := h.size
  device := h.device
  free := by
    rw [hrest]
    exact h.free.give outside.symm
  allocated := by
    intro i hi
    simp only [hbits]
    by_cases hin : i ∈ ids
    · simp [hin, outside]
    · simp [hin, h.allocated i hi]
  present := by
    intro i hi hne
    by_cases hin : i ∈ ids
    · apply h.present i hi
      rw [h.free.owner_eq (hsub hin)]
      simp
    · rw [assign_of_not_mem hin] at hne
      exact h.present i hi hne

theorem Held.popFront (h : Held n d p owner) {i : Int} {rest : List Int}
    (hfree : p.freePageIds = i :: rest) :
    p.allPages i = some ⟨d, i⟩ ∧ Held n d (p.popFront i rest) (assign owner [i] .caller) := by
  have hmem : i ∈ p.freePageIds := by
    rw [hfree]
    exact mem_cons_self
  refine ⟨?_, h.initialized, h.size, h.device, ?_, ?_, ?_⟩
  · apply h.present i (h.free.universe hmem)
    rw [h.free.owner_eq hmem]
    simp
  · have hall := h.free
    rw [hfree] at hall
    exact Owns.give_front (t := [i]) hall (by simp)
  · intro j hj
    by_cases hij : j = i
    · subst hij
      simp [PhyPagePool.popFront, assign]
    · simp [PhyPagePool.popFront, assign, hij, h.allocated j hj]
  · intro j hj hne
    by_cases hij : j = i
    · subst hij
      exact absurd (assign_of_mem (mem_singleton_self j)) hne
    · rw [assign_of_not_mem (by simpa using hij)] at hne
      simp [PhyPagePool.popFront, hij, h.present j hj hne]

theorem Held.restore (h : Held n d p owner) {i : Int} (hi : InPool n i)
    (outside : owner i ≠ .pool) {free : List Int} (hfree : free.Perm (i :: p.freePageIds))
    {pages : Int → Option PhyPage} (hpage : pages i = some ⟨d, i⟩)
    (hpages : ∀ j, j ≠ i → pages j = p.allPages j) :
    Held n d { p with
      allPages := pages
      pageAllocated := Function.update p.pageAllocated i false
      freePageIds := free } (assign owner [i] .pool) where
  initialized := h.initialized
  size := h.size
  device := h.device
  free := by
    refine Owns.perm ?_ hfree
    apply Owns.receive (t := [i]) h.free (nodup_singleton i)
    · intro j hj hmem
      rw [mem_singleton] at hj
      subst hj
      exact outside (h.free.owner_eq hmem)
    · intro j hj
      rw [mem_singleton] at hj
      subst hj
      exact hi
  allocated := by
    intro j hj
    by_cases hij : j = i
    · subst hij
      simp [assign]
    · simp [assign, hij, h.allocated j hj]
  present := by
    intro j hj hne
    by_cases hij : j = i
    · subst hij
      exact hpage
    · rw [assign_of_not_mem (by simpa using hij)] at hne
      simp [hpages j hij, h.present j hj hne]

theorem Held.putPage (h : Held n d p owner) {page : PhyPage} (hdevice : page.device = d)
    (hi : InPool n page.pageId) (outside : owner page.pageId ≠ .pool) : Yields (p.putPage page)
      (fun p' => Held n d p' (assign owner [page.pageId] .pool)) := by
  have hrange : p.InRange page.pageId := by
    rw [InRange, h.size]
    exact hi
  have hsame : page.device = p.device := hdevice.trans h.device.symm
  simp only [PhyPagePool.putPage, hsame, hrange, ne_eq]
  apply h.restore hi outside (List.Perm.refl _)
  · rw [Function.update_self, ← hdevice]
  · intro j hij
    exact Function.update_of_ne hij _ _

theorem Held.freeWeightPages (h : Held n d p owner) (nodup : ids.Nodup)
    (inside : ∀ i ∈ ids, InPool n i)
    (outside : ∀ i ∈ ids, owner i ≠ .pool ∧ owner i ≠ .caller) : Yields (p.freeWeightPages ids)
      (fun p' => Held n d p' (assign owner ids .pool)) := by
  have loop : Yields (ids.foldlM freeWeightPage p)
      (fun p' => Held n d p' (assign owner ids .pool)) := by
    induction ids generalizing p owner with
    | nil => simpa using h
    | cons i ids ih =>
        have hnotin := (List.nodup_cons.mp nodup).1
        have hi := inside i mem_cons_self
        have hout := outside i mem_cons_self
        have hrange : p.InRange i := by
          rw [InRange, h.size]
          exact hi
        have hset : p.pageAllocated i = true := by
          cases hbit : p.pageAllocated i with
          | false => exact absurd ((h.allocated i hi).mp hbit) hout.1
          | true => rfl
        have hfirst : Yields (p.freeWeightPage i)
            (fun p' => Held n d p' (assign owner [i] .pool)) := by
          simp only [freeWeightPage, hrange, hset]
          apply h.restore hi hout.1 (perm_append_singleton _ _)
          · exact h.present i hi hout.2
          · intro j _
            rfl
        refine hfirst.bind fun p' hp' => ?_
        have hassign : assign owner (i :: ids) .pool = assign
          (assign owner [i] .pool) ids .pool := by
          funext j
          by_cases hj : j ∈ ids
          · rw [assign_of_mem (mem_cons_of_mem i hj), assign_of_mem hj]
          · by_cases hij : j = i
            · simp [assign, hij]
            · simp [assign, hij]
        rw [hassign]
        apply ih hp' (List.nodup_cons.mp nodup).2
        · intro j hj
          exact inside j (mem_cons_of_mem i hj)
        · intro j hj
          have hji : j ∉ [i] := by
            rw [mem_singleton]
            intro heq
            exact hnotin (heq ▸ hj)
          rw [assign_of_not_mem hji]
          exact outside j (mem_cons_of_mem i hj)
  cases hids : ids with
  | nil =>
      simpa [PhyPagePool.freeWeightPages] using h
  | cons i rest =>
      rw [hids] at loop
      simpa [PhyPagePool.freeWeightPages, h.initialized] using loop

/-- A contiguous allocation finds the right-most run and gives it away, or there is none and
nothing changes. -/
theorem Held.allocateContiguous (h : Held n d p owner) (who : Holder) (outside : who ≠ .pool) :
    Yields (p.allocateContiguousFromRight count) (fun r =>
      (r = (-1, p) ∧ ∀ start, ¬ (0 < count ∧ p.FreeRun start count)) ∨
      (0 < count ∧ p.FreeRun r.1 count ∧ (∀ start, p.FreeRun start count → start ≤ r.1) ∧
        Held n d r.2 (assign owner (pageRange r.1 count) who))) := by
  simp only [allocateContiguousFromRight, h.not_uninitialized, Bool.false_eq_true, if_false]
  split
  · rename_i hearly
    refine .inl ⟨rfl, ?_⟩
    intro start hrun
    have hsub := (h.freeRun_iff hrun.1).mp hrun.2
    have hlength := ((nodup_pageRange start count).subperm hsub).length_le
    rw [length_pageRange] at hlength
    omega
  · rename_i hroom
    have hcount : 0 < count := by omega
    have hscan := scanFromRight_spec (Scanned.start (p := p) hcount)
    split
    · rename_i hneg
      cases hscan with
      | inl hnone => exact .inl ⟨rfl, fun start hrun => hnone.2 start hrun.2⟩
      | inr hfound =>
          have := hfound.1.1
          omega
    · rename_i hpos
      cases hscan with
      | inl hnone => omega
      | inr hfound =>
          refine .inr ⟨hcount, hfound.1, hfound.2, ?_⟩
          apply h.claim ((h.freeRun_iff hcount).mp hfound.1) outside
          · intro i
            simp only [mem_pageRange]
          · simp only [mem_pageRange]

/-- An allocation of single pages gives away that many free pages, each once, or it returns
none and nothing changes. -/
theorem Held.allocatePages (h : Held n d p owner) (who : Holder) (outside : who ≠ .pool) :
    Yields (p.allocatePagesFromRight count) (fun r =>
      r = ([], p) ∨
      (r.1 ≠ [] ∧ r.1.Nodup ∧ r.1 ⊆ p.freePageIds ∧
        Held n d r.2 (assign owner r.1 who))) := by
  simp only [allocatePagesFromRight, h.not_uninitialized, Bool.false_eq_true, if_false]
  split
  · exact .inl rfl
  · rename_i hroom
    split
    · exact .inl rfl
    · rename_i hfull
      have hcollected : (p.collectFromRight count p.numTotalPages []).Nodup ∧
          ∀ j ∈ p.collectFromRight count p.numTotalPages [],
            0 ≤ j ∧ j < p.numTotalPages ∧ p.pageAllocated j = false :=
        collectFromRight_spec (Nat.le_refl _) nodup_nil
          (fun j hj => absurd hj not_mem_nil)
      obtain ⟨nodup, hfree⟩ := hcollected
      have hsub : p.collectFromRight count p.numTotalPages [] ⊆ p.freePageIds := by
        intro j hj
        have := hfree j hj
        exact (h.mem_free_iff j).mpr ⟨⟨this.1, this.2.1⟩, this.2.2⟩
      refine .inr ⟨?_, nodup, hsub, ?_⟩
      · intro hnil
        dsimp only at hnil
        rw [hnil, length_nil] at hfull
        omega
      · apply h.claim hsub outside
        · intro i
          rfl
        · rfl

end PhyPagePool

end Xllm.PagePool
