import Xllm.XTensor.PhyPages

/-!
# A failed sleep or wakeup

`sleep_model` and `wakeup_model` send one broadcast for each group and one for the weights. When
a broadcast fails, nobody knows what its workers did, and nothing is rolled back: the lists stay,
a failed sleep keeps counting the pages of the groups that failed, and a failed wakeup keeps
counting all pages that it was going to map. The counters therefore never lose a page that may
be mapped, and a repeated wakeup counts the pages a second time.

Below, a call runs from the section that collects the pages to its end, while other calls stand
still. A failed broadcast may have done any part of its work.
-/

namespace Xllm

open Contract List Function

/-- The broadcasts of a call: those that fail, by the position of their group, and what the
workers did although they failed. In `wakeup_model` the broadcast for the weights comes after
those of the groups. -/
structure Broadcasts where
  weightsFail : Bool := false
  failed : List Nat := []
  weightsDone : Bool := false
  partly : Nat → List Nat := fun _ => []

def Broadcasts.whole (weightsFail : Bool) (failed : List Nat) : Broadcasts :=
  { weightsFail, failed }

namespace PageAllocator

variable {p q : PageAllocator} {m m' : String} {d d' w n : Nat} {st st' : ModelState}

def succeeded (groups : List (Nat × List Nat)) (failed : List Nat) : List (Nat × List Nat) :=
  (groups.zipIdx.filter fun group => group.2 ∉ failed).map Prod.fst

def unmapPartly (p : PageAllocator) (m : String) (groups : List (Nat × List Nat))
    (b : Broadcasts) : PageAllocator :=
  (groups.zipIdx.filter fun group => group.2 ∈ b.failed).foldl
    (fun q group => q.unmapVirtPages m group.1.1 (group.1.2.filter (· ∈ b.partly group.2))) p

def sleepGroups (p : PageAllocator) (m : String) (groups : List (Nat × List Nat))
    (b : Broadcasts) : Except Stop (Bool × PageAllocator) :=
  (p.sleepUnmapped m groups b.failed).map fun q =>
    (groups.zipIdx.all fun group => group.2 ∉ b.failed, q.unmapPartly m groups b)

def sleepFrom (p : PageAllocator) (m : String) (st : ModelState) (skipWeightRelease : Bool)
    (b : Broadcasts) : Except Stop (Bool × PageAllocator) :=
  let groups := p.collectPages st
  let q := p.setModel m { st with isSleeping := true }
  if skipWeightRelease = false ∧ 0 < st.weightPagesAllocated then
    if b.weightsFail then .ok (false, if b.weightsDone then q.setWeights m 0 else q)
    else
      q.freeWeightPages m st.weightPagesAllocated true >>= fun q => q.sleepGroups m groups b
  else q.sleepGroups m groups b

/-- `sleep_model`, when no map operation of the model makes it wait. -/
def sleep (p : PageAllocator) (m : String) (skipWeightRelease : Bool) (b : Broadcasts) :
    Except Stop (Bool × PageAllocator) :=
  match p.modelStates m with
  | none => .ok (false, p)
  | some st =>
      if st.isSleeping then .ok (false, p)
      else if 0 < st.pendingMapOps then .error .idle
      else p.sleepFrom m st skipWeightRelease b

def hasRoom (p : PageAllocator) (st : ModelState) : Bool :=
  (List.range p.maxWorldSize).all fun w =>
    p.pagesToConsume st (p.collectPages st) w ≤ p.numTotalPhyPages - p.workerPagesUsed w

def consumed (p : PageAllocator) (st : ModelState) (w : Nat) : Nat :=
  if w < p.maxWorldSize then p.pagesToConsume st (p.collectPages st) w else 0

/-- What `wakeup_model` returns after its broadcasts, and what the workers of the first one that
fails did nevertheless. -/
def wakeupReturns (m : String) (n : Nat) (groups : List (Nat × List Nat)) (b : Broadcasts)
    (q : PageAllocator) : Bool × PageAllocator :=
  match groups.zipIdx.find? fun group => group.2 ∈ b.failed with
  | some group =>
      (false, q.mapVirtPages m group.1.1 (group.1.2.filter (· ∈ b.partly group.2)))
  | none =>
      if n ≠ 0 ∧ groups.length ∈ b.failed then
        (false, if b.weightsDone then q.setWeights m n else q)
      else (true, q)

/-- `wakeup_model`: what it returns, and the state. -/
def wakeup (p : PageAllocator) (m : String) (b : Broadcasts) :
    Except Stop (Bool × PageAllocator) :=
  match p.modelStates m with
  | none => .ok (false, p)
  | some st =>
      if st.isSleeping = false then .ok (false, p)
      else if p.hasRoom st then
        ((p.consumePhyPages (p.consumed st)).wakeupMapped m st.weightPagesAllocated
          (p.collectPages st) b.failed).map
            (wakeupReturns m st.weightPagesAllocated (p.collectPages st) b)
      else .ok (false, p)

@[simp] theorem unmapVirtPages_nil : p.unmapVirtPages m d [] = p := by
  rw [unmapVirtPages, toFinset_nil, Finset.sdiff_empty, update_eq_self,
    update_eq_self]

variable {failed : List Nat}

@[simp] theorem unmapPartly_whole {weightsFail : Bool} (groups : List (Nat × List Nat)) :
    p.unmapPartly m groups (Broadcasts.whole weightsFail failed) = p := by
  rw [unmapPartly]
  generalize groups.zipIdx.filter _ = failing
  induction failing with
  | nil => rfl
  | cons group failing ih =>
      have none_done : group.1.2.filter (· ∈ (Broadcasts.whole weightsFail failed).partly group.2) =
          [] := by
        apply List.filter_eq_nil_iff.mpr
        exact fun page _ here => absurd (of_decide_eq_true here) not_mem_nil
      rw [foldl_cons, none_done, unmapVirtPages_nil]
      exact ih

/-- The sections of `sleep_model` after the one that collects the pages. -/
def sleepSections (st : ModelState) (skipWeightRelease weightsFail : Bool) (failed : List Nat) :
    List Op :=
  if skipWeightRelease = false ∧ 0 < st.weightPagesAllocated then
    if weightsFail then [.resume 0 [0]] else [.resume 0 [], .resume 0 failed]
  else [.resume 0 failed]

theorem run_resume_newest {c : Call} {ops : List Op} :
    run step (p.addCall c) (.resume 0 failed :: ops) =
      p.resume failed c >>= fun q => run step q ops :=
  run_cons

variable {groups : List (Nat × List Nat)}

theorem run_sleepUnmap {weightsFail : Bool} :
    run step (p.addCall (.sleepUnmap m groups)) [.resume 0 failed] =
      (p.sleepGroups m groups (Broadcasts.whole weightsFail failed)).map Prod.snd := by
  show (p.sleepUnmapped m groups failed >>= _) = ((p.sleepUnmapped m groups failed).map _).map _
  cases p.sleepUnmapped m groups failed with
  | error e => rfl
  | ok q =>
      show Except.ok q = .ok (q.unmapPartly m groups (Broadcasts.whole weightsFail failed))
      rw [unmapPartly_whole]

/-- The sections behind the wait. -/
theorem run_fallAsleep {skipWeightRelease weightsFail : Bool} :
    run step (p.fallAsleep m st skipWeightRelease)
        (sleepSections st skipWeightRelease weightsFail failed) =
      (p.sleepFrom m st skipWeightRelease (Broadcasts.whole weightsFail failed)).map Prod.snd := by
  rw [fallAsleep, sleepSections, sleepFrom]
  split
  · rw [Broadcasts.whole]
    cases weightsFail with
    | true => rfl
    | false =>
        rw [if_neg Bool.false_ne_true, run_resume_newest, resume, sleepFreedWeights]
        cases (p.setModel m { st with isSleeping := true }).freeWeightPages m
            st.weightPagesAllocated true with
        | error e => rfl
        | ok q => exact run_sleepUnmap
  · exact run_sleepUnmap

/-- The whole call is the run of its lock sections, when nothing comes in between. -/
theorem run_sleepModel {skipWeightRelease weightsFail : Bool} (hst : p.modelStates m = some st)
    (awake : st.isSleeping = false) (none_pending : ¬ 0 < st.pendingMapOps) :
    run step p (.sleepModel m skipWeightRelease ::
        sleepSections st skipWeightRelease weightsFail failed) =
      (p.sleep m skipWeightRelease (Broadcasts.whole weightsFail failed)).map Prod.snd := by
  have asleep : ¬ st.isSleeping = true := by simp [awake]
  have falls : p.sleepModel m skipWeightRelease = p.fallAsleep m st skipWeightRelease := by
    rw [sleepModel, hst]
    dsimp only
    rw [if_neg asleep, if_neg none_pending]
  show run step (p.sleepModel m skipWeightRelease) _ = _
  rw [falls, run_fallAsleep, sleep, hst]
  dsimp only
  rw [if_neg asleep, if_neg none_pending]

@[simp] theorem mapVirtPages_nil : p.mapVirtPages m d [] = p := by
  rw [mapVirtPages, toFinset_nil, Finset.union_empty, update_eq_self,
    update_eq_self]

/-- As `run_sleepModel`, when every worker has room. -/
theorem run_wakeupModel (hst : p.modelStates m = some st)
    (asleep : st.isSleeping = true) (room : p.hasRoom st = true) :
    run step (p.wakeupModel m) [.resume 0 failed] =
      (p.wakeup m (Broadcasts.whole false failed)).map Prod.snd := by
  have awake : ¬ st.isSleeping = false := by simp [asleep]
  have wakes : p.wakeupModel m = (p.consumePhyPages (p.consumed st)).addCall
      (.wakeMap m st.weightPagesAllocated (p.collectPages st)) := by
    rw [wakeupModel, hst]
    dsimp only
    rw [if_neg awake]
    exact if_pos room
  rw [wakes, run_resume_newest, wakeup, hst]
  dsimp only
  rw [if_neg awake, if_pos room]
  show (wakeupMapped _ m _ _ failed >>= _) = ((wakeupMapped _ m _ _ failed).map _).map _
  cases (p.consumePhyPages (p.consumed st)).wakeupMapped m st.weightPagesAllocated
      (p.collectPages st) failed with
  | error e => rfl
  | ok q =>
      have same : (wakeupReturns m st.weightPagesAllocated (p.collectPages st)
          (Broadcasts.whole false failed) q).2 = q := by
        rw [wakeupReturns]
        split
        · rename_i group found
          have none_done : group.1.2.filter
              (· ∈ (Broadcasts.whole false failed).partly group.2) = [] := by
            apply List.filter_eq_nil_iff.mpr
            exact fun page _ here => absurd (of_decide_eq_true here) not_mem_nil
          rw [none_done]
          exact mapVirtPages_nil
        · split <;> rfl
      exact congrArg Except.ok same.symm

/-- The pages of one model on a worker. -/
def residentOf (p : PageAllocator) (m : String) (w : Nat) : Nat :=
  match p.modelStates m with
  | none => 0
  | some st => p.load st (p.weightsResident m) (fun d => (p.mapped m d).card) w

theorem residentOf_eq (hst : p.modelStates m = some st) : p.residentOf m w =
    p.load st (p.weightsResident m) (fun d => (p.mapped m d).card) w := by
  rw [residentOf, hst]

theorem sum_groupLoad_pagesAt (inRange : ∀ group ∈ groups, group.1 < p.dpSize) (w : Nat) :
    (groups.map (p.groupLoad st w)).sum =
      ∑ d ∈ Finset.range p.dpSize, if p.inDpGroup st d w then
        (pagesAt groups d).length * st.phyPagesPerVirtPage else 0 := by
  induction groups with
  | nil =>
      symm
      apply Finset.sum_eq_zero
      intro d _
      simp [pagesAt]
  | cons group groups ih =>
      have first := inRange group mem_cons_self
      have one : p.groupLoad st w group = ∑ d ∈ Finset.range p.dpSize,
          if p.inDpGroup st d w then
            (if group.1 = d then group.2 else []).length * st.phyPagesPerVirtPage else 0 := by
        rw [Finset.sum_eq_single_of_mem group.1 (Finset.mem_range.mpr first)]
        · rw [groupLoad, if_pos rfl]
        · intro d _ ne
          rw [if_neg (Ne.symm ne), length_nil, Nat.zero_mul, ite_self]
      have rest := ih fun group' h => inRange group' (mem_cons_of_mem group h)
      rw [map_cons, sum_cons, one, rest, ← Finset.sum_add_distrib]
      apply Finset.sum_congr rfl
      intro d _
      have pages : pagesAt (group :: groups) d =
          (if group.1 = d then group.2 else []) ++ pagesAt groups d := flatMap_cons
      split
      · rw [pages, length_append, Nat.add_mul]
      · rfl

variable {weights weights' : Nat}

theorem load_add_le (st : ModelState) {kv kv' freed : Nat → Nat}
    (fewer : weights' + n ≤ weights)
    (groups : ∀ d < p.dpSize, kv' d + freed d ≤ kv d) (w : Nat) :
    p.load st weights' kv' w + ((if p.inWorld st w then n else 0) +
      ∑ d ∈ Finset.range p.dpSize, if p.inDpGroup st d w then freed d * st.phyPagesPerVirtPage
        else 0) ≤ p.load st weights kv w := by
  have kv_le : (∑ d ∈ Finset.range p.dpSize, if p.inDpGroup st d w then
        kv' d * st.phyPagesPerVirtPage else 0) +
      (∑ d ∈ Finset.range p.dpSize, if p.inDpGroup st d w then
        freed d * st.phyPagesPerVirtPage else 0) ≤
      ∑ d ∈ Finset.range p.dpSize, if p.inDpGroup st d w then
        kv d * st.phyPagesPerVirtPage else 0 := by
    rw [← Finset.sum_add_distrib]
    apply Finset.sum_le_sum
    intro d hd
    split
    · rw [← Nat.add_mul]
      exact Nat.mul_le_mul_right _ (groups d (Finset.mem_range.mp hd))
    · exact Nat.le_refl _
  rw [load, load]
  split <;> omega

theorem load_le_add (st : ModelState) {kv kv' new : Nat → Nat}
    (more : weights' ≤ weights + n) (groups : ∀ d < p.dpSize, kv' d ≤ kv d + new d) (w : Nat) :
    p.load st weights' kv' w ≤ p.load st weights kv w + ((if p.inWorld st w then n else 0) +
      ∑ d ∈ Finset.range p.dpSize, if p.inDpGroup st d w then new d * st.phyPagesPerVirtPage
        else 0) := by
  have kv_le : (∑ d ∈ Finset.range p.dpSize, if p.inDpGroup st d w then
        kv' d * st.phyPagesPerVirtPage else 0) ≤
      (∑ d ∈ Finset.range p.dpSize, if p.inDpGroup st d w then
        kv d * st.phyPagesPerVirtPage else 0) +
      ∑ d ∈ Finset.range p.dpSize, if p.inDpGroup st d w then
        new d * st.phyPagesPerVirtPage else 0 := by
    rw [← Finset.sum_add_distrib]
    apply Finset.sum_le_sum
    intro d hd
    split
    · rw [← Nat.add_mul]
      exact Nat.mul_le_mul_right _ (groups d (Finset.mem_range.mp hd))
    · exact Nat.le_refl _
  rw [load, load]
  split <;> omega

def releasedWeights (st : ModelState) (skipWeightRelease : Bool) (b : Broadcasts) : Nat :=
  if skipWeightRelease = false ∧ b.weightsFail = false then st.weightPagesAllocated else 0

/-- The groups whose pages `sleep_model` takes off the counters. -/
def releasedGroups (p : PageAllocator) (st : ModelState) (skipWeightRelease : Bool)
    (b : Broadcasts) : List (Nat × List Nat) :=
  if (skipWeightRelease = false ∧ 0 < st.weightPagesAllocated) ∧ b.weightsFail = true then []
  else succeeded (p.collectPages st) b.failed

def released (p : PageAllocator) (st : ModelState) (skipWeightRelease : Bool) (b : Broadcasts)
    (w : Nat) : Nat :=
  (if p.inWorld st w then releasedWeights st skipWeightRelease b else 0) +
    ((p.releasedGroups st skipWeightRelease b).map (p.groupLoad st w)).sum

/-- The releases of some groups, one after the other. A counter stops at zero. -/
theorem foldl_release (p : PageAllocator) (m : String) (st : ModelState)
    (groups : List (Nat × List Nat)) :
    ∃ used mapped flow, groups.foldl (releaseGroup m st) p =
        { p with
          workerPagesUsed := used, mapped := update p.mapped m mapped
          underflow := flow } ∧
      (∀ w, used w = p.workerPagesUsed w - (groups.map (p.groupLoad st w)).sum) ∧
      ∀ d, mapped d = p.mapped m d \ (pagesAt groups d).toFinset := by
  induction groups generalizing p with
  | nil =>
      refine ⟨p.workerPagesUsed, p.mapped m, p.underflow, ?_, fun w => rfl, fun d => ?_⟩
      · rw [update_eq_self]
        rfl
      · simp [pagesAt]
  | cons group groups ih =>
      obtain ⟨used, mapped, flow, folded, hused, hmapped⟩ := ih (releaseGroup m st p group)
      refine ⟨used, mapped, flow, ?_, ?_, ?_⟩
      · rw [foldl_cons, folded]
        show PageAllocator.mk _ _ _ _ _ _ _ _ _ _ (update (update _ m _) m _)
          _ _ _ = _
        rw [update_idem]
        rfl
      · intro w
        have first : (releaseGroup m st p group).workerPagesUsed w =
            p.workerPagesUsed w - p.groupLoad st w group := by
          show (if p.inDpGroup st group.1 w then _ else _) = _
          rw [groupLoad]
          split
          · split <;> omega
          · rfl
        have same : (releaseGroup m st p group).groupLoad = p.groupLoad := rfl
        rw [hused, first, same, map_cons, sum_cons, Nat.sub_sub]
      · intro d
        have first : (releaseGroup m st p group).mapped m d =
            p.mapped m d \ (if group.1 = d then group.2 else []).toFinset := by
          show update p.mapped m (update (p.mapped m) group.1 _) m d = _
          rw [update_self]
          by_cases here : group.1 = d
          · subst here
            rw [update_self, if_pos rfl]
            rfl
          · rw [update_of_ne (Ne.symm here), if_neg here, toFinset_nil,
              Finset.sdiff_empty]
        have pages : pagesAt (group :: groups) d =
            (if group.1 = d then group.2 else []) ++ pagesAt groups d := flatMap_cons
        rw [hmapped, first, pages, toFinset_append, sdiff_sdiff_left]
        rfl

theorem unmapPartly_eq (groups : List (Nat × List Nat)) (b : Broadcasts) :
    ∃ mapped, p.unmapPartly m groups b = { p with mapped := update p.mapped m mapped } ∧
      ∀ d, mapped d ⊆ p.mapped m d := by
  rw [unmapPartly]
  generalize groups.zipIdx.filter _ = failing
  induction failing generalizing p with
  | nil =>
      refine ⟨p.mapped m, ?_, fun d => Finset.Subset.refl _⟩
      rw [update_eq_self]
      rfl
  | cons group failing ih =>
      obtain ⟨mapped, folded, fewer⟩ := ih
        (p := p.unmapVirtPages m group.1.1 (group.1.2.filter (· ∈ b.partly group.2)))
      refine ⟨mapped, ?_, ?_⟩
      · rw [foldl_cons, folded, unmapVirtPages]
        rw [update_idem]
      · intro d
        apply (fewer d).trans
        rw [unmapVirtPages]
        dsimp only
        rw [update_self]
        by_cases here : d = group.1.1
        · rw [here, update_self]
          exact Finset.sdiff_subset
        · rw [update_of_ne here]

theorem succeeded_sublist (groups : List (Nat × List Nat)) (failed : List Nat) :
    (succeeded groups failed).Sublist groups := by
  have part := (filter_sublist (p := fun group => group.2 ∉ failed)
    (l := groups.zipIdx)).map Prod.fst
  rwa [zipIdx_map_fst] at part

theorem sleepUnmapped_eq (hst : p.modelStates m = some st) (groups : List (Nat × List Nat))
    (failed : List Nat) : p.sleepUnmapped m groups failed =
      .ok ((succeeded groups failed).foldl (releaseGroup m st) p) := by
  rw [sleepUnmapped, hst, succeeded, foldl_map]

theorem sleepGroups_eq (hst : p.modelStates m = some st) (groups : List (Nat × List Nat))
    (b : Broadcasts) : ∃ used mapped flow, p.sleepGroups m groups b =
        .ok (groups.zipIdx.all fun group => group.2 ∉ b.failed,
          { p with
            workerPagesUsed := used, mapped := update p.mapped m mapped
            underflow := flow }) ∧
      (∀ w, used w = p.workerPagesUsed w -
        ((succeeded groups b.failed).map (p.groupLoad st w)).sum) ∧
      ∀ d, mapped d ⊆ p.mapped m d \ (pagesAt (succeeded groups b.failed) d).toFinset := by
  obtain ⟨used, mapped, flow, folded, hused, hmapped⟩ :=
    foldl_release p m st (succeeded groups b.failed)
  rw [sleepGroups, sleepUnmapped_eq hst, folded]
  obtain ⟨mapped', partly, fewer⟩ := unmapPartly_eq (m := m) (p := { p with
    workerPagesUsed := used, mapped := update p.mapped m mapped, underflow := flow })
    groups b
  refine ⟨used, mapped', flow, ?_, hused, ?_⟩
  · show Except.ok (_, unmapPartly _ m groups b) = _
    rw [partly]
    rw [update_idem]
  · intro d
    rw [← hmapped d]
    apply (fewer d).trans
    show update p.mapped m mapped m d ⊆ _
    rw [update_self]

/-- The pages of a model that are on lists are mapped, and the weights that a sleep frees are on
the workers. -/
structure Loaded (p : PageAllocator) (m : String) (st : ModelState) (skipWeightRelease : Bool) :
    Prop where
  mapped : ∀ d < p.dpSize, ∀ page ∈ (st.dpGroupPages d).reservedVirtPageList ++
    (st.dpGroupPages d).allocatedVirtPageList, page ∈ p.mapped m d
  weights : skipWeightRelease = false → st.weightPagesAllocated ≤ p.weightsResident m

theorem pagesAt_map_range (f : Nat → List Nat) (n d : Nat) :
    pagesAt ((List.range n).map fun d => (d, f d)) d = if d < n then f d else [] := by
  induction n with
  | zero => rfl
  | succ n ih =>
      rw [range_succ, map_append, pagesAt, flatMap_append]
      show pagesAt _ d ++ ((if n = d then f n else []) ++ []) = _
      rw [ih]
      by_cases last : n = d
      · subst last
        simp
      · have same : d < n + 1 ↔ d < n := by omega
        simp [last, same]

theorem pagesAt_collectPages_sublist (part : groups.Sublist (p.collectPages st))
    (hd : d < p.dpSize) : (pagesAt groups d).Sublist ((st.dpGroupPages d).reservedVirtPageList ++
      (st.dpGroupPages d).allocatedVirtPageList) := by
  have all := pagesAt_map_range (fun d => (st.dpGroupPages d).reservedVirtPageList ++
    (st.dpGroupPages d).allocatedVirtPageList) p.dpSize d
  rw [if_pos hd] at all
  rw [← all]
  exact (part.trans filter_sublist).flatMap _

theorem rank_lt_of_mem_collectPages {group : Nat × List Nat} (h : group ∈ p.collectPages st) :
    group.1 < p.dpSize := by
  obtain ⟨d, hd, rfl⟩ := List.mem_map.mp (mem_of_mem_filter h)
  exact List.mem_range.mp hd

theorem Partitioned.nodup_listed (h : p.Partitioned) (hst : p.modelStates m = some st)
    (hd : d < p.dpSize) : ((st.dpGroupPages d).reservedVirtPageList ++
      (st.dpGroupPages d).allocatedVirtPageList).Nodup := by
  have all := (Multiset.nodup_add.mp ((h.modelInv hst).group d hd).nodup).1
  rw [add_assoc] at all
  exact Multiset.coe_nodup.mp (Multiset.nodup_add.mp all).2.1

theorem covered_of_release (less : Nat) (hp : p.Partitioned)
    (hst : p.modelStates m = some st) (hst' : q.modelStates m = some st')
    (shape : SameShape p q) (loads : p.load st' = p.load st)
    (part : groups.Sublist (p.collectPages st))
    (listed : ∀ d < p.dpSize, ∀ page ∈ (st.dpGroupPages d).reservedVirtPageList ++
      (st.dpGroupPages d).allocatedVirtPageList, page ∈ p.mapped m d)
    (weights : q.weightsResident m + less ≤ p.weightsResident m)
    (mapped : ∀ d, q.mapped m d ⊆ p.mapped m d \ (pagesAt groups d).toFinset)
    (used : ∀ w, q.workerPagesUsed w = p.workerPagesUsed w -
      ((if p.inWorld st w then less else 0) + (groups.map (p.groupLoad st w)).sum)) (w : Nat) :
    p.workerPagesUsed w + q.residentOf m w ≤ q.workerPagesUsed w + p.residentOf m w := by
  have fewer : ∀ d < p.dpSize,
      (q.mapped m d).card + (pagesAt groups d).length ≤ (p.mapped m d).card := by
    intro d hd
    have sublist := pagesAt_collectPages_sublist part hd
    have nodup : (pagesAt groups d).Nodup := sublist.nodup (hp.nodup_listed hst hd)
    have inside : (pagesAt groups d).toFinset ⊆ p.mapped m d := by
      intro page here
      exact listed d hd page (sublist.subset (List.mem_toFinset.mp here))
    have card := Finset.card_le_card (mapped d)
    rw [Finset.card_sdiff_of_subset inside, toFinset_card_of_nodup nodup] at card
    have bound := Finset.card_le_card inside
    rw [toFinset_card_of_nodup nodup] at bound
    omega
  have ranks : ∀ group ∈ groups, group.1 < p.dpSize :=
    fun group h => rank_lt_of_mem_collectPages (part.subset h)
  have drop := load_add_le st weights fewer w
  rw [← sum_groupLoad_pagesAt ranks] at drop
  rw [residentOf_eq hst, residentOf_eq hst', shape.load_eq, loads, used w]
  omega

def slept (p : PageAllocator) (m : String) (st : ModelState) (used : Nat → Nat)
    (mapped : Nat → Finset Nat) (weights : Nat) (flow : Bool) : PageAllocator :=
  { p with
    modelStates := update p.modelStates m (some { st with isSleeping := true })
    workerPagesUsed := used, mapped := update p.mapped m mapped
    weightsResident := update p.weightsResident m weights, underflow := flow }

theorem sleepFrom_eq (p : PageAllocator) (m : String) (st : ModelState)
    (skipWeightRelease : Bool) (b : Broadcasts) :
    ∃ returned used mapped weights flow,
      p.sleepFrom m st skipWeightRelease b = .ok (returned, p.slept m st used mapped weights flow) ∧
      (∀ w, used w = p.workerPagesUsed w - p.released st skipWeightRelease b w) ∧
      (∀ d, mapped d ⊆ p.mapped m d \
        (pagesAt (p.releasedGroups st skipWeightRelease b) d).toFinset) ∧
      weights ≤ p.weightsResident m ∧
      (0 < releasedWeights st skipWeightRelease b → weights = 0) := by
  rw [sleepFrom]
  have registered (q : PageAllocator) (same : q.modelStates =
      update p.modelStates m (some { st with isSleeping := true })) :
      q.modelStates m = some { st with isSleeping := true } := by
    rw [same, update_self]
  split
  · rename_i frees
    cases fails : b.weightsFail with
    | true =>
        have none_weights : releasedWeights st skipWeightRelease b = 0 := by
          rw [releasedWeights, fails]
          simp
        have none_groups : p.releasedGroups st skipWeightRelease b = [] := by
          rw [releasedGroups, if_pos ⟨frees, fails⟩]
        have none_released (w) : p.released st skipWeightRelease b w = 0 := by
          rw [released, none_weights, none_groups]
          simp
        refine ⟨false, p.workerPagesUsed, p.mapped m,
          if b.weightsDone then 0 else p.weightsResident m, p.underflow, ?_, ?_, ?_, ?_, ?_⟩
        · rw [slept, update_eq_self]
          cases b.weightsDone with
          | true => rfl
          | false =>
              show _ = Except.ok (false, PageAllocator.mk _ _ _ _ _ _ _ _ _ _ _
                (update p.weightsResident m (p.weightsResident m)) _ _)
              rw [update_eq_self]
              rfl
        · intro w
          rw [none_released, Nat.sub_zero]
        · intro d
          rw [none_groups]
          simp [pagesAt]
        · split
          · exact Nat.zero_le _
          · exact Nat.le_refl _
        · intro pos
          omega
    | false =>
        have all_weights : releasedWeights st skipWeightRelease b = st.weightPagesAllocated := by
          rw [releasedWeights, if_pos ⟨frees.1, fails⟩]
        have all_groups : p.releasedGroups st skipWeightRelease b =
            succeeded (p.collectPages st) b.failed := by
          rw [releasedGroups, if_neg (fun h => by rw [fails] at h; cases h.2)]
        have freed : (p.setModel m { st with isSleeping := true }).freeWeightPages m
            st.weightPagesAllocated true =
              .ok (((p.setModel m { st with isSleeping := true }).releasePhyPages (p.inWorld st)
                st.weightPagesAllocated).setWeights m 0) := by
          rw [freeWeightPages, registered _ rfl]
          rfl
        rw [freed]
        obtain ⟨used, mapped, flow, ran, hused, hmapped⟩ :=
          sleepGroups_eq (registered (((p.setModel m { st with isSleeping := true }).releasePhyPages
            (p.inWorld st) st.weightPagesAllocated).setWeights m 0) rfl) (p.collectPages st) b
        refine ⟨_, used, mapped, 0, flow, ran, ?_, ?_, Nat.zero_le _, fun _ => rfl⟩
        · intro w
          rw [hused, released, all_weights, all_groups]
          show (if p.inWorld st w then _ else _) - ((succeeded _ _).map (p.groupLoad st w)).sum = _
          split
          · split
            · rw [Nat.sub_sub]
              rfl
            · rename_i short
              have short : ¬ st.weightPagesAllocated ≤ p.workerPagesUsed w := short
              omega
          · rw [Nat.zero_add]
            rfl
        · rw [all_groups]
          exact hmapped
  · rename_i keeps
    have none_weights : releasedWeights st skipWeightRelease b = 0 := by
      rw [releasedWeights]
      split
      · rename_i h
        by_contra pos
        exact keeps ⟨h.1, Nat.pos_of_ne_zero pos⟩
      · rfl
    have all_groups : p.releasedGroups st skipWeightRelease b =
        succeeded (p.collectPages st) b.failed := by
      rw [releasedGroups, if_neg (fun h => keeps h.1)]
    obtain ⟨used, mapped, flow, ran, hused, hmapped⟩ :=
      sleepGroups_eq (registered (p.setModel m { st with isSleeping := true }) rfl)
        (p.collectPages st) b
    refine ⟨(p.collectPages st).zipIdx.all fun group => group.2 ∉ b.failed, used, mapped,
      p.weightsResident m, flow, ?_, ?_, ?_, Nat.le_refl _, ?_⟩
    · rw [slept, update_eq_self m p.weightsResident]
      exact ran
    · intro w
      rw [hused, released, none_weights, all_groups, ite_self, Nat.zero_add]
      rfl
    · rw [all_groups]
      exact hmapped
    · intro pos
      omega

structure ListsKept (p q : PageAllocator) : Prop where
  lists : ∀ m, (q.modelStates m).map ModelState.dpGroupPages =
    (p.modelStates m).map ModelState.dpGroupPages
  partition : ∀ m st, q.modelStates m = some st → ∀ d < q.dpSize,
    ((st.dpGroupPages d).freeVirtPageList : Multiset Nat) +
        (st.dpGroupPages d).reservedVirtPageList + (st.dpGroupPages d).allocatedVirtPageList +
      q.inFlight m d = Multiset.range st.numTotalVirtPages

theorem listsKept (hp : p.Partitioned) (hst : p.modelStates m = some st) (asleep : Bool)
    (states : q.modelStates = update p.modelStates m (some { st with isSleeping := asleep }))
    (dpSize : q.dpSize = p.dpSize) (flight : q.inFlight = p.inFlight) : ListsKept p q := by
  constructor
  · intro m'
    rw [states]
    by_cases here : m' = m
    · rw [here, update_self, hst]
      rfl
    · rw [update_of_ne here]
  · intro m' st' hst' d hd
    rw [dpSize] at hd
    rw [flight]
    rw [states] at hst'
    by_cases here : m' = m
    · rw [here, update_self] at hst'
      cases hst'
      rw [here]
      exact ((hp.modelInv hst).group d hd).partition
    · rw [update_of_ne here] at hst'
      exact ((hp.modelInv hst').group d hd).partition

/-- A sleep that failed: the lists are kept, the counters give up the pages of the broadcasts
that succeeded, and so no more than the workers gave up. -/
structure FailedSleep (p : PageAllocator) (m : String) (st : ModelState)
    (skipWeightRelease : Bool) (b : Broadcasts) (q : PageAllocator) : Prop where
  kept : ListsKept p q
  others : ∀ m', m' ≠ m → ∀ w, q.residentOf m' w = p.residentOf m' w
  used : ∀ w, q.workerPagesUsed w = p.workerPagesUsed w - p.released st skipWeightRelease b w
  covered : p.Loaded m st skipWeightRelease → ∀ w,
    p.workerPagesUsed w + q.residentOf m w ≤ q.workerPagesUsed w + p.residentOf m w

variable {b : Broadcasts}

theorem releasedGroups_sublist {skipWeightRelease : Bool} :
    (p.releasedGroups st skipWeightRelease b).Sublist (p.collectPages st) := by
  rw [releasedGroups]
  split
  · exact nil_sublist _
  · exact succeeded_sublist _ _

theorem sleep_keeps {skipWeightRelease returned : Bool} (hp : p.Partitioned)
    (hst : p.modelStates m = some st)
    (h : p.sleepFrom m st skipWeightRelease b = .ok (returned, q)) :
    FailedSleep p m st skipWeightRelease b q := by
  obtain ⟨returned', used, mapped, weights, flow, ran, hused, hmapped, fewer, freed⟩ :=
    sleepFrom_eq p m st skipWeightRelease b
  rw [ran] at h
  cases h
  constructor
  · exact listsKept hp hst true rfl rfl rfl
  · intro m' ne w
    rw [residentOf, slept]
    dsimp only
    rw [update_of_ne ne, update_of_ne ne, update_of_ne ne]
    rfl
  · exact hused
  · intro loaded
    have asleep : (p.slept m st used mapped weights flow).modelStates m =
        some { st with isSleeping := true } := update_self _ _ _
    have weights_eq : (p.slept m st used mapped weights flow).weightsResident m = weights :=
      update_self _ _ _
    have mapped_eq : (p.slept m st used mapped weights flow).mapped m = mapped :=
      update_self _ _ _
    apply covered_of_release (releasedWeights st skipWeightRelease b) hp hst asleep
      ⟨rfl, rfl, rfl, rfl⟩ rfl releasedGroups_sublist loaded.mapped
    · rw [weights_eq]
      by_cases pos : 0 < releasedWeights st skipWeightRelease b
      · have less_le : releasedWeights st skipWeightRelease b ≤ p.weightsResident m := by
          rw [releasedWeights] at pos ⊢
          split
          · rename_i frees
            exact loaded.weights frees.1
          · exact Nat.zero_le _
        rw [freed pos, Nat.zero_add]
        exact less_le
      · omega
    · rw [mapped_eq]
      exact hmapped
    · exact hused

theorem mem_pagesAt_of_subset {part groups : List (Nat × List Nat)} (h : part ⊆ groups) {page : Nat}
    (here : page ∈ pagesAt part d) : page ∈ pagesAt groups d := by
  obtain ⟨group, mem, on_list⟩ := List.mem_flatMap.mp here
  exact List.mem_flatMap.mpr ⟨group, h mem, on_list⟩

def firstGroups (groups : List (Nat × List Nat)) (failed : List Nat) : List (Nat × List Nat) :=
  (groups.zipIdx.takeWhile fun group => group.2 ∉ failed).map Prod.fst

theorem firstGroups_subset (groups : List (Nat × List Nat)) (failed : List Nat) :
    firstGroups groups failed ⊆ groups := by
  have part := (takeWhile_sublist (p := fun group : (Nat × List Nat) × Nat =>
    decide (group.2 ∉ failed)) (l := groups.zipIdx)).map Prod.fst
  rw [zipIdx_map_fst] at part
  exact part.subset

theorem firstGroups_of_none
    (none_fails : groups.zipIdx.find? (fun group => decide (group.2 ∈ failed)) = none) :
    firstGroups groups failed = groups := by
  have all : groups.zipIdx.takeWhile (fun group => decide (group.2 ∉ failed)) = groups.zipIdx := by
    apply List.takeWhile_eq_self_iff.mpr
    intro group mem
    have absent := List.find?_eq_none.mp none_fails group mem
    simpa using absent
  rw [firstGroups, all, zipIdx_map_fst]

theorem length_firstGroups_lt {group : (Nat × List Nat) × Nat}
    (fails : groups.zipIdx.find? (fun group => decide (group.2 ∈ failed)) = some group) :
    (firstGroups groups failed).length < groups.length := by
  have part := takeWhile_prefix (l := groups.zipIdx)
    fun group : (Nat × List Nat) × Nat => decide (group.2 ∉ failed)
  have bound := part.length_le
  rw [firstGroups, length_map]
  rw [length_zipIdx] at bound
  apply Nat.lt_of_le_of_ne bound
  intro full
  have all := part.eq_of_length (full.trans List.length_zipIdx.symm)
  have succeeds := List.takeWhile_eq_self_iff.mp all group (mem_of_find?_eq_some fails)
  have failed_here := find?_some fails
  simp only [decide_not, Bool.not_eq_true', decide_eq_false_iff_not] at succeeds
  exact succeeds (of_decide_eq_true failed_here)

theorem wakeupMapped_eq (hst : p.modelStates m = some st) (n : Nat)
    (groups : List (Nat × List Nat)) (failed : List Nat) :
    ∃ mapped, (∀ d, mapped d = p.mapped m d ∪ (pagesAt (firstGroups groups failed) d).toFinset) ∧
      p.wakeupMapped m n groups failed =
        let q := { p with mapped := update p.mapped m mapped }
        if (firstGroups groups failed).length < groups.length then .ok q
        else if n = 0 then .ok (q.setModel m { st with isSleeping := false })
        else if groups.length ∈ failed then .ok q
        else .ok ((q.setWeights m n).setModel m { st with isSleeping := false }) := by
  obtain ⟨mapped, folded, hmapped⟩ :=
    foldl_mapVirtPages (p := p) (m := m) (firstGroups groups failed)
  refine ⟨mapped, hmapped, ?_⟩
  rw [firstGroups, foldl_map] at folded
  rw [wakeupMapped, hst]
  dsimp only
  rw [folded, firstGroups, length_map]

def woken (p : PageAllocator) (m : String) (st : ModelState) : PageAllocator :=
  { p with
    modelStates := update p.modelStates m (some { st with isSleeping := false })
    workerPagesUsed := fun w => p.workerPagesUsed w + p.consumed st w
    mapped := update p.mapped m fun d =>
      p.mapped m d ∪ (pagesAt (p.collectPages st) d).toFinset
    weightsResident := if st.weightPagesAllocated = 0 then p.weightsResident
      else update p.weightsResident m st.weightPagesAllocated }

/-- The state after a failed `wakeup_model`, given what the workers did. -/
def unwoken (p : PageAllocator) (m : String) (st : ModelState) (mapped : Nat → Finset Nat)
    (weights : String → Nat) : PageAllocator :=
  { p with
    workerPagesUsed := fun w => p.workerPagesUsed w + p.consumed st w
    mapped := update p.mapped m mapped, weightsResident := weights }

theorem wakeup_of_room (hst : p.modelStates m = some st) (asleep : st.isSleeping = true)
    (room : p.hasRoom st = true) (b : Broadcasts) : p.wakeup m b =
      ((p.consumePhyPages (p.consumed st)).wakeupMapped m st.weightPagesAllocated
        (p.collectPages st) b.failed).map
          (wakeupReturns m st.weightPagesAllocated (p.collectPages st) b) := by
  have awake : ¬ st.isSleeping = false := by simp [asleep]
  rw [wakeup, hst]
  dsimp only
  rw [if_neg awake, if_pos room]

theorem wakeup_without_failure (hst : p.modelStates m = some st) (asleep : st.isSleeping = true)
    (room : p.hasRoom st = true) : p.wakeup m {} = .ok (true, p.woken m st) := by
  have none_fails : (p.collectPages st).zipIdx.find?
      (fun group => decide (group.2 ∈ ({} : Broadcasts).failed)) = none := by
    apply List.find?_eq_none.mpr
    intro group _ fails
    exact absurd (of_decide_eq_true fails) not_mem_nil
  obtain ⟨mapped, hmapped, ran⟩ := wakeupMapped_eq (p := p.consumePhyPages (p.consumed st)) hst
    st.weightPagesAllocated (p.collectPages st) ({} : Broadcasts).failed
  rw [firstGroups_of_none none_fails] at hmapped ran
  rw [wakeup_of_room hst asleep room, ran]
  have mapped_eq : mapped = fun d => p.mapped m d ∪ (pagesAt (p.collectPages st) d).toFinset :=
    funext hmapped
  rw [if_neg (Nat.lt_irrefl _)]
  by_cases weightless : st.weightPagesAllocated = 0
  · rw [if_pos weightless]
    show Except.ok (wakeupReturns _ _ _ _ _) = _
    rw [wakeupReturns, none_fails]
    rw [if_neg (fun h => h.1 weightless), woken, if_pos weightless, ← mapped_eq]
    rfl
  · rw [if_neg weightless]
    show Except.ok (wakeupReturns _ _ _ _ _) = _
    rw [wakeupReturns, none_fails]
    rw [if_neg (fun h => absurd h.2 not_mem_nil), woken, if_neg weightless, ← mapped_eq]
    rfl

/-- What a failed wakeup can have done. -/
structure Unwoken (p : PageAllocator) (m : String) (st : ModelState) (mapped : Nat → Finset Nat)
    (weights : String → Nat) : Prop where
  kept : ∀ d, p.mapped m d ⊆ mapped d
  known : ∀ d, mapped d ⊆ p.mapped m d ∪ (pagesAt (p.collectPages st) d).toFinset
  weights : weights = p.weightsResident ∨ st.weightPagesAllocated ≠ 0 ∧
    weights = update p.weightsResident m st.weightPagesAllocated

theorem wakeup_with_failure (hst : p.modelStates m = some st) (asleep : st.isSleeping = true)
    (room : p.hasRoom st = true) (h : p.wakeup m b = .ok (false, q)) :
    ∃ mapped weights, q = p.unwoken m st mapped weights ∧ Unwoken p m st mapped weights := by
  obtain ⟨mapped, hmapped, ran⟩ := wakeupMapped_eq (p := p.consumePhyPages (p.consumed st)) hst
    st.weightPagesAllocated (p.collectPages st) b.failed
  have known : ∀ d, mapped d ⊆ p.mapped m d ∪ (pagesAt (p.collectPages st) d).toFinset := by
    intro d page here
    rw [hmapped] at here
    cases Finset.mem_union.mp here with
    | inl old => exact Finset.mem_union_left _ old
    | inr new =>
        apply Finset.mem_union_right
        exact List.mem_toFinset.mpr
          (mem_pagesAt_of_subset (firstGroups_subset _ _) (List.mem_toFinset.mp new))
  have kept : ∀ d, p.mapped m d ⊆ mapped d := by
    intro d
    rw [hmapped]
    exact Finset.subset_union_left
  rw [wakeup_of_room hst asleep room, ran] at h
  cases fails : (p.collectPages st).zipIdx.find? (fun group => decide (group.2 ∈ b.failed)) with
  | some group =>
      rw [if_pos (length_firstGroups_lt fails)] at h
      have done : wakeupReturns m st.weightPagesAllocated (p.collectPages st) b _ = (false, q) :=
        Except.ok.inj h
      rw [wakeupReturns, fails] at done
      cases done
      have mem : group.1 ∈ p.collectPages st := by
        have here : group.1 ∈ (p.collectPages st).zipIdx.map Prod.fst :=
          List.mem_map.mpr ⟨group, mem_of_find?_eq_some fails, rfl⟩
        rwa [zipIdx_map_fst] at here
      refine ⟨update mapped group.1.1 (mapped group.1.1 ∪
        (group.1.2.filter (· ∈ b.partly group.2)).toFinset), p.weightsResident, ?_, ?_,
          ?_, .inl rfl⟩
      · rw [mapVirtPages]
        dsimp only
        rw [update_self, update_idem]
        rfl
      · intro d
        by_cases here : d = group.1.1
        · subst here
          rw [update_self]
          exact (kept _).trans Finset.subset_union_left
        · rw [update_of_ne here]
          exact kept d
      · intro d
        by_cases here : d = group.1.1
        · subst here
          rw [update_self]
          apply Finset.union_subset (known _)
          intro page new
          apply Finset.mem_union_right
          apply List.mem_toFinset.mpr
          apply List.mem_flatMap.mpr
          refine ⟨group.1, mem, ?_⟩
          rw [if_pos rfl]
          exact mem_of_mem_filter (List.mem_toFinset.mp new)
        · rw [update_of_ne here]
          exact known d
  | none =>
      rw [firstGroups_of_none fails, if_neg (Nat.lt_irrefl _)] at h
      by_cases weightless : st.weightPagesAllocated = 0
      · rw [if_pos weightless] at h
        have done : wakeupReturns m st.weightPagesAllocated (p.collectPages st) b _ = (false, q) :=
          Except.ok.inj h
        rw [wakeupReturns, fails] at done
        rw [if_neg (fun h => h.1 weightless)] at done
        cases done
      · rw [if_neg weightless] at h
        by_cases weights_fail : (p.collectPages st).length ∈ b.failed
        · rw [if_pos weights_fail] at h
          have done : wakeupReturns m st.weightPagesAllocated (p.collectPages st) b _ =
            (false, q) := Except.ok.inj h
          rw [wakeupReturns, fails] at done
          rw [if_pos ⟨weightless, weights_fail⟩] at done
          refine ⟨mapped, if b.weightsDone then
            update p.weightsResident m st.weightPagesAllocated else p.weightsResident,
            ?_, kept, known, ?_⟩
          · rw [← (Prod.mk.inj done).2]
            split <;> rfl
          · split
            · exact .inr ⟨weightless, rfl⟩
            · exact .inl rfl
        · rw [if_neg weights_fail] at h
          have done : wakeupReturns m st.weightPagesAllocated (p.collectPages st) b _ =
            (false, q) := Except.ok.inj h
          rw [wakeupReturns, fails] at done
          rw [if_neg (fun h => weights_fail h.2)] at done
          cases done

/-- A wakeup that failed: the lists are kept, the model is still asleep, and the counters keep
all pages of the call, which covers whatever the workers did. When no broadcast fails any more, a
second wakeup needs room for the pages once more, and counts them twice. -/
structure FailedWakeup (p : PageAllocator) (m : String) (st : ModelState) (q : PageAllocator) :
    Prop where
  kept : ListsKept p q
  others : ∀ m', m' ≠ m → ∀ w, q.residentOf m' w = p.residentOf m' w
  asleep : q.modelStates m = some st
  used : ∀ w, q.workerPagesUsed w = p.workerPagesUsed w + p.consumed st w
  covered : ∀ w, p.workerPagesUsed w + q.residentOf m w ≤ q.workerPagesUsed w + p.residentOf m w
  again : ∃ r, p.wakeup m {} = .ok (true, r) ∧
    q.wakeup m {} = if q.hasRoom st then
      .ok (true, { r with workerPagesUsed := fun w => r.workerPagesUsed w + p.consumed st w })
    else .ok (false, q)

theorem listed_length (st : ModelState) (d : Nat) : (PhyView.listed st d).card =
    ((st.dpGroupPages d).reservedVirtPageList ++ (st.dpGroupPages
      d).allocatedVirtPageList).length := by
  rw [PhyView.listed, Multiset.card_add, Multiset.coe_card, Multiset.coe_card, length_append]

theorem load_of_not_lt (h : ¬ w < p.maxWorldSize) (weights : Nat) (kv : Nat → Nat) :
    p.load st weights kv w = 0 := by
  have outside : p.inWorld st w = false :=
    Bool.eq_false_iff.mpr fun inside => h (lt_maxWorldSize_of_inWorld inside)
  have elsewhere (d) : p.inDpGroup st d w = false :=
    Bool.eq_false_iff.mpr fun inside => h (lt_maxWorldSize_of_inDpGroup inside)
  rw [load, outside]
  simp [elsewhere]

theorem load_le_consumed {mapped mapped' : Nat → Finset Nat}
    (more : weights' ≤ weights + st.weightPagesAllocated)
    (known : ∀ d, mapped' d ⊆ mapped d ∪ (pagesAt (p.collectPages st) d).toFinset) (w : Nat) :
    p.load st weights' (fun d => (mapped' d).card) w ≤
      p.load st weights (fun d => (mapped d).card) w + p.consumed st w := by
  by_cases inside : w < p.maxWorldSize
  · have new : ∀ d < p.dpSize,
        (mapped' d).card ≤ (mapped d).card + (PhyView.listed st d).card := by
      intro d hd
      have card := (Finset.card_le_card (known d)).trans (Finset.card_union_le _ _)
      have listed := toFinset_card_le (pagesAt (p.collectPages st) d)
      have pages : (pagesAt (p.collectPages st) d).length ≤ _ :=
        (pagesAt_collectPages_sublist (List.Sublist.refl _) hd).length_le
      rw [listed_length]
      omega
    have total := load_le_add st more new w
    rw [← sum_groupLoad_collectPages] at total
    rw [consumed, if_pos inside]
    show _ ≤ _ + (((p.collectPages st).map (p.groupLoad st w)).sum + _)
    omega
  · rw [load_of_not_lt inside]
    exact Nat.zero_le _

theorem failedWakeup (hp : p.Partitioned) (hst : p.modelStates m = some st)
    (asleep : st.isSleeping = true) (room : p.hasRoom st = true)
    (h : p.wakeup m b = .ok (false, q)) : FailedWakeup p m st q := by
  obtain ⟨mapped, weights, rfl, done⟩ := wakeup_with_failure hst asleep room h
  have state : { st with isSleeping := true } = st := by
    cases st
    cases asleep
    rfl
  have unchanged : p.modelStates = update p.modelStates m
      (some { st with isSleeping := true }) := by
    rw [state, ← hst, update_eq_self]
  have mapped_eq : (p.unwoken m st mapped weights).mapped m = mapped :=
    update_self _ _ _
  constructor
  · exact listsKept hp hst true unchanged rfl rfl
  · intro m' ne w
    have weights_eq : weights m' = p.weightsResident m' := by
      cases done.weights with
      | inl same => rw [same]
      | inr new => rw [new.2, update_of_ne ne]
    rw [residentOf, unwoken]
    dsimp only
    rw [update_of_ne ne, weights_eq]
    rfl
  · exact hst
  · exact fun w => rfl
  · intro w
    have more : weights m ≤ p.weightsResident m + st.weightPagesAllocated := by
      cases done.weights with
      | inl same =>
          rw [same]
          exact Nat.le_add_right _ _
      | inr new =>
          rw [new.2, update_self]
          exact Nat.le_add_left _ _
    have total := load_le_consumed more done.known w
    rw [residentOf_eq hst, residentOf_eq (show (p.unwoken m st mapped weights).modelStates m =
      some st from hst), mapped_eq]
    show p.workerPagesUsed w + p.load st (weights m) _ w ≤
      p.workerPagesUsed w + p.consumed st w + _
    omega
  · refine ⟨p.woken m st, wakeup_without_failure hst asleep room, ?_⟩
    have hst' : (p.unwoken m st mapped weights).modelStates m = some st := hst
    split
    · rename_i room'
      rw [wakeup_without_failure hst' asleep room']
      have all : (fun d => mapped d ∪ (pagesAt (p.collectPages st) d).toFinset) =
          fun d => p.mapped m d ∪ (pagesAt (p.collectPages st) d).toFinset := by
        funext d
        apply Finset.Subset.antisymm
        · exact Finset.union_subset (done.known d) Finset.subset_union_right
        · exact Finset.union_subset_union_left (done.kept d)
      have all_weights : (if st.weightPagesAllocated = 0 then weights
          else update weights m st.weightPagesAllocated) =
          if st.weightPagesAllocated = 0 then p.weightsResident
          else update p.weightsResident m st.weightPagesAllocated := by
        cases done.weights with
        | inl same => rw [same]
        | inr new => rw [if_neg new.1, if_neg new.1, new.2, update_idem]
      have mappings : update (update p.mapped m mapped) m
          (fun d => (update p.mapped m mapped) m d ∪
            (pagesAt (p.collectPages st) d).toFinset) =
          update p.mapped m
            fun d => p.mapped m d ∪ (pagesAt (p.collectPages st) d).toFinset := by
        rw [update_idem, update_self, all]
      exact congrArg₂ (fun mapped weights => Except.ok (true, { p with
        modelStates := update p.modelStates m (some { st with isSleeping := false })
        workerPagesUsed := fun w => p.workerPagesUsed w + p.consumed st w + p.consumed st w
        mapped := mapped, weightsResident := weights })) mappings all_weights
    · rename_i no_room
      rw [wakeup, hst']
      dsimp only
      rw [if_neg (by simp [asleep]), if_neg no_room]

/-- Sleeps and wakeups that fail leave the lists alone and never count too few pages, in every
reachable state. -/
theorem failed_transition_keeps_count {numPhyPages dpSize maxWorldSize : Nat} {ops : List Op}
    (ran : run step (init numPhyPages dpSize maxWorldSize) ops = .ok p)
    (hst : p.modelStates m = some st) (b : Broadcasts) :
    (∀ skipWeightRelease q, p.sleepFrom m st skipWeightRelease b = .ok (false, q) →
      FailedSleep p m st skipWeightRelease b q) ∧
    (∀ q, st.isSleeping = true → p.hasRoom st = true → p.wakeup m b = .ok (false, q) →
      FailedWakeup p m st q) := by
  have hp : p.Partitioned := by
    have all : Ensures (run step (init numPhyPages dpSize maxWorldSize) ops) (fun _ => True)
        Partitioned :=
      Ensures.run (fun q op hq => partitioned_step hq op)
        (partitioned_init numPhyPages dpSize maxWorldSize)
    exact all.of_ok ran
  constructor
  · exact fun skipWeightRelease q h => sleep_keeps hp hst h
  · exact fun q asleep room h => failedWakeup hp hst asleep room h

theorem failed_transition_keeps_count_one_page :
    ∃ p q st, run step (init 8 1 1) [.registerModel "a" 1, .allocKvCachePage "a" 0, .resume 0 [],
        .resume 0 [], .sleepModel "a" true, .resume 0 []] = .ok p ∧
      p.wakeup "a" { failed := [0] } = .ok (false, q) ∧ FailedWakeup p "a" st q := by
  have closed : ∃ p q st, run step (init 8 1 1) [.registerModel "a" 1, .allocKvCachePage "a" 0,
      .resume 0 [], .resume 0 [], .sleepModel "a" true, .resume 0 []] = .ok p ∧
      p.modelStates "a" = some st ∧ st.isSleeping = true ∧ p.hasRoom st = true ∧
      p.wakeup "a" { failed := [0] } = .ok (false, q) :=
    ⟨_, _, _, rfl, rfl, rfl, rfl, rfl⟩
  obtain ⟨p, q, st, ran, hst, asleep, room, fails⟩ := closed
  exact ⟨p, q, st, ran, fails, (failed_transition_keeps_count ran hst _).2 q asleep room fails⟩

/-- A failure that can be recovered from: the pages on the lists are the mapped ones while the
model is awake and none is while it sleeps, the counters are what the workers hold, and the call
can be made again. -/
structure Recovered (call : PageAllocator → Except Stop (Bool × PageAllocator)) (m : String)
    (p q : PageAllocator) : Prop where
  lists : ∀ st, q.modelStates m = some st → ∀ d < q.dpSize, ∀ page, page ∈ q.mapped m d ↔
    st.isSleeping = false ∧ page ∈ (st.dpGroupPages d).reservedVirtPageList ++
      (st.dpGroupPages d).allocatedVirtPageList
  counters : ∀ w, q.workerPagesUsed w = q.residentPages w
  again : ∃ r, call q = .ok (true, r) ∧ call p = .ok (true, r)

/-- The page of a model whose sleep fails is mapped while the model counts as asleep, so that the
sleep cannot be tried again. A wakeup that fails and is tried again counts the page twice. -/
theorem failed_transition_not_recovered :
    (∃ p q, run step (init 8 1 1) [.registerModel "a" 1, .allocKvCachePage "a" 0, .resume 0 [],
        .resume 0 []] = .ok p ∧
      p.sleep "a" true { failed := [0] } = .ok (false, q) ∧
      ¬ Recovered (fun p => p.sleep "a" true {}) "a" p q) ∧
    (∃ p q, run step (init 8 1 1) [.registerModel "a" 1, .allocKvCachePage "a" 0, .resume 0 [],
        .resume 0 [], .sleepModel "a" true, .resume 0 []] = .ok p ∧
      p.wakeup "a" { failed := [0] } = .ok (false, q) ∧
      ¬ Recovered (fun p => p.wakeup "a" {}) "a" p q) := by
  refine ⟨⟨_, _, rfl, rfl, ?_⟩, ⟨_, _, rfl, rfl, ?_⟩⟩
  · intro h
    obtain ⟨r, again, -⟩ := h.again
    have returned : (Except.ok false : Except Stop Bool) = .ok true :=
      congrArg (Except.map Prod.fst) again
    cases returned
  · intro h
    obtain ⟨r, again, first⟩ := h.again
    have twice : (Except.ok 4 : Except Stop Nat) = .ok (r.workerPagesUsed 0) :=
      congrArg (Except.map fun answer : Bool × PageAllocator => answer.2.workerPagesUsed 0) again
    have once : (Except.ok 2 : Except Stop Nat) = .ok (r.workerPagesUsed 0) :=
      congrArg (Except.map fun answer : Bool × PageAllocator => answer.2.workerPagesUsed 0) first
    cases twice.trans once.symm

end PageAllocator

end Xllm
