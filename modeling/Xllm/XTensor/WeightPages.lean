import Xllm.Lib.Keyed
import Xllm.XTensor.PoolPartition
import Mathlib.Data.List.ReduceOption
import Mathlib.Data.List.Sort

/-!
# Weight pages and the partition of the pool

The pages that a thread takes for the weights of a model are recorded for the model in a
later section. `Custody` names a holder for every page and says that the pool, the callers,
the threads and the models list exactly the pages they hold. Every section keeps it, in any
order of the threads.

The tensor over fallback pages always has an address when the driver reports success, so no
call fails after it has taken pages.
-/

namespace Xllm.PagePool

open Contract Owners List

def pageBytes (pageSize : Nat) (i : Int) : List Nat := List.range' (i.toNat * pageSize) pageSize

def segmentBytes (segment : Nat × Nat) : List Nat := List.range' segment.1 segment.2

/-- Merging the pages of a list behind a segment that ends where `previous` ends. -/
theorem mergeAdjacent_bytes {pageSize : Nat} {previous : Int} {segOffset segSize : Nat}
    {l : List Int} (hprevious : 0 ≤ previous) (hl : ∀ i ∈ l, 0 ≤ i)
    (hend : segOffset + segSize = (previous.toNat + 1) * pageSize) :
    (mergeAdjacent pageSize previous segOffset segSize l).flatMap segmentBytes =
      List.range' segOffset segSize ++ l.flatMap (pageBytes pageSize) := by
  induction l generalizing previous segOffset segSize with
  | nil => simp [mergeAdjacent, segmentBytes]
  | cons i rest ih =>
      have hpos := hl i mem_cons_self
      have hrest : ∀ j ∈ rest, 0 ≤ j := fun j hj => hl j (mem_cons_of_mem i hj)
      simp only [mergeAdjacent]
      split
      · rename_i hnext
        have hi : i.toNat = previous.toNat + 1 := by omega
        have hgrow : segOffset + (segSize + pageSize) = (i.toNat + 1) * pageSize := by
          rw [← Nat.add_assoc, hend, hi, ← Nat.succ_mul]
        rw [ih hpos hrest hgrow, ← range'_append_1, hend, flatMap_cons, pageBytes, hi,
          append_assoc]
      · have hown : i.toNat * pageSize + pageSize = (i.toNat + 1) * pageSize :=
          (Nat.succ_mul _ _).symm
        rw [flatMap_cons, ih hpos hrest hown]
        rfl

variable {ids : List Int}

theorem fallbackSegments_bytes {pageSize : Nat} (hids : ∀ i ∈ ids, 0 ≤ i) :
    ((fallbackSegments pageSize ids).flatMap segmentBytes).Perm
      (ids.flatMap (pageBytes pageSize)) := by
  have hperm := mergeSort_perm ids (fun i j => i ≤ j)
  simp only [fallbackSegments]
  split
  · rename_i hsorted
    rw [hsorted] at hperm
    rw [List.nil_perm.mp hperm]
    exact List.Perm.refl _
  · rename_i i rest hsorted
    rw [hsorted] at hperm
    have hall : ∀ j ∈ i :: rest, 0 ≤ j := fun j hj => hids j (hperm.mem_iff.mp hj)
    have hown : i.toNat * pageSize + pageSize = (i.toNat + 1) * pageSize :=
      (Nat.succ_mul _ _).symm
    rw [mergeAdjacent_bytes (hall i mem_cons_self)
      (fun j hj => hall j (mem_cons_of_mem i hj)) hown]
    exact hperm.flatMap_right (pageBytes pageSize)

def Task.pages : Task → List Int
  | .contiguousTaken _ startPage numPages => pageRange startPage numPages
  | .fallbackTaken _ pageIds => pageIds
  | .fallbackFailed _ pageIds => pageIds
  | .fallbackFreed _ pageIds => pageIds
  | _ => []

/-- A call has not failed after it had taken pages. -/
def Task.Orderly : Task → Prop
  | .contiguousTaken _ startPage numPages => 0 ≤ startPage ∧ 0 < numPages
  | .fallbackTaken _ pageIds => pageIds ≠ []
  | .fallbackFailed _ _ => False
  | .fallbackFreed _ _ => False
  | .failed took => took = []
  | _ => True

def ModelTensors.pages (tensors : ModelTensors) : List Int :=
  if tensors.weightNumPages = 0 then []
  else
    match tensors.usingWeightXtensor, tensors.weightXtensor with
    | true, some x => x.preallocatedPageIds
    | _, _ => pageRange tensors.weightStartPageId tensors.weightNumPages

/-- The records that the allocator writes. -/
inductive Recorded (pageSize : Nat) : ModelTensors → Prop
  | empty : Recorded pageSize {}
  | contiguous {startPage : Int} {numPages : Nat} (inside : 0 ≤ startPage) (some : 0 < numPages) :
      Recorded pageSize
        { weightStartPageId := startPage
          weightNumPages := numPages
          weightSegments := [(startPage.toNat * pageSize, numPages * pageSize)] }
  | fallback {pageIds : List Int} {v : Nat} (some : pageIds ≠ []) :
      Recorded pageSize
        { weightNumPages := pageIds.length
          usingWeightXtensor := true
          weightXtensor := .some ⟨v, pageIds⟩
          weightSegments := fallbackSegments pageSize pageIds }

variable {numPages : Nat}

theorem pages_contiguous {startPage : Int} (hsome : 0 < numPages)
    {segments : List (Nat × Nat)} :
    ({ weightStartPageId := startPage
       weightNumPages := numPages
       weightSegments := segments } : ModelTensors).pages = pageRange startPage numPages :=
  if_neg hsome.ne'

theorem pages_fallback {pageIds : List Int} (hsome : pageIds ≠ []) {vaddr : Nat}
    {segments : List (Nat × Nat)} :
    ({ weightNumPages := pageIds.length
       usingWeightXtensor := true
       weightXtensor := .some ⟨vaddr, pageIds⟩
       weightSegments := segments } : ModelTensors).pages = pageIds :=
  if_neg fun h => hsome (List.length_eq_zero_iff.mp h)

/-- Every page has a holder, and everybody lists the pages they hold. -/
structure Custody (n d : Nat) (w : World) (owner : Int → Holder) : Prop where
  held : w.pool.Held n d owner
  handed : Owns (InPool n) owner .caller (w.handed.map PhyPage.pageId)
  devices : ∀ page ∈ w.handed, page.device = d
  threads : ∀ t, Owns (InPool n) owner (.thread t) (w.threads t).pages
  models : ∀ m, Owns (InPool n) owner (.model m) (w.models m).pages
  recorded : ∀ m, Recorded w.pageSize (w.models m)
  orderly : ∀ t, (w.threads t).Orderly

def Kept (n d : Nat) (w : World) : Prop := ∃ owner, Custody n d w owner

variable {n d : Nat} {w : World} {owner : Int → Holder} {t : Nat} {m : String}
  {pool : PhyPagePool}

theorem Custody.popFront (h : Custody n d w owner) {i : Int} {rest : List Int}
    (hfree : w.pool.freePageIds = i :: rest) :
    w.pool.allPages i = some ⟨d, i⟩ ∧
      Custody n d { w with pool := w.pool.popFront i rest, handed := w.handed ++ [⟨d, i⟩] }
        (assign owner [i] .caller) := by
  obtain ⟨hpage, hheld⟩ := h.held.popFront hfree
  have hsub : [i] ⊆ w.pool.freePageIds := by simp [hfree]
  refine ⟨hpage, hheld, ?_, ?_, ?_, ?_, h.recorded, h.orderly⟩
  · have hmore := h.handed.receive_from h.held.free (by simp) (nodup_singleton i) hsub
    apply hmore.perm
    rw [map_append]
    exact perm_append_comm
  · intro page hpage
    cases List.mem_append.mp hpage with
    | inl hold => exact h.devices page hold
    | inr hnew => rw [List.mem_singleton.mp hnew]
  · intro t
    exact (h.threads t).bystander h.held.free hsub (by simp) (by simp)
  · intro m
    exact (h.models m).bystander h.held.free hsub (by simp) (by simp)

theorem Custody.popPages (count : Nat) (h : Custody n d w owner) :
    Kept n d { w with
      pool := (w.pool.popPages count).2
      handed := w.handed ++ (w.pool.popPages count).1.reduceOption } := by
  induction count generalizing w owner with
  | zero =>
      refine ⟨owner, ?_⟩
      simpa [PhyPagePool.popPages] using h
  | succ count ih =>
      simp only [PhyPagePool.popPages]
      split
      · refine ⟨owner, ?_⟩
        simpa using h
      · rename_i i rest hfree
        obtain ⟨hpage, hnext⟩ := h.popFront hfree
        have hlast := ih hnext
        simpa [hpage] using hlast

theorem Custody.putPage {page : PhyPage} {rest : List PhyPage}
    (h : Custody n d { w with handed := page :: rest } owner) : Yields (w.pool.putPage page)
      (fun pool => Kept n d { w with pool, handed := rest }) := by
  have hmem : page.pageId ∈ (page :: rest).map PhyPage.pageId := by simp
  have hsub : [page.pageId] ⊆ (page :: rest).map PhyPage.pageId := by simp
  have hout : owner page.pageId ≠ .pool := by
    rw [h.handed.owner_eq hmem]
    simp
  have hput := h.held.putPage (h.devices page mem_cons_self) (h.handed.universe hmem) hout
  refine hput.mono_post fun pool hpool => ⟨_, hpool, ?_, ?_, ?_, ?_, h.recorded, h.orderly⟩
  · exact Owns.give_front (t := [page.pageId]) h.handed (by simp)
  · intro other hother
    exact h.devices other (mem_cons_of_mem page hother)
  · intro t
    exact (h.threads t).bystander h.handed hsub (by simp) (by simp)
  · intro m
    exact (h.models m).bystander h.handed hsub (by simp) (by simp)

theorem Custody.putPages {pages : List (Option PhyPage)} {rest : List PhyPage}
    (h : Custody n d { w with handed := pages.reduceOption ++ rest } owner) :
    Yields (w.pool.putPages pages) (fun pool => Kept n d { w with pool, handed := rest }) := by
  induction pages generalizing w owner with
  | nil => exact ⟨owner, h⟩
  | cons page pages ih =>
      cases page with
      | none => exact ih h
      | some page =>
          refine Ensures.bind (Custody.putPage h) fun pool hpool => ?_
          obtain ⟨owner', hnext⟩ := hpool
          exact ih (w := { w with pool }) hnext

theorem Custody.perm_handed (h : Custody n d w owner) {l : List PhyPage} (hl : l.Perm w.handed) :
    Custody n d { w with handed := l } owner where
  held := h.held
  handed := h.handed.perm (hl.map _)
  devices := fun page hpage => h.devices page (hl.mem_iff.mp hpage)
  threads := h.threads
  models := h.models
  recorded := h.recorded
  orderly := h.orderly

theorem release_perm (nodup : (w.handed.map PhyPage.pageId).Nodup) (i : Int) :
    ((w.release i).1.toList ++ (w.release i).2.handed).Perm w.handed := by
  by_cases hi : i ∈ w.handed.map PhyPage.pageId
  · obtain ⟨page, hpage, rfl⟩ := List.mem_map.mp hi
    simp only [World.release, Keyed.find?_key nodup hpage]
    exact (Keyed.perm_cons_filter_key nodup hpage).symm
  · have hall : w.handed.filter (·.pageId != i) = w.handed := by
      apply List.filter_eq_self.mpr
      intro page hpage
      have hne : page.pageId ≠ i := fun heq => hi (List.mem_map.mpr ⟨page, hpage, heq⟩)
      simpa using hne
    simp [World.release, Keyed.find?_other hi, hall]

theorem releaseAll_perm (nodup : (w.handed.map PhyPage.pageId).Nodup) (ids : List Int) :
    ((w.releaseAll ids).1.reduceOption ++ (w.releaseAll ids).2.handed).Perm w.handed ∧
      (w.releaseAll ids).2 = { w with handed := (w.releaseAll ids).2.handed } := by
  induction ids generalizing w with
  | nil => simp [World.releaseAll]
  | cons i ids ih =>
      have hfirst := release_perm nodup i
      have hrest : ((w.release i).2.handed.map PhyPage.pageId).Nodup := by
        exact List.Nodup.sublist ((filter_sublist).map _) nodup
      obtain ⟨hperm, hsame⟩ := ih hrest
      simp only [World.releaseAll]
      refine ⟨?_, ?_⟩
      · refine List.Perm.trans ?_ hfirst
        cases hpage : (w.release i).1 with
        | none => simpa using hperm
        | some page => simpa using hperm
      · rw [hsame]
        rfl

theorem PhyPagePool.Held.pass (h : pool.Held n d owner) {giver receiver : Holder}
    (hids : ∀ i ∈ ids, owner i = giver) (hgiver : giver ≠ .pool ∧ giver ≠ .caller)
    (hreceiver : receiver ≠ .pool) : pool.Held n d (assign owner ids receiver) where
  initialized := h.initialized
  size := h.size
  device := h.device
  free := by
    apply h.free.other _ hreceiver.symm
    intro i hi hfree
    exact hgiver.1 ((hids i hi).symm.trans (h.free.owner_eq hfree))
  allocated := by
    intro i hi
    rw [h.allocated i hi]
    by_cases hin : i ∈ ids
    · rw [assign_of_mem hin, hids i hin]
      exact iff_of_false hgiver.1 hreceiver
    · rw [assign_of_not_mem hin]
  present := by
    intro i hi hne
    by_cases hin : i ∈ ids
    · apply h.present i hi
      rw [hids i hin]
      exact hgiver.2
    · rw [assign_of_not_mem hin] at hne
      exact h.present i hi hne

theorem Custody.claim (h : Custody n d w owner) {task : Task} (hbefore : (w.threads t).pages = [])
    (horderly : task.Orderly) (nodup : task.pages.Nodup) (hsub : task.pages ⊆ w.pool.freePageIds)
    (hheld : pool.Held n d (assign owner task.pages (.thread t))) :
    Custody n d ({ w with pool }.setTask t task) (assign owner task.pages (.thread t)) where
  held := hheld
  handed := h.handed.bystander h.held.free hsub (by simp) (by simp)
  devices := h.devices
  threads := by
    intro t'
    by_cases ht : t' = t
    · subst ht
      have hmore := (h.threads t').receive_from h.held.free (by simp) nodup hsub
      rw [hbefore] at hmore
      simpa [World.setTask] using hmore
    · have hne : Holder.thread t' ≠ .thread t := fun heq => ht (Holder.thread.inj heq)
      simpa [World.setTask, ht] using (h.threads t').bystander h.held.free hsub (by simp) hne
  models := by
    intro m
    exact (h.models m).bystander h.held.free hsub (by simp) (by simp)
  recorded := h.recorded
  orderly := by
    intro t'
    by_cases ht : t' = t
    · subst ht
      simpa [World.setTask] using horderly
    · simpa [World.setTask, ht] using h.orderly t'

theorem Custody.setTask (h : Custody n d w owner) {task : Task}
    (hbefore : (w.threads t).pages = []) (horderly : task.Orderly) (hpages : task.pages = []) :
    Custody n d (w.setTask t task) owner := by
  have hnone : assign owner task.pages (.thread t) = owner := by
    rw [hpages, assign_nil]
  have hheld : w.pool.Held n d (assign owner task.pages (.thread t)) := by
    rw [hnone]
    exact h.held
  have hnext := h.claim hbefore horderly (by simp [hpages]) (by simp [hpages]) hheld
  rw [hnone] at hnext
  exact hnext

theorem Custody.vacate (h : Custody n d w owner) {receiver : Holder}
    (hreceiver : receiver = .pool ∨ receiver = .lost)
    (hheld : pool.Held n d (assign owner (w.models m).pages receiver)) :
    Custody n d ({ w with pool }.setModel m {}) (assign owner (w.models m).pages receiver) where
  held := hheld
  handed := by
    apply h.handed.bystander (h.models m) (Subset.refl _) (by simp)
    cases hreceiver with
    | inl heq => rw [heq]; simp
    | inr heq => rw [heq]; simp
  devices := h.devices
  threads := by
    intro t
    apply (h.threads t).bystander (h.models m) (Subset.refl _) (by simp)
    cases hreceiver with
    | inl heq => rw [heq]; simp
    | inr heq => rw [heq]; simp
  models := by
    intro m'
    have hout : Holder.model m' ≠ receiver := by
      cases hreceiver with
      | inl heq => rw [heq]; simp
      | inr heq => rw [heq]; simp
    by_cases hm : m' = m
    · subst hm
      simpa [World.setModel, ModelTensors.pages] using (h.models m').give_all hout
    · have hne : Holder.model m' ≠ .model m := fun heq => hm (Holder.model.inj heq)
      simpa [World.setModel, hm] using
        (h.models m').bystander (h.models m) (Subset.refl _) hne hout
  recorded := by
    intro m'
    by_cases hm : m' = m
    · subst hm
      simpa [World.setModel] using Recorded.empty
    · simpa [World.setModel, hm] using h.recorded m'
  orderly := h.orderly

theorem Custody.held_outside (h : Custody n d w owner) {i : Int}
    (hi : i ∈ (w.models m).pages) : InPool n i ∧ owner i ≠ .pool ∧ owner i ≠ .caller := by
  refine ⟨(h.models m).universe hi, ?_⟩
  rw [(h.models m).owner_eq hi]
  exact ⟨by simp, by simp⟩

theorem Custody.freeModel (h : Custody n d w owner) (m : String) :
    Yields (w.pool.freeWeightPages (w.models m).pages)
      (fun pool => Kept n d ({ w with pool }.setModel m {})) := by
  have hfree := h.held.freeWeightPages (h.models m).nodup (fun i hi => (h.held_outside hi).1)
    (fun i hi => (h.held_outside hi).2)
  exact hfree.mono_post fun pool hpool => ⟨_, h.vacate (.inl rfl) hpool⟩

/-- The tensor of a record is destroyed before a new record is written. Pages that were not
freed before are lost if they were contiguous. -/
theorem Custody.reset (h : Custody n d w owner) (m : String) :
    Yields (XTensor.reset (w.models m).weightXtensor w.pool)
      (fun pool => Kept n d ({ w with pool }.setModel m {})) := by
  have hfree := h.freeModel m
  have hlost : Kept n d (w.setModel m {}) := by
    have hpassed : w.pool.Held n d (assign owner (w.models m).pages .lost) :=
      h.held.pass (fun i hi => (h.models m).owner_eq hi) ⟨by simp, by simp⟩ (by simp)
    exact ⟨_, h.vacate (.inr rfl) hpassed⟩
  have hrecorded := h.recorded m
  generalize hr : w.models m = tensors at hrecorded hfree
  cases hrecorded with
  | empty => exact hlost
  | contiguous => exact hlost
  | fallback hsome =>
      rw [pages_fallback hsome] at hfree
      exact hfree

theorem Custody.record (h : Custody n d w owner) {tensors : ModelTensors}
    (hbefore : w.models m = {}) (hrecorded : Recorded w.pageSize tensors)
    (hpages : tensors.pages = (w.threads t).pages) :
    Kept n d ((w.setModel m tensors).setTask t .idle) := by
  have hnone : (w.models m).pages = [] := by rw [hbefore]; rfl
  have hself : (w.threads t).pages ⊆ (w.threads t).pages := Subset.refl _
  refine ⟨assign owner (w.threads t).pages (.model m), ?_, ?_, h.devices, ?_, ?_, ?_, ?_⟩
  · exact h.held.pass (fun i hi => (h.threads t).owner_eq hi) ⟨by simp, by simp⟩ (by simp)
  · exact h.handed.bystander (h.threads t) hself (by simp) (by simp)
  · intro t'
    by_cases ht : t' = t
    · subst ht
      have hgiven : Holder.thread t' ≠ .model m := by simp
      simpa [World.setTask, Task.pages] using (h.threads t').give_all hgiven
    · have hne : Holder.thread t' ≠ .thread t := fun heq => ht (Holder.thread.inj heq)
      simpa [World.setTask, World.setModel, ht] using
        (h.threads t').bystander (h.threads t) hself hne (by simp)
  · intro m'
    by_cases hm : m' = m
    · subst hm
      have hmore := (h.models m').receive_from (h.threads t) (by simp) (h.threads t).nodup hself
      rw [hnone] at hmore
      simpa [World.setTask, World.setModel, hpages] using hmore
    · have hne : Holder.model m' ≠ .model m := fun heq => hm (Holder.model.inj heq)
      simpa [World.setTask, World.setModel, hm] using
        (h.models m').bystander (h.threads t) hself (by simp) hne
  · intro m'
    by_cases hm : m' = m
    · subst hm
      simpa [World.setTask, World.setModel] using hrecorded
    · simpa [World.setTask, World.setModel, hm] using h.recorded m'
  · intro t'
    by_cases ht : t' = t
    · subst ht
      simp [World.setTask, Task.Orderly]
    · simpa [World.setTask, World.setModel, ht] using h.orderly t'

theorem Custody.get (h : Custody n d w owner) : Yields w.pool.get (fun r =>
      Kept n d { w with pool := r.2, handed := w.handed ++ r.1.toList }) := by
  simp only [PhyPagePool.get, h.held.not_uninitialized, Bool.false_eq_true, if_false]
  split
  · refine ⟨owner, ?_⟩
    simpa using h
  · rename_i i rest hfree
    obtain ⟨hpage, hnext⟩ := h.popFront hfree
    refine ⟨assign owner [i] .caller, ?_⟩
    rw [hpage]
    exact hnext

theorem Custody.batchGet (h : Custody n d w owner) (count : Nat) :
    Yields (w.pool.batchGet count) (fun r =>
      Kept n d { w with pool := r.2, handed := w.handed ++ r.1.reduceOption }) := by
  have hnone : Kept n d
    { w with handed := w.handed ++ ([] : List (Option PhyPage)).reduceOption } := by
    refine ⟨owner, ?_⟩
    simpa using h
  simp only [PhyPagePool.batchGet, h.held.not_uninitialized, Bool.false_eq_true, if_false]
  split
  · exact hnone
  · split
    · exact hnone
    · exact h.popPages count

theorem Custody.put (h : Custody n d w owner) (i : Int) :
    Yields ((w.release i).2.pool.put (w.release i).1)
      (fun pool => Kept n d { (w.release i).2 with pool }) := by
  have hperm := release_perm h.handed.nodup i
  have hall := h.perm_handed hperm
  cases hpage : (w.release i).1 with
  | none =>
      rw [hpage] at hall
      exact ⟨owner, hall⟩
  | some page =>
      rw [hpage] at hall
      have hinit : (!(w.release i).2.pool.initialized) = false := h.held.not_uninitialized
      simp only [PhyPagePool.put, hinit]
      exact Custody.putPage (w := (w.release i).2) hall

theorem Custody.batchPut (h : Custody n d w owner) (ids : List Int) :
    Yields ((w.releaseAll ids).2.pool.batchPut (w.releaseAll ids).1)
      (fun pool => Kept n d { (w.releaseAll ids).2 with pool }) := by
  obtain ⟨hperm, hsame⟩ := releaseAll_perm h.handed.nodup ids
  have hall := h.perm_handed hperm
  rw [hsame]
  generalize (w.releaseAll ids).1 = pages at hall
  have hput := Custody.putPages hall
  cases pages with
  | nil => exact ⟨owner, hall⟩
  | cons page pages =>
      simpa [PhyPagePool.batchPut, h.held.initialized] using hput

theorem Custody.broadcastAllocWeightPages (h : Custody n d w owner)
    (hbefore : (w.threads t).pages = []) :
    Yields (w.broadcastAllocWeightPages t m numPages) (Kept n d) := by
  refine (h.held.allocateContiguous (.thread t) (by simp)).bind fun r hr => ?_
  cases hr with
  | inl hnone =>
      rw [hnone.1]
      exact ⟨owner, h.setTask hbefore trivial rfl⟩
  | inr hfound =>
      obtain ⟨hcount, hrun, -, hheld⟩ := hfound
      have hpos := hrun.1
      have hfree := (h.held.freeRun_iff hcount).mp hrun
      simp only [hpos]
      have horderly : (Task.contiguousTaken m r.1 numPages).Orderly := ⟨hpos, hcount⟩
      exact ⟨_, h.claim hbefore horderly (nodup_pageRange _ _) hfree hheld⟩

theorem Custody.tryFallback (h : Custody n d w owner) (hbefore : (w.threads t).pages = []) :
    Yields (w.tryFallback t m numPages) (fun w' =>
      Kept n d w' ∧ ∀ took, w'.threads t = .failed took → took = [] ∧ w'.pool = w.pool) := by
  refine (h.held.allocatePages (.thread t) (by simp)).bind fun r hr => ?_
  cases hr with
  | inl hnone =>
      rw [hnone]
      refine ⟨⟨owner, h.setTask hbefore rfl rfl⟩, ?_⟩
      intro took htook
      simpa [World.setTask] using htook
  | inr htaken =>
      obtain ⟨hsome, nodup, hsub, hheld⟩ := htaken
      have hnonempty : r.1.isEmpty = false := by simpa using hsome
      simp only [hnonempty]
      have horderly : (Task.fallbackTaken m r.1).Orderly := hsome
      refine ⟨⟨_, h.claim hbefore horderly nodup hsub hheld⟩, ?_⟩
      intro took htook
      simp [World.setTask] at htook

@[simp] theorem setModel_setModel (tensors tensors' : ModelTensors) :
    (w.setModel m tensors).setModel m tensors' = w.setModel m tensors' := by
  simp [World.setModel]

theorem Custody.recordWeightAllocation (h : Custody n d w owner) {startPage : Int}
    (htask : w.threads t = .contiguousTaken m startPage numPages) :
    Yields (w.recordWeightAllocation m startPage numPages)
      (fun w' => Kept n d (w'.setTask t .idle)) := by
  have horderly := h.orderly t
  rw [htask] at horderly
  refine (h.reset m).bind fun pool hpool => ?_
  obtain ⟨owner', hvacant⟩ := hpool
  have hrecorded := hvacant.record (t := t) (m := m) (by simp [World.setModel])
    (Recorded.contiguous horderly.1 horderly.2) (by
      rw [pages_contiguous horderly.2]
      simp [World.setModel, htask, Task.pages])
  rw [setModel_setModel] at hrecorded
  exact hrecorded

variable {answer : VmmAnswer}

theorem create_ok (h : pool.Held n d owner) (hsome : ids ≠ [])
    (inside : ∀ i ∈ ids, InPool n i) (documented : answer.Documented) :
    Ensures (XTensor.create pool ids answer) (fun e => e = .vmm)
      (fun x => x = ⟨answer.address, ids⟩ ∧ answer.address ≠ 0) := by
  have hnonempty : ids.isEmpty = false := by simpa using hsome
  have hmapped : (ids.all fun i => decide (pool.InRange i)) = true := by
    rw [all_eq_true]
    intro i hi
    rw [decide_eq_true_iff, PhyPagePool.InRange, h.size]
    exact inside i hi
  simp only [XTensor.create, hnonempty, Bool.false_eq_true, if_false, ite_not]
  split
  · rename_i hret
    simp only [PhyPagePool.mapWithPageIds, h.not_uninitialized,
      hmapped]
    exact ⟨rfl, documented hret⟩
  · rfl

theorem Custody.recordWeightFallbackAllocation (h : Custody n d w owner)
    (htask : w.threads t = .fallbackTaken m ids) (documented : answer.Documented) :
    Ensures (w.recordWeightFallbackAllocation t m ids answer) (fun e => e = .vmm)
      (fun w' => Kept n d w' ∧ w'.threads t = .idle) := by
  have hsome := h.orderly t
  have hinside := fun i => (h.threads t).universe (i := i)
  rw [htask] at hsome hinside
  refine (create_ok h.held hsome hinside documented).bind fun x hx => ?_
  obtain ⟨rfl, haddress⟩ := hx
  refine (h.reset m).total.bind fun pool hpool => ?_
  obtain ⟨owner', hvacant⟩ := hpool
  simp only [haddress]
  refine ⟨?_, by simp [World.setTask]⟩
  have hrecorded := hvacant.record (t := t) (m := m) (by simp [World.setModel])
    (Recorded.fallback (v := answer.address) hsome) (by
      rw [pages_fallback hsome]
      simp [World.setModel, htask, Task.pages])
  rw [setModel_setModel] at hrecorded
  exact hrecorded

/-- One section of a call. A call that fails here has taken no page, and the pool is as it was
before the section. -/
theorem Custody.advance (h : Custody n d w owner) (documented : answer.Documented) :
    Ensures (w.advance t answer) (fun e => e = .vmm) (fun w' =>
      Kept n d w' ∧ ∀ took, w'.threads t = .failed took → took = [] ∧ w'.pool = w.pool) := by
  have horderly := h.orderly t
  cases htask : w.threads t with
  | idle =>
      simp only [World.advance, htask]
      refine ⟨⟨owner, h⟩, ?_⟩
      intro took htook
      rw [htask] at htook
      cases htook
  | contiguousFailed modelId numPages =>
      simp only [World.advance, htask]
      exact (h.tryFallback (by rw [htask]; rfl)).total
  | contiguousTaken modelId startPage numPages =>
      simp only [World.advance, htask]
      refine (h.recordWeightAllocation htask).total.bind fun w' hw' => ⟨hw', ?_⟩
      intro took htook
      simp [World.setTask] at htook
  | fallbackTaken modelId ids =>
      simp only [World.advance, htask]
      refine (h.recordWeightFallbackAllocation htask documented).mono_post fun w' hw' => ⟨hw'.1, ?_⟩
      intro took htook
      rw [hw'.2] at htook
      cases htook
  | fallbackFailed modelId ids =>
      rw [htask] at horderly
      exact horderly.elim
  | fallbackFreed modelId ids =>
      rw [htask] at horderly
      exact horderly.elim
  | failed took =>
      rw [htask] at horderly
      simp only [World.advance, htask]
      refine ⟨⟨owner, h⟩, ?_⟩
      intro took' htook
      rw [htask] at htook
      cases htook
      exact ⟨horderly, rfl⟩

theorem Custody.freeWeight (h : Custody n d w owner) : Yields (w.freeWeight m) (Kept n d) := by
  have hfree := h.freeModel m
  have hrecorded := h.recorded m
  simp only [World.freeWeight]
  generalize hr : w.models m = tensors at hrecorded hfree
  cases hrecorded with
  | empty => exact ⟨owner, h⟩
  | contiguous hpos hsome =>
      rw [pages_contiguous hsome] at hfree
      simp only [hsome.ne']
      exact hfree.bind fun pool hpool => hpool
  | fallback hsome =>
      rw [pages_fallback hsome] at hfree
      have hlength : ¬ _ = 0 := fun h => hsome (List.length_eq_zero_iff.mp h)
      simp only [hlength]
      exact hfree.bind fun pool hpool => hpool

theorem Kept.step (h : Kept n d w) {op : Op} (documented : op.Documented) :
    Ensures (w.step op) (fun e => e = .vmm) (Kept n d) := by
  obtain ⟨owner, h⟩ := h
  cases op with
  | init device numPages =>
      refine ⟨owner, ?_⟩
      simpa [PhyPagePool.init, h.held.initialized] using h
  | get =>
      exact h.get.total.bind fun r hr => hr
  | batchGet count =>
      exact (h.batchGet count).total.bind fun r hr => hr
  | put i =>
      exact (h.put i).total.bind fun pool hpool => hpool
  | batchPut ids =>
      exact (h.batchPut ids).total.bind fun pool hpool => hpool
  | broadcastAllocWeightPages t modelId numPages =>
      simp only [World.step]
      split
      · rename_i htask
        exact (h.broadcastAllocWeightPages (by rw [htask]; rfl)).total
      · rename_i took htask
        exact (h.broadcastAllocWeightPages (by rw [htask]; rfl)).total
      · exact ⟨owner, h⟩
  | advance t answer => exact (h.advance documented).mono_post fun w' hw' => hw'.1
  | freeWeight modelId => exact h.freeWeight.total

theorem inPool_iff_mem_pageRange {i : Int} : InPool n i ↔ i ∈ pageRange 0 n := by
  rw [mem_pageRange, Int.zero_add]
  exact Iff.rfl

theorem kept_start (pageSize device numPages : Nat) :
    Kept numPages device (World.start pageSize device numPages) := by
  have hnone : ∀ who, Holder.pool ≠ who →
      Owns (InPool numPages) (fun _ => Holder.pool) who ([] : List Int) := by
    intro who hne
    refine ⟨nodup_nil, fun i => ?_⟩
    exact iff_of_false not_mem_nil fun h => hne h.2
  refine ⟨fun _ => .pool, ⟨rfl, rfl, rfl, ?_, ?_, ?_⟩, ?_, ?_, ?_, ?_, ?_, ?_⟩
  · refine ⟨nodup_pageRange 0 numPages, fun i => ?_⟩
    rw [inPool_iff_mem_pageRange]
    exact (and_iff_left rfl).symm
  · intro i _
    exact iff_of_true rfl rfl
  · intro i hi _
    exact if_pos hi
  · exact hnone _ (by simp)
  · intro page hpage
    exact absurd hpage not_mem_nil
  · intro t
    exact hnone _ (by simp)
  · intro m
    exact hnone _ (by simp)
  · intro m
    exact .empty
  · intro t
    exact trivial

def World.pagesOf (w : World) : Holder → List Int
  | .pool => w.pool.freePageIds
  | .caller => w.handed.map PhyPage.pageId
  | .thread t => (w.threads t).pages
  | .model m => (w.models m).pages
  | .lost => []

structure World.Partitioned (w : World) : Prop where
  nodup_free : w.pool.freePageIds.Nodup
  mem_free_iff : ∀ i, i ∈ w.pool.freePageIds ↔
    w.pool.InRange i ∧ w.pool.pageAllocated i = false
  nodup_pages : ∀ who, (w.pagesOf who).Nodup
  disjoint_pages : ∀ who who', who ≠ who' → (w.pagesOf who).Disjoint (w.pagesOf who')
  /-- A contiguous allocation succeeds if and only if there is a run of free pages, and it
  returns the right-most one. -/
  contiguous : ∀ count, Ensures (w.pool.allocateContiguousFromRight count) (fun _ => False)
    (fun r => (0 ≤ r.1 ↔ 0 < count ∧ ∃ start, w.pool.FreeRun start count) ∧
      (0 ≤ r.1 → w.pool.FreeRun r.1 count ∧
        ∀ start, w.pool.FreeRun start count → start ≤ r.1))
  segments : ∀ m x, (w.models m).weightXtensor = some x →
    ((w.models m).weightSegments.flatMap segmentBytes).Perm
      (x.preallocatedPageIds.flatMap (pageBytes w.pageSize))
  /-- A fallback that has failed took no page, and none changed hands when it failed. -/
  failed : ∀ t took, w.threads t = .failed took → took = []
  failing : ∀ t answer, answer.Documented → Ensures (w.advance t answer) (fun e => e = .vmm)
    (fun w' => ∀ took, w'.threads t = .failed took → took = [] ∧ w'.pool = w.pool)

theorem Custody.owns (h : Custody n d w owner) {who : Holder} (hwho : who ≠ .lost) :
    Owns (InPool n) owner who (w.pagesOf who) := by
  cases who with
  | pool => exact h.held.free
  | caller => exact h.handed
  | thread t => exact h.threads t
  | model m => exact h.models m
  | lost => exact absurd rfl hwho

theorem Custody.partitioned (h : Custody n d w owner) : w.Partitioned where
  nodup_free := h.held.free.nodup
  mem_free_iff := h.held.mem_free_iff
  nodup_pages := by
    intro who
    by_cases hwho : who = .lost
    · rw [hwho]
      exact nodup_nil
    · exact (h.owns hwho).nodup
  disjoint_pages := by
    intro who who' hne
    by_cases hwho : who = .lost
    · rw [hwho]
      exact disjoint_nil_left _
    · by_cases hwho' : who' = .lost
      · rw [hwho']
        exact disjoint_nil_right _
      · exact (h.owns hwho).disjoint (h.owns hwho') hne
  contiguous := by
    intro count
    refine (h.held.allocateContiguous .lost (by simp)).mono_post fun r hr => ?_
    cases hr with
    | inl hnone =>
        rw [hnone.1]
        refine ⟨iff_of_false (by omega) ?_, fun hpos => absurd hpos (by omega)⟩
        intro hrun
        obtain ⟨hcount, start, hrun⟩ := hrun
        exact hnone.2 start ⟨hcount, hrun⟩
    | inr hfound =>
        obtain ⟨hcount, hrun, hright, -⟩ := hfound
        exact ⟨iff_of_true hrun.1 ⟨hcount, r.1, hrun⟩, fun _ => ⟨hrun, hright⟩⟩
  segments := by
    intro m x hx
    have hrecorded := h.recorded m
    have hinside := fun i => (h.models m).universe (i := i)
    generalize w.models m = tensors at hrecorded hinside hx
    cases hrecorded with
    | empty => cases hx
    | contiguous => cases hx
    | fallback hsome =>
        cases hx
        rw [pages_fallback hsome] at hinside
        exact fallbackSegments_bytes fun i hi => (hinside i hi).1
  failed := by
    intro t took htook
    have horderly := h.orderly t
    rw [htook] at horderly
    exact horderly
  failing := by
    intro t answer documented
    exact (h.advance documented).mono_post fun w' hw' => hw'.2

/-- Every run of the pool and of the allocator of weights keeps the pages partitioned. Only a
driver that reports an error can stop it. -/
theorem phyPagePool_partitions_pages (pageSize device numPages : Nat) (ops : List Op)
    (documented : ∀ op ∈ ops, op.Documented) :
    Ensures ((World.start pageSize device numPages).run ops) (fun e => e = .vmm)
      World.Partitioned := by
  have hrun := Along.ensures_run (I := Kept numPages device)
    (fun w op hw hop => hw.step hop) (kept_start pageSize device numPages)
    (along_of_forall (P := Op.Documented) documented)
  apply hrun.mono_post
  intro w hw
  obtain ⟨owner, h⟩ := hw
  exact h.partitioned

/-- Two threads allocate weights at the same time, and the pages that are left for the second
model, 5, 4 and 0, are not adjacent. -/
theorem phyPagePool_partitions_pages_fallback :
    Ensures ((World.start 2 0 6).run
        [.get, .broadcastAllocWeightPages 0 "a" 2, .get, .advance 0 ⟨0, 8⟩, .put 0,
          .broadcastAllocWeightPages 1 "b" 2, .freeWeight "a",
          .broadcastAllocWeightPages 0 "c" 3, .advance 1 ⟨0, 8⟩, .advance 0 ⟨0, 8⟩,
          .advance 0 ⟨0, 8⟩])
      (fun e => e = .vmm) World.Partitioned :=
  phyPagePool_partitions_pages 2 0 6 _ (by decide)

end Xllm.PagePool
