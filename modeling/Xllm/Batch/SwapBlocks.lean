import Xllm.Batch.InputBuilder
import Xllm.Lib.Copies
import Mathlib.Data.List.Sort

/-!
# Grouping the block copies of a batch

`process_swap_block_infos` hands the block copies that beam search recorded to the model
input. With the copy kernel they are sorted by their source and grouped: the kernel reads
one source for each group and writes the destinations of the group. A CUDA build first
looks for copies that are in each other's way, and then sends the sorted list without the
groups. Without the kernel the list is sent as it was recorded.
-/

namespace Xllm

open Copies List

/-- What `process_swap_block_infos` leaves in the model input. -/
structure SwapOutput where
  swapBlocks : List (Int × Int) := []
  srcBlockIndices : List Int := []
  dstBlockIndices : List Int := []
  cumSum : List Nat := []
  deriving DecidableEq

/-- `std::sort` by `src_block_id`: it does not say in which order copies of one source end up. -/
structure SourceSort where
  sort : List (Int × Int) → List (Int × Int)
  perm : ∀ infos, (sort infos).Perm infos
  sorted : ∀ infos, (sort infos).Pairwise fun a b => a.1 ≤ b.1

namespace SourceSort

instance : Std.Total fun a b : Int × Int => a.1 ≤ b.1 := ⟨fun a b => le_total a.1 b.1⟩

instance : IsTrans (Int × Int) fun a b => a.1 ≤ b.1 := ⟨fun _ _ _ => le_trans⟩

def stable : SourceSort where
  sort infos := infos.insertionSort fun a b => a.1 ≤ b.1
  perm infos := perm_insertionSort _ infos
  sorted infos := pairwise_insertionSort _ infos

end SourceSort

/-- The vectors that the loop over the sorted copies fills. -/
structure Grouping where
  srcIndices : List Int
  dstIndices : List Int
  cumSum : List Nat
  currentSrc : Int

namespace Grouping

/-- The first copy opens the first group. -/
def start (block : Int × Int) : Grouping := ⟨[block.1], [block.2], [], block.1⟩

/-- The `i`-th copy: another source closes the group. -/
def step (g : Grouping) (block : Int × Int) (i : Nat) : Grouping :=
  if block.1 ≠ g.currentSrc then
    ⟨g.srcIndices ++ [block.1], g.dstIndices ++ [block.2], g.cumSum ++ [i], block.1⟩
  else { g with dstIndices := g.dstIndices ++ [block.2] }

def group (block : Int × Int) (rest : List (Int × Int)) : Grouping :=
  (rest.zipIdx 1).foldl (fun g entry => g.step entry.1 entry.2) (start block)

end Grouping

structure Overlap where
  dstToSrc : List (Int × Int)
  hasOverlap : Bool

namespace Overlap

/-- One copy: `emplace` keeps the source that a destination already has. -/
def step (srcSet : List Int) (o : Overlap) (block : Int × Int) : Overlap :=
  let written := o.dstToSrc.lookup block.2
  { dstToSrc := if written.isSome then o.dstToSrc else o.dstToSrc ++ [(block.2, block.1)]
    hasOverlap := o.hasOverlap || written.any (· != block.1) ||
      (srcSet.contains block.2 && block.2 != block.1) }

def test (blocks : List (Int × Int)) : Bool :=
  (blocks.foldl (step (blocks.map Prod.fst)) ⟨[], false⟩).hasOverlap

end Overlap

/-- `process_swap_block_infos`. The vectors of the input are empty before. -/
def processSwapBlockInfos (platform : Platform) (enableBlockCopyKernel : Bool) (std : SourceSort)
    (infos : List (Int × Int)) : SwapOutput :=
  if enableBlockCopyKernel then
    match std.sort infos with
    | [] => {}
    | block :: rest =>
        let g := Grouping.group block rest
        let cumSum := g.cumSum ++ [rest.length + 1]
        match platform with
        | .cuda =>
            if Overlap.test (block :: rest) then { swapBlocks := block :: rest }
            else ⟨block :: rest, g.srcIndices, g.dstIndices, cumSum⟩
        | _ => ⟨[], g.srcIndices, g.dstIndices, cumSum⟩
  else { swapBlocks := infos }

/-- The copies of the groups: group `g` copies its source to the destinations from
`cum_sum[g - 1]` to `cum_sum[g]`. -/
def groupCopies (dsts : List Int) : Nat → List Int → List Nat → List (Int × Int)
  | first, src :: srcs, last :: cum =>
      ((dsts.take last).drop first).map (src, ·) ++ groupCopies dsts last srcs cum
  | _, _, _ => []

namespace SwapOutput

def copies (out : SwapOutput) : List (Int × Int) :=
  groupCopies out.dstBlockIndices 0 out.srcBlockIndices out.cumSum

def Grouped (out : SwapOutput) : Prop := out.cumSum ≠ []

instance (out : SwapOutput) : Decidable out.Grouped := inferInstanceAs (Decidable (_ ≠ _))

/-- Whatever is sent has the effect of the recorded copies, and something is sent when there
is a copy. -/
structure Means (out : SwapOutput) (infos : List (Int × Int)) : Prop where
  groups : out.Grouped → ∀ {β : Type} (mem : Int → β), exec out.copies mem = exec infos mem
  list : out.swapBlocks ≠ [] → ∀ {β : Type} (mem : Int → β),
    exec out.swapBlocks mem = exec infos mem
  sent : infos ≠ [] → out.Grouped ∨ out.swapBlocks ≠ []

end SwapOutput

section Groups

variable {dsts : List Int} {first : Nat} {srcs : List Int} {cum : List Nat}

theorem groupCopies_append (more : List Int) (hcum : ∀ c ∈ cum, c ≤ dsts.length) :
    groupCopies (dsts ++ more) first srcs cum = groupCopies dsts first srcs cum := by
  induction srcs generalizing first cum with
  | nil => cases cum <;> rfl
  | cons src srcs ih =>
      cases cum with
      | nil => rfl
      | cons last cum =>
          obtain ⟨hlast, hcum⟩ := List.forall_mem_cons.mp hcum
          rw [groupCopies, groupCopies, ih hcum, take_append_of_le_length hlast]

theorem groupCopies_concat (src : Int) (last : Nat) (hlen : srcs.length = cum.length) :
    groupCopies dsts first (srcs ++ [src]) (cum ++ [last]) = groupCopies dsts first srcs cum ++
      ((dsts.take last).drop (cum.getLastD first)).map (src, ·) := by
  induction srcs generalizing first cum with
  | nil =>
      have hnil : cum = [] := eq_nil_of_length_eq_zero hlen.symm
      subst hnil
      exact append_nil _
  | cons head srcs ih =>
      cases cum with
      | nil => cases hlen
      | cons c cum =>
          rw [cons_append, cons_append, groupCopies, groupCopies,
            ih (Nat.succ.inj hlen), append_assoc, getLastD_cons]

end Groups

namespace Grouping

/-- What the loop has built after the copies `done`: the closed groups stand for the copies up
to the last cut, and the copies behind it share the current source. -/
structure Covers (g : Grouping) (done : List (Int × Int)) : Prop where
  dstIndices : g.dstIndices = done.map Prod.snd
  srcIndices : g.srcIndices = g.srcIndices.dropLast ++ [g.currentSrc]
  length_eq : g.srcIndices.dropLast.length = g.cumSum.length
  cuts : ∀ c ∈ g.cumSum, c ≤ done.length
  closed : groupCopies g.dstIndices 0 g.srcIndices.dropLast g.cumSum =
    done.take (g.cumSum.getLastD 0)
  current : ∀ block ∈ done.drop (g.cumSum.getLastD 0), block.1 = g.currentSrc

variable {g : Grouping} {done : List (Int × Int)}

theorem covers_start (block : Int × Int) : (start block).Covers [block] where
  dstIndices := rfl
  srcIndices := rfl
  length_eq := rfl
  cuts := by simp [start]
  closed := rfl
  current := by simp [start]

theorem Covers.copies (h : g.Covers done) :
    groupCopies g.dstIndices 0 g.srcIndices (g.cumSum ++ [done.length]) = done := by
  have hopen : ((done.map Prod.snd).drop (g.cumSum.getLastD 0)).map (g.currentSrc, ·) =
      done.drop (g.cumSum.getLastD 0) := by
    rw [← map_drop, map_map]
    conv_rhs => rw [← map_id (done.drop _)]
    refine map_congr_left fun block hblock => ?_
    rw [Function.comp_apply, ← h.current block hblock, id_eq]
  rw [h.srcIndices, groupCopies_concat _ _ h.length_eq, h.closed, h.dstIndices,
    take_of_length_le (length_map _).le, hopen, take_append_drop]

theorem Covers.step (h : g.Covers done) (block : Int × Int) :
    (g.step block done.length).Covers (done ++ [block]) := by
  have hdst : g.dstIndices ++ [block.2] = (done ++ [block]).map Prod.snd := by
    rw [h.dstIndices, map_append, map_singleton]
  have hcut : g.cumSum.getLastD 0 ≤ done.length := by
    rcases eq_nil_or_concat g.cumSum with hnil | ⟨cuts, c, hc⟩
    · rw [hnil]
      exact Nat.zero_le _
    · rw [hc, concat_eq_append, getLastD_concat]
      exact h.cuts c (by rw [hc, concat_eq_append]; exact mem_concat_self)
  have hcuts : ∀ c ∈ g.cumSum, c ≤ (done ++ [block]).length := fun c hc =>
    (h.cuts c hc).trans (by simp)
  have hlen : ∀ c ∈ g.cumSum, c ≤ g.dstIndices.length := fun c hc => by
    rw [h.dstIndices, length_map]
    exact h.cuts c hc
  by_cases hsrc : block.1 = g.currentSrc
  · rw [Grouping.step, if_neg (not_not_intro hsrc)]
    refine ⟨hdst, h.srcIndices, h.length_eq, hcuts, ?_, ?_⟩
    · rw [groupCopies_append _ hlen, h.closed, take_append_of_le_length hcut]
    · rw [drop_append_of_le_length hcut]
      intro b hb
      rcases List.mem_append.mp hb with hb | hb
      · exact h.current b hb
      · rw [List.mem_singleton.mp hb, hsrc]
  · rw [Grouping.step, if_pos hsrc]
    have hdrop : (g.srcIndices ++ [block.1]).dropLast = g.srcIndices := dropLast_concat
    refine ⟨hdst, ?_, ?_, ?_, ?_, ?_⟩
    · rw [hdrop]
    · rw [hdrop, h.srcIndices, length_append, h.length_eq, length_append]
      rfl
    · intro c hc
      rcases List.mem_append.mp hc with hc | hc
      · exact hcuts c hc
      · rw [List.mem_singleton.mp hc]
        simp
    · have hclosed : ∀ c ∈ g.cumSum ++ [done.length], c ≤ g.dstIndices.length := by
        intro c hc
        rcases List.mem_append.mp hc with hc | hc
        · exact hlen c hc
        · rw [List.mem_singleton.mp hc, h.dstIndices, length_map]
      rw [hdrop, groupCopies_append _ hclosed, h.copies, getLastD_concat, take_left]
    · rw [getLastD_concat, drop_left]
      intro b hb
      rw [List.mem_singleton.mp hb]

theorem Covers.foldl (rest : List (Int × Int)) (h : g.Covers done) :
    ((rest.zipIdx done.length).foldl (fun g entry => g.step entry.1 entry.2) g).Covers
      (done ++ rest) := by
  induction rest generalizing g done with
  | nil => simpa using h
  | cons block rest ih =>
      have hnext := ih (h.step block)
      rw [length_append, append_assoc] at hnext
      exact hnext

/-- The grouped form of a list of copies covers all of them. -/
theorem covers_group (block : Int × Int) (rest : List (Int × Int)) :
    (group block rest).Covers (block :: rest) := (covers_start block).foldl rest

end Grouping

namespace Overlap

variable {srcSet : List Int} {o : Overlap} {done : List (Int × Int)}

/-- What the test knows after the copies `done`, when it has found no overlap. -/
structure Clear (srcSet : List Int) (o : Overlap) (done : List (Int × Int)) : Prop where
  written : ∀ block ∈ done, o.dstToSrc.lookup block.2 = some block.1
  apart : ∀ block ∈ done, block.2 ∈ srcSet → block.2 = block.1

theorem Clear.step (block : Int × Int) (h : o.hasOverlap = false → Clear srcSet o done)
    (hclear : (step srcSet o block).hasOverlap = false) :
    Clear srcSet (step srcSet o block) (done ++ [block]) := by
  simp only [Overlap.step, Bool.or_eq_false_iff] at hclear
  obtain ⟨⟨hold, hwritten⟩, hsrc⟩ := hclear
  have hdone := h hold
  have hkept : ∀ d s, o.dstToSrc.lookup d = some s →
      (Overlap.step srcSet o block).dstToSrc.lookup d = some s := by
    intro d s hd
    simp only [Overlap.step]
    split
    · exact hd
    · rw [lookup_append, hd, Option.some_or]
  constructor
  · intro b hb
    rcases List.mem_append.mp hb with hb | hb
    · exact hkept b.2 b.1 (hdone.written b hb)
    · rw [List.mem_singleton.mp hb]
      cases hlookup : o.dstToSrc.lookup block.2 with
      | some s =>
          rw [hlookup] at hwritten
          have hs : s = block.1 := by simpa using hwritten
          exact hkept block.2 block.1 (hs ▸ hlookup)
      | none =>
          simp [Overlap.step, hlookup, lookup_append]
  · intro b hb hmem
    rcases List.mem_append.mp hb with hb | hb
    · exact hdone.apart b hb hmem
    · rw [List.mem_singleton.mp hb] at hmem ⊢
      simpa [hmem] using hsrc

theorem clear_foldl (blocks : List (Int × Int)) (h : o.hasOverlap = false → Clear srcSet o done)
    (hclear : (blocks.foldl (Overlap.step srcSet) o).hasOverlap = false) :
    Clear srcSet (blocks.foldl (Overlap.step srcSet) o) (done ++ blocks) := by
  induction blocks generalizing o done with
  | nil =>
      rw [append_nil]
      exact h hclear
  | cons block blocks ih =>
      have hnext := ih (fun hstep => Clear.step block h hstep) hclear
      rw [append_assoc] at hnext
      exact hnext

/-- Copies in which the test finds no overlap commute. -/
theorem pairwise_commute {blocks : List (Int × Int)} (h : test blocks = false) :
    blocks.Pairwise Commute := by
  have hclear : Clear (blocks.map Prod.fst) _ ([] ++ blocks) :=
    clear_foldl blocks (fun _ => ⟨by simp, by simp⟩) h
  refine (pairwise_of_forall fun _ _ => trivial).imp_of_mem fun {a b} ha hb _ => ?_
  refine ⟨fun hread => ?_, fun hread => ?_, fun hdst => ?_⟩
  · exact hclear.apart a ha (hread ▸ mem_map_of_mem hb)
  · exact hclear.apart b hb (hread ▸ mem_map_of_mem ha)
  · have ha' := hclear.written a ha
    rw [hdst, hclear.written b hb] at ha'
    exact (Option.some.inj ha').symm

end Overlap

section

variable {platform : Platform} {enableBlockCopyKernel : Bool} {std : SourceSort}
variable {infos : List (Int × Int)}

/-- What the function sends: the list as recorded without the kernel, and otherwise the sorted
list, its groups, or both. A CUDA build sends groups of commuting copies only. -/
inductive Sent (platform : Platform) (std : SourceSort) (infos : List (Int × Int)) :
    SwapOutput → Prop
  | nothing (h : infos = []) : Sent platform std infos {}
  | recorded : Sent platform std infos { swapBlocks := infos }
  | sorted (h : infos ≠ []) : Sent platform std infos { swapBlocks := std.sort infos }
  | grouped (out : SwapOutput) (hgrouped : out.Grouped) (hcopies : out.copies = std.sort infos)
      (hcuda : platform = .cuda → (std.sort infos).Pairwise Commute)
      (hlist : out.swapBlocks = [] ∨ out.swapBlocks = std.sort infos) :
      Sent platform std infos out

theorem sort_eq_nil_iff : std.sort infos = [] ↔ infos = [] := by
  constructor
  · intro h
    have hperm := std.perm infos
    rw [h] at hperm
    exact hperm.nil_eq.symm
  · rintro rfl
    exact (std.perm []).eq_nil

theorem processSwapBlockInfos_sent :
    Sent platform std infos (processSwapBlockInfos platform enableBlockCopyKernel std infos) := by
  rw [processSwapBlockInfos]
  cases enableBlockCopyKernel with
  | false => exact .recorded
  | true =>
      cases hsort : std.sort infos with
      | nil => exact .nothing (sort_eq_nil_iff.mp hsort)
      | cons block rest =>
          have hne : infos ≠ [] := fun h => cons_ne_nil block rest
            (hsort.symm.trans (sort_eq_nil_iff.mpr h))
          have hcovers := Grouping.covers_group block rest
          have hcopies : ∀ list, SwapOutput.copies ⟨list, (Grouping.group block rest).srcIndices,
              (Grouping.group block rest).dstIndices,
              (Grouping.group block rest).cumSum ++ [rest.length + 1]⟩ = std.sort infos := by
            intro list
            rw [hsort]
            exact hcovers.copies
          have hgrouped : ∀ list srcs dsts cums, SwapOutput.Grouped
              ⟨list, srcs, dsts, cums ++ [rest.length + 1]⟩ := fun _ _ _ _ =>
            append_ne_nil_of_right_ne_nil _ (cons_ne_nil _ _)
          by_cases hcuda : platform = .cuda
          · subst hcuda
            cases htest : Overlap.test (block :: rest) with
            | true =>
                simp only [htest]
                rw [← hsort]
                exact .sorted hne
            | false =>
                simp only [htest]
                refine .grouped _ (hgrouped _ _ _ _) (hcopies _) (fun _ => ?_) (.inr hsort.symm)
                rw [hsort]
                exact Overlap.pairwise_commute htest
          · cases platform with
            | cuda => exact absurd rfl hcuda
            | _ =>
                exact .grouped _ (hgrouped _ _ _ _) (hcopies _) (fun h => absurd h hcuda) (.inl rfl)

variable {out : SwapOutput}

theorem Sent.copies_perm (h : Sent platform std infos out) (hgrouped : out.Grouped) :
    out.copies.Perm infos := by
  cases h with
  | nothing h => exact absurd rfl hgrouped
  | recorded => exact absurd rfl hgrouped
  | sorted h => exact absurd rfl hgrouped
  | grouped out _ hcopies => rw [hcopies]; exact std.perm infos

theorem Sent.any_order (h : Sent .cuda std infos out) (hgrouped : out.Grouped)
    {cs : List (Int × Int)} (hcs : cs.Perm out.copies) {β : Type} (mem : Int → β) :
    exec cs mem = exec infos mem := by
  have hperm := h.copies_perm hgrouped
  cases h with
  | nothing h => exact absurd rfl hgrouped
  | recorded => exact absurd rfl hgrouped
  | sorted h => exact absurd rfl hgrouped
  | grouped out _ hcopies hcuda =>
      have hcommute := hcuda rfl
      rw [← hcopies] at hcommute
      rw [exec_perm_of_commute hcs hcommute mem, exec_perm_of_commute hperm.symm hcommute mem]

theorem Sent.means (h : Sent platform std infos out)
    (hsort : ∀ {β : Type} (mem : Int → β), exec (std.sort infos) mem = exec infos mem) :
    out.Means infos := by
  cases h with
  | nothing h =>
      exact ⟨fun hgrouped => absurd rfl hgrouped, fun hlist => absurd rfl hlist,
        fun hinfos => absurd h hinfos⟩
  | recorded =>
      exact ⟨fun hgrouped => absurd rfl hgrouped, fun _ _ _ => rfl, fun hinfos => .inr hinfos⟩
  | sorted h =>
      exact ⟨fun hgrouped => absurd rfl hgrouped, fun _ _ mem => hsort mem,
        fun _ => .inr fun hnil => h (sort_eq_nil_iff.mp hnil)⟩
  | grouped out hgrouped hcopies _ hlist =>
      refine ⟨fun _ _ mem => ?_, fun hne _ mem => ?_, fun _ => .inl hgrouped⟩
      · rw [hcopies]
        exact hsort mem
      · rw [hlist.resolve_left hne]
        exact hsort mem

/-- Sorting by source keeps what the copies mean. -/
theorem exec_sort (std : SourceSort)
    (h : infos.Pairwise fun a b => Commute a b ∨ a.1 < b.1) {β : Type} (mem : Int → β) :
    exec (std.sort infos) mem = exec infos mem :=
  exec_perm (std.perm infos) (std.sorted infos)
    (h.imp fun hpair => hpair.imp_right fun hlt => not_le.mpr hlt) mem

end

end Xllm
