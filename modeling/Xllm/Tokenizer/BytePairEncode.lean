import Mathlib.Data.List.Nodup
import Xllm.Tokenizer.Tiktoken

/-!
# Incremental byte pair encoding

`byte_pair_encode` looks every rank up once and renews the ranks of two pairs when it merges
a part. At the top of its loop the vector is always the `layout` of some parts: their starts
and the present ranks of all pairs. So each round merges the leftmost lowest pair.
-/

namespace Xllm.TiktokenTokenizer

open PairMerge Parts List Option

variable {tokenizer : TiktokenTokenizer} {parts : List Part} {segs : List (List UInt8)}
variable {piece : List UInt8} {i k start : Nat} {rank : Int}

def rankOf (tokenizer : TiktokenTokenizer) (key : List UInt8) : Option Int :=
  tokenizer.encoder.lookup key

/-- The vector for some parts, with the ranks of the first `n` pairs looked up. -/
def layoutTo (tokenizer : TiktokenTokenizer) (segs : List (List UInt8)) (n : Nat) : List Part :=
  (range (segs.length + 1)).map fun i =>
    ((upTo segs i).length,
      if i < n then (pairRank tokenizer.rankOf segs i).getD kMaxRank else kMaxRank)

def layout (tokenizer : TiktokenTokenizer) (segs : List (List UInt8)) : List Part :=
  (range (segs.length + 1)).map fun i =>
    ((upTo segs i).length, (pairRank tokenizer.rankOf segs i).getD kMaxRank)

/-- The vector has the starts of some parts, whatever its ranks are. -/
def Cuts (parts : List Part) (segs : List (List UInt8)) : Prop :=
  parts.map Prod.fst = (range (segs.length + 1)).map fun i => (upTo segs i).length

section Cuts

theorem Cuts.length_eq (h : Cuts parts segs) : parts.length = segs.length + 1 := by
  have hlength := congrArg List.length h
  rwa [length_map, length_map, length_range] at hlength

theorem Cuts.getElem? (h : Cuts parts segs) (hi : i ≤ segs.length) :
    ∃ rank, parts[i]? = some ((upTo segs i).length, rank) := by
  have hlt : i < parts.length := by
    rw [h.length_eq]
    omega
  have hentry := congrArg (fun starts : List Nat => starts[i]?) h
  simp only [getElem?_map, getElem?_eq_getElem hlt,
    getElem?_range (Nat.lt_succ_of_le hi), map_some, some_inj] at hentry
  refine ⟨(parts[i]).2, ?_⟩
  rw [getElem?_eq_getElem hlt, ← hentry]

theorem cuts_layoutTo {n : Nat} : Cuts (tokenizer.layoutTo segs n) segs := by
  simp [Cuts, layoutTo]

theorem cuts_layout : Cuts (tokenizer.layout segs) segs := by
  simp [Cuts, layout]

theorem Cuts.set (h : Cuts parts segs) (hi : i ≤ segs.length) :
    Cuts (parts.set i ((upTo segs i).length, rank)) segs := by
  obtain ⟨old, hold⟩ := h.getElem? hi
  obtain ⟨hlt, hget⟩ := List.getElem?_eq_some_iff.mp hold
  rw [Cuts, map_set, ← h]
  conv_rhs => rw [← set_getElem_self
    (show i < (parts.map Prod.fst).length by simpa using hlt)]
  rw [getElem_map, hget]

theorem getRank_eq (h : Cuts parts segs) (start skip : Nat) :
    tokenizer.getRank segs.flatten parts start skip =
      some (if start + skip + 2 ≤ segs.length then
        tokenizer.rankOf (span segs start (skip + 2)) else none) := by
  rw [getRank, h.length_eq]
  by_cases hrange : start + skip + 2 ≤ segs.length
  · obtain ⟨_, hs⟩ := h.getElem? (i := start) (by omega)
    obtain ⟨_, he⟩ := h.getElem? hrange
    have hle : (upTo segs start).length ≤ (upTo segs (start + skip + 2)).length :=
      length_upTo_le (by omega)
    rw [if_pos (by omega), if_pos hrange, hs, he]
    simp only [bind_eq_bind, bind_some]
    rw [substr, if_pos ⟨hle, length_upTo_le_flatten⟩, Nat.add_assoc, extract_span]
    rfl
  · rw [if_neg (by omega), if_neg hrange]

theorem setRank_eq (h : Cuts parts segs) (hi : i ≤ segs.length) (rank : Int) :
    setRank parts i rank = some (parts.set i ((upTo segs i).length, rank)) := by
  obtain ⟨old, hold⟩ := h.getElem? hi
  rw [setRank, hold]
  rfl

end Cuts

theorem getElem?_layoutTo {n : Nat} :
    (tokenizer.layoutTo segs n)[i]? = if i ≤ segs.length then
      some ((upTo segs i).length,
        if i < n then (pairRank tokenizer.rankOf segs i).getD kMaxRank else kMaxRank)
      else none := by
  rw [layoutTo, getElem?_map]
  split
  · rename_i hi
    rw [getElem?_range (by omega)]
    rfl
  · rename_i hi
    rw [getElem?_eq_none (by rw [length_range]; omega)]
    rfl

theorem getElem?_layout :
    (tokenizer.layout segs)[i]? = if i ≤ segs.length then
      some ((upTo segs i).length, (pairRank tokenizer.rankOf segs i).getD kMaxRank)
      else none := by
  rw [layout, getElem?_map]
  split
  · rename_i hi
    rw [getElem?_range (by omega)]
    rfl
  · rename_i hi
    rw [getElem?_eq_none (by rw [length_range]; omega)]
    rfl

@[simp] theorem layoutTo_eq_layout {n : Nat} (hn : segs.length ≤ n + 1) :
    tokenizer.layoutTo segs n = tokenizer.layout segs := by
  refine map_congr_left fun i _ => ?_
  split
  · rfl
  · rw [pairRank_of_length_le (by omega), getD_none]

/-- The ranks of the vocabulary are below the sentinel. -/
def Bounded (tokenizer : TiktokenTokenizer) : Prop :=
  ∀ key rank, tokenizer.rankOf key = some rank → rank < kMaxRank

theorem initRank_layoutTo (hbounded : tokenizer.Bounded) (hi : i + 1 < segs.length) :
    tokenizer.initRank segs.flatten (tokenizer.layoutTo segs i) i =
      some (tokenizer.layoutTo segs (i + 1)) := by
  have hnext : tokenizer.layoutTo segs (i + 1) = (tokenizer.layoutTo segs i).set i
      ((upTo segs i).length, (pairRank tokenizer.rankOf segs i).getD kMaxRank) := by
    refine ext_getElem? fun j => ?_
    rw [getElem?_set, getElem?_layoutTo, getElem?_layoutTo, cuts_layoutTo.length_eq]
    rcases Nat.lt_trichotomy j i with hlt | rfl | hgt
    · rw [if_neg (by omega : ¬i = j), if_pos (by omega : j < i + 1), if_pos hlt]
    · rw [if_pos rfl, if_pos (by omega : j < j + 1), if_pos (by omega : j ≤ segs.length),
        if_pos (by omega)]
    · rw [if_neg (by omega : ¬i = j), if_neg (by omega : ¬j < i + 1), if_neg (by omega : ¬j < i)]
  have hpair : pairRank tokenizer.rankOf segs i = tokenizer.rankOf (span segs i 2) := by
    rw [pairRank, if_pos (by omega)]
  rw [initRank, getRank_eq cuts_layoutTo, if_pos (by omega), hnext, hpair]
  simp only [bind_eq_bind, bind_some]
  cases hrank : tokenizer.rankOf (span segs i (0 + 2)) with
  | none =>
      simp only [getD_none]
      refine congrArg some (ext_getElem? fun j => ?_)
      by_cases hij : i = j
      · subst hij
        rw [getElem?_set_self (by rw [cuts_layoutTo.length_eq]; omega), getElem?_layoutTo,
          if_pos (by omega), if_neg (Nat.lt_irrefl i)]
      · rw [getElem?_set_ne hij]
  | some rank =>
      simp only [getD_some]
      rw [if_pos (Int.ne_of_lt (hbounded _ _ hrank)), setRank_eq cuts_layoutTo (by omega)]

theorem foldlM_range {σ : Type*} {f : σ → Nat → Option σ} {state : Nat → σ} {n : Nat}
    (h : ∀ i < n, f (state i) i = some (state (i + 1))) :
    (range n).foldlM f (state 0) = some (state n) := by
  induction n with
  | zero => rfl
  | succ n ih =>
      rw [range_succ, foldlM_append, ih fun i hi => h i (by omega)]
      simp [h n (by omega)]

/-- The parts of one byte each. -/
def singletons (piece : List UInt8) : List (List UInt8) := piece.map fun byte => [byte]

@[simp] theorem length_singletons : (singletons piece).length = piece.length :=
  length_map _

@[simp] theorem flatten_singletons : (singletons piece).flatten = piece := by
  exact flatMap_singleton' piece

@[simp] theorem upTo_singletons (hi : i ≤ piece.length) :
    (upTo (singletons piece) i).length = i := by
  rw [upTo, singletons, ← map_take]
  have h : (singletons (piece.take i)).flatten = piece.take i := flatten_singletons
  rw [singletons] at h
  rw [h, length_take, Nat.min_eq_left hi]

theorem layoutTo_zero_singletons : tokenizer.layoutTo (singletons piece) 0 =
    (range (piece.length + 1)).map fun i => (i, kMaxRank) := by
  rw [layoutTo, length_singletons]
  refine map_congr_left fun i hi => ?_
  rw [upTo_singletons (by rw [mem_range] at hi; omega), if_neg (Nat.not_lt_zero i)]

/-- At first every byte is a part. -/
theorem initialParts_eq (hbounded : tokenizer.Bounded) (piece : List UInt8) :
    tokenizer.initialParts piece = some (tokenizer.layout (singletons piece)) := by
  have hround : ∀ i < piece.length - 1,
      tokenizer.initRank piece (tokenizer.layoutTo (singletons piece) i) i =
        some (tokenizer.layoutTo (singletons piece) (i + 1)) := by
    intro i hi
    have hnext := initRank_layoutTo hbounded
      (show i + 1 < (singletons piece).length by rw [length_singletons]; omega)
    rwa [flatten_singletons] at hnext
  rw [initialParts, ← layoutTo_zero_singletons, cuts_layoutTo.length_eq, length_singletons,
    show piece.length + 1 - 2 = piece.length - 1 by omega, foldlM_range hround,
    layoutTo_eq_layout (by rw [length_singletons]; omega)]

/-- What the search loop holds behind some parts: the first of the lowest ranks, or the
sentinel if none is below it. -/
def FirstLowest (parts : List Part) (best : Int × Nat) : Prop :=
  (best = (kMaxRank, 0) ∧ ∀ (i : Nat) (part : Part), parts[i]? = some part → kMaxRank ≤ part.2) ∨
    best.1 < kMaxRank ∧ (∃ start, parts[best.2]? = some (start, best.1)) ∧
      (∀ (i : Nat) (part : Part), parts[i]? = some part → best.1 ≤ part.2) ∧
        ∀ (i : Nat) (part : Part), i < best.2 → parts[i]? = some part → best.1 < part.2

theorem FirstLowest.concat {best : Int × Nat} (h : FirstLowest parts best) (part : Part) :
    FirstLowest (parts ++ [part])
      (if part.2 < best.1 then (part.2, parts.length) else best) := by
  have hentry : ∀ (i : Nat) (entry : Part), (parts ++ [part])[i]? = some entry →
      parts[i]? = some entry ∨ i = parts.length ∧ entry = part := by
    intro i entry hget
    rcases Nat.lt_trichotomy i parts.length with hlt | rfl | hgt
    · rw [getElem?_append_left hlt] at hget
      exact .inl hget
    · rw [getElem?_concat_length, some_inj] at hget
      exact .inr ⟨rfl, hget.symm⟩
    · rw [getElem?_eq_none (by rw [length_append, length_singleton]; omega)] at hget
      cases hget
  have hbest : best.1 ≤ kMaxRank := by
    rcases h with ⟨rfl, -⟩ | ⟨hlt, -⟩
    · exact le_refl _
    · exact le_of_lt hlt
  have hall : ∀ (i : Nat) (entry : Part), parts[i]? = some entry → best.1 ≤ entry.2 := by
    rcases h with ⟨rfl, hall⟩ | ⟨-, -, hall, -⟩
    · exact hall
    · exact hall
  split
  · rename_i hlower
    refine .inr ⟨by simp only; omega, ⟨part.1, getElem?_concat_length⟩, ?_, ?_⟩
    · intro i entry hget
      rcases hentry i entry hget with hold | ⟨-, rfl⟩
      · have := hall i entry hold
        omega
      · exact le_refl _
    · intro i entry hi hget
      rcases hentry i entry hget with hold | ⟨rfl, -⟩
      · have := hall i entry hold
        omega
      · exact absurd hi (Nat.lt_irrefl _)
  · rename_i hnot
    have hall' : ∀ (i : Nat) (entry : Part), (parts ++ [part])[i]? = some entry →
      best.1 ≤ entry.2 := by
      intro i entry hget
      rcases hentry i entry hget with hold | ⟨-, rfl⟩
      · exact hall i entry hold
      · omega
    rcases h with ⟨rfl, -⟩ | ⟨hlt, ⟨start, hstart⟩, -, hfirst⟩
    · exact .inl ⟨rfl, hall'⟩
    · have hin : best.2 < parts.length := (List.getElem?_eq_some_iff.mp hstart).1
      refine .inr ⟨hlt, ⟨start, ?_⟩, hall', ?_⟩
      · rw [getElem?_append_left hin]
        exact hstart
      · intro i entry hi hget
        rw [getElem?_append_left (by omega)] at hget
        exact hfirst i entry hi hget

theorem firstLowest_foldl (parts : List Part) :
    FirstLowest parts (parts.zipIdx.foldl
      (fun best p => if p.1.2 < best.1 then (p.1.2, p.2) else best) (kMaxRank, 0)) := by
  induction parts using List.reverseRecOn with
  | nil => exact Or.inl ⟨rfl, by simp⟩
  | append_singleton parts part ih =>
      rw [zipIdx_append]
      have hlast := ih.concat part
      simpa using hlast

theorem getElem?_searched : ((tokenizer.layout segs).take
    ((tokenizer.layout segs).length - 1))[i]? = if i < segs.length then
      some ((upTo segs i).length, (pairRank tokenizer.rankOf segs i).getD kMaxRank)
      else none := by
  rw [cuts_layout.length_eq, Nat.add_sub_cancel, getElem?_take]
  split
  · rename_i hi
    rw [getElem?_layout, if_pos (Nat.le_of_lt hi)]
  · rfl

/-- The search finds the leftmost lowest pair, or the sentinel when no pair is ranked. -/
theorem findMinRank_layout (hbounded : tokenizer.Bounded) :
    (findMinRank (tokenizer.layout segs)).1 = kMaxRank ∧ Stuck tokenizer.rankOf segs ∨
      (findMinRank (tokenizer.layout segs)).1 ≠ kMaxRank ∧
        LeftmostLowest tokenizer.rankOf segs (findMinRank (tokenizer.layout segs)).2
          (findMinRank (tokenizer.layout segs)).1 := by
  have hpair : ∀ i rank, pairRank tokenizer.rankOf segs i = some rank → i < segs.length ∧
      rank < kMaxRank := by
    intro i rank hrank
    rw [pairRank] at hrank
    split at hrank
    · exact ⟨by omega, hbounded _ _ hrank⟩
    · cases hrank
  have hfirst := firstLowest_foldl ((tokenizer.layout segs).take
    ((tokenizer.layout segs).length - 1))
  rw [← findMinRank] at hfirst
  generalize findMinRank (tokenizer.layout segs) = best at hfirst ⊢
  rcases hfirst with ⟨rfl, hall⟩ | ⟨hlt, ⟨start, hbest⟩, hall, hbefore⟩
  · refine .inl ⟨rfl, fun i => ?_⟩
    cases hrank : pairRank tokenizer.rankOf segs i with
    | none => rfl
    | some rank =>
        obtain ⟨hi, hlt⟩ := hpair i rank hrank
        have hle := hall i _ (by rw [getElem?_searched, if_pos hi])
        rw [hrank] at hle
        exact absurd hlt (Int.not_lt.mpr hle)
  · refine .inr ⟨Int.ne_of_lt hlt, ?_, fun i rank hrank => ?_, fun i hi hrank => ?_⟩
    · rw [getElem?_searched] at hbest
      split at hbest
      · rw [some_inj, Prod.mk.injEq] at hbest
        cases hrank : pairRank tokenizer.rankOf segs best.2 with
        | none =>
            rw [hrank] at hbest
            exact absurd hbest.2.symm (Int.ne_of_lt hlt)
        | some rank =>
            rw [hrank, getD_some] at hbest
            rw [hbest.2]
      · cases hbest
    · have hle := hall i _ (by rw [getElem?_searched, if_pos (hpair i rank hrank).1])
      rwa [hrank] at hle
    · have hless := hbefore i _ hi (by rw [getElem?_searched, if_pos (hpair i _ hrank).1])
      rw [hrank] at hless
      exact absurd hless (Int.lt_irrefl _)

/-- The rank of pair `i` once the part behind `k` is gone. -/
def renewed (tokenizer : TiktokenTokenizer) (segs : List (List UInt8)) (k i : Nat) : Int :=
  if i = k then
    (if k + 3 ≤ segs.length then tokenizer.rankOf (span segs k 3) else none).getD kMaxRank
  else if i + 1 = k then
    (tokenizer.rankOf (span segs i 3)).getD kMaxRank
  else
    (pairRank tokenizer.rankOf segs i).getD kMaxRank

theorem renewRanks_layout (hk : k + 2 ≤ segs.length) :
    ∃ updated, tokenizer.renewRanks segs.flatten (tokenizer.layout segs) k = some updated ∧
      updated.length = segs.length + 1 ∧ ∀ i ≤ segs.length,
        updated[i]? = some ((upTo segs i).length, tokenizer.renewed segs k i) := by
  have hcuts : ∀ rank, Cuts ((tokenizer.layout segs).set k ((upTo segs k).length, rank)) segs :=
    fun _ => cuts_layout.set (by omega)
  rw [renewRanks, getRank_eq cuts_layout]
  simp only [bind_eq_bind, bind_some]
  rw [setRank_eq cuts_layout (by omega)]
  simp only [bind_some]
  split
  · rename_i hpos
    rw [getRank_eq (hcuts _)]
    simp only [bind_some]
    rw [setRank_eq (hcuts _) (by omega)]
    refine ⟨_, rfl, by simp only [List.length_set, cuts_layout.length_eq], fun i hi => ?_⟩
    rw [renewed]
    rcases eq_or_ne i k with rfl | hik
    · rw [getElem?_set_ne (by omega),
        getElem?_set_self (by rw [cuts_layout.length_eq]; omega), if_pos rfl]
    · rw [if_neg hik]
      rcases eq_or_ne (i + 1) k with rfl | hfront
      · rw [Nat.add_sub_cancel, getElem?_set_self
          (by rw [List.length_set, cuts_layout.length_eq]; omega), if_pos rfl, if_pos (by omega)]
      · rw [getElem?_set_ne (by omega), getElem?_set_ne hik.symm, getElem?_layout,
          if_pos hi, if_neg hfront]
  · rename_i hzero
    refine ⟨_, rfl, by rw [List.length_set, cuts_layout.length_eq], fun i hi => ?_⟩
    rw [renewed]
    rcases eq_or_ne i k with rfl | hik
    · rw [getElem?_set_self (by rw [cuts_layout.length_eq]; omega), if_pos rfl]
    · rw [getElem?_set_ne hik.symm, getElem?_layout, if_pos hi, if_neg hik,
        if_neg (by omega)]

theorem renewed_eq (hk : k + 2 ≤ segs.length) (hi : i ≠ k + 1) :
    tokenizer.renewed segs k i =
      (pairRank tokenizer.rankOf (mergeAt segs k) (if i ≤ k then i else i - 1)).getD kMaxRank := by
  rw [pairRank_mergeAt hk, renewed]
  rcases Nat.lt_trichotomy i k with hlt | rfl | hgt
  · rw [if_neg (Nat.ne_of_lt hlt), if_pos (Nat.le_of_lt hlt), skip_of_le (Nat.le_of_lt hlt)]
    rcases eq_or_ne (i + 1) k with rfl | hfront
    · rw [if_pos rfl, skip_of_lt (Nat.lt_succ_self (i + 1)), if_pos (by omega),
        show i + 2 + 1 - i = 3 by omega]
    · rw [if_neg hfront, skip_of_le (by omega : i + 2 ≤ k),
        Nat.add_sub_cancel_left, pairRank, if_pos (by omega)]
  · rw [if_pos rfl, if_pos (le_refl i), skip_of_le (le_refl i), skip_of_lt (by omega : i < i + 2),
      show i + 2 + 1 - i = 3 by omega]
  · obtain ⟨j, rfl⟩ : ∃ j, i = j + 1 := ⟨i - 1, by omega⟩
    rw [if_neg (by omega), if_neg (by omega), if_neg (by omega : ¬j + 1 ≤ k), Nat.add_sub_cancel,
      skip_of_lt (by omega : k < j), skip_of_lt (by omega : k < j + 2),
      show j + 2 + 1 - (j + 1) = 2 by omega, pairRank]

/-- One merge of the code is one merge of the layout. -/
theorem mergePart_layout (hk : k + 2 ≤ segs.length) :
    tokenizer.mergePart segs.flatten (tokenizer.layout segs) k =
      some (tokenizer.layout (mergeAt segs k)) := by
  obtain ⟨updated, hrun, hlength, hget⟩ := @renewRanks_layout tokenizer segs k hk
  have hmerged := length_mergeAt hk
  rw [mergePart, hrun]
  simp only [bind_eq_bind, bind_some]
  rw [if_pos (by omega)]
  refine congrArg some (ext_getElem? fun i => ?_)
  rw [getElem?_layout, upTo_mergeAt hk, getElem?_eraseIdx]
  by_cases hi : i ≤ k
  · rw [if_pos (by omega), skip_of_le hi, if_pos (by omega), hget i (by omega),
      renewed_eq hk (by omega), if_pos hi]
  · rw [if_neg (by omega), skip_of_lt (by omega)]
    by_cases hend : i ≤ (mergeAt segs k).length
    · rw [if_pos hend, hget (i + 1) (by omega), renewed_eq hk (by omega), if_neg (by omega),
        Nat.add_sub_cancel]
    · rw [if_neg hend, getElem?_eq_none (by omega)]

/-- The loop of merges ends where no pair has a rank. -/
theorem mergeLoop_layout (hbounded : tokenizer.Bounded) {rounds : Nat}
    (hrounds : segs.length < rounds) :
    ∃ result, MergesTo tokenizer.rankOf segs result ∧
      tokenizer.mergeLoop segs.flatten rounds (tokenizer.layout segs) =
        some (tokenizer.layout result) := by
  induction rounds generalizing segs with
  | zero => exact absurd hrounds (Nat.not_lt_zero _)
  | succ rounds ih =>
      rw [mergeLoop, cuts_layout.length_eq]
      split
      · rcases @findMinRank_layout tokenizer segs hbounded with ⟨hrank, hstuck⟩ | ⟨hrank, hlowest⟩
        · exact ⟨segs, ⟨.refl, hstuck⟩, if_pos hrank⟩
        · have hmerged := length_mergeAt hlowest.inRange
          obtain ⟨result, hresult, hrun⟩ := @ih (mergeAt segs
            (findMinRank (tokenizer.layout segs)).2) (by omega)
          refine ⟨result, hresult.head ⟨_, _, hlowest, rfl⟩, ?_⟩
          rw [flatten_mergeAt hlowest.inRange] at hrun
          simp only
          rw [if_neg hrank, mergePart_layout hlowest.inRange]
          exact hrun
      · refine ⟨segs, ⟨.refl, fun i => ?_⟩, rfl⟩
        exact pairRank_of_length_le (by omega)

theorem mapM_some {α γ : Type*} {f : α → Option γ} {g : α → γ} {l : List α}
    (h : ∀ x ∈ l, f x = some (g x)) : l.mapM f = some (l.map g) := by
  induction l with
  | nil => rfl
  | cons x l ih =>
      rw [mapM_cons, h x mem_cons_self, ih fun y hy => h y (mem_cons_of_mem x hy)]
      rfl

theorem segments_layout : segments segs.flatten (tokenizer.layout segs) = some segs := by
  have hone : ∀ i ∈ range segs.length, (do
      let s ← (tokenizer.layout segs)[i]?
      let e ← (tokenizer.layout segs)[i + 1]?
      substr segs.flatten s.1 e.1) = some (span segs i 1) := by
    intro i hi
    rw [mem_range] at hi
    rw [getElem?_layout, if_pos (Nat.le_of_lt hi), getElem?_layout,
      if_pos (Nat.succ_le_of_lt hi)]
    simp only [bind_eq_bind, bind_some]
    rw [substr, if_pos ⟨length_upTo_le (Nat.le_succ i), length_upTo_le_flatten⟩, extract_span]
  rw [segments, cuts_layout.length_eq, Nat.add_sub_cancel, mapM_some hone]
  refine congrArg some (ext_getElem (by simp) fun i hi _ => ?_)
  rw [length_map, length_range] at hi
  rw [getElem_map, getElem_range, span_one hi]

theorem lookup_tryEmplace {κ ν : Type*} [BEq κ] [LawfulBEq κ] {entries : List (κ × ν)} {key k : κ}
    {value : ν} : (tryEmplace entries k value).lookup key =
      (entries.lookup key).or ([(k, value)].lookup key) := by
  have hother : ∀ (hkey : ¬key = k) (rest : List (κ × ν)),
      ((k, value) :: rest).lookup key = rest.lookup key := fun hkey rest => by
    rw [lookup_cons, beq_false_of_ne hkey]
  rw [tryEmplace]
  split
  · rename_i hsome
    obtain ⟨old, hold⟩ := Option.isSome_iff_exists.mp hsome
    by_cases hkey : key = k
    · rw [hkey, hold, some_or]
    · rw [hother hkey, lookup_nil, or_none]
  · rename_i hnone
    rw [not_isSome_iff_eq_none] at hnone
    by_cases hkey : key = k
    · rw [hkey, hnone, lookup_cons_self, lookup_cons_self, none_or]
    · rw [hother hkey, hother hkey, lookup_nil, or_none]

@[simp] theorem rankOf_loadVocab (lines : List VocabLine) (key : List UInt8) :
    (tokenizer.loadVocab lines).rankOf key = (tokenizer.rankOf key).or (lines.lookup key) := by
  induction lines generalizing tokenizer with
  | nil => rw [lookup_nil, or_none]; rfl
  | cons line lines ih =>
      rw [loadVocab, foldl_cons, ← loadVocab, ih, rankOf, addLine]
      rw [lookup_tryEmplace, Option.or_assoc]
      rw [show line :: lines = [line] ++ lines from rfl, lookup_append]
      rfl

@[simp] theorem decoder_loadVocab (lines : List VocabLine) (id : Int) :
    (tokenizer.loadVocab lines).decoder.lookup id =
      (tokenizer.decoder.lookup id).or ((lines.map Prod.swap).lookup id) := by
  induction lines generalizing tokenizer with
  | nil => rw [map_nil, lookup_nil, or_none]; rfl
  | cons line lines ih =>
      rw [loadVocab, foldl_cons, ← loadVocab, ih, addLine]
      rw [lookup_tryEmplace, Option.or_assoc]
      rw [map_cons, show line.swap :: lines.map Prod.swap =
        [line.swap] ++ lines.map Prod.swap from rfl, lookup_append]
      rfl

@[simp] theorem specialTokenDecoder_loadVocab (lines : List VocabLine) :
    (tokenizer.loadVocab lines).specialTokenDecoder = tokenizer.specialTokenDecoder := by
  induction lines generalizing tokenizer with
  | nil => rfl
  | cons line lines ih => rw [loadVocab, foldl_cons, ← loadVocab, ih]; rfl

theorem lookup_of_nodup {κ ν : Type*} [BEq κ] [LawfulBEq κ] {entries : List (κ × ν)} {key : κ}
    {value : ν} (hnodup : (entries.map Prod.fst).Nodup) (hmem : (key, value) ∈ entries) :
    entries.lookup key = some value := by
  obtain ⟨front, back, rfl⟩ := append_of_mem hmem
  rw [List.lookup_eq_some_iff]
  refine ⟨front, back, rfl, fun p hp => ?_⟩
  rw [map_append, nodup_append] at hnodup
  have hne := hnodup.2.2 p.1 (List.mem_map_of_mem hp) key mem_cons_self
  simpa using hne.symm

theorem mem_of_lookup {κ ν : Type*} [BEq κ] [LawfulBEq κ] {entries : List (κ × ν)} {key : κ}
    {value : ν} (h : entries.lookup key = some value) : (key, value) ∈ entries := by
  obtain ⟨front, back, rfl, -⟩ := List.lookup_eq_some_iff.mp h
  exact mem_append_right _ mem_cons_self

/-- What `IsValidDecodeUTF8` is documented to do at the start of a character. -/
def DecodesUtf8 (isValidDecodeUTF8 : List UInt8 → Bool × Nat) : Prop :=
  ∀ c rest, isValidDecodeUTF8 (String.utf8EncodeChar c ++ rest) =
    (true, (String.utf8EncodeChar c).length)

theorem repairUtf8_text {isValidDecodeUTF8 : List UInt8 → Bool × Nat}
    (hdecodes : DecodesUtf8 isValidDecodeUTF8) (text : List Char) {rounds : Nat}
    (hrounds : (text.flatMap String.utf8EncodeChar).length ≤ rounds) :
    repairUtf8 isValidDecodeUTF8 rounds (text.flatMap String.utf8EncodeChar) =
      some (text.flatMap String.utf8EncodeChar) := by
  induction text generalizing rounds with
  | nil => cases rounds <;> rfl
  | cons c text ih =>
      have hvalid := hdecodes c (text.flatMap String.utf8EncodeChar)
      rw [flatMap_cons] at hrounds ⊢
      cases hbytes : String.utf8EncodeChar c with
      | nil =>
          have hlength := String.length_utf8EncodeChar c
          rw [hbytes] at hlength
          exact absurd hlength.symm (Nat.ne_of_gt c.utf8Size_pos)
      | cons byte bytes =>
          rw [hbytes, length_append, length_cons] at hrounds
          rw [hbytes, cons_append, length_cons] at hvalid
          obtain ⟨rounds, rfl⟩ : ∃ m, rounds = m + 1 := ⟨rounds - 1, by omega⟩
          rw [cons_append, repairUtf8, hvalid]
          simp only [drop_succ_cons, drop_left, take_succ_cons,
            take_left]
          rw [ih (by omega)]
          rfl

theorem idBytes_rankOf {lines : List VocabLine} (hdistinct : (lines.map Prod.snd).Nodup)
    {special : List (Int × List UInt8)} {key : List UInt8} {skipSpecialTokens : Bool}
    (hrank : lines.lookup key = some rank) (hspecial : special.lookup rank = none) :
    (loadVocab { specialTokenDecoder := special } lines).idBytes skipSpecialTokens rank = key := by
  have hswap : (lines.map Prod.swap).lookup rank = some key := by
    refine lookup_of_nodup ?_ (List.mem_map_of_mem (mem_of_lookup hrank))
    rwa [List.map_map]
  rw [idBytes, specialTokenDecoder_loadVocab, hspecial, decoder_loadVocab, hswap]
  rfl

theorem flatMap_idBytes {lines : List VocabLine} (hdistinct : (lines.map Prod.snd).Nodup)
    {special : List (Int × List UInt8)} {skipSpecialTokens : Bool}
    (hspecial : ∀ line ∈ lines, special.lookup line.2 = none)
    (hall : ∀ key ∈ segs, (lines.lookup key).isSome) :
    (segs.filterMap fun key => lines.lookup key).flatMap
      ((loadVocab { specialTokenDecoder := special } lines).idBytes skipSpecialTokens) =
        segs.flatten := by
  induction segs with
  | nil => rfl
  | cons key segs ih =>
      obtain ⟨rank, hrank⟩ := Option.isSome_iff_exists.mp (hall key mem_cons_self)
      rw [filterMap_cons_some (f := fun key => lines.lookup key) hrank, flatMap_cons, flatten_cons,
        ih fun k hk => hall k (mem_cons_of_mem key hk),
        idBytes_rankOf hdistinct hrank (hspecial _ (mem_of_lookup hrank))]

/-- The incremental algorithm computes the result of merging naively, reads nothing out of
range and ends. Where every byte is in the vocabulary, the ids of a valid text are decoded
to the text. -/
theorem bytePairEncode_eq_naive (lines : List VocabLine)
    (hdistinct : (lines.map Prod.snd).Nodup)
    (hranks : ∀ line ∈ lines, 0 ≤ line.2 ∧ line.2 < kMaxRank)
    (special : List (Int × List UInt8)) (isValidDecodeUTF8 : List UInt8 → Bool × Nat)
    (hdecodes : DecodesUtf8 isValidDecodeUTF8) (piece : List UInt8) (hpiece : piece ≠ []) :
    let tokenizer := loadVocab { specialTokenDecoder := special } lines
    ∃ segs,
      (∀ result, MergesTo (fun key => lines.lookup key) (singletons piece) result ↔
        result = segs) ∧
      segs.flatten = piece ∧
      (∀ rounds, piece.length < rounds → ∃ parts,
        tokenizer.mergedParts piece rounds = some parts ∧ segments piece parts = some segs) ∧
      (∀ ids, tokenizer.bytePairEncode piece ids =
        some (ids ++ segs.filterMap fun key => lines.lookup key)) ∧
      ((∀ byte : UInt8, [byte] ∈ lines.map Prod.fst) →
        (∀ line ∈ lines, special.lookup line.2 = none) →
        ∀ text : List Char, piece = text.flatMap String.utf8EncodeChar →
          ∀ skipSpecialTokens, ∃ ids, tokenizer.bytePairEncode piece [] = some ids ∧
            tokenizer.decode isValidDecodeUTF8 ids skipSpecialTokens = some piece) := by
  intro tokenizer
  have hrankOf : tokenizer.rankOf = fun key => lines.lookup key :=
    funext fun key => rankOf_loadVocab lines key
  have hbounded : tokenizer.Bounded := by
    intro key rank hrank
    rw [hrankOf] at hrank
    exact (hranks _ (mem_of_lookup hrank)).2
  have hloop : ∀ rounds, piece.length < rounds → ∃ result,
      MergesTo (fun key => lines.lookup key) (singletons piece) result ∧
        tokenizer.mergedParts piece rounds = some (tokenizer.layout result) := by
    intro rounds hrounds
    obtain ⟨result, hresult, hrun⟩ := mergeLoop_layout hbounded
      (show (singletons piece).length < rounds by rwa [length_singletons])
    rw [flatten_singletons] at hrun
    rw [hrankOf] at hresult
    refine ⟨result, hresult, ?_⟩
    rw [mergedParts, initialParts_eq hbounded]
    exact hrun
  obtain ⟨segs, hsegs, hrun⟩ := hloop (piece.length + 1) (Nat.lt_succ_self _)
  have hflatten : segs.flatten = piece := by rw [hsegs.flatten_eq, flatten_singletons]
  have hsegments : segments piece (tokenizer.layout segs) = some segs := by
    have h : segments segs.flatten (tokenizer.layout segs) = some segs := segments_layout
    rwa [hflatten] at h
  have hencode : ∀ ids, tokenizer.bytePairEncode piece ids =
      some (ids ++ segs.filterMap fun key => lines.lookup key) := by
    intro ids
    rw [bytePairEncode, if_neg (by simpa using hpiece), hrun]
    simp only [bind_eq_bind, bind_some]
    rw [hsegments, ← hrankOf]
    rfl
  refine ⟨segs, fun result => ⟨fun h => h.unique hsegs, fun h => h ▸ hsegs⟩, hflatten,
    fun rounds hrounds => ?_, hencode, fun hbytes hspecial text htext skipSpecialTokens => ?_⟩
  · obtain ⟨result, hresult, hrun'⟩ := hloop rounds hrounds
    rw [hresult.unique hsegs] at hrun'
    exact ⟨_, hrun', hsegments⟩
  · have hall : ∀ key ∈ segs, (lines.lookup key).isSome := by
      refine hsegs.forall_ranked fun key hkey => ?_
      obtain ⟨byte, -, rfl⟩ := List.mem_map.mp hkey
      obtain ⟨line, hline, hfst⟩ := List.mem_map.mp (hbytes byte)
      rw [lookup_isSome_iff]
      exact ⟨line, hline, by simp [hfst]⟩
    refine ⟨_, hencode [], ?_⟩
    rw [decode, nil_append, flatMap_idBytes hdistinct hspecial hall, hflatten, htext]
    exact repairUtf8_text hdecodes text (le_refl _)

def leanDecodeUtf8 (bytes : List UInt8) : Bool × Nat :=
  match bytes.toByteArray.utf8DecodeChar? 0 with
  | some c => (true, c.utf8Size)
  | none => (false, 1)

theorem decodesUtf8_lean : DecodesUtf8 leanDecodeUtf8 := by
  intro c rest
  rw [leanDecodeUtf8, toByteArray_append, ByteArray.utf8DecodeChar?_utf8EncodeChar_append,
    String.length_utf8EncodeChar]

/-- All bytes, and `ab`. -/
def byteLines : List VocabLine :=
  (range 256).map (fun i => ([UInt8.ofNat i], (i : Int))) ++ [([97, 98], 256)]

theorem bytePairEncode_eq_naive_bytes :
    ∃ ids, (loadVocab {} byteLines).bytePairEncode [97, 98] [] = some ids ∧
      (loadVocab {} byteLines).decode leanDecodeUtf8 ids true = some [97, 98] := by
  have hranks : byteLines.map Prod.snd = (range 257).map Int.ofNat := by
    rw [range_succ, byteLines, map_append, map_append, List.map_map]
    refine congrArg₂ (· ++ ·) (map_congr_left fun i _ => ?_) rfl
    rfl
  have hdistinct : (byteLines.map Prod.snd).Nodup := by
    rw [hranks]
    exact List.Nodup.map (fun i j h => Int.ofNat.inj h) nodup_range
  have hbounds : ∀ line ∈ byteLines, 0 ≤ line.2 ∧ line.2 < kMaxRank := by
    intro line hline
    have hmem := List.mem_map_of_mem (f := Prod.snd) hline
    rw [hranks] at hmem
    obtain ⟨i, hi, heq⟩ := List.mem_map.mp hmem
    rw [mem_range] at hi
    rw [← heq, kMaxRank, Int.ofNat_eq_natCast]
    omega
  have hbytes : ∀ byte : UInt8, [byte] ∈ byteLines.map Prod.fst := by
    intro byte
    refine List.mem_map.mpr ⟨([byte], (byte.toNat : Int)), ?_, rfl⟩
    refine mem_append_left _ (List.mem_map.mpr ⟨byte.toNat, ?_, ?_⟩)
    · exact List.mem_range.mpr byte.toNat_lt
    · rw [UInt8.ofNat_toNat]
  obtain ⟨segs, -, -, -, -, hdecode⟩ := bytePairEncode_eq_naive byteLines hdistinct hbounds []
    leanDecodeUtf8 decodesUtf8_lean [97, 98] (by decide)
  exact hdecode hbytes (fun _ _ => rfl) ['a', 'b'] (by decide) true

end Xllm.TiktokenTokenizer
