import Mathlib.Algebra.BigOperators.Fin
import Mathlib.Algebra.Order.Ring.Rat
import Xllm.Lib.FiniteDist
import Xllm.Sampling.RejectionSampler

/-!
# The distribution of the first token

A draft token is drawn from the draft distribution, `random_sample` accepts it or takes a
recovered token instead, and the first token of the output is what remains. `emitted` is the
probability of each first token over the draft token, the uniform number and the recovered
token, in exact arithmetic.

With dense rows the recovered row is what the target exceeds the draft by, and the first
token has the target distribution. Where only the probability of the draft token is known,
and in the rows that `build_validate_tensors` makes of it, the recovered row is the target
without the draft token, and the first token has the target distribution only if the draft
is of a certain shape.

The draw from the recovered row is a parameter. It draws in proportion to a row with a
positive sum, and may refuse a row of zeros.
-/

namespace Xllm.Sampling

open FiniteDist Function

variable {vocabSize : Nat}

/-- `build_validate_tensors` at one position of one sequence. -/
def validateProbs (enableOptValidateProbs : Bool) (draftTokenId : Fin vocabSize)
    (draftProbs : DraftProbs vocabSize) : DraftProbs vocabSize :=
  let selectedProbs := draftProbs.selectedDraftProb draftTokenId
  if enableOptValidateProbs then .selected selectedProbs
  else .dense (update 0 draftTokenId selectedProbs)

/-- The rows of the draft model. -/
def denseProbs (q : Fin vocabSize → ℚ) (_ : Fin vocabSize) : DraftProbs vocabSize := .dense q

def selectedProbs (q : Fin vocabSize → ℚ) (draftTokenId : Fin vocabSize) :
    DraftProbs vocabSize := .selected (q draftTokenId)

/-- Draft probabilities that tell no more than the probability of the draft token: they are
selected, or `build_validate_tensors` made them. -/
inductive Compressed (q : Fin vocabSize → ℚ) : (Fin vocabSize → DraftProbs vocabSize) → Prop
  | selected : Compressed q (selectedProbs q)
  | validateDense (enableOptValidateProbs : Bool) :
      Compressed q fun d => validateProbs enableOptValidateProbs d (denseProbs q d)
  | validateSelected (enableOptValidateProbs : Bool) :
      Compressed q fun d => validateProbs enableOptValidateProbs d (selectedProbs q d)

structure Multinomial (draw : (Fin vocabSize → ℚ) → Option (FiniteDist (Fin vocabSize))) :
    Prop where
  proportional : ∀ row : Fin vocabSize → ℚ, (∀ x, 0 ≤ row x) → 0 < ∑ x, row x →
    ∃ recovered, draw row = some recovered ∧ ∀ x, recovered x = row x / ∑ y, row y

/-- The probability, over the uniform number, that the first position has a token. -/
def probFirst (acceptance : ℚ) (draftTokenId recoveredTokenId x : Fin vocabSize) : ℚ :=
  below acceptance * (if draftTokenId = x then 1 else 0) +
    (1 - below acceptance) * (if recoveredTokenId = x then 1 else 0)

/-- The probability of a first token. A refused row gives none. -/
def emitted (draw : (Fin vocabSize → ℚ) → Option (FiniteDist (Fin vocabSize)))
    (p q : Fin vocabSize → ℚ) (draftProbs : Fin vocabSize → DraftProbs vocabSize)
    (x : Fin vocabSize) : ℚ :=
  ∑ d, q d * match draw (recoveredProbs p (draftProbs d) d) with
    | none => 0
    | some recovered =>
        ∑ r, recovered r * probFirst (acceptanceProb p (draftProbs d) d) d r x

/-- No draft token that can be drawn leaves a row that is refused. -/
def Drawable (draw : (Fin vocabSize → ℚ) → Option (FiniteDist (Fin vocabSize)))
    (p q : Fin vocabSize → ℚ) (draftProbs : Fin vocabSize → DraftProbs vocabSize) : Prop :=
  ∀ d, 0 < q d → (draw (recoveredProbs p (draftProbs d) d)).isSome

/-- What the recovered token takes over from a draft token. -/
def recoveredShare (p q : Fin vocabSize → ℚ)
    (draftProbs : Fin vocabSize → DraftProbs vocabSize) (d x : Fin vocabSize) : ℚ :=
  excess q p d * (remainingProbs p d (draftProbs d) x / ∑ y, remainingProbs p d (draftProbs d) y)

section Emitted

variable {draw : (Fin vocabSize → ℚ) → Option (FiniteDist (Fin vocabSize))}
variable {p q : FiniteDist (Fin vocabSize)}
variable {draftProbs : Fin vocabSize → DraftProbs vocabSize} {d x : Fin vocabSize}

theorem remainingProbs_nonneg : 0 ≤ remainingProbs p d (draftProbs d) x := by
  cases draftProbs d with
  | dense row => exact le_max_right _ _
  | selected prob =>
      rw [remainingProbs, update_apply]
      split
      · exact le_refl 0
      · exact p.nonneg x

theorem recoveredProbs_div (htotal : 0 < ∑ y, remainingProbs p d (draftProbs d) y) :
    0 < ∑ y, recoveredProbs p (draftProbs d) d y ∧
      recoveredProbs p (draftProbs d) d x / ∑ y, recoveredProbs p (draftProbs d) d y =
        remainingProbs p d (draftProbs d) x / ∑ y, remainingProbs p d (draftProbs d) y := by
  have hscale : 0 < max (∑ y, remainingProbs p d (draftProbs d) y) epsilon :=
    lt_max_of_lt_left htotal
  simp only [recoveredProbs, ← Finset.sum_div]
  exact ⟨div_pos htotal hscale, div_div_div_cancel_right₀ hscale.ne' _ _⟩

theorem sum_mul_probFirst (recovered : FiniteDist (Fin vocabSize)) (acceptance : ℚ) :
    ∑ r, recovered r * probFirst acceptance d r x =
      below acceptance * (if d = x then 1 else 0) + (1 - below acceptance) * recovered x := by
  have hdraft : ∑ r, recovered r * (below acceptance * if d = x then 1 else 0) =
      below acceptance * if d = x then 1 else 0 := by
    rw [← Finset.sum_mul, recovered.sum_eq, one_mul]
  have hrecovered : ∑ r, recovered r * ((1 - below acceptance) * if r = x then 1 else 0) =
      (1 - below acceptance) * recovered x := by
    rw [Finset.sum_eq_single x]
    · rw [if_pos rfl, mul_one, mul_comm]
    · intro r _ hne
      rw [if_neg hne, mul_zero, mul_zero]
    · exact fun hnot => absurd (Finset.mem_univ x) hnot
  simp only [probFirst, mul_add, Finset.sum_add_distrib]
  rw [hdraft, hrecovered]

/-- The two ways to the first token: the draft token is accepted, or another one is
recovered. -/
theorem emitted_eq (hdraw : Multinomial draw)
    (hselected : ∀ d, (draftProbs d).selectedDraftProb d = q d)
    (hdrawable : Drawable draw p q draftProbs)
    (htotal : ∀ d, p d < q d → 0 < ∑ y, remainingProbs p d (draftProbs d) y) :
    emitted draw p q draftProbs x =
      min (p x) (q x) + ∑ d, recoveredShare p q draftProbs d x := by
  have hterm : ∀ d, (q d * match draw (recoveredProbs p (draftProbs d) d) with
      | none => 0
      | some recovered =>
          ∑ r, recovered r * probFirst (acceptanceProb p (draftProbs d) d) d r x) =
      (if d = x then min (p x) (q x) else 0) + recoveredShare p q draftProbs d x := by
    intro d
    have haccept : q d * below (acceptanceProb p (draftProbs d) d) = min (p d) (q d) := by
      rw [acceptanceProb, hselected]
      by_cases hzero : q d = 0
      · rw [hzero, zero_mul, min_eq_right (p.nonneg d)]
      · rw [if_neg hzero]
        exact mul_below_div (p.nonneg d) (q.nonneg d)
    have hreject : q d * (1 - below (acceptanceProb p (draftProbs d) d)) = excess q p d := by
      have := min_add_excess' (p := p) (q := q) (x := d)
      linarith
    have hmin : (if d = x then min (p x) (q x) else 0) =
        min (p d) (q d) * if d = x then 1 else 0 := by
      split
      · rename_i heq
        rw [heq, mul_one]
      · rw [mul_zero]
    rw [hmin, recoveredShare]
    rcases (q.nonneg d).eq_or_lt with hzero | hpos
    · rw [← hzero, min_eq_right (p.nonneg d), excess_of_le (hzero ▸ p.nonneg d), zero_mul,
        zero_mul, zero_mul, add_zero]
    · obtain ⟨recovered, hrecovered⟩ := Option.isSome_iff_exists.mp (hdrawable d hpos)
      have hsplit : q d * ∑ r, recovered r * probFirst (acceptanceProb p (draftProbs d) d) d r x =
          (min (p d) (q d) * if d = x then 1 else 0) + excess q p d * recovered x := by
        rw [sum_mul_probFirst, mul_add, ← mul_assoc, ← mul_assoc, haccept, hreject]
      rw [hrecovered]
      refine hsplit.trans (congrArg _ ?_)
      rcases (excess_nonneg (p := q) (q := p) (x := d)).eq_or_lt with hnone | hexcess
      · rw [← hnone, zero_mul, zero_mul]
      · have hpositive := htotal d (excess_pos_iff.mp hexcess)
        obtain ⟨recovered', hdrawn, hproportion⟩ :=
          hdraw.proportional (recoveredProbs p (draftProbs d) d)
            (fun y => div_nonneg remainingProbs_nonneg (le_max_of_le_left hpositive.le))
            (recoveredProbs_div (x := x) hpositive).1
        obtain rfl := Option.some.inj (hrecovered.symm.trans hdrawn)
        exact congrArg _ ((hproportion x).trans (recoveredProbs_div hpositive).2)
  rw [emitted, Finset.sum_congr rfl fun d _ => hterm d, Finset.sum_add_distrib,
    Finset.sum_ite_eq' Finset.univ x, if_pos (Finset.mem_univ x)]

theorem emitted_dense (hdraw : Multinomial draw) (hdrawable : Drawable draw p q (denseProbs q)) :
    emitted draw p q (denseProbs q) x = p x := by
  have hcomm := sum_excess_comm p q
  have htotal : ∀ d, p d < q d → 0 < ∑ y, remainingProbs p d (denseProbs q d) y := by
    intro d hlt
    change 0 < ∑ y, excess p q y
    rw [hcomm]
    exact Finset.sum_pos' (fun y _ => excess_nonneg)
      ⟨d, Finset.mem_univ d, excess_pos_iff.mpr hlt⟩
  rw [emitted_eq hdraw (fun _ => rfl) hdrawable htotal]
  have hshare : ∑ d, recoveredShare p q (denseProbs q) d x =
      (∑ d, excess q p d) * (excess p q x / ∑ y, excess p q y) := by
    rw [Finset.sum_mul]
    rfl
  rw [hshare, ← hcomm]
  rcases (sum_excess_nonneg (p := p) (q := q)).eq_or_lt with hzero | hpos
  · rw [← hzero, zero_mul, add_zero]
    have hnone := excess_eq_zero_of_sum hzero.symm x
    exact min_eq_left (excess_eq_zero_iff.mp hnone)
  · rw [mul_div_cancel₀ _ hpos.ne', min_add_excess]

end Emitted

/-- The draft is proportional to the target where it does not exceed it. If it exceeds the
target at two tokens, the target has none of them. -/
def Proportional (p q : Fin vocabSize → ℚ) : Prop :=
  (∃ c, ∀ x, q x ≤ p x → q x = c * p x) ∧
    ∀ x y, x ≠ y → p x < q x → p y < q y → p x = 0

section Compressed

variable {p q : FiniteDist (Fin vocabSize)}
variable {draftProbs : Fin vocabSize → DraftProbs vocabSize} {d x : Fin vocabSize}

theorem Compressed.selectedDraftProb_eq (h : Compressed q draftProbs) (d : Fin vocabSize) :
    (draftProbs d).selectedDraftProb d = q d := by
  cases h with
  | selected => rfl
  | validateDense enable =>
      cases enable with
      | false => exact update_self d _ _
      | true => rfl
  | validateSelected enable =>
      cases enable with
      | false => exact update_self d _ _
      | true => rfl

theorem Compressed.remainingProbs_eq (h : Compressed q draftProbs) (hlt : p d < q d) :
    remainingProbs p d (draftProbs d) = update p d 0 := by
  have hdense : (fun x => max (p x - update (0 : Fin vocabSize → ℚ) d (q d) x) 0) =
      update p d 0 := by
    funext x
    by_cases hx : x = d
    · rw [hx, update_self, update_self, max_eq_right (by linarith)]
    · rw [update_of_ne hx, update_of_ne hx]
      exact (congrArg (max · 0) (sub_zero _)).trans (max_eq_left (p.nonneg x))
  cases h with
  | selected => rfl
  | validateDense enable =>
      cases enable with
      | false => exact hdense
      | true => rfl
  | validateSelected enable =>
      cases enable with
      | false => exact hdense
      | true => rfl

theorem sum_update (p : FiniteDist (Fin vocabSize)) (d : Fin vocabSize) :
    ∑ y, update p d 0 y = 1 - p d := by
  have hsum := Finset.sum_update_of_mem (Finset.mem_univ d) p.prob 0
  have hrest := Finset.add_sum_erase Finset.univ p.prob (Finset.mem_univ d)
  rw [p.sum_eq, Finset.erase_eq] at hrest
  linarith

theorem Compressed.recoveredShare_eq (h : Compressed q draftProbs) :
    recoveredShare p q draftProbs d x =
      if x = d then 0 else excess q p d * (p x / (1 - p d)) := by
  rw [recoveredShare]
  rcases (excess_nonneg (p := q) (q := p) (x := d)).eq_or_lt with hzero | hpos
  · rw [← hzero, zero_mul, zero_mul, ite_self]
  · rw [h.remainingProbs_eq (excess_pos_iff.mp hpos), sum_update, update_apply]
    split
    · rw [zero_div, mul_zero]
    · rfl

theorem Compressed.sum_remaining_pos (h : Compressed q draftProbs) (hlt : p d < q d) :
    0 < ∑ y, remainingProbs p d (draftProbs d) y := by
  rw [h.remainingProbs_eq hlt, sum_update]
  have := q.prob_le_one d
  linarith

theorem Compressed.emitted_eq {draw : (Fin vocabSize → ℚ) → Option (FiniteDist (Fin vocabSize))}
    (h : Compressed q draftProbs) (hdraw : Multinomial draw)
    (hdrawable : Drawable draw p q draftProbs) :
    emitted draw p q draftProbs x = min (p x) (q x) +
      ∑ d, if x = d then 0 else excess q p d * (p x / (1 - p d)) := by
  rw [Sampling.emitted_eq hdraw h.selectedDraftProb_eq hdrawable fun d => h.sum_remaining_pos]
  congr 1
  exact Finset.sum_congr rfl fun d _ => h.recoveredShare_eq

end Compressed

/-- What the recovered tokens add to a token, when the target without the draft token is the
recovered row. -/
def takenOver (p q : Fin vocabSize → ℚ) (x : Fin vocabSize) : ℚ :=
  ∑ d, if x = d then 0 else excess q p d * (p x / (1 - p d))

section Exact

variable {p q : FiniteDist (Fin vocabSize)} {d x y : Fin vocabSize}

theorem one_sub_pos (hlt : p d < q d) : 0 < 1 - p d := by
  have := q.prob_le_one d
  linarith

theorem takenOver_term_nonneg :
    0 ≤ if x = d then 0 else excess q p d * (p x / (1 - p d)) := by
  split
  · exact le_refl 0
  · have hmass : 0 ≤ 1 - p d := sub_nonneg.mpr (p.prob_le_one d)
    exact mul_nonneg excess_nonneg (div_nonneg (p.nonneg x) hmass)

theorem takenOver_of_le (hle : q x ≤ p x) :
    takenOver p q x = (∑ d, excess q p d / (1 - p d)) * p x := by
  rw [Finset.sum_mul]
  refine Finset.sum_congr rfl fun d _ => ?_
  split
  · rename_i heq
    rw [← heq, excess_of_le hle, zero_div, zero_mul]
  · rw [mul_div_assoc', div_mul_eq_mul_div]

theorem proportional_of_takenOver (h : ∀ x, takenOver p q x = excess p q x) :
    Proportional p q := by
  refine ⟨⟨1 - ∑ d, excess q p d / (1 - p d), fun x hle => ?_⟩, fun x y hne hx hy => ?_⟩
  · have htaken := h x
    rw [takenOver_of_le hle, excess_of_ge hle] at htaken
    rw [sub_mul, one_mul, htaken, sub_sub_cancel]
  · have hnone : takenOver p q x = 0 := (h x).trans (excess_of_le hx.le)
    have hterm := (Finset.sum_eq_zero_iff_of_nonneg
      fun d _ => takenOver_term_nonneg).mp hnone y (Finset.mem_univ y)
    rw [if_neg hne] at hterm
    have hquotient := (mul_eq_zero.mp hterm).resolve_left (excess_pos_iff.mpr hy).ne'
    exact (div_eq_zero_iff.mp hquotient).resolve_right (one_sub_pos hy).ne'

/-- The mass of the target where the draft does not exceed it. -/
def unexceeded (p q : Fin vocabSize → ℚ) : ℚ := ∑ x, if p x < q x then 0 else p x

theorem Proportional.one_sub_eq (h : Proportional p q) (hlt : p d < q d) :
    1 - p d = unexceeded p q := by
  have hsplit : ∀ x, p x = (if p x < q x then 0 else p x) + if x = d then p d else 0 := by
    intro x
    by_cases hx : x = d
    · rw [hx, if_pos hlt, if_pos rfl, zero_add]
    · rw [if_neg hx, add_zero]
      split
      · rename_i hxlt
        exact h.2 x d hx hxlt hlt
      · rfl
  have hsum := p.sum_eq
  rw [Finset.sum_congr rfl fun x _ => hsplit x, Finset.sum_add_distrib,
    Finset.sum_ite_eq' Finset.univ d, if_pos (Finset.mem_univ d)] at hsum
  rw [unexceeded]
  linarith

theorem takenOver_of_proportional (h : Proportional p q) (x : Fin vocabSize) :
    takenOver p q x = excess p q x := by
  obtain ⟨c, hc⟩ := h.1
  rcases lt_or_ge (p x) (q x) with hlt | hle
  · -- Every other exceeded token is followed by tokens that the target has.
    rw [excess_of_le hlt.le]
    refine Finset.sum_eq_zero fun d _ => ?_
    split
    · rfl
    · rename_i hne
      rcases lt_or_ge (p d) (q d) with hd | hd
      · rw [h.2 x d hne hlt hd, zero_div, mul_zero]
      · rw [excess_of_le hd, zero_mul]
  · have htotal : ∑ d, excess q p d = (1 - c) * unexceeded p q := by
      rw [← sum_excess_comm, unexceeded, Finset.mul_sum]
      refine Finset.sum_congr rfl fun z _ => ?_
      split
      · rename_i hz
        rw [excess_of_le hz.le, mul_zero]
      · rename_i hz
        rw [excess_of_ge (not_lt.mp hz), hc z (not_lt.mp hz)]
        ring
    have hshares : ∑ d, excess q p d / (1 - p d) = (∑ d, excess q p d) / unexceeded p q := by
      rw [Finset.sum_div]
      refine Finset.sum_congr rfl fun d _ => ?_
      rcases lt_or_ge (p d) (q d) with hd | hd
      · rw [h.one_sub_eq hd]
      · rw [excess_of_le hd, zero_div, zero_div]
    rw [takenOver_of_le hle, hshares, excess_of_ge hle, hc x hle]
    rcases (sum_excess_nonneg (p := q) (q := p)).eq_or_lt with hzero | hpos
    · have hnone := excess_eq_zero_of_sum ((sum_excess_comm p q).trans hzero.symm) x
      rw [excess_of_ge hle, hc x hle] at hnone
      rw [← hzero, zero_div, zero_mul, hnone]
    · have hmass : unexceeded p q ≠ 0 := by
        intro hnone
        rw [htotal, hnone, mul_zero] at hpos
        exact lt_irrefl 0 hpos
      rw [htotal, mul_div_cancel_right₀ _ hmass]
      ring

theorem min_add_takenOver_iff :
    (∀ x, min (p x) (q x) + takenOver p q x = p x) ↔ Proportional p q := by
  constructor
  · intro h
    refine proportional_of_takenOver fun x => ?_
    have := h x
    have := min_add_excess (p := p) (q := q) (x := x)
    linarith
  · intro h x
    rw [takenOver_of_proportional h, min_add_excess]

end Exact

/-- With dense rows the first token has the target distribution. With compressed draft
probabilities a rejected draft token passes its excess to the other tokens in proportion to
the target, and the first token has the target distribution if and only if the draft is
proportional. -/
theorem emitted_distribution
    {draw : (Fin vocabSize → ℚ) → Option (FiniteDist (Fin vocabSize))} (hdraw : Multinomial draw)
    (p q : FiniteDist (Fin vocabSize)) :
    (Drawable draw p q (denseProbs q) → ∀ x, emitted draw p q (denseProbs q) x = p x) ∧
    ∀ draftProbs, Compressed q draftProbs → Drawable draw p q draftProbs →
      (∀ x, emitted draw p q draftProbs x = min (p x) (q x) + takenOver p q x) ∧
      ((∀ x, emitted draw p q draftProbs x = p x) ↔ Proportional p q) := by
  refine ⟨fun hdrawable x => emitted_dense hdraw hdrawable, ?_⟩
  intro draftProbs hcompressed hdrawable
  have hemitted : ∀ x, emitted draw p q draftProbs x = min (p x) (q x) + takenOver p q x :=
    fun x => hcompressed.emitted_eq hdraw hdrawable
  refine ⟨hemitted, ?_⟩
  simp only [hemitted]
  exact min_add_takenOver_iff

def drawRow (row : Fin vocabSize → ℚ) : Option (FiniteDist (Fin vocabSize)) :=
  if h : (∀ x, 0 ≤ row x) ∧ 0 < ∑ x, row x then
    some
      { prob := fun x => row x / ∑ y, row y
        nonneg := fun x => div_nonneg (h.1 x) h.2.le
        sum_eq := by rw [← Finset.sum_div, div_self h.2.ne'] }
  else none

theorem multinomial_drawRow : Multinomial (@drawRow vocabSize) where
  proportional _ hnonneg hpos := ⟨_, dif_pos ⟨hnonneg, hpos⟩, fun _ => rfl⟩

/-- Three tokens of one probability. -/
def evenTarget : FiniteDist (Fin 3) where
  prob := fun _ => 1 / 3
  nonneg := by decide +kernel
  sum_eq := by decide +kernel

/-- A draft that never draws the last token. -/
def halfDraft : FiniteDist (Fin 3) where
  prob := ![1 / 2, 1 / 2, 0]
  nonneg := by decide +kernel
  sum_eq := by decide +kernel

instance {n : Nat} {draw : (Fin n → ℚ) → Option (FiniteDist (Fin n))} {p q : Fin n → ℚ}
    {draftProbs : Fin n → DraftProbs n} : Decidable (Drawable draw p q draftProbs) :=
  inferInstanceAs (Decidable (∀ _, _ → _))

theorem emitted_distribution_half :
    (∀ x, emitted drawRow evenTarget halfDraft (denseProbs halfDraft) x = 1 / 3) ∧
      ∀ x, emitted drawRow evenTarget halfDraft (selectedProbs halfDraft) x =
        min (1 / 3) (halfDraft x) + takenOver evenTarget halfDraft x := by
  have hdistribution := emitted_distribution multinomial_drawRow evenTarget halfDraft
  exact ⟨hdistribution.1 (by decide +kernel),
    (hdistribution.2 _ .selected (by decide +kernel)).1⟩

/-- With compressed draft probabilities the two drafted tokens come out too often. -/
theorem compressed_shifts_mass :
    (∀ x, emitted drawRow evenTarget halfDraft (selectedProbs halfDraft) x =
      (![5 / 12, 5 / 12, 1 / 6] : Fin 3 → ℚ) x) ∧
    (∀ enable x, emitted drawRow evenTarget halfDraft
        (fun d => validateProbs enable d (denseProbs halfDraft d)) x =
      (![5 / 12, 5 / 12, 1 / 6] : Fin 3 → ℚ) x) ∧
    Multinomial (@drawRow 3) ∧ evenTarget 0 = 1 / 3 := by
  refine ⟨by decide +kernel, by decide +kernel, multinomial_drawRow, rfl⟩

end Xllm.Sampling
