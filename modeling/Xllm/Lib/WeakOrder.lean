import Mathlib.Data.Set.Basic
import Mathlib.Order.Defs.LinearOrder

/-!
# Strict weak orders given by Boolean comparators

Sorted containers and sorts ask for a comparator that is a strict weak order on the values
they are given. Comparators are built from keys, and from a comparator inside every class of
values behind an order of the classes; both constructions preserve the property. The order is
turned round by exchanging the arguments. Negation does not do it: a negated comparator holds
of every value and itself.
-/

namespace WeakOrder

universe u v

variable {α : Type u} {κ : Type v}

/-- Neither value comes before the other one. -/
def Tied (lt : α → α → Bool) (a b : α) : Prop :=
  lt a b = false ∧ lt b a = false

structure StrictWeakOn (lt : α → α → Bool) (S : Set α) : Prop where
  irrefl : ∀ a ∈ S, lt a a = false
  asymm : ∀ a ∈ S, ∀ b ∈ S, lt a b = true → lt b a = false
  trans : ∀ a ∈ S, ∀ b ∈ S, ∀ c ∈ S, lt a b = true → lt b c = true → lt a c = true
  tied_trans : ∀ a ∈ S, ∀ b ∈ S, ∀ c ∈ S, Tied lt a b → Tied lt b c → Tied lt a c

variable {lt : α → α → Bool} {S : Set α} {a b c : α}

theorem StrictWeakOn.of_cotrans
    (asymm : ∀ a ∈ S, ∀ b ∈ S, lt a b = true → lt b a = false)
    (cotrans : ∀ a ∈ S, ∀ b ∈ S, ∀ c ∈ S, lt a c = true → lt a b = true ∨ lt b c = true) :
    StrictWeakOn lt S := by
  have irrefl : ∀ a ∈ S, lt a a = false := by
    intro a ha
    apply Bool.eq_false_of_not_eq_true
    intro h
    exact Bool.false_ne_true ((asymm a ha a ha h).symm.trans h)
  have untied : ∀ a ∈ S, ∀ b ∈ S, ∀ c ∈ S, lt a b = false → lt b c = false → lt a c = false := by
    intro a ha b hb c hc hab hbc
    apply Bool.eq_false_of_not_eq_true
    intro hac
    cases cotrans a ha b hb c hc hac with
    | inl h => exact Bool.false_ne_true (hab.symm.trans h)
    | inr h => exact Bool.false_ne_true (hbc.symm.trans h)
  constructor
  · exact irrefl
  · exact asymm
  · intro a ha b hb c hc hab hbc
    apply (cotrans a ha c hc b hb hab).resolve_right
    rw [asymm b hb c hc hbc]
    exact Bool.false_ne_true
  · rintro a ha b hb c hc ⟨hab, hba⟩ ⟨hbc, hcb⟩
    exact ⟨untied a ha b hb c hc hab hbc, untied c hc b hb a ha hcb hba⟩

theorem StrictWeakOn.cotrans (h : StrictWeakOn lt S) (ha : a ∈ S) (hb : b ∈ S) (hc : c ∈ S)
    (hac : lt a c = true) : lt a b = true ∨ lt b c = true := by
  by_contra none
  rw [not_or, Bool.not_eq_true, Bool.not_eq_true] at none
  cases hba : lt b a with
  | true =>
      have hbc := h.trans b hb a ha c hc hba hac
      exact Bool.false_ne_true (none.2.symm.trans hbc)
  | false =>
      cases hcb : lt c b with
      | true =>
          have hab := h.trans a ha c hc b hb hac hcb
          exact Bool.false_ne_true (none.1.symm.trans hab)
      | false =>
          have tied := h.tied_trans a ha b hb c hc ⟨none.1, hba⟩ ⟨none.2, hcb⟩
          exact Bool.false_ne_true (tied.1.symm.trans hac)

theorem strictWeakOn_empty : StrictWeakOn lt ∅ := by
  constructor
  · exact fun a ha => ha.elim
  · exact fun a ha => ha.elim
  · exact fun a ha => ha.elim
  · exact fun a ha => ha.elim

variable [LinearOrder κ]

def byKey (key : α → κ) (a b : α) : Bool :=
  decide (key a < key b)

theorem strictWeakOn_byKey (key : α → κ) : StrictWeakOn (byKey key) S := by
  apply StrictWeakOn.of_cotrans
  · intro a _ b _ h
    exact decide_eq_false (lt_asymm (of_decide_eq_true h))
  · intro a _ b _ c _ h
    cases lt_or_ge (key a) (key b) with
    | inl hab => exact .inl (decide_eq_true hab)
    | inr hba => exact .inr (decide_eq_true (lt_of_le_of_lt hba (of_decide_eq_true h)))

/-- Values in the order of their classes, and in an order of its own inside each class. -/
def byClass (key : α → κ) (inside : κ → α → α → Bool) (a b : α) : Bool :=
  if key a = key b then inside (key a) a b else decide (key a < key b)

variable {key : α → κ} {inside : κ → α → α → Bool}

@[simp] theorem byClass_same (h : key a = key b) : byClass key inside a b = inside (key a) a b :=
  if_pos h

@[simp] theorem byClass_lt (h : key a < key b) : byClass key inside a b = true := by
  rw [byClass, if_neg h.ne, decide_eq_true h]

@[simp] theorem byClass_gt (h : key b < key a) : byClass key inside a b = false := by
  rw [byClass, if_neg h.ne', decide_eq_false h.not_gt]

/-- Classes in order, each ordered inside. -/
theorem strictWeakOn_byClass
    (each : ∀ k, StrictWeakOn (inside k) {a ∈ S | key a = k}) :
    StrictWeakOn (byClass key inside) S := by
  apply StrictWeakOn.of_cotrans
  · intro a ha b hb h
    rcases lt_trichotomy (key a) (key b) with hlt | heq | hgt
    · exact byClass_gt hlt
    · rw [byClass_same heq] at h
      rw [byClass_same heq.symm, ← heq]
      exact (each (key a)).asymm a ⟨ha, rfl⟩ b ⟨hb, heq.symm⟩ h
    · rw [byClass_gt hgt] at h
      cases h
  · intro a ha b hb c hc h
    rcases lt_trichotomy (key a) (key b) with hlt | heq | hgt
    · exact .inl (byClass_lt hlt)
    · rcases lt_trichotomy (key a) (key c) with hlt' | heq' | hgt'
      · exact .inr (byClass_lt (heq ▸ hlt'))
      · rw [byClass_same heq'] at h
        rw [byClass_same heq, byClass_same (heq.symm.trans heq'), ← heq]
        exact (each (key a)).cotrans ⟨ha, rfl⟩ ⟨hb, heq.symm⟩ ⟨hc, heq'.symm⟩ h
      · rw [byClass_gt hgt'] at h
        cases h
    · rcases lt_trichotomy (key a) (key c) with hlt' | heq' | hgt'
      · exact .inr (byClass_lt (hgt.trans hlt'))
      · exact .inr (byClass_lt (heq' ▸ hgt))
      · rw [byClass_gt hgt'] at h
        cases h

omit [LinearOrder κ]

theorem StrictWeakOn.swap (h : StrictWeakOn lt S) : StrictWeakOn (fun a b => lt b a) S := by
  apply StrictWeakOn.of_cotrans
  · exact fun a ha b hb hba => h.asymm b hb a ha hba
  · intro a ha b hb c hc hca
    exact (h.cotrans hc hb ha hca).symm

/-- The negation of an irreflexive comparison orders the empty set only. -/
theorem strictWeakOn_not_iff (irrefl : ∀ a ∈ S, lt a a = false) :
    StrictWeakOn (fun a b => !lt a b) S ↔ S = ∅ := by
  constructor
  · intro h
    apply Set.eq_empty_of_forall_notMem
    intro a ha
    have reflexive := h.irrefl a ha
    rw [irrefl a ha] at reflexive
    cases reflexive
  · rintro rfl
    exact strictWeakOn_empty

end WeakOrder
