import Mathlib.Data.Int.Basic
import Mathlib.Order.Lattice
import Mathlib.Order.MinMax

/-!
# Binary search in a half-open interval

The interval `[left, right)` is narrowed to the point where a test that succeeds at first
fails. A test may break off, and it yields a value; the search keeps the value of the last
test that has succeeded, which is the one just below the point that is found.

A second part is about the larger of two quantities, of which one rises and the other one
falls. It is smallest beside the point where they cross.
-/

namespace BinarySearch

universe u

variable {σ : Type u}

/-- The search. `test` gives the outcome at a point and the value measured there. -/
def loop (test : ℤ → Option (Bool × σ)) (left right : ℤ) (kept : Option σ) :
    Option (ℤ × Option σ) :=
  if left < right then
    let mid := left + (right - left) / 2
    match test mid with
    | none => none
    | some (true, value) => loop test (mid + 1) right (some value)
    | some (false, _) => loop test left mid kept
  else some (left, kept)
termination_by (right - left).toNat

variable {test : ℤ → Option (Bool × σ)} {left right : ℤ} {kept : Option σ}

@[simp] theorem loop_of_le (h : right ≤ left) : loop test left right kept = some (left, kept) := by
  rw [loop, if_neg (Int.not_lt.2 h)]

theorem loop_of_lt {holds : Bool} {value : σ} (h : left < right)
    (htest : test (left + (right - left) / 2) = some (holds, value)) :
    loop test left right kept =
      if holds then loop test (left + (right - left) / 2 + 1) right (some value)
      else loop test left (left + (right - left) / 2) kept := by
  rw [loop, if_pos h]
  simp only [htest]
  cases holds <;> rfl

structure Ends (p : ℤ → Prop) (value : ℤ → σ) (left right : ℤ) (kept : Option σ)
    (r : ℤ × Option σ) : Prop where
  lower : left ≤ r.1
  upper : r.1 ≤ right
  before : ∀ i, left ≤ i → i < r.1 → p i
  behind : ∀ i, r.1 ≤ i → i < right → ¬ p i
  kept_eq : r.2 = if r.1 = left then kept else some (value (r.1 - 1))

/-- A search for the end of a property that, once it fails, fails for good. -/
theorem loop_spec (test : ℤ → Option (Bool × σ)) (p : ℤ → Prop) [DecidablePred p]
    (value : ℤ → σ) (left right : ℤ) (kept : Option σ) (hle : left ≤ right)
    (htest : ∀ i, left ≤ i → i < right → test i = some (decide (p i), value i))
    (hp : ∀ i j, left ≤ i → i ≤ j → j < right → p j → p i) :
    ∃ r, loop test left right kept = some r ∧ Ends p value left right kept r := by
  -- the measure is the one of the loop
  generalize hsize : (right - left).toNat = size
  induction size using Nat.strong_induction_on generalizing left right kept with
  | _ size ih =>
    by_cases hlt : left < right
    case neg =>
      have heq : right = left := by omega
      subst heq
      refine ⟨(right, kept), loop_of_le (Int.le_refl right), ?_⟩
      exact ⟨Int.le_refl _, Int.le_refl _, fun i h h' => absurd h (Int.not_le.2 h'),
        fun i h h' => absurd h (Int.not_le.2 h'), (if_pos rfl).symm⟩
    case pos =>
      generalize hmid : left + (right - left) / 2 = mid
      have hleft : left ≤ mid := by omega
      have hright : mid < right := by omega
      have hloop : loop test left right kept = _ := loop_of_lt hlt (hmid ▸ htest mid hleft hright)
      rw [hmid] at hloop
      by_cases hpm : p mid
      case pos =>
        rw [decide_eq_true hpm] at hloop
        obtain ⟨r, hr, hends⟩ := ih (right - (mid + 1)).toNat (by omega)
          (mid + 1) right (some (value mid)) (by omega)
          (fun i h h' => htest i (by omega) h')
          (fun i j h h' h'' => hp i j (by omega) h' h'') rfl
        have hlower := hends.lower
        refine ⟨r, hloop.trans hr, by omega, hends.upper, ?_, hends.behind, ?_⟩
        · intro i hi hir
          by_cases him : i ≤ mid
          · exact hp i mid hi him hright hpm
          · exact hends.before i (by omega) hir
        · rw [hends.kept_eq, if_neg (by omega : ¬ r.1 = left)]
          split
          case isTrue heq => rw [heq, Int.add_sub_cancel]
          case isFalse => rfl
      case neg =>
        rw [decide_eq_false hpm] at hloop
        obtain ⟨r, hr, hends⟩ := ih (mid - left).toNat (by omega) left mid kept hleft
          (fun i h h' => htest i h (by omega))
          (fun i j h h' h'' => hp i j h h' (by omega)) rfl
        refine ⟨r, hloop.trans hr, hends.lower, by have := hends.upper; omega, hends.before,
          ?_, hends.kept_eq⟩
        intro i hi hir
        by_cases him : i < mid
        · exact hends.behind i hi him
        · exact fun hpi => hpm (hp mid i hleft (by omega) hir hpi)

/-- A search that does not break off is one with every test that agrees where the first one
has an outcome. -/
theorem loop_agrees {test' : ℤ → Option (Bool × σ)} {r : ℤ × Option σ}
    (htest : ∀ i o, test i = some o → test' i = some o)
    (h : loop test left right kept = some r) : loop test' left right kept = some r := by
  generalize hsize : (right - left).toNat = size
  induction size using Nat.strong_induction_on generalizing left right kept with
  | _ size ih =>
    by_cases hlt : left < right
    case neg =>
      rw [loop_of_le (Int.not_lt.1 hlt)] at h ⊢
      exact h
    case pos =>
      rw [loop, if_pos hlt] at h
      cases hmid : test (left + (right - left) / 2) with
      | none => simp only [hmid, reduceCtorEq] at h
      | some o =>
          obtain ⟨holds, value⟩ := o
          rw [loop_of_lt hlt (htest _ _ hmid)]
          cases holds with
          | false =>
              simp only [hmid] at h
              exact ih _ (by omega) h rfl
          | true =>
              simp only [hmid] at h
              exact ih _ (by omega) h rfl

variable {α : Type u} [LinearOrder α] (rising falling : ℤ → α) {i j : ℤ}

theorem max_le_of_before (hfalling : falling j ≤ falling i) (hcross : rising j ≤ falling j) :
    max (rising j) (falling j) ≤ max (rising i) (falling i) := by
  rw [max_eq_right hcross]
  exact le_max_of_le_right hfalling

theorem max_le_of_behind (hrising : rising j ≤ rising i) (hcross : falling j ≤ rising j) :
    max (rising j) (falling j) ≤ max (rising i) (falling i) := by
  rw [max_eq_left hcross]
  exact le_max_of_le_left hrising

end BinarySearch
