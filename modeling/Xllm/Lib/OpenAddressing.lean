import Mathlib.Data.Finset.Card
import Mathlib.Data.Fintype.EquivFin
import Mathlib.Algebra.Order.BigOperators.Group.Finset
import Mathlib.Data.Nat.ModEq
import Mathlib.Data.Nat.Prime.Basic
import Mathlib.Tactic.Ring

/-!
# Open addressing with tombstones

A table has `cap` slots. Every key has a sequence of slots in which it may stand, and a search
follows the sequence until it finds the key or an empty slot. Erasing leaves a tombstone,
which a later insertion may reuse.

`WellPlaced` says that a key stands only once and that no empty slot comes before it in its
sequence. Then a search decides membership, and the slot it proposes for a missing key keeps
the table sound. The triangular numbers reach every slot of a table whose size is a power of
two.
-/

namespace OpenAddressing

open Function

variable {κ α : Type}

inductive Slot (κ α : Type)
  | empty
  | tombstone
  | filled (key : κ) (value : α)

def Slot.isFilled : Slot κ α → Bool
  | .filled _ _ => true
  | _ => false

def Slot.isTombstone : Slot κ α → Bool
  | .tombstone => true
  | _ => false

def Slot.isEmpty : Slot κ α → Bool
  | .empty => true
  | _ => false

def count (p : Slot κ α → Bool) (cap : Nat) (slots : Nat → Slot κ α) : Nat :=
  ((Finset.range cap).filter fun i => p (slots i)).card

variable {p : Slot κ α → Bool} {cap i : Nat} {slots : Nat → Slot κ α} {s : Slot κ α}

theorem count_update_same (h : p s = p (slots i)) :
    count p cap (update slots i s) = count p cap slots := by
  have hsame : ∀ j, p (update slots i s j) = p (slots j) := by
    intro j
    by_cases hj : j = i
    · rw [hj, update_self, h]
    · rw [update_of_ne hj]
  simp only [count, hsame]

theorem count_update_more (hi : i < cap) (hbefore : p (slots i) = false) (hafter : p s = true) :
    count p cap (update slots i s) = count p cap slots + 1 := by
  have hinsert : (Finset.range cap).filter (fun j => p (update slots i s j)) =
      insert i ((Finset.range cap).filter fun j => p (slots j)) := by
    ext j
    by_cases hj : j = i
    · simp [hj, hafter, hi]
    · simp [hj]
  rw [count, hinsert, Finset.card_insert_of_notMem]
  · rfl
  · simp [hbefore]

theorem count_update_less (hi : i < cap) (hbefore : p (slots i) = true) (hafter : p s = false) :
    count p cap (update slots i s) + 1 = count p cap slots := by
  have herase : (Finset.range cap).filter (fun j => p (update slots i s j)) =
      ((Finset.range cap).filter fun j => p (slots j)).erase i := by
    ext j
    by_cases hj : j = i
    · simp [hj, hafter]
    · simp [hj]
  rw [count, herase]
  exact Finset.card_erase_add_one (by simp [hi, hbefore])

@[simp] theorem count_empty_table (hp : p .empty = false) :
    count p cap (fun _ => Slot.empty) = 0 := by
  simp [count, hp]

theorem count_pos_iff : 0 < count p cap slots ↔ ∃ i < cap, p (slots i) = true := by
  simp [count, Finset.Nonempty]

@[simp] theorem count_succ (cap : Nat) (slots : Nat → Slot κ α) :
    count p (cap + 1) slots = count p cap slots + if p (slots cap) then 1 else 0 := by
  rw [count, Finset.range_add_one, Finset.filter_insert]
  split
  · rw [Finset.card_insert_of_notMem (by simp)]
    rfl
  · rfl

theorem count_total (cap : Nat) (slots : Nat → Slot κ α) :
    count Slot.isFilled cap slots + count Slot.isTombstone cap slots +
      count Slot.isEmpty cap slots = cap := by
  induction cap with
  | zero => rfl
  | succ cap ih =>
      rw [count_succ, count_succ, count_succ]
      cases slots cap <;> simp only [Slot.isFilled, Slot.isTombstone, Slot.isEmpty,
        Bool.false_eq_true, if_true, if_false] <;> omega

theorem exists_empty (h : count Slot.isFilled cap slots + count Slot.isTombstone cap slots < cap) :
    ∃ i < cap, slots i = .empty := by
  have htotal := count_total cap slots
  have hpos : 0 < count Slot.isEmpty cap slots := by omega
  obtain ⟨i, hi, hempty⟩ := count_pos_iff.mp hpos
  refine ⟨i, hi, ?_⟩
  cases hslot : slots i with
  | empty => rfl
  | tombstone =>
      rw [hslot] at hempty
      cases hempty
  | filled key value =>
      rw [hslot] at hempty
      cases hempty

/-- The sequences reach every slot, and no others. -/
structure Covers (cap : Nat) (probe : κ → Nat → Nat) : Prop where
  lt : ∀ key j, probe key j < cap
  reaches : ∀ key i, i < cap → ∃ j < cap, probe key j = i

variable {probe : κ → Nat → Nat} {key key' : κ} {value value' : α}

def Holds (cap : Nat) (slots : Nat → Slot κ α) (key : κ) (value : α) : Prop :=
  ∃ i < cap, slots i = .filled key value

/-- A place in the sequence of a key that a search for it does not pass by. -/
def Reached (probe : κ → Nat → Nat) (cap : Nat) (slots : Nat → Slot κ α) (key : κ) (i : Nat) :
    Prop :=
  ∃ j < cap, probe key j = i ∧ ∀ j' < j, slots (probe key j') ≠ .empty

structure WellPlaced (probe : κ → Nat → Nat) (cap : Nat) (slots : Nat → Slot κ α) : Prop where
  once : ∀ i i' key value value', i < cap → i' < cap → slots i = .filled key value →
    slots i' = .filled key value' → i = i'
  reached : ∀ i key value, i < cap → slots i = .filled key value → Reached probe cap slots key i

theorem WellPlaced.empty : WellPlaced probe cap (fun _ => (Slot.empty : Slot κ α)) where
  once := by
    intro i i' key value value' _ _ h
    cases h
  reached := by
    intro i key value _ h
    cases h

theorem Reached.update (h : Reached probe cap slots key i) {j : Nat} (hs : s ≠ .empty) :
    Reached probe cap (update slots j s) key i := by
  obtain ⟨k, hk, hprobe, hbefore⟩ := h
  refine ⟨k, hk, hprobe, fun k' hk' => ?_⟩
  by_cases hj : probe key k' = j
  · rw [hj, update_self]
    exact hs
  · rw [update_of_ne hj]
    exact hbefore k' hk'

/-- A new key goes where its search ended. -/
theorem WellPlaced.insert (h : WellPlaced probe cap slots) (hmissing : ∀ v, ¬ Holds cap slots key v)
    (hi : Reached probe cap slots key i) (value : α) :
    WellPlaced probe cap (update slots i (.filled key value)) where
  once := by
    intro j j' key' v v' hj hj' hslot hslot'
    by_cases hji : j = i
    · subst hji
      rw [update_self] at hslot
      cases hslot
      by_cases hji' : j' = j
      · exact hji'.symm
      · rw [update_of_ne hji'] at hslot'
        exact absurd ⟨j', hj', hslot'⟩ (hmissing v')
    · rw [update_of_ne hji] at hslot
      by_cases hji' : j' = i
      · subst hji'
        rw [update_self] at hslot'
        cases hslot'
        exact absurd ⟨j, hj, hslot⟩ (hmissing v)
      · rw [update_of_ne hji'] at hslot'
        exact h.once j j' key' v v' hj hj' hslot hslot'
  reached := by
    intro j key' v hj hslot
    by_cases hji : j = i
    · subst hji
      rw [update_self] at hslot
      cases hslot
      exact hi.update (by nofun)
    · rw [update_of_ne hji] at hslot
      exact (h.reached j key' v hj hslot).update (by nofun)

theorem holds_insert (hi : i < cap) (hfree : (slots i).isFilled = false) (value : α) :
    Holds cap (update slots i (.filled key value)) key' value' ↔
      (key' = key ∧ value' = value) ∨ Holds cap slots key' value' := by
  constructor
  · intro h
    obtain ⟨j, hj, hslot⟩ := h
    by_cases hji : j = i
    · subst hji
      rw [update_self] at hslot
      cases hslot
      exact .inl ⟨rfl, rfl⟩
    · rw [update_of_ne hji] at hslot
      exact .inr ⟨j, hj, hslot⟩
  · intro h
    cases h with
    | inl h =>
        obtain ⟨rfl, rfl⟩ := h
        exact ⟨i, hi, update_self _ _ _⟩
    | inr h =>
        obtain ⟨j, hj, hslot⟩ := h
        have hji : j ≠ i := by
          intro heq
          rw [← heq, hslot] at hfree
          cases hfree
        exact ⟨j, hj, by rw [update_of_ne hji, hslot]⟩

theorem WellPlaced.erase (h : WellPlaced probe cap slots) (i : Nat) :
    WellPlaced probe cap (update slots i .tombstone) where
  once := by
    intro j j' key' v v' hj hj' hslot hslot'
    have hold : ∀ {k : Nat} {u : α}, update slots i .tombstone k = .filled key' u →
        slots k = .filled key' u := by
      intro k u hk
      by_cases hki : k = i
      · rw [hki, update_self] at hk
        cases hk
      · rwa [update_of_ne hki] at hk
    exact h.once j j' key' v v' hj hj' (hold hslot) (hold hslot')
  reached := by
    intro j key' v hj hslot
    by_cases hji : j = i
    · rw [hji, update_self] at hslot
      cases hslot
    · rw [update_of_ne hji] at hslot
      exact (h.reached j key' v hj hslot).update (by nofun)

theorem WellPlaced.holds_erase (h : WellPlaced probe cap slots) (hi : i < cap)
    (hslot : slots i = .filled key value) :
    Holds cap (update slots i .tombstone) key' value' ↔
      key' ≠ key ∧ Holds cap slots key' value' := by
  constructor
  · intro hold
    obtain ⟨j, hj, hslot'⟩ := hold
    by_cases hji : j = i
    · rw [hji, update_self] at hslot'
      cases hslot'
    · rw [update_of_ne hji] at hslot'
      refine ⟨?_, j, hj, hslot'⟩
      intro heq
      subst heq
      exact hji (h.once j i key' value' value hj hi hslot' hslot)
  · intro hold
    obtain ⟨hne, j, hj, hslot'⟩ := hold
    have hji : j ≠ i := by
      intro heq
      rw [heq, hslot] at hslot'
      cases hslot'
      exact hne rfl
    exact ⟨j, hj, by rw [update_of_ne hji, hslot']⟩

theorem WellPlaced.assign (h : WellPlaced probe cap slots) (hslot : slots i = .filled key value)
    (value' : α) : WellPlaced probe cap (update slots i (.filled key value')) where
  once := by
    intro j j' k v v' hj hj' hs hs'
    have hold : ∀ {l : Nat} {u : α}, update slots i (.filled key value') l = .filled k u →
        ∃ u', slots l = .filled k u' := by
      intro l u hl
      by_cases hli : l = i
      · subst hli
        rw [update_self] at hl
        cases hl
        exact ⟨value, hslot⟩
      · rw [update_of_ne hli] at hl
        exact ⟨u, hl⟩
    obtain ⟨u, hu⟩ := hold hs
    obtain ⟨u', hu'⟩ := hold hs'
    exact h.once j j' k u u' hj hj' hu hu'
  reached := by
    intro j k v hj hs
    by_cases hji : j = i
    · subst hji
      rw [update_self] at hs
      cases hs
      exact (h.reached j key value hj hslot).update (by nofun)
    · rw [update_of_ne hji] at hs
      exact (h.reached j k v hj hs).update (by nofun)

theorem WellPlaced.holds_assign (h : WellPlaced probe cap slots) (hi : i < cap)
    (hslot : slots i = .filled key value) {new : α} :
    Holds cap (update slots i (.filled key new)) key' value' ↔
      (key' = key ∧ value' = new) ∨ (key' ≠ key ∧ Holds cap slots key' value') := by
  constructor
  · intro hold
    obtain ⟨j, hj, hs⟩ := hold
    by_cases hji : j = i
    · subst hji
      rw [update_self] at hs
      cases hs
      exact .inl ⟨rfl, rfl⟩
    · rw [update_of_ne hji] at hs
      refine .inr ⟨?_, j, hj, hs⟩
      intro heq
      subst heq
      exact hji (h.once j i key' value' value hj hi hs hslot)
  · intro hold
    cases hold with
    | inl hnew =>
        obtain ⟨rfl, rfl⟩ := hnew
        exact ⟨i, hi, update_self _ _ _⟩
    | inr hother =>
        obtain ⟨hne, j, hj, hs⟩ := hother
        have hji : j ≠ i := by
          intro heq
          rw [heq, hslot] at hs
          cases hs
          exact hne rfl
        exact ⟨j, hj, by rw [update_of_ne hji, hs]⟩

/-- What a search returns: the slot of the key, a slot for the missing key, or nothing. -/
inductive Outcome
  | found (i : Nat)
  | free (i : Nat)
  | full

/-- The search from the place `j` of the sequence on, which remembers the first tombstone. -/
def search [DecidableEq κ] (probe : Nat → Nat) (slots : Nat → Slot κ α) (key : κ) :
    Nat → Nat → Option Nat → Outcome
  | 0, _, none => .full
  | 0, _, some tomb => .free tomb
  | fuel + 1, j, tomb =>
      match slots (probe j) with
      | .filled k _ =>
          if k = key then .found (probe j) else search probe slots key fuel (j + 1) tomb
      | .empty => .free (tomb.getD (probe j))
      | .tombstone => search probe slots key fuel (j + 1) (some (tomb.getD (probe j)))

/-- Where a search stands that has not found the key yet. -/
structure Searching (probe : κ → Nat → Nat) (cap : Nat) (slots : Nat → Slot κ α) (key : κ)
    (j : Nat) (tomb : Option Nat) : Prop where
  passed : ∀ j' < j, slots (probe key j') ≠ .empty ∧
    ∀ value, slots (probe key j') ≠ .filled key value
  tombstone : ∀ t, tomb = some t → slots t = .tombstone ∧ Reached probe cap slots key t
  first : tomb = none → ∀ j' < j, slots (probe key j') ≠ .tombstone

theorem Searching.start : Searching probe cap slots key 0 none where
  passed := fun _ h => absurd h (Nat.not_lt_zero _)
  tombstone := nofun
  first := fun _ _ h => absurd h (Nat.not_lt_zero _)

variable {tomb : Option Nat}

theorem Searching.filled {j : Nat} {k : κ}
    (h : Searching probe cap slots key j tomb) (hslot : slots (probe key j) = .filled k value)
    (hne : k ≠ key) : Searching probe cap slots key (j + 1) tomb where
  passed := by
    intro j' hj'
    cases Nat.lt_succ_iff_lt_or_eq.mp hj' with
    | inl hlt => exact h.passed j' hlt
    | inr heq =>
        subst heq
        rw [hslot]
        refine ⟨by nofun, fun v hv => ?_⟩
        cases hv
        exact hne rfl
  tombstone := h.tombstone
  first := by
    intro hnone j' hj'
    cases Nat.lt_succ_iff_lt_or_eq.mp hj' with
    | inl hlt => exact h.first hnone j' hlt
    | inr heq =>
        subst heq
        rw [hslot]
        nofun

theorem Searching.reached {j : Nat} (h : Searching probe cap slots key j tomb) (hj : j < cap) :
    Reached probe cap slots key (probe key j) :=
  ⟨j, hj, rfl, fun j' hj' => (h.passed j' hj').1⟩

theorem Searching.passTombstone {j : Nat} (h : Searching probe cap slots key j tomb)
    (hslot : slots (probe key j) = .tombstone) (hj : j < cap) :
    Searching probe cap slots key (j + 1) (some (tomb.getD (probe key j))) where
  passed := by
    intro j' hj'
    cases Nat.lt_succ_iff_lt_or_eq.mp hj' with
    | inl hlt => exact h.passed j' hlt
    | inr heq =>
        subst heq
        rw [hslot]
        exact ⟨by nofun, by nofun⟩
  tombstone := by
    intro t ht
    cases tomb with
    | none =>
        cases ht
        exact ⟨hslot, h.reached hj⟩
    | some t' =>
        cases ht
        exact h.tombstone _ rfl
  first := nofun

/-- A missing key gets a slot: the first tombstone of its sequence, or else an empty slot. -/
structure Proposed (probe : κ → Nat → Nat) (cap : Nat) (slots : Nat → Slot κ α) (key : κ)
    (i : Nat) : Prop where
  reached : Reached probe cap slots key i
  free : slots i = .empty ∨ slots i = .tombstone

theorem Proposed.lt (h : Proposed probe cap slots key i) (covers : Covers cap probe) : i < cap := by
  obtain ⟨j, -, rfl, -⟩ := h.reached
  exact covers.lt key j

/-- The search of a sound table with a free slot decides membership. -/
theorem search_spec [DecidableEq κ] (covers : Covers cap probe) (h : WellPlaced probe cap slots)
    (hfree : ∃ i < cap, (slots i).isFilled = false) {fuel j : Nat} (hfuel : fuel + j = cap)
    (hs : Searching probe cap slots key j tomb) :
    (∃ i value, i < cap ∧ slots i = .filled key value ∧
        search (probe key) slots key fuel j tomb = .found i) ∨
      ((∀ value, ¬ Holds cap slots key value) ∧
        ∃ i, Proposed probe cap slots key i ∧
          search (probe key) slots key fuel j tomb = .free i) := by
  induction fuel generalizing j tomb with
  | zero =>
      have hall : ∀ i < cap, slots i ≠ .empty ∧ ∀ value, slots i ≠ .filled key value := by
        intro i hi
        obtain ⟨j', hj', rfl⟩ := covers.reaches key i hi
        exact hs.passed j' (by omega)
      right
      refine ⟨fun value hold => ?_, ?_⟩
      · obtain ⟨i, hi, hslot⟩ := hold
        exact (hall i hi).2 value hslot
      · cases htomb : tomb with
        | some t =>
            obtain ⟨hslot, hreached⟩ := hs.tombstone t htomb
            exact ⟨t, ⟨hreached, .inr hslot⟩, rfl⟩
        | none =>
            obtain ⟨i, hi, hunfilled⟩ := hfree
            obtain ⟨j', hj', rfl⟩ := covers.reaches key i hi
            have hnotomb := hs.first htomb j' (by omega)
            have hnotempty := (hall _ hi).1
            cases hslot : slots (probe key j') with
            | empty => exact absurd hslot hnotempty
            | tombstone => exact absurd hslot hnotomb
            | filled k v =>
                rw [hslot] at hunfilled
                cases hunfilled
  | succ fuel ih =>
      have hj : j < cap := by omega
      simp only [search]
      split
      · rename_i k v hslot
        split
        · rename_i hk
          subst hk
          exact .inl ⟨probe k j, v, covers.lt k j, hslot, rfl⟩
        · rename_i hk
          exact ih (by omega) (hs.filled hslot hk)
      · rename_i hslot
        right
        refine ⟨fun value hold => ?_, ?_⟩
        · obtain ⟨i, hi, hfilled⟩ := hold
          obtain ⟨j', hj', rfl, hbefore⟩ := h.reached i key value hi hfilled
          cases Nat.lt_trichotomy j' j with
          | inl hlt => exact (hs.passed j' hlt).2 value hfilled
          | inr hge =>
              cases hge with
              | inl heq =>
                  rw [heq, hslot] at hfilled
                  cases hfilled
              | inr hgt => exact hbefore j hgt hslot
        · cases htomb : tomb with
          | none => exact ⟨probe key j, ⟨hs.reached hj, .inl hslot⟩, rfl⟩
          | some t =>
              obtain ⟨ht, hreached⟩ := hs.tombstone t htomb
              exact ⟨t, ⟨hreached, .inr ht⟩, rfl⟩
      · rename_i hslot
        exact ih (by omega) (hs.passTombstone hslot hj)

def triangular (j : Nat) : Nat := j * (j + 1) / 2

@[simp] theorem triangular_succ (j : Nat) : triangular (j + 1) = triangular j + (j + 1) := by
  have hdouble : (j + 1) * (j + 1 + 1) = j * (j + 1) + (j + 1) * 2 := by ring
  rw [triangular, hdouble, Nat.add_mul_div_right _ _ (by decide), triangular]

theorem two_mul_triangular (j : Nat) : 2 * triangular j = j * (j + 1) :=
  Nat.mul_div_cancel' (Nat.even_mul_succ_self j).two_dvd

/-- Two triangular numbers below a power of two differ modulo it: twice their difference is a
product of an odd and an even number, and neither is large enough. -/
theorem triangular_injective {k a b : Nat} (ha : a < 2 ^ k) (hb : b < 2 ^ k) {h : Nat}
    (heq : (h + triangular a) % 2 ^ k = (h + triangular b) % 2 ^ k) : a = b := by
  wlog hle : a ≤ b generalizing a b
  · exact (this hb ha heq.symm (by omega)).symm
  have hmod : triangular a ≡ triangular b [MOD 2 ^ k] := Nat.ModEq.add_left_cancel' h heq
  obtain ⟨c, rfl⟩ := Nat.exists_eq_add_of_le hle
  have hdvd : 2 ^ (k + 1) ∣ c * (2 * a + c + 1) := by
    have hsub : 2 ^ k ∣ triangular (a + c) - triangular a :=
      (Nat.modEq_iff_dvd' (by
        exact Nat.div_le_div_right (Nat.mul_le_mul (by omega) (by omega)))).mp hmod
    have hdouble : 2 * (triangular (a + c) - triangular a) = c * (2 * a + c + 1) := by
      rw [Nat.mul_sub, two_mul_triangular, two_mul_triangular]
      apply Nat.sub_eq_of_eq_add
      ring
    rw [← hdouble, pow_succ, Nat.mul_comm (2 ^ k) 2]
    exact Nat.mul_dvd_mul_left 2 hsub
  by_cases hc : c = 0
  · rw [hc, Nat.add_zero]
  · exfalso
    cases Nat.even_or_odd c with
    | inl heven =>
        have hodd : Odd (2 * a + c + 1) := by
          obtain ⟨m, rfl⟩ := heven
          exact ⟨a + m, by ring⟩
        have hcop : Nat.Coprime (2 ^ (k + 1)) (2 * a + c + 1) :=
          Nat.Coprime.pow_left _ (Nat.coprime_two_left.mpr hodd)
        have := Nat.le_of_dvd (by omega) (hcop.dvd_of_dvd_mul_right hdvd)
        omega
    | inr hodd =>
        have hcop : Nat.Coprime (2 ^ (k + 1)) c :=
          Nat.Coprime.pow_left _ (Nat.coprime_two_left.mpr hodd)
        have := Nat.le_of_dvd (by omega) (hcop.dvd_of_dvd_mul_left hdvd)
        omega

theorem triangular_covers (hash : κ → Nat) (k : Nat) :
    Covers (2 ^ k) fun key j => (hash key + triangular j) % 2 ^ k where
  lt := fun _ _ => Nat.mod_lt _ (Nat.two_pow_pos k)
  reaches := by
    intro key i hi
    let f : Fin (2 ^ k) → Fin (2 ^ k) := fun j =>
      ⟨(hash key + triangular j) % 2 ^ k, Nat.mod_lt _ (Nat.two_pow_pos k)⟩
    have hinj : Function.Injective f := by
      intro a b hab
      exact Fin.ext (triangular_injective a.isLt b.isLt (Fin.mk.inj hab))
    obtain ⟨j, hj⟩ := Finite.injective_iff_surjective.mp hinj ⟨i, hi⟩
    exact ⟨j, j.isLt, congrArg Fin.val hj⟩

end OpenAddressing
