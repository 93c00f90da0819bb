import Xllm.Util.Int32Map
import Mathlib.Data.List.Range
import Mathlib.Data.List.Nodup

/-!
# The map refines a finite map

`Table` is the invariant of an allocated table: it is sound for its probe sequence, the
counters count the slots, and the load stays below the limit, so that there is an empty slot.
A rehash keeps the contents. Every operation is one on the function from keys to values that
the table holds.

The capacity is a 32-bit number. Beyond `1610612736` keys the table would have to grow from
`2 ^ 31` slots, and the doubled capacity wraps to zero.
-/

namespace Xllm.Int32Maps

open Contract OpenAddressing Function Option

variable {T : Type} {m : Int32Map T} {f : Int32 → Option T} {slots : Nat → Slot Int32 T}
  {k i : Nat} {key : Int32} {value : T}

def probe (cap : Nat) (key : Int32) (j : Nat) : Nat := ((mixHash key).toNat + triangular j) % cap

theorem probe_covers (k : Nat) : Covers (2 ^ k) (probe (2 ^ k)) :=
  triangular_covers (fun key => (mixHash key).toNat) k

theorem firstIdx_eq (k : Nat) (key : Int32) : firstIdx (2 ^ k) key = probe (2 ^ k) key 0 := by
  have hzero : triangular 0 = 0 := by decide
  rw [firstIdx, Nat.and_two_pow_sub_one_eq_mod, probe, hzero, Nat.add_zero]

theorem nextIdx_eq (k : Nat) (key : Int32) (j : Nat) :
    nextIdx (2 ^ k) (probe (2 ^ k) key j) j = probe (2 ^ k) key (j + 1) := by
  rw [nextIdx, Nat.and_two_pow_sub_one_eq_mod, probe, probe, Nat.mod_add_mod, triangular_succ,
    Nat.add_assoc]

/-- The result of a search as the code returns it. -/
def ofOutcome : Outcome → Except Abort (Bool × Nat)
  | .found i => .ok (true, i)
  | .free i => .ok (false, i)
  | .full => .error .full

section Sequence

variable {cap : Nat} {p : Nat → Nat} (hnext : ∀ j, nextIdx cap (p j) j = p (j + 1))

include hnext

theorem probeFrom_eq (fuel j : Nat) (tomb : Option Nat) :
    probeFrom slots cap key fuel (p j) j tomb = ofOutcome (search p slots key fuel j tomb) := by
  induction fuel generalizing j tomb with
  | zero =>
      cases tomb with
      | none => rfl
      | some t => rfl
  | succ fuel ih =>
      simp only [probeFrom, search, hnext]
      cases slots (p j) with
      | empty => rfl
      | tombstone => exact ih _ _
      | filled k' v =>
          dsimp only
          split
          · rfl
          · exact ih _ _

theorem placeFrom_eq (hnotomb : ∀ i, slots i ≠ .tombstone)
    (hmissing : ∀ j v, slots (p j) ≠ .filled key v) {fuel j : Nat}
    (hfree : search p slots key fuel j none = .free i) :
    placeFrom slots cap key value fuel (p j) j =
      .ok (update slots i (.filled key value)) := by
  induction fuel generalizing j with
  | zero => cases hfree
  | succ fuel ih =>
      simp only [search] at hfree
      simp only [placeFrom, hnext]
      cases hslot : slots (p j) with
      | empty =>
          rw [hslot] at hfree
          cases hfree
          rfl
      | tombstone => exact absurd hslot (hnotomb _)
      | filled k' v =>
          have hne : k' ≠ key := by
            intro heq
            rw [heq] at hslot
            exact hmissing j v hslot
          rw [hslot] at hfree
          simp only [hne] at hfree
          exact ih hfree

end Sequence

theorem probeInsertOrFind_eq :
    probeInsertOrFind slots (2 ^ k) key =
      ofOutcome (search (probe (2 ^ k) key) slots key (2 ^ k) 0 none) := by
  rw [probeInsertOrFind, if_neg (Nat.two_pow_pos k).ne', firstIdx_eq,
    probeFrom_eq (nextIdx_eq k key)]

/-- An allocated table that holds a finite map. -/
structure Table (m : Int32Map T) (f : Int32 → Option T) (slots : Nat → Slot Int32 T) (k : Nat) :
    Prop where
  slots_eq : m.slots = some slots
  cap_eq : m.cap = 2 ^ k
  one_le : 1 ≤ k
  le_31 : k ≤ 31
  sound : WellPlaced (probe (2 ^ k)) (2 ^ k) slots
  size_eq : m.size = count Slot.isFilled (2 ^ k) slots
  tombstones_eq : m.tombstones = count Slot.isTombstone (2 ^ k) slots
  load : (m.size + m.tombstones) * 100 ≤ 2 ^ k * 75
  holds : ∀ key value, f key = some value ↔ Holds (2 ^ k) slots key value

theorem Table.missing (h : Table m f slots k) (hkey : f key = none) (value : T) :
    ¬ Holds (2 ^ k) slots key value := by
  intro hold
  rw [← h.holds, hkey] at hold
  cases hold

theorem Table.exists_empty (h : Table m f slots k) : ∃ i < 2 ^ k, slots i = .empty := by
  apply OpenAddressing.exists_empty
  have := h.load
  have := h.size_eq
  have := h.tombstones_eq
  have := Nat.two_pow_pos k
  omega

/-- A probe finds the key or the slot where it goes. -/
theorem Table.probe_spec (h : Table m f slots k) (key : Int32) :
    (∃ i value, i < 2 ^ k ∧ slots i = .filled key value ∧ f key = some value ∧
        probeInsertOrFind slots m.cap key = .ok (true, i)) ∨
      (f key = none ∧ ∃ i, Proposed (probe (2 ^ k)) (2 ^ k) slots key i ∧
        probeInsertOrFind slots m.cap key = .ok (false, i)) := by
  obtain ⟨i, hi, hempty⟩ := h.exists_empty
  have hfree : ∃ i < 2 ^ k, (slots i).isFilled = false := ⟨i, hi, by rw [hempty]; rfl⟩
  rw [h.cap_eq, probeInsertOrFind_eq]
  have hstart : Searching (probe (2 ^ k)) (2 ^ k) slots key 0 none := Searching.start
  cases search_spec (probe_covers k) h.sound hfree (Nat.add_zero _) hstart with
  | inl hfound =>
      obtain ⟨i, value, hi, hslot, hsearch⟩ := hfound
      refine .inl ⟨i, value, hi, hslot, (h.holds key value).mpr ⟨i, hi, hslot⟩, ?_⟩
      rw [hsearch]
      rfl
  | inr hmissing =>
      obtain ⟨hnone, i, hproposed, hsearch⟩ := hmissing
      refine .inr ⟨?_, i, hproposed, ?_⟩
      · cases hkey : f key with
        | none => rfl
        | some value => exact absurd ((h.holds key value).mp hkey) (hnone value)
      · rw [hsearch]
        rfl

/-- The first slots of a table have been placed in a fresh array. -/
structure Placed (slots : Nat → Slot Int32 T) (bound k' : Nat) (fresh : Nat → Slot Int32 T) :
    Prop where
  sound : WellPlaced (probe (2 ^ k')) (2 ^ k') fresh
  clean : ∀ i, fresh i ≠ .tombstone
  size : count Slot.isFilled (2 ^ k') fresh = count Slot.isFilled bound slots
  holds : ∀ key value, Holds (2 ^ k') fresh key value ↔ Holds bound slots key value

theorem holds_succ {bound : Nat} :
    Holds (bound + 1) slots key value ↔
      Holds bound slots key value ∨ slots bound = .filled key value := by
  constructor
  · intro h
    obtain ⟨i, hi, hslot⟩ := h
    cases Nat.lt_succ_iff_lt_or_eq.mp hi with
    | inl hlt => exact .inl ⟨i, hlt, hslot⟩
    | inr heq => exact .inr (heq ▸ hslot)
  · intro h
    cases h with
    | inl h =>
        obtain ⟨i, hi, hslot⟩ := h
        exact ⟨i, Nat.lt_succ_of_lt hi, hslot⟩
    | inr h => exact ⟨bound, Nat.lt_succ_self _, h⟩

variable {fresh : Nat → Slot Int32 T}

@[simp] theorem clean_count {cap : Nat} (h : ∀ i, fresh i ≠ .tombstone) :
    count Slot.isTombstone cap fresh = 0 := by
  by_contra hne
  obtain ⟨i, -, htomb⟩ := count_pos_iff.mp (Nat.pos_of_ne_zero hne)
  cases hslot : fresh i with
  | empty =>
      rw [hslot] at htomb
      cases htomb
  | tombstone => exact h i hslot
  | filled key value =>
      rw [hslot] at htomb
      cases htomb

theorem Placed.place {bound k' : Nat}
    (h : Placed slots bound k' fresh) (hslot : slots bound = .filled key value)
    (hmissing : ∀ v, ¬ Holds bound slots key v)
    (hroom : count Slot.isFilled bound slots < 2 ^ k') : Yields (placeNew fresh (2 ^ k') key value)
      (Placed slots (bound + 1) k') := by
  have habsent : ∀ v, ¬ Holds (2 ^ k') fresh key v := by
    intro v hold
    exact hmissing v ((h.holds key v).mp hold)
  obtain ⟨i, hi, hempty⟩ : ∃ i < 2 ^ k', fresh i = .empty := by
    apply OpenAddressing.exists_empty
    rw [clean_count h.clean, h.size]
    exact hroom
  have hfree : ∃ i < 2 ^ k', (fresh i).isFilled = false := ⟨i, hi, by rw [hempty]; rfl⟩
  have hstart : Searching (probe (2 ^ k')) (2 ^ k') fresh key 0 none := Searching.start
  cases search_spec (probe_covers k') h.sound hfree (Nat.add_zero _) hstart with
  | inl hfound =>
      obtain ⟨i, v, hi, hslot, -⟩ := hfound
      exact absurd ⟨i, hi, hslot⟩ (habsent v)
  | inr hplace =>
      obtain ⟨-, i, hproposed, hsearch⟩ := hplace
      have hiempty : fresh i = .empty := hproposed.free.resolve_right (h.clean i)
      rw [placeNew, firstIdx_eq, placeFrom_eq (nextIdx_eq k' key) h.clean
        (fun j v hs => habsent v ⟨_, (probe_covers k').lt key j, hs⟩) hsearch]
      refine ⟨h.sound.insert habsent hproposed.reached value, ?_, ?_, ?_⟩
      · intro j
        by_cases hj : j = i
        · rw [hj]
          simp
        · rw [update_of_ne hj]
          exact h.clean j
      · rw [count_update_more (hproposed.lt (probe_covers k')) (by rw [hiempty]; rfl) rfl, h.size,
          count_succ, hslot]
        rfl
      · intro key' value'
        rw [holds_insert (hproposed.lt (probe_covers k')) (by rw [hiempty]; rfl), h.holds,
          holds_succ, hslot]
        simp only [Slot.filled.injEq]
        constructor
        · intro hcases
          cases hcases with
          | inl heq => exact .inr ⟨heq.1.symm, heq.2.symm⟩
          | inr hold => exact .inl hold
        · intro hcases
          cases hcases with
          | inl hold => exact .inr hold
          | inr heq => exact .inl ⟨heq.1.symm, heq.2.symm⟩

theorem Placed.skip {bound k' : Nat}
    (h : Placed slots bound k' fresh) (hslot : (slots bound).isFilled = false) :
    Placed slots (bound + 1) k' fresh where
  sound := h.sound
  clean := h.clean
  size := by
    rw [h.size, count_succ, hslot]
    rfl
  holds := by
    intro key value
    rw [h.holds, holds_succ]
    constructor
    · exact .inl
    · intro hcases
      cases hcases with
      | inl hold => exact hold
      | inr heq =>
          rw [heq] at hslot
          cases hslot

theorem count_mono {bound cap : Nat} (h : bound ≤ cap) {p : Slot Int32 T → Bool} :
    count p bound slots ≤ count p cap slots := by
  apply Finset.card_le_card
  intro i hi
  rw [Finset.mem_filter, Finset.mem_range] at hi ⊢
  exact ⟨Nat.lt_of_lt_of_le hi.1 h, hi.2⟩

/-- The entries placed anew in a table of another size. -/
theorem replace_spec {k' : Nat} (h : WellPlaced (probe (2 ^ k)) (2 ^ k) slots)
    (hroom : count Slot.isFilled (2 ^ k) slots ≤ 2 ^ k') {bound : Nat} (hbound : bound ≤ 2 ^ k) :
    Yields (replace slots (2 ^ k') bound) (Placed slots bound k') := by
  induction bound with
  | zero =>
      refine ⟨WellPlaced.empty, fun _ => by simp [newSlots], ?_, ?_⟩
      · exact count_empty_table rfl
      · intro key value
        refine iff_of_false ?_ ?_
        · intro hold
          obtain ⟨i, -, hslot⟩ := hold
          cases hslot
        · intro hold
          obtain ⟨i, hi, -⟩ := hold
          exact absurd hi (Nat.not_lt_zero _)
  | succ bound ih =>
      rw [replace, List.range_succ, List.foldlM_append]
      refine (ih (by omega)).bind fun fresh hfresh => ?_
      rw [List.foldlM_cons]
      refine Ensures.bind (Q := Placed slots (bound + 1) k') ?_ fun fresh' h' => h'
      cases hslot : slots bound with
      | empty => exact hfresh.skip (by rw [hslot]; rfl)
      | tombstone => exact hfresh.skip (by rw [hslot]; rfl)
      | filled key value =>
          apply hfresh.place hslot
          · intro v hold
            obtain ⟨i, hi, hs⟩ := hold
            have := h.once i bound key v value (by omega) (by omega) hs hslot
            omega
          · have hmore : count Slot.isFilled (bound + 1) slots ≤ 2 ^ k' :=
              (count_mono hbound).trans hroom
            rw [count_succ, hslot] at hmore
            exact hmore

theorem two_pow_and_pred (k : Nat) : 2 ^ k &&& (2 ^ k - 1) = 0 := by
  rw [Nat.and_two_pow_sub_one_eq_mod, Nat.mod_self]

theorem Table.rehash (h : Table m f slots k) {k' : Nat} (hone : 1 ≤ k') (hle : k' ≤ 31)
    (hload : m.size * 100 ≤ 2 ^ k' * 75) : Yields (m.rehash (2 ^ k')) (fun m' =>
      (∃ slots', Table m' f slots' k') ∧ m'.size = m.size ∧ m'.tombstones = 0) := by
  have hmin : minCapacity ≤ 2 ^ k' := Nat.pow_le_pow_right (by decide : 0 < 2) hone
  have hroom : count Slot.isFilled (2 ^ k) slots ≤ 2 ^ k' := by
    rw [← h.size_eq]
    omega
  rw [Int32Map.rehash, if_pos ⟨two_pow_and_pred k', hmin⟩, h.slots_eq]
  rw [h.cap_eq]
  refine (replace_spec h.sound hroom (Nat.le_refl _)).bind fun fresh hfresh => ?_
  refine ⟨⟨fresh, rfl, rfl, hone, hle, hfresh.sound, ?_, (clean_count hfresh.clean).symm, ?_, ?_⟩,
    rfl, rfl⟩
  · rw [hfresh.size]
    exact h.size_eq
  · exact hload
  · intro key value
    rw [h.holds, hfresh.holds]

/-- The map is not allocated and empty, or it is a table with at least one key. -/
def Refines (m : Int32Map T) (f : Int32 → Option T) : Prop :=
  (m = {} ∧ f = fun _ => none) ∨ ∃ slots k, Table m f slots k ∧ 0 < m.size

theorem Table.construct (h : Table m f slots k) (hkey : f key = none)
    (hi : Proposed (probe (2 ^ k)) (2 ^ k) slots key i) {tombstones : Nat}
    (htomb : count Slot.isTombstone (2 ^ k) (update slots i (.filled key value)) =
      tombstones)
    (hload : (m.size + 1 + tombstones) * 100 ≤ 2 ^ k * 75) :
    Table ({ m with tombstones }.construct i key value) (update f key (some value))
      (update slots i (.filled key value)) k := by
  have hlt := hi.lt (probe_covers k)
  have hunfilled : (slots i).isFilled = false := by
    cases hi.free with
    | inl hempty => rw [hempty]; rfl
    | inr htomb => rw [htomb]; rfl
  refine ⟨?_, h.cap_eq, h.one_le, h.le_31, ?_, ?_, htomb.symm, hload, ?_⟩
  · simp only [Int32Map.construct, h.slots_eq, map_some]
  · exact h.sound.insert (h.missing hkey) hi.reached value
  · rw [count_update_more hlt hunfilled rfl, ← h.size_eq]
    rfl
  · intro key' value'
    rw [holds_insert hlt hunfilled, ← h.holds]
    by_cases hk : key' = key
    · subst hk
      rw [hkey]
      simp [eq_comm]
    · rw [update_of_ne hk]
      simp [hk]

/-- What `emplace` returns: the table holds the key, with the value that was there before or
with the new one. -/
structure Emplaced (m : Int32Map T) (f : Int32 → Option T) (key : Int32) (value : T)
    (r : Nat × Int32Map T) : Prop where
  refines : ∃ slots k, Table r.2 (update f key (some ((f key).getD value))) slots k ∧
    r.1 < 2 ^ k ∧ slots r.1 = .filled key ((f key).getD value)
  size : r.2.size = m.size + if (f key).isSome then 0 else 1

theorem Table.constructEmpty (h : Table m f slots k) (hkey : f key = none)
    (hi : Proposed (probe (2 ^ k)) (2 ^ k) slots key i) (hempty : slots i = .empty)
    (hload : (m.size + 1 + m.tombstones) * 100 ≤ 2 ^ k * 75) :
    Yields (m.constructEmpty i key value) (Emplaced m f key value) := by
  have hlt := hi.lt (probe_covers k)
  have htomb : count Slot.isTombstone (2 ^ k) (update slots i (.filled key value)) =
      m.tombstones := by
    rw [count_update_same (by rw [hempty]; rfl), h.tombstones_eq]
  simp only [Int32Map.constructEmpty, h.slots_eq, hempty]
  refine ⟨⟨update slots i (.filled key value), k, ?_, hlt, ?_⟩, ?_⟩
  · rw [hkey]
    exact h.construct hkey hi htomb hload
  · rw [hkey, update_self]
    rfl
  · rw [hkey]
    rfl

/-- Only an absent key gets the new value. -/
theorem Table.emplace (h : Table m f slots k) (value : T)
    (fits : f key = none → m.size < 1610612736) :
    Yields (m.emplace key value) (Emplaced m f key value) := by
  have hallocate : m.allocate = m := by
    simp only [Int32Map.allocate, h.slots_eq]
  simp only [Int32Map.emplace, hallocate, h.slots_eq]
  cases h.probe_spec key with
  | inl hfound =>
      obtain ⟨i, old, hi, hslot, hkey, hprobe⟩ := hfound
      rw [hprobe]
      refine ⟨⟨slots, k, ?_, hi, ?_⟩, ?_⟩
      · rw [hkey, getD_some, ← hkey, update_eq_self]
        exact h
      · rw [hkey]
        exact hslot
      · rw [hkey]
        rfl
  | inr hmissing =>
      obtain ⟨hkey, i, hproposed, hprobe⟩ := hmissing
      have hlt := hproposed.lt (probe_covers k)
      rw [hprobe, ok_bind]
      simp only [Bool.false_eq_true, if_false]
      cases hproposed.free with
      | inr htomb =>
          -- a tombstone is reused, and the load stays the same
          have hless : count Slot.isTombstone (2 ^ k)
              (update slots i (.filled key value)) + 1 = m.tombstones := by
            rw [count_update_less hlt (by rw [htomb]; rfl) rfl, h.tombstones_eq]
          have htombs : count Slot.isTombstone (2 ^ k)
              (update slots i (.filled key value)) = m.tombstones - 1 := by omega
          have hload := h.load
          simp only [htomb]
          refine ⟨⟨update slots i (.filled key value), k, ?_, hlt, ?_⟩, ?_⟩
          · have hdone : Table ({ m with tombstones := m.tombstones - 1 }.construct i key value)
                (update f key (some value)) (update slots i (.filled key value))
                k := h.construct hkey hproposed htombs (by omega)
            rw [hkey]
            simp only [h.slots_eq] at hdone
            exact hdone
          · rw [hkey, update_self]
            rfl
          · rw [hkey]
            rfl
      | inl hempty =>
          have hsize := fits hkey
          have hload := h.load
          simp only [hempty, maxLoadPct, h.cap_eq]
          split
          · -- the load would be exceeded: the table is cleaned or grows
            have hroom : Yields m.makeRoom (fun m' =>
                (∃ slots' k', Table m' f slots' k' ∧ (m.size + 1) * 100 ≤ 2 ^ k' * 75) ∧
                  m'.size = m.size ∧ m'.tombstones = 0) := by
              rw [Int32Map.makeRoom, maxLoadPct, h.cap_eq]
              split
              · rename_i hclean
                refine (h.rehash h.one_le h.le_31 (by omega)).mono_post fun m' hm' => ?_
                obtain ⟨⟨slots', htable⟩, hrest⟩ := hm'
                exact ⟨⟨slots', k, htable, hclean⟩, hrest⟩
              · have hk : k < 31 := by
                  by_contra hge
                  have hk : k = 31 := by
                    have := h.le_31
                    omega
                  have hcap : 2 ^ k = 2147483648 := by rw [hk]; rfl
                  omega
                have hmod : 2 ^ k * 2 % 4294967296 = 2 ^ (k + 1) := by
                  exact Nat.mod_eq_of_lt (by omega)
                rw [hmod]
                refine (h.rehash (by omega) hk (by omega)).mono_post fun m' hm' => ?_
                obtain ⟨⟨slots', htable⟩, hrest⟩ := hm'
                exact ⟨⟨slots', k + 1, htable, by omega⟩, hrest⟩
            refine hroom.bind fun m' hm' => ?_
            obtain ⟨⟨slots', k', htable, hload'⟩, hsize', htomb'⟩ := hm'
            simp only [htable.slots_eq]
            cases htable.probe_spec key with
            | inl hfound =>
                obtain ⟨_, _, _, _, hthere, -⟩ := hfound
                rw [hkey] at hthere
                cases hthere
            | inr hmissing' =>
                obtain ⟨-, i', hproposed', hprobe'⟩ := hmissing'
                rw [hprobe']
                have hclean : ∀ j < 2 ^ k', slots' j ≠ .tombstone := by
                  intro j hj htomb
                  have hpos : 0 < count Slot.isTombstone (2 ^ k') slots' :=
                    count_pos_iff.mpr ⟨j, hj, by rw [htomb]; rfl⟩
                  rw [← htable.tombstones_eq, htomb'] at hpos
                  exact absurd hpos (Nat.lt_irrefl 0)
                have hempty' : slots' i' = .empty :=
                  hproposed'.free.resolve_right (hclean i' (hproposed'.lt (probe_covers k')))
                refine (htable.constructEmpty hkey hproposed' hempty' (by omega)).mono_post
                  fun r hr => ⟨hr.refines, ?_⟩
                rw [hr.size, hsize']
          · exact h.constructEmpty hkey hproposed hempty (by omega)

theorem newTable : Table ({ slots := some newSlots, cap := minCapacity } : Int32Map T)
    (fun _ => none) newSlots 1 where
  slots_eq := rfl
  cap_eq := rfl
  one_le := Nat.le_refl 1
  le_31 := by decide
  sound := WellPlaced.empty
  size_eq := (count_empty_table rfl).symm
  tombstones_eq := (count_empty_table rfl).symm
  load := by simp
  holds := by
    intro key value
    refine iff_of_false (by simp) ?_
    intro hold
    obtain ⟨i, -, hslot⟩ := hold
    cases hslot

theorem Refines.emplace (h : Refines m f) (value : T)
    (fits : f key = none → m.size < 1610612736) :
    Yields (m.emplace key value) (Emplaced m f key value) := by
  cases h with
  | inl hnew =>
      obtain ⟨rfl, rfl⟩ := hnew
      exact (newTable.emplace value fits).mono_post fun r hr => ⟨hr.refines, hr.size⟩
  | inr htable =>
      obtain ⟨slots, k, htable, -⟩ := htable
      exact htable.emplace value fits

theorem Emplaced.pos {r : Nat × Int32Map T} (h : Emplaced m f key value r) (hm : Refines m f) :
    0 < r.2.size := by
  rw [h.size]
  cases hkey : f key with
  | none => exact Nat.succ_pos _
  | some old =>
      cases hm with
      | inl hnew =>
          rw [hnew.2] at hkey
          cases hkey
      | inr htable =>
          obtain ⟨slots, k, -, hpos⟩ := htable
          exact hpos

theorem Table.valueAt (h : Table m f slots k) (hslot : slots i = .filled key value) :
    m.valueAt i = some value := by
  simp only [Int32Map.valueAt, h.slots_eq, bind_some, hslot]

theorem Table.assignAt (h : Table m f slots k) (hi : i < 2 ^ k) {old : T}
    (hslot : slots i = .filled key old) (value : T) :
    Table (m.assignAt i key value) (update f key (some value))
      (update slots i (.filled key value)) k := by
  refine ⟨?_, h.cap_eq, h.one_le, h.le_31, h.sound.assign hslot value, ?_, ?_, h.load, ?_⟩
  · simp only [Int32Map.assignAt, h.slots_eq, map_some]
  · rw [count_update_same (by rw [hslot]; rfl)]
    exact h.size_eq
  · rw [count_update_same (by rw [hslot]; rfl)]
    exact h.tombstones_eq
  · intro key' value'
    rw [h.sound.holds_assign hi hslot, ← h.holds]
    by_cases hk : key' = key
    · subst hk
      simp [eq_comm]
    · rw [update_of_ne hk]
      simp [hk]

theorem Table.tombstone (h : Table m f slots k) (hi : i < 2 ^ k)
    (hslot : slots i = .filled key value) :
    Table { m with
        slots := some (update slots i .tombstone)
        size := m.size - 1
        tombstones := m.tombstones + 1 }
      (update f key none) (update slots i .tombstone) k ∧ 0 < m.size := by
  have hless : count Slot.isFilled (2 ^ k) (update slots i .tombstone) + 1 = m.size := by
    rw [count_update_less hi (by rw [hslot]; rfl) rfl, h.size_eq]
  have hmore : count Slot.isTombstone (2 ^ k) (update slots i .tombstone) =
      m.tombstones + 1 := by
    rw [count_update_more hi (by rw [hslot]; rfl) rfl, h.tombstones_eq]
  have hload := h.load
  refine ⟨⟨rfl, h.cap_eq, h.one_le, h.le_31, h.sound.erase i, ?_, hmore.symm, ?_, ?_⟩, by omega⟩
  · dsimp only
    omega
  · dsimp only
    omega
  · intro key' value'
    rw [h.sound.holds_erase hi hslot, ← h.holds]
    by_cases hk : key' = key
    · subst hk
      simp
    · rw [update_of_ne hk]
      simp [hk]

theorem Table.eq_none (h : Table m f slots k) (hsize : m.size = 0) : f = fun _ => none := by
  funext key
  cases hkey : f key with
  | none => rfl
  | some value =>
      obtain ⟨i, hi, hslot⟩ := (h.holds key value).mp hkey
      have hpos : 0 < count Slot.isFilled (2 ^ k) slots :=
        count_pos_iff.mpr ⟨i, hi, by rw [hslot]; rfl⟩
      rw [← h.size_eq, hsize] at hpos
      exact absurd hpos (Nat.lt_irrefl 0)

/-- What a caller of `emplace` gets: a reference to the value of the key, through which another
value can be written. -/
theorem Refines.emplace_spec (h : Refines m f) (value : T)
    (fits : f key = none → m.size < 1610612736) : Yields (m.emplace key value) (fun r =>
      Refines r.2 (update f key (some ((f key).getD value))) ∧
        r.2.valueAt r.1 = some ((f key).getD value) ∧
          ∀ v, Refines (r.2.assignAt r.1 key v) (update f key (some v))) := by
  refine (h.emplace value fits).mono_post fun r hr => ?_
  have hpos := hr.pos h
  obtain ⟨slots, k, htable, hi, hslot⟩ := hr.refines
  refine ⟨.inr ⟨slots, k, htable, hpos⟩, htable.valueAt hslot, fun v => ?_⟩
  have hassign := htable.assignAt hi hslot v
  rw [update_idem] at hassign
  exact .inr ⟨_, k, hassign, hpos⟩

theorem Refines.size_le_limit (h : Refines m f) : m.size ≤ 1610612736 := by
  cases h with
  | inl hnew =>
      rw [hnew.1]
      exact Nat.zero_le _
  | inr htable =>
      obtain ⟨slots, k, htable, -⟩ := htable
      have hload := htable.load
      have hle : 2 ^ k ≤ 2 ^ 31 := Nat.pow_le_pow_right (by decide) htable.le_31
      omega

theorem Table.maybeRehashAfterErase (h : Table m f slots k) :
    Yields m.maybeRehashAfterErase (fun m' => Refines m' f) := by
  simp only [Int32Map.maybeRehashAfterErase, h.slots_eq, isNone_some, Bool.false_eq_true,
    if_false, minLoadPct, h.cap_eq]
  split
  · rename_i hsize
    exact .inl ⟨rfl, h.eq_none hsize⟩
  · rename_i hsize
    have hkeep : Refines m f := .inr ⟨slots, k, h, Nat.pos_of_ne_zero hsize⟩
    split
    · rename_i hsparse
      split
      · rename_i hmin
        have hk : 2 ≤ k := by
          by_contra hlt
          have hone : k = 1 := by
            have := h.one_le
            omega
          rw [hone] at hmin
          exact absurd hmin (by decide)
        have hpow : 2 ^ k = 2 * 2 ^ (k - 1) := by
          rw [← Nat.pow_succ']
          congr 1
          omega
        have hhalf : 2 ^ k / 2 = 2 ^ (k - 1) := by omega
        have hle := h.le_31
        rw [hhalf]
        refine (h.rehash (by omega) (by omega) (by omega)).mono_post fun m' hm' => ?_
        obtain ⟨⟨slots', htable⟩, hsize', -⟩ := hm'
        exact .inr ⟨slots', k - 1, htable, by omega⟩
      · exact hkeep
    · exact hkeep

theorem Refines.erase (h : Refines m f) (key : Int32) : Yields (m.erase key) (fun r =>
      r.1 = (f key).isSome ∧ Refines r.2 (update f key none)) := by
  cases h with
  | inl hnew =>
      obtain ⟨rfl, rfl⟩ := hnew
      refine ⟨rfl, .inl ⟨rfl, ?_⟩⟩
      exact update_eq_self key _
  | inr htable =>
      obtain ⟨slots, k, htable, hpos⟩ := htable
      simp only [Int32Map.erase, htable.slots_eq]
      cases htable.probe_spec key with
      | inl hfound =>
          obtain ⟨i, value, hi, hslot, hkey, hprobe⟩ := hfound
          rw [hprobe]
          refine (htable.tombstone hi hslot).1.maybeRehashAfterErase.bind fun m' hm' => ?_
          rw [hkey]
          exact ⟨rfl, hm'⟩
      | inr hmissing =>
          obtain ⟨hkey, i, -, hprobe⟩ := hmissing
          rw [hprobe, hkey]
          refine ⟨rfl, .inr ⟨slots, k, ?_, hpos⟩⟩
          rw [← hkey, update_eq_self]
          exact htable

theorem Refines.find (h : Refines m f) (key : Int32) : m.find key = .ok (f key) := by
  cases h with
  | inl hnew =>
      obtain ⟨rfl, rfl⟩ := hnew
      rfl
  | inr htable =>
      obtain ⟨slots, k, htable, -⟩ := htable
      simp only [Int32Map.find, Int32Map.findIdx, htable.slots_eq]
      cases htable.probe_spec key with
      | inl hfound =>
          obtain ⟨i, value, hi, hslot, hkey, hprobe⟩ := hfound
          rw [hprobe, hkey]
          exact congrArg Except.ok (htable.valueAt hslot)
      | inr hmissing =>
          obtain ⟨hkey, i, -, hprobe⟩ := hmissing
          rw [hprobe, hkey]
          rfl

theorem Refines.contains (h : Refines m f) (key : Int32) :
    m.contains key = .ok (f key).isSome := by
  cases h with
  | inl hnew =>
      obtain ⟨rfl, rfl⟩ := hnew
      rfl
  | inr htable =>
      obtain ⟨slots, k, htable, -⟩ := htable
      simp only [Int32Map.contains, Int32Map.findIdx, htable.slots_eq]
      cases htable.probe_spec key with
      | inl hfound =>
          obtain ⟨i, value, hi, hslot, hkey, hprobe⟩ := hfound
          rw [hprobe, hkey]
          rfl
      | inr hmissing =>
          obtain ⟨hkey, i, -, hprobe⟩ := hmissing
          rw [hprobe, hkey]
          rfl

end Xllm.Int32Maps
