import Mathlib.Data.Finset.Basic
import Mathlib.Data.Finset.Union

/-!
# Net changes of a set

A set of keys changes by edits, each of which adds or removes one key. A window
records a sequence of edits by its net effect: the keys to add and the keys to
remove, where a later edit of a key cancels an earlier one. Applying a window
is applying its edits, so a receiver that applies consecutive windows follows
the set.

Windows of several sets may be united into one. Applied to the union of the
sets, the united window removes a key as soon as one of the sets loses it;
`apply_unite_iff` says exactly when this is still the union of the new sets.
-/

namespace Delta

variable {κ : Type*} [DecidableEq κ]

/-- Add the key, or remove it. -/
abbrev Edit (κ : Type*) := Bool × κ

def Edit.apply (R : Finset κ) (e : Edit κ) : Finset κ := if e.1 then insert e.2 R else R.erase e.2

def replay (R : Finset κ) (edits : List (Edit κ)) : Finset κ := edits.foldl Edit.apply R

@[simp] theorem replay_nil (R : Finset κ) : replay R [] = R := rfl

@[simp] theorem replay_append (R : Finset κ) (es fs : List (Edit κ)) :
    replay R (es ++ fs) = replay (replay R es) fs := List.foldl_append

@[simp] theorem replay_add (R : Finset κ) (keys : List κ) :
    replay R (keys.map (true, ·)) = R ∪ keys.toFinset := by
  induction keys generalizing R with
  | nil => simp
  | cons k keys ih =>
      have hstep : replay R ((k :: keys).map (true, ·)) =
          replay (insert k R) (keys.map (true, ·)) := rfl
      rw [hstep, ih, List.toFinset_cons, Finset.insert_union, Finset.union_insert]

@[simp] theorem replay_remove (R : Finset κ) (keys : List κ) :
    replay R (keys.map (false, ·)) = R \ keys.toFinset := by
  induction keys generalizing R with
  | nil => simp
  | cons k keys ih =>
      have hstep : replay R ((k :: keys).map (false, ·)) =
          replay (R.erase k) (keys.map (false, ·)) := rfl
      rw [hstep, ih]
      ext j
      simp only [Finset.mem_sdiff, Finset.mem_erase, List.toFinset_cons, Finset.mem_insert]
      tauto

/-- The net effect of a sequence of edits. -/
structure Window (κ : Type*) where
  stored : Finset κ := ∅
  removed : Finset κ := ∅

namespace Window

/-- Record one more edit; it overrides the earlier ones of its key. -/
def record (w : Window κ) (e : Edit κ) : Window κ :=
  if e.1 then ⟨insert e.2 w.stored, w.removed.erase e.2⟩
  else ⟨w.stored.erase e.2, insert e.2 w.removed⟩

def recordAll (w : Window κ) (edits : List (Edit κ)) : Window κ := edits.foldl record w

def of (edits : List (Edit κ)) : Window κ := recordAll {} edits

/-- Remove the removed keys, then add the stored ones. -/
def apply (R : Finset κ) (w : Window κ) : Finset κ := (R \ w.removed) ∪ w.stored

@[simp] theorem recordAll_nil (w : Window κ) : w.recordAll [] = w := rfl

theorem of_append (es fs : List (Edit κ)) : of (es ++ fs) = (of es).recordAll fs :=
  List.foldl_append

@[simp] theorem apply_empty (R : Finset κ) : apply R {} = R := by simp [apply]

theorem apply_record (R : Finset κ) (w : Window κ) (e : Edit κ) :
    apply R (w.record e) = Edit.apply (apply R w) e := by
  obtain ⟨add, k⟩ := e
  cases add
  · ext j
    simp only [record, apply, Edit.apply, Finset.mem_union, Finset.mem_sdiff, Finset.mem_insert,
      Finset.mem_erase, Bool.false_eq_true, if_false]
    tauto
  · ext j
    simp only [record, apply, Edit.apply, Finset.mem_union, Finset.mem_sdiff, Finset.mem_insert,
      Finset.mem_erase, if_true]
    tauto

@[simp] theorem apply_recordAll (R : Finset κ) (w : Window κ) (edits : List (Edit κ)) :
    apply R (w.recordAll edits) = replay (apply R w) edits := by
  induction edits generalizing w with
  | nil => rfl
  | cons e edits ih =>
      have hstep : w.recordAll (e :: edits) = (w.record e).recordAll edits := rfl
      rw [hstep, ih, apply_record]
      rfl

@[simp] theorem apply_of (R : Finset κ) (edits : List (Edit κ)) :
    apply R (of edits) = replay R edits := by
  rw [of, apply_recordAll, apply_empty]

theorem foldl_apply_of (R : Finset κ) (segments : List (List (Edit κ))) :
    (segments.map of).foldl apply R = replay R segments.flatten := by
  induction segments generalizing R with
  | nil => rfl
  | cons es segments ih =>
      rw [List.map_cons, List.foldl_cons, ih, apply_of, List.flatten_cons, replay_append]

theorem disjoint_of (edits : List (Edit κ)) : Disjoint (of edits).stored (of edits).removed := by
  have step : ∀ (w : Window κ) e, Disjoint w.stored w.removed →
      Disjoint (w.record e).stored (w.record e).removed := by
    intro w e hw
    obtain ⟨add, k⟩ := e
    rw [Finset.disjoint_left] at hw ⊢
    cases add
    · intro j hj
      simp only [record, Bool.false_eq_true, if_false, Finset.mem_erase, Finset.mem_insert] at hj ⊢
      tauto
    · intro j hj
      simp only [record, if_true, Finset.mem_erase, Finset.mem_insert] at hj ⊢
      rcases hj with rfl | hj
      · tauto
      · have := hw hj
        tauto
  have all : ∀ (w : Window κ), Disjoint w.stored w.removed →
      Disjoint (w.recordAll edits).stored (w.recordAll edits).removed := by
    induction edits with
    | nil => exact fun w hw => hw
    | cons e edits ih => exact fun w hw => ih (w.record e) (step w e hw)
  exact all {} (Finset.disjoint_empty_left _)

def unite (w w' : Window κ) : Window κ := ⟨w.stored ∪ w'.stored, w.removed ∪ w'.removed⟩

@[simp] theorem empty_unite (w : Window κ) : unite {} w = w := by simp [unite]

theorem mem_stored_foldl_unite (ws : List (Window κ)) (w : Window κ) (k : κ) :
    k ∈ (ws.foldl unite w).stored ↔ k ∈ w.stored ∨ ∃ v ∈ ws, k ∈ v.stored := by
  induction ws generalizing w with
  | nil => simp
  | cons v ws ih => simp [ih, unite, or_assoc]

theorem mem_removed_foldl_unite (ws : List (Window κ)) (w : Window κ) (k : κ) :
    k ∈ (ws.foldl unite w).removed ↔ k ∈ w.removed ∨ ∃ v ∈ ws, k ∈ v.removed := by
  induction ws generalizing w with
  | nil => simp
  | cons v ws ih => simp [ih, unite, or_assoc]

/-- Sets `p.1` change by windows `p.2`. The united window, applied to the union of
the old sets, gives the union of the new sets exactly when no key that some set
loses, and none gains, is left in another set. -/
theorem apply_unite_iff {R : Finset κ} {sets : List (Finset κ × Window κ)}
    (hR : ∀ k, k ∈ R ↔ ∃ p ∈ sets, k ∈ p.1) :
    (∀ k, k ∈ apply R ((sets.map Prod.snd).foldl unite {}) ↔ ∃ p ∈ sets, k ∈ apply p.1 p.2) ↔
      ∀ k, (∃ p ∈ sets, k ∈ p.2.removed) → (∀ p ∈ sets, k ∉ p.2.stored) →
        ∀ p ∈ sets, k ∉ apply p.1 p.2 := by
  have hmem : ∀ k, k ∈ apply R ((sets.map Prod.snd).foldl unite {}) ↔
      (k ∈ R ∧ ∀ p ∈ sets, k ∉ p.2.removed) ∨ ∃ p ∈ sets, k ∈ p.2.stored := by
    intro k
    rw [apply, Finset.mem_union, Finset.mem_sdiff, mem_stored_foldl_unite,
      mem_removed_foldl_unite]
    simp only [List.mem_map, exists_exists_and_eq_and, Finset.notMem_empty, false_or, not_exists,
      not_and]
  refine forall_congr' fun k => ?_
  rw [hmem]
  constructor
  · rintro h ⟨p, hp, hremoved⟩ hstored q hq hk
    rcases h.mpr ⟨q, hq, hk⟩ with ⟨-, hkeep⟩ | ⟨r, hr, hrk⟩
    · exact hkeep p hp hremoved
    · exact hstored r hr hrk
  · intro h
    constructor
    · rintro (⟨hk, hkeep⟩ | ⟨p, hp, hk⟩)
      · obtain ⟨p, hp, hpk⟩ := (hR k).mp hk
        exact ⟨p, hp, Finset.mem_union_left _ (Finset.mem_sdiff.mpr ⟨hpk, hkeep p hp⟩)⟩
      · exact ⟨p, hp, Finset.mem_union_right _ hk⟩
    · rintro ⟨p, hp, hk⟩
      by_cases hstored : ∃ q ∈ sets, k ∈ q.2.stored
      · exact .inr hstored
      · push Not at hstored
        refine .inl ⟨?_, fun q hq hremoved => h ⟨q, hq, hremoved⟩ hstored p hp hk⟩
        rcases Finset.mem_union.mp hk with hk | hk
        · exact (hR k).mpr ⟨p, hp, (Finset.mem_sdiff.mp hk).1⟩
        · exact absurd hk (hstored p hp)

end Window

end Delta
