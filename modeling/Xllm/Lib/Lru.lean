import Mathlib.Data.List.Nodup
import Mathlib.Data.List.Perm.Basic

/-!
# Recency lists with unique keys

The abstract content of a map whose entries are also linked in access order: one
list of entries, oldest first, in which every key occurs once. A pass over the
map unlinks each entry it meets and gathers it in front of a second list, which
is appended at the end of the pass. `Walk` holds the two lists during a pass, and
`walkMatch` and `walkStore` are the two kinds of pass: follow keys until one is
absent, and store entries that are not there yet.

Passes keep the keys unique and never change what a key means, except that a
stored entry becomes visible under its key. When the keys of one pass are
distinct the resulting order is explicit: the untouched entries in their old
order, then the touched ones, last touched first.
-/

namespace Lru

open List

variable {α κ : Type*} (key : α → κ)

/-- Every key occurs at most once. -/
def Keyed (l : List α) : Prop := (l.map key).Nodup

section Keyed

variable {key} {l l' : List α} {a b : α}

theorem Keyed.eq_of_key_eq (h : Keyed key l) (ha : a ∈ l) (hb : b ∈ l) (hk : key a = key b) :
    a = b := inj_on_of_nodup_map h ha hb hk

theorem Keyed.nodup (h : Keyed key l) : l.Nodup := List.Nodup.of_map key h

theorem Keyed.perm (h : Keyed key l) (hp : l.Perm l') : Keyed key l' :=
  (hp.map key).nodup_iff.mp h

theorem Keyed.sublist (h : Keyed key l) (hs : l'.Sublist l) : Keyed key l' :=
  List.Nodup.sublist (hs.map key) h

end Keyed

variable [DecidableEq κ]

def lookup (l : List α) (k : κ) : Option α := l.find? fun a => key a = k

def remove (l : List α) (k : κ) : List α := l.filter fun a => key a ≠ k

variable {key} {l l' : List α} {a b : α} {k : κ}

theorem lookup_eq_none_iff : lookup key l k = none ↔ ∀ a ∈ l, key a ≠ k := by
  simp [lookup]

theorem mem_of_lookup (h : lookup key l k = some a) : a ∈ l ∧ key a = k := by
  refine ⟨mem_of_find?_eq_some h, ?_⟩
  simpa using find?_some h

theorem lookup_eq_some_iff (h : Keyed key l) : lookup key l k = some a ↔ a ∈ l ∧ key a = k := by
  constructor
  · exact mem_of_lookup
  · rintro ⟨ha, rfl⟩
    cases hl : lookup key l (key a) with
    | none => exact absurd rfl (lookup_eq_none_iff.mp hl a ha)
    | some b =>
        obtain ⟨hb, hk⟩ := mem_of_lookup hl
        rw [h.eq_of_key_eq hb ha hk]

theorem lookup_perm (h : Keyed key l) (hp : l.Perm l') (k : κ) :
    lookup key l k = lookup key l' k := by
  cases hl : lookup key l' k with
  | none =>
      rw [lookup_eq_none_iff] at hl ⊢
      exact fun a ha => hl a (hp.mem_iff.mp ha)
  | some a =>
      obtain ⟨ha, hk⟩ := mem_of_lookup hl
      exact (lookup_eq_some_iff h).mpr ⟨hp.mem_iff.mpr ha, hk⟩

@[simp] theorem mem_remove : a ∈ remove key l k ↔ a ∈ l ∧ key a ≠ k := by
  simp [remove]

@[simp] theorem remove_eq_self (h : ∀ a ∈ l, key a ≠ k) : remove key l k = l :=
  List.filter_eq_self.mpr fun a ha => decide_eq_true (h a ha)

theorem cons_remove_perm (h : Keyed key l) (ha : a ∈ l) : (a :: remove key l (key a)).Perm l := by
  induction l with
  | nil => cases ha
  | cons b l ih =>
      have hkb : ∀ c ∈ l, key c ≠ key b := by
        intro c hc he
        exact (List.nodup_cons.mp h).1 (List.mem_map.mpr ⟨c, hc, he⟩)
      by_cases hab : a = b
      · subst hab
        have hrest : remove key (a :: l) (key a) = l := by
          rw [remove, filter_cons_of_neg (by simp)]
          exact remove_eq_self hkb
        rw [hrest]
      · have hal : a ∈ l := (List.mem_cons.mp ha).resolve_left hab
        have hne : key b ≠ key a := fun he => hkb a hal he.symm
        have hrest : remove key (b :: l) (key a) = b :: remove key l (key a) := by
          rw [remove, filter_cons_of_pos (by simpa using hne)]
          rfl
        rw [hrest]
        exact (List.Perm.swap b a _).trans ((ih (List.nodup_cons.mp h).2 hal).cons b)

variable (key) in
/-- The longest run of present entries for a list of keys. -/
def hits (l : List α) : List κ → List α
  | [] => []
  | k :: ks =>
      match lookup key l k with
      | some a => a :: hits l ks
      | none => []

theorem hits_congr {ks : List κ} (h : ∀ k ∈ ks, lookup key l k = lookup key l' k) :
    hits key l ks = hits key l' ks := by
  induction ks with
  | nil => rfl
  | cons k ks ih =>
      rw [hits, hits, h k mem_cons_self, ih fun j hj => h j (mem_cons_of_mem _ hj)]

theorem mem_of_mem_hits {ks : List κ} (h : a ∈ hits key l ks) : a ∈ l := by
  induction ks with
  | nil => simp [hits] at h
  | cons k ks ih =>
      rw [hits] at h
      cases hl : lookup key l k with
      | none => simp [hl] at h
      | some b =>
          rw [hl] at h
          rcases List.mem_cons.mp h with rfl | h
          · exact (mem_of_lookup hl).1
          · exact ih h

theorem length_hits_le (l : List α) (ks : List κ) : (hits key l ks).length ≤ ks.length := by
  induction ks with
  | nil => simp [hits]
  | cons k ks ih =>
      rw [hits]
      cases lookup key l k with
      | none => simp
      | some b => simpa using ih

variable (key) in
theorem map_key_hits (l : List α) (ks : List κ) :
    (hits key l ks).map key = ks.take (hits key l ks).length := by
  induction ks with
  | nil => simp [hits]
  | cons k ks ih =>
      rw [hits]
      cases hl : lookup key l k with
      | none => simp
      | some b => simp [(mem_of_lookup hl).2, ih]

theorem lookup_after_hits {ks : List κ} {j : κ} (h : ks[(hits key l ks).length]? = some j) :
    lookup key l j = none := by
  induction ks with
  | nil => simp [hits] at h
  | cons k ks ih =>
      rw [hits] at h
      cases hl : lookup key l k with
      | none =>
          rw [hl] at h
          have hj : k = j := by simpa using h
          rw [← hj, hl]
      | some b =>
          rw [hl] at h
          exact ih (by simpa using h)

/-- The state of one pass: the entries not met yet, and those met, latest first. -/
structure Walk (α : Type*) where
  old : List α
  recent : List α

namespace Walk

/-- The order in which the entries stand once the pass is over. -/
def all (w : Walk α) : List α := w.old ++ w.recent

variable (key) in
def touch (w : Walk α) (a : α) : Walk α :=
  ⟨remove key w.old (key a), a :: remove key w.recent (key a)⟩

def push (w : Walk α) (a : α) : Walk α := ⟨w.old, a :: w.recent⟩

theorem touch_perm {w : Walk α} (h : Keyed key w.all) (ha : a ∈ w.all) :
    (w.touch key a).all.Perm w.all := by
  have hsplit : remove key w.all (key a) =
      remove key w.old (key a) ++ remove key w.recent (key a) :=
    filter_append ..
  have hmove : (w.touch key a).all.Perm (a :: remove key w.all (key a)) := by
    rw [hsplit]
    exact perm_middle
  exact hmove.trans (cons_remove_perm h ha)

theorem push_perm (w : Walk α) (a : α) : (w.push a).all.Perm (a :: w.all) := perm_middle

theorem push_keyed {w : Walk α} (h : Keyed key w.all) (hnone : lookup key w.all (key a) = none) :
    Keyed key (w.push a).all := by
  refine Keyed.perm ?_ (w.push_perm a).symm
  refine List.nodup_cons.mpr ⟨?_, h⟩
  intro hmem
  obtain ⟨b, hb, he⟩ := List.mem_map.mp hmem
  exact lookup_eq_none_iff.mp hnone b hb he

end Walk

variable (key) in
/-- Follow keys until one is absent. -/
def walkMatch : List κ → Walk α → Walk α
  | [], w => w
  | k :: ks, w =>
      match lookup key w.all k with
      | some a => walkMatch ks (w.touch key a)
      | none => w

variable (key) in
/-- Store the entries whose key is absent, and meet the others. -/
def walkStore : List α → Walk α → Walk α
  | [], w => w
  | a :: as, w =>
      match lookup key w.all (key a) with
      | some b => walkStore as (w.touch key b)
      | none => walkStore as (w.push a)

/-- A match moves entries and keeps them all. -/
theorem walkMatch_perm (ks : List κ) {w : Walk α} (h : Keyed key w.all) :
    (walkMatch key ks w).all.Perm w.all := by
  induction ks generalizing w with
  | nil => exact .refl _
  | cons k ks ih =>
      rw [walkMatch]
      cases hl : lookup key w.all k with
      | none => exact .refl _
      | some a =>
          have hperm := Walk.touch_perm h (mem_of_lookup hl).1
          exact (ih (h.perm hperm.symm)).trans hperm

variable (key) in
/-- The entries that `walkStore` adds, in the order in which it adds them. -/
def walkStored : List α → Walk α → List α
  | [], _ => []
  | a :: as, w =>
      match lookup key w.all (key a) with
      | some b => walkStored as (w.touch key b)
      | none => a :: walkStored as (w.push a)

theorem walkStored_sublist (as : List α) (w : Walk α) : (walkStored key as w).Sublist as := by
  induction as generalizing w with
  | nil => exact .slnil
  | cons a as ih =>
      rw [walkStored]
      cases lookup key w.all (key a) with
      | none => exact (ih _).cons_cons a
      | some b => exact (ih _).cons a

/-- A store adds the entries whose keys are new. -/
theorem walkStore_perm (as : List α) {w : Walk α} (h : Keyed key w.all) :
    (walkStore key as w).all.Perm (walkStored key as w ++ w.all) := by
  induction as generalizing w with
  | nil => exact .refl _
  | cons a as ih =>
      rw [walkStore, walkStored]
      cases hl : lookup key w.all (key a) with
      | none =>
          have hrest := ih (Walk.push_keyed h hl)
          exact hrest.trans (((w.push_perm a).append_left _).trans perm_middle)
      | some b =>
          have hperm := Walk.touch_perm h (mem_of_lookup hl).1
          exact (ih (h.perm hperm.symm)).trans (hperm.append_left _)

/-- Take out up to `n` entries that are not in use, oldest first: the entries
left and the entries taken. -/
def sweep (inUse : α → Bool) : Nat → List α → List α × List α
  | _, [] => ([], [])
  | 0, l => (l, [])
  | n + 1, a :: l =>
      if inUse a then
        let r := sweep inUse (n + 1) l
        (a :: r.1, r.2)
      else
        let r := sweep inUse n l
        (r.1, a :: r.2)

section Sweep

variable {inUse : α → Bool}

theorem sweep_zero (l : List α) : sweep inUse 0 l = (l, []) := by
  cases l <;> rfl

theorem sweep_congr {inUse' : α → Bool} (n : Nat) (h : ∀ a ∈ l, inUse a = inUse' a) :
    sweep inUse n l = sweep inUse' n l := by
  induction l generalizing n with
  | nil => rfl
  | cons a l ih =>
      have hrest : ∀ n, sweep inUse n l = sweep inUse' n l :=
        fun n => ih n fun b hb => h b (mem_cons_of_mem _ hb)
      cases n with
      | zero => rfl
      | succ n => rw [sweep, sweep, h a mem_cons_self, hrest, hrest]

/-- A sweep keeps or evicts every entry. -/
theorem sweep_perm (inUse : α → Bool) (n : Nat) (l : List α) :
    ((sweep inUse n l).2 ++ (sweep inUse n l).1).Perm l := by
  induction l generalizing n with
  | nil => exact .refl _
  | cons a l ih =>
      cases n with
      | zero => exact .refl _
      | succ n =>
          rw [sweep]
          split
          · exact List.perm_middle.trans ((ih (n + 1)).cons a)
          · exact (ih n).cons a

theorem sweep_kept_sublist (n : Nat) (l : List α) : (sweep inUse n l).1.Sublist l := by
  induction l generalizing n with
  | nil => exact .slnil
  | cons a l ih =>
      cases n with
      | zero => exact .refl _
      | succ n =>
          rw [sweep]
          split
          · exact (ih (n + 1)).cons_cons a
          · exact (ih n).cons a

@[simp] theorem length_sweep (n : Nat) (l : List α) :
    (sweep inUse n l).2.length = min n (l.countP fun a => !inUse a) := by
  induction l generalizing n with
  | nil => exact (Nat.min_zero n).symm
  | cons a l ih =>
      cases n with
      | zero => exact (Nat.zero_min _).symm
      | succ n =>
          rw [sweep, countP_cons]
          cases hused : inUse a with
          | true => simp only [if_true, ih]; simp
          | false => simp [ih]

theorem not_inUse_of_mem_sweep {n : Nat} (h : a ∈ (sweep inUse n l).2) : inUse a = false := by
  induction l generalizing n with
  | nil => cases h
  | cons b l ih =>
      cases n with
      | zero => cases h
      | succ n =>
          rw [sweep] at h
          split at h
          · exact ih h
          · rename_i hb
            rcases List.mem_cons.mp h with rfl | h
            · simpa using hb
            · exact ih h

end Sweep

end Lru
