import Xllm.Util.Int32MapRefine

/-!
# Runs of several maps

A program uses several maps and moves them. Its runs are compared with runs on functions from
keys to values. The two agree as long as no missing key is inserted into a map that already has
`1610612736` keys; there the doubled capacity wraps to zero, and the assertion of `rehash` fails.
-/

namespace Xllm.Int32Maps

open Contract OpenAddressing List Function

variable {T : Type} {m : Int32Map T} {f : Int32 → Option T} {slots : Nat → Slot Int32 T}
  {k : Nat} {key : Int32} {value : T}

/-- The maps of a program as functions, and the results of its calls. -/
structure Spec (T : Type) where
  maps : Nat → Int32 → Option T := fun _ _ => none
  log : List (Result T) := []

namespace Spec

def set (s : Spec T) (m : Nat) (f : Int32 → Option T) (r : Result T) : Spec T where
  maps := update s.maps m f
  log := r :: s.log

def answer (s : Spec T) (r : Result T) : Spec T := { s with log := r :: s.log }

def guarded (s : Spec T) (key : Int32) (body : Spec T) : Spec T :=
  if Reserved key then s.answer .invalidKey else body

def insert (s : Spec T) (m : Nat) (key : Int32) (value : T) : Spec T :=
  let v := some ((s.maps m key).getD value)
  s.set m (update (s.maps m) key v) (.value v)

def step [Inhabited T] (s : Spec T) : Op T → Spec T
  | .emplace m key value => s.guarded key (s.insert m key value)
  | .index m key => s.guarded key (s.insert m key default)
  | .assign m key value =>
      s.guarded key (s.set m (update (s.maps m) key (some value)) (.value (some value)))
  | .erase m key => s.guarded key
      (s.set m (update (s.maps m) key none) (.flag (s.maps m key).isSome))
  | .find m key => s.guarded key (s.answer (.value (s.maps m key)))
  | .contains m key => s.guarded key (s.answer (.flag (s.maps m key).isSome))
  | .move m source =>
      if m = source then s.answer .moved
      else { s with maps := update s.maps source fun _ => none }.set m (s.maps source)
        .moved

def run [Inhabited T] (s : Spec T) (ops : List (Op T)) : Spec T := ops.foldl step s

end Spec

/-- The number of slots with a property. -/
def Int32Map.slotCount (m : Int32Map T) (p : Slot Int32 T → Bool) : Nat :=
  match m.slots with
  | none => 0
  | some slots => count p m.cap slots

/-- The map is the finite map `f`: searches return what `f` has, an iteration sees every key of
`f` once with its value, and the counters are right. -/
structure MapCorrect (m : Int32Map T) (f : Int32 → Option T) : Prop where
  find : ∀ key, m.find key = .ok (f key)
  contents : ∀ key value, (key, value) ∈ m.contents ↔ f key = some value
  once : (m.contents.map Prod.fst).Nodup
  valid : ∀ key, Reserved key → f key = none
  length : m.size = m.contents.length
  filled : m.size = m.slotCount Slot.isFilled
  tombstones : m.tombstones = m.slotCount Slot.isTombstone

/-- Every call returned what it returns on the finite maps, and the maps are these. -/
structure Correct (s : Spec T) (w : World T) : Prop where
  maps : ∀ m, MapCorrect (w.maps m) (s.maps m)
  log : w.log = s.log

/-- What an iteration sees in one slot. -/
def Seen (slots : Nat → Slot Int32 T) (i : Nat) : Option (Int32 × T) :=
  match slots i with
  | .filled key value => some (key, value)
  | _ => none

theorem seen_eq_some {i : Nat} {entry : Int32 × T} :
    Seen slots i = some entry ↔ slots i = .filled entry.1 entry.2 := by
  simp only [Seen]
  cases slots i with
  | empty => exact iff_of_false nofun nofun
  | tombstone => exact iff_of_false nofun nofun
  | filled key value =>
      simp only [Option.some.injEq, Slot.filled.injEq, Prod.ext_iff]

theorem Table.contents_eq (h : Table m f slots k) :
    m.contents = (range (2 ^ k)).filterMap (Seen slots) := by
  simp only [Int32Map.contents, h.slots_eq, h.cap_eq]
  rfl

theorem Table.mem_contents (h : Table m f slots k) (key : Int32) (value : T) :
    (key, value) ∈ m.contents ↔ f key = some value := by
  rw [h.contents_eq, h.holds, mem_filterMap]
  simp only [seen_eq_some, mem_range, Holds]

theorem Table.contents_once (h : Table m f slots k) : (m.contents.map Prod.fst).Nodup := by
  rw [h.contents_eq, List.Nodup, pairwise_map, pairwise_filterMap]
  apply List.nodup_range.imp_of_mem
  intro i j hi hj hne entry hentry entry' hentry' hsame
  rw [mem_range] at hi hj
  rw [seen_eq_some] at hentry hentry'
  rw [← hsame] at hentry'
  exact hne (h.sound.once i j entry.1 entry.2 entry'.2 hi hj hentry hentry')

theorem length_seen (slots : Nat → Slot Int32 T) (cap : Nat) :
    ((range cap).filterMap (Seen slots)).length = count Slot.isFilled cap slots := by
  induction cap with
  | zero => rfl
  | succ cap ih =>
      rw [range_succ, filterMap_append, length_append, count_succ]
      congr 1
      cases hslot : slots cap with
      | empty => simp [Seen, hslot, Slot.isFilled]
      | tombstone => simp [Seen, hslot, Slot.isFilled]
      | filled key value => simp [Seen, hslot, Slot.isFilled]

theorem Refines.mem_contents (h : Refines m f) (key : Int32) (value : T) :
    (key, value) ∈ m.contents ↔ f key = some value := by
  cases h with
  | inl hnew =>
      obtain ⟨rfl, rfl⟩ := hnew
      exact iff_of_false nofun nofun
  | inr htable =>
      obtain ⟨slots, k, htable, -⟩ := htable
      exact htable.mem_contents key value

theorem Refines.contents_once (h : Refines m f) : (m.contents.map Prod.fst).Nodup := by
  cases h with
  | inl hnew =>
      obtain ⟨rfl, rfl⟩ := hnew
      exact nodup_nil
  | inr htable =>
      obtain ⟨slots, k, htable, -⟩ := htable
      exact htable.contents_once

theorem Refines.size_eq (h : Refines m f) : m.size = m.contents.length := by
  cases h with
  | inl hnew =>
      obtain ⟨rfl, rfl⟩ := hnew
      rfl
  | inr htable =>
      obtain ⟨slots, k, htable, -⟩ := htable
      rw [htable.contents_eq, length_seen]
      exact htable.size_eq

theorem Refines.mem_keys (h : Refines m f) (key : Int32) :
    key ∈ m.contents.map Prod.fst ↔ f key ≠ none := by
  rw [mem_map, Option.ne_none_iff_exists']
  constructor
  · intro hmem
    obtain ⟨entry, hentry, rfl⟩ := hmem
    exact ⟨entry.2, (h.mem_contents entry.1 entry.2).mp hentry⟩
  · intro hsome
    obtain ⟨value, hvalue⟩ := hsome
    exact ⟨(key, value), (h.mem_contents key value).mpr hvalue, rfl⟩

theorem Refines.size_le (h : Refines m f) {keys : List Int32}
    (hkeys : ∀ key, f key ≠ none → key ∈ keys) : m.size ≤ keys.length := by
  have hsub : m.contents.map Prod.fst ⊆ keys := by
    intro key hkey
    exact hkeys key ((h.mem_keys key).mp hkey)
  have hlength := (h.contents_once.subperm hsub).length_le
  rw [length_map, ← h.size_eq] at hlength
  exact hlength

theorem Refines.le_size (h : Refines m f) {keys : List Int32} (nodup : keys.Nodup)
    (hkeys : ∀ key ∈ keys, f key ≠ none) : keys.length ≤ m.size := by
  have hsub : keys ⊆ m.contents.map Prod.fst := by
    intro key hkey
    exact (h.mem_keys key).mpr (hkeys key hkey)
  have hlength := (nodup.subperm hsub).length_le
  rw [length_map, ← h.size_eq] at hlength
  exact hlength

theorem Refines.correct (h : Refines m f) (valid : ∀ key, Reserved key → f key = none) :
    MapCorrect m f := by
  refine ⟨h.find, h.mem_contents, h.contents_once, valid, h.size_eq, ?_, ?_⟩
  · cases h with
    | inl hnew => rw [hnew.1]; rfl
    | inr htable =>
        obtain ⟨slots, k, htable, -⟩ := htable
        simp only [Int32Map.slotCount, htable.slots_eq, htable.cap_eq]
        exact htable.size_eq
  · cases h with
    | inl hnew => rw [hnew.1]; rfl
    | inr htable =>
        obtain ⟨slots, k, htable, -⟩ := htable
        simp only [Int32Map.slotCount, htable.slots_eq, htable.cap_eq]
        exact htable.tombstones_eq

/-- A missing key cannot be inserted into a table with `1610612736` keys: it has `2 ^ 31` slots,
no tombstones, and no room, and twice the capacity is zero. -/
theorem Table.emplace_full (h : Table m f slots k) (hkey : f key = none)
    (hfull : 1610612736 ≤ m.size) : m.emplace key value = .error .assertion := by
  have hload := h.load
  have hle : 2 ^ k ≤ 2 ^ 31 := Nat.pow_le_pow_right (by decide) h.le_31
  have hcap : 2 ^ k = 2147483648 := by omega
  have htombs : m.tombstones = 0 := by omega
  have hallocate : m.allocate = m := by
    simp only [Int32Map.allocate, h.slots_eq]
  simp only [Int32Map.emplace, hallocate, h.slots_eq]
  cases h.probe_spec key with
  | inl hfound =>
      obtain ⟨_, _, _, _, hthere, -⟩ := hfound
      rw [hkey] at hthere
      cases hthere
  | inr hmissing =>
      obtain ⟨-, i, hproposed, hprobe⟩ := hmissing
      have hempty : slots i = .empty := by
        apply hproposed.free.resolve_right
        intro htomb
        have hpos : 0 < count Slot.isTombstone (2 ^ k) slots :=
          count_pos_iff.mpr ⟨i, hproposed.lt (probe_covers k), by rw [htomb]; rfl⟩
        rw [← h.tombstones_eq, htombs] at hpos
        exact absurd hpos (Nat.lt_irrefl 0)
      rw [hprobe, ok_bind]
      simp only [Bool.false_eq_true, if_false, hempty]
      rw [if_pos]
      · have hroom : m.makeRoom = .error .assertion := by
          simp only [Int32Map.makeRoom, maxLoadPct, h.cap_eq, hcap]
          rw [if_neg (by omega), Int32Map.rehash, if_neg (by decide)]
        rw [hroom]
        rfl
      · simp only [maxLoadPct, h.cap_eq]
        omega

theorem Refines.emplace_full (h : Refines m f) (hkey : f key = none)
    (hfull : 1610612736 ≤ m.size) : m.emplace key value = .error .assertion := by
  cases h with
  | inl hnew =>
      obtain ⟨rfl, rfl⟩ := hnew
      exact absurd hfull (Nat.not_succ_le_zero _)
  | inr htable =>
      obtain ⟨slots, k, htable, -⟩ := htable
      exact htable.emplace_full hkey hfull

/-- The world and the finite maps of one run. -/
structure Agrees (s : Spec T) (w : World T) : Prop where
  maps : ∀ m, Refines (w.maps m) (s.maps m)
  valid : ∀ m key, Reserved key → s.maps m key = none
  log : w.log = s.log

theorem Agrees.start : Agrees ({} : Spec T) {} where
  maps := fun _ => .inl ⟨rfl, rfl⟩
  valid := fun _ _ _ => rfl
  log := rfl

theorem Agrees.correct {s : Spec T} {w : World T} (h : Agrees s w) : Correct s w where
  maps := fun m => (h.maps m).correct (h.valid m)
  log := h.log

theorem Agrees.answer {s : Spec T} {w : World T} (h : Agrees s w) (r : Result T) :
    Agrees (s.answer r) (w.answer r) where
  maps := h.maps
  valid := h.valid
  log := congrArg (r :: ·) h.log

theorem Agrees.set {s : Spec T} {w : World T} (h : Agrees s w) {map : Int32Map T} (m : Nat)
    (hmap : Refines map f) (hvalid : ∀ key, Reserved key → f key = none) (r : Result T) :
    Agrees (s.set m f r) (w.set m map r) where
  maps := by
    intro m'
    by_cases hm : m' = m
    · subst hm
      simpa only [Spec.set, World.set, update_self] using hmap
    · simpa only [Spec.set, World.set, update_of_ne hm] using h.maps m'
  valid := by
    intro m' key hkey
    by_cases hm : m' = m
    · subst hm
      simpa only [Spec.set, update_self] using hvalid key hkey
    · simpa only [Spec.set, update_of_ne hm] using h.valid m' key hkey
  log := congrArg (r :: ·) h.log

/-- The step inserts no missing key into a map that already has `1610612736` keys. -/
def Fits (w : World T) : Op T → Prop
  | .emplace m key _ | .index m key | .assign m key _ =>
      Reserved key ∨ (w.maps m).find key ≠ .ok none ∨ (w.maps m).size < 1610612736
  | _ => True

section Steps

variable {s : Spec T} {w : World T} (h : Agrees s w)

include h

theorem Agrees.fits_iff (m : Nat) (key : Int32) :
    ((w.maps m).find key ≠ .ok none ∨ (w.maps m).size < 1610612736) ↔
      (s.maps m key = none → (w.maps m).size < 1610612736) := by
  have hfind : (w.maps m).find key = .ok none ↔ s.maps m key = none := by
    rw [(h.maps m).find, Except.ok.injEq]
  rw [Ne, hfind, imp_iff_not_or]

theorem Agrees.guarded {body : Except Abort (World T)} {specBody : Spec T}
    (hbody : ¬ Reserved key → Yields body (Agrees specBody)) :
    Yields (w.guarded key body) (Agrees (s.guarded key specBody)) := by
  simp only [World.guarded, Spec.guarded]
  split
  · exact h.answer _
  · rename_i hkey
    exact hbody hkey

theorem Agrees.valid_update (m : Nat) (hkey : ¬ Reserved key) (v : Option T) :
    ∀ key', Reserved key' → update (s.maps m) key v key' = none := by
  intro key' hkey'
  have hne : key' ≠ key := by
    intro heq
    exact hkey (heq ▸ hkey')
  rw [update_of_ne hne]
  exact h.valid m key' hkey'

theorem Agrees.insert (m : Nat) (hkey : ¬ Reserved key) (value : T)
    (fits : s.maps m key = none → (w.maps m).size < 1610612736) :
    Yields ((w.maps m).emplace key value >>= fun r =>
        .ok (w.set m r.2 (.value (r.2.valueAt r.1))))
      (Agrees (s.insert m key value)) := by
  refine Ensures.bind ((h.maps m).emplace_spec value fits) fun r hr => ?_
  rw [hr.2.1]
  exact h.set m hr.1 (h.valid_update m hkey _) _

theorem Agrees.assign (m : Nat) (hkey : ¬ Reserved key) (value init : T)
    (fits : s.maps m key = none → (w.maps m).size < 1610612736) :
    Yields ((w.maps m).emplace key init >>= fun r =>
        .ok (w.set m (r.2.assignAt r.1 key value) (.value (some value))))
      (Agrees (s.set m (update (s.maps m) key (some value)) (.value (some value)))) := by
  refine Ensures.bind ((h.maps m).emplace_spec init fits) fun r hr => ?_
  exact h.set m (hr.2.2 value) (h.valid_update m hkey _) _

theorem Agrees.erase (m : Nat) (hkey : ¬ Reserved key) :
    Yields ((w.maps m).erase key >>= fun r => .ok (w.set m r.2 (.flag r.1)))
      (Agrees (s.set m (update (s.maps m) key none) (.flag (s.maps m key).isSome))) := by
  refine Ensures.bind ((h.maps m).erase key) fun r hr => ?_
  rw [hr.1]
  exact h.set m hr.2 (h.valid_update m hkey none) _

theorem Agrees.move (m source : Nat) (hne : m ≠ source) :
    Agrees ({ s with maps := update s.maps source fun _ => none }.set m (s.maps source)
        .moved)
      ({ w with maps := update w.maps source {} }.set m (w.maps source) .moved) := by
  have hempty : Agrees { s with maps := update s.maps source fun _ => none }
      { w with maps := update w.maps source {} } := by
    refine ⟨fun m' => ?_, fun m' key hkey => ?_, h.log⟩
    · by_cases hm : m' = source
      · subst hm
        simp only [update_self]
        exact .inl ⟨rfl, rfl⟩
      · simp only [update_of_ne hm]
        exact h.maps m'
    · by_cases hm : m' = source
      · subst hm
        simp only [update_self]
      · simp only [update_of_ne hm]
        exact h.valid m' key hkey
  exact hempty.set m (h.maps source) (h.valid source) .moved

/-- Step lemma: a call that fits. -/
theorem Agrees.step [Inhabited T] (op : Op T) (fits : Fits w op) :
    Yields (w.step op) (Agrees (s.step op)) := by
  cases op with
  | emplace m key value =>
      refine h.guarded fun hkey => h.insert m hkey value ?_
      exact (h.fits_iff m key).mp (fits.resolve_left hkey)
  | index m key =>
      refine h.guarded fun hkey => h.insert m hkey default ?_
      exact (h.fits_iff m key).mp (fits.resolve_left hkey)
  | assign m key value =>
      refine h.guarded fun hkey => h.assign m hkey value default ?_
      exact (h.fits_iff m key).mp (fits.resolve_left hkey)
  | erase m key => exact h.guarded fun hkey => h.erase m hkey
  | find m key =>
      refine h.guarded fun _ => ?_
      rw [(h.maps m).find]
      exact h.answer _
  | contains m key =>
      refine h.guarded fun _ => ?_
      rw [(h.maps m).contains]
      exact h.answer _
  | move m source =>
      simp only [World.step, Spec.step]
      split
      · exact h.answer _
      · rename_i hne
        exact h.move m source hne

/-- A call that does not fit fails the assertion. -/
theorem Agrees.step_fails [Inhabited T] (op : Op T) (fits : ¬ Fits w op) :
    w.step op = .error .assertion := by
  have hfails : ∀ {m : Nat} {key : Int32} {body : Except Abort (World T)},
      ¬ (Reserved key ∨ (w.maps m).find key ≠ .ok none ∨ (w.maps m).size < 1610612736) →
        (s.maps m key = none → 1610612736 ≤ (w.maps m).size → body = .error .assertion) →
          w.guarded key body = .error .assertion := by
    intro m key body hno hbody
    rw [not_or, h.fits_iff, Classical.not_imp, Nat.not_lt] at hno
    rw [World.guarded, if_neg hno.1]
    exact hbody hno.2.1 hno.2.2
  cases op with
  | emplace m key value =>
      refine hfails fits fun hkey hfull => ?_
      rw [(h.maps m).emplace_full hkey hfull]
      rfl
  | index m key =>
      refine hfails fits fun hkey hfull => ?_
      rw [(h.maps m).emplace_full hkey hfull]
      rfl
  | assign m key value =>
      refine hfails fits fun hkey hfull => ?_
      rw [(h.maps m).emplace_full hkey hfull]
      rfl
  | erase m key => exact absurd trivial fits
  | find m key => exact absurd trivial fits
  | contains m key => exact absurd trivial fits
  | move m source => exact absurd trivial fits

theorem Agrees.run_iff [Inhabited T] (ops : List (Op T)) :
    Yields (w.run ops) (Correct (s.run ops)) ↔ Along World.step Fits w ops := by
  induction ops generalizing s w with
  | nil => exact iff_of_true h.correct trivial
  | cons op ops ih =>
      rw [World.run, run_cons]
      by_cases fits : Fits w op
      · obtain ⟨w', hstep, h'⟩ := (h.step op fits).exists_ok
        have hrest := ih h'
        rw [hstep]
        constructor
        · intro hrun
          refine ⟨fits, fun t ht => ?_⟩
          rw [hstep, Except.ok.injEq] at ht
          exact ht ▸ hrest.mp hrun
        · intro along
          exact hrest.mpr (along.2 w' hstep)
      · rw [h.step_fails op fits]
        exact iff_of_false False.elim fun along => fits along.1

end Steps

/-- A program on maps behaves as on finite maps, and no call throws the exception of a full
table or fails an assertion, if and only if it inserts no missing key into a map that already
has `1610612736` keys. -/
theorem int32Map_refines_iff [Inhabited T] (ops : List (Op T)) :
    Ensures (World.run {} ops) (fun _ => False) (Correct (Spec.run {} ops)) ↔
      Along World.step Fits {} ops :=
  Agrees.start.run_iff ops

/-- The first `n` numbers are inserted into one map. -/
def inserts (n : Nat) : List (Op Unit) :=
  (range n).map fun i => .emplace 0 (Int32.ofNat i) ()

theorem inserts_succ (n : Nat) :
      inserts (n + 1) = inserts n ++ [.emplace 0 (Int32.ofNat n) ()] := by
  simp only [inserts, range_succ, map_append, map_cons, map_nil]

theorem ofNat_not_reserved {i : Nat} (hi : i < 2147483648) : ¬ Reserved (Int32.ofNat i) := by
  have hint : (Int32.ofNat i).toInt = i := Int32.toInt_ofNat_of_lt hi
  intro h
  cases h with
  | inl h =>
      have hneg : keyEmpty.toInt < 0 := by decide
      rw [← h] at hneg
      omega
  | inr h =>
      have hneg : keyTombstone.toInt < 0 := by decide
      rw [← h] at hneg
      omega

/-- A map into which the first `n` numbers were inserted. -/
structure Inserted (n : Nat) (m : Int32Map Unit) (f : Int32 → Option Unit) : Prop where
  refines : Refines m f
  size : m.size = n
  rest : ∀ i, n ≤ i → i < 2147483648 → f (Int32.ofNat i) = none

theorem Inserted.step {n : Nat} {w : World Unit} {f : Int32 → Option Unit}
    (h : Inserted n (w.maps 0) f) (hn : n < 1610612736) :
    Yields (w.step (.emplace 0 (Int32.ofNat n) ()))
      (fun w' => ∃ f', Inserted (n + 1) (w'.maps 0) f') := by
  have hmissing := h.rest n (Nat.le_refl n) (by omega)
  simp only [World.step, World.guarded, if_neg (ofNat_not_reserved (i := n) (by omega))]
  have fits : f (Int32.ofNat n) = none → (w.maps 0).size < 1610612736 := by
    intro _
    rw [h.size]
    exact hn
  refine Ensures.bind (h.refines.emplace () fits) fun r hr => ?_
  have hpos := hr.pos h.refines
  have hsize := hr.size
  obtain ⟨slots, k, htable, -⟩ := hr.refines
  rw [hmissing, h.size] at hsize
  refine ⟨_, .inr ⟨slots, k, htable, hpos⟩, hsize, fun i hi hlt => ?_⟩
  have hne : Int32.ofNat i ≠ Int32.ofNat n := by
    intro heq
    have hints := congrArg Int32.toInt heq
    rw [Int32.toInt_ofNat_of_lt hlt, Int32.toInt_ofNat_of_lt (by omega)] at hints
    omega
  rw [update_of_ne hne]
  exact h.rest i (by omega) hlt

theorem inserts_run {n : Nat} (hn : n ≤ 1610612736) :
    Yields (World.run {} (inserts n)) (fun w => ∃ f, Inserted n (w.maps 0) f) := by
  induction n with
  | zero => exact ⟨_, .inl ⟨rfl, rfl⟩, rfl, fun _ _ _ => rfl⟩
  | succ n ih =>
      rw [inserts_succ, World.run, run_append]
      refine (ih (by omega)).bind fun w hw => ?_
      obtain ⟨f, hw⟩ := hw
      refine (hw.step hn).bind fun w' hw' => hw'

theorem inserts_fails {n : Nat} (hn : n = 1610612736) :
    World.run {} (inserts (n + 1)) = .error .assertion := by
  obtain ⟨w, hrun, f, hw⟩ := (inserts_run (Nat.le_of_eq hn)).exists_ok
  have hrun' : Contract.run World.step {} (inserts n) = .ok w := hrun
  have hmissing := hw.rest n (Nat.le_refl n) (by omega)
  have hfull : (w.maps 0).emplace (Int32.ofNat n) () = .error .assertion :=
    hw.refines.emplace_full hmissing (by rw [hw.size, hn])
  rw [inserts_succ, World.run, run_append, hrun', ok_bind, run_cons]
  simp only [World.step, World.guarded, if_neg (ofNat_not_reserved (i := n) (by omega)), hfull]
  rfl

/-- After `1610612736` insertions one more makes an assertion fail. -/
theorem int32Map_insert_too_many :
    ¬ Ensures (World.run {} (inserts 1610612737)) (fun _ => False)
      (Correct (Spec.run {} (inserts 1610612737))) := by
  rw [inserts_fails rfl]
  exact id

end Xllm.Int32Maps
