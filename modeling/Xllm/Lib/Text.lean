import Mathlib.Data.List.DropRight
import Mathlib.Data.List.Infix

/-!
# Searching in texts

Texts are lists over any alphabet. `splitFirst p t` cuts `t` at the first occurrence of
`p`, which is how a search that returns a position is used. The lemmas say how the first
occurrence behaves when texts are appended: one that is found stays, and one that is not
found in either part can only straddle the cut.

`trim` removes blank symbols from both ends. Two texts that agree up to blanks at their
ends have the same number of other symbols, counted by `solid`.
-/

namespace Text

open List

universe u

variable {α : Type u} [DecidableEq α] {p t u v x y : List α}

/-- What stands before and after the first occurrence of `p`. -/
def splitFirst (p : List α) : List α → Option (List α × List α)
  | [] => if p = [] then some ([], []) else none
  | c :: t =>
      if p <+: c :: t then some ([], (c :: t).drop p.length)
      else (splitFirst p t).map fun cut => (c :: cut.1, cut.2)

theorem splitFirst_eq_some (h : splitFirst p t = some (x, y)) : t = x ++ p ++ y := by
  induction t generalizing x with
  | nil =>
      rw [splitFirst] at h
      split at h
      · rename_i hp
        cases h
        rw [hp]
        rfl
      · cases h
  | cons c t ih =>
      rw [splitFirst] at h
      split at h
      · rename_i hp
        cases h
        obtain ⟨rest, hrest⟩ := hp
        rw [← hrest, drop_left, nil_append]
      · obtain ⟨⟨x', y'⟩, hcut, heq⟩ := Option.map_eq_some_iff.1 h
        cases heq
        rw [ih hcut]
        rfl

theorem splitFirst_eq_none : splitFirst p t = none ↔ ¬ p <:+: t := by
  induction t with
  | nil =>
      rw [splitFirst]
      split <;> simp [*]
  | cons c t ih =>
      rw [splitFirst, infix_cons_iff]
      split
      · simp [*]
      · simp [*]

@[simp] theorem splitFirst_isSome : (splitFirst p t).isSome ↔ p <:+: t := by
  rw [Option.isSome_iff_ne_none, Ne, splitFirst_eq_none, not_not]

/-- An occurrence that is found stays the first one when the text grows. -/
theorem splitFirst_append (h : splitFirst p t = some (x, y)) :
    splitFirst p (t ++ u) = some (x, y ++ u) := by
  induction t generalizing x with
  | nil =>
      rw [splitFirst] at h
      split at h
      · rename_i hp
        cases h
        subst hp
        cases u with
        | nil => rfl
        | cons c u => simp [splitFirst]
      · cases h
  | cons c t ih =>
      rw [splitFirst] at h
      rw [cons_append, splitFirst]
      split at h
      · rename_i hp
        cases h
        have hlong : p <+: c :: (t ++ u) := hp.trans (prefix_append (c :: t) u)
        rw [if_pos hlong, ← cons_append, drop_append_of_le_length hp.length_le]
      · rename_i hp
        obtain ⟨⟨x', y'⟩, hcut, heq⟩ := Option.map_eq_some_iff.1 h
        cases heq
        have hout : ¬ p <+: c :: (t ++ u) := by
          -- the text up to the found occurrence is long enough to hold `p`
          intro hlong
          have hlen : p.length ≤ (c :: t).length := by
            rw [splitFirst_eq_some hcut]
            simp only [length_cons, length_append]
            omega
          exact hp (prefix_of_prefix_length_le hlong (prefix_append (c :: t) u) hlen)
        rw [if_neg hout, ih hcut]
        rfl

@[simp] theorem splitFirst_singleton (c : α) (hx : c ∉ x) :
    splitFirst [c] (x ++ c :: y) = some (x, y) := by
  induction x with
  | nil =>
      rw [nil_append, splitFirst, if_pos (by simp)]
      rfl
  | cons d x ih =>
      rw [mem_cons, not_or] at hx
      have hout : ¬ [c] <+: d :: (x ++ c :: y) := by
        rw [cons_prefix_cons]
        exact fun h => hx.1 h.1
      rw [cons_append, splitFirst, if_neg hout, ih hx.2]
      rfl

theorem not_mem_of_splitFirst {c : α} (h : splitFirst [c] t = some (x, y)) : c ∉ x := by
  have htext := splitFirst_eq_some h
  intro hmem
  obtain ⟨a, b, rfl, ha⟩ := eq_append_cons_of_mem hmem
  rw [htext] at h
  simp only [append_assoc, cons_append] at h
  rw [splitFirst_singleton c ha, Option.some.injEq, Prod.mk.injEq] at h
  have hlen := congrArg List.length h.1
  simp only [length_append, length_cons] at hlen
  omega

/-- The pattern begins in `u` and ends in `v`. -/
def Straddles (p u v : List α) : Prop :=
  ∃ a b, a ≠ [] ∧ b ≠ [] ∧ p = a ++ b ∧ a <:+ u ∧ b <+: v

omit [DecidableEq α] in
theorem not_straddles_nil : ¬ Straddles p u [] := by
  rintro ⟨a, b, -, hb, -, -, hv⟩
  exact hb (List.prefix_nil.1 hv)

omit [DecidableEq α] in
theorem Straddles.cons {c : α} (h : Straddles p u v) : Straddles p (c :: u) v := by
  obtain ⟨a, b, ha, hb, hp, hu, hv⟩ := h
  exact ⟨a, b, ha, hb, hp, hu.trans (suffix_cons c u), hv⟩

omit [DecidableEq α] in
theorem straddles_of_initial {c : α} (hlong : p <+: c :: (u ++ v)) (hp : ¬ p <+: c :: u) :
    Straddles p (c :: u) v := by
  have hu : (c :: u) <+: p := by
    rcases prefix_or_prefix_of_prefix hlong (prefix_append (c :: u) v) with h | h
    · exact absurd h hp
    · exact h
  obtain ⟨b, rfl⟩ := hu
  refine ⟨c :: u, b, cons_ne_nil _ _, ?_, rfl, suffix_refl _, ?_⟩
  · rintro rfl
    exact hp (by rw [append_nil])
  · exact (prefix_append_right_inj (c :: u)).1 hlong

theorem splitFirst_append_of_not (hu : ¬ p <:+: u) (hcut : ¬ Straddles p u v) :
    splitFirst p (u ++ v) = (splitFirst p v).map fun cut => (u ++ cut.1, cut.2) := by
  induction u with
  | nil => simp
  | cons c u ih =>
      rw [infix_cons_iff, not_or] at hu
      have hout : ¬ p <+: c :: (u ++ v) := fun hlong => hcut (straddles_of_initial hlong hu.1)
      rw [cons_append, splitFirst, if_neg hout, ih hu.2 fun h => hcut h.cons,
        Option.map_map]
      rfl

/-- When the pattern straddles the end of `u`, the first occurrence begins in `u`. -/
theorem Straddles.splitFirst (h : Straddles p u v) :
    ∃ x y a, Text.splitFirst p (u ++ v) = some (x, y) ∧ u = x ++ a ∧ a ≠ [] := by
  induction u with
  | nil =>
      obtain ⟨a, b, ha, -, -, hu, -⟩ := h
      exact absurd (List.suffix_nil.1 hu) ha
  | cons c u ih =>
      by_cases hlong : p <+: c :: (u ++ v)
      · refine ⟨[], (c :: (u ++ v)).drop p.length, c :: u, ?_, rfl, cons_ne_nil _ _⟩
        rw [cons_append, Text.splitFirst, if_pos hlong]
      · obtain ⟨a, b, ha, hb, hpab, hu, hv⟩ := h
        have hrest : Straddles p u v := by
          rcases List.suffix_cons_iff.1 hu with rfl | hu
          · refine absurd ?_ hlong
            rw [hpab]
            exact (prefix_append_right_inj (c :: u)).2 hv
          · exact ⟨a, b, ha, hb, hpab, hu, hv⟩
        obtain ⟨x, y, a', hcut, hsplit, ha'⟩ := ih hrest
        refine ⟨c :: x, y, a', ?_, by rw [hsplit]; rfl, ha'⟩
        rw [cons_append, Text.splitFirst, if_neg hlong, hcut]
        rfl

/-- A pattern that is completed only by the text that follows begins behind every
occurrence of another pattern whose first symbol it has at most in front. -/
theorem lt_of_splitFirst_append {c : α} {q z : List α} (hnone : ¬ p <:+: t)
    (ht : t = x ++ c :: q ++ y) (hc : c ∉ p.tail) (hpq : ¬ c :: q <+: p)
    (hcut : splitFirst p (t ++ u) = some (v, z)) : x.length < v.length := by
  have htext := splitFirst_eq_some hcut
  by_contra hle
  have hv : v <+: t ++ u := by
    rw [htext, append_assoc]
    exact prefix_append _ _
  have hx : x <+: t ++ u := by
    rw [ht, append_assoc, append_assoc]
    exact prefix_append _ _
  have hpre : v <+: x := prefix_of_prefix_length_le hv hx (Nat.le_of_not_lt hle)
  obtain ⟨gap, rfl⟩ := hpre
  -- behind `v` both the pattern and the other occurrence can be read
  have hbehind : p ++ z = gap ++ (c :: q ++ (y ++ u)) := by
    rw [ht] at htext
    simp only [append_assoc, append_cancel_left_eq] at htext
    rw [← htext]
  rcases prefix_or_prefix_of_prefix (prefix_append p z)
    (hbehind ▸ prefix_append gap _) with hp | hp
  · -- the pattern ends before the occurrence, so it was in the text before
    refine hnone ⟨v, (hp.trans (prefix_append gap (c :: q ++ y))).choose, ?_⟩
    rw [ht, append_assoc, (hp.trans (prefix_append gap (c :: q ++ y))).choose_spec]
    simp only [append_assoc]
  · obtain ⟨tail, rfl⟩ := hp
    rw [append_assoc, append_cancel_left_eq] at hbehind
    cases gap with
    | nil =>
        rcases prefix_or_prefix_of_prefix (prefix_append tail z)
          (hbehind ▸ prefix_append (c :: q) (y ++ u)) with htail | htail
        · refine hnone ⟨v, (htail.trans (prefix_append (c :: q) y)).choose, ?_⟩
          rw [ht, append_nil, nil_append, append_assoc,
            (htail.trans (prefix_append (c :: q) y)).choose_spec, append_assoc]
        · exact hpq htail
    | cons g gap =>
        cases tail with
        | nil =>
            refine hnone ⟨v, c :: q ++ y, ?_⟩
            rw [ht]
            simp only [append_nil, append_assoc]
        | cons d tail =>
            have hd : d = c := (List.cons_eq_cons.1 hbehind).1
            refine hc ?_
            rw [hd]
            exact mem_append_right _ mem_cons_self

/-! ### Tags

A tag is a pattern whose first symbol stands at its front only. -/

def IsTag (p : List α) : Prop := ∃ c rest, p = c :: rest ∧ c ∉ rest

omit [DecidableEq α] in
theorem IsTag.ne_nil (h : IsTag p) : p ≠ [] := by
  obtain ⟨c, rest, rfl, -⟩ := h
  exact cons_ne_nil c rest

omit [DecidableEq α] in
theorem IsTag.not_straddles {c : α} (h : IsTag p) (hc : p.head? = some c) :
    ¬ Straddles p u (c :: v) := by
  obtain ⟨d, rest, rfl, hrest⟩ := h
  cases hc
  rintro ⟨a, b, ha, hb, hp, -, hv⟩
  cases a with
  | nil => exact ha rfl
  | cons d a =>
      cases b with
      | nil => exact hb rfl
      | cons e b =>
          have he : e = c := (List.cons_prefix_cons.1 hv).1
          rw [cons_append, List.cons.injEq] at hp
          refine hrest ?_
          rw [hp.2, he]
          exact mem_append_right _ mem_cons_self

@[simp] theorem splitFirst_self (hp : p ≠ []) : splitFirst p (p ++ v) = some ([], v) := by
  cases p with
  | nil => exact absurd rfl hp
  | cons c p =>
      have hpre : c :: p <+: c :: (p ++ v) := prefix_append (c :: p) v
      rw [cons_append, splitFirst, if_pos hpre, ← cons_append, drop_left]

theorem IsTag.splitFirst (h : IsTag p) (hx : ¬ p <:+: x) :
    Text.splitFirst p (x ++ (p ++ y)) = some (x, y) := by
  have hcut : ¬ Straddles p x (p ++ y) := by
    obtain ⟨c, rest, hp, -⟩ := id h
    have hhead : p.head? = some c := by rw [hp]; rfl
    have := h.not_straddles (u := x) (v := rest ++ y) hhead
    rwa [← cons_append, ← hp] at this
  rw [splitFirst_append_of_not hx hcut, splitFirst_self h.ne_nil]
  simp

theorem not_infix_append (hu : ¬ p <:+: u) (hv : ¬ p <:+: v) (hcut : ¬ Straddles p u v) :
    ¬ p <:+: u ++ v := by
  rw [← splitFirst_eq_none, splitFirst_append_of_not hu hcut, splitFirst_eq_none.2 hv]
  rfl

theorem not_straddles_of_tails (h : u.tails.all (fun a => a.isEmpty || !a.isPrefixOf p)) :
    ¬ Straddles p u v := by
  rintro ⟨a, b, ha, -, hp, hu, -⟩
  have hall := List.all_eq_true.1 h a ((mem_tails a u).2 hu)
  rw [Bool.or_eq_true, Bool.not_eq_true', ← Bool.not_eq_true, isPrefixOf_iff_prefix,
    List.isEmpty_iff] at hall
  rcases hall with hnil | hnot
  · exact ha hnil
  · exact hnot (hp ▸ prefix_append a b)

theorem IsTag.not_infix_element {c : α} {o : List α} (h : IsTag p) (hc : p.head? = some c)
    (ho : ¬ p <:+: o) (htails : o.tails.all (fun a => a.isEmpty || !a.isPrefixOf p))
    (hx : ¬ p <:+: x) (hy : ¬ p <:+: c :: y) : ¬ p <:+: o ++ (x ++ c :: y) :=
  not_infix_append ho (not_infix_append hx hy (h.not_straddles hc)) (not_straddles_of_tails htails)

theorem IsTag.not_infix_of_lt (h : IsTag p) (hx : ¬ p <:+: x) (hu : u <+: x ++ p)
    (hlt : u.length < (x ++ p).length) : ¬ p <:+: u := by
  intro hin
  obtain ⟨z, hz⟩ := hu
  obtain ⟨⟨a, b⟩, hcut⟩ := Option.isSome_iff_exists.1 (splitFirst_isSome.2 hin)
  have hlong := splitFirst_append (u := z) hcut
  rw [hz] at hlong
  have hfirst := h.splitFirst (y := []) hx
  rw [append_nil, hlong, Option.some.injEq, Prod.mk.injEq, append_eq_nil_iff] at hfirst
  have hlen := congrArg List.length hz
  rw [hfirst.2.2, length_append, length_nil] at hlen
  omega

/-- Delete the occurrences of `p` from left to right. `skip` symbols of an occurrence are
still to be passed over. -/
def deleteFrom (p : List α) : Nat → List α → List α
  | _, [] => []
  | skip + 1, _ :: t => deleteFrom p skip t
  | 0, c :: t => if p <+: c :: t then deleteFrom p (p.length - 1) t else c :: deleteFrom p 0 t

/-- Delete all occurrences of `p`, which is not empty. -/
def delete (p t : List α) : List α := deleteFrom p 0 t

@[simp] theorem delete_of_absent (h : ¬ p <:+: t) : delete p t = t := by
  unfold delete
  induction t with
  | nil => rfl
  | cons c t ih =>
      rw [infix_cons_iff, not_or] at h
      rw [deleteFrom, if_neg h.1, ih h.2]

theorem deleteFrom_append : deleteFrom p u.length (u ++ v) = delete p v := by
  induction u with
  | nil =>
      rfl
  | cons c u ih => exact ih

/-- The number of occurrences that `deleteFrom` deletes. -/
def deletionsFrom (p : List α) : Nat → List α → Nat
  | _, [] => 0
  | skip + 1, _ :: t => deletionsFrom p skip t
  | 0, c :: t =>
      if p <+: c :: t then deletionsFrom p (p.length - 1) t + 1 else deletionsFrom p 0 t

def deletions (p t : List α) : Nat := deletionsFrom p 0 t

@[simp] theorem deletions_of_not_infix (h : ¬ p <:+: t) : deletions p t = 0 := by
  unfold deletions
  induction t with
  | nil => rfl
  | cons c t ih =>
      rw [infix_cons_iff, not_or] at h
      rw [deletionsFrom, if_neg h.1, ih h.2]

theorem deletionsFrom_append : deletionsFrom p u.length (u ++ v) = deletions p v := by
  induction u with
  | nil =>
      rfl
  | cons c u ih => exact ih

@[simp] theorem deletions_append (hp : p ≠ []) : deletions p (p ++ t) = deletions p t + 1 := by
  cases p with
  | nil => exact absurd rfl hp
  | cons c p =>
      have hpre : c :: p <+: c :: (p ++ t) := prefix_append (c :: p) t
      rw [deletions, cons_append, deletionsFrom, if_pos hpre, length_cons,
        Nat.add_sub_cancel, deletionsFrom_append]

@[simp] theorem delete_append (hp : p ≠ []) : delete p (p ++ t) = delete p t := by
  cases p with
  | nil => exact absurd rfl hp
  | cons c p =>
      have hpre : c :: p <+: c :: (p ++ t) := prefix_append (c :: p) t
      rw [delete, cons_append, deleteFrom, if_pos hpre, length_cons,
        Nat.add_sub_cancel, deleteFrom_append]

section Blanks

omit [DecidableEq α]

variable (blank : α → Bool)

/-- Remove blanks from both ends. -/
def trim (t : List α) : List α := (t.dropWhile blank).rdropWhile blank

/-- The number of symbols that are not blank. -/
def solid (t : List α) : Nat := t.countP fun c => !blank c

def EndsBlank (t : List α) : Prop := ∃ c ∈ t.getLast?, blank c = true

variable {blank}

@[simp] theorem solid_append : solid blank (u ++ v) = solid blank u + solid blank v :=
  countP_append

theorem solid_eq_zero : solid blank t = 0 ↔ ∀ c ∈ t, blank c = true := by
  simp [solid]

theorem solid_pos_of_mem {c : α} (h : c ∈ t) (hc : blank c = false) : 0 < solid blank t :=
  List.countP_pos_iff.2 ⟨c, h, by simp [hc]⟩

theorem dropWhile_eq_nil_iff_solid : t.dropWhile blank = [] ↔ solid blank t = 0 := by
  rw [dropWhile_eq_nil_iff, solid_eq_zero]

@[simp] theorem solid_dropWhile : solid blank (t.dropWhile blank) = solid blank t := by
  have hsplit := congrArg (solid blank) (takeWhile_append_dropWhile (p := blank) (l := t))
  have hblank : solid blank (t.takeWhile blank) = 0 :=
    solid_eq_zero.2 fun c hc => mem_takeWhile_imp hc
  rw [solid_append] at hsplit
  omega

@[simp] theorem solid_reverse : solid blank t.reverse = solid blank t := by
  rw [solid, countP_reverse, solid]

@[simp] theorem solid_rdropWhile : solid blank (t.rdropWhile blank) = solid blank t := by
  rw [List.rdropWhile, solid_reverse, solid_dropWhile, solid_reverse]

@[simp] theorem solid_trim : solid blank (trim blank t) = solid blank t := by
  rw [trim, solid_rdropWhile, solid_dropWhile]

theorem solid_eq_of_trim_eq (h : trim blank u = trim blank v) : solid blank u = solid blank v := by
  rw [← solid_trim, h, solid_trim]

theorem exists_trim (blank : α → Bool) (t : List α) : ∃ l r, t = l ++ trim blank t ++ r ∧
    solid blank l = 0 ∧ solid blank r = 0 := by
  have hright : ∀ t : List α, ∃ r, t = t.rdropWhile blank ++ r ∧ solid blank r = 0 := by
    intro t
    refine ⟨(t.reverse.takeWhile blank).reverse, ?_, ?_⟩
    · rw [List.rdropWhile, ← reverse_append, takeWhile_append_dropWhile,
        reverse_reverse]
    · exact solid_eq_zero.2 fun c hc => mem_takeWhile_imp (List.mem_reverse.1 hc)
  obtain ⟨r, hr, hblank⟩ := hright (t.dropWhile blank)
  refine ⟨t.takeWhile blank, r, ?_, ?_, hblank⟩
  · rw [trim, append_assoc, ← hr, takeWhile_append_dropWhile]
  · exact solid_eq_zero.2 fun c hc => mem_takeWhile_imp hc

theorem dropWhile_blank_append (h : solid blank u = 0) :
    (u ++ v).dropWhile blank = v.dropWhile blank := by
  rw [dropWhile_append, if_pos (by simp [dropWhile_eq_nil_iff_solid.2 h])]

theorem dropWhile_solid_append (h : solid blank u ≠ 0) :
    (u ++ v).dropWhile blank = u.dropWhile blank ++ v := by
  have hne : ¬ (u.dropWhile blank).isEmpty = true := by
    rw [List.isEmpty_iff, dropWhile_eq_nil_iff_solid]
    exact h
  rw [dropWhile_append, if_neg hne]

theorem rdropWhile_append_blank (h : solid blank v = 0) :
    (u ++ v).rdropWhile blank = u.rdropWhile blank := by
  rw [List.rdropWhile, reverse_append, dropWhile_blank_append (by rwa [solid_reverse]),
    List.rdropWhile]

theorem rdropWhile_append_solid (h : solid blank v ≠ 0) :
    (u ++ v).rdropWhile blank = u ++ v.rdropWhile blank := by
  rw [List.rdropWhile, reverse_append, dropWhile_solid_append (by rwa [solid_reverse]),
    reverse_append, reverse_reverse, List.rdropWhile]

theorem trim_blank_append (h : solid blank u = 0) : trim blank (u ++ v) = trim blank v := by
  rw [trim, dropWhile_blank_append h, trim]

theorem trim_append_blank (h : solid blank v = 0) : trim blank (u ++ v) = trim blank u := by
  by_cases hu : solid blank u = 0
  · rw [trim_blank_append hu, trim, trim, dropWhile_eq_nil_iff_solid.2 h,
      dropWhile_eq_nil_iff_solid.2 hu]
  · rw [trim, dropWhile_solid_append hu, rdropWhile_append_blank h, trim]

theorem trim_append_solid (hu : solid blank u ≠ 0) (hv : solid blank v ≠ 0) :
    trim blank (u ++ v) = u.dropWhile blank ++ v.rdropWhile blank := by
  rw [trim, dropWhile_solid_append hu, rdropWhile_append_solid hv]

@[simp] theorem trim_eq_nil (h : solid blank t = 0) : trim blank t = [] := by
  rw [trim, dropWhile_eq_nil_iff_solid.2 h]
  rfl

@[simp] theorem dropWhile_trim : (trim blank t).dropWhile blank = trim blank t := by
  obtain ⟨r, hr, -⟩ : ∃ r, t.dropWhile blank = trim blank t ++ r ∧ True :=
    ⟨((t.dropWhile blank).reverse.takeWhile blank).reverse, by
      rw [trim, List.rdropWhile, ← reverse_append, takeWhile_append_dropWhile,
        reverse_reverse], trivial⟩
  cases htrim : trim blank t with
  | nil => rfl
  | cons c rest =>
      have hhead : t.dropWhile blank = c :: (rest ++ r) := by rw [hr, htrim, cons_append]
      have hc : blank c = false := by
        have := head?_dropWhile_not blank t
        rw [hhead] at this
        simpa using this
      rw [dropWhile_cons, if_neg (by simp [hc])]

@[simp] theorem trim_trim : trim blank (trim blank t) = trim blank t := by
  conv_lhs => rw [trim]
  rw [dropWhile_trim, trim, rdropWhile_idempotent]

theorem rdropWhile_eq_self_iff : t.rdropWhile blank = t ↔ ¬ EndsBlank blank t := by
  rw [List.rdropWhile_eq_self_iff]
  constructor
  · rintro h ⟨c, hc, hblank⟩
    obtain ⟨hne, hlast⟩ := mem_getLast?_eq_getLast hc
    exact h hne (hlast ▸ hblank)
  · intro h hne hblank
    exact h ⟨t.getLast hne, getLast?_eq_some_getLast hne, hblank⟩

theorem trim_trim_append_iff : trim blank (trim blank u ++ v) = trim blank (u ++ v) ↔
    ¬ (0 < solid blank u ∧ EndsBlank blank u ∧ 0 < solid blank v) := by
  by_cases hu : solid blank u = 0
  · rw [trim_eq_nil hu, trim_blank_append hu]
    simp [hu]
  by_cases hv : solid blank v = 0
  · rw [trim_append_blank hv, trim_append_blank hv]
    simp [hv]
  have hpos : 0 < solid blank u ∧ 0 < solid blank v := by omega
  rw [trim_append_solid (by rwa [solid_trim]) hv, trim_append_solid hu hv, dropWhile_trim,
    append_left_inj, trim, rdropWhile_eq_self_iff]
  have hends : EndsBlank blank (u.dropWhile blank) ↔ EndsBlank blank u := by
    have hne : u.dropWhile blank ≠ [] := fun h => hu (dropWhile_eq_nil_iff_solid.1 h)
    have hlast : u.getLast? = (u.dropWhile blank).getLast? := by
      conv_lhs => rw [← takeWhile_append_dropWhile (p := blank) (l := u)]
      rw [getLast?_append_of_ne_nil _ hne]
    rw [EndsBlank, EndsBlank, hlast]
  rw [hends]
  simp [hpos]

theorem mem_trim {c : α} (h : c ∈ t) (hc : blank c = false) : c ∈ trim blank t := by
  obtain ⟨l, r, ht, hl, hr⟩ := exists_trim blank t
  rw [ht, mem_append, mem_append] at h
  rcases h with (h | h) | h
  · exact absurd (solid_pos_of_mem h hc) (by omega)
  · exact h
  · exact absurd (solid_pos_of_mem h hc) (by omega)

theorem trim_subset : trim blank t ⊆ t := by
  obtain ⟨l, r, ht, -, -⟩ := exists_trim blank t
  intro c hc
  rw [ht]
  exact mem_append_left _ (mem_append_right _ hc)

end Blanks

/-- The part before the first occurrence of `p` and the part after it. Without an
occurrence the second part is empty. -/
def parts (p t : List α) : List α × List α := (splitFirst p t).getD (t, [])

@[simp] theorem parts_of_absent (h : ¬ p <:+: t) : parts p t = (t, []) := by
  rw [parts, splitFirst_eq_none.2 h]
  rfl

theorem parts_of_split (h : splitFirst p t = some (x, y)) : parts p t = (x, y) := by
  rw [parts, h]
  rfl

theorem parts_append (hu : ¬ p <:+: u) (hcut : ¬ Straddles p u v) :
    parts p (u ++ v) = (u ++ (parts p v).1, (parts p v).2) := by
  rw [parts, parts, splitFirst_append_of_not hu hcut]
  cases splitFirst p v with
  | none => rfl
  | some cut => rfl

omit [DecidableEq α] in
theorem not_straddles_of_blank {blank : α → Bool} (hp : ∀ c ∈ p, blank c = false)
    (h : solid blank u = 0 ∨ solid blank v = 0) : ¬ Straddles p u v := by
  rintro ⟨a, b, ha, hb, rfl, hu, hv⟩
  rcases h with hblank | hblank
  · obtain ⟨c, hc⟩ := exists_mem_of_ne_nil a ha
    have hsolid := hp c (mem_append_left _ hc)
    rw [solid_eq_zero.1 hblank c (hu.subset hc)] at hsolid
    cases hsolid
  · obtain ⟨c, hc⟩ := exists_mem_of_ne_nil b hb
    have hsolid := hp c (mem_append_right _ hc)
    rw [solid_eq_zero.1 hblank c (hv.subset hc)] at hsolid
    cases hsolid

omit [DecidableEq α] in
theorem not_infix_of_blank {blank : α → Bool} (hne : p ≠ []) (hp : ∀ c ∈ p, blank c = false)
    (h : solid blank t = 0) : ¬ p <:+: t := by
  intro hinf
  obtain ⟨c, hc⟩ := exists_mem_of_ne_nil p hne
  have hsolid := hp c hc
  rw [solid_eq_zero.1 h c (hinf.subset hc)] at hsolid
  cases hsolid

theorem trim_parts_trim {blank : α → Bool} (hne : p ≠ []) (hp : ∀ c ∈ p, blank c = false) :
    trim blank (parts p (trim blank t)).1 = trim blank (parts p t).1 ∧
      trim blank (parts p (trim blank t)).2 = trim blank (parts p t).2 := by
  obtain ⟨l, r, ht, hl, hr⟩ := exists_trim blank t
  have hleft : parts p t = (l ++ (parts p (trim blank t ++ r)).1,
      (parts p (trim blank t ++ r)).2) := by
    conv_lhs => rw [ht, append_assoc]
    exact parts_append (not_infix_of_blank hne hp hl) (not_straddles_of_blank hp (.inl hl))
  rw [hleft, trim_blank_append hl]
  by_cases hocc : p <:+: trim blank t
  · obtain ⟨⟨x, y⟩, hcut⟩ := Option.isSome_iff_exists.1 (splitFirst_isSome.2 hocc)
    rw [parts_of_split hcut, parts_of_split (splitFirst_append hcut)]
    exact ⟨rfl, (trim_append_blank hr).symm⟩
  · rw [parts_append hocc (not_straddles_of_blank hp (.inr hr)),
      parts_of_absent (not_infix_of_blank hne hp hr), parts_of_absent hocc]
    exact ⟨(trim_append_blank hr).symm, rfl⟩

end Text
