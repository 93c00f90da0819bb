import Mathlib.Data.List.Perm.Basic
import Mathlib.Logic.Function.Basic

/-!
# Lists of memory copies

A copy `(s, d)` stores the content of cell `s` in cell `d`. Two copies commute unless one
writes what the other reads or both write one cell from different sources. A list of copies
may be rearranged as long as copies that do not commute keep their order.
-/

namespace Copies

variable {α β : Type*}

/-- Neither copy sees the other. A copy of a cell to itself is never in the way of a reader. -/
structure Commute (c c' : α × α) : Prop where
  left : c.2 = c'.1 → c.2 = c.1
  right : c'.2 = c.1 → c'.2 = c'.1
  same : c.2 = c'.2 → c.1 = c'.1

variable [DecidableEq α]

def copy (mem : α → β) (c : α × α) : α → β := Function.update mem c.2 (mem c.1)

/-- The copies of a list, one after the other. -/
def exec (cs : List (α × α)) (mem : α → β) : α → β := cs.foldl copy mem

instance (c c' : α × α) : Decidable (Commute c c') :=
  decidable_of_iff ((c.2 = c'.1 → c.2 = c.1) ∧ (c'.2 = c.1 → c'.2 = c'.1) ∧
      (c.2 = c'.2 → c.1 = c'.1))
    ⟨fun h => ⟨h.1, h.2.1, h.2.2⟩, fun h => ⟨h.left, h.right, h.same⟩⟩

@[simp] theorem exec_nil (mem : α → β) : exec [] mem = mem := rfl

@[simp] theorem exec_cons (c : α × α) (cs : List (α × α)) (mem : α → β) :
    exec (c :: cs) mem = exec cs (copy mem c) := rfl

theorem copy_self (mem : α → β) {c : α × α} (h : c.2 = c.1) : copy mem c = mem := by
  rw [copy, h, Function.update_eq_self]

@[simp] theorem copy_apply (mem : α → β) (c : α × α) (a : α) :
    copy mem c a = if a = c.2 then mem c.1 else mem a := by
  rw [copy, Function.update_apply]

theorem Commute.copy_comm {c c' : α × α} (h : Commute c c') (mem : α → β) :
    copy (copy mem c) c' = copy (copy mem c') c := by
  by_cases hself : c.2 = c.1
  · rw [copy_self mem hself, copy_self _ hself]
  by_cases hself' : c'.2 = c'.1
  · rw [copy_self _ hself', copy_self mem hself']
  have hread : c'.1 ≠ c.2 := fun heq => hself (h.left heq.symm)
  have hread' : c.1 ≠ c'.2 := fun heq => hself' (h.right heq.symm)
  funext a
  simp only [copy_apply, if_neg hread, if_neg hread']
  by_cases ha : a = c.2
  · by_cases ha' : a = c'.2
    · rw [if_pos ha', if_pos ha, h.same (ha.symm.trans ha')]
    · rw [if_neg ha', if_pos ha, if_pos ha]
  · rw [if_neg ha, if_neg ha]

theorem exec_move {c : α × α} {cs : List (α × α)} (h : ∀ b ∈ cs, Commute b c)
    (rest : List (α × α)) (mem : α → β) :
    exec (cs ++ c :: rest) mem = exec (c :: (cs ++ rest)) mem := by
  induction cs generalizing mem with
  | nil => rfl
  | cons b cs ih =>
      have hrest : ∀ b ∈ cs, Commute b c := fun b hb => h b (List.mem_cons_of_mem _ hb)
      have hmoved := ih hrest (copy mem b)
      rw [List.cons_append, exec_cons, hmoved, exec_cons,
        (h b List.mem_cons_self).copy_comm mem, exec_cons, List.cons_append, exec_cons]

/-- A list of copies may be brought into the order of a relation when any two of its copies
commute or are in that order already. -/
theorem exec_perm {R : α × α → α × α → Prop} {cs cs' : List (α × α)} (hperm : cs'.Perm cs)
    (hordered : cs'.Pairwise R) (hkept : cs.Pairwise fun a b => Commute a b ∨ ¬R b a)
    (mem : α → β) : exec cs' mem = exec cs mem := by
  induction cs' generalizing cs mem with
  | nil => rw [hperm.nil_eq]
  | cons c cs' ih =>
      obtain ⟨hfirst, hordered⟩ := List.pairwise_cons.mp hordered
      obtain ⟨front, back, rfl⟩ := List.append_of_mem (hperm.subset List.mem_cons_self)
      have hrest : cs'.Perm (front ++ back) :=
        List.Perm.cons_inv (hperm.trans List.perm_middle)
      -- What is recorded in front of the first copy of the order commutes with it.
      have hfront : ∀ b ∈ front, Commute b c := by
        intro b hb
        have hmem : b ∈ cs' := hrest.symm.subset (List.mem_append_left _ hb)
        have hpair := (List.pairwise_append.mp hkept).2.2 b hb c List.mem_cons_self
        exact hpair.resolve_right fun hlate => hlate (hfirst b hmem)
      have hsub : (front ++ back).Sublist (front ++ c :: back) :=
        (List.sublist_cons_self c back).append_left front
      rw [exec_move hfront]
      exact ih hrest hordered (hkept.sublist hsub) _

theorem exec_perm_of_commute {cs cs' : List (α × α)} (hperm : cs'.Perm cs)
    (h : cs.Pairwise Commute) (mem : α → β) : exec cs' mem = exec cs mem :=
  exec_perm (R := fun _ _ => True) hperm (List.pairwise_of_forall fun _ _ => trivial)
    (h.imp fun hc => .inl hc) mem

end Copies
