import Mathlib.Data.List.Chain
import Mathlib.Data.List.Nodup
import Mathlib.Logic.Function.Basic

/-!
# Doubly linked lists in memory

A cell holds the addresses of its neighbours and a value. A list lies between two
sentinel cells, and its operations find cells through pointers only: nothing but
the memory knows which list a cell is in. A null pointer, or an address where no
cell is allocated, cannot be followed, and the operation then has no result.

`Linked m front back l` says that the cells from one sentinel to the other are
those of `l`, linked in both directions and each of them once. An operation writes
pointers of the cells of its own list (`Relinked`), so every other list stays as it
was.
-/

namespace IntrusiveList

open List Function Option

universe u

/-- A cell of a list. A null pointer is `none`. -/
structure Cell (α β : Type u) where
  prev : Option α := none
  next : Option α := none
  value : β

/-- The allocated cells by address. -/
structure Memory (α β : Type u) where
  cell : α → Option (Cell α β)

namespace Memory

variable {α β : Type u}

def next (m : Memory α β) (a : α) : Option α := (m.cell a).bind Cell.next

def prev (m : Memory α β) (a : α) : Option α := (m.cell a).bind Cell.prev

def value (m : Memory α β) (a : α) : Option β := (m.cell a).map Cell.value

def empty : Memory α β := ⟨fun _ => none⟩

variable [DecidableEq α]

def setNext (m : Memory α β) (a b : α) : Option (Memory α β) :=
  (m.cell a).map fun cell => ⟨update m.cell a (some { cell with next := some b })⟩

def setPrev (m : Memory α β) (a b : α) : Option (Memory α β) :=
  (m.cell a).map fun cell => ⟨update m.cell a (some { cell with prev := some b })⟩

def alloc (m : Memory α β) (a : α) (value : β) : Memory α β :=
  ⟨update m.cell a (some { value := value })⟩

def free (m : Memory α β) (a : α) : Memory α β := ⟨update m.cell a none⟩

/-- Allocate the sentinels of an empty list. -/
def init (m : Memory α β) (front back : α) (value : β) : Memory α β :=
  ⟨update (update m.cell front (some { next := some back, value := value }))
    back (some { prev := some front, value := value })⟩

/-- Whether the list has no cell. -/
def isEmpty (m : Memory α β) (front back : α) : Option Bool :=
  (m.next front).map (· = back)

/-- Take a cell out of the list it is in. Returns the cell after it. -/
def removeNode (m : Memory α β) (node : α) : Option (α × Memory α β) := do
  let nextNode ← m.next node
  let m ← m.setNext (← m.prev node) nextNode
  let m ← m.setPrev nextNode (← m.prev node)
  some (nextNode, m)

def pushFront (m : Memory α β) (front node : α) : Option (Memory α β) := do
  let m ← m.setNext node (← m.next front)
  let m ← m.setPrev (← m.next front) node
  let m ← m.setPrev node front
  m.setNext front node

/-- Take the first cell out. Returns null when there is none. -/
def popFront (m : Memory α β) (front back : α) : Option (Option α × Memory α β) := do
  let node ← m.next front
  if node = back then some (none, m)
  else do
    let m ← m.setNext front (← m.next node)
    let m ← m.setPrev (← m.next node) front
    some (some node, m)

def pushBack (m : Memory α β) (back node : α) : Option (Memory α β) := do
  let m ← m.setPrev node (← m.prev back)
  let m ← m.setNext node back
  let m ← m.setNext (← m.prev back) node
  m.setPrev back node

section Writes

omit [DecidableEq α]

variable {m m' m'' : Memory α β} {a b : α} {S T : List α}

theorem isSome_value_of_next (h : m.next a = some b) : (m.value a).isSome := by
  cases hcell : m.cell a with
  | none => simp [next, hcell] at h
  | some cell => simp [value, hcell]

theorem isSome_value_of_prev (h : m.prev a = some b) : (m.value a).isSome := by
  cases hcell : m.cell a with
  | none => simp [prev, hcell] at h
  | some cell => simp [value, hcell]

theorem next_congr (h : m'.cell a = m.cell a) : m'.next a = m.next a := by
  rw [next, next, h]

theorem prev_congr (h : m'.cell a = m.cell a) : m'.prev a = m.prev a := by
  rw [prev, prev, h]

theorem value_congr (h : m'.cell a = m.cell a) : m'.value a = m.value a := by
  rw [value, value, h]

/-- Only pointers were written, and only in the cells of `S`. -/
structure Relinked (m m' : Memory α β) (S : List α) : Prop where
  cell : ∀ a ∉ S, m'.cell a = m.cell a
  value : m'.value = m.value

theorem Relinked.trans (h : Relinked m m' S) (h' : Relinked m' m'' T) :
    Relinked m m'' (S ++ T) := by
  constructor
  · intro a ha
    rw [mem_append, not_or] at ha
    rw [h'.cell a ha.2, h.cell a ha.1]
  · rw [h'.value, h.value]

theorem Relinked.mono (h : Relinked m m' S) (hsub : S ⊆ T) : Relinked m m' T :=
  ⟨fun a ha => h.cell a fun hS => ha (hsub hS), h.value⟩

end Writes

section Pointers

variable {m : Memory α β} {a : α}

theorem exists_setNext (h : (m.value a).isSome) (b : α) :
    ∃ m', m.setNext a b = some m' ∧ m'.next = update m.next a (some b) ∧
      m'.prev = m.prev ∧ Relinked m m' [a] := by
  cases hcell : m.cell a with
  | none => simp [value, hcell] at h
  | some cell =>
      refine ⟨_, by rw [setNext, hcell, map_some], ?_, ?_, ?_, ?_⟩
      · funext x
        by_cases hx : x = a
        · simp [hx, next]
        · simp [hx, next]
      · funext x
        by_cases hx : x = a
        · simp [hx, prev, hcell]
        · simp [hx, prev]
      · intro x hx
        simp [List.mem_singleton.not.mp hx]
      · funext x
        by_cases hx : x = a
        · simp [hx, value, hcell]
        · simp [hx, value]

theorem exists_setPrev (h : (m.value a).isSome) (b : α) :
    ∃ m', m.setPrev a b = some m' ∧ m'.next = m.next ∧
      m'.prev = update m.prev a (some b) ∧ Relinked m m' [a] := by
  cases hcell : m.cell a with
  | none => simp [value, hcell] at h
  | some cell =>
      refine ⟨_, by rw [setPrev, hcell, map_some], ?_, ?_, ?_, ?_⟩
      · funext x
        by_cases hx : x = a
        · simp [hx, next, hcell]
        · simp [hx, next]
      · funext x
        by_cases hx : x = a
        · simp [hx, prev]
        · simp [hx, prev]
      · intro x hx
        simp [List.mem_singleton.not.mp hx]
      · funext x
        by_cases hx : x = a
        · simp [hx, value, hcell]
        · simp [hx, value]

end Pointers

end Memory

section Chains

variable {α : Type u} {next next' prev prev' : α → Option α} {a b : α} {l P Q : List α}

def Joined (next prev : α → Option α) (a b : α) : Prop := next a = some b ∧ prev b = some a

/-- A chain depends on the `next` of all its cells but the last, and on the `prev` of
all but the first. -/
theorem chain_congr (hnext : ∀ a ∈ l.dropLast, next' a = next a)
    (hprev : ∀ a ∈ l.tail, prev' a = prev a) (h : l.IsChain (Joined next prev)) :
    l.IsChain (Joined next' prev') := by
  induction h with
  | nil => exact .nil
  | singleton a => exact .singleton a
  | @cons_cons a b l hab _ ih =>
      rw [dropLast_cons_cons, forall_mem_cons] at hnext
      rw [tail_cons, forall_mem_cons] at hprev
      refine .cons_cons ⟨?_, ?_⟩ (ih hnext.2 hprev.2)
      · rw [hnext.1, hab.1]
      · rw [hprev.1, hab.2]

theorem chain_join [DecidableEq α] (hP : (P ++ [a]).IsChain (Joined next prev))
    (hQ : (b :: Q).IsChain (Joined next prev)) (hnodup : (P ++ a :: b :: Q).Nodup) :
    (P ++ a :: b :: Q).IsChain
      (Joined (update next a (some b)) (update prev b (some a))) := by
  have hnd := List.nodup_append.mp hnodup
  obtain ⟨haQ, hbQ⟩ := List.nodup_cons.mp hnd.2.1
  have hPa : a ∉ P := fun h => hnd.2.2 a h a mem_cons_self rfl
  have hb : b ∉ Q := (List.nodup_cons.mp hbQ).1
  have hPb : b ∉ P ++ [a] := by
    intro h
    rcases List.mem_append.mp h with h | h
    · exact hnd.2.2 b h b (mem_cons_of_mem _ mem_cons_self) rfl
    · exact haQ (List.mem_singleton.mp h ▸ mem_cons_self)
  rw [isChain_append_cons_cons]
  refine ⟨chain_congr (fun x hx => ?_) (fun x hx => ?_) hP,
    ⟨update_self .., update_self ..⟩,
    chain_congr (fun x hx => ?_) (fun x hx => ?_) hQ⟩
  · rw [dropLast_concat] at hx
    exact update_of_ne (ne_of_mem_of_not_mem hx hPa) _ _
  · exact update_of_ne (ne_of_mem_of_not_mem (mem_of_mem_tail hx) hPb) _ _
  · have hxQ : x ∈ b :: Q := (dropLast_sublist _).subset hx
    exact update_of_ne (ne_of_mem_of_not_mem hxQ haQ) _ _
  · exact update_of_ne (ne_of_mem_of_not_mem hx hb) _ _

end Chains

section Lists

open Memory

variable {α β : Type u} {m m' : Memory α β} {front back node a : α} {l xs ys : List α}

/-- The cells of a list with its sentinels. -/
def spine (front back : α) (l : List α) : List α := front :: (l ++ [back])

theorem mem_spine : a ∈ spine front back l ↔ a = front ∨ a ∈ l ∨ a = back := by
  simp [spine]

/-- The cells between the sentinels are those of `l`. -/
structure Linked (m : Memory α β) (front back : α) (l : List α) : Prop where
  nodup : (spine front back l).Nodup
  chain : (spine front back l).IsChain (Joined m.next m.prev)

theorem Linked.frame (h : Linked m front back l)
    (same : ∀ a ∈ spine front back l, m'.cell a = m.cell a) : Linked m' front back l where
  nodup := h.nodup
  chain := chain_congr (fun _ ha => next_congr (same _ ((dropLast_sublist _).subset ha)))
    (fun _ ha => prev_congr (same _ (mem_of_mem_tail ha))) h.chain

theorem isSome_value_of_chain {rest : List α} (h : (a :: rest).IsChain (Joined m.next m.prev)) :
    ∀ x ∈ rest, (m.value x).isSome := by
  induction rest generalizing a with
  | nil => simp
  | cons b rest ih =>
      rw [isChain_cons_cons] at h
      intro x hx
      rcases List.mem_cons.mp hx with rfl | hx
      · exact isSome_value_of_prev h.1.2
      · exact ih h.2 x hx

theorem Linked.isSome_value (h : Linked m front back l) (ha : a ∈ spine front back l) :
    (m.value a).isSome := by
  rcases List.mem_cons.mp ha with rfl | ha
  · cases l with
    | nil => exact isSome_value_of_next (List.isChain_cons_cons.mp h.chain).1.1
    | cons b l => exact isSome_value_of_next (List.isChain_cons_cons.mp h.chain).1.1
  · exact isSome_value_of_chain h.chain a ha

theorem Linked.nodup_nodes (h : Linked m front back l) : l.Nodup :=
  (List.nodup_append.mp (List.nodup_cons.mp h.nodup).2).1

theorem Linked.front_notMem (h : Linked m front back l) : front ∉ l := fun hmem =>
  (List.nodup_cons.mp h.nodup).1 (mem_append_left _ hmem)

theorem Linked.back_notMem (h : Linked m front back l) : back ∉ l := fun hmem =>
  (List.nodup_append.mp (List.nodup_cons.mp h.nodup).2).2.2 back hmem back
    (List.mem_singleton.mpr rfl) rfl

theorem append_back (ys : List α) (back : α) :
    ∃ Q, ys ++ [back] = ys.headD back :: Q := by
  cases ys with
  | nil => exact ⟨[], rfl⟩
  | cons y ys => exact ⟨ys ++ [back], rfl⟩

theorem Linked.next_front (h : Linked m front back l) : m.next front = some (l.headD back) := by
  obtain ⟨Q, hQ⟩ := append_back l back
  have hchain := h.chain
  rw [spine, hQ, isChain_cons_cons] at hchain
  exact hchain.1.1

theorem Linked.next_node (h : Linked m front back (xs ++ node :: ys)) :
    m.next node = some (ys.headD back) := by
  obtain ⟨Q, hQ⟩ := append_back ys back
  have hchain := h.chain
  rw [spine, append_assoc, cons_append, hQ, ← cons_append,
    isChain_append_cons_cons] at hchain
  exact hchain.2.1.1

theorem Linked.unique {l' : List α} (h : Linked m front back l) (h' : Linked m front back l') :
    l = l' := by
  induction l generalizing front l' with
  | nil =>
      have hnext := h'.next_front
      rw [h.next_front, some_inj] at hnext
      cases l' with
      | nil => rfl
      | cons b l' =>
          obtain rfl : back = b := hnext
          exact absurd mem_cons_self h'.back_notMem
  | cons a l ih =>
      have hnext := h'.next_front
      rw [h.next_front, some_inj] at hnext
      cases l' with
      | nil =>
          obtain rfl : a = back := hnext
          exact absurd mem_cons_self h.back_notMem
      | cons b l' =>
          obtain rfl : a = b := hnext
          have htail : Linked m a back l := ⟨(List.nodup_cons.mp h.nodup).2, h.chain.tail⟩
          have htail' : Linked m a back l' := ⟨(List.nodup_cons.mp h'.nodup).2, h'.chain.tail⟩
          rw [ih htail htail']

variable [DecidableEq α]

theorem Linked.isEmpty (h : Linked m front back l) : m.isEmpty front back = some l.isEmpty := by
  rw [Memory.isEmpty, h.next_front]
  cases l with
  | nil => simp
  | cons a l =>
      have hne : a ≠ back := fun he => h.back_notMem (he ▸ mem_cons_self)
      simp [hne]

theorem linked_init {value : β} (hne : front ≠ back) :
    Linked (m.init front back value) front back [] where
  nodup := by simpa [spine] using hne
  chain := by
    refine .cons_cons ⟨?_, ?_⟩ (.singleton back)
    · simp [Memory.next, init, hne]
    · simp [Memory.prev, init]

theorem Linked.removeNode (h : Linked m front back (xs ++ node :: ys)) :
    ∃ m', m.removeNode node = some (ys.headD back, m') ∧ Linked m' front back (xs ++ ys) ∧
      Relinked m m' (spine front back (xs ++ node :: ys)) := by
  obtain ⟨P, a, hP⟩ : ∃ P a, front :: xs = P ++ [a] :=
    ⟨_, _, (dropLast_append_getLast (cons_ne_nil _ _)).symm⟩
  obtain ⟨Q, hQ⟩ := append_back ys back
  have hspine : spine front back (xs ++ node :: ys) = P ++ a :: node :: ys.headD back :: Q := by
    rw [spine, append_assoc, cons_append, hQ, ← cons_append, hP]
    simp
  have hspine' : spine front back (xs ++ ys) = P ++ a :: ys.headD back :: Q := by
    rw [spine, append_assoc, hQ, ← cons_append, hP]
    simp
  have hchain := h.chain
  rw [hspine, isChain_append_cons_cons, isChain_cons_cons] at hchain
  obtain ⟨hleft, hin, hout, hright⟩ := hchain
  obtain ⟨m₁, h₁, next₁, prev₁, r₁⟩ :=
    exists_setNext (isSome_value_of_next hin.1) (ys.headD back)
  have hvalue : (m₁.value (ys.headD back)).isSome := by
    rw [r₁.value]
    exact isSome_value_of_prev hout.2
  obtain ⟨m₂, h₂, next₂, prev₂, r₂⟩ := exists_setPrev hvalue a
  refine ⟨m₂, ?_, ⟨?_, ?_⟩, (r₁.trans r₂).mono ?_⟩
  · simp only [Memory.removeNode, hout.1, hin.2, h₁, prev₁, h₂, bind_eq_bind, bind_some]
  · have hnodup := h.nodup
    rw [hspine] at hnodup
    rw [hspine']
    exact hnodup.sublist (List.Sublist.append_left (.cons_cons a (sublist_cons_self _ _)) P)
  · have hnodup := h.nodup
    rw [hspine] at hnodup
    rw [hspine']
    rw [next₂, prev₂, next₁, prev₁]
    refine chain_join hleft hright ?_
    exact hnodup.sublist (List.Sublist.append_left (.cons_cons a (sublist_cons_self _ _)) P)
  · rw [hspine]
    simp

theorem Linked.pushFront (h : Linked m front back l) (hvalue : (m.value node).isSome)
    (hfresh : node ∉ spine front back l) :
    ∃ m', m.pushFront front node = some m' ∧ Linked m' front back (node :: l) ∧
      Relinked m m' (node :: spine front back l) := by
  obtain ⟨Q, hQ⟩ := append_back l back
  have hspine : spine front back l = front :: l.headD back :: Q := by rw [spine, hQ]
  have hnodup : (spine front back (node :: l)).Nodup :=
    (List.Perm.swap front node (l ++ [back])).nodup (List.nodup_cons.mpr ⟨hfresh, h.nodup⟩)
  have hspine' : spine front back (node :: l) = front :: node :: l.headD back :: Q := by
    rw [spine, cons_append, hQ]
  have hchain := h.chain
  rw [hspine, isChain_cons_cons] at hchain
  obtain ⟨hfirst, hrest⟩ := hchain
  have hfront : node ≠ front := fun he => hfresh (mem_spine.mpr (.inl he))
  obtain ⟨m₁, h₁, next₁, prev₁, r₁⟩ := exists_setNext hvalue (l.headD back)
  have hvalue₁ : (m₁.value (l.headD back)).isSome := by
    rw [r₁.value]
    exact isSome_value_of_prev hfirst.2
  obtain ⟨m₂, h₂, next₂, prev₂, r₂⟩ := exists_setPrev hvalue₁ node
  have hvalue₂ : (m₂.value node).isSome := by rwa [r₂.value, r₁.value]
  obtain ⟨m₃, h₃, next₃, prev₃, r₃⟩ := exists_setPrev hvalue₂ front
  have hvalue₃ : (m₃.value front).isSome := by
    rw [r₃.value, r₂.value, r₁.value]
    exact isSome_value_of_next hfirst.1
  obtain ⟨m₄, h₄, next₄, prev₄, r₄⟩ := exists_setNext hvalue₃ node
  have hagain : m₁.next front = some (l.headD back) := by
    rw [next₁, update_of_ne hfront.symm, hfirst.1]
  -- The first two writes join the cell to the rest, the last two join the sentinel to it.
  have hjoined : (node :: l.headD back :: Q).IsChain (Joined m₂.next m₂.prev) := by
    rw [hspine'] at hnodup
    rw [next₂, prev₂, next₁, prev₁]
    exact chain_join (P := []) (.singleton node) hrest (List.nodup_cons.mp hnodup).2
  refine ⟨m₄, ?_, ⟨hnodup, ?_⟩, (((r₁.trans r₂).trans r₃).trans r₄).mono ?_⟩
  · simp only [Memory.pushFront, hfirst.1, h₁, hagain, h₂, h₃, h₄, bind_eq_bind,
      bind_some]
  · rw [hspine'] at hnodup ⊢
    rw [next₄, prev₄, next₃, prev₃]
    exact chain_join (P := []) (.singleton front) hjoined hnodup
  · rw [hspine]
    simp

theorem Linked.popFront (h : Linked m front back (node :: l)) :
    ∃ m', m.popFront front back = some (some node, m') ∧ Linked m' front back l ∧
      Relinked m m' (spine front back (node :: l)) := by
  have hfirstOf : Linked m front back ([] ++ node :: l) := h
  obtain ⟨m', hremove, hlinked, hrelinked⟩ := hfirstOf.removeNode
  refine ⟨m', ?_, hlinked, hrelinked⟩
  have hne : node ≠ back := fun he => h.back_notMem (he ▸ mem_cons_self)
  have hfirst := (List.isChain_cons_cons.mp h.chain).1
  have hnext := hfirstOf.next_node
  have hfront : front ≠ node := fun he => h.front_notMem (he ▸ mem_cons_self)
  -- Both operations write the same two pointers.
  obtain ⟨m₁, h₁, next₁, prev₁, r₁⟩ :=
    exists_setNext (isSome_value_of_next hfirst.1) (l.headD back)
  have hagain : m₁.next node = some (l.headD back) := by
    rw [next₁, update_of_ne hfront.symm, hnext]
  simp only [Memory.removeNode, hnext, hfirst.2, h₁, prev₁, bind_eq_bind,
    bind_some] at hremove
  simp only [Memory.popFront, hfirst.1, if_neg hne, hnext, h₁, hagain, bind_eq_bind,
    bind_some]
  obtain ⟨m₂, h₂, he⟩ := Option.bind_eq_some_iff.mp hremove
  rw [h₂]
  simpa using he

/-- A node is linked in before the back sentinel. -/
theorem Linked.pushBack (h : Linked m front back l) (hvalue : (m.value node).isSome)
    (hfresh : node ∉ spine front back l) :
    ∃ m', m.pushBack back node = some m' ∧ Linked m' front back (l ++ [node]) ∧
      Relinked m m' (node :: spine front back l) := by
  obtain ⟨P, a, hP⟩ : ∃ P a, front :: l = P ++ [a] :=
    ⟨_, _, (dropLast_append_getLast (cons_ne_nil _ _)).symm⟩
  have hspine : spine front back l = P ++ a :: back :: [] := by
    rw [spine, ← cons_append, hP, append_assoc]
    rfl
  have hspine' : spine front back (l ++ [node]) = P ++ a :: node :: back :: [] := by
    rw [spine, append_assoc, ← cons_append, hP, append_assoc]
    rfl
  have hnodup : (spine front back (l ++ [node])).Nodup := by
    have hcons := List.nodup_cons.mpr ⟨hfresh, h.nodup⟩
    rw [hspine] at hcons
    rw [hspine']
    refine List.Perm.nodup ?_ hcons
    have hmiddle : (P ++ [a] ++ node :: [back]).Perm (node :: (P ++ [a] ++ [back])) :=
      perm_middle
    simpa using hmiddle.symm
  have hchain := h.chain
  rw [hspine, isChain_append_cons_cons] at hchain
  obtain ⟨hinit, hlast, -⟩ := hchain
  have hback : node ≠ back := fun he => hfresh (mem_spine.mpr (.inr (.inr he)))
  have hne : node ≠ a := by
    rintro rfl
    rw [hspine] at hfresh
    exact hfresh (mem_append_right _ mem_cons_self)
  obtain ⟨m₁, h₁, next₁, prev₁, r₁⟩ := exists_setPrev hvalue a
  have hvalue₁ : (m₁.value node).isSome := by rwa [r₁.value]
  obtain ⟨m₂, h₂, next₂, prev₂, r₂⟩ := exists_setNext hvalue₁ back
  have hvalue₂ : (m₂.value a).isSome := by
    rw [r₂.value, r₁.value]
    exact isSome_value_of_next hlast.1
  obtain ⟨m₃, h₃, next₃, prev₃, r₃⟩ := exists_setNext hvalue₂ node
  have hvalue₃ : (m₃.value back).isSome := by
    rw [r₃.value, r₂.value, r₁.value]
    exact isSome_value_of_prev hlast.2
  obtain ⟨m₄, h₄, next₄, prev₄, r₄⟩ := exists_setPrev hvalue₃ node
  have hagain : m₂.prev back = some a := by
    rw [prev₂, prev₁, update_of_ne hback.symm, hlast.2]
  refine ⟨m₄, ?_, ⟨hnodup, ?_⟩, (((r₁.trans r₂).trans r₃).trans r₄).mono ?_⟩
  · simp only [Memory.pushBack, hlast.2, h₁, h₂, hagain, h₃, h₄, bind_eq_bind,
      bind_some]
  · rw [hspine'] at hnodup ⊢
    have hassoc : P ++ [a, node, back] = (P ++ [a]) ++ [node, back] := by simp
    have hjoined := chain_join hinit (.singleton node)
      (hnodup.sublist (List.Sublist.append_left (sublist_append_left [a, node] [back]) P))
    rw [hassoc] at hnodup ⊢
    rw [next₄, prev₄, next₃, prev₃, next₂, prev₂, next₁, prev₁, update_comm hne]
    exact chain_join (by simpa using hjoined) (.singleton back) hnodup
  · rw [hspine]
    simp

end Lists

/-! ### Two lists

Cells move between two lists without a common cell. -/

section Pairs

open Memory

variable {α β : Type u} {m m' : Memory α β} {front back front' back' a : α} {l l' : List α}

/-- Two lists in one memory that share no cell. -/
structure LinkedPair (m : Memory α β) (front back front' back' : α) (l l' : List α) : Prop where
  left : Linked m front back l
  right : Linked m front' back' l'
  disjoint : ∀ a ∈ spine front back l, a ∉ spine front' back' l'

theorem LinkedPair.mono_left {xs : List α} (h : LinkedPair m front back front' back' l l')
    (hm : Relinked m m' (spine front back l)) (hxs : Linked m' front back xs) (hsub : xs ⊆ l) :
    LinkedPair m' front back front' back' xs l' where
  left := hxs
  right := h.right.frame fun a ha => hm.cell a fun hl => h.disjoint a hl ha
  disjoint a ha := h.disjoint a <| by
    rw [mem_spine] at ha ⊢
    exact ha.imp_right (Or.imp_left fun hmem => hsub hmem)

theorem LinkedPair.mono_right {xs : List α} (h : LinkedPair m front back front' back' l l')
    (hm : Relinked m m' (spine front' back' l')) (hxs : Linked m' front' back' xs)
    (hsub : xs ⊆ l') : LinkedPair m' front back front' back' l xs where
  left := h.left.frame fun a ha => hm.cell a (h.disjoint a ha)
  right := hxs
  disjoint a ha ha' := h.disjoint a ha <| by
    rw [mem_spine] at ha' ⊢
    exact ha'.imp_right (Or.imp_left fun hmem => hsub hmem)

variable [DecidableEq α]

theorem filter_ne_middle {xs ys : List α} (h : (xs ++ a :: ys).Nodup) :
    (xs ++ a :: ys).filter (· ≠ a) = xs ++ ys := by
  rw [filter_append, filter_cons_of_neg (by simp), ← filter_append,
    filter_eq_self]
  intro b hb
  simpa using ne_of_mem_of_not_mem hb (List.nodup_cons.mp (List.nodup_middle.mp h)).1

theorem filter_ne_of_notMem (h : a ∉ l) : l.filter (· ≠ a) = l := by
  rw [filter_eq_self]
  intro b hb
  simpa using ne_of_mem_of_not_mem hb h

theorem LinkedPair.removeNode (h : LinkedPair m front back front' back' l l')
    (ha : a ∈ l ++ l') :
    ∃ next m', m.removeNode a = some (next, m') ∧ m'.value = m.value ∧
      LinkedPair m' front back front' back' (l.filter (· ≠ a)) (l'.filter (· ≠ a)) := by
  rcases List.mem_append.mp ha with hl | hl'
  · have hother : a ∉ l' := fun hl' =>
      h.disjoint a (mem_spine.mpr (.inr (.inl hl))) (mem_spine.mpr (.inr (.inl hl')))
    obtain ⟨xs, ys, rfl⟩ := append_of_mem hl
    obtain ⟨m', hremove, hlinked, hrelinked⟩ := h.left.removeNode
    refine ⟨_, m', hremove, hrelinked.value, ?_⟩
    rw [filter_ne_middle h.left.nodup_nodes, filter_ne_of_notMem hother]
    exact h.mono_left hrelinked hlinked
      ((sublist_cons_self a ys).append_left xs).subset
  · have hother : a ∉ l := fun hl =>
      h.disjoint a (mem_spine.mpr (.inr (.inl hl))) (mem_spine.mpr (.inr (.inl hl')))
    obtain ⟨xs, ys, rfl⟩ := append_of_mem hl'
    obtain ⟨m', hremove, hlinked, hrelinked⟩ := h.right.removeNode
    refine ⟨_, m', hremove, hrelinked.value, ?_⟩
    rw [filter_ne_middle h.right.nodup_nodes, filter_ne_of_notMem hother]
    exact h.mono_right hrelinked hlinked
      ((sublist_cons_self a ys).append_left xs).subset

theorem LinkedPair.pushFront (h : LinkedPair m front back front' back' l l')
    (hvalue : (m.value a).isSome) (hleft : a ∉ spine front back l)
    (hright : a ∉ spine front' back' l') :
    ∃ m', m.pushFront front' a = some m' ∧ m'.value = m.value ∧
      LinkedPair m' front back front' back' l (a :: l') := by
  obtain ⟨m', hpush, hlinked, hrelinked⟩ := h.right.pushFront hvalue hright
  refine ⟨m', hpush, hrelinked.value, ?_, hlinked, ?_⟩
  · refine h.left.frame fun b hb => hrelinked.cell b ?_
    rw [mem_cons, not_or]
    exact ⟨ne_of_mem_of_not_mem hb hleft, h.disjoint b hb⟩
  · intro b hb hmem
    rw [mem_spine, mem_cons] at hmem
    rcases hmem with hfront | (rfl | hl') | hback
    · exact h.disjoint b hb (mem_spine.mpr (.inl hfront))
    · exact hleft hb
    · exact h.disjoint b hb (mem_spine.mpr (.inr (.inl hl')))
    · exact h.disjoint b hb (mem_spine.mpr (.inr (.inr hback)))

/-- Popping the first cell of the second list and pushing it to the back of the
first one. -/
theorem LinkedPair.shift (h : LinkedPair m front back front' back' l (a :: l')) :
    ∃ m₁ m₂, m.popFront front' back' = some (some a, m₁) ∧ m₁.pushBack back a = some m₂ ∧
      m₂.value = m.value ∧ LinkedPair m₂ front back front' back' (l ++ [a]) l' := by
  have ha : a ∈ spine front' back' (a :: l') := mem_spine.mpr (.inr (.inl mem_cons_self))
  have hleft : a ∉ spine front back l := fun hl => h.disjoint a hl ha
  have hright : a ∉ spine front' back' l' := by
    have hnodup := (List.Perm.swap a front' (l' ++ [back'])).nodup h.right.nodup
    exact (List.nodup_cons.mp hnodup).1
  obtain ⟨m₁, hpop, hlinked₁, hrelinked₁⟩ := h.right.popFront
  have hpair := h.mono_right hrelinked₁ hlinked₁ (subset_cons_self a l')
  have hvalue : (m₁.value a).isSome := by
    rw [hrelinked₁.value]
    exact h.right.isSome_value ha
  obtain ⟨m₂, hpush, hlinked₂, hrelinked₂⟩ := hpair.left.pushBack hvalue hleft
  refine ⟨m₁, m₂, hpop, hpush, hrelinked₂.value.trans hrelinked₁.value, hlinked₂, ?_, ?_⟩
  · refine hpair.right.frame fun b hb => hrelinked₂.cell b ?_
    rw [mem_cons, not_or]
    exact ⟨ne_of_mem_of_not_mem hb hright, fun hl => hpair.disjoint b hl hb⟩
  · intro b hb
    rw [mem_spine, mem_append, mem_singleton] at hb
    rcases hb with hfront | (hl | rfl) | hback
    · exact hpair.disjoint b (mem_spine.mpr (.inl hfront))
    · exact hpair.disjoint b (mem_spine.mpr (.inr (.inl hl)))
    · exact hright
    · exact hpair.disjoint b (mem_spine.mpr (.inr (.inr hback)))

end Pairs

end IntrusiveList
