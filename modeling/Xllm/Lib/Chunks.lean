import Xllm.Lib.Contract

/-!
# Folds in chunks

A list can be processed from left to right into one state, or in chunks, each into
a state of its own, whose states are merged afterwards. The two agree when a step
behind a merge is the merge behind the step. `Commutes` is that condition for one
step; it is closed under sequencing and folds.

Prefix sums are merged by an offset: the leading zero of the second list is dropped
and the last sum of the first one is added to the others.
-/

namespace Chunks

open Contract List

universe u v w

variable {ε : Type u} {σ τ : Type v} {α : Type w}

/-- On states that satisfy `P`, the step may be taken before or after `g`. -/
def Commutes (P : σ → Prop) (g : σ → σ) (f : σ → Except ε σ) : Prop :=
  ∀ t, P t → f (g t) = (f t).map g ∧ Ensures (f t) (fun _ => True) P

variable {P : σ → Prop} {g : σ → σ} {f f' : σ → Except ε σ}

theorem Commutes.pure {h : σ → σ} (comm : ∀ t, P t → h (g t) = g (h t))
    (keeps : ∀ t, P t → P (h t)) : Commutes (ε := ε) P g (fun t => .ok (h t)) := by
  intro t ht
  exact ⟨congrArg Except.ok (comm t ht), keeps t ht⟩

theorem Commutes.bind (first : Commutes P g f) (second : Commutes P g f') :
    Commutes P g (fun t => f t >>= f') := by
  intro t ht
  obtain ⟨hcomm, hkeeps⟩ := first t ht
  constructor
  · change f (g t) >>= f' = Except.map g (f t >>= f')
    rw [hcomm]
    cases hf : f t with
    | error e => rfl
    | ok t' =>
        rw [hf] at hkeeps
        exact (second t' hkeeps).1
  · exact hkeeps.bind fun t' ht' => (second t' ht').2

theorem Commutes.foldlM {step : σ → α → Except ε σ} (each : ∀ a, Commutes P g (fun t => step t a))
    (l : List α) : Commutes P g (fun t => l.foldlM step t) := by
  induction l with
  | nil => exact Commutes.pure (fun _ _ => rfl) fun _ ht => ht
  | cons a l ih =>
      exact (each a).bind ih

/-- The lists of a division into chunks, one for each of the first `n` starts. -/
def slices (n k : Nat) (l : List α) : List (List α) :=
  (List.range n).map fun i => (l.drop (i * k)).take k

@[simp] theorem flatten_slices (n k : Nat) (l : List α) :
    (slices n k l).flatten = l.take (n * k) := by
  induction n with
  | zero => simp [slices]
  | succ n ih =>
      rw [slices] at ih ⊢
      rw [range_succ, map_append, flatten_append, ih, Nat.succ_mul, take_add]
      simp

theorem flatten_slices_of_le {n k : Nat} {l : List α} (h : l.length ≤ n * k) :
    (slices n k l).flatten = l := by
  rw [flatten_slices, take_of_length_le h]

/-- A fold over chunks, each from `start`, followed by the merges. -/
theorem foldlM_flatten {step : σ → α → Except ε σ} {merge : σ → σ → σ} {start : σ}
    {I : σ → Prop} (hstart : ∀ s, I s → merge s start = s)
    (hmerge : ∀ s, I s → ∃ P : σ → Prop, P start ∧ (∀ t, P t → I (merge s t)) ∧
      ∀ a, Commutes P (merge s) (fun t => step t a))
    (chunks : List (List α)) (s : σ) (hs : I s) :
    chunks.flatten.foldlM step s =
      (chunks.mapM (List.foldlM step start)).map fun ts => ts.foldl merge s := by
  induction chunks generalizing s with
  | nil => rfl
  | cons chunk chunks ih =>
      obtain ⟨P, hP, hI, hcomm⟩ := hmerge s hs
      obtain ⟨heq, hkeeps⟩ := Commutes.foldlM hcomm chunk start hP
      beta_reduce at heq hkeeps
      rw [hstart s hs] at heq
      rw [flatten_cons, foldlM_append, mapM_cons, heq]
      cases hchunk : chunk.foldlM step start with
      | error e => rfl
      | ok t =>
          rw [hchunk] at hkeeps
          change chunks.flatten.foldlM step (merge s t) = _
          rw [ih (merge s t) (hI t hkeeps)]
          cases chunks.mapM (List.foldlM step start) with
          | error e => rfl
          | ok ts => rfl

def back (l : List Nat) : Nat := l.getLastD 0

def mergeSums (l l' : List Nat) : List Nat := l ++ l'.tail.map (· + back l)

@[simp] theorem back_concat (l : List Nat) (n : Nat) : back (l ++ [n]) = n := by
  simp [back]

theorem mergeSums_zero (l : List Nat) : mergeSums l [0] = l := by
  simp [mergeSums]

@[simp] theorem back_mergeSums (l rest : List Nat) :
    back (mergeSums l (0 :: rest)) = back l + back (0 :: rest) := by
  rcases eq_nil_or_concat rest with rfl | ⟨init, n, rfl⟩
  · simp [mergeSums, back]
  · have hcons : 0 :: (init ++ [n]) = (0 :: init) ++ [n] := rfl
    rw [concat_eq_append, hcons, back_concat, mergeSums, cons_append, tail_cons,
      map_append, ← append_assoc, map_singleton, back_concat, Nat.add_comm]

theorem mergeSums_push (l rest : List Nat) (n : Nat) :
    mergeSums l (0 :: rest ++ [back (0 :: rest) + n]) =
      mergeSums l (0 :: rest) ++ [back (mergeSums l (0 :: rest)) + n] := by
  rw [back_mergeSums]
  simp only [mergeSums, cons_append, tail_cons, map_append, map_cons, append_assoc]
  congr 3
  omega

end Chunks
