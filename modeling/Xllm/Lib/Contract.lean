import Mathlib.Data.List.Basic

/-!
# Contracts of fallible steps

A step that may stop the program is a value of `Except ε α`. The contract
`Ensures x E Q` describes both exits of one such value: a returned result
satisfies `Q`, and an abort is one of those that `E` allows. The strongest
contracts have `E = fun _ => False`, which says that the step returns.

Runs are left folds of a step function over a list of operations. A run rule
turns the contract of one step into the contract of every run; `Along` adds a
condition that each step has to meet in the state where it is taken.
-/

namespace Contract

universe u v w

variable {ε : Type u} {α β σ : Type v} {ω : Type w}

/-- Returned results satisfy `Q`, and only aborts in `E` are possible. -/
def Ensures (x : Except ε α) (E : ε → Prop) (Q : α → Prop) : Prop :=
  match x with
  | .ok a => Q a
  | .error e => E e

/-- Returned results satisfy `Q`, and any abort is possible. -/
abbrev IfOk (x : Except ε α) (Q : α → Prop) : Prop := Ensures x (fun _ => True) Q

/-- The step returns, and its result satisfies `Q`. -/
abbrev Yields (x : Except ε α) (Q : α → Prop) : Prop := Ensures x (fun _ => False) Q

instance (x : Except ε α) (E : ε → Prop) (Q : α → Prop) [DecidablePred E] [DecidablePred Q] :
    Decidable (Ensures x E Q) :=
  match x with
  | .ok a => inferInstanceAs (Decidable (Q a))
  | .error e => inferInstanceAs (Decidable (E e))

variable {E E' : ε → Prop} {Q Q' : α → Prop} {R : β → Prop}
variable {x : Except ε α} {f : α → Except ε β}

@[simp] theorem ensures_ok {a : α} : Ensures (.ok a : Except ε α) E Q ↔ Q a := Iff.rfl

@[simp] theorem ensures_pure {a : α} : Ensures (pure a : Except ε α) E Q ↔ Q a := Iff.rfl

@[simp] theorem ensures_error {e : ε} : Ensures (.error e : Except ε α) E Q ↔ E e := Iff.rfl

@[simp] theorem ensures_throw {e : ε} : Ensures (throw e : Except ε α) E Q ↔ E e := Iff.rfl

theorem Ensures.mono (h : Ensures x E Q) (errors : ∀ e, E e → E' e) (post : ∀ a, Q a → Q' a) :
    Ensures x E' Q' := by
  cases x with
  | ok a => exact post a h
  | error e => exact errors e h

theorem Ensures.mono_post (h : Ensures x E Q) (post : ∀ a, Q a → Q' a) : Ensures x E Q' :=
  h.mono (fun _ he => he) post

theorem Ensures.total (h : Yields x Q) : Ensures x E Q :=
  h.mono (fun _ => False.elim) (fun _ hq => hq)

/-- Nothing is said about aborts any more. -/
theorem Ensures.ifOk (h : Ensures x E Q) : IfOk x Q := h.mono (fun _ _ => trivial) fun _ hq => hq

/-- Sequential composition: the second step starts from the first one's
postcondition, and both obey the same error contract. -/
theorem Ensures.bind (first : Ensures x E Q) (second : ∀ a, Q a → Ensures (f a) E R) :
    Ensures (x >>= f) E R := by
  cases x with
  | ok a => exact second a first
  | error e => exact first

theorem Ensures.and (h : Ensures x E Q) (h' : Ensures x E' Q') :
    Ensures x (fun e => E e ∧ E' e) (fun a => Q a ∧ Q' a) := by
  cases x with
  | ok a => exact ⟨h, h'⟩
  | error e => exact ⟨h, h'⟩

theorem Ensures.both (h : Ensures x E Q) (h' : Ensures x E Q') :
    Ensures x E (fun a => Q a ∧ Q' a) :=
  (h.and h').mono (fun _ he => he.1) (fun _ ha => ha)

theorem Ensures.of_ok {a : α} (h : Ensures x E Q) (hx : x = .ok a) : Q a := by
  subst hx
  exact h

theorem Ensures.exists_ok (h : Yields x Q) : ∃ a, x = .ok a ∧ Q a := by
  cases x with
  | ok a => exact ⟨a, rfl, h⟩
  | error e => exact h.elim

theorem Ensures.eq_error {e : ε} (h : Ensures x (fun e' => e' = e) (fun _ => False)) :
    x = .error e := by
  cases x with
  | ok a => exact h.elim
  | error e' => exact congrArg Except.error h

theorem ensures_of_forall_ok (h : ∀ a, x = .ok a → Q a) : IfOk x Q := by
  cases x with
  | ok a => exact h a rfl
  | error e => exact trivial

theorem ok_bind (a : α) (f : α → Except ε β) : (.ok a : Except ε α) >>= f = f a := rfl

theorem bind_eq_ok {b : β} (h : x >>= f = .ok b) : ∃ a, x = .ok a ∧ f a = .ok b := by
  cases x with
  | ok a => exact ⟨a, rfl, h⟩
  | error e => cases h

theorem map_eq_ok {f : α → β} {b : β} (h : x.map f = .ok b) : ∃ a, x = .ok a ∧ f a = b := by
  cases x with
  | ok a => exact ⟨a, rfl, Except.ok.inj h⟩
  | error e => cases h

theorem Ensures.mapM {l : List α} (each : ∀ a ∈ l, Ensures (f a) E (fun _ => True)) :
    Ensures (l.mapM f) E (fun bs => bs.length = l.length) := by
  induction l with
  | nil => exact rfl
  | cons a l ih =>
      rw [List.mapM_cons]
      refine (each a List.mem_cons_self).bind fun b _ => ?_
      refine (ih fun c hc => each c (List.mem_cons_of_mem _ hc)).bind fun bs hbs => ?_
      rw [ensures_pure, List.length_cons, List.length_cons, hbs]

theorem ensures_any : IfOk x (fun _ => True) := by
  cases x with
  | ok a => exact trivial
  | error e => exact trivial

theorem Ensures.foldlM {step : σ → ω → Except ε σ} {I : List ω → σ → Prop} {l : List ω} {s : σ}
    (preserved : ∀ a l s, I (a :: l) s → Ensures (step s a) E (I l)) (start : I l s) :
    Ensures (l.foldlM step s) E (I []) := by
  induction l generalizing s with
  | nil => exact start
  | cons a l ih =>
      exact (preserved a l s start).bind fun t ht => ih ht

/-- A run performs its operations from left to right and stops at an abort. -/
def run (step : σ → ω → Except ε σ) (s : σ) (ops : List ω) : Except ε σ :=
  ops.foldlM step s

variable {step : σ → ω → Except ε σ} {s t : σ} {op : ω} {ops : List ω}

@[simp] theorem run_nil : run step s [] = .ok s := rfl

@[simp] theorem run_cons : run step s (op :: ops) = step s op >>= fun t => run step t ops :=
  List.foldlM_cons

/-- A run in two parts. -/
theorem run_append {ops' : List ω} :
    run step s (ops ++ ops') = run step s ops >>= fun t => run step t ops' := by
  simp only [run, List.foldlM_append]

variable {I : σ → Prop}

/-- Run rule: what every step keeps holds after the run. -/
theorem Ensures.run (preserved : ∀ s op, I s → Ensures (step s op) E I)
    (start : I s) : Ensures (run step s ops) E I := by
  induction ops generalizing s with
  | nil => exact start
  | cons op ops ih =>
      exact (preserved s op start).bind fun t ht => ih ht

/-- Every step of the run meets `C` in the state in which it is taken. -/
def Along (step : σ → ω → Except ε σ) (C : σ → ω → Prop) : σ → List ω → Prop
  | _, [] => True
  | s, op :: ops => C s op ∧ ∀ t, step s op = .ok t → Along step C t ops

theorem along_cons_iff {C : σ → ω → Prop} :
    Along step C s (op :: ops) ↔
      C s op ∧ Ensures (step s op) (fun _ => True) (fun t => Along step C t ops) := by
  refine and_congr_right fun _ => ⟨ensures_of_forall_ok, ?_⟩
  intro h t ht
  exact h.of_ok ht

instance decidableAlong (step : σ → ω → Except ε σ) (C : σ → ω → Prop)
    [∀ s op, Decidable (C s op)] : (s : σ) → (ops : List ω) → Decidable (Along step C s ops)
  | _, [] => .isTrue trivial
  | _, _ :: ops =>
      have : DecidablePred fun t => Along step C t ops := fun t => decidableAlong step C t ops
      decidable_of_iff _ along_cons_iff.symm

variable {C : σ → ω → Prop}

/-- Run rule for steps that keep it where their condition holds. -/
theorem Along.ensures_run (preserved : ∀ s op, I s → C s op → Ensures (step s op) E I)
    (start : I s) (along : Along step C s ops) : Ensures (Contract.run step s ops) E I := by
  induction ops generalizing s with
  | nil => exact start
  | cons op ops ih =>
      have first := preserved s op start along.1
      rw [run_cons]
      cases hstep : step s op with
      | error e =>
          rw [hstep] at first
          exact first
      | ok t =>
          rw [hstep] at first
          exact ih first (along.2 t hstep)

theorem Along.and {D : σ → ω → Prop} (along : Along step C s ops) (along' : Along step D s ops) :
    Along step (fun s op => C s op ∧ D s op) s ops := by
  induction ops generalizing s with
  | nil => exact trivial
  | cons op ops ih =>
      exact ⟨⟨along.1, along'.1⟩, fun t ht => ih (along.2 t ht) (along'.2 t ht)⟩

theorem Along.mono {D : σ → ω → Prop} (along : Along step C s ops)
    (h : ∀ s op, C s op → D s op) : Along step D s ops := by
  induction ops generalizing s with
  | nil => exact trivial
  | cons op ops ih => exact ⟨h s op along.1, fun t ht => ih (along.2 t ht)⟩

theorem along_of_forall {P : ω → Prop} (h : ∀ op ∈ ops, P op) :
    Along step (fun _ op => P op) s ops := by
  induction ops generalizing s with
  | nil => exact trivial
  | cons op ops ih =>
      exact ⟨h op List.mem_cons_self, fun t _ => ih fun o ho => h o (List.mem_cons_of_mem _ ho)⟩

theorem along_congr {D : σ → ω → Prop} (preserved : ∀ s op t, I s → step s op = .ok t → I t)
    (agree : ∀ s op, I s → (C s op ↔ D s op)) (start : I s) :
    Along step C s ops ↔ Along step D s ops := by
  induction ops generalizing s with
  | nil => exact Iff.rfl
  | cons op ops ih =>
      refine and_congr (agree s op start) (forall_congr' fun t => ?_)
      exact forall_congr' fun ht => ih (preserved s op t start ht)

theorem Along.of_append {ops' : List ω} (along : Along step C s (ops ++ ops')) :
    Along step C s ops := by
  induction ops generalizing s with
  | nil => exact trivial
  | cons op ops ih => exact ⟨along.1, fun t ht => ih (along.2 t ht)⟩

theorem Along.rest {ops' : List ω} (along : Along step C s (ops ++ ops'))
    (hrun : Contract.run step s ops = .ok t) : Along step C t ops' := by
  induction ops generalizing s with
  | nil =>
      cases hrun
      exact along
  | cons op ops ih =>
      obtain ⟨next, hstep, hrest⟩ := bind_eq_ok hrun
      exact ih (along.2 next hstep) hrest

/-! ### Two levels

`Agree` compares two computations, for instance those of a program and of a model of it. -/

variable {γ δ τ : Type v}

/-- Both computations return, and the results are related, or both abort in the same way. -/
def Agree (R : α → β → Prop) : Except ε α → Except ε β → Prop
  | .ok a, .ok b => R a b
  | .error e, .error e' => e = e'
  | _, _ => False

theorem Agree.bind {R : α → β → Prop} {T : γ → δ → Prop} {x : Except ε α} {y : Except ε β}
    {f : α → Except ε γ} {g : β → Except ε δ} (first : Agree R x y)
    (second : ∀ a b, R a b → Agree T (f a) (g b)) : Agree T (x >>= f) (y >>= g) := by
  cases x with
  | ok a =>
      cases y with
      | ok b => exact second a b first
      | error e => exact first.elim
  | error e =>
      cases y with
      | ok b => exact first.elim
      | error e' => exact first

theorem Ensures.agree {x : Except ε α} {E : ε → Prop} {Q : α → Prop} (h : Ensures x E Q) :
    Agree (fun a b => a = b ∧ Q b) x x := by
  cases x with
  | ok a => exact ⟨rfl, h⟩
  | error e => exact rfl

/-- Two levels that take related steps make related runs. -/
theorem Agree.run {R : σ → τ → Prop} {step : σ → ω → Except ε σ} {step' : τ → ω → Except ε τ}
    {ops : List ω} {s : σ} {t : τ}
    (related : ∀ s t, ∀ op ∈ ops, R s t → Agree R (step s op) (step' t op)) (start : R s t) :
    Agree R (Contract.run step s ops) (Contract.run step' t ops) := by
  induction ops generalizing s t with
  | nil => exact start
  | cons op ops ih =>
      refine (related s t op List.mem_cons_self start).bind fun s' t' next => ?_
      exact ih (fun s t o ho => related s t o (List.mem_cons_of_mem _ ho)) next

/-! ### Loops

A `while` loop whose body tells whether it goes on. `limit` is what is returned when
the loop has not ended after `n` rounds. -/

/-- Repeat `body` while `cond` holds and the body asks for it, at most `n` times. -/
def loop (cond : σ → Bool) (body : σ → Except ε (Bool × σ)) (limit : ε) :
    Nat → σ → Except ε σ
  | 0, s => if cond s then .error limit else .ok s
  | n + 1, s =>
      if cond s then do
        let (again, s) ← body s
        if again then loop cond body limit n s else .ok s
      else .ok s

theorem Ensures.loop {cond : σ → Bool} {body : σ → Except ε (Bool × σ)} {limit : ε} {n : Nat}
    (preserved : ∀ s, I s → cond s = true → Ensures (body s) E (fun r => I r.2))
    (unbounded : E limit) (start : I s) : Ensures (loop cond body limit n s) E I := by
  induction n generalizing s with
  | zero =>
      rw [Contract.loop]
      split
      · exact unbounded
      · exact start
  | succ n ih =>
      rw [Contract.loop]
      split
      · rename_i hcond
        refine (preserved s start hcond).bind ?_
        rintro ⟨again, t⟩ ht
        cases again with
        | true => exact ih ht
        | false => exact ht
      · exact start

/-- The states in which a round of a loop from `s` may begin. -/
inductive Rounds (cond : σ → Bool) (body : σ → Except ε (Bool × σ)) (s : σ) : σ → Prop
  | start : Rounds cond body s s
  | next {t u : σ} (before : Rounds cond body s t) (goesOn : cond t = true)
      (round : body t = .ok (true, u)) : Rounds cond body s u

theorem Rounds.invariant {cond : σ → Bool} {body : σ → Except ε (Bool × σ)}
    (preserved : ∀ s, I s → cond s = true → Ensures (body s) (fun _ => True) (fun r => I r.2))
    (start : I s) (h : Rounds cond body s t) : I t := by
  induction h with
  | start => exact start
  | next before goesOn round ih => exact (preserved _ ih goesOn).of_ok round

end Contract
