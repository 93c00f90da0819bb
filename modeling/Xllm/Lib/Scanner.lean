import Mathlib.Algebra.Group.Defs

/-!
# Scanners that read a text in chunks

A scanner looks at the text it has and takes a piece from its front, or waits for more. It
works until it waits; what it has not taken is looked at again when the next chunk
arrives. Its outputs are elements of an additive monoid.

A scanner is *stable* when a piece that it takes from a text is also taken when more text
is there. Then a text can be given to it in chunks in any way.
-/

namespace Scanner

universe u v w

variable {α : Type u} {σ : Type v} {M : Type w}

/-- What a scanner does at the front of a text. -/
inductive Move (σ : Type v) (M : Type w) where
  /-- Nothing can be decided yet. -/
  | wait
  | fail
  /-- Take `length` symbols with an output, and go to the next state. -/
  | take (length : Nat) (output : M) (state : σ)

/-- A scanner takes at least one symbol, and none that is not there. -/
structure Progress (next : σ → List α → Move σ M) : Prop where
  pos : ∀ {s t n o s'}, next s t = .take n o s' → 0 < n
  le : ∀ {s t n o s'}, next s t = .take n o s' → n ≤ t.length

variable [AddMonoid M] {next : σ → List α → Move σ M}

def prepend (output : M) (result : Option (M × σ × List α)) : Option (M × σ × List α) :=
  result.map fun r => (output + r.1, r.2)

@[simp] theorem prepend_zero {result : Option (M × σ × List α)} : prepend 0 result = result := by
  cases result <;> simp [prepend]

@[simp] theorem prepend_prepend {o o' : M} {result : Option (M × σ × List α)} :
    prepend o (prepend o' result) = prepend (o + o') result := by
  cases result <;> simp [prepend, add_assoc]

/-- Work until the scanner waits or fails, at most `fuel` times. -/
def scanFor (next : σ → List α → Move σ M) : Nat → σ → List α → Option (M × σ × List α)
  | 0, s, t => some (0, s, t)
  | fuel + 1, s, t =>
      match next s t with
      | .wait => some (0, s, t)
      | .fail => none
      | .take n o s' => prepend o (scanFor next fuel s' (t.drop n))

/-- Work until the scanner waits or fails. Every piece has a symbol, so as many steps as
there are symbols suffice. -/
def scan (next : σ → List α → Move σ M) (s : σ) (t : List α) : Option (M × σ × List α) :=
  scanFor next (t.length + 1) s t

/-- Enough fuel is enough. -/
theorem scanFor_eq (hnext : Progress next) {fuel fuel' : Nat} {s : σ} {t : List α}
    (h : t.length < fuel) (h' : t.length < fuel') :
    scanFor next fuel s t = scanFor next fuel' s t := by
  induction fuel generalizing fuel' s t with
  | zero => omega
  | succ fuel ih =>
      obtain ⟨fuel', rfl⟩ := Nat.exists_eq_succ_of_ne_zero (by omega : fuel' ≠ 0)
      rw [scanFor, scanFor]
      cases hmove : next s t with
      | wait => rfl
      | fail => rfl
      | take n o s' =>
          have hpos := hnext.pos hmove
          have hle := hnext.le hmove
          have hlen : (t.drop n).length = t.length - n := List.length_drop
          dsimp only
          rw [ih (by omega) (by omega : (t.drop n).length < fuel')]

theorem scan_eq (hnext : Progress next) (s : σ) (t : List α) :
    scan next s t = match next s t with
      | .wait => some (0, s, t)
      | .fail => none
      | .take n o s' => prepend o (scan next s' (t.drop n)) := by
  rw [scan, scanFor]
  cases hmove : next s t with
  | wait => rfl
  | fail => rfl
  | take n o s' =>
      have hpos := hnext.pos hmove
      have hle := hnext.le hmove
      have hlen : (t.drop n).length = t.length - n := List.length_drop
      dsimp only
      rw [scan, scanFor_eq hnext (by omega) (Nat.lt_succ_self _)]

theorem scan_wait (hnext : Progress next) {s : σ} {t : List α} (h : next s t = .wait) :
    scan next s t = some (0, s, t) := by
  rw [scan_eq hnext, h]

theorem scan_fail (hnext : Progress next) {s : σ} {t : List α} (h : next s t = .fail) :
    scan next s t = none := by
  rw [scan_eq hnext, h]

theorem scan_take (hnext : Progress next) {s s' : σ} {t : List α} {n : Nat} {o : M}
    (h : next s t = .take n o s') : scan next s t = prepend o (scan next s' (t.drop n)) := by
  rw [scan_eq hnext, h]

/-- What is decided on a text stays so when the text grows: a scan of the longer text gives
the same output first and goes on with the rest. -/
structure Stable (next : σ → List α → Move σ M) : Prop extends Progress next where
  take_append : ∀ {s t n o s'} (more : List α), next s t = .take n o s' →
    scan next s (t ++ more) = prepend o (scan next s' (t.drop n ++ more))
  fail_append : ∀ {s t} (more : List α), next s t = .fail → scan next s (t ++ more) = none

/-- Scanning in two pieces. -/
theorem Stable.scan_append (hnext : Stable next) (s : σ) (t more : List α) :
    scan next s (t ++ more) = (scan next s t).bind fun r =>
      prepend r.1 (scan next r.2.1 (r.2.2 ++ more)) := by
  -- by induction on the length of the first chunk, one piece at a time
  induction h : t.length using Nat.strongRecOn generalizing s t with
  | ind length ih =>
      cases hmove : next s t with
      | wait => simp [scan_wait hnext.toProgress hmove]
      | fail => simp [scan_fail hnext.toProgress hmove, hnext.fail_append more hmove]
      | take n o s' =>
          have hpos := hnext.pos hmove
          have hle := hnext.le hmove
          have hlen : (t.drop n).length = t.length - n := List.length_drop
          rw [hnext.take_append more hmove, scan_take hnext.toProgress hmove,
            ih (t.drop n).length (by omega) s' (t.drop n) rfl]
          cases scan next s' (t.drop n) with
          | none => rfl
          | some r => simp [prepend, add_assoc, Function.comp_def]

end Scanner
