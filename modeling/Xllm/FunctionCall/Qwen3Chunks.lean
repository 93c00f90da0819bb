import Xllm.FunctionCall.Qwen3Coder

/-!
# Streaming does not depend on the chunks

What `parse_streaming_increment` decides at the front of its buffer, it decides in the same
way when more text is there: the tags begin with an angle and have no other, so a tag that
is not complete yet cannot begin before one that is. Plain text may be taken in several
pieces, which add up to the same text.
-/

namespace Xllm.FunctionCall.Qwen3Coder

open Text Scanner List

variable {D : Type} {lib : JsonLibrary D} {tools : List (JsonTool D)} {s : Tags}
variable {t more p q : List Char}

theorem not_prefix_append (hq : q <+: t) (hpq : ¬ p <+: q) (hqp : ¬ q <+: p) :
    ¬ p <+: t ++ more := by
  intro hp
  rcases prefix_or_prefix_of_prefix hp (hq.trans (prefix_append t more)) with h | h
  · exact hpq h
  · exact hqp h

theorem not_prefix_append_of_not (hp : ¬ p <+: t) (ht : ¬ t <+: p) : ¬ p <+: t ++ more := by
  intro h
  rcases prefix_or_prefix_of_prefix h (prefix_append t more) with h | h
  · exact hp h
  · exact ht h

theorem find_eq_some {i : Nat} (h : find p t = some i) :
    ∃ x y, splitFirst p t = some (x, y) ∧ x.length = i := by
  obtain ⟨⟨x, y⟩, hcut, rfl⟩ := Option.map_eq_some_iff.1 h
  exact ⟨x, y, hcut, rfl⟩

theorem find_append {i : Nat} (h : find p t = some i) : find p (t ++ more) = some i := by
  obtain ⟨x, y, hcut, rfl⟩ := find_eq_some h
  rw [find, splitFirst_append hcut]
  rfl

def terminators : List (List Char) := [parameterEnd, parameterPrefix, functionEnd]

theorem lt_of_find_append {i j : Nat} (hp : p ∈ terminators) (hq : q ∈ terminators)
    (hnone : find p t = .none) (hfound : find q t = some i) (hlater : find p (t ++ more) = some j) :
    i < j := by
  obtain ⟨x, y, hcut, rfl⟩ := find_eq_some hfound
  obtain ⟨v, z, hcut', rfl⟩ := find_eq_some hlater
  have hno : ¬ p <:+: t := splitFirst_eq_none.1 (Option.map_eq_none_iff.1 hnone)
  have hne : p ≠ q := by
    rintro rfl
    rw [hnone] at hfound
    cases hfound
  have htags : ∀ p ∈ terminators, ∀ q ∈ terminators,
      ∃ q', q = '<' :: q' ∧ '<' ∉ p.tail ∧ (p ≠ q → ¬ q <+: p) := by
    intro p hp q hq
    refine ⟨q.tail, ?_, ?_, ?_⟩ <;> revert p q <;> decide
  obtain ⟨q', rfl, htail, hpre⟩ := htags p hp q hq
  exact lt_of_splitFirst_append hno (splitFirst_eq_some hcut) htail (hpre hne) hcut'

variable {e : Nat × Nat}

/-- Candidates that appear later are farther away than the end that was found. -/
theorem nearer_stable {best best' : Option (Nat × Nat)} {f g : Option Nat}
    (h : nearer best f = some e) (hbest : ∀ b, best = some b → best' = some b)
    (hbest' : best = .none → ∀ b, best' = some b → e.1 < b.1) (hf : ∀ i, f = some i → g = some i)
    (hf' : f = .none → ∀ j, g = some j → e.1 < j) : nearer best' g = some e := by
  cases best with
  | none =>
      cases f with
      | none => cases h
      | some i =>
          cases h
          rw [hf i rfl]
          cases hb : best' with
          | none => rfl
          | some b =>
              have hlt := hbest' rfl b hb
              simp only [nearer]
              rw [if_pos hlt]
  | some b =>
      rw [hbest b rfl]
      cases f with
      | none =>
          cases h
          cases hg : g with
          | none => rfl
          | some j =>
              have hlt := hf' rfl j hg
              simp only [nearer]
              rw [if_neg (by omega)]
      | some i =>
          rw [hf i rfl]
          exact h

theorem nearer_cases {best : Option (Nat × Nat)} {f : Option Nat} (h : nearer best f = some e) :
    best = some e ∨ (f = some e.1 ∧ e.2 = 0) := by
  cases f with
  | none => exact .inl h
  | some j =>
      cases best with
      | none =>
          cases h
          exact .inr ⟨rfl, rfl⟩
      | some b =>
          simp only [nearer] at h
          split at h
          · cases h
            exact .inr ⟨rfl, rfl⟩
          · exact .inl h

/-- Where a value ends there is a terminator, which is taken only if it is its own end
tag. -/
theorem valueEnd_cases (h : valueEnd t = some e) :
    ∃ q ∈ terminators, find q t = some e.1 ∧ (e.2 = 0 ∨ e.2 = q.length) := by
  rcases nearer_cases h with h | ⟨h, hzero⟩
  · rcases nearer_cases h with h | ⟨h, hzero⟩
    · obtain ⟨i, hi, rfl⟩ := Option.map_eq_some_iff.1 h
      exact ⟨parameterEnd, by decide, hi, .inr rfl⟩
    · exact ⟨parameterPrefix, by decide, h, .inl hzero⟩
  · exact ⟨functionEnd, by decide, h, .inl hzero⟩

theorem valueEnd_append (h : valueEnd t = some e) :
    valueEnd (t ++ more) = some e := by
  obtain ⟨q, hq, hfound, -⟩ := valueEnd_cases h
  have hparam : parameterPrefix ∈ terminators := by decide
  have hfunc : functionEnd ∈ terminators := by decide
  have hend : parameterEnd ∈ terminators := by decide
  have later : ∀ p ∈ terminators, find p t = .none → ∀ j, find p (t ++ more) = some j → e.1 < j :=
    fun p hp hnone j hj => lt_of_find_append hp hq hnone hfound hj
  -- the candidates of the inner comparison
  have inner : ∀ b, nearer ((find parameterEnd t).map fun i => (i, parameterEnd.length))
      (find parameterPrefix t) = some b →
      nearer ((find parameterEnd (t ++ more)).map fun i => (i, parameterEnd.length))
        (find parameterPrefix (t ++ more)) = some b := by
    intro b hb
    have hq' : ∃ q ∈ terminators, find q t = some b.1 := by
      rcases nearer_cases hb with hb | ⟨hb, -⟩
      · obtain ⟨i, hi, rfl⟩ := Option.map_eq_some_iff.1 hb
        exact ⟨parameterEnd, hend, hi⟩
      · exact ⟨parameterPrefix, hparam, hb⟩
    obtain ⟨q', hq', hfound'⟩ := hq'
    refine nearer_stable hb ?_ ?_ (fun i hi => find_append hi)
      fun hnone j hj => lt_of_find_append hparam hq' hnone hfound' hj
    · intro c hc
      obtain ⟨i, hi, rfl⟩ := Option.map_eq_some_iff.1 hc
      rw [find_append hi]
      rfl
    · intro hnone c hc
      obtain ⟨i, hi, rfl⟩ := Option.map_eq_some_iff.1 hc
      exact lt_of_find_append hend hq' (Option.map_eq_none_iff.1 hnone) hfound' hi
  refine nearer_stable h inner ?_ (fun i hi => find_append hi) (later functionEnd hfunc)
  intro hnone b hb
  have hnone₁ : find parameterEnd t = .none := by
    cases hfind : find parameterEnd t with
    | none => rfl
    | some i =>
        rw [hfind] at hnone
        cases hfind' : find parameterPrefix t <;> simp [nearer, hfind'] at hnone
        split at hnone <;> cases hnone
  have hnone₂ : find parameterPrefix t = .none := by
    cases hfind : find parameterPrefix t with
    | none => rfl
    | some i => simp [nearer, hnone₁, hfind] at hnone
  rcases nearer_cases hb with hb | ⟨hb, -⟩
  · obtain ⟨i, hi, rfl⟩ := Option.map_eq_some_iff.1 hb
    exact later parameterEnd hend hnone₁ i hi
  · exact later parameterPrefix hparam hnone₂ b.1 hb

theorem next_nil : next lib tools s [] = .wait := by
  rw [next, if_pos rfl]

theorem find_add_length_le {i : Nat} (h : find p t = some i) : i + p.length ≤ t.length := by
  obtain ⟨x, y, hcut, rfl⟩ := find_eq_some h
  rw [splitFirst_eq_some hcut]
  simp only [length_append]
  omega

variable {o : StreamingParseResult}

theorem nextFunction_take (more : List Char) {n : Nat} {s' : Tags}
    (h : nextFunction s t = .take n o s') :
    0 < n ∧ n ≤ t.length ∧ nextFunction s (t ++ more) = .take n o s' := by
  unfold nextFunction at h ⊢
  split at h
  · cases h
  · rename_i tag rest hcut
    rw [splitFirst_append hcut]
    cases h
    have hlen := congrArg List.length (splitFirst_eq_some hcut)
    simp only [length_append, length_singleton] at hlen
    exact ⟨by omega, by omega, rfl⟩

theorem nextParameter_take (more : List Char) {n : Nat} {s' : Tags}
    (h : nextParameter lib tools s t = .take n o s') :
    0 < n ∧ n ≤ t.length ∧ nextParameter lib tools s (t ++ more) = .take n o s' := by
  unfold nextParameter at h ⊢
  split at h
  · cases h
  · rename_i tag rest hcut
    rw [splitFirst_append hcut]
    dsimp only
    split at h
    · cases h
    · rename_i endPos tokenLength hend
      obtain ⟨q, -, hfound, htoken⟩ := valueEnd_cases hend
      have hbound := find_add_length_le hfound
      have hlen := congrArg List.length (splitFirst_eq_some hcut)
      simp only [length_append, length_singleton] at hlen hbound htoken
      rw [valueEnd_append hend]
      dsimp only
      rw [take_append_of_le_length (by omega)]
      split at h
      · cases h
      · rename_i fragment hfragment
        cases h
        exact ⟨by omega, by omega, rfl⟩

theorem nextParameter_fail (h : nextParameter lib tools s t = .fail) :
    nextParameter lib tools s (t ++ more) = .fail := by
  unfold nextParameter at h ⊢
  split at h
  · cases h
  · rename_i tag rest hcut
    rw [splitFirst_append hcut]
    dsimp only
    split at h
    · cases h
    · rename_i endPos tokenLength hend
      obtain ⟨q, -, hfound, -⟩ := valueEnd_cases hend
      have hbound := find_add_length_le hfound
      rw [valueEnd_append hend]
      dsimp only
      rw [take_append_of_le_length (by omega)]
      split at h
      · rfl
      · cases h

/-- The tags that `parse_streaming_increment` takes from the front. -/
def frontTags : List (List Char) :=
  [toolCallStart, functionPrefix, parameterPrefix, functionEnd, toolCallEnd]

theorem next_of_no_tag (hne : t ≠ []) (h : ∀ tag ∈ frontTags, ¬ tag <+: t) :
    next lib tools s t = nextText s t := by
  simp only [frontTags, mem_cons, not_mem_nil, or_false, forall_eq_or_imp,
    forall_eq] at h
  obtain ⟨h₁, h₂, h₃, h₄, h₅⟩ := h
  rw [next, if_neg hne, if_neg h₁, if_neg h₂, if_neg h₃, if_neg h₄, if_neg h₅]

theorem not_prefix_of_head (hne : t ≠ []) (hhead : '<' ∉ t) :
    ∀ tag ∈ frontTags, ¬ tag <+: t ++ more := by
  have htags : ∀ tag ∈ frontTags, tag.head? = some '<' := by decide
  intro tag htag hpre
  obtain ⟨c, rest, rfl⟩ := exists_cons_of_ne_nil hne
  obtain ⟨tail, htail⟩ := hpre
  have hfirst := htags tag htag
  cases tag with
  | nil => cases hfirst
  | cons d tag =>
      have hc : d = c := (List.cons_eq_cons.1 htail).1
      rw [head?_cons, Option.some.injEq, hc] at hfirst
      exact hhead (hfirst ▸ mem_cons_self)

theorem next_text {x r : List Char} (hne : x ≠ []) (hx : '<' ∉ x)
    (hr : r = [] ∨ r.head? = some '<') :
    next lib tools s (x ++ r) = .take x.length (s.plain x) s := by
  have hne' : x ++ r ≠ [] := append_ne_nil_of_left_ne_nil hne r
  rw [next_of_no_tag hne' (not_prefix_of_head hne hx), nextText]
  rcases hr with rfl | hr
  · have hno : ¬ ['<'] <:+: x := fun h => hx (h.subset mem_cons_self)
    rw [append_nil, splitFirst_eq_none.2 hno]
  · cases r with
    | nil => cases hr
    | cons c r =>
        rw [head?_cons, Option.some.injEq] at hr
        subst hr
        rw [splitFirst_singleton '<' hx]
        cases x with
        | nil => exact absurd rfl hne
        | cons d x => rfl

@[simp] theorem Tags.plain_append (x y : List Char) : s.plain (x ++ y) = s.plain x + s.plain y := by
  unfold plain
  split
  · rfl
  · rfl

theorem progress : Progress (next lib tools) := by
  have bounds : ∀ {s t n o s'}, next lib tools s t = .take n o s' → 0 < n ∧ n ≤ t.length := by
    intro s t n o s' h
    unfold next at h
    split at h
    · cases h
    rename_i hne
    split at h
    · rename_i hpre
      cases h
      exact ⟨by decide, hpre.length_le⟩
    split at h
    · obtain ⟨hpos, hle, -⟩ := nextFunction_take [] h
      exact ⟨hpos, hle⟩
    split at h
    · obtain ⟨hpos, hle, -⟩ := nextParameter_take [] h
      exact ⟨hpos, hle⟩
    split at h
    · rename_i hpre
      cases h
      exact ⟨by decide, hpre.length_le⟩
    split at h
    · rename_i hpre
      cases h
      exact ⟨by decide, hpre.length_le⟩
    have hpos := length_pos_of_ne_nil hne
    unfold nextText at h
    split at h
    · cases h
      exact ⟨hpos, Nat.le_refl _⟩
    · split at h
      · cases h
      · cases h
        exact ⟨Nat.one_pos, hpos⟩
    · rename_i text rest hcut htext
      cases h
      have hlen := congrArg List.length (splitFirst_eq_some htext)
      simp only [length_append] at hlen
      refine ⟨length_pos_of_ne_nil fun hempty => ?_, by omega⟩
      subst hempty
      exact hcut rfl
  exact ⟨fun h => (bounds h).1, fun h => (bounds h).2⟩

theorem scan_text {x r : List Char} (hx : '<' ∉ x) (hr : r = [] ∨ r.head? = some '<') :
    scan (next lib tools) s (x ++ r) = prepend (s.plain x) (scan (next lib tools) s r) := by
  cases x with
  | nil =>
      have hzero : s.plain [] = 0 := by
        unfold Tags.plain
        split
        · rfl
        · rfl
      rw [hzero, prepend_zero, nil_append]
  | cons c x =>
      rw [scan_take progress (next_text (cons_ne_nil c x) hx hr), drop_left]

theorem scan_text_append {x : List Char} (hx : '<' ∉ x) :
    scan (next lib tools) s (x ++ more) = prepend (s.plain x) (scan (next lib tools) s more) := by
  obtain ⟨y, r, rfl, hy, hr⟩ : ∃ y r, more = y ++ r ∧ '<' ∉ y ∧ (r = [] ∨ r.head? = some '<') := by
    refine ⟨more.takeWhile (· ≠ '<'), more.dropWhile (· ≠ '<'),
      List.takeWhile_append_dropWhile.symm, ?_, ?_⟩
    · intro hmem
      simpa using mem_takeWhile_imp hmem
    · cases hdrop : more.dropWhile (· ≠ '<') with
      | nil => exact .inl rfl
      | cons c r =>
          have hc := head?_dropWhile_not (· ≠ '<') more
          rw [hdrop] at hc
          exact .inr (by simpa using hc)
  have hxy : '<' ∉ x ++ y := by
    rw [mem_append, not_or]
    exact ⟨hx, hy⟩
  rw [← append_assoc, scan_text hxy hr, scan_text hy hr, prepend_prepend, Tags.plain_append]

theorem scan_of_next_append {n : Nat} {s' : Tags}
    (h : next lib tools s (t ++ more) = .take n o s') (hle : n ≤ t.length) :
    scan (next lib tools) s (t ++ more) =
      prepend o (scan (next lib tools) s' (t.drop n ++ more)) := by
  rw [scan_take progress h, drop_append_of_le_length hle]

theorem next_append_of_tag (more : List Char) {tag : List Char} (htag : tag ∈ frontTags)
    (hpre : tag <+: t) :
    ∀ other ∈ frontTags, other ≠ tag → ¬ other <+: t ++ more := by
  have htags : ∀ tag ∈ frontTags, ∀ other ∈ frontTags, other ≠ tag →
      ¬ other <+: tag ∧ ¬ tag <+: other := by decide
  intro other hother hne
  obtain ⟨h, h'⟩ := htags tag htag other hother hne
  exact not_prefix_append hpre h h'

theorem next_take_append {n : Nat} {s' : Tags}
    (h : next lib tools s t = .take n o s') :
    scan (next lib tools) s (t ++ more) =
      prepend o (scan (next lib tools) s' (t.drop n ++ more)) := by
  have hle := progress.le h
  have hne : t ≠ [] := by
    rintro rfl
    cases h
  have hne' : t ++ more ≠ [] := append_ne_nil_of_left_ne_nil hne more
  have grow : ∀ {tag : List Char}, tag <+: t → tag <+: t ++ more :=
    fun htag => htag.trans (prefix_append t more)
  unfold next at h
  rw [if_neg hne] at h
  split at h
  · rename_i htag
    refine scan_of_next_append ?_ hle
    rw [next, if_neg hne', if_pos (grow htag)]
    exact h
  split at h
  · rename_i htag
    have hothers := next_append_of_tag more (by decide) htag
    refine scan_of_next_append ?_ hle
    rw [next, if_neg hne', if_neg (hothers toolCallStart (by decide) (by decide)),
      if_pos (grow htag)]
    exact (nextFunction_take _ h).2.2
  split at h
  · rename_i htag
    have hothers := next_append_of_tag more (by decide) htag
    refine scan_of_next_append ?_ hle
    rw [next, if_neg hne', if_neg (hothers toolCallStart (by decide) (by decide)),
      if_neg (hothers functionPrefix (by decide) (by decide)), if_pos (grow htag)]
    exact (nextParameter_take _ h).2.2
  split at h
  · rename_i htag
    have hothers := next_append_of_tag more (by decide) htag
    refine scan_of_next_append ?_ hle
    rw [next, if_neg hne', if_neg (hothers toolCallStart (by decide) (by decide)),
      if_neg (hothers functionPrefix (by decide) (by decide)),
      if_neg (hothers parameterPrefix (by decide) (by decide)), if_pos (grow htag)]
    exact h
  split at h
  · rename_i htag
    have hothers := next_append_of_tag more (by decide) htag
    refine scan_of_next_append ?_ hle
    rw [next, if_neg hne', if_neg (hothers toolCallStart (by decide) (by decide)),
      if_neg (hothers functionPrefix (by decide) (by decide)),
      if_neg (hothers parameterPrefix (by decide) (by decide)),
      if_neg (hothers functionEnd (by decide) (by decide)), if_pos (grow htag)]
    exact h
  rename_i h₁ h₂ h₃ h₄ h₅
  unfold nextText at h
  split at h
  · -- all of the buffer is text
    rename_i hcut
    cases h
    have hx : '<' ∉ t := by
      intro hmem
      obtain ⟨a, b, rfl⟩ := append_of_mem hmem
      exact splitFirst_eq_none.1 hcut ⟨a, b, by simp⟩
    rw [drop_length]
    exact scan_text_append hx
  · -- an angle that begins no tag
    rename_i rest hcut
    split at h
    · cases h
    rename_i hpossible
    cases h
    refine scan_of_next_append ?_ hle
    have hnot : ∀ tag ∈ possibleTags, ¬ t <+: tag := fun tag htag hpre =>
      hpossible ⟨tag, htag, hpre⟩
    have hfront : ∀ tag ∈ frontTags, ¬ tag <+: t ++ more := by
      intro tag htag
      have hno : ¬ tag <+: t := by
        simp only [frontTags, mem_cons, not_mem_nil, or_false] at htag
        rcases htag with rfl | rfl | rfl | rfl | rfl
        · exact h₁
        · exact h₂
        · exact h₃
        · exact h₄
        · exact h₅
      have hsub : ∀ tag ∈ frontTags, tag ∈ possibleTags := by decide
      exact not_prefix_append_of_not hno (hnot tag (hsub tag htag))
    have hpossible' : ¬ ∃ tag ∈ possibleTags, t ++ more <+: tag := by
      rintro ⟨tag, htag, hpre⟩
      exact hnot tag htag ((prefix_append t more).trans hpre)
    rw [next_of_no_tag hne' hfront, nextText, splitFirst_append hcut]
    rw [if_neg hpossible']
  · -- text up to the next angle
    rename_i text rest _ hcut
    cases h
    have hx := not_mem_of_splitFirst hcut
    have htext := splitFirst_eq_some hcut
    have hsplit : t ++ more = text ++ ('<' :: rest ++ more) := by
      rw [htext]
      simp
    have hdrop : t.drop text.length = '<' :: rest := by
      rw [htext, append_assoc, drop_left]
      rfl
    rw [hsplit, hdrop]
    exact scan_text_append hx

theorem next_fail_append (h : next lib tools s t = .fail) :
    scan (next lib tools) s (t ++ more) = .none := by
  have hne : t ≠ [] := by
    rintro rfl
    cases h
  have hne' : t ++ more ≠ [] := append_ne_nil_of_left_ne_nil hne more
  unfold next at h
  rw [if_neg hne] at h
  split at h
  · cases h
  split at h
  · unfold nextFunction at h
    split at h <;> cases h
  split at h
  · rename_i htag
    have hothers := next_append_of_tag more (by decide) htag
    refine scan_fail progress ?_
    rw [next, if_neg hne', if_neg (hothers toolCallStart (by decide) (by decide)),
      if_neg (hothers functionPrefix (by decide) (by decide)),
      if_pos (htag.trans (prefix_append t more))]
    exact nextParameter_fail h
  split at h
  · cases h
  split at h
  · cases h
  · unfold nextText at h
    split at h
    · cases h
    · split at h <;> cases h
    · cases h

theorem stable (lib : JsonLibrary D) (tools : List (JsonTool D)) : Stable (next lib tools) where
  toProgress := progress
  take_append _ h := next_take_append h
  fail_append _ h := next_fail_append h

theorem parse_append (d : Detector) (a b : List Char) :
    parseStreamingIncrement lib tools d (a ++ b) =
      (parseStreamingIncrement lib tools d a).bind fun first =>
        (parseStreamingIncrement lib tools first.2 b).map fun second =>
          (first.1 + second.1, second.2) := by
  unfold parseStreamingIncrement
  rw [← append_assoc, (stable lib tools).scan_append]
  cases scan (next lib tools) d.tags (d.buffer ++ a) with
  | none => rfl
  | some first =>
      dsimp only [Option.bind, Option.map]
      cases scan (next lib tools) first.2.1 (first.2.2 ++ b) with
      | none => rfl
      | some second => rfl

theorem parse_stream (d : Detector) (a : List Char) (chunks : List (List Char)) :
    ((parseStreamingIncrement lib tools d a).bind fun first =>
        (stream lib tools first.2 chunks).map fun rest => (first.1 + rest.1, rest.2)) =
      parseStreamingIncrement lib tools d (a ++ chunks.flatten) := by
  induction chunks generalizing d a with
  | nil =>
      rw [flatten_nil, append_nil]
      cases parseStreamingIncrement lib tools d a with
      | none => rfl
      | some first => simp [stream]
  | cons chunk chunks ih =>
      rw [flatten_cons, ← append_assoc, ← ih d (a ++ chunk), parse_append]
      cases parseStreamingIncrement lib tools d a with
      | none => rfl
      | some first =>
          simp only [Option.bind_some, stream]
          cases parseStreamingIncrement lib tools first.2 chunk with
          | none => rfl
          | some second =>
              simp only [Option.bind_some, Option.map_some]
              cases stream lib tools second.2 chunks with
              | none => rfl
              | some rest => simp [add_assoc]

theorem stream_eq_parse (chunks : List (List Char)) :
    stream lib tools {} chunks = parseStreamingIncrement lib tools {} chunks.flatten := by
  have hnothing : parseStreamingIncrement lib tools {} [] = some (0, {}) := by
    rfl
  rw [← nil_append chunks.flatten, ← parse_stream, hnothing]
  simp

/-- Two calls leave the detector as the call on the concatenation does, and return its texts
and calls. So chunks that are given to a new detector are parsed as the whole output. -/
theorem streaming_independent_of_chunks (lib : JsonLibrary D) (tools : List (JsonTool D)) :
    (∀ (d : Detector) (a b : List Char),
      parseStreamingIncrement lib tools d (a ++ b) =
        (parseStreamingIncrement lib tools d a).bind fun first =>
          (parseStreamingIncrement lib tools first.2 b).map fun second =>
            (⟨first.1.normalText ++ second.1.normalText, first.1.calls ++ second.1.calls⟩,
              second.2)) ∧
    ∀ chunks : List (List Char),
      stream lib tools {} chunks = parseStreamingIncrement lib tools {} chunks.flatten :=
  ⟨fun d a b => parse_append d a b, fun chunks => stream_eq_parse chunks⟩

end Xllm.FunctionCall.Qwen3Coder
