import Mathlib.Tactic.Ring
import Xllm.Lib.RowMajor

/-!
# The all-to-all on four dimensions

`all_to_all_4D` turns sequence shards into head shards and back. The arguments and results of
all ranks of the process group are families over the ranks. What the function returns is called
once the exchange is over; an error of a tensor operation is `none`.
-/

namespace Xllm.ParallelState

open RowMajor List Option

universe u

variable {α : Type u}

/-- `all_to_all_single`: slice `s` along dimension 0 of what a rank gets is its slice of what
rank `s` has sent. -/
def allToAllSingle (worldSize : Nat) (inputs : Nat → Tensor α) (rank : Nat) : Tensor α where
  shape := (inputs rank).shape
  get
    | [] => (inputs rank).get []
    | i :: index =>
        let slice := (inputs rank).shape.headD 0 / worldSize
        (inputs (i / slice)).get ((rank * slice + i % slice) :: index)

def exchange (worldSize : Nat) (sent : Nat → Option (Tensor α)) (rank : Nat) :
    Option (Tensor α) := do
  let own ← sent rank
  if ∀ r < worldSize, (sent r).map Tensor.shape = some own.shape then
    some (allToAllSingle worldSize (fun r => (sent r).getD own) rank)
  else none

/-- What branch A, from sequence shards to head shards, sends. -/
def sendHeads (worldSize : Nat) (input : Tensor α) : Option (Tensor α) :=
  match input.shape with
  | [bs, shardSeqlen, headNum, headSize] =>
      if headNum % worldSize = 0 then
        (input.reshape [bs, shardSeqlen, worldSize, headNum / worldSize, headSize]).map
          (·.transpose 0 2)
      else none
  | _ => none

/-- What branch A makes of the answer. -/
def receiveHeads (worldSize : Nat) (input output : Tensor α) : Option (Tensor α) :=
  match input.shape with
  | [bs, shardSeqlen, headNum, headSize] => do
      let seqlen := shardSeqlen * worldSize
      let output ← output.reshape [seqlen, bs, headNum / worldSize, headSize]
      (output.transpose 0 1).reshape [bs, seqlen, headNum / worldSize, headSize]
  | _ => none

/-- What branch B, from head shards to sequence shards, sends. -/
def sendSequence (worldSize : Nat) (input : Tensor α) : Option (Tensor α) :=
  match input.shape with
  | [bs, seqlen, shardHeadNum, headSize] =>
      if seqlen % worldSize = 0 then
        (input.reshape [bs, worldSize, seqlen / worldSize, shardHeadNum, headSize]).map fun t =>
          (t.transpose 0 3).transpose 0 1
      else none
  | _ => none

/-- What branch B makes of the answer. -/
def receiveSequence (worldSize : Nat) (input output : Tensor α) : Option (Tensor α) :=
  match input.shape with
  | [bs, seqlen, shardHeadNum, headSize] => do
      let headNum := shardHeadNum * worldSize
      let output ← output.reshape [headNum, seqlen / worldSize, bs, headSize]
      (output.transpose 0 2).reshape [bs, seqlen / worldSize, headNum, headSize]
  | _ => none

/-- The function that is returned: it holds the result already, or finishes it when called. -/
def finish (asyncOps : Bool) (receive : Tensor α → Option (Tensor α)) (output : Tensor α) :
    Option (Unit → Option (Tensor α)) :=
  if asyncOps then some fun _ => receive output
  else (receive output).map fun output _ => some output

def allToAll4D (worldSize : Nat) (inputs : Nat → Tensor α) (scatterIdx gatherIdx : Nat)
    (asyncOps : Bool) (rank : Nat) : Option (Unit → Option (Tensor α)) :=
  if worldSize = 1 then some fun _ => some (inputs rank)
  else if scatterIdx = 2 ∧ gatherIdx = 1 then
    (exchange worldSize (fun r => sendHeads worldSize (inputs r)) rank).bind
      (finish asyncOps (receiveHeads worldSize (inputs rank)))
  else if scatterIdx = 1 ∧ gatherIdx = 2 then
    (exchange worldSize (fun r => sendSequence worldSize (inputs r)) rank).bind
      (finish asyncOps (receiveSequence worldSize (inputs rank)))
  else none

def result (returned : Option (Unit → Option (Tensor α))) : Option (Tensor α) :=
  returned.bind fun f => f ()

@[simp] theorem result_bind_finish (asyncOps : Bool) (receive : Tensor α → Option (Tensor α))
    (output : Option (Tensor α)) :
    result (output.bind (finish asyncOps receive)) = output.bind receive := by
  cases output with
  | none => rfl
  | some output =>
      cases asyncOps with
      | true => rfl
      | false =>
          change result ((receive output).map fun output _ => some output) = receive output
          cases receive output <;> rfl

def shard (dim worldSize : Nat) (whole : Tensor α) (rank : Nat) : Tensor α where
  shape := whole.shape.modify dim (· / worldSize)
  get index := whole.get (index.modify dim (rank * (whole.shape.getD dim 0 / worldSize) + ·))

variable {worldSize b s h d : Nat} {inputs : Nat → Tensor α}

/-- Every rank receives from each rank the block addressed to it. -/
theorem exchange_spec {sent : Nat → Option (Tensor α)} {shape : List Nat}
    {value : Nat → Nat → List Nat → α}
    (hsent : ∀ r < worldSize, ∃ u, sent r = some u ∧ u.shape = worldSize :: shape ∧
      ∀ i < worldSize, ∀ index, InRange shape index → u.get (i :: index) = value r i index)
    {rank : Nat} (hrank : rank < worldSize) :
    ∃ output, exchange worldSize sent rank = some output ∧ output.shape = worldSize :: shape ∧
      ∀ i < worldSize, ∀ index, InRange shape index →
        output.get (i :: index) = value i rank index := by
  obtain ⟨own, hown, hshape, -⟩ := hsent rank hrank
  have hsame : ∀ r < worldSize, (sent r).map Tensor.shape = some own.shape := by
    intro r hr
    obtain ⟨u, hu, hushape, -⟩ := hsent r hr
    rw [hu, hshape, ← hushape]
    rfl
  refine ⟨allToAllSingle worldSize (fun r => (sent r).getD own) rank, ?_, ?_, ?_⟩
  · simp only [exchange, hown]
    exact if_pos hsame
  · simp only [allToAllSingle, hown, getD_some, hshape]
  · intro i hi index hindex
    obtain ⟨u, hu, -, hget⟩ := hsent i hi
    have hone : worldSize / worldSize = 1 := Nat.div_self (Nat.zero_lt_of_lt hi)
    simp only [allToAllSingle, hown, getD_some, hshape, headD_cons, hone, Nat.div_one,
      Nat.mod_one, Nat.mul_one, hu]
    exact hget rank hrank index hindex

theorem exists_split {p : Nat} (hp : p < s * worldSize) :
    ∃ w j, w < worldSize ∧ j < s ∧ p = w * s + j := by
  have hs : 0 < s := Nat.pos_of_ne_zero fun h => by simp [h] at hp
  refine ⟨p / s, p % s, Nat.div_lt_of_lt_mul hp, Nat.mod_lt p hs, ?_⟩
  rw [Nat.mul_comm, Nat.div_add_mod]

theorem joined_lt {w j : Nat} (hw : w < worldSize) (hj : j < s) : w * s + j < s * worldSize := by
  have hle := Nat.mul_le_mul_right s (Nat.succ_le_of_lt hw)
  rw [Nat.succ_mul, Nat.mul_comm worldSize] at hle
  omega

/-- The heads split by rank and the ranks in front. -/
theorem sendHeads_spec {input : Tensor α} (hshape : input.shape = [b, s, h * worldSize, d])
    (hW : 0 < worldSize) :
    ∃ u, sendHeads worldSize input = some u ∧ u.shape = [worldSize, s, b, h, d] ∧
      ∀ w < worldSize, ∀ j < s, ∀ i < b, ∀ k < h, ∀ l < d,
        u.get [w, j, i, k, l] = input.get [i, j, w * h + k, l] := by
  have hdiv : h * worldSize / worldSize = h := Nat.mul_div_cancel h hW
  have hnumel : numel [b, s, worldSize, h, d] = numel input.shape := by
    rw [hshape]
    simp only [numel]
    ring
  obtain ⟨t, ht, htshape, hget⟩ := input.exists_reshape hnumel
  refine ⟨t.transpose 0 2, ?_, ?_, ?_⟩
  · simp only [sendHeads, hshape, Nat.mul_mod_left, if_true, hdiv, ht, map_some]
  · rw [Tensor.transpose, htshape]
    rfl
  · intro w hw j hj i hi k hk l hl
    have hhead := joined_lt hw hk
    apply hget [i, j, w, k, l]
    · rw [hshape, inRange_four]
      exact ⟨i, j, _, l, rfl, hi, hj, hhead, hl⟩
    · rw [hshape]
      simp only [ravel, numel]
      ring

/-- The sequence parts of all ranks joined in the order of the ranks. -/
theorem receiveHeads_spec {input output : Tensor α}
    (hshape : input.shape = [b, s, h * worldSize, d]) (hW : 0 < worldSize)
    (houtput : output.shape = [worldSize, s, b, h, d]) :
    ∃ t, receiveHeads worldSize input output = some t ∧ t.shape = [b, s * worldSize, h, d] ∧
      ∀ w < worldSize, ∀ j < s, ∀ i < b, ∀ k < h, ∀ l < d,
        t.get [i, w * s + j, k, l] = output.get [w, j, i, k, l] := by
  have hdiv : h * worldSize / worldSize = h := Nat.mul_div_cancel h hW
  have hnumel : numel [s * worldSize, b, h, d] = numel output.shape := by
    rw [houtput]
    simp only [numel]
    ring
  obtain ⟨u, t, hu, ht, htshape, hget⟩ := output.exists_turned 0 1 hnumel
  refine ⟨t, ?_, htshape, fun w hw j hj i hi k hk l hl => ?_⟩
  · simp only [receiveHeads, hshape, hdiv, hu]
    exact ht
  · apply hget
    · exact inRange_four.mpr ⟨i, _, k, l, rfl, hi, joined_lt hw hj, hk, hl⟩
    · rw [houtput]
      exact .cons hw (.cons hj (.cons hi (.cons hk (.cons hl .nil))))
    · rw [houtput]
      simp only [Tensor.swap, getD_cons_zero, getD_cons_succ, List.set, ravel, numel]
      ring

/-- The sequence split by rank and the ranks in front. -/
theorem sendSequence_spec {input : Tensor α} (hshape : input.shape = [b, s * worldSize, h, d])
    (hW : 0 < worldSize) :
    ∃ u, sendSequence worldSize input = some u ∧ u.shape = [worldSize, h, s, b, d] ∧
      ∀ w < worldSize, ∀ k < h, ∀ j < s, ∀ i < b, ∀ l < d,
        u.get [w, k, j, i, l] = input.get [i, w * s + j, k, l] := by
  have hdiv : s * worldSize / worldSize = s := Nat.mul_div_cancel s hW
  have hnumel : numel [b, worldSize, s, h, d] = numel input.shape := by
    rw [hshape]
    simp only [numel]
    ring
  obtain ⟨t, ht, htshape, hget⟩ := input.exists_reshape hnumel
  refine ⟨(t.transpose 0 3).transpose 0 1, ?_, ?_, ?_⟩
  · simp only [sendSequence, hshape, Nat.mul_mod_left, if_true, hdiv, ht, map_some]
  · simp only [Tensor.transpose, htshape]
    rfl
  · intro w hw k hk j hj i hi l hl
    apply hget [i, w, j, k, l]
    · rw [hshape, inRange_four]
      exact ⟨i, _, k, l, rfl, hi, joined_lt hw hj, hk, hl⟩
    · rw [hshape]
      simp only [ravel, numel]
      ring

/-- The heads of all ranks joined in the order of the ranks. -/
theorem receiveSequence_spec {input output : Tensor α}
    (hshape : input.shape = [b, s * worldSize, h, d]) (hW : 0 < worldSize)
    (houtput : output.shape = [worldSize, h, s, b, d]) :
    ∃ t, receiveSequence worldSize input output = some t ∧ t.shape = [b, s, h * worldSize, d] ∧
      ∀ w < worldSize, ∀ k < h, ∀ j < s, ∀ i < b, ∀ l < d,
        t.get [i, j, w * h + k, l] = output.get [w, k, j, i, l] := by
  have hdiv : s * worldSize / worldSize = s := Nat.mul_div_cancel s hW
  have hnumel : numel [h * worldSize, s, b, d] = numel output.shape := by
    rw [houtput]
    simp only [numel]
    ring
  obtain ⟨u, t, hu, ht, htshape, hget⟩ := output.exists_turned 0 2 hnumel
  refine ⟨t, ?_, htshape, fun w hw k hk j hj i hi l hl => ?_⟩
  · simp only [receiveSequence, hshape, hdiv, hu]
    exact ht
  · apply hget
    · exact inRange_four.mpr ⟨i, j, _, l, rfl, hi, hj, joined_lt hw hk, hl⟩
    · rw [houtput]
      exact .cons hw (.cons hk (.cons hj (.cons hi (.cons hl .nil))))
    · rw [houtput]
      simp only [Tensor.swap, getD_cons_zero, getD_cons_succ, List.set, ravel, numel]
      ring

variable {whole : Tensor α} {rank : Nat}

theorem shard_sequence (hwhole : whole.shape = [b, s * worldSize, h * worldSize, d])
    (hW : 0 < worldSize) :
    (shard 1 worldSize whole rank).shape = [b, s, h * worldSize, d] ∧ ∀ i j k l,
      (shard 1 worldSize whole rank).get [i, j, k, l] = whole.get [i, rank * s + j, k, l] := by
  have hdiv : s * worldSize / worldSize = s := Nat.mul_div_cancel s hW
  constructor
  · simp only [shard, hwhole, modify_succ_cons, modify_zero_cons, hdiv]
  · intro i j k l
    simp only [shard, hwhole, modify_succ_cons, modify_zero_cons, getD_cons_succ,
      getD_cons_zero, hdiv]

theorem shard_heads (hwhole : whole.shape = [b, s * worldSize, h * worldSize, d])
    (hW : 0 < worldSize) :
    (shard 2 worldSize whole rank).shape = [b, s * worldSize, h, d] ∧ ∀ i j k l,
      (shard 2 worldSize whole rank).get [i, j, k, l] = whole.get [i, j, rank * h + k, l] := by
  have hdiv : h * worldSize / worldSize = h := Nat.mul_div_cancel h hW
  constructor
  · simp only [shard, hwhole, modify_succ_cons, modify_zero_cons, hdiv]
  · intro i j k l
    simp only [shard, hwhole, modify_succ_cons, modify_zero_cons, getD_cons_succ,
      getD_cons_zero, hdiv]

theorem shards_of_one (hwhole : whole.shape = [b, s * 1, h * 1, d]) :
    (shard 1 1 whole 0).Same (shard 2 1 whole 0) := by
  obtain ⟨hshape, hget⟩ := @shard_sequence _ _ _ _ _ _ _ 0 hwhole Nat.zero_lt_one
  obtain ⟨hshape', hget'⟩ := @shard_heads _ _ _ _ _ _ _ 0 hwhole Nat.zero_lt_one
  refine ⟨hshape.trans (by rw [hshape', Nat.mul_one, Nat.mul_one]), fun index hindex => ?_⟩
  rw [hshape] at hindex
  obtain ⟨i, j, k, l, rfl, -⟩ := inRange_four.mp hindex
  rw [hget, hget', Nat.zero_mul, Nat.zero_mul, Nat.zero_add, Nat.zero_add]

theorem result_heads (hwhole : whole.shape = [b, s * worldSize, h * worldSize, d])
    (hinputs : ∀ r < worldSize, (inputs r).Same (shard 1 worldSize whole r))
    (hrank : rank < worldSize) (asyncOps : Bool) :
    ∃ t, result (allToAll4D worldSize inputs 2 1 asyncOps rank) = some t ∧
      t.Same (shard 2 worldSize whole rank) := by
  have hW := Nat.zero_lt_of_lt hrank
  rw [allToAll4D]
  by_cases hone : worldSize = 1
  · subst hone
    obtain rfl := Nat.lt_one_iff.mp hrank
    exact ⟨inputs 0, rfl, (hinputs 0 hW).trans (shards_of_one hwhole)⟩
  · rw [if_neg hone, if_pos ⟨rfl, rfl⟩, result_bind_finish]
    have hshape : ∀ r < worldSize, (inputs r).shape = [b, s, h * worldSize, d] := fun r hr =>
      (hinputs r hr).shape_eq.trans (shard_sequence hwhole hW).1
    have hsent : ∀ r < worldSize, ∃ u, sendHeads worldSize (inputs r) = some u ∧
        u.shape = worldSize :: [s, b, h, d] ∧ ∀ w < worldSize, ∀ index, InRange [s, b, h, d] index →
          u.get (w :: index) = whole.get [index.getD 1 0, r * s + index.getD 0 0,
            w * h + index.getD 2 0, index.getD 3 0] := by
      intro r hr
      obtain ⟨u, hu, hushape, hget⟩ := sendHeads_spec (hshape r hr) hW
      refine ⟨u, hu, hushape, fun w hw index hindex => ?_⟩
      obtain ⟨j, i, k, l, rfl, hj, hi, hk, hl⟩ := inRange_four.mp hindex
      rw [hget w hw j hj i hi k hk l hl, (hinputs r hr).get_eq, (shard_sequence hwhole hW).2]
      · rfl
      · rw [hshape r hr, inRange_four]
        exact ⟨i, j, _, l, rfl, hi, hj, joined_lt hw hk, hl⟩
    obtain ⟨output, hexchange, houtput, hvalue⟩ := exchange_spec hsent hrank
    obtain ⟨t, ht, htshape, hget⟩ := receiveHeads_spec (hshape rank hrank) hW houtput
    refine ⟨t, by rw [hexchange, bind_some, ht], ?_, fun index hindex => ?_⟩
    · exact htshape.trans (shard_heads hwhole hW).1.symm
    · rw [htshape] at hindex
      obtain ⟨i, p, k, l, rfl, hi, hp, hk, hl⟩ := inRange_four.mp hindex
      obtain ⟨w, j, hw, hj, rfl⟩ := exists_split hp
      rw [hget w hw j hj i hi k hk l hl, (shard_heads hwhole hW).2]
      exact hvalue w hw _ (inRange_four.mpr ⟨j, i, k, l, rfl, hj, hi, hk, hl⟩)

theorem result_sequence (hwhole : whole.shape = [b, s * worldSize, h * worldSize, d])
    (hinputs : ∀ r < worldSize, (inputs r).Same (shard 2 worldSize whole r))
    (hrank : rank < worldSize) (asyncOps : Bool) :
    ∃ t, result (allToAll4D worldSize inputs 1 2 asyncOps rank) = some t ∧
      t.Same (shard 1 worldSize whole rank) := by
  have hW := Nat.zero_lt_of_lt hrank
  rw [allToAll4D]
  by_cases hone : worldSize = 1
  · subst hone
    obtain rfl := Nat.lt_one_iff.mp hrank
    exact ⟨inputs 0, rfl, (hinputs 0 hW).trans (shards_of_one hwhole).symm⟩
  · rw [if_neg hone, if_neg (by decide), if_pos ⟨rfl, rfl⟩, result_bind_finish]
    have hshape : ∀ r < worldSize, (inputs r).shape = [b, s * worldSize, h, d] := fun r hr =>
      (hinputs r hr).shape_eq.trans (shard_heads hwhole hW).1
    have hsent : ∀ r < worldSize, ∃ u, sendSequence worldSize (inputs r) = some u ∧
        u.shape = worldSize :: [h, s, b, d] ∧ ∀ w < worldSize, ∀ index, InRange [h, s, b, d] index →
          u.get (w :: index) = whole.get [index.getD 2 0, w * s + index.getD 1 0,
            r * h + index.getD 0 0, index.getD 3 0] := by
      intro r hr
      obtain ⟨u, hu, hushape, hget⟩ := sendSequence_spec (hshape r hr) hW
      refine ⟨u, hu, hushape, fun w hw index hindex => ?_⟩
      obtain ⟨k, j, i, l, rfl, hk, hj, hi, hl⟩ := inRange_four.mp hindex
      rw [hget w hw k hk j hj i hi l hl, (hinputs r hr).get_eq, (shard_heads hwhole hW).2]
      · rfl
      · rw [hshape r hr, inRange_four]
        exact ⟨i, _, k, l, rfl, hi, joined_lt hw hj, hk, hl⟩
    obtain ⟨output, hexchange, houtput, hvalue⟩ := exchange_spec hsent hrank
    obtain ⟨t, ht, htshape, hget⟩ := receiveSequence_spec (hshape rank hrank) hW houtput
    refine ⟨t, by rw [hexchange, bind_some, ht], ?_, fun index hindex => ?_⟩
    · exact htshape.trans (shard_sequence hwhole hW).1.symm
    · rw [htshape] at hindex
      obtain ⟨i, j, p, l, rfl, hi, hj, hp, hl⟩ := inRange_four.mp hindex
      obtain ⟨w, k, hw, hk, rfl⟩ := exists_split hp
      rw [hget w hw k hk j hj i hi l hl, (shard_sequence hwhole hW).2]
      exact hvalue w hw _ (inRange_four.mpr ⟨k, j, i, l, rfl, hk, hj, hi, hl⟩)

theorem result_async (inputs : Nat → Tensor α) (scatterIdx gatherIdx rank : Nat) :
    result (allToAll4D worldSize inputs scatterIdx gatherIdx true rank) =
      result (allToAll4D worldSize inputs scatterIdx gatherIdx false rank) := by
  simp only [allToAll4D]
  split
  · rfl
  · split
    · rw [result_bind_finish, result_bind_finish]
    · split
      · rw [result_bind_finish, result_bind_finish]
      · rfl

/-- From sequence shards to head shards and back, with or without `async_ops`. -/
theorem allToAll4D_inverse {seqlen headNum : Nat} (hwhole : whole.shape = [b, seqlen, headNum, d])
    (hseqlen : worldSize ∣ seqlen) (hheadNum : worldSize ∣ headNum)
    (hinputs : ∀ r < worldSize, (inputs r).Same (shard 1 worldSize whole r)) :
    (∃ heads : Nat → Tensor α,
      (∀ r < worldSize, result (allToAll4D worldSize inputs 2 1 false r) = some (heads r) ∧
        (heads r).Same (shard 2 worldSize whole r)) ∧
      ∀ r < worldSize, ∃ back, result (allToAll4D worldSize heads 1 2 false r) = some back ∧
        back.Same (inputs r)) ∧
    ∀ (inputs : Nat → Tensor α) (scatterIdx gatherIdx r : Nat),
      result (allToAll4D worldSize inputs scatterIdx gatherIdx true r) =
        result (allToAll4D worldSize inputs scatterIdx gatherIdx false r) := by
  obtain ⟨s, rfl⟩ := exists_eq_mul_left_of_dvd hseqlen
  obtain ⟨h, rfl⟩ := exists_eq_mul_left_of_dvd hheadNum
  have hexists : ∀ r, ∃ t, r < worldSize →
      result (allToAll4D worldSize inputs 2 1 false r) = some t ∧
        t.Same (shard 2 worldSize whole r) := by
    intro r
    by_cases hr : r < worldSize
    · obtain ⟨t, ht⟩ := result_heads hwhole hinputs hr false
      exact ⟨t, fun _ => ht⟩
    · exact ⟨inputs r, fun h => absurd h hr⟩
  choose heads hheads using hexists
  refine ⟨⟨heads, hheads, fun r hr => ?_⟩, result_async⟩
  obtain ⟨back, hback, hshard⟩ :=
    result_sequence hwhole (fun r hr => (hheads r hr).2) hr false
  exact ⟨back, hback, hshard.trans (hinputs r hr).symm⟩

theorem allToAll4D_inverse_two :
    let whole : Tensor Nat := ⟨[2, 2, 2, 1], ravel [2, 2, 2, 1]⟩
    (∃ heads : Nat → Tensor Nat,
      (∀ r < 2, result (allToAll4D 2 (shard 1 2 whole) 2 1 false r) = some (heads r) ∧
        (heads r).Same (shard 2 2 whole r)) ∧
      ∀ r < 2, ∃ back, result (allToAll4D 2 heads 1 2 false r) = some back ∧
        back.Same (shard 1 2 whole r)) ∧
    ∀ (inputs : Nat → Tensor Nat) (scatterIdx gatherIdx r : Nat),
      result (allToAll4D 2 inputs scatterIdx gatherIdx true r) =
        result (allToAll4D 2 inputs scatterIdx gatherIdx false r) :=
  allToAll4D_inverse rfl (by decide) (by decide) fun _ _ => ⟨rfl, fun _ _ => rfl⟩

end Xllm.ParallelState
