import Mathlib.Data.List.Forall2
import Xllm.Eplb.EplbManager

/-!
# What a hand-over guarantees

A rebalance begins a round. `HandedOver` says that a layer is updated only behind a report
of every device for what it received in this round, that the layers of the round are updated
in their order without a gap, and that the layer in preparation can still become ready.

The manager reads what devices report as a layer id, and keeps the last id of each device.
An id from an earlier round counts when it is the first layer of the new one, and a layer
that waits for its update is not recalled. `QuietRebalance` excludes this for a rebalance.
Along runs whose rebalances are quiet every state is handed over properly.
-/

namespace Xllm.Eplb

open List Option

def enabledBelow (vec : List Bool) (n : Nat) : List Int :=
  ((List.range n).filter fun layer => vec[layer]? = some true).map Nat.cast

def enabledBefore (vec : List Bool) (layerId : Int) : List Int :=
  if layerId = -1 then enabledBelow vec vec.length else enabledBelow vec layerId.toNat

section Layers

variable {vec : List Bool} {start n k : Nat}

/-- The result is the first enabled layer from the start on, if there is one. -/
theorem findNextTrue_cases (vec : List Bool) (start : Nat) :
    (findNextTrue vec start = -1 ∧ ∀ j, start ≤ j → vec[j]? ≠ some true) ∨
      ∃ n : Nat, findNextTrue vec start = n ∧ start ≤ n ∧ vec[n]? = some true ∧
        ∀ j, start ≤ j → j < n → vec[j]? ≠ some true := by
  rw [findNextTrue]
  split
  · rename_i hle
    refine .inl ⟨rfl, fun j hj => ?_⟩
    rw [getElem?_eq_none (by omega)]
    exact nofun
  · split
    · rename_i k hk
      obtain ⟨hlt, htrue, hbefore⟩ := List.findIdx?_eq_some_iff_getElem.mp hk
      rw [length_drop] at hlt
      refine .inr ⟨start + k, rfl, Nat.le_add_right _ _, ?_, ?_⟩
      · rw [getElem_drop] at htrue
        rw [getElem?_eq_getElem (by omega)]
        exact congrArg some htrue
      · intro j hj hjk hsome
        have hfalse := hbefore (j - start) (by omega)
        rw [getElem_drop] at hfalse
        obtain ⟨hjlt, hget⟩ := List.getElem?_eq_some_iff.mp hsome
        have hsum : start + (j - start) = j := by omega
        simp only [hsum, hget] at hfalse
        exact hfalse rfl
    · rename_i hnone
      refine .inl ⟨rfl, fun j hj hsome => ?_⟩
      have hmem : true ∈ vec.drop start := by
        refine mem_of_getElem? (i := j - start) ?_
        rw [getElem?_drop, show start + (j - start) = j by omega, hsome]
      have hfalse := List.findIdx?_eq_none_iff.mp hnone true hmem
      exact Bool.noConfusion hfalse

@[simp] theorem enabledBelow_succ (vec : List Bool) (n : Nat) :
    enabledBelow vec (n + 1) =
      enabledBelow vec n ++ if vec[n]? = some true then [(n : Int)] else [] := by
  rw [enabledBelow, range_succ, filter_append, map_append]
  congr 1
  by_cases h : vec[n]? = some true
  · rw [if_pos h, filter_singleton, decide_eq_true h]
    rfl
  · rw [if_neg h, filter_singleton, decide_eq_false h]
    rfl

theorem enabledBelow_eq (hle : n ≤ k) (h : ∀ j, n ≤ j → j < k → vec[j]? ≠ some true) :
    enabledBelow vec k = enabledBelow vec n := by
  induction k, hle using Nat.le_induction with
  | base => rfl
  | succ k hk ih =>
      rw [enabledBelow_succ, if_neg (h k hk (Nat.lt_succ_self k)), append_nil,
        ih fun j hj hjk => h j hj (Nat.lt_succ_of_lt hjk)]

theorem enabledBefore_findNextTrue (hle : start ≤ vec.length) :
    enabledBefore vec (findNextTrue vec start) = enabledBelow vec start := by
  rcases findNextTrue_cases vec start with ⟨heq, hnone⟩ | ⟨n, heq, hn, -, hnone⟩
  · rw [heq]
    exact enabledBelow_eq hle fun j hj _ => hnone j hj
  · rw [heq]
    exact enabledBelow_eq hn hnone

end Layers

structure Current (round : Nat) (rows : List (List Int)) (layerId : Int) (task : Task) :
    Prop where
  round_eq : task.round = round
  layerId_eq : task.layerId = layerId
  expertIds_eq : rows[layerId.toNat]? = some task.expertIds

/-- A device and its entry in `prepared_layer_id`. -/
def World.slots (w : World) : List (Int × Device) := w.state.preparedLayerId.zip w.devices

/-- A world whose next info is safe. -/
structure HandedOver (w : World) : Prop where
  /-- A layer is updated when each device has reported the current task for it. -/
  prepared : ∀ info state, w.state.getEplbInfo = .ok (info, state) → info.updateLayerId ≠ -1 →
    ∀ d ∈ w.devices, ∃ task ∈ d.reported,
      Current w.round w.state.expertDistribution info.updateLayerId task
  /-- The updated layers and the one that is ready are the enabled layers in front of the one
  that is to be prepared. -/
  inOrder : w.updated ++ layerList w.state.readyLayerId =
    enabledBefore w.state.enableUpdateVec w.state.toBePrepared
  /-- The layer that is to be prepared is enabled. The next info names it, or each device
  counts as prepared or still has the current task for it. -/
  awaited : w.state.toBePrepared ≠ -1 →
    w.state.enableUpdateVec[w.state.toBePrepared.toNat]? = some true ∧
      ((∃ info state, w.state.getEplbInfo = .ok (info, state) ∧
          info.prepareLayerId = w.state.toBePrepared) ∨
        ∀ slot ∈ w.slots, slot.1 = w.state.toBePrepared ∨
          ∃ task ∈ slot.2.outstanding,
            Current w.round w.state.expertDistribution w.state.toBePrepared task)

/-- Nothing from before a rebalance can be taken for its first layer, and no layer waits for
its update. -/
def QuietRebalance (w : World) : EplbOp → Prop
  | .rebalance result =>
      let first := findNextTrue result.enableUpdateVec 0
      w.state.readyLayerId = -1 ∧
        (first ≠ -1 → w.state.preparingLayerId ≠ first ∧ first ∉ w.state.preparedLayerId ∧
          ∀ d ∈ w.devices, ∀ task ∈ d.outstanding, task.layerId ≠ first)
  | _ => True

instance (w : World) : (op : EplbOp) → Decidable (QuietRebalance w op)
  | .rebalance _ => inferInstanceAs (Decidable (_ ∧ (_ → _)))
  | .iterate | .getEplbInfo | .work _ | .output | .processEplbData => .isTrue trivial

/-- The device will report the current task for a layer behind tasks for other layers. -/
def Waits (round : Nat) (rows : List (List Int)) (layerId : Int) (d : Device) : Prop :=
  ∃ before task, d.outstanding = before ++ [task] ∧ Current round rows layerId task ∧
    ∀ other ∈ before, other.layerId ≠ layerId

def Reported (round : Nat) (rows : List (List Int)) (layerId : Int) (d : Device) : Prop :=
  ∃ task ∈ d.reported, Current round rows layerId task

def Sent (round : Nat) (rows : List (List Int)) (layerId : Int) (slot : Int × Device) : Prop :=
  (slot.1 ≠ layerId ∧ Waits round rows layerId slot.2) ∨
    (slot.1 = layerId ∧ slot.2.outstanding = [] ∧ Reported round rows layerId slot.2)

def Unaware (layerId : Int) (slot : Int × Device) : Prop :=
  slot.1 ≠ layerId ∧ ∀ task ∈ slot.2.outstanding, task.layerId ≠ layerId

section Devices

variable {round : Nat} {rows : List (List Int)} {layerId prepared : Int}
variable {d : Device} {task : Task}

@[simp] theorem outstanding_output : d.output.outstanding = d.outstanding := by
  rw [Device.output, Device.outstanding, Device.outstanding]
  cases d.readyLayerId with
  | none => simp
  | some task => simp

theorem outstanding_work (d : Device) : d.work.outstanding = d.outstanding ∨
    ∃ front lost rest, d.outstanding = front ++ lost :: rest ∧ rest ≠ [] ∧
      d.work.outstanding = front ++ rest := by
  obtain ⟨tasks, ready, outputs, reported⟩ := d
  cases tasks with
  | nil => exact .inl rfl
  | cons task tasks =>
      cases ready with
      | none =>
          refine .inl ?_
          simp only [Device.work, Device.outstanding, toList_some, toList_none,
            append_nil, append_assoc, singleton_append]
      | some lost =>
          refine .inr ⟨outputs.filterMap id, lost, task :: tasks, ?_, cons_ne_nil _ _, ?_⟩
          · simp only [Device.outstanding, toList_some, append_assoc,
              singleton_append]
          · simp only [Device.work, Device.outstanding, toList_some, append_assoc,
              singleton_append]

theorem mem_outstanding_work (h : task ∈ d.work.outstanding) : task ∈ d.outstanding := by
  rcases outstanding_work d with heq | ⟨front, lost, rest, heq, -, hwork⟩
  · rwa [heq] at h
  · rw [hwork, mem_append] at h
    rw [heq, mem_append, mem_cons]
    exact h.imp_right .inr

theorem outstanding_processed (d : Device) :
    d.outstanding = d.nextReport.toList ++ d.processed.outstanding := by
  obtain ⟨tasks, ready, outputs, reported⟩ := d
  cases outputs with
  | nil => rfl
  | cons first outputs =>
      cases first with
      | none => rfl
      | some task => rfl

theorem outstanding_eplbExecute (info : EplbInfo) (round : Nat) (d : Device) :
    (d.eplbExecute info round).outstanding = d.outstanding ++
      if info.prepareLayerId ≠ -1 then [⟨info.prepareLayerId, info.expertIds, round⟩] else [] := by
  rw [Device.eplbExecute]
  split
  · simp only [Device.outstanding, append_assoc]
  · rw [append_nil]

@[simp] theorem reported_work (d : Device) : d.work.reported = d.reported := by
  rw [Device.work]
  split
  · rfl
  · rfl

theorem Waits.work (h : Waits round rows layerId d) : Waits round rows layerId d.work := by
  obtain ⟨before, task, heq, hcurrent, hbefore⟩ := h
  rcases outstanding_work d with hsame | ⟨front, lost, rest, hlost, hrest, hwork⟩
  · exact ⟨before, task, hsame.trans heq, hcurrent, hbefore⟩
  · have hsplit : before ++ [task] =
        (front ++ lost :: rest.dropLast) ++ [rest.getLast hrest] := by
      rw [← heq, hlost, append_assoc, cons_append, dropLast_append_getLast hrest]
    obtain ⟨rfl, hlast⟩ := append_inj' hsplit rfl
    obtain rfl := (List.cons.inj hlast).1
    refine ⟨front ++ rest.dropLast, rest.getLast hrest, ?_, hcurrent, ?_⟩
    · rw [hwork, append_assoc, dropLast_append_getLast hrest]
    · intro other hother
      refine hbefore other ?_
      rw [mem_append] at hother ⊢
      exact hother.imp_right (mem_cons_of_mem _)

theorem Sent.work (h : Sent round rows layerId (prepared, d)) :
    Sent round rows layerId (prepared, d.work) := by
  rcases h with ⟨hne, hwaits⟩ | ⟨heq, hnone, hreported⟩
  · exact .inl ⟨hne, hwaits.work⟩
  · refine .inr ⟨heq, ?_, ?_⟩
    · rw [eq_nil_iff_forall_not_mem]
      intro task hmem
      have hold : task ∈ d.outstanding := mem_outstanding_work hmem
      rw [show d.outstanding = [] from hnone] at hold
      exact not_mem_nil hold
    · obtain ⟨task, hmem, hcurrent⟩ := hreported
      exact ⟨task, (reported_work d).symm ▸ hmem, hcurrent⟩

theorem Sent.output (h : Sent round rows layerId (prepared, d)) :
    Sent round rows layerId (prepared, d.output) := by
  rw [Sent, Waits, outstanding_output]
  exact h

def entryOf (layerId : Int) (slot : Int × Device) : Int :=
  if layerIdOf slot.2.nextReport = layerId then layerIdOf slot.2.nextReport else slot.1

/-- A report of an earlier task says another layer, the report of the task for this layer is
the last one. -/
theorem Sent.processed (hlayer : layerId ≠ -1) (h : Sent round rows layerId (prepared, d)) :
    Sent round rows layerId (entryOf layerId (prepared, d), d.processed) := by
  have hsplit := outstanding_processed d
  rw [entryOf]
  cases hreport : d.nextReport with
  | none =>
      rw [hreport] at hsplit
      have hsame : d.processed.outstanding = d.outstanding := hsplit.symm
      have hreported : d.processed.reported = d.reported := by
        rw [Device.processed, hreport, toList_none, append_nil]
      rw [if_neg (show layerIdOf none ≠ layerId from hlayer.symm), Sent, Waits, Reported, hsame,
        hreported]
      exact h
  | some task =>
      rw [hreport] at hsplit
      have hreported : d.processed.reported = d.reported ++ [task] := by
        rw [Device.processed, hreport, toList_some]
      rcases h with ⟨hne, before, last, heq, hcurrent, hbefore⟩ | ⟨heq, hnone, -⟩
      · rw [hsplit] at heq
        cases before with
        | nil =>
            obtain ⟨rfl, hrest⟩ := List.cons.inj heq
            rw [if_pos (show layerIdOf (some task) = layerId from hcurrent.layerId_eq)]
            refine .inr ⟨hcurrent.layerId_eq, hrest, task, ?_, hcurrent⟩
            rw [hreported]
            exact mem_append_right _ (mem_singleton_self _)
        | cons other before =>
            obtain ⟨rfl, hrest⟩ := List.cons.inj heq
            rw [if_neg (show layerIdOf (some task) ≠ layerId from
              hbefore task mem_cons_self)]
            exact .inl ⟨hne, before, last, hrest, hcurrent,
              fun other hother => hbefore other (mem_cons_of_mem _ hother)⟩
      · rw [hsplit] at hnone
        exact absurd hnone (cons_ne_nil _ _)

theorem Unaware.work (h : Unaware layerId (prepared, d)) : Unaware layerId (prepared, d.work) :=
  ⟨h.1, fun task hmem => h.2 task (mem_outstanding_work hmem)⟩

theorem Unaware.output (h : Unaware layerId (prepared, d)) :
    Unaware layerId (prepared, d.output) := by
  rw [Unaware, outstanding_output]
  exact h

theorem Unaware.processed (hlayer : layerId ≠ -1) (h : Unaware layerId (prepared, d)) :
    Unaware layerId (entryOf layerId (prepared, d), d.processed) := by
  have hsplit := outstanding_processed d
  obtain ⟨hne, htasks⟩ := h
  rw [hsplit] at htasks
  refine ⟨?_, fun task hmem => htasks task (mem_append_right _ hmem)⟩
  rw [entryOf]
  cases hreport : d.nextReport with
  | none =>
      rw [if_neg (show layerIdOf none ≠ layerId from hlayer.symm)]
      exact hne
  | some task =>
      rw [hreport] at htasks
      have hother : task.layerId ≠ layerId := htasks task (mem_append_left _
        (mem_singleton_self _))
      rw [if_neg (show layerIdOf (some task) ≠ layerId from hother)]
      exact hne

theorem Unaware.sent {expertIds : List Int} {updateLayerId : Int} (hlayer : layerId ≠ -1)
    (hrow : rows[layerId.toNat]? = some expertIds) (h : Unaware layerId (prepared, d)) :
    Sent round rows layerId
      (prepared, d.eplbExecute ⟨layerId, expertIds, updateLayerId⟩ round) := by
  refine .inl ⟨h.1, d.outstanding, ⟨layerId, expertIds, round⟩, ?_, ⟨rfl, rfl, hrow⟩, h.2⟩
  rw [outstanding_eplbExecute, if_pos hlayer]

theorem Reported.processed (h : Reported round rows layerId d) :
    Reported round rows layerId d.processed := by
  obtain ⟨task, hmem, hcurrent⟩ := h
  exact ⟨task, mem_append_left _ hmem, hcurrent⟩

end Devices

/-- What holds between the steps of a run. -/
structure Inv (w : World) : Prop where
  length_eq : w.state.preparedLayerId.length = w.devices.length
  devices_ne : w.devices ≠ []
  rows_le : w.state.enableUpdateVec.length ≤ w.state.expertDistribution.length
  target : w.state.toBePrepared ≠ -1 → 0 ≤ w.state.toBePrepared ∧
    w.state.enableUpdateVec[w.state.toBePrepared.toNat]? = some true
  inOrder : w.updated ++ layerList w.state.readyLayerId =
    enabledBefore w.state.enableUpdateVec w.state.toBePrepared
  ready : w.state.readyLayerId ≠ -1 →
    ∀ d ∈ w.devices, Reported w.round w.state.expertDistribution w.state.readyLayerId d
  unaware : w.state.toBePrepared ≠ -1 → w.state.preparingLayerId ≠ w.state.toBePrepared →
    ∀ slot ∈ w.slots, Unaware w.state.toBePrepared slot
  sent : w.state.toBePrepared ≠ -1 → w.state.preparingLayerId = w.state.toBePrepared →
    w.state.readyLayerId = -1 ∧
      ∀ slot ∈ w.slots, Sent w.round w.state.expertDistribution w.state.toBePrepared slot

theorem mem_zip_modify {α β : Type} {P : α × β → Prop} {f : β → β} {as : List α} {bs : List β}
    (i : Nat) (hf : ∀ a b, P (a, b) → P (a, f b)) (h : ∀ ab ∈ as.zip bs, P ab) :
    ∀ ab ∈ as.zip (bs.modify i f), P ab := by
  induction bs generalizing as i with
  | nil => rwa [modify_nil]
  | cons b bs ih =>
      cases as with
      | nil => exact forall_mem_nil _
      | cons a as =>
          obtain ⟨hhead, htail⟩ := List.forall_mem_cons.mp h
          cases i with
          | zero => exact List.forall_mem_cons.mpr ⟨hf a b hhead, htail⟩
          | succ i => exact List.forall_mem_cons.mpr ⟨hhead, ih i htail⟩

theorem mem_zip_map {α β : Type} {P Q : α × β → Prop} {f : β → β} {as : List α} {bs : List β}
    (hf : ∀ a b, P (a, b) → Q (a, f b)) (h : ∀ ab ∈ as.zip bs, P ab) :
    ∀ ab ∈ as.zip (bs.map f), Q ab := by
  rw [zip_map_right]
  intro ab hab
  obtain ⟨⟨a, b⟩, hmem, rfl⟩ := List.mem_map.mp hab
  exact hf a b (h _ hmem)

theorem zip_setPrepared {layerId : Int} {entries : List Int} {devices : List Device}
    (hlength : entries.length = devices.length) :
    (List.zipWith (fun id prepared => if id = layerId then id else prepared)
        (devices.map (layerIdOf ·.nextReport)) entries ++
      entries.drop (devices.map (layerIdOf ·.nextReport)).length).zip
        (devices.map Device.processed) =
      (entries.zip devices).map fun slot => (entryOf layerId slot, slot.2.processed) := by
  have hdrop : entries.drop (devices.map (layerIdOf ·.nextReport)).length = [] :=
    drop_eq_nil_of_le (by rw [length_map]; omega)
  rw [hdrop, append_nil]
  induction devices generalizing entries with
  | nil => simp only [map_nil, zip_nil_right]
  | cons d devices ih =>
      cases entries with
      | nil => cases hlength
      | cons entry entries =>
          have hrest : entries.length = devices.length := Nat.succ.inj hlength
          have htail := ih hrest
            (drop_eq_nil_of_le (by rw [length_map]; omega))
          rw [map_cons, map_cons, zipWith_cons_cons, zip_cons_cons, htail]
          rfl

namespace Inv

variable {w : World}

theorem exists_slot (h : Inv w) {d : Device} (hd : d ∈ w.devices) :
    ∃ prepared ∈ w.state.preparedLayerId, (prepared, d) ∈ w.slots := by
  obtain ⟨i, hi, rfl⟩ := getElem_of_mem hd
  have hi' : i < w.state.preparedLayerId.length := h.length_eq ▸ hi
  refine ⟨w.state.preparedLayerId[i], getElem_mem hi', ?_⟩
  rw [← getElem_zip (h := by rw [length_zip]; omega)]
  exact getElem_mem _

theorem exists_device (h : Inv w) {prepared : Int} (hp : prepared ∈ w.state.preparedLayerId) :
    ∃ d ∈ w.devices, (prepared, d) ∈ w.slots := by
  obtain ⟨i, hi, rfl⟩ := getElem_of_mem hp
  have hi' : i < w.devices.length := h.length_eq ▸ hi
  refine ⟨w.devices[i], getElem_mem hi', ?_⟩
  rw [← getElem_zip (h := by rw [length_zip]; omega)]
  exact getElem_mem _

theorem preparedLayerId_ne (h : Inv w) : w.state.preparedLayerId ≠ [] := by
  have hpos := List.length_pos_iff.mpr h.devices_ne
  rw [← h.length_eq] at hpos
  exact List.length_pos_iff.mp hpos

theorem sent_of_all (h : Inv w) (htarget : w.state.toBePrepared ≠ -1)
    (hall : ∀ prepared ∈ w.state.preparedLayerId, prepared = w.state.toBePrepared) :
    w.state.preparingLayerId = w.state.toBePrepared := by
  by_contra hne
  obtain ⟨prepared, hp⟩ := exists_mem_of_ne_nil _ h.preparedLayerId_ne
  obtain ⟨d, -, hslot⟩ := h.exists_device hp
  exact (h.unaware htarget hne _ hslot).1 (hall prepared hp)

/-- All devices have reported: the layer is ready, and the next one is new to them. -/
theorem iterate (h : Inv w) : Inv { w with state := w.state.iterate } := by
  rw [EplbState.iterate]
  split
  · rename_i hnonneg
    split
    · rename_i hbeq
      have hall : ∀ prepared ∈ w.state.preparedLayerId, prepared = w.state.toBePrepared := by
        simpa only [List.all_eq_true, beq_iff_eq] using hbeq
      have htarget : w.state.toBePrepared ≠ -1 := by omega
      have hpreparing := h.sent_of_all htarget hall
      obtain ⟨hready, hsent⟩ := h.sent htarget hpreparing
      -- Every device has nothing left to report.
      have hdone : ∀ slot ∈ w.slots, slot.2.outstanding = [] ∧
          Reported w.round w.state.expertDistribution w.state.toBePrepared slot.2 := by
        intro slot hslot
        rcases hsent slot hslot with ⟨hne, -⟩ | ⟨-, hnone, hreported⟩
        · exact absurd (hall _ (of_mem_zip hslot).1) hne
        · exact ⟨hnone, hreported⟩
      obtain ⟨n, hn⟩ := Int.eq_ofNat_of_zero_le hnonneg
      have henabled : w.state.enableUpdateVec[n]? = some true := by
        rw [← Int.toNat_natCast n, ← hn]
        exact (h.target htarget).2
      have hlt := (List.getElem?_eq_some_iff.mp henabled).1
      have hstart : (w.state.toBePrepared + 1).toNat = n + 1 := by omega
      have hbefore : enabledBefore w.state.enableUpdateVec w.state.toBePrepared =
          enabledBelow w.state.enableUpdateVec n := by
        rw [enabledBefore, if_neg htarget, hn, Int.toNat_natCast]
      have horder : w.updated = enabledBelow w.state.enableUpdateVec n := by
        rw [← hbefore, ← h.inOrder, hready, layerList, if_pos rfl, append_nil]
      have hnext := findNextTrue_cases w.state.enableUpdateVec (n + 1)
      rw [← hstart] at hnext
      refine
        { length_eq := h.length_eq
          devices_ne := h.devices_ne
          rows_le := h.rows_le
          target := ?_, inOrder := ?_, ready := ?_, unaware := ?_, sent := ?_ }
      · intro hne
        rcases hnext with ⟨heq, -⟩ | ⟨k, heq, -, htrue, -⟩
        · exact absurd heq hne
        · change 0 ≤ findNextTrue _ _ ∧ w.state.enableUpdateVec[(findNextTrue _ _).toNat]? = _
          rw [heq]
          exact ⟨Int.natCast_nonneg k, htrue⟩
      · change w.updated ++ layerList w.state.toBePrepared = enabledBefore _ (findNextTrue _ _)
        rw [hstart, enabledBefore_findNextTrue hlt, enabledBelow_succ, if_pos henabled, horder,
          layerList, if_neg htarget, hn]
      · intro _ d hd
        obtain ⟨prepared, -, hslot⟩ := h.exists_slot hd
        exact (hdone _ hslot).2
      · intro hne _ slot hslot
        rcases hnext with ⟨heq, -⟩ | ⟨k, heq, hk, -, -⟩
        · exact absurd heq hne
        · refine ⟨?_, ?_⟩
          · change slot.1 ≠ findNextTrue _ _
            rw [hall _ (of_mem_zip hslot).1]
            omega
          · rw [(hdone slot hslot).1]
            exact forall_mem_nil _
      · intro hne hsame
        rcases hnext with ⟨heq, -⟩ | ⟨k, heq, hk, -, -⟩
        · exact absurd heq hne
        · have hkept : w.state.preparingLayerId = findNextTrue w.state.enableUpdateVec
              (w.state.toBePrepared + 1).toNat := (if_neg hne).symm.trans hsame
          omega
    · exact h
  · exact h

theorem of_devices (h : Inv w) {f : Device → Device} (hreported : ∀ d, (f d).reported = d.reported)
    {devices : List Device} (hlength : devices.length = w.devices.length)
    (hmem : ∀ d ∈ devices, ∃ d' ∈ w.devices, d = d' ∨ d = f d')
    (hunaware : ∀ layerId, (∀ slot ∈ w.slots, Unaware layerId slot) →
      ∀ slot ∈ w.state.preparedLayerId.zip devices, Unaware layerId slot)
    (hsent : ∀ layerId, (∀ slot ∈ w.slots, Sent w.round w.state.expertDistribution layerId slot) →
      ∀ slot ∈ w.state.preparedLayerId.zip devices,
        Sent w.round w.state.expertDistribution layerId slot) :
    Inv { w with devices } := by
  have hne : devices ≠ [] := by
    rw [← length_pos_iff, hlength, length_pos_iff]
    exact h.devices_ne
  refine ⟨h.length_eq.trans hlength.symm, hne, h.rows_le, h.target, h.inOrder, ?_,
    fun htarget hpreparing => hunaware _ (h.unaware htarget hpreparing),
    fun htarget hpreparing => (h.sent htarget hpreparing).imp_right (hsent _)⟩
  intro hready d hd
  obtain ⟨d', hd', heq⟩ := hmem d hd
  obtain ⟨task, htask, hcurrent⟩ := h.ready hready d' hd'
  refine ⟨task, ?_, hcurrent⟩
  rcases heq with rfl | rfl
  · exact htask
  · rwa [hreported]

theorem work (h : Inv w) (i : Nat) : Inv { w with devices := w.devices.modify i Device.work } := by
  refine h.of_devices reported_work (length_modify _ _ _) ?_ ?_ ?_
  · intro d hd
    obtain ⟨j, hj⟩ := mem_iff_getElem?.mp hd
    rw [getElem?_modify] at hj
    obtain ⟨d', hd', heq⟩ := Option.map_eq_some_iff.mp hj
    refine ⟨d', mem_of_getElem? hd', ?_⟩
    split at heq
    · exact .inr heq.symm
    · exact .inl heq.symm
  · exact fun layerId hall => mem_zip_modify i (fun _ _ hslot => hslot.work) hall
  · exact fun layerId hall => mem_zip_modify i (fun _ _ hslot => hslot.work) hall

theorem output (h : Inv w) : Inv { w with devices := w.devices.map Device.output } := by
  refine h.of_devices (f := Device.output) (fun _ => rfl) (length_map _) ?_ ?_ ?_
  · intro d hd
    obtain ⟨d', hd', rfl⟩ := List.mem_map.mp hd
    exact ⟨d', hd', .inr rfl⟩
  · exact fun layerId hall => mem_zip_map (fun _ _ hslot => hslot.output) hall
  · exact fun layerId hall => mem_zip_map (fun _ _ hslot => hslot.output) hall

/-- The reports are taken by layer id, and only for the layer to be prepared. -/
theorem processEplbData (h : Inv w) :
    Inv { w with
      state := w.state.setPreparedLayerIds (w.devices.map (layerIdOf ·.nextReport))
      devices := w.devices.map Device.processed } := by
  have hslots : ∀ slot ∈ World.slots { w with
      state := w.state.setPreparedLayerIds (w.devices.map (layerIdOf ·.nextReport))
      devices := w.devices.map Device.processed },
      ∃ old ∈ w.slots, slot = (entryOf w.state.toBePrepared old, old.2.processed) := by
    intro slot hslot
    have hmem := (zip_setPrepared h.length_eq).subst (motive := fun slots => slot ∈ slots)
      hslot
    obtain ⟨old, hold, heq⟩ := List.mem_map.mp hmem
    exact ⟨old, hold, heq.symm⟩
  refine
    { length_eq := ?_
      devices_ne := fun hnil => h.devices_ne (List.map_eq_nil_iff.mp hnil)
      rows_le := h.rows_le
      target := h.target
      inOrder := h.inOrder
      ready := ?_, unaware := ?_, sent := ?_ }
  · have hlength := h.length_eq
    simp only [EplbState.setPreparedLayerIds, length_append, length_zipWith,
      length_drop, length_map]
    omega
  · intro hready d hd
    obtain ⟨d', hd', rfl⟩ := List.mem_map.mp hd
    exact (h.ready hready d' hd').processed
  · intro htarget hpreparing slot hslot
    obtain ⟨⟨prepared, d⟩, hmem, rfl⟩ := hslots slot hslot
    exact (h.unaware htarget hpreparing _ hmem).processed htarget
  · intro htarget hpreparing
    obtain ⟨hready, hsent⟩ := h.sent htarget hpreparing
    refine ⟨hready, ?_⟩
    intro slot hslot
    obtain ⟨⟨prepared, d⟩, hmem, rfl⟩ := hslots slot hslot
    exact (hsent _ hmem).processed htarget

theorem rebalance (h : Inv w) (result : Rebalanced)
    (hquiet : QuietRebalance w (.rebalance result)) :
    Inv { w with state := w.state.rebalance result, round := w.round + 1, updated := [] } := by
  obtain ⟨hready, hfirst⟩ := hquiet
  have hcases := findNextTrue_cases result.enableUpdateVec 0
  refine
    { length_eq := h.length_eq
      devices_ne := h.devices_ne
      rows_le := result.rows_eq.ge
      target := ?_, inOrder := ?_, ready := fun hne => absurd hready hne, unaware := ?_
      sent := fun hne hsame => absurd hsame (hfirst hne).1 }
  · intro hne
    rcases hcases with ⟨heq, -⟩ | ⟨k, heq, -, htrue, -⟩
    · exact absurd heq hne
    · change 0 ≤ findNextTrue _ _ ∧ result.enableUpdateVec[(findNextTrue _ _).toNat]? = _
      rw [heq]
      exact ⟨Int.natCast_nonneg k, htrue⟩
  · change layerList w.state.readyLayerId =
      enabledBefore result.enableUpdateVec (findNextTrue result.enableUpdateVec 0)
    rw [hready, enabledBefore_findNextTrue (Nat.zero_le _)]
    rfl
  · intro hne _ slot hslot
    obtain ⟨-, hprepared, htasks⟩ := hfirst hne
    obtain ⟨hentry, hd⟩ := of_mem_zip hslot
    refine ⟨fun heq => hprepared ?_, htasks _ hd⟩
    rwa [show slot.1 = findNextTrue result.enableUpdateVec 0 from heq] at hentry

theorem exists_row (h : Inv w) (htarget : w.state.toBePrepared ≠ -1) :
    ∃ expertIds, w.state.expertDistribution[w.state.toBePrepared.toNat]? = some expertIds := by
  have hlt := (List.getElem?_eq_some_iff.mp (h.target htarget).2).1
  exact ⟨_, getElem?_eq_getElem (Nat.lt_of_lt_of_le hlt h.rows_le)⟩

theorem getEplbInfo_cases (h : Inv w) :
    (w.state.toBePrepared ≠ -1 ∧ w.state.preparingLayerId ≠ w.state.toBePrepared ∧
      ∃ expertIds, w.state.expertDistribution[w.state.toBePrepared.toNat]? = some expertIds ∧
        w.state.getEplbInfo = .ok (⟨w.state.toBePrepared, expertIds, w.state.readyLayerId⟩,
          { w.state with preparingLayerId := w.state.toBePrepared, readyLayerId := -1 })) ∨
    ((w.state.toBePrepared = -1 ∨ w.state.preparingLayerId = w.state.toBePrepared) ∧
      w.state.getEplbInfo = .ok ({ updateLayerId := w.state.readyLayerId },
        { w.state with readyLayerId := -1 })) := by
  rw [EplbState.getEplbInfo]
  by_cases hissue : w.state.preparingLayerId ≠ w.state.toBePrepared ∧ w.state.toBePrepared ≠ -1
  · obtain ⟨expertIds, hrow⟩ := h.exists_row hissue.2
    refine .inl ⟨hissue.2, hissue.1, expertIds, hrow, ?_⟩
    rw [if_pos hissue, hrow]
  · refine .inr ⟨?_, if_neg hissue⟩
    by_cases htarget : w.state.toBePrepared = -1
    · exact .inl htarget
    · exact .inr (not_not.mp fun hne => hissue ⟨hne, htarget⟩)

/-- The info takes the ready layer away, and names the next one when it is new. -/
theorem getEplbInfo (h : Inv w) : Contract.Ensures (w.step .getEplbInfo) (fun _ => False) Inv := by
  rw [World.step]
  have hlength : ∀ info, (w.devices.map (Device.eplbExecute info w.round)).length =
      w.devices.length := fun info => length_map _
  have horder : w.updated ++ layerList w.state.readyLayerId ++ layerList (-1) =
      enabledBefore w.state.enableUpdateVec w.state.toBePrepared := by
    rw [h.inOrder]
    exact append_nil _
  rcases h.getEplbInfo_cases with ⟨htarget, hnew, expertIds, hrow, hinfo⟩ | ⟨hold, hinfo⟩
  · rw [hinfo]
    exact
      { length_eq := h.length_eq.trans (hlength _).symm
        devices_ne := fun hnil => h.devices_ne (List.map_eq_nil_iff.mp hnil)
        rows_le := h.rows_le
        target := h.target
        inOrder := horder
        ready := fun hne => absurd rfl hne
        unaware := fun _ hne => absurd rfl hne
        sent := fun _ _ => ⟨rfl, mem_zip_map (fun _ _ hslot => hslot.sent htarget hrow)
          (h.unaware htarget hnew)⟩ }
  · rw [hinfo]
    have hsame : ∀ d : Device, d.eplbExecute { updateLayerId := w.state.readyLayerId } w.round =
        d := fun d => if_neg (not_not.mpr rfl)
    have hdevices : w.devices.map
        (Device.eplbExecute { updateLayerId := w.state.readyLayerId } w.round) = w.devices :=
      (map_congr_left fun d _ => hsame d).trans (List.map_id _)
    change Inv { w with
      state := { w.state with readyLayerId := -1 }
      devices := w.devices.map (Device.eplbExecute _ w.round)
      updated := _ }
    rw [hdevices]
    exact
      { length_eq := h.length_eq
        devices_ne := h.devices_ne
        rows_le := h.rows_le
        target := h.target
        inOrder := horder
        ready := fun hne => absurd rfl hne
        unaware := h.unaware
        sent := fun htarget hpreparing => ⟨rfl, (h.sent htarget hpreparing).2⟩ }

theorem step (h : Inv w) (op : EplbOp) (hquiet : QuietRebalance w op) :
    Contract.Ensures (w.step op) (fun _ => False) Inv := by
  cases op with
  | rebalance result => exact h.rebalance result hquiet
  | iterate => exact h.iterate
  | getEplbInfo => exact h.getEplbInfo
  | work device => exact h.work device
  | output => exact h.output
  | processEplbData => exact h.processEplbData

theorem init {expertDistribution : List (List Int)} {deviceNum : Nat} (hpos : 0 < deviceNum) :
    Inv (World.init expertDistribution deviceNum) where
  length_eq := by
    rw [World.init, EplbState.init, length_replicate, length_replicate]
  devices_ne := by
    rw [World.init, ← length_pos_iff, length_replicate]
    exact hpos
  rows_le := Nat.zero_le _
  target := fun hne => absurd rfl hne
  inOrder := rfl
  ready := fun hne => absurd rfl hne
  unaware := fun hne => absurd rfl hne
  sent := fun hne => absurd rfl hne

theorem handedOver (h : Inv w) : HandedOver w where
  prepared := by
    intro info state hinfo hne
    have hready : info.updateLayerId = w.state.readyLayerId := by
      rcases h.getEplbInfo_cases with ⟨-, -, expertIds, -, heq⟩ | ⟨-, heq⟩
      · obtain ⟨rfl, -⟩ := Prod.mk.inj (Except.ok.inj (hinfo.symm.trans heq))
        rfl
      · obtain ⟨rfl, -⟩ := Prod.mk.inj (Except.ok.inj (hinfo.symm.trans heq))
        rfl
    rw [hready] at hne ⊢
    exact h.ready hne
  inOrder := h.inOrder
  awaited := by
    intro htarget
    refine ⟨(h.target htarget).2, ?_⟩
    rcases h.getEplbInfo_cases with ⟨-, -, expertIds, -, heq⟩ | ⟨hold, -⟩
    · exact .inl ⟨_, _, heq, rfl⟩
    · refine .inr fun slot hslot => ?_
      rcases (h.sent htarget (hold.resolve_left htarget)).2 slot hslot with
        ⟨-, before, task, heq, hcurrent, -⟩ | ⟨heq, -⟩
      · exact .inr ⟨task, heq ▸ mem_append_right _ (mem_singleton_self _), hcurrent⟩
      · exact .inl heq

end Inv

/-- Along a run whose rebalances are quiet no step fails, and every layer is handed over
properly in every state. -/
theorem run_handedOver (expertDistribution : List (List Int)) {deviceNum : Nat}
    (hpos : 0 < deviceNum) (ops : List EplbOp)
    (hquiet : Contract.Along World.step QuietRebalance
      (World.init expertDistribution deviceNum) ops) :
    Contract.Ensures (Contract.run World.step (World.init expertDistribution deviceNum) ops)
      (fun _ => False) HandedOver :=
  (hquiet.ensures_run (fun _ op h hC => h.step op hC) (Inv.init hpos)).mono_post
    fun _ h => h.handedOver

def oneLayer (expert : Int) : Rebalanced := ⟨[[expert]], [true], rfl⟩

/-- The layer is sent, prepared, reported and becomes ready. -/
def handOverOps : List EplbOp := [.getEplbInfo, .work 0, .output, .processEplbData, .iterate]

def twoLayers (experts : List Int) : Rebalanced := ⟨[experts, experts], [true, true], rfl⟩

/-- A layer is sent to two devices, and the manager waits for both reports. -/
def handOverLayer : List EplbOp :=
  [.getEplbInfo, .work 1, .output, .processEplbData, .iterate, .work 0, .getEplbInfo, .output,
    .processEplbData, .iterate]

/-- Two layers of two devices are handed over, then one of the next placement. -/
theorem run_handedOver_two_layers :
    Contract.Ensures (Contract.run World.step (World.init [[0, 1], [0, 1]] 2)
      ([.rebalance (twoLayers [1, 0])] ++ handOverLayer ++ handOverLayer ++
        [.getEplbInfo, .output, .processEplbData, .rebalance (twoLayers [0, 1])] ++
        handOverLayer)) (fun _ => False) HandedOver := by
  refine run_handedOver [[0, 1], [0, 1]] ?_ _ ?_
  · decide
  · decide +kernel

/-- Without an output between the rounds the entry of the device stays, and the layer is named
for an update with experts that no device has received. -/
theorem stale_layer_updated :
    ∃ w, Contract.run World.step (World.init [[0]] 1)
        ([.rebalance (oneLayer 1)] ++ handOverOps ++ [.getEplbInfo] ++
          [.rebalance (oneLayer 2), .iterate]) = .ok w ∧
      w.state.getEplbInfo.map (·.1.updateLayerId) = .ok 0 ∧
      (w.devices.map fun d => (d.reported ++ d.outstanding).map Task.expertIds) = [[[1]]] ∧
      w.state.expertDistribution = [[2]] ∧ ¬ HandedOver w := by
  refine ⟨_, rfl, rfl, rfl, rfl, ?_⟩
  intro h
  obtain ⟨task, hmem, hcurrent⟩ := h.prepared _ _ rfl (by decide) _ mem_cons_self
  rw [List.mem_singleton.mp hmem] at hcurrent
  exact absurd hcurrent.round_eq (by decide)

end Xllm.Eplb
