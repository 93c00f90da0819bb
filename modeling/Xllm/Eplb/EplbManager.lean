import Mathlib.Data.List.Range
import Xllm.Lib.Contract

/-!
# Handing new expert weights over to the devices

`EplbManager` goes through the layers that a rebalance enables. It sends each of them with
its new experts to the devices, waits until every device has reported it prepared, and then
names it once for an update. Two threads and the engine change `state_` under one mutex, so
every critical section is one step.

A device prepares what it receives in the background, in the order in which it arrives. Its
report is the last layer it completed, read with the output of a forward pass.

Layer ids are integers, `-1` stands for none.
-/

namespace Xllm.Eplb

/-- The index that is out of range in `expert_distribution`. -/
inductive EplbError
  | layerOutOfRange

structure EplbInfo where
  prepareLayerId : Int := -1
  expertIds : List Int := []
  updateLayerId : Int := -1

/-- What `rebalance_experts` of the policy returns: the experts of every layer, and the
layers that change. -/
structure Rebalanced where
  expertDistribution : List (List Int)
  enableUpdateVec : List Bool
  rows_eq : expertDistribution.length = enableUpdateVec.length

structure EplbState where
  expertDistribution : List (List Int)
  enableUpdateVec : List Bool := []
  toBePrepared : Int := -1
  preparedLayerId : List Int
  readyLayerId : Int := -1
  preparingLayerId : Int := -1

/-- `EplbManager`, for devices that have prepared nothing. -/
def EplbState.init (expertDistribution : List (List Int)) (deviceNum : Nat) : EplbState where
  expertDistribution := expertDistribution
  preparedLayerId := List.replicate deviceNum (-1)

def findNextTrue (vec : List Bool) (startPos : Nat) : Int :=
  if vec.length ≤ startPos then -1
  else
    match (vec.drop startPos).findIdx? id with
    | some k => (startPos + k : Nat)
    | none => -1

/-- What `rebalance_experts_loop` does with the result of the policy. -/
def EplbState.rebalance (s : EplbState) (result : Rebalanced) : EplbState :=
  { s with
    expertDistribution := result.expertDistribution
    enableUpdateVec := result.enableUpdateVec
    toBePrepared := findNextTrue result.enableUpdateVec 0 }

def EplbState.iterate (s : EplbState) : EplbState :=
  if 0 ≤ s.toBePrepared then
    if s.preparedLayerId.all (· == s.toBePrepared) then
      let next := findNextTrue s.enableUpdateVec (s.toBePrepared + 1).toNat
      { s with
        readyLayerId := s.toBePrepared
        toBePrepared := next
        preparingLayerId := if next = -1 then -1 else s.preparingLayerId }
    else s
  else s

def EplbState.getEplbInfo (s : EplbState) : Except EplbError (EplbInfo × EplbState) :=
  if s.preparingLayerId ≠ s.toBePrepared ∧ s.toBePrepared ≠ -1 then
    match s.expertDistribution[s.toBePrepared.toNat]? with
    | none => .error .layerOutOfRange
    | some expertIds =>
        .ok ({ prepareLayerId := s.toBePrepared, expertIds, updateLayerId := s.readyLayerId },
          { s with preparingLayerId := s.toBePrepared, readyLayerId := -1 })
  else .ok ({ updateLayerId := s.readyLayerId }, { s with readyLayerId := -1 })

def EplbState.setPreparedLayerIds (s : EplbState) (expertLayerIds : List Int) : EplbState :=
  { s with
    preparedLayerId :=
      List.zipWith (fun id prepared => if id = s.toBePrepared then id else prepared)
        expertLayerIds s.preparedLayerId ++ s.preparedLayerId.drop expertLayerIds.length }

/-- `EplbExecutor::Task`. The rebalance behind which it was sent is a ghost. -/
structure Task where
  layerId : Int
  expertIds : List Int
  round : Nat

def layerIdOf : Option Task → Int
  | none => -1
  | some task => task.layerId

/-- `EplbExecutor`, with the outputs of its worker that the engine has not processed, and
all tasks that it has reported. -/
structure Device where
  tasks : List Task := []
  readyLayerId : Option Task := none
  outputs : List (Option Task) := []
  reported : List Task := []

namespace Device

def eplbExecute (info : EplbInfo) (round : Nat) (d : Device) : Device :=
  if info.prepareLayerId ≠ -1 then
    { d with tasks := d.tasks ++ [⟨info.prepareLayerId, info.expertIds, round⟩] }
  else d

/-- `eplb_worker_loop` completes the first task. -/
def work (d : Device) : Device :=
  match d.tasks with
  | [] => d
  | task :: tasks => { d with tasks, readyLayerId := some task }

def output (d : Device) : Device :=
  { d with outputs := d.outputs ++ [d.readyLayerId], readyLayerId := none }

def nextReport (d : Device) : Option Task := d.outputs.head?.join

def processed (d : Device) : Device :=
  { d with outputs := d.outputs.tail, reported := d.reported ++ d.nextReport.toList }

/-- The tasks that may still be reported, in this order. -/
def outstanding (d : Device) : List Task :=
  d.outputs.filterMap id ++ d.readyLayerId.toList ++ d.tasks

end Device

/-- The manager and the devices. The number of the last rebalance and the layers that were
updated since then are ghosts. -/
structure World where
  state : EplbState
  devices : List Device
  round : Nat := 0
  updated : List Int := []

/-- The steps. The engine gets an info before a forward pass and sends it to all devices,
and processes the outputs of all devices behind it. -/
inductive EplbOp
  | rebalance (result : Rebalanced)
  | iterate
  | getEplbInfo
  | work (device : Nat)
  | output
  | processEplbData

def World.init (expertDistribution : List (List Int)) (deviceNum : Nat) : World where
  state := EplbState.init expertDistribution deviceNum
  devices := List.replicate deviceNum {}

/-- A layer that is named for an update. -/
def layerList (layerId : Int) : List Int := if layerId = -1 then [] else [layerId]

def World.step (w : World) : EplbOp → Except EplbError World
  | .rebalance result =>
      .ok { w with state := w.state.rebalance result, round := w.round + 1, updated := [] }
  | .iterate => .ok { w with state := w.state.iterate }
  | .getEplbInfo => do
      let (info, state) ← w.state.getEplbInfo
      return { w with
        state
        devices := w.devices.map (Device.eplbExecute info w.round)
        updated := w.updated ++ layerList info.updateLayerId }
  | .work device => .ok { w with devices := w.devices.modify device Device.work }
  | .output => .ok { w with devices := w.devices.map Device.output }
  | .processEplbData =>
      .ok { w with
        state := w.state.setPreparedLayerIds (w.devices.map (layerIdOf ·.nextReport))
        devices := w.devices.map Device.processed }

end Xllm.Eplb
