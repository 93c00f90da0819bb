import Mathlib.Algebra.Order.Ring.Rat
import Mathlib.Algebra.Order.Group.Unbundled.Abs
import Mathlib.Tactic.NormNum
import Xllm.DisaggPD.Dispatch
import Xllm.Lib.WeakOrder
import Xllm.Request.Sequence

/-!
# The orders of the request queues

`create_comparator` gives the order of the waiting queues and, reversed, the one in which
`MixScheduler` sorts the running requests. `DynamicPriorityQueue` keeps the running requests in
a `std::set` under the negation of its comparator.

A request is what the comparators read of it. Densities are exact quotients; a latency of zero
gives an infinity or, for a weight of zero, no number.
-/

namespace Xllm.Priority

open WeakOrder
open DisaggPD (RequestPriority SchedulerParam)

def priorityValue : RequestPriority → Nat
  | .default => 0
  | .high => 1
  | .normal => 2
  | .low => 3

inductive Urgency where
  | normal
  | urgent
  | starved
  deriving DecidableEq

def Urgency.value : Urgency → Nat
  | .normal => 0
  | .urgent => 1
  | .starved => 2

def stageValue : SequenceStage → Nat
  | .prefill => 0
  | .chunkedPrefill => 1
  | .decode => 2

/-- What the comparators read of a request and of its first sequence. -/
structure Request where
  createdTime : Int
  schedulerParam : SchedulerParam := {}
  deadlineMs : Int32 := 0
  elapsedTimeMs : Int32 := 0
  urgency : Urgency := .normal
  starved : Bool := false
  stage : SequenceStage := .prefill
  estimatedLatency : ℚ := 0

namespace Request

def remainingTime (r : Request) : Int :=
  (r.deadlineMs - r.elapsedTimeMs).toInt

def tpotPriorityWeight (r : Request) : Int :=
  (r.schedulerParam.tpotPriorityWeight * r.schedulerParam.priorityWeight).toInt

def ttftPriorityWeight (r : Request) : Int :=
  (r.schedulerParam.ttftPriorityWeight * r.schedulerParam.priorityWeight).toInt

end Request

/-- A quotient of doubles, without rounding. -/
inductive Density where
  | ratio (value : ℚ)
  | posInf
  | negInf
  | nan

def density (weight : Int) (latency : ℚ) : Density :=
  if latency ≠ 0 then .ratio (weight / latency)
  else if 0 < weight then .posInf
  else if weight < 0 then .negInf
  else .nan

/-- `std::numeric_limits<double>::epsilon()`. -/
def epsilon : ℚ := 1 / 4503599627370496

def Density.close : Density → Density → Bool
  | .ratio x, .ratio y => decide (|x - y| < epsilon)
  | _, _ => false

def Density.less : Density → Density → Bool
  | .ratio x, .ratio y => decide (x < y)
  | .ratio _, .posInf => true
  | .negInf, .ratio _ => true
  | .negInf, .posInf => true
  | _, _ => false

def fcfsComparator (a b : Request) : Bool :=
  decide (b.createdTime < a.createdTime)

def strictPriorityComparator (a b : Request) : Bool :=
  let priorityA := a.schedulerParam.priority
  let priorityB := b.schedulerParam.priority
  if priorityA ≠ priorityB then decide (priorityValue priorityB < priorityValue priorityA)
  else decide (b.createdTime < a.createdTime)

def deadlineComparator (a b : Request) : Bool :=
  decide (b.remainingTime < a.remainingTime)

/-- The smaller density first; close densities by the time of creation. -/
def byDensity (densityOf : Request → Density) (a b : Request) : Bool :=
  if (densityOf a).close (densityOf b) then decide (b.createdTime < a.createdTime)
  else (densityOf a).less (densityOf b)

/-- `DensityComparator`. The stage of `a` chooses the weights of both requests. -/
def densityComparator (a b : Request) : Bool :=
  if a.stage = .decode then byDensity (fun r => density r.tpotPriorityWeight r.estimatedLatency) a b
  else byDensity (fun r => density r.ttftPriorityWeight r.estimatedLatency) a b

def sjfComparator (a b : Request) : Bool :=
  byDensity (fun r => density 1 r.estimatedLatency) a b

def decodeDeadlineComparator (a b : Request) : Bool :=
  if a.stage = b.stage then deadlineComparator a b
  else decide (stageValue a.stage < stageValue b.stage)

def decodeDensityComparator (a b : Request) : Bool :=
  if a.stage = b.stage then densityComparator a b
  else decide (stageValue a.stage < stageValue b.stage)

def densityWithAntiStarveComparator (a b : Request) : Bool :=
  if a.starved && b.starved then deadlineComparator a b
  else if !a.starved && !b.starved then densityComparator a b
  else decide (a.starved.toNat < b.starved.toNat)

def decodeDensityWithAntiStarveComparator (a b : Request) : Bool :=
  if a.stage = .decode ∧ b.stage = .decode then densityComparator a b
  else if a.stage ≠ .decode ∧ b.stage ≠ .decode then densityWithAntiStarveComparator a b
  else decide (stageValue a.stage < stageValue b.stage)

def urgencyDensityComparator (a b : Request) : Bool :=
  if a.urgency = b.urgency then
    match a.urgency with
    | .urgent => decodeDensityWithAntiStarveComparator a b
    | .normal => deadlineComparator a b
    | .starved => densityComparator a b
  else decide (a.urgency.value < b.urgency.value)

def urgencyPriorityComparator (a b : Request) : Bool :=
  if a.urgency = b.urgency then
    match a.urgency with
    | .urgent => strictPriorityComparator a b
    | .normal => deadlineComparator a b
    | .starved => strictPriorityComparator a b
  else decide (a.urgency.value < b.urgency.value)

def decodeUrgencyDensityComparator (a b : Request) : Bool :=
  if a.stage ≠ .decode ∧ b.stage ≠ .decode then urgencyDensityComparator a b
  else decide (stageValue a.stage < stageValue b.stage)

def strategyComparator (priorityStrategy : String) : Option (Request → Request → Bool) :=
  if priorityStrategy = "fcfs" then some fcfsComparator
  else if priorityStrategy = "priority" then some strictPriorityComparator
  else if priorityStrategy = "deadline" then some deadlineComparator
  else if priorityStrategy = "sjf" then some sjfComparator
  else if priorityStrategy = "decode_density" then some decodeDensityComparator
  else if priorityStrategy = "density" then some densityComparator
  else if priorityStrategy = "urgency_density" then some urgencyDensityComparator
  else if priorityStrategy = "decode_urgency_density" then some decodeUrgencyDensityComparator
  else if priorityStrategy = "urgency_priority" then some urgencyPriorityComparator
  else if priorityStrategy = "decode_deadline" then some decodeDeadlineComparator
  else none

/-- `create_comparator`; an unknown strategy stops the program. -/
def createComparator (priorityStrategy : String) (isReversed : Bool) :
    Option (Request → Request → Bool) :=
  (strategyComparator priorityStrategy).map fun comparator a b => comparator a b ^^ isReversed

/-- The comparator that `create_running_queue` gives to a `DynamicPriorityQueue`. -/
def queueComparator (priorityStrategy : String) : Option (Request → Request → Bool) :=
  if priorityStrategy = "deadline" then some deadlineComparator
  else if priorityStrategy = "priority" then some strictPriorityComparator
  else none

/-- The functions that order a container or a sort. -/
inductive IsOrdering : (Request → Request → Bool) → Prop where
  | created {priorityStrategy isReversed comparator} :
      createComparator priorityStrategy isReversed = some comparator → IsOrdering comparator
  | queue {priorityStrategy comparator} :
      queueComparator priorityStrategy = some comparator → IsOrdering fun a b => !comparator a b

variable {S : Set Request}

theorem priorityValue_inj {p q : RequestPriority} : priorityValue p = priorityValue q ↔ p = q := by
  cases p <;> cases q <;> decide

theorem stageValue_inj {s t : SequenceStage} : stageValue s = stageValue t ↔ s = t := by
  cases s <;> cases t <;> decide

@[simp] theorem Urgency.value_inj {u v : Urgency} : u.value = v.value ↔ u = v := by
  cases u <;> cases v <;> decide

theorem strictWeakOn_fcfs : StrictWeakOn fcfsComparator S :=
  (strictWeakOn_byKey Request.createdTime).swap

theorem strictWeakOn_deadline : StrictWeakOn deadlineComparator S :=
  (strictWeakOn_byKey Request.remainingTime).swap

theorem strictPriorityComparator_eq :
    strictPriorityComparator =
      fun a b => byClass (fun r => priorityValue r.schedulerParam.priority)
        (fun _ => byKey Request.createdTime) b a := by
  funext a b
  by_cases h : a.schedulerParam.priority = b.schedulerParam.priority
  · rw [strictPriorityComparator, if_neg (not_not.mpr h), byClass_same (by rw [h])]
    rfl
  · have h' : priorityValue b.schedulerParam.priority ≠ priorityValue a.schedulerParam.priority :=
      fun e => h (priorityValue_inj.mp e.symm)
    rw [strictPriorityComparator, if_pos h, byClass, if_neg h']

theorem strictWeakOn_strictPriority : StrictWeakOn strictPriorityComparator S := by
  rw [strictPriorityComparator_eq]
  apply StrictWeakOn.swap
  apply strictWeakOn_byClass
  intro k
  exact strictWeakOn_byKey _

theorem strictWeakOn_decodeDeadline : StrictWeakOn decodeDeadlineComparator S := by
  have classes : decodeDeadlineComparator =
      byClass (fun r => stageValue r.stage) fun _ => deadlineComparator := by
    funext a b
    simp only [decodeDeadlineComparator, byClass, stageValue_inj]
  rw [classes]
  apply strictWeakOn_byClass
  intro k
  exact strictWeakOn_deadline

def urgencyInside : Nat → Request → Request → Bool
  | 0 => deadlineComparator
  | _ => strictPriorityComparator

theorem strictWeakOn_urgencyPriority : StrictWeakOn urgencyPriorityComparator S := by
  have classes : urgencyPriorityComparator =
      byClass (fun r => r.urgency.value) urgencyInside := by
    funext a b
    have inside : ∀ u : Urgency, (match u with
        | .urgent => strictPriorityComparator a b
        | .normal => deadlineComparator a b
        | .starved => strictPriorityComparator a b) = urgencyInside u.value a b := by
      intro u
      cases u <;> rfl
    simp only [urgencyPriorityComparator, byClass, Urgency.value_inj, inside]
  rw [classes]
  apply strictWeakOn_byClass
  intro k
  cases k with
  | zero => exact strictWeakOn_deadline
  | succ k => exact strictWeakOn_strictPriority

theorem fcfs_reversed :
    createComparator "fcfs" true = some fun a b => !fcfsComparator a b := by
  simp [createComparator, strategyComparator]

/-- Turning an order round by `^ true`, or by the negation in front of a `std::set`, makes
every request come before itself: only without requests is each of the orders strict. -/
theorem orderings_strictWeakOn_iff (S : Set Request) :
    (∀ comparator, IsOrdering comparator → StrictWeakOn comparator S) ↔ S = ∅ := by
  constructor
  · intro all
    have reversed := all _ (.created fcfs_reversed)
    exact (strictWeakOn_not_iff strictWeakOn_fcfs.irrefl).mp reversed
  · rintro rfl comparator -
    exact strictWeakOn_empty

/-- The order in which `MixScheduler` sorts, on one request. -/
theorem urgent_before_itself :
    ∃ comparator, createComparator "urgency_density" true = some comparator ∧
      IsOrdering comparator ∧ comparator { createdTime := 0 } { createdTime := 0 } = true ∧
      ¬ ∀ ordering, IsOrdering ordering → StrictWeakOn ordering {{ createdTime := 0 }} := by
  have created : createComparator "urgency_density" true =
      some fun a b => urgencyDensityComparator a b ^^ true := by
    simp [createComparator, strategyComparator]
  have itself : (urgencyDensityComparator { createdTime := 0 } { createdTime := 0 } ^^ true) =
      true := by
    decide
  refine ⟨_, created, .created created, itself, ?_⟩
  intro all
  have strict := (all _ (.created created)).irrefl _ rfl
  exact Bool.false_ne_true (strict.symm.trans itself)

/-- Strategies without densities. -/
def keyStrategies : List (String × (Request → Request → Bool)) :=
  [("fcfs", fcfsComparator), ("priority", strictPriorityComparator),
    ("deadline", deadlineComparator), ("urgency_priority", urgencyPriorityComparator),
    ("decode_deadline", decodeDeadlineComparator)]

/-- These strategies order every set of requests. -/
theorem strictWeakOn_keyStrategies {entry : String × (Request → Request → Bool)}
    (known : entry ∈ keyStrategies) :
    createComparator entry.1 false = some entry.2 ∧ StrictWeakOn entry.2 S := by
  simp only [keyStrategies, List.mem_cons, List.not_mem_nil, or_false] at known
  obtain rfl | rfl | rfl | rfl | rfl := known
  · exact ⟨by simp [createComparator, strategyComparator], strictWeakOn_fcfs⟩
  · exact ⟨by simp [createComparator, strategyComparator], strictWeakOn_strictPriority⟩
  · exact ⟨by simp [createComparator, strategyComparator], strictWeakOn_deadline⟩
  · exact ⟨by simp [createComparator, strategyComparator], strictWeakOn_urgencyPriority⟩
  · exact ⟨by simp [createComparator, strategyComparator], strictWeakOn_decodeDeadline⟩

theorem strictWeakOn_keyStrategies_urgency : StrictWeakOn urgencyPriorityComparator Set.univ :=
  (strictWeakOn_keyStrategies (List.mem_of_getElem? (i := 3) rfl)).2

end Xllm.Priority
