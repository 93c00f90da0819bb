import Xllm.Lib.Contract
import Xllm.Lib.OpenAddressing

/-!
# The map with 32-bit keys

`Int32Map` is a hash table with open addressing. Its capacity is a power of two, so that the
triangular probe sequence reaches every slot. Two keys are reserved: a slot with one of them is
empty or a tombstone, and here these are constructors of `Slot`.

The capacity, the size and the number of tombstones are 32-bit counters. Only the capacity can
wrap, when it is doubled; the sums in the load conditions stay below `2 ^ 32`.
-/

namespace Xllm.Int32Maps

open Contract OpenAddressing

/-- What stops an operation: the exception of a full table, or an assertion. -/
inductive Abort
  | full
  | assertion

def keyEmpty : Int32 := Int32.minValue

def keyTombstone : Int32 := Int32.minValue + 1

def minLoadPct : Nat := 25

def maxLoadPct : Nat := 75

def minCapacity : Nat := 2

/-- The keys that every operation rejects. -/
def Reserved (key : Int32) : Prop := key = keyEmpty ∨ key = keyTombstone

instance (key : Int32) : Decidable (Reserved key) :=
  inferInstanceAs (Decidable (_ ∨ _))

def mixHash (key : Int32) : UInt32 :=
  let x := key.toUInt32
  let x := x ^^^ (x >>> 16)
  let x := x * 0x7feb352d
  let x := x ^^^ (x >>> 15)
  let x := x * 0x846ca68b
  x ^^^ (x >>> 16)

variable {T : Type}

def newSlots : Nat → Slot Int32 T := fun _ => .empty

/-- The null pointer is `none`. -/
structure Int32Map (T : Type) where
  slots : Option (Nat → Slot Int32 T) := none
  cap : Nat := 0
  size : Nat := 0
  tombstones : Nat := 0

def firstIdx (cap : Nat) (key : Int32) : Nat := (mixHash key).toNat &&& (cap - 1)

/-- The slot after `idx`, when `step` slots have been probed before it. -/
def nextIdx (cap idx step : Nat) : Nat := (idx + (step + 1)) &&& (cap - 1)

/-- The loop of `probeInsertOrFind`, with the number of probes that are left. -/
def probeFrom (slots : Nat → Slot Int32 T) (cap : Nat) (key : Int32) :
    Nat → Nat → Nat → Option Nat → Except Abort (Bool × Nat)
  | 0, _, _, none => .error .full
  | 0, _, _, some firstTombIdx => .ok (false, firstTombIdx)
  | probes + 1, idx, step, firstTomb =>
      match slots idx with
      | .filled k _ =>
          if k = key then .ok (true, idx)
          else probeFrom slots cap key probes (nextIdx cap idx step) (step + 1) firstTomb
      | .empty => .ok (false, firstTomb.getD idx)
      | .tombstone =>
          probeFrom slots cap key probes (nextIdx cap idx step) (step + 1)
            (some (firstTomb.getD idx))

def probeInsertOrFind (slots : Nat → Slot Int32 T) (cap : Nat) (key : Int32) :
    Except Abort (Bool × Nat) :=
  if cap = 0 then .error .assertion
  else probeFrom slots cap key cap (firstIdx cap key) 0 none

/-- The loop of `placeNew`. -/
def placeFrom (arr : Nat → Slot Int32 T) (cap : Nat) (key : Int32) (value : T) :
    Nat → Nat → Nat → Except Abort (Nat → Slot Int32 T)
  | 0, _, _ => .error .assertion
  | probes + 1, idx, step =>
      match arr idx with
      | .filled _ _ => placeFrom arr cap key value probes (nextIdx cap idx step) (step + 1)
      | _ => .ok (Function.update arr idx (.filled key value))

def placeNew (arr : Nat → Slot Int32 T) (cap : Nat) (key : Int32) (value : T) :
    Except Abort (Nat → Slot Int32 T) :=
  placeFrom arr cap key value cap (firstIdx cap key) 0

/-- The filled slots below a bound, one after another, are placed in a fresh array. -/
def replace (slots : Nat → Slot Int32 T) (newCap bound : Nat) :
    Except Abort (Nat → Slot Int32 T) :=
  (List.range bound).foldlM (fun fresh i => match slots i with
    | .filled key value => placeNew fresh newCap key value
    | _ => .ok fresh) newSlots

namespace Int32Map

def rehash (m : Int32Map T) (newCap : Nat) : Except Abort (Int32Map T) :=
  if newCap &&& (newCap - 1) = 0 ∧ minCapacity ≤ newCap then do
    let fresh ← match m.slots with
      | none => .ok newSlots
      | some slots => replace slots newCap m.cap
    .ok { m with slots := some fresh, cap := newCap, tombstones := 0 }
  else .error .assertion

def maybeRehashAfterErase (m : Int32Map T) : Except Abort (Int32Map T) :=
  if m.slots.isNone then .ok m
  else if m.size = 0 then .ok {}
  else if m.size * 100 < m.cap * minLoadPct then
    if minCapacity ≤ m.cap / 2 then m.rehash (m.cap / 2) else .ok m
  else .ok m

/-- The slot of the key, when the table has it. An invalid key is rejected by the callers. -/
def findIdx (m : Int32Map T) (key : Int32) : Except Abort (Option Nat) :=
  match m.slots with
  | none => .ok none
  | some slots => do
      let (found, idx) ← probeInsertOrFind slots m.cap key
      .ok (if found then some idx else none)

def contains (m : Int32Map T) (key : Int32) : Except Abort Bool := do
  let idx ← m.findIdx key
  .ok idx.isSome

def valueAt (m : Int32Map T) (idx : Nat) : Option T :=
  m.slots.bind fun slots => match slots idx with
    | .filled _ value => some value
    | _ => none

/-- `find`; the end iterator is `none`. -/
def find (m : Int32Map T) (key : Int32) : Except Abort (Option T) := do
  let idx ← m.findIdx key
  .ok (idx.bind m.valueAt)

def erase (m : Int32Map T) (key : Int32) : Except Abort (Bool × Int32Map T) :=
  match m.slots with
  | none => .ok (false, m)
  | some slots => do
      let (found, idx) ← probeInsertOrFind slots m.cap key
      if found then
        let m ← maybeRehashAfterErase { m with
          slots := some (Function.update slots idx .tombstone)
          size := m.size - 1
          tombstones := m.tombstones + 1 }
        .ok (true, m)
      else .ok (false, m)

/-- The allocation at the start of `emplace`. -/
def allocate (m : Int32Map T) : Int32Map T :=
  match m.slots with
  | none => { slots := some newSlots, cap := minCapacity, size := 0, tombstones := 0 }
  | some _ => m

def construct (m : Int32Map T) (idx : Nat) (key : Int32) (value : T) : Int32Map T :=
  { m with
    slots := m.slots.map fun slots => Function.update slots idx (.filled key value)
    size := m.size + 1 }

def makeRoom (m : Int32Map T) : Except Abort (Int32Map T) :=
  if (m.size + 1) * 100 ≤ m.cap * maxLoadPct then m.rehash m.cap
  else m.rehash (m.cap * 2 % 4294967296)

/-- The end of `emplace`: the slot must be empty. -/
def constructEmpty (m : Int32Map T) (idx : Nat) (key : Int32) (value : T) :
    Except Abort (Nat × Int32Map T) :=
  match m.slots with
  | none => .error .assertion
  | some slots => match slots idx with
    | .empty => .ok (idx, m.construct idx key value)
    | _ => .error .assertion

/-- `emplace` of a valid key: the slot of the key, in which the value was constructed if the key
was not there. -/
def emplace (m : Int32Map T) (key : Int32) (value : T) : Except Abort (Nat × Int32Map T) :=
  let m := m.allocate
  match m.slots with
  | none => .error .assertion
  | some slots => do
      let (found, idx) ← probeInsertOrFind slots m.cap key
      if found then .ok (idx, m)
      else match slots idx with
        | .tombstone =>
            .ok (idx, { m with tombstones := m.tombstones - 1 }.construct idx key value)
        | _ =>
            if m.cap * maxLoadPct < (m.size + m.tombstones + 1) * 100 then do
              let m ← m.makeRoom
              match m.slots with
              | none => .error .assertion
              | some slots => do
                  let (found, idx) ← probeInsertOrFind slots m.cap key
                  if found then .error .assertion
                  else m.constructEmpty idx key value
            else m.constructEmpty idx key value

/-- A value is written through the reference to a slot. -/
def assignAt (m : Int32Map T) (idx : Nat) (key : Int32) (value : T) : Int32Map T :=
  { m with slots := m.slots.map fun slots => Function.update slots idx (.filled key value) }

def contents (m : Int32Map T) : List (Int32 × T) :=
  match m.slots with
  | none => []
  | some slots => (List.range m.cap).filterMap fun i => match slots i with
    | .filled key value => some (key, value)
    | _ => none

end Int32Map

inductive Op (T : Type)
  | emplace (m : Nat) (key : Int32) (value : T)
  | index (m : Nat) (key : Int32)
  /-- `operator[]`, and a value is written through the reference. -/
  | assign (m : Nat) (key : Int32) (value : T)
  | erase (m : Nat) (key : Int32)
  | find (m : Nat) (key : Int32)
  | contains (m : Nat) (key : Int32)
  /-- A move into a map, by construction or by assignment. -/
  | move (m : Nat) (source : Nat)

inductive Result (T : Type)
  | invalidKey
  | value (v : Option T)
  | flag (b : Bool)
  | moved

/-- The maps of a program and the results of its calls, the last one first. -/
structure World (T : Type) where
  maps : Nat → Int32Map T := fun _ => {}
  log : List (Result T) := []

namespace World

def set (w : World T) (m : Nat) (map : Int32Map T) (r : Result T) : World T where
  maps := Function.update w.maps m map
  log := r :: w.log

def answer (w : World T) (r : Result T) : World T := { w with log := r :: w.log }

/-- An operation on a key, which throws for a reserved one before it does anything. -/
def guarded (w : World T) (key : Int32) (body : Except Abort (World T)) : Except Abort (World T) :=
  if Reserved key then .ok (w.answer .invalidKey) else body

def step [Inhabited T] (w : World T) : Op T → Except Abort (World T)
  | .emplace m key value => w.guarded key do
      let (idx, map) ← (w.maps m).emplace key value
      .ok (w.set m map (.value (map.valueAt idx)))
  | .index m key => w.guarded key do
      let (idx, map) ← (w.maps m).emplace key default
      .ok (w.set m map (.value (map.valueAt idx)))
  | .assign m key value => w.guarded key do
      let (idx, map) ← (w.maps m).emplace key default
      .ok (w.set m (map.assignAt idx key value) (.value (some value)))
  | .erase m key => w.guarded key do
      let (found, map) ← (w.maps m).erase key
      .ok (w.set m map (.flag found))
  | .find m key => w.guarded key do
      let value ← (w.maps m).find key
      .ok (w.answer (.value value))
  | .contains m key => w.guarded key do
      let found ← (w.maps m).contains key
      .ok (w.answer (.flag found))
  | .move m source =>
      if m = source then .ok (w.answer .moved)
      else .ok ({ w with maps := Function.update w.maps source {} }.set m (w.maps source) .moved)

def run [Inhabited T] (w : World T) (ops : List (Op T)) : Except Abort (World T) :=
  Contract.run step w ops

end World

end Xllm.Int32Maps
