import Xllm.Lib.Delta
import Xllm.PrefixCache.Exact

/-!
# Uploading the changes of the prefix cache

`PrefixCacheWithUpload` reports which keys its calls store and remove. Each call
schedules one task; the single worker of its thread pool runs the tasks in order
and records them in the front buffer; the heartbeat thread swaps the buffers,
then merges the back buffer into the event that it sends and clears it. The
mutex makes a task and a swap atomic, so these are the steps of the model, and
they interleave freely.

A receiver applies the windows in the order in which they are sent. The run
invariant says that the scheduled tasks are cut into segments: one per window
sent, one in each buffer, and the tasks still queued.
-/

namespace Xllm

open Contract Delta List

abbrev KvCacheEvent := Window XXH3Key

/-- The body of a task of `save_event_async`, run on the front event. -/
def saveEvent (event : KvCacheEvent) (isInsert : Bool) (keys : List XXH3Key) : KvCacheEvent :=
  if isInsert then
    keys.foldl (fun e key => ⟨insert key e.stored, e.removed.erase key⟩) event
  else
    keys.foldl (fun e key => ⟨e.stored.erase key, insert key e.removed⟩) event

structure DoubleBuffer (α : Type) where
  buffers : Bool → α
  index : Bool := false

namespace DoubleBuffer

variable {α : Type}

def front (d : DoubleBuffer α) : α := d.buffers d.index

def back (d : DoubleBuffer α) : α := d.buffers (!d.index)

def setFront (d : DoubleBuffer α) (a : α) : DoubleBuffer α :=
  { d with buffers := Function.update d.buffers d.index a }

def setBack (d : DoubleBuffer α) (a : α) : DoubleBuffer α :=
  { d with buffers := Function.update d.buffers (!d.index) a }

def swap (d : DoubleBuffer α) : DoubleBuffer α := { d with index := !d.index }

variable (d : DoubleBuffer α) (a : α)

@[simp] theorem setFront_front : (d.setFront a).front = a := by simp [setFront, front]

@[simp] theorem setFront_back : (d.setFront a).back = d.back := by
  cases h : d.index <;> simp [setFront, back]

@[simp] theorem setBack_back : (d.setBack a).back = a := by simp [setBack, back]

@[simp] theorem setBack_front : (d.setBack a).front = d.front := by
  cases h : d.index <;> simp [setBack, front]

@[simp] theorem swap_front : d.swap.front = d.back := rfl

@[simp] theorem swap_back : d.swap.back = d.front := by simp [swap, back, front]

end DoubleBuffer

/-- A task of `save_event_async`: whether keys were inserted, and which. -/
abbrev SaveTask := Bool × List XXH3Key

structure PrefixCacheWithUpload where
  cache : PrefixCache
  queue : List SaveTask := []
  events : DoubleBuffer KvCacheEvent := { buffers := fun _ => {} }

namespace PrefixCacheWithUpload

def saveEventAsync (u : PrefixCacheWithUpload) (task : SaveTask) : PrefixCacheWithUpload :=
  { u with queue := u.queue ++ [task] }

/-- The task that a call schedules, and the cache that it leaves. A match changes
no key and schedules nothing. -/
def call [XXH3] (u : PrefixCacheWithUpload) :
    PrefixCache.CacheOp → Except Check (List SaveTask × PrefixCache)
  | .insert heap tokenIds blocks k => do
      let r ← u.cache.insert heap tokenIds blocks k
      .ok ([(true, r.insertKeys)], r.cache)
  | .insertBlocks heap blocks =>
      let r := u.cache.insertBlocks heap blocks
      .ok ([(true, r.insertKeys)], r.cache)
  | .matchTokens heap tokenIds existed => do
      let (_, cache, _) ← u.cache.matchTokens heap tokenIds existed
      .ok ([], cache)
  | .evict heap n => do
      let r ← u.cache.evict heap n
      .ok ([(false, r.evictKeys)], r.cache)

def work (u : PrefixCacheWithUpload) : PrefixCacheWithUpload :=
  match u.queue with
  | [] => u
  | (isInsert, keys) :: rest =>
      { u with
        queue := rest
        events := u.events.setFront (saveEvent u.events.front isInsert keys) }

def getUploadKvcacheEvents (u : PrefixCacheWithUpload) : PrefixCacheWithUpload :=
  { u with events := u.events.swap }

/-- The merge of the back event and its `clear`, in `get_merged_kvcache_event`. -/
def mergeEvents (u : PrefixCacheWithUpload) (event : KvCacheEvent) :
    KvCacheEvent × PrefixCacheWithUpload :=
  (event.unite u.events.back, { u with events := u.events.setBack {} })

end PrefixCacheWithUpload

def PrefixCache.keys (c : PrefixCache) : Finset XXH3Key := (c.cachedBlocks.map Prod.fst).toFinset

/-- One cache, its worker, the heartbeat thread (which is `swapped` between its
two steps) and the windows it has sent. `scheduled` records all tasks. -/
structure UploadState where
  upload : PrefixCacheWithUpload
  swapped : Bool := false
  windows : List KvCacheEvent := []
  scheduled : List SaveTask := []

inductive UploadOp where
  | call (op : PrefixCache.CacheOp)
  | work
  | swap
  | merge

namespace UploadState

def start (blockSize : Nat) : UploadState := { upload := { cache := { blockSize := blockSize } } }

/-- One step. The heartbeat thread alternates between `swap` and `merge`. -/
def step [XXH3] (st : UploadState) : UploadOp → Except Check UploadState
  | .call op => do
      let (tasks, cache) ← st.upload.call op
      .ok { st with
        upload := tasks.foldl PrefixCacheWithUpload.saveEventAsync { st.upload with cache := cache }
        scheduled := st.scheduled ++ tasks }
  | .work => .ok { st with upload := st.upload.work }
  | .swap =>
      if st.swapped then .ok st
      else .ok { st with upload := st.upload.getUploadKvcacheEvents, swapped := true }
  | .merge =>
      if st.swapped then
        let (event, upload) := st.upload.mergeEvents {}
        .ok { st with upload := upload, swapped := false, windows := st.windows ++ [event] }
      else .ok st

/-- What the receiver believes after all windows sent so far. -/
def receiver (st : UploadState) : Finset XXH3Key := st.windows.foldl Window.apply ∅

/-- All tasks have run, and their events have been sent. -/
def Drained (st : UploadState) : Prop :=
  st.upload.queue = [] ∧ st.upload.events.front = {} ∧ st.swapped = false

def edits (tasks : List SaveTask) : List (Edit XXH3Key) :=
  tasks.flatMap fun t => t.2.map (t.1, ·)

/-- Every scheduled task is in exactly one place, in order: in the segment of one
window sent, in the back buffer, in the front buffer, or in the queue. -/
def Segmented (st : UploadState) : Prop :=
  ∃ (sent : List (List SaveTask)) (back front : List SaveTask),
    st.scheduled = sent.flatten ++ back ++ front ++ st.upload.queue ∧
    st.windows = sent.map (fun tasks => Window.of (edits tasks)) ∧
    st.upload.events.back = Window.of (edits back) ∧
    st.upload.events.front = Window.of (edits front) ∧
    (st.swapped = false → back = [])

end UploadState

theorem saveEvent_eq (event : KvCacheEvent) (isInsert : Bool) (keys : List XXH3Key) :
    saveEvent event isInsert keys = event.recordAll (keys.map (isInsert, ·)) := by
  have hloop : event.recordAll (keys.map (isInsert, ·)) =
      keys.foldl (fun e key => e.record (isInsert, key)) event := foldl_map
  rw [hloop]
  cases isInsert <;> rfl

section Keys

variable {c : PrefixCache}

theorem PrefixCache.Wf.keys_eq (h : c.Wf) : c.keys = (c.entries.map Block.hashValue).toFinset := by
  have hmap := h.index.map Prod.fst
  rw [map_map] at hmap
  rw [PrefixCache.keys, toFinset_eq_of_perm _ _ hmap, PrefixCache.entries, map_map]
  rfl

theorem PrefixCache.Stored.keys_eq {heap : BlockHeap} {blocks : List Block}
    {r : PrefixCache.Inserted} (h : c.Wf) (hr : PrefixCache.Stored c heap blocks r) :
    r.cache.keys = c.keys ∪ r.insertKeys.toFinset := by
  have hperm := (hr.perm h).map Block.hashValue
  rw [hr.wf.keys_eq, toFinset_eq_of_perm _ _ hperm, map_append, toFinset_append,
    ← h.keys_eq, ← hr.insertKeys_eq, Finset.union_comm]

theorem PrefixCache.EvictedFrom.keys_eq {c' : PrefixCache} {gone : List Block} (h : c.Wf)
    (he : PrefixCache.EvictedFrom c gone c') :
    c'.keys = c.keys \ (gone.map Block.hashValue).toFinset := by
  have hperm := he.perm.map Block.hashValue
  have hnodup := hperm.nodup_iff.mpr h.keyed
  rw [map_append, nodup_append] at hnodup
  rw [he.wf.keys_eq, h.keys_eq, ← toFinset_eq_of_perm _ _ hperm, map_append,
    toFinset_append]
  ext k
  simp only [Finset.mem_sdiff, Finset.mem_union, mem_toFinset]
  constructor
  · intro hk
    exact ⟨.inr hk, fun hgone => hnodup.2.2 k hgone k hk rfl⟩
  · rintro ⟨hk | hk, hgone⟩
    · exact absurd hk hgone
    · exact hk

end Keys

namespace UploadState

variable {st : UploadState}

@[simp] theorem edits_append (ts us : List SaveTask) : edits (ts ++ us) = edits ts ++ edits us :=
  flatMap_append

@[simp] theorem edits_singleton (isInsert : Bool) (keys : List XXH3Key) :
    edits [(isInsert, keys)] = keys.map (isInsert, ·) := by simp [edits]

@[simp] theorem edits_flatten (segments : List (List SaveTask)) :
    edits segments.flatten = (segments.map edits).flatten := by
  induction segments with
  | nil => rfl
  | cons ts segments ih => rw [flatten_cons, edits_append, ih, map_cons, flatten_cons]

@[simp] theorem foldl_saveEventAsync (u : PrefixCacheWithUpload) (tasks : List SaveTask) :
    tasks.foldl PrefixCacheWithUpload.saveEventAsync u = { u with queue := u.queue ++ tasks } := by
  induction tasks generalizing u with
  | nil => simp
  | cons t tasks ih => simp [ih, PrefixCacheWithUpload.saveEventAsync]

theorem Segmented.work (h : st.Segmented) : Segmented { st with upload := st.upload.work } := by
  obtain ⟨sent, back, front, hall, hwindows, hback, hfront, hswapped⟩ := h
  cases hqueue : st.upload.queue with
  | nil =>
      have hsame : st.upload.work = st.upload := by
        simp only [PrefixCacheWithUpload.work, hqueue]
      rw [hsame]
      exact ⟨sent, back, front, hall, hwindows, hback, hfront, hswapped⟩
  | cons task rest =>
      obtain ⟨isInsert, keys⟩ := task
      refine ⟨sent, back, front ++ [(isInsert, keys)], ?_, hwindows, ?_, ?_, hswapped⟩
      · rw [hall]
        simp [PrefixCacheWithUpload.work, hqueue]
      · simp [PrefixCacheWithUpload.work, hqueue, hback]
      · simp only [PrefixCacheWithUpload.work, hqueue, DoubleBuffer.setFront_front]
        rw [saveEvent_eq, hfront, edits_append, edits_singleton, Window.of_append]

variable [XXH3]

/-- The keys after a call are those before it with its edits replayed. -/
theorem call_ensures {u : PrefixCacheWithUpload} (h : u.cache.Wf) (op : PrefixCache.CacheOp) :
    IfOk (u.call op) (fun r =>
      r.2.Wf ∧ r.2.keys = replay u.cache.keys (edits r.1)) := by
  cases op with
  | insert heap tokenIds blocks k =>
      refine (PrefixCache.insert_ensures h heap tokenIds blocks k).ifOk.bind fun r hr => ?_
      obtain ⟨-, -, -, hstored⟩ := hr
      refine ⟨hstored.wf, ?_⟩
      rw [edits_singleton, replay_add]
      exact hstored.keys_eq h
  | insertBlocks heap blocks =>
      have hstored := PrefixCache.insertBlocks_stored h heap blocks
      refine ⟨hstored.wf, ?_⟩
      rw [edits_singleton, replay_add]
      exact hstored.keys_eq h
  | matchTokens heap tokenIds existed =>
      refine (PrefixCache.matchTokens_ensures h heap tokenIds existed).ifOk.bind fun r hr => ?_
      obtain ⟨-, hwf, -, hentries, -⟩ := hr
      have hperm := (h.walkMatch_perm (u.cache.matchKeys tokenIds existed)).map Block.hashValue
      rw [← hentries] at hperm
      refine ⟨hwf, ?_⟩
      have hkeys : r.2.1.keys = u.cache.keys := by
        rw [hwf.keys_eq, h.keys_eq, toFinset_eq_of_perm _ _ hperm]
      exact hkeys
  | evict heap n =>
      refine (PrefixCache.evict_ensures h heap n).bind fun r hr => ?_
      obtain ⟨gone, hgone, hkeys, -⟩ := hr
      refine ⟨hgone.wf, ?_⟩
      rw [edits_singleton, replay_remove, hkeys]
      exact hgone.keys_eq h

structure Inv (st : UploadState) : Prop where
  wf : st.upload.cache.Wf
  keys_eq : st.upload.cache.keys = replay ∅ (edits st.scheduled)
  segmented : st.Segmented

omit [XXH3] in
theorem inv_start (blockSize : Nat) : (start blockSize).Inv :=
  ⟨PrefixCache.wf_empty blockSize, rfl, [], [], [], rfl, rfl, rfl, rfl, fun _ => rfl⟩

/-- Step lemma: with what is queued and buffered the receiver gets to the cached keys. -/
theorem Inv.step (h : st.Inv) (op : UploadOp) : IfOk (st.step op) Inv := by
  obtain ⟨hwf, hkeys, hsegmented⟩ := h
  cases op with
  | call op =>
      refine (call_ensures hwf op).bind fun r hr => ?_
      simp only [foldl_saveEventAsync]
      refine ⟨hr.1, ?_, ?_⟩
      · rw [edits_append, replay_append, ← hkeys]
        exact hr.2
      · obtain ⟨sent, back, front, hall, hrest⟩ := hsegmented
        refine ⟨sent, back, front, ?_, hrest⟩
        simp only [hall, append_assoc]
  | work =>
      refine ⟨?_, ?_, hsegmented.work⟩
      · show st.upload.work.cache.Wf
        rw [PrefixCacheWithUpload.work]
        split <;> exact hwf
      · show st.upload.work.cache.keys = _
        rw [PrefixCacheWithUpload.work]
        split <;> exact hkeys
  | swap =>
      rw [UploadState.step]
      split
      · exact ⟨hwf, hkeys, hsegmented⟩
      · rename_i hswapped
        refine ⟨hwf, hkeys, ?_⟩
        -- The cleared buffer becomes the front; the old front waits to be merged.
        obtain ⟨sent, back, front, hall, hwindows, hback, hfront, hempty⟩ := hsegmented
        have hnil := hempty (by simpa using hswapped)
        subst hnil
        refine ⟨sent, front, [], ?_, hwindows, ?_, ?_, by simp⟩
        · simpa [PrefixCacheWithUpload.getUploadKvcacheEvents] using hall
        · simpa [PrefixCacheWithUpload.getUploadKvcacheEvents] using hfront
        · simpa [PrefixCacheWithUpload.getUploadKvcacheEvents] using hback
  | merge =>
      rw [UploadState.step]
      split
      · refine ⟨hwf, hkeys, ?_⟩
        obtain ⟨sent, back, front, hall, hwindows, hback, hfront, -⟩ := hsegmented
        refine ⟨sent ++ [back], [], front, ?_, ?_, ?_, ?_, fun _ => rfl⟩
        · simpa [PrefixCacheWithUpload.mergeEvents] using hall
        · simp only [Window.empty_unite, hwindows, hback, map_append, map_cons,
            map_nil]
        · exact DoubleBuffer.setBack_back _ _
        · simpa [PrefixCacheWithUpload.mergeEvents] using hfront
      · exact ⟨hwf, hkeys, hsegmented⟩

omit [XXH3] in
/-- No window stores and removes one key. -/
theorem Inv.disjoint (h : st.Inv) : ∀ w ∈ st.windows, Disjoint w.stored w.removed := by
  obtain ⟨sent, back, front, -, hwindows, -⟩ := h.segmented
  intro w hw
  rw [hwindows] at hw
  obtain ⟨tasks, -, rfl⟩ := List.mem_map.mp hw
  exact Window.disjoint_of _

omit [XXH3] in
theorem Inv.apply_buffers (h : st.Inv) (hqueue : st.upload.queue = []) :
    Window.apply (Window.apply st.receiver st.upload.events.back) st.upload.events.front =
      st.upload.cache.keys := by
  obtain ⟨sent, back, front, hall, hwindows, hback, hfront, -⟩ := h.segmented
  have hsent : st.receiver = replay ∅ (edits sent.flatten) := by
    have hcomp : sent.map (fun tasks => Window.of (edits tasks)) =
        (sent.map edits).map Window.of := by
      rw [map_map]
      rfl
    rw [receiver, hwindows, hcomp, Window.foldl_apply_of, edits_flatten]
  rw [hsent, hback, hfront, Window.apply_of, Window.apply_of, h.keys_eq, hall, hqueue,
    append_nil, edits_append, edits_append, replay_append, replay_append]

omit [XXH3] in
theorem Inv.back_of_not_swapped (h : st.Inv) (hswapped : st.swapped = false) :
    st.upload.events.back = {} := by
  obtain ⟨sent, back, front, -, -, hback, -, hempty⟩ := h.segmented
  rw [hback, hempty hswapped]
  rfl

omit [XXH3] in
theorem Inv.receiver_of_drained (h : st.Inv) (hdrained : st.Drained) :
    st.receiver = st.upload.cache.keys := by
  obtain ⟨hqueue, hfront, hswapped⟩ := hdrained
  have heq := h.apply_buffers hqueue
  rwa [h.back_of_not_swapped hswapped, hfront, Window.apply_empty, Window.apply_empty] at heq

/-- Run the queued tasks, finish the upload that is under way, and make another. -/
def drainOps (st : UploadState) : List UploadOp :=
  List.replicate st.upload.queue.length .work ++ [.merge, .swap, .merge]

/-- The pool of workers empties its queue. -/
theorem run_work (st : UploadState) {n : Nat} (hn : st.upload.queue.length = n) :
    ∃ st', run step st (List.replicate n .work) = .ok st' ∧ st'.upload.queue = [] ∧
      st'.upload.cache = st.upload.cache := by
  induction n generalizing st with
  | zero => exact ⟨st, rfl, List.length_eq_zero_iff.mp hn, rfl⟩
  | succ n ih =>
      cases hqueue : st.upload.queue with
      | nil => simp [hqueue] at hn
      | cons task rest =>
          obtain ⟨st', hrun, hdone, hcache⟩ := ih { st with upload := st.upload.work } (by
            rw [hqueue, length_cons] at hn
            simp only [PrefixCacheWithUpload.work, hqueue]
            omega)
          refine ⟨st', ?_, hdone, hcache.trans ?_⟩
          · rw [replicate_succ]
            exact hrun
          · simp only [PrefixCacheWithUpload.work, hqueue]

/-- From every state the upload can be drained. -/
theorem Inv.run_drain (h : st.Inv) :
    ∃ st', run UploadState.step st st.drainOps = .ok st' ∧ st'.Drained ∧
    st'.upload.cache = st.upload.cache := by
  obtain ⟨st₁, hrun, hqueue, hcache⟩ := run_work st rfl
  have h₁ : st₁.Inv := (Ensures.run (fun _ op h => Inv.step h op) h).of_ok hrun
  rw [drainOps, run_append, hrun]
  cases hswapped : st₁.swapped with
  | false =>
      have hback := h₁.back_of_not_swapped hswapped
      let u := st₁.upload.getUploadKvcacheEvents
      refine ⟨⟨(u.mergeEvents {}).2, false, st₁.windows ++ [(u.mergeEvents {}).1], st₁.scheduled⟩,
        ?_, ⟨hqueue, ?_, rfl⟩, hcache⟩
      · simp [Bind.bind, Except.bind, UploadState.step, hswapped, u]
      · simpa [u, PrefixCacheWithUpload.mergeEvents,
          PrefixCacheWithUpload.getUploadKvcacheEvents] using hback
  | true =>
      let u := (st₁.upload.mergeEvents {}).2.getUploadKvcacheEvents
      refine ⟨⟨(u.mergeEvents {}).2, false, st₁.windows ++ [(st₁.upload.mergeEvents {}).1] ++
        [(u.mergeEvents {}).1], st₁.scheduled⟩, ?_, ⟨hqueue, ?_, rfl⟩, hcache⟩
      · simp [Bind.bind, Except.bind, UploadState.step, hswapped, u]
      · simp [u, PrefixCacheWithUpload.mergeEvents, PrefixCacheWithUpload.getUploadKvcacheEvents]

/-- Uploads replay the cache, for every interleaving of the three threads: once
drained the receiver has the keys of the cache, and every state can be drained. -/
theorem run_upload_exact (blockSize : Nat) (ops : List UploadOp) :
    Ensures (run step (start blockSize) ops) (fun _ => True) (fun st =>
      (st.Drained → st.receiver = st.upload.cache.keys) ∧
      (∃ st', run step st st.drainOps = .ok st' ∧ st'.Drained ∧
        st'.upload.cache = st.upload.cache) ∧
      (∀ w ∈ st.windows, Disjoint w.stored w.removed) ∧ st.Segmented) :=
  (Ensures.run (fun _ op h => h.step op) (inv_start blockSize)).mono_post fun _ h =>
    ⟨h.receiver_of_drained, h.run_drain, h.disjoint, h.segmented⟩

end UploadState

end Xllm
