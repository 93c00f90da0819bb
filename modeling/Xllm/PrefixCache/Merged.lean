import Xllm.PrefixCache.Upload

/-!
# One window for several ranks

Every data-parallel rank has a prefix cache of its own, and a heartbeat merges
the windows of all ranks into one event. The event no longer says which rank
stored or removed a key: a key that one rank evicts is removed from the
receiver's view although another rank may still hold it. `mergedSound_iff` says
exactly when the receiver's view is right after a heartbeat.
-/

namespace Xllm

open Contract Delta

def PrefixCacheWithUpload.getMergedKvcacheEvent (u : PrefixCacheWithUpload)
    (event : KvCacheEvent) : KvCacheEvent × PrefixCacheWithUpload :=
  u.getUploadKvcacheEvents.mergeEvents event

/-- `get_merged_kvcache_event` of the pools: one manager after the other. -/
def getMergedKvcacheEvent : List PrefixCacheWithUpload → KvCacheEvent →
    KvCacheEvent × List PrefixCacheWithUpload
  | [], event => (event, [])
  | u :: us, event =>
      let (event, u) := u.getMergedKvcacheEvent event
      let (event, us) := getMergedKvcacheEvent us event
      (event, u :: us)

theorem getMergedKvcacheEvent_fst (us : List PrefixCacheWithUpload) (event : KvCacheEvent) :
    (getMergedKvcacheEvent us event).1 = (us.map (·.events.front)).foldl Window.unite event := by
  induction us generalizing event with
  | nil => rfl
  | cons u us ih =>
      rw [getMergedKvcacheEvent, ih]
      simp [PrefixCacheWithUpload.getMergedKvcacheEvent, PrefixCacheWithUpload.mergeEvents,
        PrefixCacheWithUpload.getUploadKvcacheEvents]

/-- Steps of the cache thread and of the worker, none of the heartbeat thread. -/
def UploadOp.betweenHeartbeats : UploadOp → Bool
  | .call _ => true
  | .work => true
  | .swap => false
  | .merge => false

/-- One rank between two heartbeats: `st` is reached by some run and has sent all
its events, and `st'` follows from it by calls whose tasks have all run. -/
structure RankWindow [XXH3] (blockSize : Nat) (st st' : UploadState) : Prop where
  reached : ∃ ops, run UploadState.step (.start blockSize) ops = .ok st
  drained : st.Drained
  follows : ∃ ops, (∀ op ∈ ops, op.betweenHeartbeats = true) ∧
    run UploadState.step st ops = .ok st'
  ran : st'.upload.queue = []

/-- A receiver that believed `R` before the heartbeat and applies the merged window
believes a key is cached exactly when some rank holds it. -/
def MergedSound (R : Finset XXH3Key) (ranks : List UploadState) : Prop :=
  ∀ key, key ∈ Window.apply R (getMergedKvcacheEvent (ranks.map (·.upload)) {}).1 ↔
    ∃ st ∈ ranks, key ∈ st.upload.cache.keys

section

variable [XXH3]

/-- Between heartbeats the front buffer records what has happened to the keys,
up to the tasks that are still queued. -/
structure Recorded (keys : Finset XXH3Key) (st : UploadState) : Prop where
  inv : st.Inv
  tasks : ∃ tasks, st.upload.events.front = Window.of (UploadState.edits tasks) ∧
    st.upload.cache.keys =
      replay keys (UploadState.edits (tasks ++ st.upload.queue))

theorem Recorded.step {keys : Finset XXH3Key} {st : UploadState} {op : UploadOp}
    (h : Recorded keys st) (hop : op.betweenHeartbeats = true) :
    IfOk (st.step op) (Recorded keys) := by
  obtain ⟨tasks, hfront, hkeys⟩ := h.tasks
  cases op with
  | call op =>
      have hinv := h.inv.step (.call op)
      rw [UploadState.step] at hinv ⊢
      have hcall := UploadState.call_ensures h.inv.wf op
      cases hr : st.upload.call op with
      | error e => exact trivial
      | ok r =>
          rw [hr] at hcall hinv
          refine ⟨hinv, tasks, ?_⟩
          simp only [UploadState.foldl_saveEventAsync]
          refine ⟨hfront, ?_⟩
          rw [← List.append_assoc, UploadState.edits_append, replay_append, ← hkeys]
          exact hcall.2
  | work =>
      refine ⟨h.inv.step .work, ?_⟩
      cases hqueue : st.upload.queue with
      | nil =>
          rw [hqueue] at hkeys
          refine ⟨tasks, ?_, ?_⟩ <;> simp only [PrefixCacheWithUpload.work, hqueue]
          · exact hfront
          · exact hkeys
      | cons task rest =>
          obtain ⟨isInsert, ks⟩ := task
          rw [hqueue] at hkeys
          refine ⟨tasks ++ [(isInsert, ks)], ?_, ?_⟩ <;>
            simp only [PrefixCacheWithUpload.work, hqueue, DoubleBuffer.setFront_front]
          · rw [saveEvent_eq, hfront, UploadState.edits_append, UploadState.edits_singleton,
              Window.of_append]
          · rw [hkeys, List.append_assoc, List.singleton_append]
  | swap => cases hop
  | merge => cases hop

theorem RankWindow.keys_eq {blockSize : Nat} {st st' : UploadState}
    (h : RankWindow blockSize st st') :
    st'.upload.cache.keys = Window.apply st.upload.cache.keys st'.upload.events.front := by
  obtain ⟨ops₀, hreached⟩ := h.reached
  have hinv : st.Inv := (Ensures.run (fun _ op h => UploadState.Inv.step h op)
    (UploadState.inv_start blockSize)).of_ok hreached
  have hstart : Recorded st.upload.cache.keys st :=
    ⟨hinv, [], h.drained.2.1, by simp [h.drained.1, UploadState.edits]⟩
  obtain ⟨ops, hquiet, hrun⟩ := h.follows
  have hrecorded : Recorded st.upload.cache.keys st' :=
    ((along_of_forall hquiet).ensures_run (fun _ _ h hop => h.step hop) hstart).of_ok hrun
  obtain ⟨tasks, hfront, hkeys⟩ := hrecorded.tasks
  rw [hkeys, hfront, h.ran, List.append_nil, Window.apply_of]

/-- After a heartbeat the receiver's view is right exactly when no key that some
rank has removed in the window, and no rank has stored, is held by a rank. -/
theorem mergedSound_iff {blockSize : Nat} {ranks : List (UploadState × UploadState)}
    (hranks : ∀ p ∈ ranks, RankWindow blockSize p.1 p.2) {R : Finset XXH3Key}
    (hR : ∀ key, key ∈ R ↔ ∃ p ∈ ranks, key ∈ p.1.upload.cache.keys) :
    MergedSound R (ranks.map Prod.snd) ↔
      ∀ key, (∃ p ∈ ranks, key ∈ p.2.upload.events.front.removed) →
        (∀ p ∈ ranks, key ∉ p.2.upload.events.front.stored) →
        ∀ p ∈ ranks, key ∉ p.2.upload.cache.keys := by
  let sets := ranks.map fun p => (p.1.upload.cache.keys, p.2.upload.events.front)
  have hsets : ∀ key, key ∈ R ↔ ∃ p ∈ sets, key ∈ p.1 := by
    simpa only [sets, List.mem_map, exists_exists_and_eq_and] using hR
  have hiff := Window.apply_unite_iff hsets
  have hnew : ∀ key, (∃ p ∈ ranks, key ∈ Window.apply p.1.upload.cache.keys
      p.2.upload.events.front) ↔ ∃ p ∈ ranks, key ∈ p.2.upload.cache.keys := by
    refine fun key => exists_congr fun p => and_congr_right fun hp => ?_
    rw [← (hranks p hp).keys_eq]
  have hkept : ∀ key, (∀ p ∈ ranks, key ∉ Window.apply p.1.upload.cache.keys
      p.2.upload.events.front) ↔ ∀ p ∈ ranks, key ∉ p.2.upload.cache.keys := by
    refine fun key => forall_congr' fun p => forall_congr' fun hp => ?_
    rw [← (hranks p hp).keys_eq]
  have hfronts : ((ranks.map Prod.snd).map (·.upload)).map (·.events.front) =
      sets.map Prod.snd := by
    simp only [sets, List.map_map]
    rfl
  simp only [MergedSound, getMergedKvcacheEvent_fst, hfronts]
  simp only [sets, List.mem_map, exists_exists_and_eq_and, forall_exists_index, and_imp,
    forall_apply_eq_imp_iff₂] at hiff ⊢
  simp only [hnew, hkept] at hiff
  exact hiff

end

section Closed

/-- A heap and a block for closed runs; the block is held by the cache alone. -/
private def oneBlock : BlockHeap × Block :=
  (⟨fun _ => 1, 1, [0, 0], 0⟩, { id := 1, refCount := some 0 })

/-- Cache the prefix `[7]` and send the event. -/
private def storeAndSend : List UploadOp :=
  [.call (.insert oneBlock.1 [7] [oneBlock.2] 0), .work, .swap, .merge]

/-- Evict one block and record it. -/
private def evictOne : List UploadOp := [.call (.evict oneBlock.1 1), .work]

/-- Cache the prefix `[8]` and record it. -/
private def storeOther : List UploadOp := [.call (.insert oneBlock.1 [8] [oneBlock.2] 0), .work]

/-- Two ranks hold the same key, one of them evicts it, and the receiver forgets
the key that the other one holds. -/
theorem merged_removal_hides_other_rank :
    let _ : XXH3 := XXH3.lastBytes
    ∃ st st' : UploadState, RankWindow 1 st st' ∧ RankWindow 1 st st ∧
      st.upload.cache.keys.Nonempty ∧ ¬MergedSound st.upload.cache.keys [st', st] := by
  intro _
  refine ⟨_, _, ⟨⟨storeAndSend, rfl⟩, ⟨rfl, rfl, rfl⟩, ⟨evictOne, by decide, rfl⟩, rfl⟩,
    ⟨⟨storeAndSend, rfl⟩, ⟨rfl, rfl, rfl⟩, ⟨[], by decide, rfl⟩, rfl⟩, ?_, ?_⟩
  · exact ⟨hashKey none [7], by decide +kernel⟩
  · intro hsound
    exact absurd ((hsound (hashKey none [7])).mpr ⟨_, List.mem_cons_of_mem _ List.mem_cons_self,
      by decide +kernel⟩) (by decide +kernel)

/-- One rank evicts its only block while the other one caches its first: the merged
window has a removal and a store, and the receiver's view is right. -/
theorem mergedSound_iff_evict_and_store :
    let _ : XXH3 := XXH3.lastBytes
    ∃ a a' b b' : UploadState, RankWindow 1 a a' ∧ RankWindow 1 b b' ∧
      a'.upload.events.front = ⟨∅, {hashKey none [7]}⟩ ∧
      b'.upload.events.front = ⟨{hashKey none [8]}, ∅⟩ ∧
      MergedSound a.upload.cache.keys [a', b'] := by
  intro _
  obtain ⟨a, a', b, b', ha, hb, hevicted, hstored, hempty, ha', hb'⟩ :
      ∃ a a' b b' : UploadState, RankWindow 1 a a' ∧ RankWindow 1 b b' ∧
        a'.upload.events.front = ⟨∅, {hashKey none [7]}⟩ ∧
        b'.upload.events.front = ⟨{hashKey none [8]}, ∅⟩ ∧
        b.upload.cache.keys = ∅ ∧ hashKey none [7] ∉ a'.upload.cache.keys ∧
        hashKey none [7] ∉ b'.upload.cache.keys :=
    ⟨_, _, _, _, ⟨⟨storeAndSend, rfl⟩, ⟨rfl, rfl, rfl⟩, ⟨evictOne, by decide, rfl⟩, rfl⟩,
      ⟨⟨[], rfl⟩, ⟨rfl, rfl, rfl⟩, ⟨storeOther, by decide, rfl⟩, rfl⟩, rfl,
      rfl, by decide +kernel, by decide +kernel, by decide +kernel⟩
  have hranks : ∀ p ∈ [(a, a'), (b, b')], RankWindow 1 p.1 p.2 := by simp [ha, hb]
  refine ⟨a, a', b, b', ha, hb, hevicted, hstored, ?_⟩
  refine (mergedSound_iff hranks (by simp [hempty])).mpr fun key hremoved _ => ?_
  obtain rfl : key = hashKey none [7] := by simpa [hevicted, hstored] using hremoved
  simp [ha', hb']

end Closed

end Xllm
