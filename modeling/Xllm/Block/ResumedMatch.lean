import Xllm.Block.Allocation
import Xllm.PrefixCache.Resume

/-!
# Matches that resume

A sequence keeps the shared blocks of an earlier match and passes them to the next
one. `MatchLog` is a manager with its callers and a log of the matches whose blocks
are all still held: the tokens that were matched, and the blocks that came back. A
held block has two handles, so no eviction takes it out of the cache, and no insert
replaces the entry of its key. So the blocks of the log lead their tokens in every
state, and a match that resumes from them ends like a match from scratch.

`ConcurrentBlockManagerImpl::allocate_shared` forwards the tokens only.
-/

namespace Xllm

open Contract Ledger

section

variable [XXH3]

/-- `ConcurrentBlockManagerImpl::allocate_shared`, under its lock: the existing
shared blocks are not passed on. -/
def BlockManagerImpl.concurrentAllocateShared (m : BlockManagerImpl) (tokensIds : List Token)
    (_existedSharedBlocks : List Block) : Except Check (List Block × BlockManagerImpl) :=
  m.allocateShared tokensIds []

theorem BlockManagerImpl.allocateShared_map_fst (m : BlockManagerImpl) (tokensIds : List Token)
    (existed : List Block) :
    (m.allocateShared tokensIds existed).map Prod.fst =
      if m.options.enablePrefixCache then
        (m.prefixCache.matchTokens m.heap tokensIds existed).map Prod.fst
      else .ok [] := by
  rw [allocateShared]
  split
  · cases m.prefixCache.matchTokens m.heap tokensIds existed <;> rfl
  · rfl

end

theorem Sound.Allocated.mem_entries {m m' : BlockManagerImpl} {live : Multiset (Handle Int)}
    {n : Nat} {bs : List Block} (h : Sound.Allocated m live n bs m') (hm : Sound m live)
    (hentries : ∀ b ∈ m.prefixCache.entries, b.refCount.isSome) {b : Block}
    (hb : b ∈ m.prefixCache.entries) (hheld : b.id ∈ ids live) : b ∈ m'.prefixCache.entries := by
  obtain ⟨k, hkept, -⟩ := h.swept
  rw [hkept]
  have hmem := (Lru.sweep_perm m.heap.isShared k m.prefixCache.entries).mem_iff.mpr hb
  rcases List.mem_append.mp hmem with hgone | hstays
  · exact absurd hheld (hm.count_of_not_shared hentries hb (Lru.not_inUse_of_mem_sweep hgone)).2
  · exact hstays

/-- A manager, the blocks its callers hold, and the matches whose blocks are all held. -/
structure MatchLog where
  state : ManagerState
  log : List (List Token × List Block) := []

namespace MatchLog

open ManagerState

variable {s t : MatchLog} {options : Options}

/-- The blocks came from an earlier match of a prefix of the tokens, if there are any. -/
def Resumes (s : MatchLog) (tokensIds : List Token) (existed : List Block) : Prop :=
  existed = [] ∨ ∃ e ∈ s.log, e.1 <+: tokensIds ∧ e.2 = existed

instance (s : MatchLog) (tokensIds : List Token) (existed : List Block) :
    Decidable (s.Resumes tokensIds existed) := inferInstanceAs (Decidable (_ ∨ _))

/-- The log after an operation that led to `t`. A match is logged when the blocks it
resumed from are those of a logged match. -/
def record (s : MatchLog) (op : ManagerOp) (t : ManagerState) : List (List Token × List Block) :=
  match op with
  | .allocateShared tokensIds start len =>
      if s.Resumes tokensIds (s.state.slice start len) then
        (tokensIds, t.held.drop s.state.held.length) :: s.log
      else s.log
  | _ => s.log

/-- One operation. Matches leave the log with the first of their blocks. -/
def step [XXH3] (s : MatchLog) (op : ManagerOp) : Except Check MatchLog := do
  let t ← s.state.step op
  .ok ⟨t, (s.record op t).filter fun e => ∀ b ∈ e.2, b ∈ t.held⟩

def CachesValid (s : MatchLog) (op : ManagerOp) : Prop := s.state.CachesValid op

instance (s : MatchLog) (op : ManagerOp) : Decidable (s.CachesValid op) :=
  inferInstanceAs (Decidable (s.state.CachesValid op))

section

variable [XXH3]

/-- The invariant: the blocks of every logged match are held, and they lead its tokens. -/
structure Logged (options : Options) (s : MatchLog) : Prop where
  tidy : Tidy options s.state
  held : ∀ e ∈ s.log, ∀ b ∈ e.2, b ∈ s.state.held
  leads : ∀ e ∈ s.log, s.state.manager.prefixCache.Leads e.1 e.2

/-- What the log rests on: one operation keeps the block size and the entries of the
held blocks. -/
theorem keeps_held {st : ManagerState} (h : Tidy options st) (op : ManagerOp) :
    IfOk (st.step op) fun t =>
      t.manager.prefixCache.blockSize = st.manager.prefixCache.blockSize ∧
        ∀ b ∈ st.held, b ∈ st.manager.prefixCache.entries →
          b ∈ t.manager.prefixCache.entries := by
  have hsize := h.inv.sound.blockSize_eq
  cases op with
  | allocate n =>
      refine (h.inv.sound.allocate n).ifOk.bind
        fun r hr => ⟨?_, fun b hheld hb => ?_⟩
      · exact hr.sound.blockSize_eq.trans
          ((congrArg Options.blockSize hr.options_eq).trans hsize.symm)
      · exact hr.mem_entries h.inv.sound h.entries_valid hb
          (id_mem_ids_handles hheld (h.entries_valid b hb))
  | allocateOne =>
      rw [ManagerState.step, BlockManagerImpl.allocateOne]
      split
      · exact ⟨rfl, fun _ _ hb => hb⟩
      · exact trivial
  | allocateShared tokens start len =>
      have hslice : ∀ b ∈ st.slice start len, b.handle ≤ handles st.held :=
        fun b hb => mem_held_of_mem_slice hb
      refine (h.inv.sound.allocateShared tokens hslice).ifOk.bind fun r hr =>
        ⟨?_, fun b _ hb => hr.entries_perm.mem_iff.mpr hb⟩
      exact hr.sound.blockSize_eq.trans
        ((congrArg Options.blockSize hr.options_eq).trans hsize.symm)
  | cache tokens start len k =>
      have hcache : IfOk (st.manager.cache tokens (st.slice start len) k)
          fun r => r.2.prefixCache.blockSize = st.manager.prefixCache.blockSize ∧
            st.manager.prefixCache.entries ⊆ r.2.prefixCache.entries := by
        rw [BlockManagerImpl.cache]
        split
        · have hinsert := PrefixCache.insert_ensures h.inv.sound.wf st.manager.heap tokens
            (st.slice start len) k
          refine hinsert.ifOk.bind fun r hr => ?_
          obtain ⟨-, -, -, hstored⟩ := hr
          refine ⟨hstored.blockSize_eq, fun b hb => ?_⟩
          exact (hstored.perm h.inv.sound.wf).mem_iff.mpr (List.mem_append_right _ hb)
        · exact ⟨rfl, fun _ hb => hb⟩
      exact hcache.bind fun r hr => ⟨hr.1, fun b _ hb => hr.2 hb⟩
  | cacheBlocks start len =>
      rw [ManagerState.step, BlockManagerImpl.cacheBlocks]
      split
      · have hstored := PrefixCache.insertBlocks_stored h.inv.sound.wf st.manager.heap
          (st.slice start len)
        refine ⟨hstored.blockSize_eq, fun b _ hb => ?_⟩
        exact (hstored.perm h.inv.sound.wf).mem_iff.mpr (List.mem_append_right _ hb)
      · exact ⟨rfl, fun _ _ hb => hb⟩
  | deallocate start len =>
      refine (h.inv.sound.deallocate (st.slice start len)).ifOk.bind fun m hm => ?_
      obtain ⟨-, ⟨used, rfl⟩, -⟩ := hm
      exact ⟨rfl, fun _ _ hb => hb⟩
  | copy i =>
      rw [ManagerState.step]
      split <;> exact ⟨rfl, fun _ _ hb => hb⟩
  | copyAssign i j =>
      rw [ManagerState.step]
      split
      · split
        · exact ⟨rfl, fun _ _ hb => hb⟩
        · exact ensures_any.bind fun _ _ => ⟨rfl, fun _ _ hb => hb⟩
      · exact ⟨rfl, fun _ _ hb => hb⟩
  | move i =>
      rw [ManagerState.step]
      split <;> exact ⟨rfl, fun _ _ hb => hb⟩
  | moveAssign i j =>
      rw [ManagerState.step]
      split
      · split
        · exact ⟨rfl, fun _ _ hb => hb⟩
        · exact ensures_any.bind fun _ _ => ⟨rfl, fun _ _ hb => hb⟩
      · exact ⟨rfl, fun _ _ hb => hb⟩
  | drop i =>
      rw [ManagerState.step]
      split
      · exact ensures_any.bind fun _ _ => ⟨rfl, fun _ _ hb => hb⟩
      · exact ⟨rfl, fun _ _ hb => hb⟩

theorem Logged.leads_of_resumes (h : Logged options s) {tokensIds : List Token}
    {existed : List Block} (hresumes : s.Resumes tokensIds existed) :
    s.state.manager.prefixCache.Leads tokensIds existed := by
  have hpos : 0 < s.state.manager.prefixCache.blockSize := by
    rw [h.tidy.inv.sound.blockSize_eq]
    exact h.tidy.inv.sound.blockSize_pos
  obtain rfl | ⟨e, he, hpre, rfl⟩ := hresumes
  · exact PrefixCache.leads_nil _ _
  · exact (h.leads e he).extend hpos hpre

theorem Logged.leads_returned (h : Logged options s) {tokensIds : List Token} {start len : Nat}
    (hresumes : s.Resumes tokensIds (s.state.slice start len)) {t : ManagerState}
    (hstep : s.state.step (.allocateShared tokensIds start len) = .ok t) :
    t.manager.prefixCache.Leads tokensIds (t.held.drop s.state.held.length) := by
  have hslice : ∀ b ∈ s.state.slice start len, b.handle ≤ handles s.state.held :=
    fun b hb => mem_held_of_mem_slice hb
  obtain ⟨⟨bs, m⟩, hshare, ht⟩ := bind_eq_ok hstep
  cases ht
  rw [List.drop_left]
  have hr := (h.tidy.inv.sound.allocateShared tokensIds hslice).of_ok hshare
  have hlist := s.state.manager.allocateShared_map_fst tokensIds (s.state.slice start len)
  rw [hshare] at hlist
  have hsize : m.prefixCache.blockSize = s.state.manager.prefixCache.blockSize :=
    hr.sound.blockSize_eq.trans ((congrArg Options.blockSize hr.options_eq).trans
      h.tidy.inv.sound.blockSize_eq.symm)
  have hleads : s.state.manager.prefixCache.Leads tokensIds bs := by
    split at hlist
    · rw [PrefixCache.matchTokens_resume h.tidy.inv.sound.wf (h.leads_of_resumes hresumes) _
        s.state.manager.heap] at hlist
      exact PrefixCache.leads_of_match h.tidy.inv.sound.wf hlist.symm
    · cases hlist
      exact PrefixCache.leads_nil _ _
  exact hleads.of_mem hsize fun b hb => hr.entries_perm.mem_iff.mpr (hleads.cached b hb)

theorem Logged.step (h : Logged options s) (op : ManagerOp) (hop : s.CachesValid op) :
    IfOk (s.step op) (Logged options) := by
  rw [MatchLog.step]
  cases hstep : s.state.step op with
  | error e => exact trivial
  | ok t =>
      have htidy := (h.tidy.step op hop).of_ok hstep
      obtain ⟨hsize, hkeep⟩ := (keeps_held h.tidy op).of_ok hstep
      have hall : ∀ e ∈ (s.record op t).filter fun e => ∀ b ∈ e.2, b ∈ t.held,
          e ∈ s.record op t ∧ ∀ b ∈ e.2, b ∈ t.held := by
        intro e he
        simpa using List.mem_filter.mp he
      have hold : ∀ e ∈ s.log, t.manager.prefixCache.Leads e.1 e.2 := fun e he =>
        (h.leads e he).of_mem hsize fun b hb =>
          hkeep b (h.held e he b hb) ((h.leads e he).cached b hb)
      refine ⟨htidy, fun e he => (hall e he).2, fun e he => ?_⟩
      have hmem := (hall e he).1
      cases op with
      | allocateShared tokens start len =>
          rw [record] at hmem
          split at hmem
          · rename_i hresumes
            rcases List.mem_cons.mp hmem with rfl | hmem
            · exact h.leads_returned hresumes hstep
            · exact hold e hmem
          · exact hold e hmem
      | _ => exact hold e hmem

/-- In every state that a new manager and its callers reach, a match that resumes from
the held blocks of an earlier match of a prefix ends like a match from scratch, and the
concurrent manager returns the list of the plain one. -/
theorem run_resumed_match {m : BlockManagerImpl}
    (hcreate : BlockManagerImpl.create options = .ok m) {ops : List ManagerOp}
    (along : Along step CachesValid ⟨⟨m, []⟩, []⟩ ops) :
    Ensures (run step ⟨⟨m, []⟩, []⟩ ops) (fun _ => True) fun s =>
      ∀ tokensIds existed heap, s.Resumes tokensIds existed →
        (s.state.manager.prefixCache.matchTokens heap tokensIds existed).map Prod.fst =
            (s.state.manager.prefixCache.matchTokens heap tokensIds []).map Prod.fst ∧
          (s.state.manager.concurrentAllocateShared tokensIds existed).map Prod.fst =
            (s.state.manager.allocateShared tokensIds existed).map Prod.fst := by
  obtain ⟨hsound, hoptions, -, hempty⟩ := Sound.of_create hcreate
  have hstart : Logged options ⟨⟨m, []⟩, []⟩ :=
    ⟨⟨⟨hsound, hoptions⟩, by simp [hempty]⟩, by simp, by simp⟩
  refine (along.ensures_run (fun s op h hop => h.step op hop) hstart).mono_post
    fun s h tokensIds existed heap hresumes => ?_
  have hwf := h.tidy.inv.sound.wf
  have hleads := h.leads_of_resumes hresumes
  refine ⟨PrefixCache.matchTokens_resume hwf hleads heap heap, ?_⟩
  rw [BlockManagerImpl.concurrentAllocateShared, BlockManagerImpl.allocateShared_map_fst,
    BlockManagerImpl.allocateShared_map_fst, PrefixCache.matchTokens_resume hwf hleads]

end

theorem run_resumed_match_evicting :
    let _ : XXH3 := XXH3.lastBytes
    ∃ m, BlockManagerImpl.create ⟨5, 1, true⟩ = .ok m ∧
      Ensures (run step ⟨⟨m, []⟩, []⟩
          [.allocate 3, .cache [1, 2, 3] 0 3 0, .drop 0, .drop 0, .drop 0,
            .allocateShared [1] 0 0, .allocate 2])
        (fun _ => True) fun s => ∀ tokensIds existed heap, s.Resumes tokensIds existed →
          (s.state.manager.prefixCache.matchTokens heap tokensIds existed).map Prod.fst =
              (s.state.manager.prefixCache.matchTokens heap tokensIds []).map Prod.fst ∧
            (s.state.manager.concurrentAllocateShared tokensIds existed).map Prod.fst =
              (s.state.manager.allocateShared tokensIds existed).map Prod.fst := by
  intro hash
  have hcreate : BlockManagerImpl.create ⟨5, 1, true⟩ = .ok _ := rfl
  refine ⟨_, hcreate, @run_resumed_match ⟨5, 1, true⟩ _ _ hcreate _ ?_⟩
  decide +kernel

end MatchLog

end Xllm
