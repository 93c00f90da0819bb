import Xllm.Batch.MPositionSpans

/-!
# Positions by groups of tokens

`get_positions_glm` sorts the tokens into text, images and the frames of videos, and numbers one
group of equal tokens after the other. On a prompt with text behind it this is the position matrix.
A generated placeholder opens a group for which there is no grid.
-/

namespace Xllm

open Util List

def visionType (isVideo : Bool) : TokenType := if isVideo then .video else .image

@[simp] theorem inputTokenType_append (args : MRopeArgs) (inVideo : Bool) (xs ys : List Token) :
    inputTokenType args inVideo (xs ++ ys) =
      inputTokenType args inVideo xs ++
        inputTokenType args (xs.foldl (inVideoBehind args) inVideo) ys := by
  induction xs generalizing inVideo with
  | nil => rfl
  | cons token xs ih => simp [inputTokenType, ih]

@[simp] theorem inputTokenType_text {args : MRopeArgs} {inVideo : Bool} {tokens : List Token}
    (h : args.imageTokenId ∉ tokens) :
    inputTokenType args inVideo tokens = replicate tokens.length .text := by
  induction tokens generalizing inVideo with
  | nil => rfl
  | cons token tokens ih =>
      rw [mem_cons, not_or] at h
      rw [inputTokenType, ih h.2, if_neg (Ne.symm h.1), length_cons, replicate_succ]

theorem exists_visionType {args : MRopeArgs} (inVideo : Bool) {tokens : List Token}
    (h : args.imageTokenId ∈ tokens) : ∃ type ∈ inputTokenType args inVideo tokens,
      type ≠ .text := by
  induction tokens generalizing inVideo with
  | nil => simp at h
  | cons token tokens ih =>
      by_cases htoken : token = args.imageTokenId
      · refine ⟨_, mem_cons_self, ?_⟩
        rw [if_pos htoken]
        split <;> simp
      · obtain ⟨type, hmem, hne⟩ := ih (inVideoBehind args inVideo token)
          ((List.mem_cons.mp h).resolve_left (Ne.symm htoken))
        exact ⟨type, mem_cons_of_mem _ hmem, hne⟩

def groupsAt (i : Nat) : List TokenType → List (TokenType × Nat × Nat)
  | [] => []
  | type :: rest => groupFrom type i (i + 1) rest

theorem groupFrom_replicate (key : TokenType) (start i n : Nat) {rest : List TokenType}
    (hrest : ∀ type ∈ rest.head?, type ≠ key) :
    groupFrom key start i (replicate n key ++ rest) =
      (key, start, i + n) :: groupsAt (i + n) rest := by
  induction n generalizing i with
  | zero =>
      cases rest with
      | nil => rfl
      | cons type rest =>
          have hne : type ≠ key := hrest type rfl
          rw [replicate_zero, nil_append, groupFrom, if_pos hne]
          rfl
  | succ n ih =>
      rw [replicate_succ, cons_append, groupFrom, if_neg (by simp), ih]
      rw [Nat.add_right_comm, Nat.add_assoc]

theorem groupsAt_replicate (key : TokenType) (i : Nat) {n : Nat} (hn : 0 < n)
    {rest : List TokenType} (hrest : ∀ type ∈ rest.head?, type ≠ key) :
    groupsAt i (replicate n key ++ rest) = (key, i, i + n) :: groupsAt (i + n) rest := by
  obtain ⟨m, rfl⟩ := Nat.exists_eq_succ_of_ne_zero hn.ne'
  rw [replicate_succ, cons_append, groupsAt, groupFrom_replicate key i (i + 1) m hrest]
  rw [Nat.add_assoc, Nat.add_comm 1 m]

theorem exists_group {type : TokenType} {types : List TokenType} (key : TokenType)
    (start i : Nat) (h : type = key ∨ type ∈ types) :
    ∃ group ∈ groupFrom key start i types, group.1 = type := by
  induction types generalizing key start i with
  | nil =>
      obtain rfl := h.resolve_right (by simp)
      exact ⟨_, List.mem_singleton.mpr rfl, rfl⟩
  | cons x types ih =>
      rw [groupFrom]
      split
      · rcases h with rfl | h
        · exact ⟨_, mem_cons_self, rfl⟩
        · obtain ⟨group, hmem, hgroup⟩ := ih x i (i + 1) (List.mem_cons.mp h)
          exact ⟨group, mem_cons_of_mem _ hmem, hgroup⟩
      · rename_i hx
        have hx : x = key := not_not.mp hx
        refine ih key start (i + 1) ?_
        rcases h with h | h
        · exact .inl h
        · exact (List.mem_cons.mp h).imp (·.trans hx) id

def blockGroups (b : VisionBlock) (start : Nat) : List (TokenType × Nat × Nat) :=
  [(.text, start, start + b.text.length),
    (visionType b.isVideo, start + b.text.length,
      start + b.text.length + b.t * b.h * b.w)]

def groupsOfBlocks : Nat → List VisionBlock → List (TokenType × Nat × Nat)
  | _, [] => []
  | start, b :: rest =>
      blockGroups b start ++ groupsOfBlocks (start + b.text.length + b.t * b.h * b.w) rest

/-- The text of every block ends where placeholders of its kind follow. -/
def Tracked (args : MRopeArgs) : Bool → List VisionBlock → Prop
  | _, [] => True
  | inVideo, b :: rest =>
      (args.imageTokenId ∉ b.text ∧ b.text ≠ [] ∧ 0 < b.t * b.h * b.w ∧
        b.text.foldl (inVideoBehind args) inVideo = b.isVideo) ∧ Tracked args b.isVideo rest

def inVideoAfter (inVideo : Bool) (bs : List VisionBlock) : Bool :=
  bs.foldl (fun _ b => b.isVideo) inVideo

theorem tracked_append {args : MRopeArgs} {inVideo : Bool} {bs cs : List VisionBlock} :
    Tracked args inVideo (bs ++ cs) ↔
      Tracked args inVideo bs ∧ Tracked args (inVideoAfter inVideo bs) cs := by
  induction bs generalizing inVideo with
  | nil => simp [Tracked, inVideoAfter]
  | cons b bs ih => simp [Tracked, ih, inVideoAfter, and_assoc]

section Types

variable {args : MRopeArgs}

theorem markers_glm (hargs : args.Valid) (hkind : args.kind = .glm4v) :
    args.imageTokenId ≠ args.videoStartTokenId ∧ args.imageTokenId ≠ args.videoEndTokenId ∧
      args.videoStartTokenId ≠ args.videoEndTokenId := by
  have hnodup := hargs.markers_nodup
  simp only [MRopeArgs.markers] at hnodup
  simp_all

theorem foldl_inVideo_plain (hkind : args.kind = .glm4v) {tokens : List Token}
    (h : PlainText args tokens) (inVideo : Bool) :
    tokens.foldl (inVideoBehind args) inVideo = inVideo := by
  induction tokens with
  | nil => rfl
  | cons token tokens ih =>
      have htoken := h token mem_cons_self
      simp only [MRopeArgs.markers, hkind, mem_cons, not_mem_nil, or_false, not_or]
        at htoken
      rw [foldl_cons, inVideoBehind, if_neg htoken.2.1, if_neg htoken.2.2]
      exact ih fun t ht => h t (mem_cons_of_mem _ ht)

theorem inputTokenType_placeholders (hargs : args.Valid) (hkind : args.kind = .glm4v)
    (isVideo : Bool) (n : Nat) :
    inputTokenType args isVideo (replicate n args.imageTokenId) =
        replicate n (visionType isVideo) ∧
      (replicate n args.imageTokenId).foldl (inVideoBehind args) isVideo = isVideo := by
  obtain ⟨hstart, hend, -⟩ := markers_glm hargs hkind
  have hbehind : inVideoBehind args isVideo args.imageTokenId = isVideo := by
    rw [inVideoBehind, if_neg hstart, if_neg hend]
  induction n with
  | zero => exact ⟨rfl, rfl⟩
  | succ n ih =>
      rw [replicate_succ, inputTokenType, foldl_cons, hbehind, ih.1, ih.2]
      exact ⟨by cases isVideo <;> simp [visionType, replicate_succ], rfl⟩

theorem visionType_ne_text (isVideo : Bool) : visionType isVideo ≠ .text := by
  cases isVideo <;> decide

theorem head_inputTokenType {inVideo : Bool} {tokens : List Token}
    (h : ∀ token ∈ tokens.head?, token ≠ args.imageTokenId) :
    ∀ type ∈ (inputTokenType args inVideo tokens).head?, type = .text := by
  cases tokens with
  | nil => simp [inputTokenType]
  | cons token tokens =>
      have htoken : token ≠ args.imageTokenId := h token rfl
      simp [inputTokenType, htoken]

theorem Tracked.head {inVideo : Bool} {bs : List VisionBlock} (hbs : Tracked args inVideo bs)
    {tail : List Token} (htail : ∀ token ∈ tail.head?, token ≠ args.imageTokenId) :
    ∀ token ∈ (bs.flatMap (·.tokens args) ++ tail).head?, token ≠ args.imageTokenId := by
  cases bs with
  | nil => exact htail
  | cons b bs =>
      obtain ⟨htext, hne, -, -⟩ := hbs.1
      obtain ⟨x, text, hx⟩ := exists_cons_of_ne_nil hne
      intro token htoken
      simp only [flatMap_cons, VisionBlock.tokens, hx, cons_append, head?_cons,
        Option.mem_some_iff] at htoken
      rintro rfl
      exact htext (by simp [hx, htoken])

theorem groupsAt_blocks (hargs : args.Valid) (hkind : args.kind = .glm4v) {inVideo : Bool}
    {bs : List VisionBlock} (hbs : Tracked args inVideo bs) (start : Nat) {tail : List Token}
    (htail : ∀ token ∈ tail.head?, token ≠ args.imageTokenId) :
    ∃ v i, groupsAt start (inputTokenType args inVideo (bs.flatMap (·.tokens args) ++ tail)) =
      groupsOfBlocks start bs ++ groupsAt i (inputTokenType args v tail) := by
  induction bs generalizing inVideo start with
  | nil => exact ⟨inVideo, start, rfl⟩
  | cons b bs ih =>
      obtain ⟨⟨htext, hne, hpos, hvideo⟩, hrest⟩ := hbs
      obtain ⟨v, i, hv⟩ := ih hrest (start + b.text.length + b.t * b.h * b.w)
      have hplaceholder : args.placeholder b.isVideo = args.imageTokenId := by
        simp [MRopeArgs.placeholder, hkind]
      have htypes : inputTokenType args inVideo ((b :: bs).flatMap (·.tokens args) ++ tail) =
          replicate b.text.length .text ++
            (replicate (b.t * b.h * b.w) (visionType b.isVideo) ++
              inputTokenType args b.isVideo (bs.flatMap (·.tokens args) ++ tail)) := by
        obtain ⟨hph, hstate⟩ := inputTokenType_placeholders hargs hkind b.isVideo (b.t * b.h * b.w)
        rw [flatMap_cons, VisionBlock.tokens, VisionBlock.placeholders, hplaceholder,
          append_assoc, append_assoc, inputTokenType_append, inputTokenType_text htext,
          hvideo, inputTokenType_append, hph, hstate]
      refine ⟨v, i, ?_⟩
      rw [htypes, groupsAt_replicate _ _ (List.length_pos_iff.mpr hne) ?_,
        groupsAt_replicate _ _ hpos ?_, hv]
      · rfl
      · intro type htype
        rw [head_inputTokenType (hrest.head htail) type htype]
        exact (visionType_ne_text _).symm
      · obtain ⟨n, hn⟩ := Nat.exists_eq_succ_of_ne_zero hpos.ne'
        intro type htype
        rw [hn, replicate_succ, cons_append, head?_cons,
          Option.mem_some_iff] at htype
        rw [← htype]
        exact visionType_ne_text _

end Types

def FramesLeft (videoGrid : List GridThw) (idx group : Nat) (frames : List GridThw) : Prop :=
  (videoGrid.drop idx = [] ∧ frames = []) ∨
    ∃ g gs, videoGrid.drop idx = g :: gs ∧ group < g.t ∧
      frames = replicate (g.t - group) { g with t := 1 } ++ frameGrids gs

variable {videoGrid : List GridThw}

theorem framesLeft_start (hpos : ∀ g ∈ videoGrid, 0 < g.t)
    (idx : Nat) : FramesLeft videoGrid idx 0 (frameGrids (videoGrid.drop idx)) := by
  cases hdrop : videoGrid.drop idx with
  | nil => exact .inl ⟨hdrop, rfl⟩
  | cons g gs =>
      have hmem : g ∈ videoGrid := mem_of_mem_drop (by rw [hdrop]; exact mem_cons_self)
      exact .inr ⟨g, gs, hdrop, hpos g hmem, by simp [frameGrids]⟩

theorem FramesLeft.exhausted {idx group : Nat}
    (h : FramesLeft videoGrid idx group []) : rowAt videoGrid idx = .error .index := by
  rcases h with ⟨hdrop, -⟩ | ⟨g, gs, -, hgroup, hframes⟩
  · have hnone : videoGrid[idx]? = none := getElem?_eq_none (List.drop_eq_nil_iff.mp hdrop)
    simp [rowAt, hnone]
  · obtain ⟨n, hn⟩ : ∃ n, g.t - group = n + 1 := ⟨g.t - group - 1, by omega⟩
    simp [hn] at hframes

theorem FramesLeft.next {idx group : Nat} {frame : GridThw}
    {frames : List GridThw} (hpos : ∀ g ∈ videoGrid, 0 < g.t)
    (h : FramesLeft videoGrid idx group (frame :: frames)) :
    ∃ g, rowAt videoGrid idx = .ok g ∧ frame = { g with t := 1 } ∧
      FramesLeft videoGrid
        (if decide (g.t ≤ group + 1) = true then idx + 1 else idx)
        (if decide (g.t ≤ group + 1) = true then 0 else group + 1) frames := by
  rcases h with ⟨-, hframes⟩ | ⟨g, gs, hdrop, hgroup, hframes⟩
  · cases hframes
  · have hget : videoGrid[idx]? = some g := by
      have hfirst : (videoGrid.drop idx)[0]? = videoGrid[idx + 0]? := getElem?_drop
      simpa [hdrop] using hfirst.symm
    have hdropNext : videoGrid.drop (idx + 1) = gs := by
      rw [← drop_drop, hdrop]
      rfl
    obtain ⟨n, hn⟩ : ∃ n, g.t - group = n + 1 := ⟨g.t - group - 1, by omega⟩
    rw [hn, replicate_succ, cons_append] at hframes
    obtain ⟨rfl, rfl⟩ := hframes
    refine ⟨g, by simp [rowAt, hget], rfl, ?_⟩
    by_cases hlast : g.t ≤ group + 1
    · obtain rfl : n = 0 := by omega
      simp only [hlast]
      rw [← hdropNext]
      exact framesLeft_start hpos (idx + 1)
    · simp only [hlast, decide_false, Bool.false_eq_true, if_false]
      refine .inr ⟨g, gs, hdrop, by omega, ?_⟩
      rw [show g.t - (group + 1) = n by omega]

/-- The loop over the groups has placed the blocks `done`. -/
structure GroupAt (args : MRopeArgs) (data : MRopeData) (done rest : List VisionBlock)
    (s : GroupWalk) : Prop where
  imageIndex : s.imageIndex = (blocksOf false done).length
  frames : FramesLeft data.videoGridThw s.videoIndex s.videoGroupIndex
    ((blocksOf true rest).map (·.gridThw args))
  placed : Placed s.llmPosIds (done.foldl VisionBlock.place [])

section Step

variable {args : MRopeArgs} {data : MRopeData} {bs done rest : List VisionBlock} {b : VisionBlock}
  {s : GroupWalk}

theorem groupStep_text {columns : List PosColumn} (h : Placed s.llmPosIds columns) (i n : Nat) :
    groupStep args data s (.text, i, i + n) =
      .ok { s with
        llmPosIds := s.llmPosIds ++ [textPos n (topPosition columns)]
        videoFrameNum := 1 } := by
  rw [groupStep, h.next]
  simp only [Nat.add_sub_cancel_left]
  rfl

/-- The rows of the tensors are those of the blocks, and frames are numbered one by one. -/
structure GlmRows (args : MRopeArgs) (data : MRopeData) (bs : List VisionBlock) : Prop where
  merge_pos : 0 < args.mmSpatialMergeSize
  images : data.imageGridThw = (blocksOf false bs).map (·.gridThw args)
  videos : frameGrids data.videoGridThw = (blocksOf true bs).map (·.gridThw args)
  videos_pos : ∀ g ∈ data.videoGridThw, 0 < g.t
  scale : ∀ b ∈ bs, b.scale = 1

theorem gridThw_merged (hmerge : 0 < args.mmSpatialMergeSize) (b : VisionBlock) :
    (b.gridThw args).h / args.mmSpatialMergeSize = b.h ∧
      (b.gridThw args).w / args.mmSpatialMergeSize = b.w :=
  ⟨Nat.mul_div_cancel _ hmerge, Nat.mul_div_cancel _ hmerge⟩

/-- One group of vision tokens. -/
theorem groupStep_vision (hrows : GlmRows args data bs) (hbs : bs = done ++ b :: rest)
    {columns : List PosColumn} (hplaced : Placed s.llmPosIds columns)
    (himage : s.imageIndex = (blocksOf false done).length)
    (hframes : FramesLeft data.videoGridThw s.videoIndex s.videoGroupIndex
      ((blocksOf true (b :: rest)).map (·.gridThw args)))
    (hframe : s.videoFrameNum = 1) (i j : Nat) :
    ∃ s', groupStep args data s (visionType b.isVideo, i, j) = .ok s' ∧
      s'.llmPosIds = s.llmPosIds ++ [(gridPos b.t b.h b.w (scaledIndex b.scale)).map
        (·.shift (topPosition columns))] ∧
      s'.imageIndex = (blocksOf false (done ++ [b])).length ∧
      FramesLeft data.videoGridThw s'.videoIndex s'.videoGroupIndex
        ((blocksOf true rest).map (·.gridThw args)) := by
  obtain ⟨hh, hw⟩ := gridThw_merged hrows.merge_pos b
  have hscale : scaledIndex b.scale = fun i : Nat => (i : Int) := by
    rw [hrows.scale b (by simp [hbs]), scaledIndex_one]
  cases hvideo : b.isVideo with
  | false =>
      have hrow : rowAt data.imageGridThw s.imageIndex = .ok (b.gridThw args) := by
        rw [hrows.images, himage, hbs]
        exact rowAt_next _ false hvideo
      refine ⟨_, by
        rw [groupStep, hplaced.next]
        simp only [hrow, Contract.ok_bind, hh, hw]
        rfl, by rw [hscale]; rfl, ?_, ?_⟩
      · simp [himage, blocksOf, hvideo]
      · simpa [blocksOf, hvideo] using hframes
  | true =>
      have hcons : (blocksOf true (b :: rest)).map (·.gridThw args) =
          b.gridThw args :: (blocksOf true rest).map (·.gridThw args) := by
        simp [blocksOf, hvideo]
      rw [hcons] at hframes
      obtain ⟨g, hrow, hgrid, hnext⟩ := hframes.next hrows.videos_pos
      have ht : b.t = 1 := congrArg GridThw.t hgrid
      have hgh : g.h / args.mmSpatialMergeSize = b.h := by
        rw [← hh, hgrid]
      have hgw : g.w / args.mmSpatialMergeSize = b.w := by
        rw [← hw, hgrid]
      refine ⟨_, by
        rw [groupStep, hplaced.next]
        simp only [hrow, Contract.ok_bind, hgh, hgw, hframe]
        rfl, ?_, ?_, hnext⟩
      · rw [hscale, ht]
        rfl
      · simp [himage, blocksOf, hvideo]

theorem foldlM_blocks (hrows : GlmRows args data bs) (hbs : bs = done ++ rest)
    (hpos : ∀ b ∈ bs, b.text ≠ [] ∧ 0 < b.t ∧ 0 < b.h ∧ 0 < b.w)
    (hat : GroupAt args data done rest s) (start : Nat) (more : List (TokenType × Nat × Nat)) :
    ∃ s', (groupsOfBlocks start rest ++ more).foldlM (groupStep args data) s =
        more.foldlM (groupStep args data) s' ∧ GroupAt args data bs [] s' := by
  induction rest generalizing done s start with
  | nil =>
      refine ⟨s, rfl, ?_⟩
      rw [hbs, append_nil]
      exact hat
  | cons b rest ih =>
      obtain ⟨hne, ht, hh, hw⟩ := hpos b (by simp [hbs])
      have htext := hat.placed.push_text (List.length_pos_iff.mpr hne)
      obtain ⟨u, hstep, hids, himage, hframes⟩ := groupStep_vision
        (s := { s with
          llmPosIds := s.llmPosIds ++
            [textPos b.text.length (topPosition (done.foldl VisionBlock.place []))]
          videoFrameNum := 1 }) hrows hbs htext hat.imageIndex hat.frames rfl
        (start + b.text.length) (start + b.text.length + b.t * b.h * b.w)
      have hplaced : Placed u.llmPosIds ((done ++ [b]).foldl VisionBlock.place []) := by
        rw [hids]
        exact placed_step hat.placed (List.length_pos_iff.mpr hne) ht hh hw
      obtain ⟨s', hfold, hend⟩ := ih (by simp [hbs]) ⟨himage, hframes, hplaced⟩
        (start + b.text.length + b.t * b.h * b.w)
      refine ⟨s', ?_, hend⟩
      rw [groupsOfBlocks, blockGroups, append_assoc, cons_append, foldlM_cons,
        groupStep_text hat.placed, Contract.ok_bind, cons_append, foldlM_cons, hstep,
        Contract.ok_bind, nil_append, hfold]

theorem foldlM_exhausted (args : MRopeArgs)
    (himage : rowAt data.imageGridThw s.imageIndex = .error .index)
    (hvideo : rowAt data.videoGridThw s.videoIndex = .error .index)
    {groups : List (TokenType × Nat × Nat)} (h : ∃ group ∈ groups, group.1 ≠ .text) :
    ∃ e, groups.foldlM (groupStep args data) s = .error e := by
  induction groups generalizing s with
  | nil =>
      obtain ⟨group, hmem, -⟩ := h
      cases hmem
  | cons group groups ih =>
      rw [foldlM_cons]
      cases hnext : nextStIdx s.llmPosIds with
      | error e => exact ⟨e, by simp [groupStep, hnext]; rfl⟩
      | ok stIdx =>
          obtain ⟨type, i, j⟩ := group
          cases type with
          | image => exact ⟨.index, by simp [groupStep, hnext, himage]; rfl⟩
          | video => exact ⟨.index, by simp [groupStep, hnext, hvideo]; rfl⟩
          | text =>
              have hrest : ∃ group ∈ groups, group.1 ≠ .text := by
                obtain ⟨group, hmem, hne⟩ := h
                rcases List.mem_cons.mp hmem with rfl | hmem
                · exact absurd rfl hne
                · exact ⟨group, hmem, hne⟩
              simp only [groupStep, hnext]
              exact ih himage hvideo hrest

end Step

section Layout

variable {args : MRopeArgs}

/-- The blocks of a layout behind the text `pending` are tracked, and the text behind them,
without placeholders, leaves it at `after` whether there is a video. -/
structure TrackedLayout (args : MRopeArgs) (inVideo after : Bool) (pending : List Token)
    (pieces : List MMPiece) : Prop where
  blocks : Tracked args inVideo (visionBlocks pending pieces).1
  sizes : ∀ b ∈ (visionBlocks pending pieces).1, b.text ≠ [] ∧ 0 < b.t ∧ 0 < b.h ∧ 0 < b.w
  tail : args.imageTokenId ∉ (visionBlocks pending pieces).2
  behind : pending ≠ [] ∨ (visionBlocks pending pieces).1 ≠ [] →
    (visionBlocks pending pieces).2 ≠ []
  after : (visionBlocks pending pieces).2.foldl (inVideoBehind args)
    (inVideoAfter inVideo (visionBlocks pending pieces).1) = after

theorem trackedLayout_text {inVideo after : Bool} {pending tokens : List Token}
    (htail : args.imageTokenId ∉ pending ++ tokens)
    (hafter : (pending ++ tokens).foldl (inVideoBehind args) inVideo = after) :
    TrackedLayout args inVideo after pending [.text tokens] where
  blocks := trivial
  sizes := by simp [visionBlocks]
  tail := htail
  behind := by
    intro hne hnil
    exact hne.elim (fun h => h (List.append_eq_nil_iff.mp hnil).1) fun h => h rfl
  after := hafter

theorem trackedLayout_grid {inVideo isVideo after : Bool} {pending front back : List Token}
    {t h w : Nat} {scale : ℚ≥0} (hpending : args.imageTokenId ∉ pending ++ front)
    (hvideo : (pending ++ front).foldl (inVideoBehind args) inVideo = isVideo)
    (hfront : front ≠ []) (hback : args.imageTokenId ∉ back) (hne : back ≠ [])
    (hafter : back.foldl (inVideoBehind args) isVideo = after)
    (ht : 0 < t) (hh : 0 < h) (hw : 0 < w) :
    TrackedLayout args inVideo after pending
      [.text front, .grid isVideo t h w scale, .text back] where
  blocks := ⟨⟨hpending, by simp [hfront], Nat.mul_pos (Nat.mul_pos ht hh) hw, hvideo⟩, trivial⟩
  sizes := by
    intro b hb
    obtain rfl := List.mem_singleton.mp hb
    exact ⟨by simp [hfront], ht, hh, hw⟩
  tail := by simpa [visionBlocks] using hback
  behind := by simp [visionBlocks, hne]
  after := by simpa [visionBlocks, inVideoAfter] using hafter

variable {pending : List Token}

theorem TrackedLayout.append {inVideo v v' : Bool} {xs ys : List MMPiece}
    (hxs : TrackedLayout args inVideo v pending xs)
    (hys : TrackedLayout args (inVideoAfter inVideo (visionBlocks pending xs).1) v'
      (visionBlocks pending xs).2 ys) :
    TrackedLayout args inVideo v' pending (xs ++ ys) := by
  constructor <;> rw [visionBlocks_append]
  · exact tracked_append.mpr ⟨hxs.blocks, hys.blocks⟩
  · intro b hb
    rcases List.mem_append.mp hb with hb | hb
    · exact hxs.sizes b hb
    · exact hys.sizes b hb
  · exact hys.tail
  · intro hne
    refine hys.behind ?_
    by_cases hnil : (visionBlocks (visionBlocks pending xs).2 ys).1 = []
    · refine .inl (hxs.behind (hne.imp_right fun hblocks hxsNil => hblocks ?_))
      rw [hnil, hxsNil, append_nil]
    · exact .inr hnil
  · have hafter := hys.after
    simp only [inVideoAfter, foldl_append] at hafter ⊢
    exact hafter

theorem plain_delimiters (hargs : args.Valid) (hkind : args.kind = .glm4v) :
    PlainText args [args.imageStartTokenId] ∧ PlainText args [args.imageEndTokenId] := by
  have hdelimiters := hargs.delimiters
  simp only [hkind] at hdelimiters
  exact ⟨fun t ht => hdelimiters t (by simp_all), fun t ht => hdelimiters t (by simp_all)⟩

theorem not_mem_of_plain (hkind : args.kind = .glm4v) {tokens : List Token}
    (h : PlainText args tokens) : args.imageTokenId ∉ tokens := by
  intro hmem
  have := h _ hmem
  simp [MRopeArgs.markers, hkind] at this

theorem plain_behind (hkind : args.kind = .glm4v) {pending tokens : List Token} {inVideo v : Bool}
    (hpending : args.imageTokenId ∉ pending)
    (hvideo : pending.foldl (inVideoBehind args) inVideo = v) (htokens : PlainText args tokens) :
    args.imageTokenId ∉ pending ++ tokens ∧
      (pending ++ tokens).foldl (inVideoBehind args) inVideo = v := by
  rw [mem_append, foldl_append, hvideo, foldl_inVideo_plain hkind htokens]
  exact ⟨fun h => h.elim hpending (not_mem_of_plain hkind htokens), rfl⟩

theorem trackedLayout_frames (hargs : args.Valid) (hkind : args.kind = .glm4v) {h w : Nat}
    (hh : 0 < h) (hw : 0 < w) {stamps : List (List Token)}
    (hstamps : ∀ stamp ∈ stamps, PlainText args stamp) {inVideo : Bool}
    (hpending : args.imageTokenId ∉ pending)
    (hvideo : pending.foldl (inVideoBehind args) inVideo = true) :
    TrackedLayout args inVideo true pending (stamps.flatMap fun stamp =>
      [.text [args.imageStartTokenId], .grid true 1 h w 1,
        .text (args.imageEndTokenId :: stamp)]) := by
  obtain ⟨hstart, hend⟩ := plain_delimiters hargs hkind
  induction stamps generalizing inVideo pending with
  | nil => exact ⟨trivial, by simp [visionBlocks], hpending, by simp [visionBlocks], hvideo⟩
  | cons stamp stamps ih =>
      have hback : PlainText args (args.imageEndTokenId :: stamp) :=
        hend.append (hstamps stamp mem_cons_self)
      obtain ⟨hfront, hfrontVideo⟩ := plain_behind hkind hpending hvideo hstart
      have hframe : TrackedLayout args inVideo true pending
          [.text [args.imageStartTokenId], .grid true 1 h w 1,
            .text (args.imageEndTokenId :: stamp)] :=
        trackedLayout_grid hfront hfrontVideo (by simp) (not_mem_of_plain hkind hback) (by simp)
          (foldl_inVideo_plain hkind hback true) Nat.one_pos hh hw
      exact hframe.append
        (ih (fun s hs => hstamps s (mem_cons_of_mem _ hs)) hframe.tail hframe.after)

theorem trackedLayout_span (hargs : args.Valid) (hkind : args.kind = .glm4v) {span : MMSpan}
    (hspan : span.Valid args) {inVideo : Bool} (hpending : args.imageTokenId ∉ pending)
    (hvideo : pending.foldl (inVideoBehind args) inVideo = false) :
    TrackedLayout args inVideo false pending (span.pieces args) := by
  obtain ⟨hstart, hend⟩ := plain_delimiters hargs hkind
  obtain ⟨himageStart, himageEnd, hne⟩ := markers_glm hargs hkind
  cases span with
  | text tokens =>
      obtain ⟨hmem, hafter⟩ := plain_behind hkind hpending hvideo hspan
      exact trackedLayout_text hmem hafter
  | image t h w =>
      obtain ⟨ht, hh, hw⟩ := hspan
      obtain ⟨hfront, hfrontVideo⟩ := plain_behind hkind hpending hvideo hstart
      simp only [MMSpan.pieces, hkind]
      exact trackedLayout_grid hfront hfrontVideo (by simp) (not_mem_of_plain hkind hend) (by simp)
        (foldl_inVideo_plain hkind hend false) ht hh hw
  | video t h w secondPerGrid timestamps =>
      obtain ⟨-, hh, hw, -, hstamps⟩ := hspan
      simp only [MMSpan.pieces, hkind]
      have hopen : args.imageTokenId ∉ pending ++ [args.videoStartTokenId] := by
        simp [hpending, himageStart]
      have hopenVideo : (pending ++ [args.videoStartTokenId]).foldl (inVideoBehind args) inVideo =
          true := by
        simp [inVideoBehind]
      have hframes := trackedLayout_frames hargs hkind hh hw hstamps hopen hopenVideo
      -- the token that opens the video is in front of the frames
      have hvideoFrames : TrackedLayout args inVideo true pending
          ([.text [args.videoStartTokenId]] ++ timestamps.flatMap fun stamp =>
            [.text [args.imageStartTokenId], .grid true 1 h w 1,
              .text (args.imageEndTokenId :: stamp)]) :=
        ⟨hframes.blocks, hframes.sizes, hframes.tail, fun _ => hframes.behind (.inl (by simp)),
          hframes.after⟩
      refine hvideoFrames.append (trackedLayout_text ?_ ?_)
      · simpa [himageEnd] using hvideoFrames.tail
      · rw [foldl_append]
        simp [inVideoBehind, hne.symm]

variable {spans : List MMSpan}

theorem trackedLayout_layout (hargs : args.Valid) (hkind : args.kind = .glm4v)
    (hspans : ∀ span ∈ spans, span.Valid args) {inVideo : Bool}
    (hpending : args.imageTokenId ∉ pending)
    (hvideo : pending.foldl (inVideoBehind args) inVideo = false) :
    TrackedLayout args inVideo false pending (layout args spans) := by
  induction spans generalizing inVideo pending with
  | nil =>
      exact ⟨trivial, by simp [visionBlocks, layout], hpending,
        by simp [visionBlocks, layout], hvideo⟩
  | cons span spans ih =>
      have hspan := trackedLayout_span hargs hkind (hspans span mem_cons_self) hpending hvideo
      exact hspan.append
        (ih (fun s hs => hspans s (mem_cons_of_mem _ hs)) hspan.tail hspan.after)

theorem glmRows (hargs : args.Valid) (hkind : args.kind = .glm4v)
    (hspans : ∀ span ∈ spans, span.Valid args) :
    GlmRows args (mmData args spans) (visionBlocks [] (layout args spans)).1 := by
  obtain ⟨himages, hscale⟩ := imageRows spans hspans
  have hvideos := (blockRows_layout args hspans []).2
  rw [videoRows_frames (by simp [hkind])] at hvideos
  refine ⟨hargs.merge_pos, himages, ?_, fun g hg => ?_, fun b hb => ?_⟩
  · have hfst := congrArg (List.map Prod.fst) hvideos
    simpa [blockRows, Function.comp_def] using hfst.symm
  · obtain ⟨span, hspan, hg⟩ := List.mem_flatMap.mp hg
    have hvalid := hspans span hspan
    cases span with
    | text tokens => cases hg
    | image t h w => cases hg
    | video t h w secondPerGrid timestamps =>
        obtain rfl := List.mem_singleton.mp hg
        exact hvalid.1
  · cases hvideo : b.isVideo with
    | false =>
        rw [hscale b hb hvideo, MRopeArgs.imageScale, hkind]
    | true =>
        have hmem : (b.gridThw args, b.scale) ∈
            blockRows args true (visionBlocks [] (layout args spans)).1 :=
          mem_map_of_mem (List.mem_filter.mpr ⟨hb, by simp [hvideo]⟩)
        rw [hvideos] at hmem
        obtain ⟨grid, -, heq⟩ := List.mem_map.mp hmem
        exact (Prod.mk.inj heq).2.symm

theorem foldlM_prompt (hargs : args.Valid) (hkind : args.kind = .glm4v)
    (hspans : ∀ span ∈ spans, span.Valid args) (text : List Token)
    (htail : ∀ token ∈ ((visionBlocks [] (layout args spans)).2 ++ text).head?,
      token ≠ args.imageTokenId) : ∃ s v i,
      (groupByTokenType (inputTokenType args false (promptTokens args spans ++ text))).foldlM
          (groupStep args (mmData args spans)) {} =
        (groupsAt i (inputTokenType args v
          ((visionBlocks [] (layout args spans)).2 ++ text))).foldlM
          (groupStep args (mmData args spans)) s ∧
      GroupAt args (mmData args spans) (visionBlocks [] (layout args spans)).1 [] s := by
  have htracked := trackedLayout_layout hargs hkind hspans
    (show args.imageTokenId ∉ [] by simp) (rfl)
  have hrows := glmRows hargs hkind hspans
  obtain ⟨v, i, hgroups⟩ := groupsAt_blocks hargs hkind htracked.blocks 0 htail
  have hstart : GroupAt args (mmData args spans) [] (visionBlocks [] (layout args spans)).1 {} := by
    refine ⟨rfl, ?_, placed_nil⟩
    rw [← hrows.videos]
    exact framesLeft_start hrows.videos_pos 0
  obtain ⟨s, hfold, hend⟩ := foldlM_blocks hrows rfl htracked.sizes hstart 0
    (groupsAt i (inputTokenType args v ((visionBlocks [] (layout args spans)).2 ++ text)))
  refine ⟨s, v, i, ?_, hend⟩
  rw [(prompt_blocks args spans text).1]
  change (groupsAt 0 _).foldlM _ _ = _
  rw [hgroups]
  exact hfold

/-- On a prompt with text without placeholders behind it, the positions are those of the
sequence. -/
theorem getPositionsGlm_eq (hargs : args.Valid) (hkind : args.kind = .glm4v)
    (hspans : ∀ span ∈ spans, span.Valid args) {text : List Token}
    (htext : args.imageTokenId ∉ text) (hne : promptTokens args spans ++ text ≠ []) :
    getPositionsGlm args (promptTokens args spans ++ text) (mmData args spans) =
      .ok (sequenceColumns args spans text.length,
        topPosition (sequenceColumns args spans text.length) -
          (promptTokens args spans ++ text).length) := by
  have htracked := trackedLayout_layout hargs hkind hspans
    (show args.imageTokenId ∉ [] by simp) (rfl)
  have hplain : args.imageTokenId ∉ (visionBlocks [] (layout args spans)).2 ++ text := by
    simp [htracked.tail, htext]
  obtain ⟨s, v, i, hfold, hend⟩ := foldlM_prompt hargs hkind hspans text
    fun token htoken => by
      rintro rfl
      exact hplain (mem_of_mem_head? htoken)
  obtain ⟨htokens, hcolumns⟩ := prompt_blocks args spans text
  have hcolumnsNe : sequenceColumns args spans text.length ≠ [] := by
    intro hnil
    have hlength := congrArg List.length hcolumns
    rw [hnil, length_placeText, length_foldl_place args, length_nil, Nat.zero_add] at hlength
    refine hne (List.length_eq_zero_iff.mp ?_)
    rw [htokens, length_append]
    exact hlength.symm
  rw [getPositionsGlm, hfold, inputTokenType_text hplain]
  by_cases hlength : (visionBlocks [] (layout args spans)).2 ++ text = []
  · rw [hlength]
    rw [hlength, length_nil, placeText_zero] at hcolumns
    rw [hcolumns] at hcolumnsNe ⊢
    exact hend.placed.finish hcolumnsNe _
  · have hpos := List.length_pos_iff.mpr hlength
    have hgroup := groupsAt_replicate .text i hpos
      (show ∀ type ∈ ([] : List TokenType).head?, type ≠ .text by simp)
    rw [append_nil] at hgroup
    rw [hgroup]
    simp only [foldlM_cons, groupStep_text hend.placed]
    rw [hcolumns] at hcolumnsNe ⊢
    exact (hend.placed.push_text hpos).finish hcolumnsNe _

theorem getPositionsGlm_error (hargs : args.Valid) (hkind : args.kind = .glm4v)
    (hspans : ∀ span ∈ spans, span.Valid args) {text : List Token}
    (htext : args.imageTokenId ∈ text) (hne : promptTokens args spans ≠ []) :
    ∃ e, getPositionsGlm args (promptTokens args spans ++ text) (mmData args spans) = .error e := by
  have htracked := trackedLayout_layout hargs hkind hspans
    (show args.imageTokenId ∉ [] by simp) (rfl)
  -- the prompt ends in text
  have htailNe : (visionBlocks [] (layout args spans)).2 ≠ [] := by
    intro hnil
    by_cases hbs : (visionBlocks [] (layout args spans)).1 = []
    · have htokens := (prompt_blocks args spans []).1
      rw [hnil, hbs] at htokens
      exact hne (by simpa using htokens)
    · exact htracked.behind (.inr hbs) hnil
  obtain ⟨x, tail, htail⟩ := exists_cons_of_ne_nil htailNe
  obtain ⟨s, v, i, hfold, hend⟩ := foldlM_prompt hargs hkind hspans text
    fun token htoken => by
      rw [htail, cons_append, head?_cons, Option.mem_some_iff] at htoken
      rintro rfl
      exact htracked.tail (by simp [htail, htoken])
  have hrows := glmRows hargs hkind hspans
  have himage : rowAt (mmData args spans).imageGridThw s.imageIndex = .error .index := by
    simp [rowAt, hrows.images, hend.imageIndex]
  have hvideo : rowAt (mmData args spans).videoGridThw s.videoIndex = .error .index :=
    hend.frames.exhausted
  have hgroup : ∃ group ∈ groupsAt i (inputTokenType args v
      ((visionBlocks [] (layout args spans)).2 ++ text)), group.1 ≠ .text := by
    obtain ⟨type, hmem, htype⟩ := exists_visionType v (mem_append_right
      (visionBlocks [] (layout args spans)).2 htext)
    cases htypes : inputTokenType args v ((visionBlocks [] (layout args spans)).2 ++ text) with
    | nil => simp [htypes] at hmem
    | cons first types =>
        rw [htypes] at hmem
        obtain ⟨group, hin, hgroup⟩ := exists_group first i (i + 1) (List.mem_cons.mp hmem)
        exact ⟨group, hin, hgroup ▸ htype⟩
  obtain ⟨e, he⟩ := foldlM_exhausted args himage hvideo hgroup
  exact ⟨e, by rw [getPositionsGlm, hfold, he]; rfl⟩

end Layout

end Xllm
