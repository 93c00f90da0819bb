import Xllm.Batch.MPositionSpans

/-!
# Positions by the vision start tokens

`get_positions_p` and `get_positions_qwen3` count the placeholders behind a vision start token and
look for one grid after the other. On a prompt with plain text behind it they find the position
matrix. They fail on generated tokens that end in a vision start token or hold one in front of a
placeholder, for which there is no grid.
-/

namespace Xllm

open Util List Option

structure VisionBlock.Opened (args : MRopeArgs) (b : VisionBlock) : Prop where
  text : ∃ body, b.text = body ++ [args.visionStartTokenId] ∧ PlainText args body
  t_pos : 0 < b.t
  h_pos : 0 < b.h
  w_pos : 0 < b.w

theorem findToken_append (before tokens : List Token) (id : Token) :
    findToken (before ++ tokens) before.length id =
      (tokens.findIdx? (· == id)).map (before.length + ·) := by
  rw [findToken, drop_left]

theorem nextVision_eq {before text rest : List Token} {id : Token} {remain : Nat}
    (hremain : 0 < remain) (htext : id ∉ text) :
    nextVision (before ++ (text ++ id :: rest)) before.length remain id =
      before.length + text.length := by
  have hnone : text.findIdx? (· == id) = none := by
    rw [findIdx?_eq_none_iff]
    intro x hx
    rw [beq_eq_false_iff_ne]
    rintro rfl
    exact htext hx
  rw [nextVision, if_pos hremain, findToken_append, findIdx?_append, hnone]
  simp [findIdx?_cons]

theorem lt_nextVision (before : List Token) {text : List Token} (rest : List Token) {id : Token}
    (remain : Nat) (htext : id ∉ text) :
    before.length + text.length ≤ nextVision (before ++ (text ++ rest)) before.length
      remain id := by
  have hnone : text.findIdx? (· == id) = none := by
    rw [findIdx?_eq_none_iff]
    intro x hx
    rw [beq_eq_false_iff_ne]
    rintro rfl
    exact htext hx
  have hlength : (before ++ (text ++ rest)).length =
    before.length + (text.length + rest.length) := by
    simp
  rw [nextVision, findToken_append, findIdx?_append, hnone, none_or]
  cases hrest : rest.findIdx? (· == id) with
  | none =>
      simp only [map_none, getD_none]
      split <;> omega
  | some k =>
      simp only [map_some, getD_some]
      split <;> omega

/-- The tensors hold a row for every block, and the first rows of the grids are scaled as those of
the blocks. -/
structure GridRows (args : MRopeArgs) (bs : List VisionBlock) (imageGrid videoGrid : List GridThw)
    (imageTime : Nat → Int) (videoTime : Nat → Except TensorFault (Nat → Int)) : Prop where
  images : imageGrid = (blocksOf false bs).map (·.gridThw args)
  videos : videoGrid = (blocksOf true bs).map (·.gridThw args)
  imageTime : ∀ b ∈ bs, b.isVideo = false → imageTime = scaledIndex b.scale
  videoTime : ∀ i b, (blocksOf true bs)[i]? = some b → videoTime i = .ok (scaledIndex b.scale)

/-- The loop has placed the blocks `done`, those of `rest` remain, and so many images and videos
more were counted. -/
structure WalkAt (args : MRopeArgs) (done rest : List VisionBlock) (moreImages moreVideos : Nat)
    (s : VisionWalk) : Prop where
  st : s.st = (done.flatMap (·.tokens args)).length
  imageIndex : s.imageIndex = (blocksOf false done).length
  videoIndex : s.videoIndex = (blocksOf true done).length
  remainImages : s.remainImages = (blocksOf false rest).length + moreImages
  remainVideos : s.remainVideos = (blocksOf true rest).length + moreVideos
  placed : Placed s.llmPosIds (done.foldl VisionBlock.place [])

theorem placeVision_eq {args : MRopeArgs} (hargs : args.Valid) {s : VisionWalk} {b : VisionBlock}
    {columns : List PosColumn} (hplaced : Placed s.llmPosIds columns) (htext : 0 < b.text.length) :
    placeVision args.mmSpatialMergeSize s (b.gridThw args) (scaledIndex b.scale)
        (s.st + b.text.length) =
      .ok { s with
        st := s.st + b.text.length + b.t * b.h * b.w
        llmPosIds := s.llmPosIds ++ [textPos b.text.length (topPosition columns)] ++
          [(gridPos b.t b.h b.w (scaledIndex b.scale)).map
            (·.shift (topPosition (placeText columns b.text.length)))] } := by
  have hlen : ((s.st + b.text.length : Nat) : Int) - s.st = b.text.length := by omega
  have hh : b.h * args.mmSpatialMergeSize / args.mmSpatialMergeSize = b.h :=
    Nat.mul_div_cancel _ hargs.merge_pos
  have hw : b.w * args.mmSpatialMergeSize / args.mmSpatialMergeSize = b.w :=
    Nat.mul_div_cancel _ hargs.merge_pos
  simp only [placeVision, VisionBlock.gridThw, hlen, hh, hw, hplaced.next, Contract.ok_bind]
  rw [if_pos (by omega), topPosition_placeText,
    Int.add_comm (b.text.length : Int)]
  rfl

section Walk

variable {args : MRopeArgs} {bs done rest : List VisionBlock} {b : VisionBlock}
  {imageGrid videoGrid : List GridThw} {imageTime : Nat → Int}
  {videoTime : Nat → Except TensorFault (Nat → Int)}
  {moreImages moreVideos : Nat} {s : VisionWalk}

@[simp] theorem markers_of_kind_ne (hkind : args.kind ≠ .glm4v) :
    args.markers = [args.visionStartTokenId, args.imageTokenId, args.videoTokenId] := by
  unfold MRopeArgs.markers
  cases hk : args.kind <;> simp_all

theorem placeholder_facts (hargs : args.Valid) (hkind : args.kind ≠ .glm4v) {body : List Token}
    (hbody : PlainText args body) (isVideo : Bool) :
    args.placeholder isVideo ∉ body ++ [args.visionStartTokenId] ∧
      args.placeholder isVideo ≠ args.placeholder (!isVideo) := by
  have hmarkers := markers_of_kind_ne hkind
  have hnodup := hargs.markers_nodup
  have hplain : ∀ x ∈ body, x ≠ args.imageTokenId ∧ x ≠ args.videoTokenId := by
    intro x hx
    have := hbody x hx
    simp_all
  constructor
  · intro hmem
    rcases List.mem_append.mp hmem with hmem | hmem
    · have := hplain _ hmem
      cases isVideo <;> simp_all [MRopeArgs.placeholder]
    · cases isVideo <;> simp_all [MRopeArgs.placeholder]
  · cases isVideo <;> simp_all [MRopeArgs.placeholder]
    exact fun h => hnodup.2 h.symm

theorem tokens_next (tail : List Token) (hopened : b.Opened args) (hbs : bs = done ++ b :: rest) :
    ∃ after, bs.flatMap (·.tokens args) ++ tail =
      done.flatMap (·.tokens args) ++ (b.text ++ args.placeholder b.isVideo :: after) := by
  obtain ⟨n, hn⟩ : ∃ n, b.t * b.h * b.w = n + 1 :=
    Nat.exists_eq_succ_of_ne_zero
      (Nat.mul_pos (Nat.mul_pos hopened.t_pos hopened.h_pos) hopened.w_pos).ne'
  refine ⟨List.replicate n (args.placeholder b.isVideo) ++
    (rest.flatMap (·.tokens args) ++ tail), ?_⟩
  simp [hbs, VisionBlock.tokens, VisionBlock.placeholders, hn, replicate_succ]

theorem WalkAt.next (hat : WalkAt args done (b :: rest) moreImages moreVideos s)
    (hopened : b.Opened args) (htext : 0 < b.text.length) {u : VisionWalk}
    (hst : u.st = s.st + b.text.length + b.t * b.h * b.w)
    (hids : u.llmPosIds = s.llmPosIds ++
      [textPos b.text.length (topPosition (done.foldl VisionBlock.place []))] ++
      [(gridPos b.t b.h b.w (scaledIndex b.scale)).map
        (·.shift (topPosition (placeText (done.foldl VisionBlock.place []) b.text.length)))])
    (himage : u.imageIndex = s.imageIndex + (blocksOf false [b]).length)
    (hvideo : u.videoIndex = s.videoIndex + (blocksOf true [b]).length)
    (hremainImages : u.remainImages = s.remainImages - (blocksOf false [b]).length)
    (hremainVideos : u.remainVideos = s.remainVideos - (blocksOf true [b]).length) :
    WalkAt args (done ++ [b]) rest moreImages moreVideos u where
  st := by
    rw [hst, hat.st]
    simp [VisionBlock.tokens, VisionBlock.placeholders]
    omega
  imageIndex := by rw [himage, hat.imageIndex, blocksOf_append, length_append]
  videoIndex := by rw [hvideo, hat.videoIndex, blocksOf_append, length_append]
  remainImages := by
    have hcons : blocksOf false (b :: rest) = blocksOf false [b] ++ blocksOf false rest := by
      rw [← blocksOf_append]
      rfl
    rw [hremainImages, hat.remainImages, hcons, length_append]
    omega
  remainVideos := by
    have hcons : blocksOf true (b :: rest) = blocksOf true [b] ++ blocksOf true rest := by
      rw [← blocksOf_append]
      rfl
    rw [hremainVideos, hat.remainVideos, hcons, length_append]
    omega
  placed := by
    rw [hids]
    exact placed_step hat.placed htext hopened.t_pos hopened.h_pos hopened.w_pos

/-- Step lemma: one vision block. -/
theorem visionStep_eq (tail : List Token) (hargs : args.Valid) (hkind : args.kind ≠ .glm4v)
    (hopened : b.Opened args) (hbs : bs = done ++ b :: rest)
    (hrows : GridRows args bs imageGrid videoGrid imageTime videoTime)
    (hat : WalkAt args done (b :: rest) moreImages moreVideos s) :
    ∃ s', visionStep args (bs.flatMap (·.tokens args) ++ tail) imageGrid videoGrid imageTime
        videoTime s = .ok s' ∧
      WalkAt args (done ++ [b]) rest moreImages moreVideos s' := by
  obtain ⟨body, hbody, hplain⟩ := hopened.text
  have htext : 0 < b.text.length := by simp [hbody]
  obtain ⟨hnot, hne⟩ := placeholder_facts hargs hkind hplain b.isVideo
  have hother := (placeholder_facts hargs hkind hplain (!b.isVideo)).1
  rw [← hbody] at hnot hother
  obtain ⟨after, htokens⟩ := tokens_next tail hopened hbs
  have hmem : b ∈ bs := by simp [hbs]
  have hne' : (args.kind != .glm4v) = true := by simpa using hkind
  -- the placeholder of the block comes first
  have hright : ∀ remain, 0 < remain →
      nextVision (bs.flatMap (·.tokens args) ++ tail) s.st remain (args.placeholder b.isVideo) =
        s.st + b.text.length := by
    intro remain hremain
    rw [htokens, hat.st, nextVision_eq hremain hnot]
  have hleft : ∀ remain,
      s.st + b.text.length <
        nextVision (bs.flatMap (·.tokens args) ++ tail) s.st remain
          (args.placeholder (!b.isVideo)) := by
    intro remain
    have hlt := lt_nextVision (done.flatMap (·.tokens args)) after remain
      (show args.placeholder (!b.isVideo) ∉ b.text ++ [args.placeholder b.isVideo] by
        simp [hother, hne.symm])
    rw [append_assoc, singleton_append, ← htokens, ← hat.st] at hlt
    simp only [length_append, length_singleton] at hlt
    omega
  have himageId : args.placeholder false = args.imageTokenId := rfl
  have hvideoId : args.placeholder true = args.videoTokenId := by
    simp [MRopeArgs.placeholder, hne']
  cases hvideo : b.isVideo with
  | false =>
      simp only [hvideo, Bool.not_false, himageId, hvideoId] at hright hleft
      have hremain : 0 < s.remainImages := by
        rw [hat.remainImages]
        simp [blocksOf, hvideo]
      have hrow : rowAt imageGrid s.imageIndex = .ok (b.gridThw args) := by
        rw [hrows.images, hat.imageIndex, hbs]
        exact rowAt_next _ false hvideo
      refine ⟨_, ?_, hat.next (u := { s with
        st := s.st + b.text.length + b.t * b.h * b.w
        imageIndex := s.imageIndex + 1
        remainImages := s.remainImages - 1
        llmPosIds := _ }) hopened htext rfl rfl ?_ ?_ ?_ ?_⟩
      · rw [visionStep]
        simp only [hright _ hremain]
        rw [if_pos (hleft _), hrow, hrows.imageTime b hmem hvideo]
        exact placeVision_eq hargs
          (s := { s with imageIndex := s.imageIndex + 1, remainImages := s.remainImages - 1 })
          hat.placed htext
      all_goals simp [blocksOf, hvideo]
  | true =>
      simp only [hvideo, Bool.not_true, himageId, hvideoId] at hright hleft
      have hremain : 0 < s.remainVideos := by
        rw [hat.remainVideos]
        simp [blocksOf, hvideo]
      have hrow : rowAt videoGrid s.videoIndex = .ok (b.gridThw args) := by
        rw [hrows.videos, hat.videoIndex, hbs]
        exact rowAt_next _ true hvideo
      have hlookup : (blocksOf true bs)[s.videoIndex]? = some b := by
        have hnext : rowAt ((blocksOf true (done ++ b :: rest)).map id)
            (blocksOf true done).length = .ok b := rowAt_next id true hvideo
        rw [rowAt, ← hat.videoIndex] at hnext
        cases hget : (blocksOf true bs)[s.videoIndex]? <;> simp_all
      refine ⟨_, ?_, hat.next (u := { s with
        st := s.st + b.text.length + b.t * b.h * b.w
        videoIndex := s.videoIndex + 1
        remainVideos := s.remainVideos - 1
        llmPosIds := _ }) hopened htext rfl rfl ?_ ?_ ?_ ?_⟩
      · rw [visionStep]
        simp only [hright _ hremain]
        rw [if_neg (by have := hleft s.remainImages; omega), hrow,
          hrows.videoTime _ b hlookup]
        exact placeVision_eq hargs
          (s := { s with videoIndex := s.videoIndex + 1, remainVideos := s.remainVideos - 1 })
          hat.placed htext
      all_goals simp [blocksOf, hvideo]

theorem visionLoop_blocks (tail : List Token) (hargs : args.Valid) (hkind : args.kind ≠ .glm4v)
    (hopened : ∀ b ∈ bs, b.Opened args) (hbs : bs = done ++ rest)
    (hrows : GridRows args bs imageGrid videoGrid imageTime videoTime)
    (hat : WalkAt args done rest moreImages moreVideos s) (more : Nat) :
    ∃ s', visionLoop (visionStep args (bs.flatMap (·.tokens args) ++ tail) imageGrid videoGrid
        imageTime videoTime) (rest.length + more) s =
          visionLoop (visionStep args (bs.flatMap (·.tokens args) ++ tail) imageGrid videoGrid
            imageTime videoTime) more s' ∧
      WalkAt args bs [] moreImages moreVideos s' := by
  induction rest generalizing done s with
  | nil =>
      refine ⟨s, by rw [length_nil, Nat.zero_add], ?_⟩
      rw [hbs, append_nil]
      exact hat
  | cons b rest ih =>
      obtain ⟨t, hstep, hnext⟩ := visionStep_eq tail hargs hkind
        (hopened b (by simp [hbs])) hbs hrows hat
      obtain ⟨s', hloop, hend⟩ := ih (by simp [hbs]) hnext
      refine ⟨s', ?_, hend⟩
      rw [length_cons, Nat.add_right_comm, visionLoop, hstep, Contract.ok_bind, hloop]

theorem visionStep_exhausted (tokens : List Token)
    (hrows : GridRows args bs imageGrid videoGrid imageTime videoTime)
    (hat : WalkAt args bs [] moreImages moreVideos s) :
    visionStep args tokens imageGrid videoGrid imageTime videoTime s = .error .index := by
  have himage : rowAt imageGrid s.imageIndex = .error .index := by
    simp [rowAt, hrows.images, hat.imageIndex]
  have hvideo : rowAt videoGrid s.videoIndex = .error .index := by
    simp [rowAt, hrows.videos, hat.videoIndex]
  rw [visionStep]
  split
  · rw [himage]
    rfl
  · rw [hvideo]
    rfl

end Walk

theorem visionTokens_append_plain {visionStart : Token} {text : List Token}
    (h : visionStart ∉ text) (rest : List Token) :
    visionTokens visionStart (text ++ rest) = visionTokens visionStart rest := by
  induction text with
  | nil => rfl
  | cons token text ih =>
      rw [mem_cons, not_or] at h
      rw [cons_append, visionTokens, if_neg (Ne.symm h.1), ih h.2]

/-- The tokens behind the vision start tokens of text that follows the prompt. -/
def Announces (args : MRopeArgs) (text found : List Token) : Prop :=
  visionTokens args.visionStartTokenId text = .ok found

def NoVision (args : MRopeArgs) (text : List Token) : Prop :=
  ∃ found, Announces args text found ∧ args.imageTokenId ∉ found ∧ args.videoTokenId ∉ found

instance (args : MRopeArgs) (text : List Token) : Decidable (NoVision args text) :=
  match h : visionTokens args.visionStartTokenId text with
  | .ok found =>
      decidable_of_iff (args.imageTokenId ∉ found ∧ args.videoTokenId ∉ found)
        ⟨fun hno => ⟨found, h, hno⟩,
          fun ⟨_, hfound, hno⟩ => Except.ok.inj (h.symm.trans hfound) ▸ hno⟩
  | .error _ => .isFalse fun ⟨_, hfound, _⟩ => nomatch h.symm.trans hfound

section Count

variable {args : MRopeArgs} {bs : List VisionBlock} {b : VisionBlock}

theorem visionTokens_block (hargs : args.Valid) (hkind : args.kind ≠ .glm4v)
    (hopened : b.Opened args) (rest : List Token) :
    visionTokens args.visionStartTokenId (b.tokens args ++ rest) =
      (visionTokens args.visionStartTokenId rest).map (args.placeholder b.isVideo :: ·) := by
  obtain ⟨body, hbody, hplain⟩ := hopened.text
  have hnodup := hargs.markers_nodup
  rw [markers_of_kind_ne hkind] at hnodup
  have hstart : args.visionStartTokenId ∉ body := by
    intro hmem
    have := hplain _ hmem
    simp [markers_of_kind_ne hkind] at this
  have hplaceholder : args.visionStartTokenId ≠ args.placeholder b.isVideo := by
    unfold MRopeArgs.placeholder
    split <;> simp_all
  obtain ⟨n, hn⟩ : ∃ n, b.t * b.h * b.w = n + 1 :=
    Nat.exists_eq_succ_of_ne_zero
      (Nat.mul_pos (Nat.mul_pos hopened.t_pos hopened.h_pos) hopened.w_pos).ne'
  have hreplicate : args.visionStartTokenId ∉ List.replicate (n + 1) (args.placeholder b.isVideo) :=
    fun hmem => hplaceholder (eq_of_mem_replicate hmem)
  rw [VisionBlock.tokens, VisionBlock.placeholders, hbody, hn]
  rw [append_assoc, append_assoc, visionTokens_append_plain hstart,
    singleton_append, visionTokens, if_pos rfl, visionTokens_append_plain hreplicate]
  cases visionTokens args.visionStartTokenId rest <;> rfl

theorem visionTokens_blocks (hargs : args.Valid) (hkind : args.kind ≠ .glm4v)
    (hopened : ∀ b ∈ bs, b.Opened args) (tail : List Token) :
    visionTokens args.visionStartTokenId (bs.flatMap (·.tokens args) ++ tail) =
      (visionTokens args.visionStartTokenId tail).map
        (bs.map (fun b => args.placeholder b.isVideo) ++ ·) := by
  induction bs with
  | nil => cases h : visionTokens args.visionStartTokenId tail <;> simp [h, Except.map]
  | cons b bs ih =>
      rw [flatMap_cons, append_assoc,
        visionTokens_block hargs hkind (hopened b mem_cons_self),
        ih fun c hc => hopened c (mem_cons_of_mem _ hc)]
      cases visionTokens args.visionStartTokenId tail <;> rfl

theorem count_placeholder (hargs : args.Valid) (hkind : args.kind ≠ .glm4v) (isVideo : Bool) :
    (bs.map fun b => args.placeholder b.isVideo).count (args.placeholder isVideo) =
      (blocksOf isVideo bs).length := by
  have hne := (placeholder_facts hargs hkind (show PlainText args [] by simp [PlainText])
    isVideo).2
  induction bs with
  | nil => rfl
  | cons b bs ih =>
      rw [map_cons, count_cons, ih]
      by_cases hb : b.isVideo = isVideo
      · simp [blocksOf, hb]
      · have hb' : b.isVideo = !isVideo := by cases isVideo <;> simp_all
        simp [blocksOf, hb', hne.symm]

theorem length_blocksOf_add (bs : List VisionBlock) :
    (blocksOf false bs).length + (blocksOf true bs).length = bs.length := by
  induction bs with
  | nil => rfl
  | cons b bs ih =>
      cases hb : b.isVideo <;> simp [blocksOf, hb] at ih ⊢ <;> omega

/-- The positions of blocks with text behind them, for text that announces `found`. -/
theorem visionPositions_of_announces {imageGrid videoGrid : List GridThw}
    {imageTime : Nat → Int} {videoTime : Nat → Except TensorFault (Nat → Int)}
    {tail found : List Token}
    (hargs : args.Valid) (hkind : args.kind ≠ .glm4v) (hopened : ∀ b ∈ bs, b.Opened args)
    (hrows : GridRows args bs imageGrid videoGrid imageTime videoTime)
    (hfound : Announces args tail found) (hne : bs.flatMap (·.tokens args) ++ tail ≠ []) :
    visionPositions args (bs.flatMap (·.tokens args) ++ tail) imageGrid videoGrid imageTime
        videoTime =
      if found.count args.imageTokenId + found.count args.videoTokenId = 0 then
        .ok (placeText (bs.foldl VisionBlock.place []) tail.length,
          topPosition (placeText (bs.foldl VisionBlock.place []) tail.length) -
            (bs.flatMap (·.tokens args) ++ tail).length)
      else .error .index := by
  have hcount : ∀ isVideo,
      (bs.map (fun b => args.placeholder b.isVideo) ++ found).count (args.placeholder isVideo) =
        (blocksOf isVideo bs).length + found.count (args.placeholder isVideo) := by
    intro isVideo
    rw [count_append, count_placeholder hargs hkind]
  have himages := hcount false
  have hvideos := hcount true
  have himageId : args.placeholder false = args.imageTokenId := rfl
  have hvideoId : args.placeholder true = args.videoTokenId := by
    simp [MRopeArgs.placeholder, hkind]
  rw [himageId] at himages
  rw [hvideoId] at hvideos
  have hfound : visionTokens args.visionStartTokenId tail = .ok found := hfound
  have hrounds : (blocksOf false bs).length + found.count args.imageTokenId +
      ((blocksOf true bs).length + found.count args.videoTokenId) =
      bs.length + (found.count args.imageTokenId + found.count args.videoTokenId) := by
    have := length_blocksOf_add bs
    omega
  have hstart : WalkAt args [] bs (found.count args.imageTokenId)
      (found.count args.videoTokenId)
      { remainImages := (blocksOf false bs).length + found.count args.imageTokenId
        remainVideos := (blocksOf true bs).length + found.count args.videoTokenId } :=
    ⟨rfl, rfl, rfl, rfl, rfl, placed_nil⟩
  obtain ⟨s, hloop, hend⟩ := visionLoop_blocks tail hargs hkind hopened rfl hrows hstart
    (found.count args.imageTokenId + found.count args.videoTokenId)
  unfold visionPositions
  simp only [visionTokens_blocks hargs hkind hopened, hfound, Except.map, Contract.ok_bind,
    himages, hvideos, hrounds, hloop]
  by_cases hnone : found.count args.imageTokenId + found.count args.videoTokenId = 0
  · rw [if_pos hnone, hnone, visionLoop, Contract.ok_bind, hend.st]
    have hflat := hend.placed
    cases tail with
    | nil =>
        rw [if_neg (by simp)]
        have hcolumns : bs.foldl VisionBlock.place [] ≠ [] := by
          intro hnil
          have hlength := length_foldl_place args bs []
          rw [hnil] at hlength
          exact hne (List.length_eq_zero_iff.mp (by simpa using hlength.symm))
        rw [hflat.finish hcolumns, length_nil, placeText_zero]
    | cons token tail =>
        have hlt : (bs.flatMap (·.tokens args)).length <
            (bs.flatMap (·.tokens args) ++ token :: tail).length := by
          simp
        have hlength : (bs.flatMap (·.tokens args) ++ token :: tail).length -
            (bs.flatMap (·.tokens args)).length = (token :: tail).length := by
          simp
        rw [if_pos hlt, hflat.next, hlength]
        refine (hflat.push_text (by simp)).finish ?_ _
        intro hnil
        have := congrArg List.length hnil
        simp at this
  · obtain ⟨n, hn⟩ := Nat.exists_eq_succ_of_ne_zero hnone
    rw [hn, visionLoop, visionStep_exhausted _ hrows hend]
    rfl

end Count

section Layout

variable {args : MRopeArgs}

/-- Every grid of a layout is opened, and the text behind the last one is plain. -/
def OpenedLayout (args : MRopeArgs) (r : List VisionBlock × List Token) : Prop :=
  (∀ b ∈ r.1, b.Opened args) ∧ PlainText args r.2

theorem openedLayout_grid {pending front back : List Token} {isVideo : Bool} {t h w : Nat}
    {scale : ℚ≥0} (hpending : PlainText args pending) (hfront : PlainText args front)
    (hback : PlainText args back) (ht : 0 < t) (hh : 0 < h) (hw : 0 < w) :
    OpenedLayout args (visionBlocks pending
      [.text (front ++ [args.visionStartTokenId]), .grid isVideo t h w scale, .text back]) := by
  refine ⟨fun b hb => ?_, by simpa [visionBlocks] using hback⟩
  obtain rfl := List.mem_singleton.mp hb
  exact ⟨⟨pending ++ front, (append_assoc ..).symm, hpending.append hfront⟩, ht, hh, hw⟩

variable {pending : List Token}

theorem OpenedLayout.append {xs ys : List MMPiece}
    (hxs : OpenedLayout args (visionBlocks pending xs))
    (hys : OpenedLayout args (visionBlocks (visionBlocks pending xs).2 ys)) :
    OpenedLayout args (visionBlocks pending (xs ++ ys)) := by
  rw [visionBlocks_append]
  refine ⟨fun b hb => ?_, hys.2⟩
  rcases List.mem_append.mp hb with hb | hb
  · exact hxs.1 b hb
  · exact hys.1 b hb

theorem openedLayout_span (hargs : args.Valid) (hkind : args.kind ≠ .glm4v) {span : MMSpan}
    (hspan : span.Valid args) (hpending : PlainText args pending) :
    OpenedLayout args (visionBlocks pending (span.pieces args)) := by
  have hend : PlainText args [args.visionEndTokenId] := by
    have := hargs.delimiters
    cases hk : args.kind <;> simp_all
  have hnil : PlainText args [] := by simp [PlainText]
  cases span with
  | text tokens => exact ⟨by simp [visionBlocks, MMSpan.pieces], hpending.append hspan⟩
  | image t h w =>
      obtain ⟨ht, hh, hw⟩ := hspan
      unfold MMSpan.pieces
      cases hk : args.kind with
      | glm4v => exact absurd hk hkind
      | qwen3Vl => exact openedLayout_grid hpending hnil hend ht hh hw
      | other => exact openedLayout_grid hpending hnil hend ht hh hw
  | video t h w secondPerGrid timestamps =>
      obtain ⟨ht, hh, hw, -, hstamps⟩ := hspan
      unfold MMSpan.pieces
      cases hk : args.kind with
      | glm4v => exact absurd hk hkind
      | other => exact openedLayout_grid hpending hnil hend ht hh hw
      | qwen3Vl =>
          -- frame by frame
          induction timestamps generalizing pending with
          | nil => exact ⟨by simp [visionBlocks], hpending⟩
          | cons stamp timestamps ih =>
              have hframe : OpenedLayout args (visionBlocks pending
                  [.text (stamp ++ [args.visionStartTokenId]), .grid true 1 h w 1,
                    .text [args.visionEndTokenId]]) :=
                openedLayout_grid hpending (hstamps stamp mem_cons_self) hend Nat.one_pos hh hw
              exact hframe.append
                (ih hframe.2 fun s hs => hstamps s (mem_cons_of_mem _ hs))

variable {spans : List MMSpan}

theorem openedLayout_layout (hargs : args.Valid) (hkind : args.kind ≠ .glm4v)
    (hspans : ∀ span ∈ spans, span.Valid args) (hpending : PlainText args pending) :
    OpenedLayout args (visionBlocks pending (layout args spans)) := by
  induction spans generalizing pending with
  | nil => exact ⟨by simp [visionBlocks, layout], hpending⟩
  | cons span spans ih =>
      have hspan := openedLayout_span hargs hkind (hspans span mem_cons_self) hpending
      exact hspan.append (ih (fun s hs => hspans s (mem_cons_of_mem _ hs)) hspan.2)

theorem gridRows_other (hkind : args.kind = .other) (hspans : ∀ span ∈ spans, span.Valid args) :
    GridRows args (visionBlocks [] (layout args spans)).1 (mmData args spans).imageGridThw
      (mmData args spans).videoGridThw (scaledIndex (1 * args.mmTokensPerSecond))
      (fun idx => (rowAt (mmData args spans).secondPerGridTs idx).map fun seconds =>
        scaledIndex (seconds * args.mmTokensPerSecond)) := by
  obtain ⟨himages, hscale⟩ := imageRows spans hspans
  have hvideos := (blockRows_layout args hspans []).2
  obtain ⟨hgrids, hscales⟩ := videoRows_other hkind spans
  rw [← hvideos] at hgrids hscales
  refine ⟨himages, ?_, fun b hb hvideo => ?_, fun i b hb => ?_⟩
  · simpa [blockRows, Function.comp_def] using hgrids.symm
  · rw [hscale b hb hvideo, MRopeArgs.imageScale, hkind]
  · have hget := congrArg (·[i]?) hscales
    simp only [blockRows, getElem?_map, hb] at hget
    cases hseconds : (mmData args spans).secondPerGridTs[i]? with
    | none => simp [hseconds] at hget
    | some seconds =>
        simp only [hseconds, map_some, Option.some.injEq] at hget
        simp [rowAt, hseconds, hget, Except.map]

theorem gridRows_qwen3 (hkind : args.kind = .qwen3Vl) (hspans : ∀ span ∈ spans, span.Valid args) :
    GridRows args (visionBlocks [] (layout args spans)).1 (mmData args spans).imageGridThw
      (frameGrids (mmData args spans).videoGridThw) (fun i => i) (fun _ => .ok fun i => i) := by
  obtain ⟨himages, hscale⟩ := imageRows spans hspans
  have hvideos := (blockRows_layout args hspans []).2
  rw [videoRows_frames (by simp [hkind])] at hvideos
  refine ⟨himages, ?_, fun b hb hvideo => ?_, fun i b hb => ?_⟩
  · have hfst := congrArg (List.map Prod.fst) hvideos
    simpa [blockRows, Function.comp_def] using hfst.symm
  · rw [hscale b hb hvideo, MRopeArgs.imageScale, hkind, scaledIndex_one]
  · have hmem : (b.gridThw args, b.scale) ∈
        blockRows args true (visionBlocks [] (layout args spans)).1 :=
      List.mem_map_of_mem (mem_of_getElem? hb)
    rw [hvideos] at hmem
    obtain ⟨grid, -, heq⟩ := List.mem_map.mp hmem
    rw [← (Prod.mk.inj heq).2, scaledIndex_one]

/-- On a prompt with text that announces no vision input behind it, the positions are those of the
sequence. -/
theorem matrixPositions_of_announces (hargs : args.Valid) (hkind : args.kind ≠ .glm4v)
    (hspans : ∀ span ∈ spans, span.Valid args) {text found : List Token}
    (hfound : Announces args text found) (hne : promptTokens args spans ++ text ≠ []) :
    matrixPositions args (promptTokens args spans ++ text) (mmData args spans) =
      if found.count args.imageTokenId + found.count args.videoTokenId = 0 then
        .ok (sequenceColumns args spans text.length,
          topPosition (sequenceColumns args spans text.length) -
            (promptTokens args spans ++ text).length)
      else .error .index := by
  obtain ⟨hopened, hplain⟩ := openedLayout_layout hargs hkind hspans
    (show PlainText args [] by simp [PlainText])
  obtain ⟨htokens, hcolumns⟩ := prompt_blocks args spans text
  have hstart : args.visionStartTokenId ∉ (visionBlocks [] (layout args spans)).2 := by
    intro hmem
    have := hplain _ hmem
    simp [markers_of_kind_ne hkind] at this
  have htail : Announces args ((visionBlocks [] (layout args spans)).2 ++ text) found := by
    rw [Announces, visionTokens_append_plain hstart]
    exact hfound
  rw [hcolumns]
  rw [htokens] at hne ⊢
  unfold matrixPositions
  cases hk : args.kind with
  | glm4v => exact absurd hk hkind
  | qwen3Vl =>
      exact visionPositions_of_announces hargs hkind hopened (gridRows_qwen3 hk hspans) htail hne
  | other =>
      exact visionPositions_of_announces hargs hkind hopened (gridRows_other hk hspans) htail hne

theorem matrixPositions_of_error (hargs : args.Valid) (hkind : args.kind ≠ .glm4v)
    (hspans : ∀ span ∈ spans, span.Valid args) {text : List Token}
    {fault : TensorFault} (hfault : visionTokens args.visionStartTokenId text = .error fault) :
    ∃ e, matrixPositions args (promptTokens args spans ++ text) (mmData args spans) = .error e := by
  obtain ⟨hopened, hplain⟩ := openedLayout_layout hargs hkind hspans
    (show PlainText args [] by simp [PlainText])
  have hstart : args.visionStartTokenId ∉ (visionBlocks [] (layout args spans)).2 := by
    intro hmem
    have := hplain _ hmem
    simp [markers_of_kind_ne hkind] at this
  have hvision : visionTokens args.visionStartTokenId (promptTokens args spans ++ text) =
      .error fault := by
    rw [(prompt_blocks args spans text).1, visionTokens_blocks hargs hkind hopened,
      visionTokens_append_plain hstart, hfault]
    rfl
  refine ⟨fault, ?_⟩
  unfold matrixPositions
  cases hk : args.kind with
  | glm4v => exact absurd hk hkind
  | qwen3Vl =>
      rw [getPositionsQwen3, visionPositions, hvision]
      rfl
  | other =>
      rw [getPositionsP, visionPositions, hvision]
      rfl

end Layout

end Xllm
