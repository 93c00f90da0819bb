import Mathlib.Data.List.Infix
import Mathlib.Data.List.Nodup
import Xllm.Lib.MixedRadix

/-!
# Orthogonal groups of ranks

`RankGenerator` numbers the ranks with one digit for each kind of parallelism. A query names
some kinds, and a group consists of the ranks that differ in their digits only. `get_group_rank`
makes groups of consecutive ranks, or of ranks with a stride.
-/

namespace Xllm

open RowMajor MixedRadix

inductive GroupName
  | tp
  | sp
  | cfg
  | dp
  deriving DecidableEq

def GroupName.chars : GroupName → List Char
  | tp => ['t', 'p']
  | sp => ['s', 'p']
  | cfg => ['c', 'f', 'g']
  | dp => ['d', 'p']

structure RankGenerator where
  worldSize : Nat
  rankOffset : Int
  orderedGroupName : List (List Char)
  orderedGroupSize : List Nat

namespace RankGenerator

/-- `std::getline` until the end of the text, which delivers no empty token at the end. -/
def split (text : List Char) : List (List Char) :=
  let tokens := text.splitOn '-'
  if tokens.getLast? = some [] then tokens.dropLast else tokens

def find (token : List Char) : Option GroupName :=
  [GroupName.tp, .sp, .cfg, .dp].find? fun name => decide (name.chars = token)

/-- A kind that the order does not name is put behind it; it must have the size 1. -/
def complete (size : GroupName → Nat) (fullOrder : List Char) (name : GroupName) :
    Option (List Char) :=
  if name.chars <:+: fullOrder then some fullOrder
  else if size name ≠ 1 then none
  else some (fullOrder ++ '-' :: name.chars)

/-- The constructor, where `buckets` is the order in which `group_size_map_` is traversed. -/
def create (buckets : List GroupName) (size : GroupName → Nat) (groupOrder : List Char)
    (rankOffset : Int) : Option RankGenerator := do
  let fullOrder ← buckets.foldlM (complete size) groupOrder
  some {
    worldSize := size .tp * size .sp * size .cfg * size .dp
    rankOffset := rankOffset
    orderedGroupName := split fullOrder
    orderedGroupSize := (split fullOrder).filterMap fun token => (find token).map size }

def prefixProduct : Nat → List Nat → List Nat
  | init, [] => [init]
  | init, size :: sizes => init :: prefixProduct (init * size) sizes

def innerProduct : List Nat → List Nat → Nat
  | x :: xs, y :: ys => x * y + innerProduct xs ys
  | _, _ => 0

def decompose (index : Nat) (shape : List Nat) : List Nat :=
  List.zipWith (fun stride size => index / stride % size) (prefixProduct 1 shape) shape

def generateMaskedOrthogonalRankGroups (worldSize : Nat) (parallelSize : List Nat)
    (mask : List Bool) : List (List Nat) :=
  let queriedGroupSize := pick true parallelSize mask
  let unqueriedGroupSize := pick false parallelSize mask
  let globalGroupStride := (prefixProduct 1 parallelSize).take parallelSize.length
  let groupSize := (prefixProduct 1 queriedGroupSize).getLastD 1
  (List.range (worldSize / groupSize)).map fun groupIndex =>
    (List.range groupSize).map fun rankInGroup =>
      innerProduct (decompose rankInGroup queriedGroupSize) (pick true globalGroupStride mask) +
        innerProduct (decompose groupIndex unqueriedGroupSize) (pick false globalGroupStride mask)

def getMask (g : RankGenerator) (groupQuery : List Char) : List Bool :=
  (split groupQuery).foldl (fun mask name =>
      if g.orderedGroupName.contains name then mask.set (g.orderedGroupName.idxOf name) true
      else mask)
    (List.replicate g.orderedGroupName.length false)

def getRanks (g : RankGenerator) (groupQuery : List Char) : List (List Int) :=
  let ranks := generateMaskedOrthogonalRankGroups g.worldSize g.orderedGroupSize
    (g.getMask groupQuery)
  ranks.map (·.map fun rank : Nat => if 0 < g.rankOffset then rank + g.rankOffset else rank)

variable {sizes : List Nat} {mask : List Bool}

theorem innerProduct_decompose (side : Bool) (sizes : List Nat) (mask : List Bool)
    (stride weight index : Nat) :
    innerProduct (List.zipWith (fun stride size => index / stride % size)
        (prefixProduct stride (pick side sizes mask)) (pick side sizes mask))
      (pick side ((prefixProduct weight sizes).take sizes.length) mask) =
        weight * place side (sizes.zip mask) (index / stride) := by
  induction sizes generalizing mask stride weight with
  | nil => rfl
  | cons size sizes ih =>
      cases mask with
      | nil => rfl
      | cons b mask =>
          simp only [prefixProduct, List.length_cons, List.take_succ_cons, List.zip_cons_cons, pick,
            place]
          by_cases hside : b = side
          · simp only [if_pos hside, prefixProduct, List.zipWith_cons_cons, innerProduct, ih,
              Nat.div_div_eq_div_mul]
            ring
          · simp only [if_neg hside, ih]
            ring

theorem getLastD_prefixProduct (init d : Nat) (sizes : List Nat) :
    (prefixProduct init sizes).getLastD d = init * numel sizes := by
  induction sizes generalizing init d with
  | nil => exact (Nat.mul_one init).symm
  | cons size sizes ih => rw [prefixProduct, List.getLastD_cons, ih, numel, Nat.mul_assoc]

/-- The sizes and the products are `int32_t` in the source. No product exceeds the product of all
sizes, so none overflows as long as `world_size` is below `2 ^ 31`. -/
theorem le_of_mem_prefixProduct {init n : Nat} (hpos : ∀ size ∈ sizes, 0 < size)
    (hn : n ∈ prefixProduct init sizes) : n ≤ init * numel sizes := by
  induction sizes generalizing init with
  | nil => exact (List.mem_singleton.mp hn).le.trans (Nat.mul_one init).ge
  | cons size sizes ih =>
      rcases List.mem_cons.mp hn with rfl | hn
      · exact Nat.le_mul_of_pos_right _ (numel_pos hpos)
      · rw [numel, ← Nat.mul_assoc]
        exact ih (fun size h => hpos size (List.mem_cons_of_mem _ h)) hn

theorem getRanks_eq {g : RankGenerator} {groupQuery : List Char}
    (hsize : g.worldSize = numel g.orderedGroupSize)
    (hlength : g.orderedGroupSize.length ≤ (g.getMask groupQuery).length)
    (hpos : ∀ size ∈ g.orderedGroupSize, 0 < size) :
    g.getRanks groupQuery =
      groups (g.orderedGroupSize.zip (g.getMask groupQuery)) (max g.rankOffset 0) := by
  rw [getRanks]
  generalize g.getMask groupQuery = mask at hlength ⊢
  have haxes : ∀ axis ∈ g.orderedGroupSize.zip mask, 0 < axis.1 := fun axis haxis =>
    hpos _ (List.of_mem_zip haxis).1
  have hnumel : numel g.orderedGroupSize = count true (g.orderedGroupSize.zip mask) *
      count false (g.orderedGroupSize.zip mask) := by
    rw [count_mul_count, List.map_fst_zip hlength]
  have hgroupSize : (prefixProduct 1 (pick true g.orderedGroupSize mask)).getLastD 1 =
      count true (g.orderedGroupSize.zip mask) := by
    rw [getLastD_prefixProduct, Nat.one_mul, count_zip]
  simp only [generateMaskedOrthogonalRankGroups, hgroupSize, hsize, hnumel,
    Nat.mul_div_cancel_left _ (count_pos haxes true), decompose, innerProduct_decompose,
      Nat.div_one, List.map_map, Function.comp_def, groups, join]
  refine List.map_congr_left fun j _ => List.map_congr_left fun i _ => ?_
  split <;> omega

/-- An order or a query: names with `-` between them. -/
def text (tokens : List (List Char)) : List Char := ['-'].intercalate tokens

@[simp] theorem text_cons_cons (token token' : List Char) (tokens : List (List Char)) :
    text (token :: token' :: tokens) = token ++ '-' :: text (token' :: tokens) := by
  rfl

theorem infix_append_cons {c : Char} {w u v : List Char} (hc : c ∉ w)
    (h : w <:+: u ++ c :: v) : w <:+: u ∨ w <:+: v := by
  obtain ⟨s, r, heq⟩ := h
  rw [List.append_assoc] at heq
  obtain ⟨a, rfl, htail⟩ | ⟨a, rfl, htail⟩ := List.append_eq_append_iff.mp heq
  · obtain ⟨b, rfl, -⟩ | ⟨b, rfl, hrest⟩ := List.append_eq_append_iff.mp htail
    · exact Or.inl ⟨s, b, by rw [List.append_assoc]⟩
    · cases b with
      | nil => exact Or.inl ⟨s, [], by simp⟩
      | cons c' b =>
          obtain ⟨rfl, -⟩ := List.cons.inj hrest
          exact absurd (List.mem_append_right a List.mem_cons_self) hc
  · cases a with
    | nil =>
        cases w with
        | nil => exact Or.inl List.nil_infix
        | cons c' w =>
            obtain ⟨rfl, -⟩ := List.cons.inj htail
            exact absurd List.mem_cons_self hc
    | cons c' a =>
        obtain ⟨-, rfl⟩ := List.cons.inj htail
        exact Or.inr ⟨a, r, List.append_assoc a w r⟩

variable {tokens : List (List Char)}

theorem infix_text {w : List Char} (hw : w ≠ []) (hc : '-' ∉ w) (h : w <:+: text tokens) :
    ∃ token ∈ tokens, w <:+: token := by
  induction tokens with
  | nil => exact absurd (List.infix_nil.mp h) hw
  | cons token tokens ih =>
      cases tokens with
      | nil => exact ⟨token, List.mem_cons_self, by simpa [text] using h⟩
      | cons token' tokens =>
          obtain h | h := infix_append_cons hc h
          · exact ⟨token, List.mem_cons_self, h⟩
          · obtain ⟨t, ht, hinfix⟩ := ih h
            exact ⟨t, List.mem_cons_of_mem _ ht, hinfix⟩

theorem infix_text_of_mem {token : List Char} (h : token ∈ tokens) :
    token <:+: text tokens := by
  induction tokens with
  | nil => cases h
  | cons token' tokens ih =>
      cases tokens with
      | nil => exact List.mem_singleton.mp h ▸ ⟨[], [], by simp [text]⟩
      | cons token'' tokens =>
          obtain rfl | h := List.mem_cons.mp h
          · exact (List.prefix_append _ _).isInfix
          · exact (ih h).trans (List.suffix_append_of_suffix (List.suffix_cons _ _)).isInfix

theorem chars_infix_iff (name name' : GroupName) : name.chars <:+: name'.chars ↔ name = name' := by
  cases name <;> cases name' <;> decide

theorem chars_inj {name name' : GroupName} (h : name.chars = name'.chars) : name = name' :=
  (chars_infix_iff name name').mp (h ▸ List.infix_rfl)

theorem chars_ne_nil (name : GroupName) : name.chars ≠ [] := by
  cases name <;> decide

theorem dash_not_mem_chars (name : GroupName) : '-' ∉ name.chars := by
  cases name <;> decide

theorem text_concat (hne : tokens ≠ []) (token : List Char) :
    text (tokens ++ [token]) = text tokens ++ '-' :: token := by
  induction tokens with
  | nil => exact absurd rfl hne
  | cons head tokens ih =>
      cases tokens with
      | nil => simp [text]
      | cons next tokens =>
          have hrest : text (next :: tokens ++ [token]) = text (next :: tokens) ++ '-' :: token :=
            ih (List.cons_ne_nil _ _)
          rw [List.cons_append, List.cons_append, text_cons_cons, ← List.cons_append, hrest,
            text_cons_cons, List.append_assoc]
          rfl

def tokensOf (padded : Bool) (present : List GroupName) : List (List Char) :=
  (if padded then [[]] else []) ++ present.map GroupName.chars

variable {padded : Bool} {present query : List GroupName} {size : GroupName → Nat}

theorem mem_tokensOf_iff {name : GroupName} : name.chars ∈ tokensOf padded present ↔
    name ∈ present := by
  rw [tokensOf, List.mem_append, List.mem_map]
  constructor
  · intro h
    obtain h | h := h
    · cases padded with
      | false => cases h
      | true => exact absurd (List.mem_singleton.mp h) (chars_ne_nil name)
    · obtain ⟨name', hname', heq⟩ := h
      exact chars_inj heq ▸ hname'
  · exact fun h => Or.inr ⟨name, h, rfl⟩

theorem infix_order_iff {name : GroupName} :
    name.chars <:+: text (tokensOf padded present) ↔ name ∈ present := by
  constructor
  · intro h
    obtain ⟨token, htoken, hinfix⟩ := infix_text (chars_ne_nil name) (dash_not_mem_chars name) h
    obtain htoken | htoken := List.mem_append.mp htoken
    · cases padded with
      | false => cases htoken
      | true =>
          rw [List.mem_singleton.mp htoken] at hinfix
          exact absurd (List.infix_nil.mp hinfix) (chars_ne_nil name)
    · obtain ⟨name', hname', rfl⟩ := List.mem_map.mp htoken
      rwa [(chars_infix_iff name name').mp hinfix]
  · exact fun h => infix_text_of_mem (mem_tokensOf_iff.mpr h)

theorem exists_complete (buckets : List GroupName) (hnodup : present.Nodup)
    (hne : tokensOf padded present ≠ []) (hone : ∀ name, name ∉ present → size name = 1) :
    ∃ all, buckets.foldlM (complete size) (text (tokensOf padded present)) =
        some (text (tokensOf padded all)) ∧
      all.Nodup ∧ (∀ name ∈ present, name ∈ all) ∧ ∀ name ∈ buckets, name ∈ all := by
  induction buckets generalizing present with
  | nil => exact ⟨present, rfl, hnodup, fun _ h => h, fun _ h => absurd h List.not_mem_nil⟩
  | cons name buckets ih =>
      rw [List.foldlM_cons, complete]
      by_cases hname : name ∈ present
      · obtain ⟨all, hfold, hall, hkept, hmem⟩ := ih hnodup hne hone
        rw [if_pos (infix_order_iff.mpr hname)]
        exact ⟨all, hfold, hall, hkept, List.forall_mem_cons.mpr ⟨hkept name hname, hmem⟩⟩
      · have happend : tokensOf padded (present ++ [name]) =
            tokensOf padded present ++ [name.chars] := by
          rw [tokensOf, List.map_append, ← List.append_assoc]
          rfl
        obtain ⟨all, hfold, hall, hkept, hmem⟩ := @ih (present ++ [name])
          (List.nodup_append.mpr ⟨hnodup, List.nodup_singleton name, by
            rintro a ha b hb rfl
            exact hname (List.mem_singleton.mp hb ▸ ha)⟩)
          (by rw [happend]; simp)
          (fun other hother => hone other fun h => hother (List.mem_append_left _ h))
        rw [if_neg fun h => hname (infix_order_iff.mp h),
          if_neg (not_not.mpr (hone name hname)), ← text_concat hne, ← happend]
        refine ⟨all, hfold, hall, fun other h => hkept other (List.mem_append_left _ h), ?_⟩
        exact List.forall_mem_cons.mpr
          ⟨hkept name (List.mem_append_right _ List.mem_cons_self), hmem⟩

theorem split_text (hdash : ∀ token ∈ tokens, '-' ∉ token)
    (hlast : tokens.getLast? ≠ some []) : split (text tokens) = tokens := by
  by_cases hne : tokens = []
  · subst hne
    rfl
  · rw [split, text, List.splitOn_intercalate '-' hdash hne]
    exact if_neg hlast

theorem split_order (hne : padded = true → present ≠ []) :
    split (text (tokensOf padded present)) = tokensOf padded present := by
  apply split_text
  · intro token htoken
    obtain htoken | htoken := List.mem_append.mp htoken
    · cases padded with
      | false => cases htoken
      | true => exact List.mem_singleton.mp htoken ▸ List.not_mem_nil
    · obtain ⟨name, -, rfl⟩ := List.mem_map.mp htoken
      exact dash_not_mem_chars name
  · by_cases hpresent : present = []
    · subst hpresent
      cases padded with
      | false => simp [tokensOf]
      | true => exact absurd rfl (hne rfl)
    · obtain ⟨name, hname⟩ := Option.ne_none_iff_exists'.mp
        (mt List.getLast?_eq_none_iff.mp hpresent)
      rw [tokensOf, List.getLast?_append, List.getLast?_map, hname]
      exact fun h => chars_ne_nil name (Option.some.inj h)

@[simp] theorem find_chars (name : GroupName) : find name.chars = some name := by
  cases name <;> rfl

theorem filterMap_find (size : GroupName → Nat) (padded : Bool) (present : List GroupName) :
    (tokensOf padded present).filterMap (fun token => (find token).map size) =
      present.map size := by
  have hnames : (present.map GroupName.chars).filterMap (fun token => (find token).map size) =
      present.map size := by
    rw [List.filterMap_map, ← List.filterMap_eq_map]
    exact List.filterMap_congr fun name _ => by rw [Function.comp_apply, find_chars]; rfl
  rw [tokensOf, List.filterMap_append, hnames]
  cases padded <;> rfl

theorem set_idxOf {α : Type*} [BEq α] [LawfulBEq α] [DecidableEq α] {names : List α}
    (hnodup : names.Nodup) (f : α → Bool) (name : α) :
    (names.map f).set (names.idxOf name) true =
      names.map fun other => f other || decide (other = name) := by
  induction names with
  | nil => rfl
  | cons head names ih =>
      obtain ⟨hhead, hnames⟩ := List.nodup_cons.mp hnodup
      by_cases heq : head = name
      · subst heq
        rw [List.idxOf_cons_self, List.map_cons, List.map_cons,
          decide_eq_true rfl, Bool.or_true]
        refine congrArg _ (List.map_congr_left fun other hother => ?_)
        have hother' : other ≠ head := fun h => hhead (h ▸ hother)
        rw [decide_eq_false hother', Bool.or_false]
      · rw [List.idxOf_cons_ne _ heq, List.map_cons, List.set_cons_succ, ih hnames, List.map_cons,
          decide_eq_false heq, Bool.or_false]

theorem getMask_eq {g : RankGenerator} (hnodup : g.orderedGroupName.Nodup)
    (groupQuery : List Char) :
    g.getMask groupQuery =
      g.orderedGroupName.map fun name => decide (name ∈ split groupQuery) := by
  have hfold : ∀ (tokens : List (List Char)) (f : List Char → Bool),
      tokens.foldl (fun mask name => if name ∈ g.orderedGroupName then
          mask.set (g.orderedGroupName.idxOf name) true else mask) (g.orderedGroupName.map f) =
        g.orderedGroupName.map fun name => f name || decide (name ∈ tokens) := by
    intro tokens
    induction tokens with
    | nil => simp
    | cons token tokens ih =>
        intro f
        have hset : (if token ∈ g.orderedGroupName then (g.orderedGroupName.map f).set
            (g.orderedGroupName.idxOf token) true else g.orderedGroupName.map f) =
            g.orderedGroupName.map fun name => f name || decide (name = token) := by
          rw [← set_idxOf hnodup]
          split
          · rfl
          case isFalse hmem =>
            rw [List.set_eq_of_length_le (by rw [List.length_map, List.idxOf_eq_length hmem])]
        rw [List.foldl_cons, hset, ih]
        refine List.map_congr_left fun name _ => ?_
        simp only [List.mem_cons, Bool.decide_or, Bool.or_assoc]
  simp only [getMask, List.contains_iff_mem, ← List.map_const', hfold, Bool.false_or]

/-- What the constructor makes of an order that has been completed to `all`. -/
def made (size : GroupName → Nat) (padded : Bool) (all : List GroupName) (rankOffset : Int) :
    RankGenerator where
  worldSize := size .tp * size .sp * size .cfg * size .dp
  rankOffset := rankOffset
  orderedGroupName := tokensOf padded all
  orderedGroupSize := all.map size

theorem exists_made {buckets names : List GroupName} (hbuckets : ∀ name, name ∈ buckets)
    (hpos : ∀ name, 0 < size name) (hnodup : names.Nodup)
    (hpresent : ∀ name, 1 < size name → name ∈ names) (rankOffset : Int) :
    ∃ padded all, create buckets size (text (names.map GroupName.chars)) rankOffset =
        some (made size padded all rankOffset) ∧ all.Nodup ∧ (∀ name, name ∈ all) ∧
      (padded = true → ∀ name, size name = 1) := by
  have hone : ∀ name, name ∉ names → size name = 1 := fun name hname =>
    Nat.le_antisymm (Nat.le_of_not_lt fun h => hname (hpresent name h)) (hpos name)
  have hcreate : ∀ padded, text (names.map GroupName.chars) = text (tokensOf padded names) →
      tokensOf padded names ≠ [] → ∃ all,
        create buckets size (text (names.map GroupName.chars)) rankOffset =
          some (made size padded all rankOffset) ∧ all.Nodup ∧ ∀ name, name ∈ all := by
    intro padded htext hne
    obtain ⟨all, hfold, hall, -, hmem⟩ := exists_complete buckets hnodup hne hone
    have hsplit : split (text (tokensOf padded all)) = tokensOf padded all :=
      split_order fun _ => List.ne_nil_of_mem (hmem .tp (hbuckets .tp))
    refine ⟨all, ?_, hall, fun name => hmem name (hbuckets name)⟩
    simp only [create, htext, hfold, Option.bind_eq_bind, Option.bind_some, hsplit, filterMap_find]
    rfl
  by_cases hnil : names = []
  · subst hnil
    obtain ⟨all, hall⟩ := hcreate true rfl (List.cons_ne_nil _ _)
    exact ⟨true, all, hall.1, hall.2.1, hall.2.2, fun _ name => hone name List.not_mem_nil⟩
  · obtain ⟨all, hall⟩ := hcreate false rfl (mt List.map_eq_nil_iff.mp hnil)
    exact ⟨false, all, hall.1, hall.2.1, hall.2.2, fun h => absurd h Bool.false_ne_true⟩

def axesOf (size : GroupName → Nat) (query all : List GroupName) : Axes :=
  all.map fun name => (size name, decide (name ∈ query))

theorem count_axesOf (size : GroupName → Nat) (query all : List GroupName) :
    count true (axesOf size query all) =
      numel ((all.filter fun name => decide (name ∈ query)).map size) := by
  induction all with
  | nil => rfl
  | cons name all ih =>
      rw [axesOf] at ih ⊢
      rw [List.map_cons, count, List.filter_cons, ih]
      split <;> rfl

variable {all : List GroupName}

theorem nodup_tokensOf (hall : all.Nodup) :
    (tokensOf padded all).Nodup := by
  have hnames : (all.map GroupName.chars).Nodup := hall.map fun _ _ => chars_inj
  cases padded with
  | false => exact hnames
  | true =>
      refine List.nodup_cons.mpr ⟨fun h => ?_, hnames⟩
      obtain ⟨name, -, heq⟩ := List.mem_map.mp h
      exact chars_ne_nil name heq

theorem getMask_made (hall : all.Nodup) (rankOffset : Int)
    (query : List GroupName) :
    (made size padded all rankOffset).getMask (text (query.map GroupName.chars)) =
      (tokensOf padded all).map fun token => decide (token ∈ query.map GroupName.chars) := by
  have hsplit : split (text (query.map GroupName.chars)) = query.map GroupName.chars :=
    @split_order false query fun h => absurd h Bool.false_ne_true
  rw [getMask_eq (nodup_tokensOf hall), hsplit]
  rfl

theorem perm_all (hall : all.Nodup) (hmem : ∀ name, name ∈ all) :
    all.Perm [.tp, .sp, .cfg, .dp] :=
  (List.perm_ext_iff_of_nodup hall (by decide)).mpr fun name => by
    cases name <;> simp [hmem]

section

variable {all query : List GroupName} (hpos : ∀ name, 0 < size name) (hall : all.Nodup)
  (hmem : ∀ name, name ∈ all) (hquery : query.Nodup) (rankOffset : Int)

include hpos hall hmem hquery

theorem exists_axes (hone : padded = true → ∀ name, size name = 1) :
    ∃ axes : Axes, (∀ axis ∈ axes, 0 < axis.1) ∧
      (made size padded all rankOffset).getRanks (text (query.map GroupName.chars)) =
        groups axes (max rankOffset 0) ∧
      numel (axes.map Prod.fst) = size .tp * size .sp * size .cfg * size .dp ∧
      count true axes = numel (query.map size) ∧
      (padded = false → axes = axesOf size query all) := by
  have hsize : size .tp * size .sp * size .cfg * size .dp = numel (all.map size) := by
    rw [numel_perm ((perm_all hall hmem).map size)]
    simp only [List.map_cons, List.map_nil, numel]
    ring
  have hsizes : ∀ s ∈ all.map size, 0 < s := by
    intro s hs
    obtain ⟨name, -, rfl⟩ := List.mem_map.mp hs
    exact hpos name
  have hmask : (made size padded all rankOffset).getMask (text (query.map GroupName.chars)) = _ :=
    getMask_made hall rankOffset query
  have hlength : (all.map size).length ≤
      ((made size padded all rankOffset).getMask (text (query.map GroupName.chars))).length := by
    rw [hmask, List.length_map, List.length_map, tokensOf, List.length_append, List.length_map]
    exact Nat.le_add_left _ _
  have hranks := getRanks_eq (g := made size padded all rankOffset) hsize hlength hsizes
  have hnumel := (congrArg numel (List.map_fst_zip hlength)).trans hsize.symm
  have haxes : padded = false → (all.map size).zip ((made size padded all rankOffset).getMask
      (text (query.map GroupName.chars))) = axesOf size query all := by
    rintro rfl
    rw [hmask, tokensOf, if_neg Bool.false_ne_true, List.nil_append, List.map_map, List.zip_map']
    refine List.map_congr_left fun name _ => Prod.ext rfl ?_
    exact decide_eq_decide.mpr (@mem_tokensOf_iff false query name)
  refine ⟨_, ?_, hranks, hnumel, ?_, haxes⟩
  · exact fun axis haxis => hsizes _ (List.of_mem_zip haxis).1
  · cases padded with
    | false =>
        have hfilter : (all.filter fun name => decide (name ∈ query)).Perm query :=
          (List.perm_ext_iff_of_nodup (hall.filter _) hquery).mpr fun name => by simp [hmem]
        refine (congrArg (count true) (haxes rfl)).trans ?_
        rw [count_axesOf, numel_perm (hfilter.map size)]
    | true =>
        have hcount := Nat.eq_one_of_mul_eq_one_right ((count_mul_count _).trans
          ((congrArg numel (List.map_fst_zip hlength)).trans
            (numel_of_ones (List.forall_mem_map.mpr fun name _ => hone rfl name))))
        rw [numel_of_ones (List.forall_mem_map.mpr fun name _ => hone rfl name)]
        exact hcount

end

/-- The groups of a query are a partition of the ranks. They meet those of the opposite query in
one rank each. -/
structure Orthogonal (size : GroupName → Nat) (rankOffset : Int) (g : RankGenerator)
    (query opposite : List GroupName) : Prop where
  partition : Partition (g.getRanks (text (query.map GroupName.chars))) (max rankOffset 0)
    (size .tp * size .sp * size .cfg * size .dp) (numel (query.map size))
  meet : ∀ group ∈ g.getRanks (text (query.map GroupName.chars)),
    ∀ group' ∈ g.getRanks (text (opposite.map GroupName.chars)),
      ∃! rank, rank ∈ group ∧ rank ∈ group'

theorem exists_orthogonal {buckets names : List GroupName}
    (hbuckets : buckets.Perm [.tp, .sp, .cfg, .dp]) {size : GroupName → Nat}
    (hpos : ∀ name, 0 < size name) (hnodup : names.Nodup)
    (hpresent : ∀ name, 1 < size name → name ∈ names) (rankOffset : Int) :
    ∃ g, create buckets size (text (names.map GroupName.chars)) rankOffset = some g ∧
      ∀ query opposite : List GroupName, query.Nodup → opposite.Nodup →
        (∀ name, name ∈ opposite ↔ name ∉ query) → Orthogonal size rankOffset g query opposite := by
  have hevery : ∀ name, name ∈ buckets := fun name =>
    hbuckets.mem_iff.mpr (by cases name <;> simp)
  obtain ⟨padded, all, hcreate, hall, hmem, hone⟩ :=
    exists_made hevery hpos hnodup hpresent rankOffset
  refine ⟨_, hcreate, fun query opposite hquery hopposite hcompl => ?_⟩
  obtain ⟨axes, haxes, hranks, hnumel, hcount, hplain⟩ :=
    exists_axes hpos hall hmem hquery rankOffset hone
  obtain ⟨axes', haxes', hranks', hnumel', -, hplain'⟩ :=
    exists_axes hpos hall hmem hopposite rankOffset hone
  constructor
  case partition =>
    rw [hranks, ← hnumel, ← hcount]
    exact partition_groups haxes _
  case meet =>
    rw [hranks, hranks']
    cases padded with
    | false =>
        have hsides : axes' = swapSides axes := by
          rw [hplain rfl, hplain' rfl, axesOf, axesOf, swapSides, List.map_map]
          refine List.map_congr_left fun name _ => Prod.ext rfl ?_
          rw [Function.comp_apply, ← decide_not]
          exact decide_eq_decide.mpr (hcompl name)
        rw [hsides]
        exact orthogonal_groups haxes _
    | true =>
        -- without a name in the order all sizes are 1
        have hsize : size .tp * size .sp * size .cfg * size .dp = 1 := by
          simp only [hone rfl]
        intro group hgroup group' hgroup'
        rw [groups_of_one haxes _ (hnumel.trans hsize) group hgroup,
          groups_of_one haxes' _ (hnumel'.trans hsize) group' hgroup']
        exact ⟨max rankOffset 0, ⟨List.mem_cons_self, List.mem_cons_self⟩,
          fun rank hrank => List.mem_singleton.mp hrank.1⟩

end RankGenerator

def getTransGroupRank (worldSize globalRank splitSize : Nat) : Nat × List Nat :=
  let transGroupSize := worldSize / splitSize
  (globalRank / transGroupSize,
    (List.range splitSize).map fun i => i * transGroupSize + globalRank % transGroupSize)

def getGroupRank (worldSize globalRank splitSize : Nat) (trans : Bool) : Nat × List Nat :=
  if trans then getTransGroupRank worldSize globalRank splitSize
  else
    let startRank := globalRank / splitSize * splitSize
    (globalRank - startRank, List.range' startRank splitSize)

structure SplitsRanks (worldSize splitSize : Nat) (trans : Bool) : Prop where
  length_eq : ∀ rank < worldSize, (getGroupRank worldSize rank splitSize trans).2.length = splitSize
  index_iff : ∀ rank < worldSize, ∀ i : Nat,
    (getGroupRank worldSize rank splitSize trans).2[i]? = some rank ↔
      i = (getGroupRank worldSize rank splitSize trans).1
  inside : ∀ rank < worldSize, ∀ member ∈ (getGroupRank worldSize rank splitSize trans).2,
    member < worldSize ∧ (getGroupRank worldSize member splitSize trans).2 =
      (getGroupRank worldSize rank splitSize trans).2

variable {splitSize count rank member : Nat}

theorem mem_consecutive (hsplit : 0 < splitSize) (worldSize : Nat) :
    member ∈ (getGroupRank worldSize rank splitSize false).2 ↔
      member / splitSize = rank / splitSize := by
  rw [getGroupRank, if_neg Bool.false_ne_true, List.mem_range'_1]
  constructor
  · intro h
    refine Nat.div_eq_of_lt_le h.1 ?_
    rw [Nat.succ_mul]
    exact h.2
  · intro h
    rw [← h]
    exact ⟨Nat.div_mul_le_self _ _, Nat.lt_div_mul_add hsplit⟩

theorem mem_strided (hsplit : 0 < splitSize) (hcount : 0 < count) :
    member ∈ (getGroupRank (splitSize * count) rank splitSize true).2 ↔
      member < splitSize * count ∧ member % count = rank % count := by
  have hmod := Nat.mod_lt rank hcount
  rw [getGroupRank, if_pos rfl, getTransGroupRank, Nat.mul_div_cancel_left _ hsplit, List.mem_map]
  constructor
  · rintro ⟨i, hi, rfl⟩
    rw [Nat.mul_add_mod', Nat.mod_mod]
    have hle := Nat.mul_le_mul_right count (Nat.succ_le_of_lt (List.mem_range.mp hi))
    rw [Nat.succ_mul] at hle
    exact ⟨by omega, rfl⟩
  · rintro ⟨hlt, hmember⟩
    refine ⟨member / count, List.mem_range.mpr ?_, ?_⟩
    · exact Nat.div_lt_of_lt_mul (Nat.mul_comm splitSize count ▸ hlt)
    · rw [← hmember, Nat.div_add_mod']

/-- A group lists its ranks, each at its own index. -/
theorem splitsRanks (hsplit : 0 < splitSize) (hcount : 0 < count) (trans : Bool) :
    SplitsRanks (splitSize * count) splitSize trans := by
  constructor
  case length_eq =>
    intro rank _
    cases trans with
    | false => exact List.length_range'
    | true => rw [getGroupRank, if_pos rfl, getTransGroupRank, List.length_map, List.length_range]
  case index_iff =>
    intro rank hrank i
    cases trans with
    | false =>
        have hle := Nat.div_mul_le_self rank splitSize
        have hlt := Nat.lt_div_mul_add (a := rank) hsplit
        simp only [getGroupRank, Bool.false_eq_true, if_false]
        by_cases hi : i < splitSize
        · rw [List.getElem?_range' hi, Option.some.injEq]
          omega
        · rw [List.getElem?_eq_none (by rw [List.length_range']; omega)]
          simp only [reduceCtorEq, false_iff]
          omega
    | true =>
        have hindex : rank / count < splitSize :=
          Nat.div_lt_of_lt_mul (Nat.mul_comm splitSize count ▸ hrank)
        have hdigits := Nat.div_add_mod' rank count
        simp only [getGroupRank, if_true, getTransGroupRank, Nat.mul_div_cancel_left _ hsplit,
          List.getElem?_map]
        by_cases hi : i < splitSize
        · rw [List.getElem?_range hi, Option.map_some, Option.some.injEq]
          constructor
          · intro h
            exact Nat.eq_of_mul_eq_mul_right hcount (by omega)
          · rintro rfl
            exact hdigits
        · rw [List.getElem?_eq_none (by rw [List.length_range]; omega)]
          simp only [Option.map_none, reduceCtorEq, false_iff]
          omega
  case inside =>
    intro rank hrank member hmember
    cases trans with
    | false =>
        have hdiv := (mem_consecutive hsplit _).mp hmember
        have hlt : member / splitSize < count := hdiv ▸ Nat.div_lt_of_lt_mul hrank
        refine ⟨?_, by simp only [getGroupRank, Bool.false_eq_true, if_false, hdiv]⟩
        rw [Nat.mul_comm]
        exact Nat.lt_mul_of_div_lt hlt hsplit
    | true =>
        obtain ⟨hlt, hmod⟩ := (mem_strided hsplit hcount).mp hmember
        refine ⟨hlt, ?_⟩
        simp only [getGroupRank, if_true, getTransGroupRank, Nat.mul_div_cancel_left _ hsplit, hmod]

theorem consecutive_meets_strided (hsplit : 0 < splitSize) (hcount : 0 < count) {rank' : Nat}
    (hrank : rank < splitSize * count) :
    ∃! member, member ∈ (getGroupRank (splitSize * count) rank splitSize false).2 ∧
      member ∈ (getGroupRank (splitSize * count) rank' count true).2 := by
  have hstrided : ∀ member, member ∈ (getGroupRank (splitSize * count) rank' count true).2 ↔
      member < splitSize * count ∧ member % splitSize = rank' % splitSize := fun member => by
    rw [Nat.mul_comm splitSize count]
    exact mem_strided hcount hsplit
  have hmod := Nat.mod_lt rank' hsplit
  have hdiv : (rank / splitSize * splitSize + rank' % splitSize) / splitSize =
      rank / splitSize := by
    rw [Nat.mul_comm, Nat.mul_add_div hsplit, Nat.div_eq_of_lt hmod, Nat.add_zero]
  refine ⟨rank / splitSize * splitSize + rank' % splitSize, ⟨?_, ?_⟩, fun member hmember => ?_⟩
  · exact (mem_consecutive hsplit _).mpr hdiv
  · refine (hstrided _).mpr ⟨?_, by rw [Nat.mul_add_mod', Nat.mod_mod]⟩
    rw [Nat.mul_comm splitSize count]
    exact Nat.lt_mul_of_div_lt (by rw [hdiv]; exact Nat.div_lt_of_lt_mul hrank) hsplit
  · have hgroup := (mem_consecutive hsplit _).mp hmember.1
    have hplace := ((hstrided member).mp hmember.2).2
    rw [← hgroup, ← hplace, Nat.div_add_mod']

/-- Queries and their opposites, and groups of consecutive ranks and those with a stride, are
partitions of the ranks that meet in one rank. -/
theorem rank_groups_orthogonal :
    (∀ (buckets names : List GroupName) (size : GroupName → Nat) (rankOffset : Int),
      buckets.Perm [.tp, .sp, .cfg, .dp] → (∀ name, 0 < size name) → names.Nodup →
      (∀ name, 1 < size name → name ∈ names) →
      ∃ g, RankGenerator.create buckets size
          (RankGenerator.text (names.map GroupName.chars)) rankOffset = some g ∧
        ∀ query opposite : List GroupName, query.Nodup → opposite.Nodup →
          (∀ name, name ∈ opposite ↔ name ∉ query) →
          RankGenerator.Orthogonal size rankOffset g query opposite) ∧
    ∀ worldSize splitSize : Nat, 0 < worldSize → splitSize ∣ worldSize →
      (∀ trans, SplitsRanks worldSize splitSize trans) ∧
      ∀ rank < worldSize, ∀ rank' < worldSize, ∃! member,
        member ∈ (getGroupRank worldSize rank splitSize false).2 ∧
        member ∈ (getGroupRank worldSize rank' (worldSize / splitSize) true).2 := by
  constructor
  · intro buckets names size rankOffset hbuckets hpos hnodup hpresent
    exact RankGenerator.exists_orthogonal hbuckets hpos hnodup hpresent rankOffset
  · intro worldSize splitSize hworld hdvd
    obtain ⟨count, rfl⟩ := hdvd
    have hsplit : 0 < splitSize := Nat.pos_of_mul_pos_right hworld
    have hcount : 0 < count := Nat.pos_of_mul_pos_left hworld
    refine ⟨splitsRanks hsplit hcount, fun rank hrank rank' _ => ?_⟩
    rw [Nat.mul_div_cancel_left _ hsplit]
    exact consecutive_meets_strided hsplit hcount hrank

theorem rank_groups_orthogonal_six :
    let size : GroupName → Nat := fun name => if name = .tp then 2 else if name = .dp then 3 else 1
    (∃ g, RankGenerator.create [.cfg, .tp, .dp, .sp] size
        (RankGenerator.text [GroupName.dp.chars, GroupName.tp.chars]) 4 = some g ∧
      RankGenerator.Orthogonal size 4 g [.dp] [.tp, .sp, .cfg]) ∧
    SplitsRanks 6 2 true := by
  intro size
  obtain ⟨g, hcreate, h⟩ := rank_groups_orthogonal.1 [.cfg, .tp, .dp, .sp] [.dp, .tp] size 4
    (by decide) (by intro name; cases name <;> decide) (by decide)
    (by intro name; cases name <;> decide)
  refine ⟨⟨g, hcreate, h [.dp] [.tp, .sp, .cfg] (by decide) (by decide) ?_⟩, ?_⟩
  · intro name
    cases name <;> decide
  · exact (rank_groups_orthogonal.2 6 2 (by decide) (by decide)).1 true

theorem negative_offset_ignored :
    ¬ ∀ g, RankGenerator.create [.tp, .sp, .cfg, .dp] (fun _ => 1)
        (RankGenerator.text [GroupName.tp.chars]) (-1) = some g →
      MixedRadix.Partition (g.getRanks (RankGenerator.text [])) (-1) 1 1 := by
  intro h
  obtain ⟨-, hinside, -⟩ := h _ rfl
  have hrank := hinside [0] (by decide) 0 List.mem_cons_self
  omega

end Xllm
