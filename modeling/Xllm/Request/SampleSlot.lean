import Xllm.Util.HashUtil

/-!
# Sample slots

A request may name a literal whose occurrences in the prompt are to be scored.
`build_sample_slots` makes one slot for every occurrence. The logits of a slot come
from the token in front of it.
-/

namespace Xllm

structure SampleSlot where
  requestId : String
  sampleId : Nat
  tokenPosition : Nat
  deriving DecidableEq

def SampleSlot.sourcePosition (slot : SampleSlot) : Nat :=
  if slot.tokenPosition = 0 then 0 else (slot.tokenPosition - 1) % 2 ^ 32

/-- The members of `Tokenizer` that `build_sample_slots` calls. -/
structure Tokenizer where
  tokenToId : String → Option Token
  idToToken : Token → String
  encode : String → Option (List Token)

def getStableSpecialTokenId (literal : String) (tokenizer : Tokenizer) : Option Token :=
  if literal = "" then none
  else
    match tokenizer.tokenToId literal, tokenizer.encode literal with
    | some tokenId, some [token] =>
        if tokenizer.idToToken tokenId = literal ∧ token = tokenId then some tokenId else none
    | _, _ => none

/-- The loop of `build_sample_slots` over the tokens from position `i` on. -/
def collectSampleSlots (requestId : String) (literalTokenId : Token) :
    List Token → Nat → List SampleSlot → List SampleSlot
  | [], _, slots => slots
  | token :: tokens, i, slots =>
      if token ≠ literalTokenId then collectSampleSlots requestId literalTokenId tokens
        (i + 1) slots
      else
        collectSampleSlots requestId literalTokenId tokens (i + 1)
          (slots ++ [⟨requestId, slots.length, i⟩])

def buildSampleSlots (requestId prompt literal : String) (tokenizer : Tokenizer) :
    Option (List SampleSlot) :=
  if literal = "" then some []
  else do
    let literalTokenId ← getStableSpecialTokenId literal tokenizer
    let promptTokens ← tokenizer.encode prompt
    some (collectSampleSlots requestId literalTokenId promptTokens 0 [])

/-- The slots are listed by their position and lie where 32 bits can count. -/
structure SlotsListed (slots : List SampleSlot) : Prop where
  sorted : slots.Pairwise fun a b => a.tokenPosition ≤ b.tokenPosition
  lt : ∀ slot ∈ slots, slot.tokenPosition < 2 ^ 32

instance (slots : List SampleSlot) : Decidable (SlotsListed slots) :=
  decidable_of_iff ((slots.Pairwise fun a b => a.tokenPosition ≤ b.tokenPosition) ∧
    ∀ slot ∈ slots, slot.tokenPosition < 2 ^ 32) ⟨fun h => ⟨h.1, h.2⟩, fun h => ⟨h.1, h.2⟩⟩

theorem slotsListed_nil : SlotsListed [] := ⟨.nil, fun _ h => nomatch h⟩

variable {slots : List SampleSlot}

theorem SlotsListed.sorted_source (h : SlotsListed slots) :
    slots.Pairwise fun a b => a.sourcePosition ≤ b.sourcePosition := by
  refine h.sorted.imp_of_mem fun {a b} ha hb hab => ?_
  have hlt' := h.lt b hb
  rw [SampleSlot.sourcePosition, SampleSlot.sourcePosition]
  split_ifs
  · exact le_refl 0
  · exact Nat.zero_le _
  · omega
  · omega

theorem collectSampleSlots_listed {requestId : String} {literalTokenId : Token}
    {tokens : List Token} {i : Nat}
    (hsorted : slots.Pairwise fun a b => a.tokenPosition ≤ b.tokenPosition)
    (hlt : ∀ slot ∈ slots, slot.tokenPosition < i) (hroom : i + tokens.length ≤ 2 ^ 32) :
    SlotsListed (collectSampleSlots requestId literalTokenId tokens i slots) := by
  induction tokens generalizing i slots with
  | nil =>
      refine ⟨hsorted, fun slot hslot => ?_⟩
      exact (hlt slot hslot).trans_le (Nat.le_of_add_right_le hroom)
  | cons token tokens ih =>
      rw [List.length_cons] at hroom
      rw [collectSampleSlots]
      split
      · exact ih hsorted (fun slot hslot => (hlt slot hslot).trans (Nat.lt_succ_self i)) (by omega)
      · refine ih ?_ (fun slot hslot => ?_) (by omega)
        · rw [List.pairwise_append]
          refine ⟨hsorted, List.pairwise_singleton _ _, fun a ha b hb => ?_⟩
          rw [List.mem_singleton.mp hb]
          exact (hlt a ha).le
        · rcases List.mem_append.mp hslot with hslot | hslot
          · exact (hlt slot hslot).trans (Nat.lt_succ_self i)
          · rw [List.mem_singleton.mp hslot]
            exact Nat.lt_succ_self i

/-- The slots stand in the order of their tokens. -/
theorem buildSampleSlots_listed {requestId prompt literal : String} {tokenizer : Tokenizer}
    (hprompt : ∀ tokens ∈ tokenizer.encode prompt, tokens.length ≤ 2 ^ 32)
    (hslots : buildSampleSlots requestId prompt literal tokenizer = some slots) :
    SlotsListed slots := by
  rw [buildSampleSlots] at hslots
  split at hslots
  · cases hslots
    exact slotsListed_nil
  · obtain ⟨literalTokenId, -, hslots⟩ := Option.bind_eq_some_iff.mp hslots
    obtain ⟨tokens, htokens, hslots⟩ := Option.bind_eq_some_iff.mp hslots
    cases hslots
    refine collectSampleSlots_listed .nil (fun slot hslot => nomatch hslot) ?_
    rw [Nat.zero_add]
    exact hprompt tokens htokens

theorem collectSampleSlots_length {requestId : String} {literalTokenId : Token}
    {tokens : List Token} {i : Nat} :
    (collectSampleSlots requestId literalTokenId tokens i slots).length ≤
      slots.length + tokens.length := by
  induction tokens generalizing i slots with
  | nil => exact Nat.le_add_right _ _
  | cons token tokens ih =>
      rw [collectSampleSlots, List.length_cons]
      split
      · exact ih.trans (by omega)
      · refine ih.trans ?_
        rw [List.length_append, List.length_singleton]
        omega

theorem buildSampleSlots_length {requestId prompt literal : String} {tokenizer : Tokenizer}
    (hprompt : ∀ tokens ∈ tokenizer.encode prompt, tokens.length < 2 ^ 32)
    (hslots : buildSampleSlots requestId prompt literal tokenizer = some slots) :
    slots.length < 2 ^ 32 := by
  rw [buildSampleSlots] at hslots
  split at hslots
  · cases hslots
    decide
  · obtain ⟨literalTokenId, -, hslots⟩ := Option.bind_eq_some_iff.mp hslots
    obtain ⟨tokens, htokens, hslots⟩ := Option.bind_eq_some_iff.mp hslots
    cases hslots
    refine collectSampleSlots_length.trans_lt ?_
    rw [List.length_nil, Nat.zero_add]
    exact hprompt tokens htokens

end Xllm
