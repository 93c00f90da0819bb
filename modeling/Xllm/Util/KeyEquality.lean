import Xllm.Lib.ByteCompare
import Xllm.PrefixCache.Basic

/-!
# Comparing hash keys

Three functions compare or hash a 128-bit key: `XXH3Key::operator==`, which calls
`memcmp`, and the functors `FixedStringKeyHash` and `FixedStringKeyEqual` of the
unordered containers. `std::hash<std::string_view>` is a parameter, a function of
the sixteen bytes.

`operator==` returns the result of `memcmp` as a `bool`, so it holds of different
keys. `FixedStringKeyEqual` stops at a zero byte that both keys share, so it also
holds of some different keys, and these need not have one hash value.
-/

namespace Xllm

open ByteCompare

namespace XXH3Key

def bytes (key : XXH3Key) : List UInt8 := key.data.toList

@[simp] theorem bytes_length (key : XXH3Key) : key.bytes.length = hashValueLen :=
  Vector.length_toList

@[simp] theorem bytes_inj {a b : XXH3Key} : a.bytes = b.bytes ↔ a = b := by
  constructor
  · intro h
    cases a
    cases b
    exact congrArg XXH3Key.mk (Vector.toList_inj.mp h)
  · rintro rfl
    rfl

def operatorEq (a b : XXH3Key) : Bool := memcmp hashValueLen a.bytes b.bytes ≠ 0

@[simp] theorem operatorEq_iff (a b : XXH3Key) : a.operatorEq b ↔ a ≠ b := by
  rw [operatorEq, decide_eq_true_iff, ne_eq,
    memcmp_eq_zero_iff (bytes_length a) (bytes_length b), bytes_inj]

end XXH3Key

def fixedStringKeyHash (hash : List UInt8 → UInt64) (key : XXH3Key) : UInt64 := hash key.bytes

def fixedStringKeyEqual (left right : XXH3Key) : Bool :=
  strncmp hashValueLen left.bytes right.bytes = 0

/-- Two keys with the same bytes before the first zero byte. -/
def SameString (a b : XXH3Key) : Prop := cString a.bytes = cString b.bytes

instance (a b : XXH3Key) : Decidable (SameString a b) := inferInstanceAs (Decidable (_ = _))

theorem SameString.refl (a : XXH3Key) : SameString a a := rfl

theorem fixedStringKeyEqual_iff (a b : XXH3Key) :
    fixedStringKeyEqual a b ↔ SameString a b := by
  rw [fixedStringKeyEqual, decide_eq_true_iff]
  exact strncmp_eq_zero_iff a.bytes_length b.bytes_length

/-- What the containers and callers rely on, for one pair of keys: each equality
is equality of the bytes, and equal keys have equal hash values. -/
structure ByteEquality (hash : List UInt8 → UInt64) (a b : XXH3Key) : Prop where
  container : fixedStringKeyEqual a b ↔ a = b
  operatorEq : a.operatorEq b ↔ a = b
  hashed : fixedStringKeyEqual a b → fixedStringKeyHash hash a = fixedStringKeyHash hash b

/-- No pair of keys is compared as its bytes by every function: `operator==` always
answers the opposite. The containers' equality is byte equality on equal keys and
on keys that are different strings, and only the keys of one string can break the
agreement with the hash function. -/
theorem key_equality (hash : List UInt8 → UInt64) (a b : XXH3Key) :
    ¬ByteEquality hash a b ∧
      (a.operatorEq b ↔ ¬a = b) ∧
      ((fixedStringKeyEqual a b ↔ a = b) ↔ a = b ∨ ¬SameString a b) ∧
      ((fixedStringKeyEqual a b → fixedStringKeyHash hash a = fixedStringKeyHash hash b) ↔
        ¬SameString a b ∨ fixedStringKeyHash hash a = fixedStringKeyHash hash b) := by
  have hoperator := XXH3Key.operatorEq_iff a b
  refine ⟨?_, hoperator, ?_, ?_⟩
  · intro h
    have hboth := hoperator.symm.trans h.operatorEq
    by_cases heq : a = b
    · exact hboth.mpr heq heq
    · exact heq (hboth.mp heq)
  · rw [fixedStringKeyEqual_iff]
    constructor
    · intro h
      by_cases hsame : SameString a b
      · exact .inl (h.mp hsame)
      · exact .inr hsame
    · rintro (rfl | hne)
      · exact iff_of_true (SameString.refl a) rfl
      · refine iff_of_false hne ?_
        rintro rfl
        exact hne (SameString.refl a)
  · rw [fixedStringKeyEqual_iff]
    exact Decidable.imp_iff_not_or

/-- Two keys that start with a zero byte are one key to the containers, and a key
is not equal to itself under `operator==`. -/
theorem zero_byte_keys_collide :
    ¬∀ (hash : List UInt8 → UInt64) (a b : XXH3Key), ByteEquality hash a b := by
  intro h
  let zero : XXH3Key := ⟨Vector.replicate 16 0⟩
  let other : XXH3Key := ⟨(Vector.replicate 16 0).set 1 1⟩
  have hsame : fixedStringKeyEqual zero other = true := by decide
  have hne : zero ≠ other := by decide
  exact hne ((h (fun _ => 0) zero other).container.mp hsame)

/-- A lookup in an unordered container: the hash values are compared first, and
then the keys. -/
def unorderedFind {α : Type*} (hash : List UInt8 → UInt64) (entries : List (XXH3Key × α))
    (key : XXH3Key) : Option (XXH3Key × α) :=
  entries.find? fun e =>
    fixedStringKeyHash hash e.1 = fixedStringKeyHash hash key && fixedStringKeyEqual e.1 key

/-- The container is a finite map over byte strings as long as the hash function
tells apart the stored keys that are one string. -/
theorem unorderedFind_eq {α : Type*} {hash : List UInt8 → UInt64}
    {entries : List (XXH3Key × α)} {key : XXH3Key}
    (h : ∀ e ∈ entries, SameString e.1 key →
      fixedStringKeyHash hash e.1 = fixedStringKeyHash hash key → e.1 = key) :
    unorderedFind hash entries key = entries.find? fun e => e.1 = key := by
  have hsame : ∀ e ∈ entries, (decide (fixedStringKeyHash hash e.1 = fixedStringKeyHash hash key) &&
      fixedStringKeyEqual e.1 key) = decide (e.1 = key) := by
    intro e he
    rw [Bool.eq_iff_iff, Bool.and_eq_true, fixedStringKeyEqual_iff, decide_eq_true_iff,
      decide_eq_true_iff]
    constructor
    · rintro ⟨hhash, hstring⟩
      exact h e he hstring hhash
    · intro heq
      rw [heq]
      exact ⟨rfl, SameString.refl key⟩
  rw [unorderedFind]
  induction entries with
  | nil => rfl
  | cons e entries ih =>
      rw [List.find?_cons, List.find?_cons, hsame e List.mem_cons_self,
        ih (fun e he => h e (List.mem_cons_of_mem _ he))
          (fun e he => hsame e (List.mem_cons_of_mem _ he))]

/-- Two keys that an unordered container takes for one. -/
def sameKey (hash : List UInt8 → UInt64) (a b : XXH3Key) : Bool :=
  fixedStringKeyHash hash a = fixedStringKeyHash hash b && fixedStringKeyEqual a b

/-- `emplace`: an entry whose key is already there is not added. -/
def unorderedEmplace {α : Type*} (hash : List UInt8 → UInt64) (entries : List (XXH3Key × α))
    (key : XXH3Key) (value : α) : List (XXH3Key × α) :=
  if (unorderedFind hash entries key).isSome then entries else (key, value) :: entries

def unorderedErase {α : Type*} (hash : List UInt8 → UInt64) (entries : List (XXH3Key × α))
    (key : XXH3Key) : List (XXH3Key × α) :=
  entries.filter fun e => !sameKey hash e.1 key

section SameKey

variable {α : Type*} {hash : List UInt8 → UInt64} {a b c : XXH3Key}

theorem sameKey_iff :
    sameKey hash a b ↔ fixedStringKeyHash hash a = fixedStringKeyHash hash b ∧ SameString a b := by
  rw [sameKey, Bool.and_eq_true, decide_eq_true_iff, fixedStringKeyEqual_iff]

theorem sameKey_refl (a : XXH3Key) : sameKey hash a a := sameKey_iff.mpr ⟨rfl, .refl a⟩

theorem sameKey_symm (h : sameKey hash a b) : sameKey hash b a := by
  rw [sameKey_iff] at h ⊢
  exact ⟨h.1.symm, h.2.symm⟩

theorem unorderedFind_eq_some {entries : List (XXH3Key × α)} {e : XXH3Key × α}
    (h : unorderedFind hash entries a = some e) : e ∈ entries ∧ sameKey hash e.1 a := by
  have hfind : entries.find? (fun e => sameKey hash e.1 a) = some e := h
  have hsame := List.find?_some hfind
  exact ⟨List.mem_of_find?_eq_some hfind, hsame⟩

theorem unorderedFind_eq_none {entries : List (XXH3Key × α)} :
    unorderedFind hash entries a = none ↔ ∀ e ∈ entries, ¬sameKey hash e.1 a := by
  rw [unorderedFind, List.find?_eq_none]
  exact Iff.rfl

end SameKey

end Xllm
