import Mathlib.Algebra.Group.Nat.Even
import Mathlib.Tactic.Ring

/-!
# Codecs with two sections

A value is written through two cursors. Its description goes to a *descriptor*, its bulk
data to an *arena* in which every block starts at a multiple of an alignment. A dry run
has no memory behind its cursors and only counts.

A reader follows with two cursors over one memory. It does not know where a section ends,
so writer and reader must agree on every byte. `RoundTrip n w r x` says that they do: what
`w` writes is the same in a dry run, and wherever it stands, `r` returns `x` and moves
both cursors behind it. Writers in sequence round trip when each of them does. Counts need
no bound of their own: what is counted leaves bytes in a memory whose
sizes are signed 64-bit numbers.
-/

namespace Codec

open List

/-- The `w` bytes of a number, least significant first. -/
def littleEndian : Nat → Nat → List UInt8
  | 0, _ => []
  | w + 1, n => UInt8.ofNat n :: littleEndian w (n / 256)

def ofLittleEndian : List UInt8 → Nat
  | [] => 0
  | b :: bs => b.toNat + 256 * ofLittleEndian bs

@[simp] theorem length_littleEndian (w n : Nat) : (littleEndian w n).length = w := by
  induction w generalizing n with
  | zero => rfl
  | succ w ih => rw [littleEndian, length_cons, ih]

@[simp] theorem ofLittleEndian_littleEndian {w n : Nat} (h : n < 256 ^ w) :
    ofLittleEndian (littleEndian w n) = n := by
  induction w generalizing n with
  | zero =>
      rw [littleEndian, ofLittleEndian]
      omega
  | succ w ih =>
      have hdiv : n / 256 < 256 ^ w := by
        rw [Nat.div_lt_iff_lt_mul (by decide)]
        rwa [pow_succ] at h
      rw [littleEndian, ofLittleEndian, ih hdiv, UInt8.toNat_ofNat']
      omega

class Packed (α : Type) where
  size : Nat
  bytes : α → List UInt8
  ofBytes : List UInt8 → α
  size_pos : 0 < size
  length_bytes : ∀ x, (bytes x).length = size
  ofBytes_bytes : ∀ x, ofBytes (bytes x) = x

attribute [simp] Packed.length_bytes Packed.ofBytes_bytes

instance : Packed UInt8 where
  size := 1
  bytes x := [x]
  ofBytes b := b.headD 0
  size_pos := by decide
  length_bytes _ := rfl
  ofBytes_bytes _ := rfl

instance : Packed Int8 where
  size := 1
  bytes x := [x.toUInt8]
  ofBytes b := (b.headD 0).toInt8
  size_pos := by decide
  length_bytes _ := rfl
  ofBytes_bytes x := Int8.toInt8_toUInt8 x

/-- Every byte but zero is read as `true`. -/
instance : Packed Bool where
  size := 1
  bytes x := [if x then 1 else 0]
  ofBytes b := b.headD 0 ≠ 0
  size_pos := by decide
  length_bytes _ := rfl
  ofBytes_bytes x := by cases x <;> decide

instance : Packed UInt32 where
  size := 4
  bytes x := littleEndian 4 x.toNat
  ofBytes b := UInt32.ofNat (ofLittleEndian b)
  size_pos := by decide
  length_bytes _ := length_littleEndian _ _
  ofBytes_bytes x := by
    rw [ofLittleEndian_littleEndian x.toNat_lt, UInt32.ofNat_toNat]

instance : Packed Int32 where
  size := 4
  bytes x := Packed.bytes x.toUInt32
  ofBytes b := (Packed.ofBytes b : UInt32).toInt32
  size_pos := by decide
  length_bytes x := Packed.length_bytes x.toUInt32
  ofBytes_bytes x := by rw [Packed.ofBytes_bytes, Int32.toInt32_toUInt32]

instance : Packed UInt64 where
  size := 8
  bytes x := littleEndian 8 x.toNat
  ofBytes b := UInt64.ofNat (ofLittleEndian b)
  size_pos := by decide
  length_bytes _ := length_littleEndian _ _
  ofBytes_bytes x := by
    rw [ofLittleEndian_littleEndian x.toNat_lt, UInt64.ofNat_toNat]

instance : Packed Int64 where
  size := 8
  bytes x := Packed.bytes x.toUInt64
  ofBytes b := (Packed.ofBytes b : UInt64).toInt64
  size_pos := by decide
  length_bytes x := Packed.length_bytes x.toUInt64
  ofBytes_bytes x := by rw [Packed.ofBytes_bytes, Int64.toInt64_toUInt64]

/-- A cursor of the writer. Without memory behind it, it only counts. -/
structure Section where
  bytes : Option (List UInt8)
  size : Nat := 0

namespace Section

def counting : Section := { bytes := none }

def empty : Section := { bytes := some [] }

def push (s : Section) (b : List UInt8) : Section where
  bytes := s.bytes.map (· ++ b)
  size := s.size + b.length

@[simp] theorem push_size (s : Section) (b : List UInt8) : (s.push b).size = s.size + b.length :=
  rfl

@[simp] theorem push_nil (s : Section) : s.push [] = s := by
  obtain ⟨bytes, size⟩ := s
  cases bytes <;> simp [push]

@[simp] theorem push_push (s : Section) (b c : List UInt8) :
    (s.push b).push c = s.push (b ++ c) := by
  obtain ⟨bytes, size⟩ := s
  cases bytes <;> simp [push, Nat.add_assoc]

end Section

/-- The state of a writer. `placed` lists where in the arena blocks were put. -/
structure Output where
  descriptor : Section
  arena : Section
  placed : List Nat := []

structure Input where
  memory : List UInt8
  descriptor : Nat
  arena : Nat

abbrev Writer := StateT Output Option Unit

abbrev Reader (α : Type) := StateT Input Option α

def put (b : List UInt8) : Writer := fun o =>
  some ((), { o with descriptor := o.descriptor.push b })

def bytesAt (memory : List UInt8) (at' n : Nat) : Option (List UInt8) :=
  if at' + n ≤ memory.length then some ((memory.drop at').take n) else none

def take (n : Nat) : Reader (List UInt8) := fun i =>
  (bytesAt i.memory i.descriptor n).map fun b => (b, { i with descriptor := i.descriptor + n })

/-- Round up to a multiple of `n`. -/
def alignUp (value n : Nat) : Nat := (value + n - 1) / n * n

/-- Put a block into the arena and fill up to the alignment. -/
def place (n : Nat) (b : List UInt8) : Writer := fun o =>
  some ((), { o with
    arena := (o.arena.push b).push (List.replicate (alignUp b.length n - b.length) 0)
    placed := o.placed ++ [o.arena.size] })

/-- Read the first `n` bytes of a block that was put down with `size` bytes. -/
def takeBlock (alignment n size : Nat) : Reader (List UInt8) := fun i =>
  (bytesAt i.memory i.arena n).map fun b =>
    (b, { i with arena := i.arena + alignUp size alignment })

/-- Look at `n` bytes of the arena. -/
def peekBlock (n : Nat) : Reader (List UInt8) := fun i =>
  (bytesAt i.memory i.arena n).map fun b => (b, i)

def readMany {α : Type} (r : Reader α) : Nat → Reader (List α)
  | 0 => pure []
  | n + 1 => do
      let x ← r
      let xs ← readMany r n
      return x :: xs

section Calculus

variable {α β σ : Type} {n : Nat} {w w' : Writer} {r : Reader α} {x : α} {y : β}

/-- The arena ends at a multiple of the alignment, and every block starts at one. -/
structure Aligned (n : Nat) (o : Output) : Prop where
  size : n ∣ o.arena.size
  placed : ∀ at' ∈ o.placed, n ∣ at'

/-- What a writer writes does not depend on where it writes, and it keeps the alignment. -/
def Writes (n : Nat) (w : Writer) (d a : List UInt8) : Prop :=
  ∀ o, ∃ o', w o = some ((), o') ∧ o'.descriptor = o.descriptor.push d ∧
    o'.arena = o.arena.push a ∧ (Aligned n o → Aligned n o')

/-- The bytes stand at the cursors of a reader. -/
structure Stands (i : Input) (d a : List UInt8) : Prop where
  descriptor : d <+: i.memory.drop i.descriptor
  arena : a <+: i.memory.drop i.arena
  descriptor_le : i.descriptor + d.length ≤ i.memory.length
  arena_le : i.arena + a.length ≤ i.memory.length
  size_lt : i.memory.length < 2 ^ 63

/-- Where the bytes stand at its cursors, the reader returns the value and moves behind
them. -/
def Reads (r : Reader α) (x : α) (d a : List UInt8) : Prop :=
  ∀ i : Input, Stands i d a → r i = some (x, { i with
    descriptor := i.descriptor + d.length
    arena := i.arena + a.length })

def RoundTrip (n : Nat) (w : Writer) (r : Reader α) (x : α) : Prop :=
  ∃ d a, Writes n w d a ∧ Reads r x d a

/-- A round trip that leaves something in the descriptor. -/
def Framed (n : Nat) (w : Writer) (r : Reader α) (x : α) : Prop :=
  ∃ d a, d ≠ [] ∧ Writes n w d a ∧ Reads r x d a

theorem Framed.roundTrip (h : Framed n w r x) : RoundTrip n w r x := by
  obtain ⟨d, a, -, hw, hr⟩ := h
  exact ⟨d, a, hw, hr⟩

theorem Writes.pure : Writes n (Pure.pure ()) [] [] :=
  fun o => ⟨o, rfl, (Section.push_nil _).symm, (Section.push_nil _).symm, id⟩

theorem run_bind (m : StateT σ Option α) (f : α → StateT σ Option β) (s : σ) :
    (m >>= f) s = (m s).bind fun p => f p.1 p.2 := rfl

variable {d d' a a' : List UInt8}

theorem Writes.bind {f : Unit → Writer} (h : Writes n w d a)
    (h' : Writes n (f ()) d' a') : Writes n (w >>= f) (d ++ d') (a ++ a') := by
  intro o
  obtain ⟨o₁, hrun, hdescriptor, harena, haligned⟩ := h o
  obtain ⟨o₂, hrun', hdescriptor', harena', haligned'⟩ := h' o₁
  refine ⟨o₂, ?_, ?_, ?_, haligned' ∘ haligned⟩
  · rw [run_bind, hrun]
    exact hrun'
  · rw [hdescriptor', hdescriptor, Section.push_push]
  · rw [harena', harena, Section.push_push]

theorem Reads.pure : Reads (Pure.pure x) x [] [] := fun _ _ => rfl

theorem prefix_drop_add {memory d d' : List UInt8} {at' : Nat}
    (h : d ++ d' <+: memory.drop at') : d' <+: memory.drop (at' + d.length) := by
  obtain ⟨rest, hrest⟩ := h
  refine ⟨rest, ?_⟩
  rw [← drop_drop, ← hrest, append_assoc, drop_left]

theorem Stands.left {i : Input} (h : Stands i (d ++ d') (a ++ a')) :
    Stands i d a where
  descriptor := (prefix_append _ _).trans h.descriptor
  arena := (prefix_append _ _).trans h.arena
  descriptor_le := by
    have := h.descriptor_le
    rw [length_append] at this
    omega
  arena_le := by
    have := h.arena_le
    rw [length_append] at this
    omega
  size_lt := h.size_lt

theorem Stands.right {i : Input} (h : Stands i (d ++ d') (a ++ a')) :
    Stands { i with descriptor := i.descriptor + d.length, arena := i.arena + a.length } d' a'
    where
  descriptor := prefix_drop_add h.descriptor
  arena := prefix_drop_add h.arena
  descriptor_le := by
    have := h.descriptor_le
    rw [length_append] at this
    simp only
    omega
  arena_le := by
    have := h.arena_le
    rw [length_append] at this
    simp only
    omega
  size_lt := h.size_lt

theorem Reads.bind {f : α → Reader β} (h : Reads r x d a)
    (h' : Reads (f x) y d' a') : Reads (r >>= f) y (d ++ d') (a ++ a') := by
  intro i hi
  rw [run_bind, h i hi.left, Option.bind_some, h' _ hi.right]
  simp only [length_append, Nat.add_assoc]

namespace RoundTrip

theorem pure (x : α) : RoundTrip n (Pure.pure ()) (Pure.pure x) x :=
  ⟨[], [], Writes.pure, Reads.pure⟩

theorem bind {f : Unit → Writer} {g : α → Reader β} (h : RoundTrip n w r x)
    (h' : RoundTrip n (f ()) (g x) y) : RoundTrip n (w >>= f) (r >>= g) y := by
  obtain ⟨d, a, hw, hr⟩ := h
  obtain ⟨d', a', hw', hr'⟩ := h'
  exact ⟨d ++ d', a ++ a', hw.bind hw', hr.bind hr'⟩

theorem done {g : α → Reader β} (h : RoundTrip n w r x)
    (hread : ∀ i, g x i = some (y, i)) : RoundTrip n w (r >>= g) y := by
  obtain ⟨d, a, hw, hr⟩ := h
  refine ⟨d, a, hw, ?_⟩
  have hreads : Reads (g x) y [] [] := fun i _ => hread i
  have hbind := hr.bind hreads
  rwa [append_nil, append_nil] at hbind

end RoundTrip

namespace Framed

theorem bind {f : Unit → Writer} {g : α → Reader β} (h : Framed n w r x)
    (h' : RoundTrip n (f ()) (g x) y) : Framed n (w >>= f) (r >>= g) y := by
  obtain ⟨d, a, hne, hw, hr⟩ := h
  obtain ⟨d', a', hw', hr'⟩ := h'
  exact ⟨d ++ d', a ++ a', by simp [hne], hw.bind hw', hr.bind hr'⟩

theorem done {g : α → Reader β} (h : Framed n w r x) (hread : ∀ i, g x i = some (y, i)) :
    Framed n w (r >>= g) y := by
  obtain ⟨d, a, hne, hw, hr⟩ := h
  have hreads : Reads (g x) y [] [] := fun i _ => hread i
  have hbind := hr.bind hreads
  rw [append_nil, append_nil] at hbind
  exact ⟨d, a, hne, hw, hbind⟩

end Framed

theorem bytesAt_of_prefix {memory b : List UInt8} {at' k : Nat} (h : b <+: memory.drop at')
    (hk : b.length = k) (hroom : at' + k ≤ memory.length) : bytesAt memory at' k = some b := by
  have htake : b = (memory.drop at').take k := hk ▸ List.prefix_iff_eq_take.1 h
  rw [bytesAt, if_pos hroom, ← htake]

theorem writes_put (b : List UInt8) : Writes n (put b) b [] := fun _ =>
  ⟨_, rfl, rfl, (Section.push_nil _).symm, fun h => ⟨h.size, h.placed⟩⟩

theorem reads_take {k : Nat} {b : List UInt8} (hk : b.length = k) : Reads (take k) b b [] := by
  intro i hi
  rw [take, bytesAt_of_prefix hi.descriptor hk (hk ▸ hi.descriptor_le)]
  subst hk
  rfl

/-- A value of a type with a fixed size. -/
def unpack [Packed α] : Reader α := Packed.ofBytes <$> take (Packed.size α)

theorem reads_unpack [Packed α] (x : α) : Reads unpack x (Packed.bytes x) [] := by
  have h := (reads_take (Packed.length_bytes x)).bind
    (f := fun b => Pure.pure (Packed.ofBytes b : α)) Reads.pure
  rwa [Packed.ofBytes_bytes, append_nil] at h

theorem Packed.bytes_ne_nil [Packed α] (x : α) : Packed.bytes x ≠ [] := by
  rw [← length_pos_iff, Packed.length_bytes]
  exact Packed.size_pos

theorem framed_unpack [Packed α] (x : α) : Framed n (put (Packed.bytes x)) unpack x :=
  ⟨Packed.bytes x, [], Packed.bytes_ne_nil x, writes_put _, reads_unpack x⟩

theorem framed_counted {k : Nat} {d a : List UInt8} {g : Nat → Reader α} (hk : k ≤ d.length)
    (hw : Writes n w d a) (hr : Reads (g k) x d a) :
    Framed n (put (Packed.bytes (UInt64.ofNat k)) >>= fun _ => w)
      (unpack >>= fun count : UInt64 => g count.toNat) x := by
  refine ⟨Packed.bytes (UInt64.ofNat k) ++ d, [] ++ a, ?_, (writes_put _).bind hw, ?_⟩
  · simp [Packed.bytes_ne_nil]
  · intro i hi
    have hroom := hi.descriptor_le
    have hlt := hi.size_lt
    rw [length_append] at hroom
    have hcount : (UInt64.ofNat k).toNat = k :=
      UInt64.toNat_ofNat_of_lt' (show k < 2 ^ 64 by omega)
    exact (reads_unpack _).bind (f := fun count : UInt64 => g count.toNat)
      (hcount.symm ▸ hr) i hi

theorem le_alignUp {value : Nat} (hn : 0 < n) : value ≤ alignUp value n := by
  have hdiv := Nat.div_add_mod (value + n - 1) n
  have hmod := Nat.mod_lt (value + n - 1) hn
  rw [alignUp, Nat.mul_comm]
  omega

def block (n : Nat) (b : List UInt8) : List UInt8 :=
  b ++ List.replicate (alignUp b.length n - b.length) 0

@[simp] theorem length_block {b : List UInt8} (hn : 0 < n) :
    (block n b).length = alignUp b.length n := by
  have hle : b.length ≤ alignUp b.length n := le_alignUp hn
  rw [block, length_append, length_replicate]
  omega

/-- What is placed takes a block of the arena and nothing of the descriptor. -/
theorem writes_place (hn : 0 < n) (b : List UInt8) : Writes n (place n b) [] (block n b) := by
  intro o
  refine ⟨_, rfl, (Section.push_nil _).symm, Section.push_push _ _ _, fun h => ⟨?_, ?_⟩⟩
  · change n ∣ ((o.arena.push b).push _).size
    rw [Section.push_push, Section.push_size, ← block, length_block hn]
    exact Nat.dvd_add h.size (Nat.dvd_mul_left _ _)
  · intro at' hat
    rcases List.mem_append.1 hat with hat | hat
    · exact h.placed at' hat
    · rw [List.mem_singleton.1 hat]
      exact h.size

theorem reads_takeBlock {k : Nat} {b : List UInt8} (hn : 0 < n) (hk : b.length = k) :
    Reads (takeBlock n k k) b [] (block n b) := by
  intro i hi
  have hroom := hi.arena_le
  have hle : k ≤ alignUp k n := le_alignUp hn
  rw [length_block hn, hk] at hroom
  rw [takeBlock, bytesAt_of_prefix ((prefix_append _ _).trans hi.arena) hk (by omega),
    length_block hn, hk]
  rfl

variable {write : α → Writer} {xs : List α}

/-- Values written one after another are read back. -/
theorem framed_forM (h : ∀ x ∈ xs, Framed n (write x) r x) :
    ∃ d a, xs.length ≤ d.length ∧ Writes n (xs.forM write) d a ∧
      Reads (readMany r xs.length) xs d a := by
  induction xs with
  | nil => exact ⟨[], [], le_refl _, Writes.pure, Reads.pure⟩
  | cons x xs ih =>
      obtain ⟨d, a, hne, hw, hr⟩ := h x mem_cons_self
      obtain ⟨d', a', hle, hw', hr'⟩ := ih fun y hy => h y (mem_cons_of_mem x hy)
      have hpos := List.length_pos_iff.2 hne
      have hreads := hr.bind (f := fun x => readMany r xs.length >>= fun xs => Pure.pure (x :: xs))
        (hr'.bind (f := fun xs => Pure.pure (x :: xs)) Reads.pure)
      rw [append_nil, append_nil] at hreads
      refine ⟨d ++ d', a ++ a', ?_, hw.bind (f := fun _ => xs.forM write) hw', hreads⟩
      rw [length_append, length_cons]
      omega

/-- A list is written with its length in front. -/
theorem framed_list (h : ∀ x ∈ xs, Framed n (write x) r x) :
    Framed n (put (Packed.bytes (UInt64.ofNat xs.length)) >>= fun _ => xs.forM write)
      (unpack >>= fun count : UInt64 => readMany r count.toNat) xs := by
  obtain ⟨d, a, hle, hw, hr⟩ := framed_forM h
  exact framed_counted hle hw hr

theorem RoundTrip.list {f : Unit → Writer}
    {g : List α → Reader β} (h : ∀ x ∈ xs, Framed n (write x) r x)
    (h' : RoundTrip n (f ()) (g xs) y) :
    RoundTrip n (put (Packed.bytes (UInt64.ofNat xs.length)) >>= fun _ => xs.forM write >>= f)
      (unpack >>= fun count : UInt64 => readMany r count.toNat >>= g) y := by
  have hlist := (framed_list h).roundTrip.bind (f := f) (g := g) h'
  rwa [bind_assoc, bind_assoc] at hlist

theorem Framed.list {g : List α → β}
    (h : ∀ x ∈ xs, Framed n (write x) r x) :
    Framed n (put (Packed.bytes (UInt64.ofNat xs.length)) >>= fun _ => xs.forM write)
      (unpack >>= fun count : UInt64 => readMany r count.toNat >>= fun xs => Pure.pure (g xs))
      (g xs) := by
  have hlist := (framed_list h).done (g := fun xs => Pure.pure (g xs)) (y := g xs) fun _ => rfl
  rwa [bind_assoc] at hlist

/-- A writer of `k` bytes, all of them in the descriptor. -/
def Emits (n : Nat) (w : Writer) (k : Nat) : Prop := ∃ d, Writes n w d [] ∧ d.length = k

namespace Emits

theorem put (b : List UInt8) : Emits n (Codec.put b) b.length := ⟨b, writes_put b, rfl⟩

theorem packed [Packed α] (x : α) : Emits n (Codec.put (Packed.bytes x)) (Packed.size α) :=
  ⟨_, writes_put _, Packed.length_bytes x⟩

theorem bind {f : Unit → Writer} {k k' : Nat} (h : Emits n w k) (h' : Emits n (f ()) k') :
    Emits n (w >>= f) (k + k') := by
  obtain ⟨d, hw, rfl⟩ := h
  obtain ⟨d', hw', rfl⟩ := h'
  exact ⟨d ++ d', hw.bind hw', length_append⟩

theorem forM {write : α → Writer} {size : α → Nat} {xs : List α}
    (h : ∀ x ∈ xs, Emits n (write x) (size x)) : Emits n (xs.forM write) (xs.map size).sum := by
  induction xs with
  | nil => exact ⟨[], Writes.pure, rfl⟩
  | cons x xs ih =>
      exact (h x mem_cons_self).bind (f := fun _ => xs.forM write)
        (ih fun y hy => h y (mem_cons_of_mem x hy))

end Emits

def Returns (r : Reader α) (P : α → Prop) : Prop := ∀ i x i', r i = some (x, i') → P x

theorem Returns.pure {P : α → Prop} (h : P x) : Returns (Pure.pure x) P := by
  intro i y i' hrun
  obtain ⟨rfl, -⟩ := Prod.mk.inj (Option.some.inj hrun)
  exact h

theorem Returns.bind {P : α → Prop} {Q : β → Prop} {g : α → Reader β} (h : Returns r P)
    (h' : ∀ x, P x → Returns (g x) Q) : Returns (r >>= g) Q := by
  intro i y i' hrun
  obtain ⟨⟨x, i₁⟩, hr, hg⟩ := Option.bind_eq_some_iff.1 hrun
  exact h' x (h i x i₁ hr) i₁ y i' hg

theorem Returns.after {Q : β → Prop} {g : α → Reader β} (h : ∀ x, Returns (g x) Q) :
    Returns (r >>= g) Q :=
  Returns.bind (P := fun _ => True) (fun _ _ _ _ => trivial) fun x _ => h x

theorem returns_readMany {P : α → Prop} (h : Returns r P) (k : Nat) :
    Returns (readMany r k) fun xs => xs.length = k ∧ ∀ x ∈ xs, P x := by
  induction k with
  | zero => exact .pure ⟨rfl, forall_mem_nil _⟩
  | succ k ih =>
      refine h.bind fun x hx => ih.bind fun xs hxs => .pure ⟨?_, ?_⟩
      · rw [length_cons, hxs.1]
      · exact List.forall_mem_cons.2 ⟨hx, hxs.2⟩

end Calculus

end Codec
