import Xllm.FunctionCall.Glm47Values

/-!
# Characters that are cut by a chunk

A chunk of a stream may end inside a character. The detectors of GLM-4.7 and DeepSeek-V3.2
keep the bytes of such a character and put them before the next chunk. Nothing is lost in
this way: the pieces that are passed on consist of whole characters, and together with the
bytes that are kept they are what has come.

The text that has been read up to the end of a chunk is the front of a valid text, so
`utf8Run` gives the bytes that are due behind it. The step lemma says so of the bytes that
are kept as well, since all pieces before them are complete.
-/

namespace Xllm.FunctionCall

open JsonText

namespace DeepSeekV32

/-- `split_incomplete_utf8`, the same function as in the GLM-4.7 detector. -/
def splitIncompleteUtf8 (str : List Char) : List Char × List Char := Glm47.splitIncompleteUtf8 str

end DeepSeekV32

section

variable (split : List Char → List Char × List Char)

/-- The chunks of a text are split behind the bytes that are carried. The result consists of
the pieces and of the last carry. -/
def feedChunks : List Char → List (List Char) → List (List Char) × List Char
  | carry, [] => ([], carry)
  | carry, chunk :: chunks =>
      let parts := split (carry ++ chunk)
      let rest := feedChunks parts.2 chunks
      (parts.1 :: rest.1, rest.2)

end

/-- Bytes that are kept between two chunks. -/
structure Carried (carry : List Char) : Prop where
  short : carry.length ≤ 3
  incomplete : ValidUtf8 carry → carry = []

theorem Carried.nil : Carried [] := ⟨Nat.zero_le 3, fun _ => rfl⟩

namespace Glm47

variable {due : List (Nat × Nat)}

theorem length_carry {t : List Char} (h : utf8Run [] t = some due) :
    (splitIncompleteUtf8 t).2.length ≤ 3 := by
  by_cases ht : t = []
  · subst ht
    exact Nat.zero_le 3
  · obtain ⟨s, lead, conts, ranges, rfl, -, hlead, hconts, hlen⟩ := exists_last_character h ht
    have hshort := (length_tails hlead).2.2
    have hsplit := splitIncompleteUtf8_last (s := s) hlead hconts (by omega)
    rw [hsplit]
    split
    case isTrue => exact Nat.zero_le 3
    case isFalse hne =>
        simp only [List.length_cons]
        omega

/-- The split loses nothing, and what is carried over is a character begun. -/
theorem carry_spec {t : List Char} (h : utf8Run [] t = some due) :
    ValidUtf8 (splitIncompleteUtf8 t).1 ∧
      (splitIncompleteUtf8 t).1 ++ (splitIncompleteUtf8 t).2 = t ∧
      utf8Run [] (splitIncompleteUtf8 t).2 = some due ∧ Carried (splitIncompleteUtf8 t).2 := by
  have hshort := length_carry h
  obtain ⟨s, p, hsplit, rfl, hs, hnil⟩ := splitIncompleteUtf8_spec h
  rw [hsplit] at hshort ⊢
  have hdue : utf8Run [] p = some due := by
    have happend := utf8Run_append [] s p
    rw [h, hs] at happend
    exact happend.symm
  refine ⟨hs, rfl, hdue, hshort, ?_⟩
  intro hvalid
  have heq : some due = some [] := hdue.symm.trans hvalid
  exact hnil (Option.some.inj heq)

/-- Chunks that are read behind a carry. What is due behind the carry at the end is due
behind the text. -/
theorem feedChunks_spec {carry : List Char} {chunks : List (List Char)} (hcarried : Carried carry)
    (h : utf8Run [] (carry ++ chunks.flatten) = some due) :
    (∀ piece ∈ (feedChunks splitIncompleteUtf8 carry chunks).1, ValidUtf8 piece) ∧
      (feedChunks splitIncompleteUtf8 carry chunks).1.flatten ++
        (feedChunks splitIncompleteUtf8 carry chunks).2 = carry ++ chunks.flatten ∧
      utf8Run [] (feedChunks splitIncompleteUtf8 carry chunks).2 = some due ∧
      Carried (feedChunks splitIncompleteUtf8 carry chunks).2 := by
  induction chunks generalizing carry with
  | nil =>
      rw [List.flatten_nil, List.append_nil] at h
      exact ⟨fun piece hpiece => absurd hpiece List.not_mem_nil, by simp [feedChunks], h, hcarried⟩
  | cons chunk chunks ih =>
      have hall : carry ++ (chunk :: chunks).flatten = carry ++ chunk ++ chunks.flatten := by
        simp only [List.flatten_cons, List.append_assoc]
      rw [hall, utf8Run_append] at h
      obtain ⟨before, hbefore, hafter⟩ := Option.bind_eq_some_iff.1 h
      obtain ⟨hpiece, hwhole, hdue, hkept⟩ := carry_spec hbefore
      have hnext : utf8Run [] ((splitIncompleteUtf8 (carry ++ chunk)).2 ++ chunks.flatten) =
          some due := by
        rw [utf8Run_append, hdue]
        exact hafter
      obtain ⟨hpieces, hflatten, hrest⟩ := ih hkept hnext
      refine ⟨?_, ?_, hrest⟩
      · intro piece hmem
        cases List.mem_cons.1 hmem with
        | inl heq => exact heq ▸ hpiece
        | inr htail => exact hpieces piece htail
      · calc (splitIncompleteUtf8 (carry ++ chunk)).1 ++ (feedChunks splitIncompleteUtf8
                (splitIncompleteUtf8 (carry ++ chunk)).2 chunks).1.flatten ++
              (feedChunks splitIncompleteUtf8
                (splitIncompleteUtf8 (carry ++ chunk)).2 chunks).2
            = (splitIncompleteUtf8 (carry ++ chunk)).1 ++
                ((splitIncompleteUtf8 (carry ++ chunk)).2 ++ chunks.flatten) := by
              rw [List.append_assoc, hflatten]
          _ = carry ++ (chunk :: chunks).flatten := by
              rw [← List.append_assoc, hwhole, hall]

end Glm47

/-- What the pieces and carries of a text that is cut into chunks are worth. -/
structure KeepsText (split : List Char → List Char × List Char) (text : List Char)
    (chunks : List (List Char)) : Prop where
  valid : ∀ piece ∈ (feedChunks split [] chunks).1, ValidUtf8 piece
  whole : (feedChunks split [] chunks).1.flatten ++ (feedChunks split [] chunks).2 = text
  /-- The carry behind the first `n` chunks. -/
  short : ∀ n, (feedChunks split [] (chunks.take n)).2.length ≤ 3
  ends : (feedChunks split [] chunks).2 = []

theorem exists_due {text : List Char} (htext : ValidUtf8 text) {chunks : List (List Char)}
    (hchunks : chunks.flatten = text) (n : Nat) :
    ∃ due, utf8Run [] (chunks.take n).flatten = some due := by
  subst hchunks
  have happend : (chunks.take n).flatten ++ (chunks.drop n).flatten = chunks.flatten := by
    rw [← List.flatten_append, List.take_append_drop]
  unfold ValidUtf8 at htext
  rw [← happend, utf8Run_append] at htext
  obtain ⟨due, hdue, -⟩ := Option.bind_eq_some_iff.1 htext
  exact ⟨due, hdue⟩

theorem Glm47.keepsText {text : List Char} (htext : ValidUtf8 text) {chunks : List (List Char)}
    (hchunks : chunks.flatten = text) : KeepsText Glm47.splitIncompleteUtf8 text chunks := by
  have hall : utf8Run [] ([] ++ chunks.flatten) = some [] := by
    rw [hchunks]
    exact htext
  obtain ⟨hvalid, hwhole, hdue, hcarried⟩ := Glm47.feedChunks_spec Carried.nil hall
  constructor
  case valid => exact hvalid
  case whole => rw [hwhole, List.nil_append, hchunks]
  case ends => exact hcarried.incomplete hdue
  case short =>
    intro n
    obtain ⟨due, hfront⟩ := exists_due htext hchunks n
    have hrun : utf8Run [] ([] ++ (chunks.take n).flatten) = some due := hfront
    exact (Glm47.feedChunks_spec Carried.nil hrun).2.2.2.short

/-- A valid text that is cut into chunks anywhere passes both detectors in pieces that are
valid, and nothing of it is lost. -/
theorem split_incomplete_utf8_keeps_text {text : List Char} (htext : ValidUtf8 text)
    {chunks : List (List Char)} (hchunks : chunks.flatten = text) :
    KeepsText Glm47.splitIncompleteUtf8 text chunks ∧
      KeepsText DeepSeekV32.splitIncompleteUtf8 text chunks :=
  ⟨Glm47.keepsText htext hchunks, Glm47.keepsText htext hchunks⟩

theorem split_incomplete_utf8_keeps_two :
    KeepsText Glm47.splitIncompleteUtf8 ['\xc3', '\xa9', '\xe2', '\x82', '\xac']
        [['\xc3'], ['\xa9', '\xe2', '\x82'], [], ['\xac']] ∧
      KeepsText DeepSeekV32.splitIncompleteUtf8 ['\xc3', '\xa9', '\xe2', '\x82', '\xac']
        [['\xc3'], ['\xa9', '\xe2', '\x82'], [], ['\xac']] :=
  split_incomplete_utf8_keeps_text (by decide) rfl

end Xllm.FunctionCall
