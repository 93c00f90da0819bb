import Mathlib.Algebra.BigOperators.Group.List.Basic
import Mathlib.Algebra.GroupWithZero.Nat
import Mathlib.Data.List.Forall2
import Xllm.FunctionCall.Glm47Stream

/-!
# The fragments of GLM-4.7 calls

The fragments of a call are the text of a JSON object with the arguments if the call is
`Regular`, and only then: the name is not blank, no key has blanks around it, no value ends
with what may begin its closing tag, no numeral is out of range, and the last value does not
end with the brace that is taken for the end of the object.
-/

namespace Xllm.FunctionCall.Glm47

open Text JsonText List

variable {D : Type} {lib : Library D} {tools : List (JsonTool D)} {d d' : Detector}
  {name frag : List Char} {pairs : List (List Char × List Char)}

/-- The fragments are a JSON object that has exactly the keys of the call, with the values
that are meant. -/
def Delivered (funcName : List Char) (tools : List (JsonTool D))
    (pairs : List (List Char × List Char)) (frag : List Char) : Prop :=
  ∃ fields meant, parse frag = some (.object fields) ∧ fields.Perm meant ∧
    Forall₂ (fun pair field => field.1 = pair.1 ∧ Meant funcName tools pair.1 pair.2 field.2)
      pairs meant

/-- What the detector relies on. -/
structure Regular (lib : Library D) (tools : List (JsonTool D)) (name : List Char)
    (pairs : List (List Char × List Char)) : Prop where
  named : trimWhitespace name ≠ []
  key : ∀ pair ∈ pairs, trimWhitespace pair.1 = pair.1
  tag : ∀ pair ∈ pairs, tagRun [] pair.2 = []
  range : ∀ pair ∈ pairs, lib.overflows (trimWhitespace pair.2) = false
  brace : ∀ pair ∈ pairs.getLast?, isText (trimWhitespace name) tools pair.1 = true ∨
    pair.2.getLast? ≠ some '\x7d'

theorem closed_start : Closed {} ⟨[], .value false⟩ [] :=
  ⟨true, ⟨Or.inl rfl, rfl, rfl, rfl⟩, rfl, rfl⟩

variable {funcName e out : List Char}

theorem done_regular {s : Xml} (hlib : lib.Lawful)
    (hargs : Arguments funcName tools pairs) (htag : ∀ pair ∈ pairs, tagRun [] pair.2 = [])
    (he : e <+: eotToken.dropLast)
    (hfeeds : Feeds lib funcName tools {} (argsText pairs ++ e) s out) :
    ∃ machine fields, run ⟨[], .value false⟩ out = some machine ∧
      Fields s.isFirstParam machine fields ∧ Forall₂ (FieldOf funcName tools) pairs fields ∧
      ∀ pair ∈ pairs.getLast?, ∃ front,
        out = front ++ valueText (isText funcName tools (trimWhitespace pair.1)) pair.2 := by
  obtain ⟨s₁, o₁, machine, fields, hfirst, hrun, hclosed, hfields, hlast⟩ :=
    feeds_args_regular hlib hargs htag closed_start
  obtain ⟨s₂, heot, hfirstParam⟩ := feeds_eot_closed (he.trans (List.dropLast_prefix _)) hclosed
  obtain ⟨rfl, hout⟩ := hfeeds.unique (hfirst.append heot)
  rw [append_nil] at hout
  subst hout
  exact ⟨machine, fields, hrun, hfirstParam, hfields, hlast⟩

/-- Text behind which no brace makes it an object with all arguments. -/
def Deficient (s : Xml) (out : List Char) (n : Nat) : Prop :=
  (∃ machine fields, run ⟨[], .value false⟩ out = some machine ∧
      Fields s.isFirstParam machine fields ∧ fields.length < n) ∨
    ∃ machine, run ⟨[], .value false⟩ out = some machine ∧ Unfinished s machine

theorem done_irregular {s : Xml} (hlib : lib.Lawful)
    (hargs : Arguments funcName tools pairs) (hkeys : ∀ pair ∈ pairs, ¬ valClose <:+: pair.1)
    (htag : ∃ pair ∈ pairs, tagRun [] pair.2 ≠ []) (he : e <+: eotToken.dropLast)
    (hfeeds : Feeds lib funcName tools {} (argsText pairs ++ e) s out) :
    Deficient s out pairs.length := by
  have he' : e <+: eotToken := he.trans (List.dropLast_prefix _)
  obtain ⟨s₁, o₁, machine, hfirst, hrun, fields, hlen, hclosed | hswallowing⟩ :=
    feeds_args_irregular hlib hargs hkeys htag closed_start
  · obtain ⟨s₂, heot, hfirstParam⟩ := feeds_eot_closed he' hclosed
    obtain ⟨rfl, hout⟩ := hfeeds.unique (hfirst.append heot)
    rw [append_nil] at hout
    subst hout
    refine Or.inl ⟨machine, fields, hrun, hfirstParam, ?_⟩
    simpa using hlen
  · obtain ⟨s₂, o₂, machine', heot, hrun', hopen⟩ := feeds_eot_swallowing hlib he' hswallowing
    obtain ⟨rfl, rfl⟩ := hfeeds.unique (hfirst.append heot)
    refine Or.inr ⟨machine', ?_, hopen⟩
    rw [run_append, hrun]
    exact hrun'

/-- Each value is closed by its own tag, or at least by no text in a key. -/
def Closable (pairs : List (List Char × List Char)) : Prop :=
  (∀ pair ∈ pairs, tagRun [] pair.2 = []) ∨ ∀ pair ∈ pairs, ¬ valClose <:+: pair.1

variable {funcName : List Char}

/-- All of the arguments and of a start of the end token can be processed, and the machine can
go on behind them. -/
theorem feeds_full (hlib : lib.Lawful) (hargs : Arguments funcName tools pairs)
    (hclosable : Closable pairs) :
    ∃ s out machine next, Feeds lib funcName tools {} (argsText pairs ++ eotToken.dropLast) s out ∧
      run ⟨[], .value false⟩ out = some machine ∧
      run machine (if s.isFirstParam then "\x7b\x7d".toList else ['\x7d']) = some next := by
  have hgo : ∀ {s machine} {fields : List (List Char × Value)},
    Fields s.isFirstParam machine fields →
      ∃ next, run machine (if Xml.isFirstParam s then "\x7b\x7d".toList else ['\x7d']) =
        some next := by
    intro s machine fields hfields
    cases hfirst : s.isFirstParam with
    | true =>
        rw [hfirst] at hfields
        obtain ⟨rfl, -⟩ := hfields
        exact ⟨_, rfl⟩
    | false =>
        rw [hfirst] at hfields
        exact ⟨_, hfields.run_close⟩
  by_cases htag : ∀ pair ∈ pairs, tagRun [] pair.2 = []
  · obtain ⟨s₁, o₁, machine, fields, hfirst, hrun, hclosed, -, -⟩ :=
      feeds_args_regular hlib hargs htag closed_start
    obtain ⟨s₂, heot, hfields⟩ := feeds_eot_closed (List.dropLast_prefix _) hclosed
    obtain ⟨next, hnext⟩ := hgo hfields
    refine ⟨s₂, _, machine, next, hfirst.append heot, ?_, hnext⟩
    rwa [append_nil]
  · have hbad : ∃ pair ∈ pairs, tagRun [] pair.2 ≠ [] := by simpa using htag
    obtain ⟨s₁, o₁, machine, hfirst, hrun, fields, -, hclosed | hswallowing⟩ :=
      feeds_args_irregular hlib hargs (hclosable.resolve_left htag) hbad closed_start
    · obtain ⟨s₂, heot, hfields⟩ := feeds_eot_closed (List.dropLast_prefix _) hclosed
      obtain ⟨next, hnext⟩ := hgo hfields
      refine ⟨s₂, _, machine, next, hfirst.append heot, ?_, hnext⟩
      rwa [append_nil]
    · obtain ⟨s₂, o₂, machine', heot, hrun', hopen⟩ :=
        feeds_eot_swallowing hlib (List.dropLast_prefix _) hswallowing
      obtain ⟨next, hnext, -⟩ := run_inText (t := ['\x7d']) hopen.2.2 (by decide)
      refine ⟨s₂, o₁ ++ o₂, machine', next, hfirst.append heot, ?_, ?_⟩
      · rw [run_append, hrun]
        exact hrun'
      · rw [hopen.1]
        exact hnext

theorem getLast?_valueText {isText : Bool} {v front : List Char}
    (hraw : isText = false → (parse v).isSome) :
    (front ++ valueText isText v).getLast? = if isText then some '"' else v.getLast? := by
  cases isText with
  | true =>
      have hquote : valueText true v = ('"' :: escape v) ++ ['"'] := rfl
      rw [hquote, ← append_assoc, getLast?_concat]
      rfl
  | false =>
      have hne : v ≠ [] := by
        rintro rfl
        exact absurd (hraw rfl) (by decide)
      exact getLast?_append_of_ne_nil front hne

/-- A run from the empty stack to a value is a parse. -/
theorem parse_of_run {t : List Char} {v : Value}
    (h : run ⟨[], .value false⟩ t = some ⟨[], .done v⟩) : parse t = some v :=
  parse_eq_some.2 ⟨_, h, rfl⟩

theorem parse_closing {s : Xml} (hlib : lib.Lawful)
    (hargs : Arguments funcName tools pairs) (htag : ∀ pair ∈ pairs, tagRun [] pair.2 = [])
    (he : e <+: eotToken.dropLast)
    (hfeeds : Feeds lib funcName tools {} (argsText pairs ++ e) s out) :
    (∃ fields, Forall₂ (FieldOf funcName tools) pairs fields ∧
        parse (out ++ closingOf s out) = some (.object fields) ∧
        ∀ pair ∈ pairs.getLast?, isText funcName tools (trimWhitespace pair.1) = true ∨
          pair.2.getLast? ≠ some '\x7d') ∨
      ((∀ fields, parse (out ++ closingOf s out) ≠ some (.object fields)) ∧
        ∃ pair ∈ pairs.getLast?, isText funcName tools (trimWhitespace pair.1) = false ∧
          pair.2.getLast? = some '\x7d') := by
  obtain ⟨machine, fields, hrun, hread, hfields, hlast⟩ := done_regular hlib hargs htag he hfeeds
  have hbytes : ∀ pair ∈ pairs.getLast?, out.getLast? =
      if isText funcName tools (trimWhitespace pair.1) then some '"' else pair.2.getLast? := by
    intro pair hpair
    obtain ⟨front, hout⟩ := hlast pair hpair
    rw [hout]
    exact getLast?_valueText (hargs pair (mem_of_getLast? hpair)).2
  unfold closingOf
  cases hfirst : s.isFirstParam with
  | true =>
      rw [hfirst] at hread
      obtain ⟨rfl, rfl⟩ := hread
      cases hfields
      refine Or.inl ⟨[], List.Forall₂.nil, ?_, fun pair hpair => by cases hpair⟩
      refine parse_of_run ?_
      rw [run_append, hrun]
      rfl
  | false =>
      rw [hfirst] at hread
      simp only [Bool.false_eq_true, if_false]
      by_cases hbrace : out.getLast? = some '\x7d'
      · -- the last byte is taken for the end of the object
        rw [if_pos hbrace, append_nil]
        refine Or.inr ⟨?_, ?_⟩
        · intro other
          refine not_parse_object (u := ['\x7d']) (s := ⟨[], .done (.object fields)⟩) ?_ (by decide)
          rw [run_append, hrun]
          exact hread.run_close
        · have hne : pairs ≠ [] := by
            rintro rfl
            cases hfields
            obtain ⟨read, key, mode, v, -, -, hnil⟩ := hread
            simp at hnil
          obtain ⟨pair, hpair⟩ := List.getLast?_isSome.2 hne |> Option.isSome_iff_exists.1
          have hbyte := hbytes pair hpair
          rw [hbrace] at hbyte
          refine ⟨pair, hpair, ?_⟩
          cases hkind : isText funcName tools (trimWhitespace pair.1) with
          | true =>
              rw [hkind, if_pos rfl] at hbyte
              exact absurd hbyte (by decide)
          | false =>
              rw [hkind] at hbyte
              exact ⟨rfl, hbyte.symm⟩
      · rw [if_neg hbrace]
        refine Or.inl ⟨fields, hfields, ?_, ?_⟩
        · refine parse_of_run ?_
          rw [run_append, hrun]
          exact hread.run_close
        · intro pair hpair
          have hbyte := hbytes pair hpair
          cases hkind : isText funcName tools (trimWhitespace pair.1) with
          | true => exact Or.inl rfl
          | false =>
              rw [hkind] at hbyte
              exact Or.inr fun hend => hbrace (hbyte.trans hend)

theorem forall₂_fieldOf {fields : List (List Char × Value)}
    (hkey : ∀ pair ∈ pairs, trimWhitespace pair.1 = pair.1)
    (h : Forall₂ (FieldOf funcName tools) pairs fields) :
    Forall₂ (fun pair field => field.1 = pair.1 ∧ Meant funcName tools pair.1 pair.2 field.2)
      pairs fields := by
  induction h with
  | nil => exact List.Forall₂.nil
  | cons hfield hrest ih =>
      have htrim := hkey _ mem_cons_self
      refine List.Forall₂.cons ?_ (ih fun pair hpair => hkey pair (mem_cons_of_mem _ hpair))
      rw [FieldOf, htrim] at hfield
      exact hfield

theorem arguments_of_regular (hregular : Regular lib tools name pairs)
    (hpairs : ∀ pair ∈ pairs, Argument pair)
    (hjson : ∀ pair ∈ pairs, isText (trimWhitespace name) tools pair.1 = false →
      (parse pair.2).isSome) : Arguments (trimWhitespace name) tools pairs := by
  intro pair hpair
  refine ⟨hpairs pair hpair, ?_⟩
  rw [hregular.key pair hpair]
  exact hjson pair hpair

theorem Settled.delivered (hlib : lib.Lawful) (hpairs : ∀ pair ∈ pairs, Argument pair)
    (hjson : ∀ pair ∈ pairs, isText (trimWhitespace name) tools pair.1 = false →
      (parse pair.2).isSome)
    (hregular : Regular lib tools name pairs) (h : Settled lib tools d name pairs d' frag) :
    Delivered (trimWhitespace name) tools pairs frag := by
  have hargs := arguments_of_regular hregular hpairs hjson
  cases h with
  | blank hblank => exact absurd hblank hregular.named
  | stuck hblank hstore hproper hfeeds hraw out =>
      have hsome : (storeArguments lib (trimWhitespace name) (argsText pairs) tools).isSome :=
        (storeArguments_isSome hlib hpairs).2 hregular.range
      rw [hstore] at hsome
      cases hsome
  | done hblank hstore he hfeeds hbuffer =>
      rcases parse_closing hlib hargs hregular.tag he hfeeds with
        ⟨fields, hfields, hparse, -⟩ | ⟨-, pair, hpair, hraw, hbrace⟩
      · exact ⟨fields, fields, hparse, List.Perm.refl _, forall₂_fieldOf hregular.key hfields⟩
      · rw [hregular.key pair (mem_of_getLast? hpair)] at hraw
        rcases hregular.brace pair hpair with htext | hne
        · rw [htext] at hraw
          cases hraw
        · exact absurd hbrace hne

theorem length_trim_le (t : List Char) : (trimWhitespace t).length ≤ t.length := by
  obtain ⟨l, r, ht, -, -⟩ := exists_trim whitespace t
  have hlen := congrArg List.length ht
  rw [length_append, length_append] at hlen
  change (trim whitespace t).length ≤ _
  omega

theorem trim_eq_of_length {t : List Char} (h : (trimWhitespace t).length = t.length) :
    trimWhitespace t = t := by
  obtain ⟨l, r, ht, -, -⟩ := exists_trim whitespace t
  have hlen := congrArg List.length ht
  rw [length_append, length_append] at hlen
  change (trim whitespace t).length = _ at h
  have hl : l = [] := List.length_eq_zero_iff.1 (by omega)
  have hr : r = [] := List.length_eq_zero_iff.1 (by omega)
  rw [hl, hr, append_nil] at ht
  exact ht.symm

theorem eq_of_sum_eq {α : Type} {f g : α → Nat} (hle : ∀ a, f a ≤ g a) {l : List α}
    (h : (l.map f).sum = (l.map g).sum) : ∀ a ∈ l, f a = g a := by
  induction l with
  | nil => exact fun a ha => absurd ha not_mem_nil
  | cons a l ih =>
      have hrest : (l.map f).sum ≤ (l.map g).sum := by
        clear h ih
        induction l with
        | nil => exact Nat.le_refl _
        | cons b l ih =>
            have hb := hle b
            simp only [map_cons, sum_cons]
            omega
      have ha := hle a
      simp only [map_cons, sum_cons] at h
      intro b hb
      rcases List.mem_cons.1 hb with rfl | hb
      · omega
      · exact ih (by omega) b hb

theorem keys_trimmed {fields meant : List (List Char × Value)}
    (hfields : Forall₂ (FieldOf funcName tools) pairs fields) (hperm : fields.Perm meant)
    (hmeant : Forall₂
      (fun pair field => field.1 = pair.1 ∧ Meant funcName tools pair.1 pair.2 field.2)
        pairs meant) :
    ∀ pair ∈ pairs, trimWhitespace pair.1 = pair.1 := by
  have hfst : ∀ {l : List (List Char × List Char)} {m : List (List Char × Value)}
      {k : List Char → List Char} {P : List Char × List Char → List Char × Value → Prop},
      Forall₂ (fun pair field => field.1 = k pair.1 ∧ P pair field) l m →
      m.map (fun field => field.1.length) = l.map fun pair => (k pair.1).length := by
    intro l m k P h
    induction h with
    | nil => rfl
    | cons hfield _ ih => rw [map_cons, map_cons, ih, hfield.1]
  have hsum : (pairs.map fun pair => (trimWhitespace pair.1).length).sum =
      (pairs.map fun pair => pair.1.length).sum := by
    have hkeys : meant.map (fun field => field.1.length) = pairs.map fun pair => pair.1.length :=
      hfst (k := id) hmeant
    rw [← hfst hfields, ← hkeys]
    exact (hperm.map _).sum_eq
  intro pair hpair
  exact trim_eq_of_length (eq_of_sum_eq (fun q => length_trim_le q.1) hsum pair hpair)

/-- Arguments with a value that leaves bytes in the tag buffer are no object with all of them. -/
theorem Deficient.not_object {s : Xml} {out : List Char} {n : Nat} (h : Deficient s out n)
    {fields : List (List Char × Value)}
    (hparse : parse (out ++ closingOf s out) = some (.object fields)) : fields.length < n := by
  rcases h with ⟨machine, read, hrun, hread, hlen⟩ | ⟨machine, hrun, hfirst, -, htext⟩
  · unfold closingOf at hparse
    cases hfirst : s.isFirstParam with
    | true =>
        rw [hfirst] at hread
        obtain ⟨rfl, rfl⟩ := hread
        have hempty : parse (out ++ "\x7b\x7d".toList) = some (.object []) := by
          refine parse_of_run ?_
          rw [run_append, hrun]
          rfl
        rw [hfirst, if_pos rfl, hempty] at hparse
        cases hparse
        exact hlen
    | false =>
        rw [hfirst] at hread
        have hclose : run ⟨[], .value false⟩ (out ++ ['\x7d']) =
            some ⟨[], .done (.object read)⟩ := by
          rw [run_append, hrun]
          exact hread.run_close
        simp only [hfirst, Bool.false_eq_true, if_false] at hparse
        split at hparse
        · rw [append_nil] at hparse
          exact absurd hparse (not_parse_object hclose (by decide))
        · have hobject := parse_of_run hclose
          change parse (out ++ ['\x7d']) = _ at hparse
          rw [hobject] at hparse
          cases hparse
          exact hlen
  · -- the machine is inside a string, with or without a brace behind it
    have hplain : (closingOf s out).all plain := by
      unfold closingOf
      split_ifs <;> decide
    obtain ⟨next, hnext, hin⟩ := run_inText htext hplain
    obtain ⟨mode, hmode, hvalue⟩ := parse_eq_some.1 hparse
    rw [run_append, hrun, Option.bind_some, hnext] at hmode
    cases hmode
    rw [value?_inText hin] at hvalue
    cases hvalue

theorem Settled.regular (hlib : lib.Lawful) (hargs : Arguments (trimWhitespace name) tools pairs)
    (hkeys : ∀ pair ∈ pairs, ¬ valClose <:+: pair.1)
    (h : Settled lib tools d name pairs d' frag)
    (hdelivered : Delivered (trimWhitespace name) tools pairs frag) :
    Regular lib tools name pairs := by
  obtain ⟨fields, meant, hparse, hperm, hmeant⟩ := hdelivered
  have hpairs : ∀ pair ∈ pairs, Argument pair := fun pair hpair => (hargs pair hpair).1
  cases h with
  | blank hblank =>
      cases hparse
  | stuck hblank hstore hproper hfeeds hraw out =>
      -- what has been sent is the front of a text that goes on
      obtain ⟨sF, outF, machine, next, hfull, hrun, hnext⟩ := feeds_full hlib hargs (.inr hkeys)
      obtain ⟨more, hmore⟩ := hproper
      rw [← hmore] at hfull
      obtain ⟨s₁, o₁, o₂, hfirst, -, rfl⟩ := hfull.split
      obtain ⟨-, rfl⟩ := hfeeds.unique hfirst
      refine absurd hparse (not_parse_object
        (u := o₂ ++ if sF.isFirstParam then "\x7b\x7d".toList else ['\x7d']) (s := next) ?_ ?_)
      · rw [← append_assoc, run_append, hrun]
        exact hnext
      · rw [all_append, Bool.and_eq_false_iff]
        exact Or.inr (by split_ifs <;> decide)
  | done hblank hstore he hfeeds hbuffer =>
      have htag : ∀ pair ∈ pairs, tagRun [] pair.2 = [] := by
        by_contra hbad
        have hirregular : ∃ pair ∈ pairs, tagRun [] pair.2 ≠ [] := by simpa using hbad
        have hlen := (done_irregular hlib hargs hkeys hirregular he hfeeds).not_object hparse
        rw [hperm.length_eq, ← hmeant.length_eq] at hlen
        omega
      rcases parse_closing hlib hargs htag he hfeeds with ⟨read, hread, hobject,
        hbrace⟩ | ⟨hnone, -⟩
      · rw [hobject] at hparse
        cases hparse
        have hkey := keys_trimmed hread hperm hmeant
        refine ⟨hblank, hkey, htag, (storeArguments_isSome hlib hpairs).1 hstore, ?_⟩
        intro pair hpair
        have htext := hbrace pair hpair
        rwa [hkey pair (mem_of_getLast? hpair)] at htext
      · exact absurd hparse (hnone fields)

theorem Progress.stream (hidle : Idle d) (hname : Name name)
    (hpairs : ∀ pair ∈ pairs, Argument pair)
    (hfull : ∃ sF oF, Feeds lib (trimWhitespace name) tools {}
      (argsText pairs ++ eotToken.dropLast) sF oF) {chunks : List (List Char)} {u : List Char}
    (h : Progress lib tools d name pairs u d' frag)
    (hc : u ++ chunks.flatten <+: callText name pairs) :
    Progress lib tools d name pairs (u ++ chunks.flatten) (stream lib tools d' chunks).2
      (frag ++ fragments d.firstCall.currentToolId (stream lib tools d' chunks).1) := by
  induction chunks generalizing u d' frag with
  | nil =>
      simp only [flatten_nil, append_nil]
      exact (append_nil frag).symm ▸ h
  | cons chunk chunks ih =>
      rw [flatten_cons, ← append_assoc] at hc ⊢
      have hfirst := h.step hidle hname hpairs hfull ((prefix_append _ _).trans hc)
      have hrest := ih hfirst hc
      rw [Glm47.stream, fragments_add, ← append_assoc]
      exact hrest

theorem Settled.stream (hidle : Idle d) (hname : Name name) (hpairs : ∀ pair ∈ pairs, Argument pair)
    (h : Settled lib tools d name pairs d' frag) (n : Nat) :
    Settled lib tools d name pairs (stream lib tools d' (replicate n [])).2
      (frag ++ fragments d.firstCall.currentToolId
        (stream lib tools d' (replicate n [])).1) := by
  induction n generalizing d' frag with
  | zero =>
      exact (append_nil frag).symm ▸ h
  | succ n ih =>
      rw [replicate_succ, Glm47.stream, fragments_add, ← append_assoc]
      exact ih (h.step hidle hname hpairs)

end Xllm.FunctionCall.Glm47
