import TrustedCourier.ProxyResponse

/-!
# What Redaction leaves in a header

Every value is masked, and a header whose name holds the Secret is dropped. One value is
written anew: the names that `Trailer` announces are split at commas, trimmed, and joined
again, over all lines of the header. A needle in the result lies inside one name, which
is a piece of a masked value, or it lies astride a separator that the join has put there.
So the header is clean exactly if no needle does, and then nothing else matters: a needle
that holds no comma and does not start with a space never does.

`strings.TrimSpace` is defined here, by the encodings of the runes that are white space.
-/

namespace TrustedCourier.AgentApi

open ByteStrings Redact Headers Utf8

/-! ## White space -/

/-- The encodings of the runes that `unicode.IsSpace` accepts. -/
def spaces : List Bytes :=
  [[0x09], [0x0A], [0x0B], [0x0C], [0x0D], [0x20], [0xC2, 0x85], [0xC2, 0xA0], [0xE1, 0x9A, 0x80],
    [0xE2, 0x80, 0xA8], [0xE2, 0x80, 0xA9], [0xE2, 0x80, 0xAF], [0xE2, 0x81, 0x9F],
    [0xE3, 0x80, 0x80]] ++
    (List.range 11).map fun i => [0xE2, 0x80, 0x80 + UInt8.ofNat i]

/-- As long as a mark starts the text, it is taken off. -/
def stripMarks (marks : List Bytes) : Nat → Bytes → Bytes
  | 0, s => s
  | rounds + 1, s =>
    match marks.find? fun mark => mark.isPrefixOf s with
    | some mark => stripMarks marks rounds (s.drop mark.length)
    | none => s

/-- `strings.TrimSpace`. -/
def trimSpace (s : Bytes) : Bytes :=
  let s := stripMarks spaces s.length s
  (stripMarks (spaces.map List.reverse) s.length s.reverse).reverse

theorem stripMarks_suffix (marks : List Bytes) (rounds : Nat) (s : Bytes) :
    stripMarks marks rounds s <:+ s := by
  induction rounds generalizing s with
  | zero => exact List.suffix_refl s
  | succ rounds ih =>
    rw [stripMarks]
    split
    · exact (ih _).trans (List.drop_suffix _ s)
    · exact List.suffix_refl s

/-- What is trimmed stands in the text. -/
theorem trimSpace_within (s : Bytes) : trimSpace s <:+: s := by
  have front := stripMarks_suffix spaces s.length s
  have back := stripMarks_suffix (spaces.map List.reverse) (stripMarks spaces s.length s).length
    (stripMarks spaces s.length s).reverse
  rw [← List.reverse_prefix, List.reverse_reverse] at back
  exact back.isInfix.trans front.isInfix

/-! ## Names joined by separators -/

/-- Every part stands in the join. -/
theorem infix_intercalate {sep part : Bytes} {parts : List Bytes} (member : part ∈ parts) :
    part <:+: sep.intercalate parts := by
  induction parts with
  | nil => exact absurd member List.not_mem_nil
  | cons other parts ih =>
    cases parts with
    | nil =>
      rw [List.mem_singleton.mp member, List.intercalate_singleton]
    | cons next rest =>
      rw [List.intercalate_cons_cons]
      rcases List.mem_cons.mp member with rfl | later
      · exact (List.prefix_append _ _).isInfix.trans (List.prefix_append _ _).isInfix
      · exact (ih later).trans (List.suffix_append _ _).isInfix

/-- `strings.Join` with a comma and a space. -/
abbrev joined (names : List Bytes) : Bytes := (bytes ", ").intercalate names

/-- A text is made of an end of what stands up to a separator's comma and a beginning of
what stands from its space on. -/
def Astride (text : Bytes) (names : List Bytes) : Prop :=
  ∃ before after, names = before ++ after ∧ before ≠ [] ∧ after ≠ [] ∧
    ∃ first second, text = first ++ second ∧ first <:+ joined before ++ [0x2C] ∧
      second <+: 0x20 :: joined after

variable {names : List Bytes}

theorem joined_cons {name : Bytes} (more : names ≠ []) :
    joined (name :: names) = (name ++ [0x2C]) ++ 0x20 :: joined names := by
  obtain ⟨next, rest, rfl⟩ := List.exists_cons_of_ne_nil more
  rw [joined, List.intercalate_cons_cons, List.append_assoc, List.append_assoc]
  rfl

theorem joined_append {before after : List Bytes} (some : before ≠ []) (more : after ≠ []) :
    joined (before ++ after) = (joined before ++ [0x2C]) ++ 0x20 :: joined after := by
  induction before with
  | nil => exact absurd rfl some
  | cons name before ih =>
    by_cases last : before = []
    · subst last
      rw [List.singleton_append, joined_cons more]
      simp [joined]
    · rw [List.cons_append, joined_cons (by simp [last]), joined_cons last, ih last]
      simp

/-- One more name in front leaves what lies astride astride. -/
theorem Astride.cons {text name : Bytes} (astride : Astride text names) :
    Astride text (name :: names) := by
  obtain ⟨before, after, rfl, some, more, first, second, same, ends, starts⟩ := astride
  refine ⟨name :: before, after, rfl, List.cons_ne_nil _ _, more, first, second, same, ?_, starts⟩
  rw [joined_cons some, List.append_assoc, List.cons_append, ← List.cons_append]
  exact ends.trans ((List.suffix_cons _ _).trans (List.suffix_append _ _))

/-- A text in the join lies in one of the names or astride a separator. -/
theorem infix_joined {text : Bytes} (nonempty : text ≠ []) :
    text <:+: joined names ↔ (∃ name ∈ names, text <:+: name) ∨ Astride text names := by
  constructor
  · intro inside
    induction names with
    | nil => exact absurd (List.infix_nil.mp inside) nonempty
    | cons name names ih =>
      by_cases last : names = []
      · subst last
        exact Or.inl ⟨name, List.mem_singleton_self name, by simpa [joined] using inside⟩
      · have here : Astride text (name :: names) ∨ text <:+: name ∨ text <:+: joined names := by
          rw [joined_cons last, List.infix_append_iff, List.infix_concat_iff,
            List.infix_cons_iff] at inside
          have split : name :: names = [name] ++ names := rfl
          rcases inside with
            (ends | within) | (starts | within) | ⟨first, second, same, ends, starts⟩
          · exact Or.inl ⟨[name], names, split, List.cons_ne_nil _ _, last, text, [],
              (List.append_nil text).symm, by simpa [joined] using ends, List.nil_prefix⟩
          · exact Or.inr (Or.inl within)
          · exact Or.inl ⟨[name], names, split, List.cons_ne_nil _ _, last, [], text, rfl,
              List.nil_suffix, starts⟩
          · exact Or.inr (Or.inr within)
          · exact Or.inl ⟨[name], names, split, List.cons_ne_nil _ _, last, first, second, same,
              by simpa [joined] using ends, starts⟩
        rcases here with astride | within | later
        · exact Or.inr astride
        · exact Or.inl ⟨name, List.mem_cons_self, within⟩
        · rcases ih later with ⟨other, member, within⟩ | astride
          · exact Or.inl ⟨other, List.mem_cons_of_mem name member, within⟩
          · exact Or.inr astride.cons
  · rintro (⟨name, member, within⟩ | ⟨before, after, rfl, some, more, first, second, rfl, ends,
      starts⟩)
    · exact within.trans (infix_intercalate member)
    · rw [joined_append some more, List.infix_append_iff]
      exact Or.inr (Or.inr ⟨first, second, rfl, ends, starts⟩)

/-- A text that holds no comma and does not start with a space lies astride nothing. -/
theorem not_astride {text : Bytes} (nonempty : text ≠ []) (whole : 0x2C ∉ text)
    (starts : text.head? ≠ some 0x20) : ¬ Astride text names := by
  rintro ⟨before, after, _, _, _, first, second, rfl, ends, follows⟩
  rcases List.eq_nil_or_concat first with rfl | ⟨front, last, rfl⟩
  · obtain ⟨c, rest, rfl⟩ := List.exists_cons_of_ne_nil nonempty
    exact starts (congrArg some (List.cons_prefix_cons.mp follows).1)
  · -- An end of a text that ends in a comma ends in it.
    obtain ⟨earlier, same⟩ := ends
    rw [List.concat_eq_append, ← List.append_assoc] at same
    obtain rfl : last = 0x2C := List.singleton_inj.mp (List.append_inj_right' same rfl)
    exact whole (by simp)

/-! ## Headers -/

/-- No name holds a needle in any letter case, and no value holds one. -/
def Clean (lower : Bytes → Bytes) (needles : List Bytes) (header : Header) : Prop :=
  ∀ name, header name ≠ [] → ∀ needle ∈ needles, needle ≠ [] →
    ¬ caseless lower needle <:+: caseless lower name ∧ ∀ v ∈ header name, ¬ needle <:+: v

section Clean

variable (lib : Library) (needles : List Bytes)

/-- The names a header announces in `Trailer`, out of which the masked and the secret
ones are gone. -/
def announcedNames (header : Header) : List Bytes :=
  if namesSecret lib needles (bytes "Trailer") then []
  else (listed lib ((header.values (bytes "Trailer")).map fun v => Redact.string v needles)).filter
    fun name =>
    name ≠ [] && !namesSecret lib needles name

/-- A name that is kept holds no needle in any letter case. -/
theorem namesSecret_false {lower : Bytes → Bytes} (lowers : lib.toLower = toLower lower)
    {name needle : Bytes} (kept : namesSecret lib needles name = false) (member : needle ∈ needles)
    (nonempty : needle ≠ []) :
    ¬ caseless lower needle <:+: caseless lower name := by
  intro inside
  have held : contains (lib.toLower name) (lib.toLower needle) = true := by
    rw [lowers, contains_iff]
    exact toLower_within inside
  have absent := List.any_eq_false.mp kept needle member
  simp [nonempty, held] at absent

/-- The values of `Trailer` after the loop over the map. -/
theorem maskValues_trailer (header : Header) :
    (maskValues lib needles header).values (bytes "Trailer") =
    if namesSecret lib needles (bytes "Trailer") then []
    else (header.values (bytes "Trailer")).map fun v => Redact.string v needles := by
  have key : canonicalHeaderKey (bytes "Trailer") = bytes "Trailer" := by decide
  rw [Header.values, Header.values, key, maskValues]

/-- `redactHeader` leaves every header but `Trailer` as the loop over the map does, and
puts there what is announced. -/
theorem redactHeader_apply (header : Header) (name : Bytes) : redactHeader lib needles header name =
    if name = bytes "Trailer" then
      if announcedNames lib needles header = [] then []
      else [joined (announcedNames lib needles header)]
    else maskValues lib needles header name := by
  have key : canonicalHeaderKey (bytes "Trailer") = bytes "Trailer" := by decide
  have values := maskValues_trailer lib needles header
  unfold redactHeader announcedNames
  by_cases secret : namesSecret lib needles (bytes "Trailer") = true
  · rw [if_pos secret] at values
    simp only [values, secret, if_true]
    split
    · next same => rw [same, ← values, Header.values, key]
    · rfl
  · rw [if_neg secret] at values
    simp only [values, secret, if_false, Bool.false_eq_true]
    generalize shown : (header.values (bytes "Trailer")).map (fun v => Redact.string v needles) =
      announced at values
    by_cases none : announced = []
    · rw [none] at values
      simp only [none, if_true, listed, List.flatMap_nil, List.map_nil, List.filter_nil]
      split
      · next same => rw [same, ← values, Header.values, key]
      · rfl
    · simp only [none, if_false]
      by_cases bare : (listed lib announced).filter
        (fun name => name ≠ [] && !namesSecret lib needles name) = []
      · simp only [bare, if_true, Header.del, key]
      · simp only [bare, if_false, Header.set, Header.del, key]
        split
        · rfl
        · rfl

end Clean

/-! ## What is left -/

section Left

variable {lib : Library} {needles : List Bytes} {header : Header}

/-- A piece of a list stands in one of its values. -/
theorem infix_of_listed {values : List Bytes} {name : Bytes} (trims : lib.trimSpace = trimSpace)
    (member : name ∈ listed lib values) : ∃ v ∈ values, name <:+: v := by
  obtain ⟨piece, inPieces, rfl⟩ := List.mem_map.mp member
  obtain ⟨v, known, inside⟩ := List.mem_flatMap.mp inPieces
  refine ⟨v, known, ?_⟩
  rw [trims]
  have stands : piece <:+: v := by
    have within : piece <:+: [0x2C].intercalate (v.splitOn 0x2C) := infix_intercalate inside
    rwa [List.intercalate_splitOn] at within
  exact (trimSpace_within piece).trans stands

/-- A masked value holds no needle. -/
theorem masked_clean (free : ∃ m ∈ maskBytes, ∀ n ∈ needles, m ∉ n) {needle : Bytes}
    (member : needle ∈ needles) (nonempty : needle ≠ []) (v : Bytes) :
    ¬ needle <:+: Redact.string v needles := by
  rw [string_reference]
  exact reference_clean (maskFor_free free) v needle member nonempty

/-- No name that is announced holds a needle. -/
theorem announcedNames_clean (trims : lib.trimSpace = trimSpace)
    (free : ∃ m ∈ maskBytes, ∀ n ∈ needles, m ∉ n) {needle : Bytes} (member : needle ∈ needles)
    (nonempty : needle ≠ []) :
    ∀ name ∈ announcedNames lib needles header, ¬ needle <:+: name := by
  intro name announced inside
  unfold announcedNames at announced
  split at announced
  · exact List.not_mem_nil announced
  · obtain ⟨v, known, within⟩ := infix_of_listed trims (List.mem_of_mem_filter announced)
    obtain ⟨raw, _, rfl⟩ := List.mem_map.mp known
    exact masked_clean free member nonempty raw (inside.trans within)

/-- A header is clean after `redactHeader` if no needle lies astride a separator between two
of the names that its `Trailer` announces.

Names that hold a needle are dropped, and masked values hold none. The value of `Trailer`
is a join of pieces of masked values, so a needle in it lies astride. -/
theorem redactHeader_clean_of_apart {lower : Bytes → Bytes} (lowers : lib.toLower = toLower lower)
    (trims : lib.trimSpace = trimSpace) (free : ∃ m ∈ maskBytes, ∀ n ∈ needles, m ∉ n)
    {header : Header} (apart : ∀ needle ∈ needles, needle ≠ [] →
      ¬ Astride needle (announcedNames lib needles header)) :
    Clean lower needles (redactHeader lib needles header) := by
  intro name present needle member nonempty
  rw [redactHeader_apply] at present ⊢
  split at present
  · next same =>
    subst same
    split at present
    · exact absurd rfl present
    · next some =>
      rw [if_pos rfl, if_neg some]
      constructor
      · apply namesSecret_false lib needles lowers _ member nonempty
        unfold announcedNames at some
        split at some
        · exact absurd rfl some
        · next plain => simpa using plain
      · intro v inside
        rw [List.mem_singleton.mp inside, infix_joined nonempty]
        rintro (⟨other, announced, within⟩ | astride)
        · exact announcedNames_clean trims free member nonempty other announced within
        · exact apart needle member nonempty astride
  · next other =>
    rw [if_neg other]
    unfold maskValues at present ⊢
    split at present
    · exact absurd rfl present
    · next plain =>
      rw [if_neg plain]
      refine ⟨namesSecret_false lib needles lowers (by simpa using plain) member nonempty, ?_⟩
      intro v inside
      obtain ⟨raw, _, rfl⟩ := List.mem_map.mp inside
      exact masked_clean free member nonempty raw

/-- After `redactHeader`, a header holds no needle in a name, in any letter case, nor in
a value, exactly if no needle lies astride a separator between two of the names that its
`Trailer` announces. -/
theorem redactHeader_clean_iff {lower : Bytes → Bytes} (lowers : lib.toLower = toLower lower)
    (trims : lib.trimSpace = trimSpace) (free : ∃ m ∈ maskBytes, ∀ n ∈ needles, m ∉ n)
    (header : Header) :
    Clean lower needles (redactHeader lib needles header) ↔
      ∀ needle ∈ needles, needle ≠ [] → ¬ Astride needle (announcedNames lib needles header) := by
  refine ⟨fun clean needle member nonempty astride => ?_,
    redactHeader_clean_of_apart lowers trims free⟩
  have inside := (infix_joined nonempty).mpr (Or.inr astride)
  have some : announcedNames lib needles header ≠ [] := by
    intro none
    obtain ⟨before, after, split, inFront, _⟩ := astride
    rw [none] at split
    exact inFront (List.append_eq_nil_iff.mp split.symm).1
  have written : redactHeader lib needles header (bytes "Trailer") =
      [joined (announcedNames lib needles header)] := by
    rw [redactHeader_apply, if_pos rfl, if_neg some]
  obtain ⟨_, values⟩ := clean (bytes "Trailer") (by simp [written]) needle member nonempty
  exact values _ (by simp [written]) inside

/-- Needles that hold no comma and do not start with a space are in no header after
`redactHeader`, whatever its `Trailer` announces. -/
theorem redactHeader_clean_of_plain {lower : Bytes → Bytes} (lowers : lib.toLower = toLower lower)
    (trims : lib.trimSpace = trimSpace) (free : ∃ m ∈ maskBytes, ∀ n ∈ needles, m ∉ n)
    (plain : ∀ n ∈ needles, 0x2C ∉ n ∧ n.head? ≠ some 0x20) (header : Header) :
    Clean lower needles (redactHeader lib needles header) := by
  refine redactHeader_clean_of_apart lowers trims free fun needle member nonempty => ?_
  obtain ⟨whole, starts⟩ := plain needle member
  exact not_astride nonempty whole starts

end Left

/-- The library on texts, with no letters beyond ASCII. -/
def textLibrary : Library where
  equalFold := equalFold id
  trimSpace := trimSpace
  toLower := toLower id
  maxParams := none
  handedOn header := header
  gunzip body := body

/-- A header that announces the names it is given, each on a line of its own. -/
def announcing (names : List String) : Header :=
  fun name => if name = bytes "Trailer" then names.map bytes else []

/-- Two announced names are joined to the Secret that neither of them holds. -/
theorem redactHeader_joins_secret :
    (∃ m ∈ maskBytes, ∀ n ∈ [bytes "Alpha, Beta"], m ∉ n) ∧
      ¬ Clean id [bytes "Alpha, Beta"]
        (redactHeader textLibrary [bytes "Alpha, Beta"] (announcing ["Alpha", "Beta"])) := by
  refine ⟨⟨'*'.toUInt8, by decide, by decide⟩, fun clean => ?_⟩
  have written : redactHeader textLibrary [bytes "Alpha, Beta"] (announcing ["Alpha", "Beta"])
      (bytes "Trailer") = [bytes "Alpha, Beta"] := by decide +kernel
  obtain ⟨_, values⟩ := clean (bytes "Trailer") (by simp [written]) (bytes "Alpha, Beta")
    List.mem_cons_self (by decide)
  rw [written] at values
  exact values _ List.mem_cons_self (List.infix_refl _)

/-- A Secret without a comma or a space is joined by no names. -/
theorem redactHeader_clean_plain :
    Clean id [bytes "s3cret"]
      (redactHeader textLibrary [bytes "s3cret"] (announcing ["Alpha,S3CRET-x", "s3cret"])) := by
  rw [redactHeader_clean_iff rfl rfl ⟨'*'.toUInt8, by decide, by decide⟩]
  intro needle member nonempty
  rw [List.mem_singleton.mp member]
  exact not_astride (by decide) (by decide) (by decide)

end TrustedCourier.AgentApi
