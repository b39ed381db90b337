import TrustedCourier.Decimal
import TrustedCourier.UrlEscapes
import TrustedCourier.Utf8

/-!
# Flat JSON objects as Go's encoding/json writes them

The members of an object are texts, integers or null. Texts are written with the
package's escapes, including those for HTML, and every ill-formed byte as U+FFFD.
So an encoded object does not keep its texts: it keeps what they say rune by rune,
with ill-formed bytes indistinguishable from each other. It keeps nothing less, and
the two directions are one law, `marshal_eq_iff`.
-/

namespace TrustedCourier.Json

open Utf8 List

/-- A member's value. -/
inductive Value where
  | text (s : Bytes)
  | number (n : Int)
  | null
deriving DecidableEq, Repr

/-- The digits that escapes of control characters are written with. -/
def lowerhex (n : UInt8) : UInt8 := if n < 10 then 0x30 + n else 0x61 + (n - 10)

/-- How an ASCII byte is written inside a text. -/
def escapeAscii (c : UInt8) : Bytes :=
  if c = 0x22 ∨ c = 0x5C then [0x5C, c]
  else if c = 0x08 then bytes "\\b"
  else if c = 0x0C then bytes "\\f"
  else if c = 0x0A then bytes "\\n"
  else if c = 0x0D then bytes "\\r"
  else if c = 0x09 then bytes "\\t"
  else if c < 0x20 ∨ c = 0x3C ∨ c = 0x3E ∨ c = 0x26 then
    bytes "\\u00" ++ [lowerhex (c / 16), lowerhex (c % 16)]
  else [c]

/-- How one reading of a string is written inside a text. -/
def appendRune : Sym → Bytes
  | .bad _ => bytes "\\ufffd"
  | .rune encoding _ =>
    match encoding with
    | [c] => escapeAscii c
    | _ =>
      if encoding = [0xE2, 0x80, 0xA8] then bytes "\\u2028"
      else if encoding = [0xE2, 0x80, 0xA9] then bytes "\\u2029"
      else encoding

/-- A text in quotes. -/
def appendString (s : Bytes) : Bytes := 0x22 :: ((runes s).flatMap appendRune ++ [0x22])

/-- A value as it is written. -/
def Value.encode : Value → Bytes
  | .text s => appendString s
  | .number n => Decimal.signed 0 n
  | .null => bytes "null"

/-- A member: its name in quotes, a colon, its value. -/
def member (entry : Bytes × Value) : Bytes := 0x22 :: (entry.1 ++ 0x22 :: 0x3A :: entry.2.encode)

/-- `json.Marshal` of a struct with these members. -/
def marshal : List (Bytes × Value) → Bytes
  | [] => bytes "{}"
  | first :: rest =>
    0x7B :: (member first ++ (rest.flatMap (fun entry => 0x2C :: member entry) ++ [0x7D]))

/-! ## What an encoding keeps -/

/-- What is kept of a text: each rune, or that there was none. -/
def carried (s : Bytes) : List (Option Bytes) := (runes s).map Sym.rune?

/-- What is kept of a value. -/
inductive Kept where
  | text (runes : List (Option Bytes))
  | number (n : Int)
  | null
deriving DecidableEq

/-- What is kept of a value. -/
def Value.kept : Value → Kept
  | .text s => .text (carried s)
  | .number n => .number n
  | .null => .null

@[simp] theorem kept_text (s : Bytes) : (Value.text s).kept = .text (carried s) := rfl

@[simp] theorem kept_number (n : Int) : (Value.number n).kept = .number n := rfl

/-- A valid text is kept whole. -/
theorem carried_valid {s t : Bytes} (valid : validString s = true)
    (validOther : validString t = true) :
    carried s = carried t ↔ s = t := by
  constructor
  · intro same
    have back : ∀ u, validString u = true → (carried u).flatMap (·.getD []) = u := by
      intro u proper
      conv_rhs => rw [← runes_bytes u]
      rw [carried, flatMap_map]
      apply flatMap_congr
      intro read member
      obtain ⟨encoding, formed, rfl⟩ := (validString_iff u).mp proper read member
      rfl
    rw [← back s valid, same, back t validOther]
  · rintro rfl
    rfl

/-- The escape that a letter after a backslash names. -/
def named (c : UInt8) : UInt8 :=
  if c = 0x62 then 0x08 else if c = 0x66 then 0x0C else if c = 0x6E then 0x0A
  else if c = 0x72 then 0x0D else if c = 0x74 then 0x09 else c

/-- Read what follows a backslash. -/
def readEscape : Bytes → Option (Option Bytes × Bytes)
  | [] => none
  | c :: rest =>
    if c = 0x75 then
      match rest with
      | a :: b :: d :: e :: more =>
        if [a, b, d, e] = bytes "fffd" then some (none, more)
        else if [a, b, d, e] = bytes "2028" then some (some [0xE2, 0x80, 0xA8], more)
        else if [a, b, d, e] = bytes "2029" then some (some [0xE2, 0x80, 0xA9], more)
        else some (some [UrlEscapes.unhex d * 16 + UrlEscapes.unhex e], more)
      | _ => none
    else some (some [named c], rest)

/-- Read one rune of a text. -/
def readRune : Bytes → Option (Option Bytes × Bytes)
  | [] => none
  | lead :: rest =>
    if lead = 0x5C then readEscape rest
    else some (some ((lead :: rest).take (width lead)), (lead :: rest).drop (width lead))

/-- An ASCII byte is read back from its escape. -/
theorem readRune_ascii (c : UInt8) (ascii : c ≤ 0x7F) (rest : Bytes) :
    readRune (escapeAscii c ++ rest) = some (some [c], rest) := by
  have digits : ∀ c : UInt8, UrlEscapes.unhex (lowerhex (c / 16)) * 16 +
      UrlEscapes.unhex (lowerhex (c % 16)) = c := by
    decide +kernel
  have unnamed : ∀ c : UInt8, c = 0x22 ∨ c = 0x5C → c ≠ 0x75 ∧ named c = c := by decide +kernel
  have control : ∀ d e : UInt8, [0x30, 0x30, d, e] ≠ bytes "fffd" ∧
    [0x30, 0x30, d, e] ≠ bytes "2028" ∧
      [0x30, 0x30, d, e] ≠ bytes "2029" := by
    intro d e
    have texts : bytes "fffd" = [0x66, 0x66, 0x66, 0x64] ∧ bytes "2028" = [0x32, 0x30, 0x32, 0x38] ∧
      bytes "2029" = [0x32, 0x30, 0x32, 0x39] := by decide
    simp [texts]
  fun_cases escapeAscii c with
  | case1 quoted => simp [readRune, readEscape, unnamed c quoted]
  | case7 =>
    have lead : bytes "\\u00" = [0x5C, 0x75, 0x30, 0x30] := by decide
    simp [lead, readRune, readEscape, control, digits]
  | case8 sign =>
    have single : width c = 1 := by simp [width, ascii]
    have unescaped : c ≠ 0x5C := fun same => sign (Or.inr same)
    simp [readRune, unescaped, single]
  | _ =>
    subst c
    rfl

/-- Whatever was written is read back as far as it is kept. -/
theorem readRune_appendRune (read : Sym) (rest : Bytes) :
    readRune (appendRune read ++ rest) = some (read.rune?, rest) := by
  cases read with
  | bad byte => rfl
  | rune encoding formed =>
    obtain ⟨lead, more, rfl⟩ := exists_cons_of_ne_nil (wellFormed_ne_nil formed)
    cases more with
    | nil => exact readRune_ascii lead (by simpa [wellFormed] using formed) rest
    | cons next others =>
      simp only [appendRune, Sym.rune?]
      split
      · next separator => rw [separator]; rfl
      · split
        · next separator => rw [separator]; rfl
        · have whole := wellFormed_width lead (next :: others) formed
          have unescaped : lead ≠ 0x5C := by
            rintro rfl
            simp [width] at whole
          rw [cons_append, readRune, if_neg unescaped, ← whole, ← cons_append, take_left,
            drop_left]

/-- What is written for a rune begins with no quote. -/
theorem appendRune_begins (read : Sym) : ∃ c more, appendRune read = c :: more ∧ c ≠ 0x22 := by
  have ascii : ∀ c : UInt8, (escapeAscii c).head?.any (· != 0x22) = true := by decide +kernel
  have some_head : ∀ text : Bytes, text.head?.any (· != 0x22) = true → ∃ c more, text = c :: more ∧
      c ≠ 0x22 := by
    intro text head
    cases text with
    | nil => simp at head
    | cons c more => exact ⟨c, more, rfl, by simpa using head⟩
  apply some_head
  cases read with
  | bad byte => rfl
  | rune encoding formed =>
    obtain ⟨lead, more, rfl⟩ := exists_cons_of_ne_nil (wellFormed_ne_nil formed)
    cases more with
    | nil => exact ascii lead
    | cons next others =>
      simp only [appendRune]
      split
      · rfl
      · split
        · rfl
        · have whole := wellFormed_width lead (next :: others) formed
          have quoteless : lead ≠ 0x22 := by
            rintro rfl
            simp [width] at whole
          simpa using quoteless

/-- A byte is written as at most six. -/
theorem length_appendRune (read : Sym) : (appendRune read).length ≤ 6 * read.bytes.length := by
  have ascii : ∀ c : UInt8, (escapeAscii c).length ≤ 6 := by decide +kernel
  cases read with
  | bad byte => exact Nat.le_refl 6
  | rune encoding formed =>
    obtain ⟨lead, more, rfl⟩ := exists_cons_of_ne_nil (wellFormed_ne_nil formed)
    cases more with
    | nil => exact ascii lead
    | cons next others =>
      have escape : (bytes "\\u2028").length = 6 ∧ (bytes "\\u2029").length = 6 := by decide
      simp only [appendRune, Sym.bytes, length_cons]
      split
      · omega
      · split
        · omega
        · simp only [length_cons]
          omega

/-- A text is written in at most six bytes for each of its own, in quotes. -/
theorem length_appendString (s : Bytes) : (appendString s).length ≤ 6 * s.length + 2 := by
  have general : ∀ reads : List Sym,
      (reads.flatMap appendRune).length ≤ 6 * (reads.flatMap Sym.bytes).length := by
    intro reads
    induction reads with
    | nil => exact Nat.le_refl 0
    | cons read reads ih =>
      have here := length_appendRune read
      rw [flatMap_cons, flatMap_cons, length_append, length_append]
      omega
  have long := general (runes s)
  rw [runes_bytes] at long
  rw [appendString, length_cons, length_append, length_singleton]
  omega

/-- A text is written without control characters, and so on one line. -/
theorem control_not_mem_appendString {c : UInt8} (control : c < 0x20) (s : Bytes) :
    c ∉ appendString s := by
  have ascii : ∀ lead : UInt8, (escapeAscii lead).all (0x20 ≤ ·) = true := by decide +kernel
  have escapes : (bytes "\\ufffd").all (0x20 ≤ ·) = true ∧ (bytes "\\u2028").all (0x20 ≤ ·) = true ∧
      (bytes "\\u2029").all (0x20 ≤ ·) = true := by decide +kernel
  have low : ∀ {written : Bytes}, written.all (0x20 ≤ ·) = true → c ∉ written := by
    intro written printable member
    have high := of_decide_eq_true (all_eq_true.mp printable c member)
    exact UInt8.not_lt.mpr high control
  have quote : c ≠ 0x22 := by
    rintro rfl
    exact absurd control (by decide)
  have each : ∀ read : Sym, c ∉ appendRune read := by
    intro read
    cases read with
    | bad byte => exact low escapes.1
    | rune encoding formed =>
      obtain ⟨lead, more, rfl⟩ := exists_cons_of_ne_nil (wellFormed_ne_nil formed)
      cases more with
      | nil => exact low (ascii lead)
      | cons next others =>
        simp only [appendRune]
        split
        · exact low escapes.2.1
        · split
          · exact low escapes.2.2
          · intro member
            have short : c < 0x80 := UInt8.lt_trans control (by decide)
            cases wellFormed_ascii formed short member
  intro member
  rcases mem_cons.mp member with opening | inside
  · exact quote opening
  rcases mem_append.mp inside with text | closing
  · obtain ⟨read, _, written⟩ := mem_flatMap.mp text
    exact each read written
  · exact quote (mem_singleton.mp closing)

/-- A text settles what it carries, whatever follows it. -/
theorem appendString_framed : Framed (fun _ => True) appendString carried := by
  have texts :=
    Framed.words (Framed.of_read readRune fun read rest _ => readRune_appendRune read rest) 0x22
    appendRune_begins
  intro s t rest others first second same
  exact texts (runes s) (runes t) rest others first second (List.cons.inj same).2

/-- What is written for a rune depends on what is kept of it only. -/
theorem appendRune_kept {read other : Sym} (same : read.rune? = other.rune?) :
    appendRune read = appendRune other := by
  cases read with
  | bad byte =>
    cases other with
    | bad byte => rfl
    | rune encoding formed => simp [Sym.rune?] at same
  | rune encoding formed =>
    cases other with
    | bad byte => simp [Sym.rune?] at same
    | rune encoding' formed' =>
      obtain rfl : encoding = encoding' := Option.some.inj same
      rfl

/-- A text depends on what it carries only. -/
theorem appendString_carried {s t : Bytes} (same : carried s = carried t) :
    appendString s = appendString t := by
  have general : ∀ left right : List Sym, left.map Sym.rune? = right.map Sym.rune? →
      left.flatMap appendRune = right.flatMap appendRune := by
    intro left
    induction left with
    | nil =>
      intro right same
      obtain rfl : right = [] := map_eq_nil_iff.mp same.symm
      rfl
    | cons read left ih =>
      intro right same
      cases right with
      | nil => simp at same
      | cons other right =>
        rw [map_cons, map_cons, List.cons.injEq] at same
        rw [flatMap_cons, flatMap_cons, appendRune_kept same.1, ih right same.2]
  rw [appendString, appendString, general _ _ same]

/-! ## Objects -/

/-- What may follow a member. -/
def Ends (rest : Bytes) : Prop := ∃ c more, rest = c :: more ∧ (c = 0x2C ∨ c = 0x7D)

/-- A byte that a value of this kind may begin with. -/
def Value.opens : Value → UInt8 → Bool
  | .text _, c => c == 0x22
  | .number _, c => c == 0x2D || Decimal.isDigit c
  | .null, c => c == 0x6E

theorem encode_opens (value : Value) : ∃ c more, value.encode = c :: more ∧
    value.opens c = true := by
  cases value with
  | text s => exact ⟨0x22, _, rfl, rfl⟩
  | null => exact ⟨0x6E, _, rfl, rfl⟩
  | number n =>
    have nonempty : Decimal.signed 0 n ≠ [] := by
      unfold Decimal.signed
      split
      · exact cons_ne_nil _ _
      · exact Decimal.padded_ne_nil 0 _
    obtain ⟨c, more, text⟩ := exists_cons_of_ne_nil nonempty
    have kind := Decimal.signed_bytes 0 n c (by rw [text]; exact mem_cons_self)
    exact ⟨c, more, text, by simpa [Value.opens] using kind⟩

/-- A value settles what is kept of it before another member or the end. The three
kinds of value begin with different bytes. -/
theorem encode_framed : Framed Ends Value.encode Value.kept := by
  have stops : ∀ rest, Ends rest → Decimal.Follows rest := by
    rintro rest ⟨c, more, rfl, ends⟩ other first
    cases first
    rcases ends with rfl | rfl <;> decide
  have apart : ∀ c : UInt8, ¬ ((c == 0x22) = true ∧ (c == 0x2D || Decimal.isDigit c) = true) ∧
      ¬ ((c == 0x6E) = true ∧ (c == 0x2D || Decimal.isDigit c) = true) ∧
      ¬ ((c == 0x22) = true ∧ (c == 0x6E) = true) := by decide +kernel
  intro a b rest others first second same
  obtain ⟨c, opensA, opensB⟩ : ∃ c, a.opens c = true ∧ b.opens c = true := by
    obtain ⟨c, more, textA, opensA⟩ := encode_opens a
    obtain ⟨d, more', textB, opensB⟩ := encode_opens b
    rw [textA, textB, cons_append, cons_append] at same
    obtain rfl := (List.cons.inj same).1
    exact ⟨c, opensA, opensB⟩
  obtain ⟨textNumber, nullNumber, textNull⟩ := apart c
  match a, b with
  | .text s, .text t =>
    obtain ⟨texts, tails⟩ := appendString_framed s t rest others trivial trivial same
    exact ⟨congrArg Kept.text texts, tails⟩
  | .number m, .number n =>
    obtain ⟨numbers, tails⟩ :=
      Decimal.signed_framed 0 m n rest others (stops rest first) (stops others second) same
    exact ⟨congrArg Kept.number numbers, tails⟩
  | .null, .null => exact ⟨rfl, append_cancel_left same⟩
  | .text _, .number _ => exact absurd ⟨opensA, opensB⟩ textNumber
  | .number _, .text _ => exact absurd ⟨opensB, opensA⟩ textNumber
  | .null, .number _ => exact absurd ⟨opensA, opensB⟩ nullNumber
  | .number _, .null => exact absurd ⟨opensB, opensA⟩ nullNumber
  | .text _, .null => exact absurd ⟨opensA, opensB⟩ textNull
  | .null, .text _ => exact absurd ⟨opensB, opensA⟩ textNull

/-- The encoding of a value depends on what is kept of it only. -/
theorem encode_kept {left right : Value} (same : left.kept = right.kept) :
    left.encode = right.encode := by
  cases left <;> cases right <;>
    simp only [Value.kept, Kept.text.injEq, Kept.number.injEq, reduceCtorEq] at same
  · exact appendString_carried same
  · rw [same]
  · rfl

/-- The members of an object after its opening brace or a comma. -/
def body (entries : List (Bytes × Value)) : Bytes :=
  entries.flatMap (fun entry => 0x2C :: member entry) ++ [0x7D]

theorem body_ends (entries : List (Bytes × Value)) : Ends (body entries) := by
  cases entries with
  | nil => exact ⟨0x7D, [], rfl, Or.inr rfl⟩
  | cons first rest => exact ⟨0x2C, _, rfl, Or.inl rfl⟩

/-- A member settles what is kept of its value before another member or the end. -/
theorem member_eq_iff (name : Bytes) (left right : Value) {rest others : Bytes} (ends : Ends rest)
    (endsOther : Ends others) :
    member (name, left) ++ rest = member (name, right) ++ others ↔ left.kept = right.kept ∧
    rest = others := by
  have reduced : member (name, left) ++ rest = member (name, right) ++ others ↔
      left.encode ++ rest = right.encode ++ others := by simp [member]
  rw [reduced]
  constructor
  · exact encode_framed left right rest others ends endsOther
  · rintro ⟨same, rfl⟩
    rw [encode_kept same]

/-- Members of the same names are written alike exactly when the same is kept of
their values. -/
theorem body_eq_iff (left right : List (Bytes × Value))
    (names : left.map Prod.fst = right.map Prod.fst) :
    body left = body right ↔ left.map (·.2.kept) = right.map (·.2.kept) := by
  induction left generalizing right with
  | nil =>
    obtain rfl : right = [] := map_eq_nil_iff.mp names.symm
    simp
  | cons first left ih =>
    cases right with
    | nil => simp at names
    | cons other right =>
      obtain ⟨name, value⟩ := first
      obtain ⟨name', value'⟩ := other
      obtain ⟨rfl, later⟩ := List.cons.inj names
      have split : ∀ value entries, body ((name, value) :: entries) =
          0x2C :: (member (name, value) ++ body entries) := by
        intro value entries
        simp [body]
      rw [split, split, cons_inj_right, member_eq_iff name value value' (body_ends left)
        (body_ends right), ih right later, map_cons, map_cons, List.cons.injEq]

/-- Objects with the same member names are written alike exactly when the same is
kept of their values. -/
theorem marshal_eq_iff (left right : List (Bytes × Value))
    (names : left.map Prod.fst = right.map Prod.fst) :
    marshal left = marshal right ↔ left.map (·.2.kept) = right.map (·.2.kept) := by
  cases left with
  | nil =>
    obtain rfl : right = [] := map_eq_nil_iff.mp names.symm
    simp
  | cons first left =>
    cases right with
    | nil => simp at names
    | cons other right =>
      have commas : marshal (first :: left) = marshal (other :: right) ↔
          body (first :: left) = body (other :: right) := by
        simp [marshal, body]
      rw [commas, body_eq_iff _ _ names]

end TrustedCourier.Json
