import Mathlib.Algebra.Group.Int.Defs
import Mathlib.Algebra.Group.Nat.Defs
import Mathlib.Algebra.GroupWithZero.Nat
import TrustedCourier.Json

/-!
# Reading JSON as Go's encoding/json does

A value is read from the front of a text and the rest is left. Nesting is read to a
depth, which is also what the recursion is on. Texts lose their escapes and, with them,
what the escapes stood for: an ill-formed byte was written as U+FFFD and is read as the
three bytes of that rune. Everything else that is written is read back, before whatever
may follow a value, and an object's law follows from its members'.
-/

namespace TrustedCourier.JsonDecode

open Utf8 List

/-- A value of any kind. A number is kept as it is spelled. -/
inductive Doc where
  | null
  | bool (b : Bool)
  | number (text : Bytes)
  | text (s : Bytes)
  | array (items : List Doc)
  | object (members : List (Bytes × Doc))

/-! ## Texts -/

/-- A rune, or U+FFFD for an ill-formed byte. -/
def coerceRune : Sym → Bytes
  | .rune encoding _ => encoding
  | .bad _ => replacement

/-- A text with U+FFFD for every ill-formed byte. -/
def coerce (s : Bytes) : Bytes := (runes s).flatMap coerceRune

/-- Four hex digits. -/
def getu4 : Bytes → Option (Nat × Bytes)
  | a :: b :: c :: d :: rest =>
    if [a, b, c, d].all UrlEscapes.ishex then
      some ([a, b, c, d].foldl (fun sum digit => 16 * sum + (UrlEscapes.unhex digit).toNat) 0, rest)
    else none
  | _ => none

/-- The rune that an escape spells, given what its digits say. Half of a surrogate pair
needs the other half in the next escape. -/
def fromUtf16 (code : Nat) (after : Bytes) : Bytes × Bytes :=
  if 0xD800 ≤ code ∧ code < 0xE000 then
    match (if (bytes "\\u").isPrefixOf after then getu4 (after.drop 2) else none) with
    | some (low, beyond) =>
      if code < 0xDC00 ∧ 0xDC00 ≤ low ∧ low < 0xE000 then
        (encodeRune (0x10000 + (code - 0xD800) * 0x400 + (low - 0xDC00)), beyond)
      else (replacement, after)
    | none => (replacement, after)
  else (encodeRune code, after)

/-- What stands after a backslash. -/
def unescape : Bytes → Option (Bytes × Bytes)
  | [] => none
  | c :: rest =>
    if c = 0x75 then (getu4 rest).map fun read => fromUtf16 read.1 read.2
    else if (bytes "\"\\/bfnrt").contains c then some ([Json.named c], rest)
    else none

/-- One rune of a text. -/
def readChar : Bytes → Option (Bytes × Bytes)
  | [] => none
  | c :: rest =>
    if c = 0x5C then unescape rest
    else if c < 0x20 then none
    else some (coerceRune (decodeRune c rest), (c :: rest).drop (decodeRune c rest).bytes.length)

/-- A text up to its closing quote, at most one rune for each unit of fuel. -/
def readRunes : Nat → Bytes → Option (Bytes × Bytes)
  | 0, _ => none
  | fuel + 1, s =>
    if s.head? = some 0x22 then some ([], s.tail)
    else do
      let (char, after) ← readChar s
      let (text, rest) ← readRunes fuel after
      some (char ++ text, rest)

/-- A text after its opening quote. -/
def readText (s : Bytes) : Option (Bytes × Bytes) := readRunes s.length s

/-- How many bytes of a text are ill-formed. -/
def illFormed (s : Bytes) : Nat := (runes s).countP fun read => read.rune?.isNone

/-! ## Numbers -/

/-- Digits, at least one. -/
def readDigits (s : Bytes) : Option (Bytes × Bytes) :=
  if (s.takeWhile Decimal.isDigit).isEmpty then none
  else some (s.takeWhile Decimal.isDigit, s.dropWhile Decimal.isDigit)

/-- Zero stands alone in front of a point. -/
def readWhole (s : Bytes) : Option (Bytes × Bytes) :=
  if s.head? = some 0x30 then some ([0x30], s.tail) else readDigits s

/-- A point and its digits, if there is one. -/
def readFraction (s : Bytes) : Option (Bytes × Bytes) :=
  if s.head? = some 0x2E then (readDigits s.tail).map fun read => (0x2E :: read.1, read.2)
  else some ([], s)

/-- An optional sign. -/
def readSign (signs : Bytes) (s : Bytes) : Bytes × Bytes :=
  if s.head?.any signs.contains then (s.take 1, s.tail) else ([], s)

/-- An exponent, if there is one. -/
def readExponent (s : Bytes) : Option (Bytes × Bytes) :=
  if s.head?.any (bytes "eE").contains then do
    let (sign, after) := readSign (bytes "+-") s.tail
    let (digits, rest) ← readDigits after
    some (s.take 1 ++ sign ++ digits, rest)
  else some ([], s)

/-- A number, with what follows it. -/
def readNumber (s : Bytes) : Option (Bytes × Bytes) := do
  let (sign, s) := readSign (bytes "-") s
  let (whole, s) ← readWhole s
  let (fraction, s) ← readFraction s
  let (exponent, s) ← readExponent s
  some (sign ++ whole ++ fraction ++ exponent, s)

/-! ## Values -/

def isSpace (c : UInt8) : Bool := c == 0x20 || c == 0x09 || c == 0x0A || c == 0x0D

def skipSpace (s : Bytes) : Bytes := s.dropWhile isSpace

/-- What follows one byte, after any space. -/
def expect (c : UInt8) (s : Bytes) : Option Bytes :=
  if (skipSpace s).head? = some c then some (skipSpace s).tail else none

/-- Items between commas up to a closing byte, at most one for each unit of fuel. -/
def readItems {α : Type} (read : Bytes → Option (α × Bytes)) (close : UInt8) :
    Nat → Bytes → Option (List α × Bytes)
  | 0, _ => none
  | fuel + 1, s => do
    let (item, after) ← read s
    match expect 0x2C after with
    | some more =>
      let (items, rest) ← readItems read close fuel more
      some (item :: items, rest)
    | none =>
      let rest ← expect close after
      some ([item], rest)

/-- The items of an array or an object after its opening byte. -/
def readList {α : Type} (read : Bytes → Option (α × Bytes)) (close : UInt8) (s : Bytes) :
    Option (List α × Bytes) :=
  match expect close s with
  | some rest => some ([], rest)
  | none => readItems read close s.length s

/-- A name, a colon, a value. -/
def readMember (read : Bytes → Option (Doc × Bytes)) (s : Bytes) :
    Option ((Bytes × Doc) × Bytes) := do
  let quoted ← expect 0x22 s
  let (name, after) ← readText quoted
  let value ← expect 0x3A after
  let (doc, rest) ← read value
  some ((name, doc), rest)

/-- A word without quotes. -/
def readWord (s : Bytes) : Option (Doc × Bytes) :=
  if (bytes "null").isPrefixOf s then some (.null, s.drop 4)
  else if (bytes "true").isPrefixOf s then some (.bool true, s.drop 4)
  else if (bytes "false").isPrefixOf s then some (.bool false, s.drop 5)
  else none

/-- A value that is no array and no object. -/
def readScalar (s : Bytes) : Option (Doc × Bytes) :=
  if s.head? = some 0x22 then (readText s.tail).map fun read => (.text read.1, read.2)
  else if s.head?.any fun c => c == 0x2D || Decimal.isDigit c then
    (readNumber s).map fun read => (.number read.1, read.2)
  else readWord s

/-- A value with arrays and objects nested up to a depth. -/
def readValue : Nat → Bytes → Option (Doc × Bytes)
  | 0, s => readScalar (skipSpace s)
  | depth + 1, s =>
    if (skipSpace s).head? = some 0x5B then
      (readList (readValue depth) 0x5D (skipSpace s).tail).map fun read => (.array read.1, read.2)
    else if (skipSpace s).head? = some 0x7B then
      (readList (readMember (readValue depth)) 0x7D (skipSpace s).tail).map fun read =>
        (.object read.1, read.2)
    else readScalar (skipSpace s)

/-- How deep Go reads. -/
def maxNestingDepth : Nat := 10000

/-! ## Fields of a struct -/

/-- The field that a member's name means: the one of that name, or else one that differs
from it in letter case only. -/
def fieldOf (fold : Bytes → Bytes) (fields : List Bytes) (name : Bytes) : Option Bytes :=
  if fields.contains name then some name else fields.find? (equalFold fold name)

/-- A value decoded into a string; `null` leaves it as it was. -/
def textInto (old : Bytes) : Doc → Option Bytes
  | .text s => some s
  | .null => some old
  | _ => none

/-- The same for a flag. -/
def boolInto (old : Bool) : Doc → Option Bool
  | .bool b => some b
  | .null => some old
  | _ => none

/-- `strconv.ParseUint` of 64 bits. -/
def parseUint (text : Bytes) : Option Nat :=
  if !text.isEmpty && text.all Decimal.isDigit && Decimal.value text < 2 ^ 64 then
    some (Decimal.value text)
  else none

/-- `strconv.ParseInt` of 64 bits. -/
def parseInt (text : Bytes) : Option Int :=
  if text.head? = some 0x2D then
    (parseUint text.tail).bind fun n => if n ≤ 2 ^ 63 then some (-n) else none
  else (parseUint text).bind fun n => if n < 2 ^ 63 then some n else none

/-- The same for an integer. -/
def intInto (old : Int) : Doc → Option Int
  | .number text => parseInt text
  | .null => some old
  | _ => none

/-- The same for a natural number. -/
def uintInto (old : Nat) : Doc → Option Nat
  | .number text => parseUint text
  | .null => some old
  | _ => none

/-! ## What was written is read back -/

/-- What may follow a value. -/
def After (rest : Bytes) : Prop := ∀ c ∈ rest.head?, c = 0x2C ∨ c = 0x7D ∨ c = 0x5D ∨
    isSpace c = true

/-- The text is read as the value, whatever follows it. -/
def Reads (depth : Nat) (text : Bytes) (doc : Doc) : Prop :=
  ∀ rest, After rest → readValue depth (text ++ rest) = some (doc, rest)

theorem skipSpace_cons {c : UInt8} (solid : isSpace c = false) (rest : Bytes) :
    skipSpace (c :: rest) = c :: rest := by
  rw [skipSpace, dropWhile_cons, if_neg (by rw [solid]; decide)]

theorem expect_cons {c : UInt8} (solid : isSpace c = false) (rest : Bytes) :
    expect c (c :: rest) = some rest := by
  rw [expect, skipSpace_cons solid, head?_cons, if_pos rfl, tail_cons]

theorem expect_other {c d : UInt8} (solid : isSpace d = false) (different : d ≠ c) (rest : Bytes) :
    expect c (d :: rest) = none := by
  rw [expect, skipSpace_cons solid, head?_cons, if_neg (by simpa using different)]

/-- Hex digits are read as the rune they spell. -/
theorem readChar_escape {a b c d : UInt8} (code : Nat)
    (hex : [a, b, c, d].all UrlEscapes.ishex = true)
    (spelled : [a, b, c, d].foldl (fun sum digit => 16 * sum + (UrlEscapes.unhex digit).toNat) 0 =
      code) (whole : ¬ (0xD800 ≤ code ∧ code < 0xE000)) (rest : Bytes) :
    readChar (0x5C :: 0x75 :: a :: b :: c :: d :: rest) = some (encodeRune code, rest) := by
  simp only [readChar, if_true, unescape, getu4, if_pos hex, spelled, Option.map_some, fromUtf16,
    if_neg whole]

/-- An ASCII byte is read back from its escape. -/
theorem readChar_ascii (c : UInt8) (ascii : c ≤ 0x7F) (rest : Bytes) :
    readChar (Json.escapeAscii c ++ rest) = some ([c], rest) := by
  have hex : ∀ c : UInt8, UrlEscapes.ishex (Json.lowerhex (c / 16)) = true ∧
      UrlEscapes.ishex (Json.lowerhex (c % 16)) = true := by decide +kernel
  have digits : ∀ c : UInt8, 16 * (UrlEscapes.unhex (Json.lowerhex (c / 16))).toNat +
      (UrlEscapes.unhex (Json.lowerhex (c % 16))).toNat = c.toNat := by decide +kernel
  have quoted : ∀ c : UInt8, c = 0x22 ∨ c = 0x5C → c ≠ 0x75 ∧
    (bytes "\"\\/bfnrt").contains c = true ∧
      Json.named c = c := by decide +kernel
  fun_cases Json.escapeAscii c with
  | case1 sign =>
    obtain ⟨letter, known, same⟩ := quoted c sign
    simp only [cons_append, nil_append, readChar, if_pos, unescape, if_neg letter, known, same]
  | case7 =>
    have lead : bytes "\\u00" = [0x5C, 0x75, 0x30, 0x30] := by decide
    have zero : UrlEscapes.ishex 0x30 = true ∧ (UrlEscapes.unhex 0x30).toNat = 0 := by decide
    have low : c.toNat < 0x80 := by
      rw [UInt8.le_iff_toNat_le] at ascii
      exact Nat.lt_succ_of_le ascii
    rw [lead]
    refine (readChar_escape c.toNat ?_ ?_ (by omega) rest).trans ?_
    · simp only [all_cons, all_nil, zero, hex c, Bool.and_self]
    · simp only [foldl_cons, foldl_nil, zero, Nat.mul_zero, Nat.add_zero, Nat.zero_add, digits c]
    · rw [encodeRune, if_pos low]
      simp
  | case8 sign _ _ _ _ _ printable =>
    have unescaped : c ≠ 0x5C := fun same => sign (Or.inr same)
    have formed : wellFormed [c] = true := by simpa [wellFormed] using ascii
    have alone : decodeRune c rest = .rune [c] formed := decodeRune_formed formed rest
    rw [singleton_append, readChar, if_neg unescaped, if_neg fun low => printable (Or.inl low),
      alone]
    rfl
  | _ =>
    subst c
    rfl

/-- A rune is read back, and an ill-formed byte as U+FFFD. -/
theorem readChar_appendRune (read : Sym) (rest : Bytes) :
    readChar (Json.appendRune read ++ rest) = some (coerceRune read, rest) := by
  cases read with
  | bad byte => exact readChar_escape 0xFFFD (by decide) rfl (by decide) rest
  | rune encoding formed =>
    obtain ⟨lead, more, rfl⟩ := exists_cons_of_ne_nil (wellFormed_ne_nil formed)
    cases more with
    | nil => exact readChar_ascii lead (by simpa [wellFormed] using formed) rest
    | cons next others =>
      simp only [Json.appendRune, coerceRune]
      split
      · next separator =>
          rw [separator]
          exact readChar_escape 0x2028 (by decide) rfl (by decide) rest
      · split
        · next separator =>
            rw [separator]
            exact readChar_escape 0x2029 (by decide) rfl (by decide) rest
        · have whole := wellFormed_width lead (next :: others) formed
          have high : ¬ lead ≤ 0x7F := by
            intro low
            rw [width, if_pos low] at whole
            simp at whole
          have unescaped : lead ≠ 0x5C := by
            rintro rfl
            exact high (by decide)
          have printable : ¬ lead < 0x20 := by
            rw [UInt8.le_iff_toNat_le] at high
            rw [UInt8.lt_iff_toNat_lt]
            simp only [UInt8.reduceToNat] at high ⊢
            omega
          rw [cons_append, readChar, if_neg unescaped, if_neg printable,
            decodeRune_formed formed rest]
          simp [Sym.bytes, coerceRune]

/-- Runes are read back one by one, up to the closing quote. -/
theorem readRunes_appendRunes (reads : List Sym) (rest : Bytes) (fuel : Nat)
    (enough : reads.length < fuel) :
    readRunes fuel (reads.flatMap Json.appendRune ++ 0x22 :: rest) =
      some (reads.flatMap coerceRune, rest) := by
  induction reads generalizing fuel with
  | nil =>
    cases fuel with
    | zero => simp at enough
    | succ fuel => rfl
  | cons read reads ih =>
    cases fuel with
    | zero => simp at enough
    | succ fuel =>
      obtain ⟨c, more, begins, quoteless⟩ := Json.appendRune_begins read
      have open_ : (Json.appendRune read ++ (reads.flatMap Json.appendRune ++ 0x22 :: rest)).head? ≠
          some 0x22 := by
        rw [begins]
        simpa using quoteless
      rw [flatMap_cons, append_assoc, readRunes, if_neg open_, readChar_appendRune]
      simp only [Option.bind_eq_bind, Option.bind_some, ih fuel (by simpa using enough),
        flatMap_cons]

/-- A text is read back after its opening quote. -/
theorem readText_appendString (s rest : Bytes) :
    readText ((Json.appendString s).tail ++ rest) = some (coerce s, rest) := by
  have text : (Json.appendString s).tail ++ rest = (runes s).flatMap Json.appendRune ++ 0x22 ::
      rest := by
    simp [Json.appendString]
  have written : ∀ read : Sym, Json.appendRune read ≠ [] := by
    intro read
    obtain ⟨c, more, begins, _⟩ := Json.appendRune_begins read
    rw [begins]
    exact cons_ne_nil c more
  have long := ByteStrings.length_le_flatMap written (runes s)
  rw [readText, text]
  refine readRunes_appendRunes (runes s) rest _ ?_
  rw [length_append, length_cons]
  omega

/-- A text grows by two bytes for each ill-formed one. -/
theorem length_coerce (s : Bytes) : (coerce s).length = s.length + 2 * illFormed s := by
  have general : ∀ reads : List Sym, (reads.flatMap coerceRune).length =
      (reads.flatMap Sym.bytes).length + 2 * reads.countP fun read => read.rune?.isNone := by
    intro reads
    induction reads with
    | nil => rfl
    | cons read reads ih =>
      rw [flatMap_cons, flatMap_cons, length_append, length_append, ih, countP_cons]
      cases read with
      | rune encoding formed => simp [coerceRune, Sym.bytes, Sym.rune?, Nat.add_assoc]
      | bad byte =>
        simp only [coerceRune, replacement, Sym.bytes, Sym.rune?, Option.isNone_none, if_true,
          length_cons, length_nil]
        omega
  rw [coerce, general, runes_bytes]
  rfl

/-- A text that was coerced is valid. -/
theorem validString_coerce (s : Bytes) : validString (coerce s) = true := by
  have formed : ∀ read : Sym, wellFormed (coerceRune read) = true := by
    intro read
    cases read with
    | rune encoding formed => exact formed
    | bad byte => rfl
  rw [validString_iff, coerce, runes_flatMap formed]
  intro read member
  obtain ⟨other, _, rfl⟩ := mem_map.mp member
  exact ⟨_, _, rfl⟩

/-- A valid text stays as it is. -/
theorem coerce_valid {s : Bytes} (valid : validString s = true) : coerce s = s := by
  conv_rhs => rw [← runes_bytes s]
  rw [coerce]
  refine flatMap_congr fun read member => ?_
  obtain ⟨encoding, formed, rfl⟩ := (validString_iff s).mp valid read member
  rfl

/-- A value that is no array and no object is read the same at any depth. -/
theorem scalar_reads {c : UInt8} {more : Bytes} {doc : Doc} (depth : Nat)
    (solid : isSpace c = false) (single : c ≠ 0x5B ∧ c ≠ 0x7B)
    (read : ∀ rest, After rest → readScalar (c :: (more ++ rest)) = some (doc, rest)) :
    Reads depth (c :: more) doc := by
  intro rest follows
  cases depth with
  | zero => rw [readValue, cons_append, skipSpace_cons solid, read rest follows]
  | succ depth =>
    rw [readValue, cons_append, skipSpace_cons solid, head?_cons, if_neg (by simpa using single.1),
      if_neg (by simpa using single.2), read rest follows]

theorem text_reads (depth : Nat) (s : Bytes) : Reads depth (Json.appendString s)
    (.text (coerce s)) := by
  refine scalar_reads depth (by decide) (by decide) fun rest _ => ?_
  rw [readScalar, head?_cons, if_pos rfl, tail_cons]
  exact congrArg (Option.map _) (readText_appendString s rest)

theorem true_reads (depth : Nat) : Reads depth (bytes "true") (.bool true) :=
  scalar_reads depth (by decide) (by decide) fun _ _ => rfl

/-- No number is spelled with a zero in front, but zero itself. -/
theorem digits_head (n : Nat) (zero : (Decimal.digits n).head? = some 0x30) :
    Decimal.digits n = [0x30] := by
  induction n using Nat.strongRecOn with
  | ind n ih =>
    rcases Nat.lt_or_ge n 10 with small | large
    · have each : ∀ n < 10, (Decimal.digits n).head? = some 0x30 →
          Decimal.digits n = [0x30] := by decide
      exact each n small zero
    · -- The leading digits are those of a smaller number, which is not zero.
      have split : Decimal.digits n = Decimal.digits (n / 10) ++ Decimal.digits (n % 10) := by
        rw [Decimal.digits, Decimal.digits, Decimal.digits, ← map_append,
          Nat.toDigits_append_toDigits (by decide) (by omega) (by omega), Nat.div_add_mod]
      have front : (Decimal.digits (n / 10)).head? = some 0x30 := by
        rw [split, head?_append_of_ne_nil _ (by simp [Decimal.digits])] at zero
        exact zero
      have nothing := congrArg Decimal.value (ih (n / 10) (by omega) front)
      rw [Decimal.value_digits] at nothing
      have positive : Decimal.value [0x30] = 0 := by decide
      omega

variable {rest : Bytes}

/-- What follows a value continues no number. -/
theorem After.stops (follows : After rest) :
    (∀ c ∈ rest.head?, Decimal.isDigit c = false) ∧ rest.head? ≠ some 0x2E ∧
      rest.head?.any (bytes "eE").contains = false := by
  have each : ∀ c : UInt8, c = 0x2C ∨ c = 0x7D ∨ c = 0x5D ∨ isSpace c = true →
      Decimal.isDigit c = false ∧ c ≠ 0x2E ∧ (bytes "eE").contains c = false := by decide +kernel
  cases rest with
  | nil => simp
  | cons c more =>
    obtain ⟨digit, point, exponent⟩ := each c (follows c rfl)
    exact ⟨by simpa using digit, by simpa using point, by simpa using exponent⟩

/-- Digits are read up to what is none. -/
theorem readDigits_run {text : Bytes} (nonempty : text ≠ [])
    (digits : ∀ c ∈ text, Decimal.isDigit c = true)
    (stops : ∀ c ∈ rest.head?, Decimal.isDigit c = false) :
    readDigits (text ++ rest) = some (text, rest) := by
  have none : rest.takeWhile Decimal.isDigit = [] ∧ rest.dropWhile Decimal.isDigit = rest := by
    cases rest with
    | nil => exact ⟨rfl, rfl⟩
    | cons c more => simp [stops c rfl]
  have taken : (text ++ rest).takeWhile Decimal.isDigit = text := by
    rw [takeWhile_append_of_pos digits, none.1, append_nil]
  have dropped : (text ++ rest).dropWhile Decimal.isDigit = rest := by
    rw [dropWhile_append_of_pos digits, none.2]
  rw [readDigits, taken, dropped, if_neg (by simpa using nonempty)]

/-- A natural number is read back. -/
theorem readWhole_digits (n : Nat) (stops : ∀ c ∈ rest.head?, Decimal.isDigit c = false) :
    readWhole (Decimal.digits n ++ rest) = some (Decimal.digits n, rest) := by
  have nonempty : Decimal.digits n ≠ [] := by simp [Decimal.digits]
  rw [readWhole, head?_append_of_ne_nil _ nonempty]
  split
  · next zero => rw [digits_head n zero]; rfl
  · exact readDigits_run nonempty (Decimal.digits_isDigit n) stops

/-- An integer is read back. -/
theorem readNumber_signed (n : Int) (follows : After rest) :
    readNumber (Decimal.signed 0 n ++ rest) = some (Decimal.signed 0 n, rest) := by
  obtain ⟨digit, point, exponent⟩ := follows.stops
  have whole := readWhole_digits n.natAbs digit
  have bare : Decimal.padded 0 n.natAbs = Decimal.digits n.natAbs := by simp [Decimal.padded]
  have unsigned : readSign (bytes "-") (Decimal.digits n.natAbs ++ rest) =
      ([], Decimal.digits n.natAbs ++ rest) := by
    obtain ⟨c, more, text⟩ :=
      exists_cons_of_ne_nil (l := Decimal.digits n.natAbs) (by simp [Decimal.digits])
    have first := Decimal.digits_isDigit n.natAbs c (by rw [text]; exact mem_cons_self)
    have apart : ∀ c : UInt8, Decimal.isDigit c = true →
        (bytes "-").contains c = false := by decide +kernel
    rw [readSign, text, cons_append, head?_cons, Option.any_some, apart c first, if_neg (by decide)]
  have after : ∀ sign, (do
      let (whole, s) ← readWhole (Decimal.digits n.natAbs ++ rest)
      let (fraction, s) ← readFraction s
      let (exponent, s) ← readExponent s
      some (sign ++ whole ++ fraction ++ exponent, s)) =
        some (sign ++ Decimal.digits n.natAbs, rest) := by
    intro sign
    simp only [Option.bind_eq_bind, whole, Option.bind_some, readFraction, if_neg point,
      readExponent, exponent, Bool.false_eq_true, if_false, append_nil]
  rw [Decimal.signed, bare]
  split
  · exact after [0x2D]
  · rw [readNumber, unsigned]
    exact after []

/-- A number is read back. -/
theorem number_reads (depth : Nat) (n : Int) : Reads depth (Decimal.signed 0 n)
    (.number (Decimal.signed 0 n)) := by
  have kinds : ∀ c : UInt8, c = 0x2D ∨ Decimal.isDigit c = true →
      isSpace c = false ∧ (c ≠ 0x5B ∧ c ≠ 0x7B) ∧ c ≠ 0x22 ∧
        (c == 0x2D || Decimal.isDigit c) = true := by decide +kernel
  obtain ⟨c, more, text, opens⟩ := Json.encode_opens (.number n)
  change Decimal.signed 0 n = c :: more at text
  obtain ⟨solid, single, quoteless, begins⟩ :=
    kinds c (Decimal.signed_bytes 0 n c (by rw [text]; exact mem_cons_self))
  rw [text]
  refine scalar_reads depth solid single fun rest follows => ?_
  rw [readScalar, head?_cons, if_neg (by simpa using quoteless), Option.any_some, if_pos begins,
    ← cons_append, ← text, readNumber_signed n follows]
  rfl

/-- An integer of 64 bits is parsed from its spelling. -/
theorem parseInt_signed {n : Int} (low : -2 ^ 63 ≤ n) (high : n < 2 ^ 63) :
    parseInt (Decimal.signed 0 n) = some n := by
  have bare : Decimal.padded 0 n.natAbs = Decimal.digits n.natAbs := by simp [Decimal.padded]
  have nonempty : Decimal.digits n.natAbs ≠ [] := by simp [Decimal.digits]
  have parsed : parseUint (Decimal.digits n.natAbs) = some n.natAbs := by
    rw [parseUint, Decimal.value_digits, all_eq_true.mpr (Decimal.digits_isDigit n.natAbs)]
    simp only [Bool.and_true, Bool.and_eq_true, Bool.not_eq_true', isEmpty_eq_false_iff,
      decide_eq_true_eq]
    rw [if_pos ⟨nonempty, by omega⟩]
  have unsigned : (Decimal.digits n.natAbs).head? ≠ some 0x2D := by
    intro sign
    obtain ⟨more, text⟩ := head?_eq_some_iff.mp sign
    have digit := Decimal.digits_isDigit n.natAbs 0x2D (by rw [text]; exact mem_cons_self)
    exact absurd digit (by decide)
  rw [Decimal.signed, bare]
  split
  · rw [parseInt, head?_cons, if_pos rfl, tail_cons, parsed, Option.bind_some, if_pos (by omega)]
    exact congrArg some (by omega)
  · rw [parseInt, if_neg unsigned, parsed, Option.bind_some, if_pos (by omega)]
    exact congrArg some (by omega)

/-! ## Objects -/

/-- `json.Marshal` of a struct whose members have these names and are written so. -/
def object (members : List (Bytes × Bytes)) : Bytes :=
  0x7B ::
    ([0x2C].intercalate (members.map fun entry => Json.appendString entry.1 ++ 0x3A :: entry.2) ++
      [0x7D])

/-- An object is written without a control character if its members' values are. -/
theorem control_not_mem_object {c : UInt8} (control : c < 0x20) {members : List (Bytes × Bytes)}
    (each : ∀ entry ∈ members, c ∉ entry.2) : c ∉ object members := by
  have other : ∀ d ∈ [0x7B, 0x2C, 0x3A, 0x7D], c ≠ d := by
    have printable : ∀ d : UInt8, d ∈ [0x7B, 0x2C, 0x3A, 0x7D] → 0x20 ≤ d := by decide +kernel
    rintro d sign rfl
    exact UInt8.not_lt.mpr (printable c sign) control
  intro member
  rcases mem_cons.mp member with brace | inside
  · exact other 0x7B (by decide) brace
  rcases mem_append.mp inside with joined | brace
  · obtain ⟨piece, from_, within⟩ :=
      (ByteStrings.mem_intercalate (other 0x2C (by decide)) _).mp joined
    obtain ⟨entry, listed, rfl⟩ := mem_map.mp from_
    rcases mem_append.mp within with name | value
    · exact Json.control_not_mem_appendString control entry.1 name
    rcases mem_cons.mp value with colon | text
    · exact other 0x3A (by decide) colon
    · exact each entry listed text
  · exact other 0x7D (by decide) (mem_singleton.mp brace)

/-- An object takes its names and values, and two bytes for each member and for itself. -/
theorem length_object (members : List (Bytes × Bytes)) : (object members).length ≤
    2 + (members.map fun entry => (Json.appendString entry.1).length + entry.2.length + 2).sum := by
  have joined :
    ([0x2C].intercalate (members.map fun entry => Json.appendString entry.1 ++ 0x3A ::
      entry.2)).length ≤
      (members.map fun entry => (Json.appendString entry.1).length + entry.2.length + 2).sum := by
    induction members with
    | nil => exact Nat.le_refl 0
    | cons entry members ih =>
      cases members with
      | nil => simp [Nat.add_assoc]
      | cons second others =>
        simp only [map_cons, intercalate_cons_cons, length_append, length_cons, length_nil,
          sum_cons] at ih ⊢
        omega
  rw [object, length_cons, length_append, length_singleton]
  omega

/-- Items that are read back are read back between commas. -/
theorem readItems_intercalate {α : Type} (read : Bytes → Option (α × Bytes)) {close : UInt8}
    (solid : isSpace close = false) (apart : close ≠ 0x2C) (closes : ∀ rest, After (close :: rest))
    (items : List (Bytes × α)) (nonempty : items ≠ [])
    (each : ∀ item ∈ items, ∀ rest, After rest → read (item.1 ++ rest) = some (item.2, rest))
    (rest : Bytes) (fuel : Nat) (enough : items.length ≤ fuel) :
    readItems read close fuel ([0x2C].intercalate (items.map Prod.fst) ++ close :: rest) =
      some (items.map Prod.snd, rest) := by
  induction items generalizing fuel with
  | nil => exact absurd rfl nonempty
  | cons item items ih =>
    cases fuel with
    | zero => simp at enough
    | succ fuel =>
      have here := each item mem_cons_self
      cases items with
      | nil =>
        simp only [map_cons, map_nil, intercalate_singleton, readItems, Option.bind_eq_bind,
          here _ (closes rest), Option.bind_some, expect_other solid apart, expect_cons solid]
      | cons second others =>
        have later := ih (by simp) (fun other member => each other (mem_cons_of_mem _ member)) fuel
          (by simpa using enough)
        rw [map_cons, map_cons] at later
        have comma : ∀ more, After (0x2C :: more) := fun more c first =>
          Or.inl (Option.some.inj first).symm
        rw [map_cons, map_cons, intercalate_cons_cons, ← map_cons, append_assoc,
          append_assoc, singleton_append]
        simp only [readItems, Option.bind_eq_bind, here _ (comma _), Option.bind_some,
          expect_cons (show isSpace 0x2C = false by decide), later, map_cons]

/-- There is a comma between any two items. -/
theorem length_le_intercalate (items : List Bytes) :
    items.length ≤ ([0x2C].intercalate items).length + 1 := by
  induction items with
  | nil => exact Nat.zero_le _
  | cons item items ih =>
    cases items with
    | nil => simp
    | cons second others =>
      rw [intercalate_cons_cons, length_append, length_append, length_cons]
      simp only [length_singleton] at ih ⊢
      omega

/-- A member is read back if its value is. -/
theorem readMember_reads {depth : Nat} {text : Bytes} {doc : Doc} (reads : Reads depth text doc)
    (name : Bytes) (follows : After rest) :
    readMember (readValue depth) ((Json.appendString name ++ 0x3A :: text) ++ rest) =
      some ((coerce name, doc), rest) := by
  have quoted : expect 0x22 ((Json.appendString name ++ 0x3A :: text) ++ rest) =
      some ((Json.appendString name).tail ++ 0x3A :: (text ++ rest)) := by
    rw [append_assoc, cons_append]
    exact expect_cons (by decide) _
  simp only [readMember, Option.bind_eq_bind, quoted, Option.bind_some, readText_appendString,
    expect_cons (show isSpace 0x3A = false by decide), reads rest follows]

/-- An object is read back if its members' values are. -/
theorem object_reads {depth : Nat} (members : List (Bytes × Bytes × Doc))
    (each : ∀ entry ∈ members, Reads depth entry.2.1 entry.2.2) :
    Reads (depth + 1) (object (members.map fun entry => (entry.1, entry.2.1)))
      (.object (members.map fun entry => (coerce entry.1, entry.2.2))) := by
  intro rest _
  have brace : isSpace 0x7B = false ∧ isSpace 0x7D = false ∧ isSpace 0x22 = false := by decide
  rw [readValue, object, cons_append, skipSpace_cons brace.1, head?_cons, if_neg (by decide),
    if_pos rfl, tail_cons, append_assoc, singleton_append, map_map]
  -- Each member's text, with what it is read as.
  let items : List (Bytes × (Bytes × Doc)) :=
    members.map fun entry =>
      (Json.appendString entry.1 ++ 0x3A :: entry.2.1, (coerce entry.1, entry.2.2))
  have texts :
      members.map ((fun entry : Bytes × Bytes => Json.appendString entry.1 ++ 0x3A :: entry.2) ∘
      fun entry => (entry.1, entry.2.1)) = items.map Prod.fst := by
    rw [map_map]
    rfl
  have docs : members.map (fun entry => (coerce entry.1, entry.2.2)) = items.map Prod.snd := by
    rw [map_map]
    rfl
  rw [texts, docs, readList]
  cases members with
  | nil => rfl
  | cons first others =>
    have single : ∀ item ∈ items, ∀ rest, After rest →
        readMember (readValue depth) (item.1 ++ rest) = some (item.2, rest) := by
      intro item member rest follows
      obtain ⟨entry, inside, rfl⟩ := mem_map.mp member
      exact readMember_reads (each entry inside) entry.1 follows
    have enough : items.length ≤
        ([0x2C].intercalate (items.map Prod.fst) ++ 0x7D :: rest).length := by
      have commas := length_le_intercalate (items.map Prod.fst)
      rw [length_map] at commas
      rw [length_append, length_cons]
      omega
    have read := readItems_intercalate (readMember (readValue depth)) brace.2.1 (by decide)
      (fun _ c only => Or.inr (Or.inl (Option.some.inj only).symm)) items (by simp [items]) single
        rest _ enough
    have begun : expect 0x7D ([0x2C].intercalate (items.map Prod.fst) ++ 0x7D :: rest) = none := by
      obtain ⟨more, text⟩ : ∃ more, [0x2C].intercalate (items.map Prod.fst) = 0x22 :: more := by
        cases others <;> exact ⟨_, rfl⟩
      rw [text, cons_append]
      exact expect_other brace.2.2 (by decide) _
    rw [begun]
    simp only [read, Option.map_some]

end TrustedCourier.JsonDecode
