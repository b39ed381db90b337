import TrustedCourier.ByteStrings

/-!
# Percent-escapes

The unescaping and escaping of Go's url package on bytes. An invalid escape is
refused; any other byte stands for itself, except that a query component reads
`+` as a space. Reading an escape never crosses a byte that is neither `%` nor a
hexadecimal digit, so unescaping commutes with splitting at such a byte.
-/

namespace TrustedCourier.UrlEscapes

open List

/-- A hexadecimal digit of either case. -/
def ishex (c : UInt8) : Bool :=
  (0x30 ≤ c && c ≤ 0x39) || (0x61 ≤ c && c ≤ 0x66) || (0x41 ≤ c && c ≤ 0x46)

/-- The value of a hexadecimal digit. -/
def unhex (c : UInt8) : UInt8 :=
  if 0x30 ≤ c && c ≤ 0x39 then c - 0x30
  else if 0x61 ≤ c && c ≤ 0x66 then c - 0x61 + 10
  else if 0x41 ≤ c && c ≤ 0x46 then c - 0x41 + 10
  else 0

/-- The byte an unescaped `c` stands for. -/
def plain (query : Bool) (c : UInt8) : UInt8 := if query && c == 0x2B then 0x20 else c

/-- `unescape`, for a query component or a path segment. -/
def unescape (query : Bool) : Bytes → Option Bytes
  | [] => some []
  | c :: rest =>
    if c = 0x25 then
      match rest with
      | a :: b :: tail =>
        if ishex a && ishex b then (unescape query tail).map ((unhex a * 16 + unhex b) :: ·)
        else none
      | _ => none
    else (unescape query rest).map (plain query c :: ·)

/-- `url.PathUnescape`. -/
def pathUnescape (s : Bytes) : Option Bytes := unescape false s

/-- `url.QueryUnescape`. -/
def queryUnescape (s : Bytes) : Option Bytes := unescape true s

/-- The bytes a query component never escapes: letters, digits, `-`, `_`, `.`, `~`. -/
def unreserved (c : UInt8) : Bool :=
  (0x61 ≤ c && c ≤ 0x7A) || (0x41 ≤ c && c ≤ 0x5A) || (0x30 ≤ c && c ≤ 0x39) ||
    c == 0x2D || c == 0x5F || c == 0x2E || c == 0x7E

/-- The digits escapes are written with. -/
def upperhex (n : UInt8) : UInt8 := if n < 10 then 0x30 + n else 0x41 + (n - 10)

/-- How a query component spells one byte. -/
def escapeByte (c : UInt8) : Bytes :=
  if unreserved c then [c] else if c = 0x20 then [0x2B]
  else [0x25, upperhex (c / 16), upperhex (c % 16)]

/-- `url.QueryEscape`. -/
def queryEscape (s : Bytes) : Bytes := s.flatMap escapeByte

/-! ## Splitting and joining -/

variable (query : Bool)

@[simp] theorem unescape_nil : unescape query [] = some [] := rfl

/-- A byte other than `%` stands for itself. -/
theorem unescape_cons (c : UInt8) (rest : Bytes) (ordinary : c ≠ 0x25) :
    unescape query (c :: rest) = (unescape query rest).map (plain query c :: ·) := by
  rcases rest with _ | ⟨a, _ | ⟨b, tail⟩⟩ <;> simp [unescape, ordinary]

/-- A complete escape is read on its own, and refused unless it is hexadecimal. -/
theorem unescape_escape (a b : UInt8) (rest : Bytes) :
    unescape query (0x25 :: a :: b :: rest) =
      if ishex a && ishex b then (unescape query rest).map ((unhex a * 16 + unhex b) :: ·)
      else none := by
  simp [unescape]

/-- An escape that the string ends before completing is refused. -/
theorem unescape_short (rest : Bytes) (short : rest.length < 2) :
    unescape query (0x25 :: rest) = none := by
  rcases rest with _ | ⟨a, _ | ⟨b, tail⟩⟩
  · simp [unescape]
  · simp [unescape]
  · simp only [length_cons] at short
    omega

/-- What precedes a byte that can neither start nor continue an escape is unescaped
on its own, and so is what follows it. -/
theorem unescape_split (left right : Bytes) (c : UInt8) (ordinary : c ≠ 0x25)
    (digit : ishex c = false) :
    unescape query (left ++ c :: right) = (unescape query left).bind fun first =>
      (unescape query right).map fun second => first ++ plain query c :: second := by
  induction left using unescape.induct with
  | case1 => simp [unescape_cons query c right ordinary]
  | case2 a b tail hex ih =>
    simp only [cons_append, unescape_escape, hex, if_true, ih]
    cases unescape query tail <;> cases unescape query right <;> simp
  | case3 a b tail bad =>
    have refused : (ishex a && ishex b) = false := Bool.not_eq_true _ ▸ bad
    simp [unescape_escape, refused]
  | case4 rest short =>
    rcases rest with _ | ⟨a, _ | ⟨b, tail⟩⟩
    · rcases right with _ | ⟨d, more⟩ <;> simp [unescape_short, unescape_escape, digit]
    · simp [unescape_short, unescape_escape, digit]
    · exact absurd rfl (short a b tail)
  | case5 first rest other ih =>
    simp only [cons_append, unescape_cons query first _ other, ih]
    cases unescape query rest <;> cases unescape query right <;> simp

/-- What follows a string that can be unescaped is unescaped on its own. -/
theorem unescape_append {left first : Bytes} (read : unescape query left = some first)
    (right : Bytes) :
    unescape query (left ++ right) = (unescape query right).map (first ++ ·) := by
  induction left using unescape.induct generalizing first with
  | case1 =>
    cases read
    simp
  | case2 a b tail hex ih =>
    rw [unescape_escape, if_pos hex] at read
    obtain ⟨rest, later, rfl⟩ := Option.map_eq_some_iff.mp read
    rw [cons_append, cons_append, cons_append, unescape_escape, if_pos hex, ih later,
      Option.map_map]
    rfl
  | case3 a b tail bad =>
    rw [unescape_escape, if_neg bad] at read
    cases read
  | case4 rest short =>
    rcases rest with _ | ⟨a, _ | ⟨b, tail⟩⟩
    · exact absurd read (by simp [unescape_short])
    · exact absurd read (by simp [unescape_short])
    · exact absurd rfl (short a b tail)
  | case5 c rest other ih =>
    rw [unescape_cons query c rest other] at read
    obtain ⟨later, unescaped, rfl⟩ := Option.map_eq_some_iff.mp read
    rw [cons_append, unescape_cons query c _ other, ih unescaped, Option.map_map]
    rfl

/-- Unescaping a joined list of pieces joins the unescaped pieces. -/
theorem unescape_intercalate (c : UInt8) (ordinary : c ≠ 0x25) (digit : ishex c = false)
    (pieces : List Bytes) :
    unescape query ([c].intercalate pieces) =
      (pieces.mapM (unescape query)).map ([plain query c].intercalate ·) := by
  induction pieces with
  | nil => simp
  | cons first rest ih =>
    cases rest with
    | nil =>
      cases decoded : unescape query first <;> simp [decoded]
    | cons second others =>
      rw [intercalate_cons_cons, append_assoc, singleton_append,
        unescape_split query _ _ c ordinary digit, ih]
      cases decoded : unescape query first <;> cases next : unescape query second <;>
        cases tail : others.mapM (unescape query) <;>
        simp [decoded, next, tail, intercalate_cons_cons]

/-- Unescaping a string is unescaping the pieces between its separators. -/
theorem unescape_splitOn (c : UInt8) (ordinary : c ≠ 0x25) (digit : ishex c = false)
    (s : Bytes) :
    unescape query s = ((s.splitOn c).mapM (unescape query)).map
      ([plain query c].intercalate ·) := by
  have whole : [c].intercalate (s.splitOn c) = s := intercalate_splitOn c
  conv_lhs => rw [← whole]
  exact unescape_intercalate query c ordinary digit _

/-! ## Round trip -/

/-- The two digits that a byte is written with stand for it. -/
theorem upperhex_digits : ∀ c : UInt8, ishex (upperhex (c / 16)) = true ∧
    ishex (upperhex (c % 16)) = true ∧
    unhex (upperhex (c / 16)) * 16 + unhex (upperhex (c % 16)) = c := by decide +kernel

/-- Every escaped byte reads back as itself. -/
theorem unescape_escapeByte (c : UInt8) (rest : Bytes) :
    unescape true (escapeByte c ++ rest) = (unescape true rest).map (c :: ·) := by
  have kept : ∀ n : UInt8, unreserved n = true → n ≠ 0x25 ∧ plain true n = n := by decide +kernel
  unfold escapeByte
  split
  · next bare =>
    rw [singleton_append, unescape_cons true c rest (kept c bare).1, (kept c bare).2]
  · split
    · next space =>
      subst space
      rw [singleton_append, unescape_cons true _ rest (by decide)]
      rfl
    · obtain ⟨high, low, same⟩ := upperhex_digits c
      rw [cons_append, cons_append, cons_append, nil_append,
        unescape_escape, high, low, same]
      rfl

/-- A query component reads back as the bytes it was written from. -/
theorem queryUnescape_queryEscape (s : Bytes) : queryUnescape (queryEscape s) = some s := by
  induction s with
  | nil => rfl
  | cons c rest ih =>
    unfold queryUnescape queryEscape at ih ⊢
    rw [flatMap_cons, unescape_escapeByte, ih]
    rfl

end TrustedCourier.UrlEscapes
