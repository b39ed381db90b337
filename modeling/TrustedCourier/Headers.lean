import TrustedCourier.ByteStrings

/-!
# Header maps

An `http.Header` holds a list of values under each key, and an absent key holds none.
Reading, setting and deleting go by the canonical form of a name, in which each word
between dashes starts with a capital; a name that is no field name is its own
canonical form.
-/

namespace TrustedCourier

/-- An `http.Header`. -/
abbrev Header := Bytes → List Bytes

namespace Headers

/-- A byte of a field name. -/
def validHeaderFieldByte (c : UInt8) : Bool :=
  (0x30 ≤ c && c ≤ 0x39) || (0x41 ≤ c && c ≤ 0x5A) || (0x61 ≤ c && c ≤ 0x7A) ||
    (bytes "!#$%&'*+.^_|~-").contains c || c == 0x60

/-- A letter in the case its place in the name asks for. -/
def cased (upper : Bool) (c : UInt8) : UInt8 :=
  if upper && 0x61 ≤ c && c ≤ 0x7A then c - 0x20
  else if !upper && 0x41 ≤ c && c ≤ 0x5A then c + 0x20
  else c

/-- The loop of `canonicalMIMEHeaderKey`: a capital at the start and after each dash. -/
def capitalize : Bool → Bytes → Bytes
  | _, [] => []
  | upper, c :: rest => cased upper c :: capitalize (c == 0x2D) rest

/-- `http.CanonicalHeaderKey`. -/
def canonicalHeaderKey (s : Bytes) : Bytes :=
  if s.all validHeaderFieldByte then capitalize true s else s

/-- A case change keeps a byte of a field name one, and is made once. -/
theorem cased_spec : ∀ (c : UInt8) (upper : Bool),
    validHeaderFieldByte (cased upper c) = validHeaderFieldByte c ∧
      cased upper (cased upper c) = cased upper c ∧
      (cased upper c == 0x2D) = (c == 0x2D) := by
  decide +kernel

theorem capitalize_valid (upper : Bool) (s : Bytes) :
    (capitalize upper s).all validHeaderFieldByte = s.all validHeaderFieldByte := by
  induction s generalizing upper with
  | nil => rfl
  | cons c rest ih => rw [capitalize, List.all_cons, List.all_cons, ih, (cased_spec c upper).1]

theorem capitalize_capitalize (upper : Bool) (s : Bytes) :
    capitalize upper (capitalize upper s) = capitalize upper s := by
  induction s generalizing upper with
  | nil => rfl
  | cons c rest ih =>
    obtain ⟨_, settled, dash⟩ := cased_spec c upper
    rw [capitalize, capitalize, settled, dash, ih]

/-- A canonical form is its own. -/
theorem canonicalHeaderKey_canonical (s : Bytes) :
    canonicalHeaderKey (canonicalHeaderKey s) = canonicalHeaderKey s := by
  unfold canonicalHeaderKey
  split
  · next valid => rw [capitalize_valid, if_pos valid, capitalize_capitalize]
  · rfl

/-- Only the empty name has an empty canonical form. -/
theorem canonicalHeaderKey_eq_nil {s : Bytes} : canonicalHeaderKey s = [] ↔ s = [] := by
  unfold canonicalHeaderKey
  split
  · cases s <;> simp [capitalize]
  · rfl

/-- A canonical form is a field name if the name is one. -/
theorem canonicalHeaderKey_valid (s : Bytes) :
    (canonicalHeaderKey s).all validHeaderFieldByte = s.all validHeaderFieldByte := by
  unfold canonicalHeaderKey
  split
  · exact capitalize_valid true s
  · rfl

end Headers

namespace Header

open Headers

/-- `Header.Values`. -/
def values (h : Header) (key : Bytes) : List Bytes := h (canonicalHeaderKey key)

/-- `Header.Get`. -/
def get (h : Header) (key : Bytes) : Bytes := (h.values key).headD []

/-- `Header.Set`. -/
def set (h : Header) (key value : Bytes) : Header :=
  fun k => if k = canonicalHeaderKey key then [value] else h k

/-- `Header.Del`. -/
def del (h : Header) (key : Bytes) : Header :=
  fun k => if k = canonicalHeaderKey key then [] else h k

end Header

end TrustedCourier
