import TrustedCourier.ByteStrings

/-!
# Standard base64

Three bytes are four digits of six bits. The last group is padded with `=`. Decoding
passes over line ends wherever they stand, wants complete padding at the end and
nothing after it, and does not look at the bits that padding leaves over.
-/

namespace TrustedCourier.Base64

/-- The digit for six bits. -/
def digit (n : UInt8) : UInt8 :=
  if n < 26 then 0x41 + n
  else if n < 52 then 0x61 + (n - 26)
  else if n < 62 then 0x30 + (n - 52)
  else if n = 62 then 0x2B
  else 0x2F

/-- The six bits of a digit. -/
def sextet (c : UInt8) : Option UInt8 :=
  if 0x41 ≤ c ∧ c ≤ 0x5A then some (c - 0x41)
  else if 0x61 ≤ c ∧ c ≤ 0x7A then some (c - 0x61 + 26)
  else if 0x30 ≤ c ∧ c ≤ 0x39 then some (c - 0x30 + 52)
  else if c = 0x2B then some 62
  else if c = 0x2F then some 63
  else none

/-- `base64.StdEncoding.EncodeToString`. -/
def encodeToString : Bytes → Bytes
  | [] => []
  | [a] => [digit (a / 4), digit (a % 4 * 16), 0x3D, 0x3D]
  | [a, b] => [digit (a / 4), digit (a % 4 * 16 + b / 16), digit (b % 16 * 4), 0x3D]
  | a :: b :: c :: rest =>
    digit (a / 4) :: digit (a % 4 * 16 + b / 16) :: digit (b % 16 * 4 + c / 64) :: digit (c % 64) ::
      encodeToString rest

/-- Groups of four digits, the last one perhaps padded. -/
def decodeQuanta : Bytes → Option Bytes
  | [] => some []
  | p :: q :: r :: s :: rest =>
    if s = 0x3D then
      if rest ≠ [] then none
      else if r = 0x3D then
        match sextet p, sextet q with
        | some i, some j => some [i * 4 + j / 16]
        | _, _ => none
      else
        match sextet p, sextet q, sextet r with
        | some i, some j, some k => some [i * 4 + j / 16, j % 16 * 16 + k / 4]
        | _, _, _ => none
    else
      match sextet p, sextet q, sextet r, sextet s with
      | some i, some j, some k, some l =>
        (decodeQuanta rest).map fun tail => (i * 4 + j / 16) :: (j % 16 * 16 + k / 4) ::
          (k % 4 * 64 + l) :: tail
      | _, _, _, _ => none
  | _ => none

/-- `base64.StdEncoding.DecodeString`. -/
def decodeString (s : Bytes) : Option Bytes := decodeQuanta (s.filter fun c => c ≠ 0x0A ∧ c ≠ 0x0D)

/-! ## Round trip -/

/-- A digit is none of the bytes that decoding treats apart, and reads back. -/
theorem digit_spec : ∀ n : UInt8, n < 64 →
    sextet (digit n) = some n ∧ digit n ≠ 0x3D ∧ digit n ≠ 0x0A ∧ digit n ≠ 0x0D := by
  decide +kernel

/-- The pieces three bytes are cut into have six bits each, and give the bytes back. -/
theorem sextets_join (a b c : UInt8) :
    (a / 4 < 64 ∧ a % 4 * 16 + b / 16 < 64 ∧ b % 16 * 4 + c / 64 < 64 ∧ c % 64 < 64) ∧
      a / 4 * 4 + (a % 4 * 16 + b / 16) / 16 = a ∧
      (a % 4 * 16 + b / 16) % 16 * 16 + (b % 16 * 4 + c / 64) / 4 = b ∧
      (b % 16 * 4 + c / 64) % 4 * 64 + c % 64 = c := by
  have first := a.toNat_lt
  have second := b.toNat_lt
  have third := c.toNat_lt
  simp only [UInt8.lt_iff_toNat_lt, ← UInt8.toNat_inj, UInt8.toNat_add, UInt8.toNat_mul,
    UInt8.toNat_div, UInt8.toNat_mod, UInt8.reduceToNat]
  omega

/-- So have the pieces two bytes are cut into, -/
theorem sextets_join_two (a b : UInt8) :
    (a / 4 < 64 ∧ a % 4 * 16 + b / 16 < 64 ∧ b % 16 * 4 < 64) ∧
      a / 4 * 4 + (a % 4 * 16 + b / 16) / 16 = a ∧
      (a % 4 * 16 + b / 16) % 16 * 16 + b % 16 * 4 / 4 = b := by
  obtain ⟨⟨first, second, third, _⟩, whole, wholeNext, _⟩ := sextets_join a b 0
  have nothing : b % 16 * 4 + 0 / 64 = b % 16 * 4 := by simp
  rw [nothing] at third wholeNext
  exact ⟨⟨first, second, third⟩, whole, wholeNext⟩

/-- and those of one. -/
theorem sextets_join_one (a : UInt8) : (a / 4 < 64 ∧ a % 4 * 16 < 64) ∧
    a / 4 * 4 + a % 4 * 16 / 16 = a := by
  obtain ⟨⟨first, second, _⟩, whole, _⟩ := sextets_join_two a 0
  have nothing : a % 4 * 16 + 0 / 16 = a % 4 * 16 := by simp
  rw [nothing] at second whole
  exact ⟨⟨first, second⟩, whole⟩

/-- A byte that an encoded text may hold. -/
def Digit (c : UInt8) : Prop := (sextet c).isSome = true ∨ c = 0x3D

/-- A text is encoded in digits and padding. -/
theorem encodeToString_digits (s : Bytes) : ∀ c ∈ encodeToString s, Digit c := by
  have made (n : UInt8) (small : n < 64) : Digit (digit n) :=
    Or.inl (by rw [(digit_spec n small).1]; rfl)
  have padding : Digit 0x3D := Or.inr rfl
  induction s using encodeToString.induct with
  | case1 => simp [encodeToString]
  | case2 a =>
    obtain ⟨⟨first, second⟩, _⟩ := sextets_join_one a
    simpa [encodeToString] using ⟨made _ first, made _ second, padding⟩
  | case3 a b =>
    obtain ⟨⟨first, second, third⟩, _⟩ := sextets_join_two a b
    simpa [encodeToString] using ⟨made _ first, made _ second, made _ third, padding⟩
  | case4 a b c rest ih =>
    obtain ⟨⟨first, second, third, fourth⟩, _⟩ := sextets_join a b c
    rw [encodeToString]
    simp only [List.forall_mem_cons]
    exact ⟨made _ first, made _ second, made _ third, made _ fourth, ih⟩

/-- The digits of a text hold no line end. -/
theorem encodeToString_lineless (s : Bytes) : ∀ c ∈ encodeToString s, c ≠ 0x0A ∧ c ≠ 0x0D := by
  intro c member
  constructor
  · rintro rfl
    exact absurd (encodeToString_digits s _ member) (by simp [Digit, sextet])
  · rintro rfl
    exact absurd (encodeToString_digits s _ member) (by simp [Digit, sextet])

/-- What was encoded is decoded. -/
theorem decodeString_encodeToString (s : Bytes) : decodeString (encodeToString s) = some s := by
  have lines : (encodeToString s).filter (fun c => c ≠ 0x0A ∧ c ≠ 0x0D) = encodeToString s :=
    List.filter_eq_self.mpr fun c member => decide_eq_true (encodeToString_lineless s c member)
  rw [decodeString, lines]
  clear lines
  induction s using encodeToString.induct with
  | case1 => rfl
  | case2 a =>
    obtain ⟨⟨first, second⟩, whole⟩ := sextets_join_one a
    simp [encodeToString, decodeQuanta, digit_spec _ first, digit_spec _ second, whole]
  | case3 a b =>
    obtain ⟨⟨first, second, third⟩, whole, wholeNext⟩ := sextets_join_two a b
    simp [encodeToString, decodeQuanta, digit_spec _ first, digit_spec _ second, digit_spec _ third,
      whole, wholeNext]
  | case4 a b c rest ih =>
    obtain ⟨⟨first, second, third, fourth⟩, whole, wholeNext, wholeLast⟩ := sextets_join a b c
    simp [encodeToString, decodeQuanta, digit_spec _ first, digit_spec _ second, digit_spec _ third,
      digit_spec _ fourth, whole, wholeNext, wholeLast, ih]

/-- What is decoded holds digits, padding and line ends only. -/
theorem digits_of_decodeString {s decoded : Bytes} (decodes : decodeString s = some decoded) :
    ∀ c ∈ s, Digit c ∨ c = 0x0A ∨ c = 0x0D := by
  have quanta (digits : Bytes) (out : Bytes) (decodes : decodeQuanta digits = some out) :
      ∀ c ∈ digits, Digit c := by
    fun_induction decodeQuanta digits generalizing out with
    | case7 p q r s rest unpadded i j k l first second third fourth ih =>
      obtain ⟨tail, later, _⟩ := Option.map_eq_some_iff.mp decodes
      have known (c n : UInt8) (reads : sextet c = some n) : Digit c := Or.inl (by rw [reads]; rfl)
      simp only [List.forall_mem_cons]
      exact ⟨known p i fourth, known q j third, known r k second, known s l first, ih tail later⟩
    | _ => simp_all [Digit]
  intro c member
  by_cases line : c = 0x0A ∨ c = 0x0D
  · exact Or.inr line
  · refine Or.inl (quanta _ decoded decodes c (List.mem_filter.mpr ⟨member, ?_⟩))
    simpa [not_or] using line

end TrustedCourier.Base64
