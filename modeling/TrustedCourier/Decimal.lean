import TrustedCourier.ByteStrings
import TrustedCourier.Framing

/-!
# Integers in decimal

`strconv.AppendInt` and the zero-padded numbers of Go's time package. A number is
settled by its digits before anything that is not a digit, whatever its padding.
-/

namespace TrustedCourier.Decimal

open List

/-- A decimal digit. -/
def isDigit (c : UInt8) : Bool := 0x30 ≤ c && c ≤ 0x39

/-- The decimal digits of a number, the most significant first. -/
def digits (n : Nat) : Bytes := (Nat.toDigits 10 n).map fun c => c.toNat.toUInt8

/-- A number with zeros in front, up to a width. -/
def padded (width n : Nat) : Bytes := List.replicate (width - (digits n).length) 0x30 ++ digits n

/-- An integer with its sign, padded after it. -/
def signed (width : Nat) (n : Int) : Bytes :=
  if n < 0 then 0x2D :: padded width n.natAbs else padded width n.natAbs

/-- What digits stand for. -/
def value (text : Bytes) : Nat := text.foldl (fun sum c => 10 * sum + (c.toNat - 48)) 0

/-- What may follow a number. -/
def Follows (rest : Bytes) : Prop := ∀ c ∈ rest.head?, isDigit c = false

/-- A digit's byte is its character. -/
theorem digit_byte {c : Char} (digit : c.isDigit = true) :
    c.toNat.toUInt8.toNat = c.toNat ∧ isDigit c.toNat.toUInt8 = true := by
  simp only [Char.isDigit, Bool.and_eq_true, decide_eq_true_eq, ge_iff_le,
    UInt32.le_iff_toNat_le] at digit
  have low : 48 ≤ c.toNat := digit.1
  have high : c.toNat ≤ 57 := digit.2
  have kept : c.toNat.toUInt8.toNat = c.toNat := by
    rw [Nat.toUInt8, UInt8.toNat_ofNat']
    omega
  refine ⟨kept, ?_⟩
  simp only [isDigit, Bool.and_eq_true, decide_eq_true_eq, UInt8.le_iff_toNat_le, kept,
    UInt8.reduceToNat]
  omega

theorem digits_isDigit (n : Nat) : ∀ c ∈ digits n, isDigit c = true := by
  intro c member
  obtain ⟨digit, inside, rfl⟩ := mem_map.mp member
  exact (digit_byte (Nat.isDigit_of_mem_toDigits (by decide) (by decide) inside)).2

variable (width : Nat)

theorem padded_isDigit (n : Nat) : ∀ c ∈ padded width n, isDigit c = true := by
  intro c member
  rcases mem_append.mp member with zero | digit
  · rw [eq_of_mem_replicate zero]
    decide
  · exact digits_isDigit n c digit

/-- Digits have their number's value. -/
theorem value_digits (n : Nat) : value (digits n) = n := by
  have same : ∀ (text : List Char) (sum : Nat), (∀ c ∈ text, c.isDigit = true) →
      (text.map fun c => c.toNat.toUInt8).foldl (fun sum c => 10 * sum + (c.toNat - 48)) sum =
        Nat.ofDigitChars 10 text sum := by
    intro text
    induction text with
    | nil => intro sum _; rfl
    | cons c rest ih =>
      intro sum digit
      rw [map_cons, foldl_cons, (digit_byte (digit c mem_cons_self)).1,
        ih _ fun other member => digit other (mem_cons_of_mem c member)]
      rfl
  rw [value, digits, same _ 0 fun c member => Nat.isDigit_of_mem_toDigits (by decide) (by decide)
    member, Nat.ofDigitChars_toDigits (by decide) (by decide)]

/-- Padding does not change what a number stands for. -/
theorem value_padded (n : Nat) : value (padded width n) = n := by
  have zeros : ∀ k, (List.replicate k (0x30 : UInt8)).foldl (fun sum c => 10 * sum + (c.toNat - 48))
      0 = 0 := by
    intro k
    induction k with
    | zero => rfl
    | succ k ih => simpa [replicate_succ] using ih
  rw [value, padded, foldl_append, zeros]
  exact value_digits n

/-- A padded number is settled before anything that is not a digit. -/
theorem padded_framed : Framed Follows (padded width) id := by
  apply (Framed.run isDigit (padded_isDigit width)).map
  intro a b same
  rw [id, id, ← value_padded width a, same, value_padded]

/-- Numbers have digits. -/
theorem padded_ne_nil (n : Nat) : padded width n ≠ [] := by
  simp [padded, digits, Nat.toDigits_ne_nil]

/-- A signed number is settled before anything that is not a digit: a minus sign is
not a digit, so the sign is settled first. -/
theorem signed_framed : Framed Follows (signed width) id := by
  have unsigned : ∀ (n : Nat) (rest others : Bytes), padded width n ++ rest ≠ 0x2D :: others := by
    intro n rest others same
    obtain ⟨c, more, text⟩ := exists_cons_of_ne_nil (padded_ne_nil width n)
    have digit := padded_isDigit width n c (by rw [text]; exact mem_cons_self)
    rw [text, cons_append] at same
    rw [(List.cons.inj same).1] at digit
    exact absurd digit (by decide)
  intro a b rest others first second same
  have magnitude := padded_framed width a.natAbs b.natAbs rest others first second
  unfold signed at same
  split at same <;> split at same
  · obtain ⟨size, tails⟩ := magnitude (List.cons.inj same).2
    exact ⟨by simp only [id] at size ⊢; omega, tails⟩
  · exact absurd same.symm (unsigned _ _ _)
  · exact absurd same (unsigned _ _ _)
  · obtain ⟨size, tails⟩ := magnitude same
    exact ⟨by simp only [id] at size ⊢; omega, tails⟩

/-- The bytes of a signed number are a sign and digits. -/
theorem signed_bytes (n : Int) : ∀ c ∈ signed width n, c = 0x2D ∨ isDigit c = true := by
  intro c member
  unfold signed at member
  split at member
  · rcases mem_cons.mp member with sign | digit
    · exact Or.inl sign
    · exact Or.inr (padded_isDigit width _ c digit)
  · exact Or.inr (padded_isDigit width _ c member)

end TrustedCourier.Decimal
