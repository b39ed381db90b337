import TrustedCourier.UrlEscapes
import TrustedCourier.Utf8

/-!
# Character data as Go's encoding/xml writes it

Texts are written with numbers or names for the signs that mark-up uses, which are read back
as those signs, and with U+FFFD for every ill-formed byte and every character that XML has no
place for. What is carried is the text with these replaced, so a text is carried as it is
exactly if it holds none of them.
-/

namespace TrustedCourier.Xml

open Utf8

/-- `isInCharacterRange`, of a rune by its encoding. -/
def inCharacterRange : Bytes → Bool
  | [c] => c == 0x09 || c == 0x0A || c == 0x0D || 0x20 ≤ c
  | [a, b, c] => !(a == 0xEF && b == 0xBF && (c == 0xBE || c == 0xBF))
  | _ => true

/-- What is carried of one reading of a text. -/
def carriedRune : Sym → Bytes
  | .bad _ => replacement
  | .rune encoding _ => if inCharacterRange encoding then encoding else replacement

/-- What is carried of a text. -/
def carried (s : Bytes) : Bytes := (runes s).flatMap carriedRune

/-! ## Texts that are carried as they are -/

/-- A well-formed text of characters that XML has a place for. -/
def Text (s : Bytes) : Prop := ∀ read ∈ runes s, ∃ encoding formed, read = .rune encoding formed ∧
    inCharacterRange encoding = true

theorem carried_of_text {s : Bytes} (text : Text s) : carried s = s := by
  conv_rhs => rw [← runes_bytes s]
  rw [carried]
  refine List.flatMap_congr fun read member => ?_
  obtain ⟨encoding, formed, rfl, inside⟩ := text read member
  exact if_pos inside

/-- What is carried is such a text. -/
theorem text_carried (s : Bytes) : Text (carried s) := by
  have placed : ∀ read : Sym, wellFormed (carriedRune read) = true ∧
      inCharacterRange (carriedRune read) = true := by
    intro read
    have replaced : wellFormed replacement = true ∧ inCharacterRange replacement = true := by decide
    cases read with
    | bad byte => exact replaced
    | rune encoding formed =>
      simp only [carriedRune]
      split
      · next inside => exact ⟨formed, inside⟩
      · exact replaced
  intro read member
  rw [carried, runes_flatMap fun read => (placed read).1] at member
  obtain ⟨other, _, rfl⟩ := List.mem_map.mp member
  exact ⟨_, _, rfl, (placed other).2⟩

/-- A sign of ASCII stands between two texts. -/
theorem text_append {c : UInt8} (ascii : c < 0x80) (inside : inCharacterRange [c] = true)
    (front back : Bytes) :
    Text (front ++ c :: back) ↔ Text front ∧ Text back := by
  obtain ⟨formed, read⟩ := decodeRune_ascii ascii back
  have after : runes (c :: back) = .rune [c] formed :: runes back := by
    rw [runes_cons, read]
    rfl
  rw [Text, runes_append_ascii front ascii, after, List.forall_mem_append, List.forall_mem_cons]
  exact ⟨fun both => ⟨both.1, both.2.2⟩, fun both => ⟨both.1, ⟨_, _, rfl, inside⟩, both.2⟩⟩

end TrustedCourier.Xml
