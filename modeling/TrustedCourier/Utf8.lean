import TrustedCourier.ByteStrings

/-!
# Reading bytes as UTF-8

Go reads a string as runes: at each position the shortest well-formed UTF-8
sequence, or else one ill-formed byte. Overlong forms, surrogates and values past
U+10FFFF are ill-formed. A rune is kept here as the bytes that spell it, which
determine it; the first of them fixes how many there are.
-/

namespace TrustedCourier.Utf8

open List

/-- A continuation byte. -/
def tail (b : UInt8) : Bool := 0x80 ≤ b && b ≤ 0xBF

/-- The bytes are one rune's UTF-8 encoding. -/
def wellFormed : Bytes → Bool
  | [a] => a ≤ 0x7F
  | [a, b] => 0xC2 ≤ a && a ≤ 0xDF && tail b
  | [a, b, c] =>
    tail c && ((a == 0xE0 && 0xA0 ≤ b && b ≤ 0xBF) || (a == 0xED && 0x80 ≤ b && b ≤ 0x9F) ||
      (((0xE1 ≤ a && a ≤ 0xEC) || a == 0xEE || a == 0xEF) && tail b))
  | [a, b, c, d] =>
    tail c && tail d &&
      ((a == 0xF0 && 0x90 ≤ b && b ≤ 0xBF) || (a == 0xF4 && 0x80 ≤ b && b ≤ 0x8F) ||
        (0xF1 ≤ a && a ≤ 0xF3 && tail b))
  | _ => false

/-- How many bytes a rune's encoding has, by its first byte. -/
def width (lead : UInt8) : Nat :=
  if lead ≤ 0x7F then 1 else if lead ≤ 0xDF then 2 else if lead ≤ 0xEF then 3 else 4

/-- What is read at one position. -/
inductive Sym where
  /-- A rune, by its encoding. -/
  | rune (encoding : Bytes) (formed : wellFormed encoding = true)
  /-- A byte that no rune's encoding accounts for. -/
  | bad (byte : UInt8)
deriving DecidableEq, Repr

/-- The bytes a reading was made from. -/
def Sym.bytes : Sym → Bytes
  | .rune encoding _ => encoding
  | .bad byte => [byte]

/-- The encoding of the rune, if one was read. -/
def Sym.rune? : Sym → Option Bytes
  | .rune encoding _ => some encoding
  | .bad _ => none

/-- `utf8.DecodeRune` on a string that starts with `lead`: the rune's encoding, or
the one byte it reports as an error. -/
def decodeRune (lead : UInt8) (rest : Bytes) : Sym :=
  let encoding := (lead :: rest).take (width lead)
  if formed : wellFormed encoding = true then .rune encoding formed else .bad lead

/-- The successive readings of a string, at most one for each unit of fuel. -/
def runesUpTo : Nat → Bytes → List Sym
  | 0, _ => []
  | _ + 1, [] => []
  | fuel + 1, lead :: rest =>
    let read := decodeRune lead rest
    read :: runesUpTo fuel ((lead :: rest).drop read.bytes.length)

/-- A string as runes and ill-formed bytes. Every reading takes at least one byte. -/
def runes (s : Bytes) : List Sym := runesUpTo s.length s

/-- `utf8.ValidString`. -/
def validString (s : Bytes) : Bool :=
  (runes s).all fun read => match read with
    | .rune _ _ => true
    | .bad _ => false

/-- The encoding of U+FFFD. -/
def replacement : Bytes := [0xEF, 0xBF, 0xBD]

/-- `utf8.AppendRune`. -/
def encodeRune (n : Nat) : Bytes :=
  if n < 0x80 then [n.toUInt8]
  else if n < 0x800 then [(0xC0 + n / 0x40).toUInt8, (0x80 + n % 0x40).toUInt8]
  else if (0xD800 ≤ n ∧ n < 0xE000) ∨ 0x10FFFF < n then replacement
  else if n < 0x10000 then
    [(0xE0 + n / 0x1000).toUInt8, (0x80 + n / 0x40 % 0x40).toUInt8, (0x80 + n % 0x40).toUInt8]
  else [(0xF0 + n / 0x40000).toUInt8, (0x80 + n / 0x1000 % 0x40).toUInt8,
    (0x80 + n / 0x40 % 0x40).toUInt8, (0x80 + n % 0x40).toUInt8]

/-! ## Laws -/

/-- The first byte of a rune's encoding fixes the encoding's length. -/
theorem wellFormed_width (lead : UInt8) (rest : Bytes) (formed : wellFormed (lead :: rest) = true) :
    (lead :: rest).length = width lead := by
  match rest, formed with
  | [], formed =>
    have ascii : lead ≤ 0x7F := by simpa [wellFormed] using formed
    simp [width, ascii]
  | [b], formed =>
    simp only [wellFormed, Bool.and_eq_true, decide_eq_true_eq, UInt8.le_iff_toNat_le] at formed
    simp only [width, UInt8.le_iff_toNat_le, UInt8.reduceToNat] at formed ⊢
    rw [if_neg (by omega), if_pos (by omega)]
    rfl
  | [b, c], formed =>
    simp only [wellFormed, Bool.and_eq_true, Bool.or_eq_true, beq_iff_eq, decide_eq_true_eq,
      UInt8.le_iff_toNat_le, ← UInt8.toNat_inj, UInt8.reduceToNat] at formed
    simp only [width, UInt8.le_iff_toNat_le, UInt8.reduceToNat]
    rw [if_neg (by omega), if_neg (by omega), if_pos (by omega)]
    rfl
  | [b, c, d], formed =>
    simp only [wellFormed, Bool.and_eq_true, Bool.or_eq_true, beq_iff_eq, decide_eq_true_eq,
      UInt8.le_iff_toNat_le, ← UInt8.toNat_inj, UInt8.reduceToNat] at formed
    simp only [width, UInt8.le_iff_toNat_le, UInt8.reduceToNat]
    rw [if_neg (by omega), if_neg (by omega), if_neg (by omega)]
    rfl

/-- A rune's encoding is not empty. -/
theorem wellFormed_ne_nil {encoding : Bytes} (formed : wellFormed encoding = true) :
    encoding ≠ [] := by
  rintro rfl
  cases formed

/-- A reading is made from the first bytes of the string, and from at least one. -/
theorem decodeRune_bytes (lead : UInt8) (rest : Bytes) :
    ∃ more, lead :: rest = (decodeRune lead rest).bytes ++ more ∧
      more = (lead :: rest).drop (decodeRune lead rest).bytes.length ∧
      0 < (decodeRune lead rest).bytes.length := by
  unfold decodeRune
  simp only
  split
  · next formed =>
    have nonempty := length_pos_iff.mpr (wellFormed_ne_nil formed)
    refine ⟨(lead :: rest).drop (width lead), ?_, ?_, nonempty⟩
    · exact (take_append_drop _ _).symm
    · simp only [Sym.bytes, length_take]
      rcases Nat.le_total (width lead) (lead :: rest).length with fits | short
      · rw [Nat.min_eq_left fits]
      · rw [Nat.min_eq_right short, drop_length, drop_of_length_le short]
  · exact ⟨rest, rfl, rfl, Nat.one_pos⟩

/-- A rune's encoding is read as the rune, whatever follows it. -/
theorem decodeRune_formed {lead : UInt8} {more : Bytes} (formed : wellFormed (lead :: more) = true)
    (rest : Bytes) :
    decodeRune lead (more ++ rest) = .rune (lead :: more) formed := by
  have whole : (lead :: (more ++ rest)).take (width lead) = lead :: more := by
    rw [← cons_append, ← wellFormed_width lead more formed, take_left]
  simp only [decodeRune, whole, dif_pos formed]

/-- Fuel beyond the string's length reads nothing more. -/
theorem runesUpTo_enough (fuel : Nat) (s : Bytes) (enough : s.length ≤ fuel) :
    runesUpTo fuel s = runes s := by
  have general : ∀ (first second : Nat) (s : Bytes), s.length ≤ first → s.length ≤ second →
      runesUpTo first s = runesUpTo second s := by
    intro first
    induction first with
    | zero =>
      intro second s short _
      obtain rfl := length_eq_zero_iff.mp (Nat.le_zero.mp short)
      cases second <;> rfl
    | succ first ih =>
      intro second s long enough
      cases s with
      | nil => cases second <;> rfl
      | cons lead rest =>
        cases second with
        | zero => simp at enough
        | succ second =>
          obtain ⟨_, _, _, positive⟩ := decodeRune_bytes lead rest
          simp only [length_cons] at long enough
          simp only [runesUpTo]
          rw [ih second _ (by simp only [length_drop, length_cons]; omega)
            (by simp only [length_drop, length_cons]; omega)]
  exact general fuel s.length s enough (Nat.le_refl _)

/-- The first reading, then those of what it leaves. -/
theorem runes_cons (lead : UInt8) (rest : Bytes) :
    runes (lead :: rest) = decodeRune lead rest ::
      runes ((lead :: rest).drop (decodeRune lead rest).bytes.length) := by
  obtain ⟨_, _, _, positive⟩ := decodeRune_bytes lead rest
  have unfolded : runes (lead :: rest) = decodeRune lead rest :: runesUpTo rest.length
      ((lead :: rest).drop (decodeRune lead rest).bytes.length) := rfl
  rw [unfolded, runesUpTo_enough]
  simp only [length_drop, length_cons]
  omega

/-- Runes that are written one after another are read one after another. -/
theorem runes_flatMap {α : Type} {f : α → Bytes} (formed : ∀ a, wellFormed (f a) = true)
    (l : List α) :
    runes (l.flatMap f) = l.map fun a => .rune (f a) (formed a) := by
  induction l with
  | nil => rfl
  | cons a rest ih =>
    obtain ⟨lead, more, text⟩ := exists_cons_of_ne_nil (wellFormed_ne_nil (formed a))
    have whole : wellFormed (lead :: more) = true := text ▸ formed a
    have same : Sym.rune (lead :: more) whole = .rune (f a) (formed a) := by simp only [text]
    rw [flatMap_cons, map_cons, ← ih, ← same, text, cons_append, runes_cons,
      decodeRune_formed whole, Sym.bytes, ← cons_append, drop_left]

/-- The readings lose no byte. -/
theorem runes_bytes (s : Bytes) : (runes s).flatMap Sym.bytes = s := by
  induction length : s.length using Nat.strongRecOn generalizing s with
  | ind n ih =>
    cases s with
    | nil => rfl
    | cons lead rest =>
      obtain ⟨more, split, dropped, positive⟩ := decodeRune_bytes lead rest
      rw [runes_cons, flatMap_cons, ← dropped, ih more.length ?_ more rfl, ← split]
      rw [← length, dropped, length_drop, length_cons]
      omega

/-- In a valid string every reading is a rune. -/
theorem validString_iff (s : Bytes) :
    validString s = true ↔ ∀ read ∈ runes s, ∃ encoding formed, read = .rune encoding formed := by
  unfold validString
  rw [all_eq_true]
  constructor
  · intro valid read member
    have accepted := valid read member
    cases read with
    | rune encoding formed => exact ⟨encoding, formed, rfl⟩
    | bad byte => cases accepted
  · intro valid read member
    obtain ⟨encoding, formed, rfl⟩ := valid read member
    rfl

/-- A byte of ASCII is a rune by itself. -/
theorem decodeRune_ascii {lead : UInt8} (ascii : lead < 0x80) (rest : Bytes) :
    ∃ formed, decodeRune lead rest = .rune [lead] formed := by
  have low : lead ≤ 0x7F := by
    rw [UInt8.lt_iff_toNat_lt] at ascii
    rw [UInt8.le_iff_toNat_le]
    exact Nat.le_of_lt_succ ascii
  have single : width lead = 1 := by simp [width, low]
  have formed : wellFormed [lead] = true := by simpa [wellFormed] using low
  exact ⟨formed, by simp [decodeRune, single, formed]⟩

/-- A string of ASCII bytes is valid. -/
theorem validString_ascii (s : Bytes) (ascii : ∀ c ∈ s, c < 0x80) : validString s = true := by
  induction s with
  | nil => rfl
  | cons lead rest ih =>
    obtain ⟨formed, read⟩ := decodeRune_ascii (ascii lead mem_cons_self) rest
    have later := ih fun c member => ascii c (mem_cons_of_mem lead member)
    rw [validString, runes_cons, read, all_cons, Bool.true_and]
    exact later

/-- No byte of ASCII is ill-formed. -/
theorem bad_not_ascii {byte : UInt8} {s : Bytes} (member : .bad byte ∈ runes s) :
    ¬ byte < 0x80 := by
  induction length : s.length using Nat.strongRecOn generalizing s with
  | ind n ih =>
    cases s with
    | nil => exact absurd member not_mem_nil
    | cons lead rest =>
      obtain ⟨_, _, _, positive⟩ := decodeRune_bytes lead rest
      rw [runes_cons] at member
      rcases mem_cons.mp member with here | later
      · intro ascii
        have same : lead = byte := by
          unfold decodeRune at here
          dsimp only at here
          split at here
          · cases here
          · exact (Sym.bad.inj here).symm
        obtain ⟨formed, read⟩ := decodeRune_ascii (same ▸ ascii) rest
        cases here.trans read
      · refine ih _ ?_ later rfl
        rw [← length, length_drop, length_cons]
        omega

/-! ## Letter case -/

/-- A rune in lower case, as its encoding, given those beyond ASCII. An
ill-formed byte reads as the replacement character. -/
def lowerRune (lower : Bytes → Bytes) : Sym → Bytes
  | .rune [c] _ => [if 0x41 ≤ c && c ≤ 0x5A then c + 0x20 else c]
  | .rune encoding _ => lower encoding
  | .bad _ => [0xEF, 0xBF, 0xBD]

/-- A text rune by rune, without regard to letter case. -/
def caseless (lower : Bytes → Bytes) (s : Bytes) : List Bytes := (runes s).map (lowerRune lower)

/-- `strings.ToLower`. -/
def toLower (lower : Bytes → Bytes) (s : Bytes) : Bytes := (caseless lower s).flatten

/-- `strings.EqualFold`, given for each rune beyond ASCII one of those that differ from it
in letter case only: the lower case letter of ASCII, if it is among them. -/
def equalFold (fold : Bytes → Bytes) (s t : Bytes) : Bool := caseless fold s == caseless fold t

theorem equalFold_refl (fold : Bytes → Bytes) (s : Bytes) : equalFold fold s s = true :=
  beq_self_eq_true _

/-- A text that is in another in some letter case is in it when both are in lower case. -/
theorem toLower_within {lower : Bytes → Bytes} {needle name : Bytes}
    (inside : caseless lower needle <:+: caseless lower name) :
    toLower lower needle <:+: toLower lower name := by
  obtain ⟨before, after, same⟩ := inside
  exact ⟨before.flatten, after.flatten, by rw [toLower, toLower, ← same, flatten_append,
    flatten_append]⟩

variable {c : UInt8}

/-- A byte of ASCII in a rune's encoding is the whole of it. -/
theorem wellFormed_ascii {encoding : Bytes} (formed : wellFormed encoding = true) (ascii : c < 0x80)
    (member : c ∈ encoding) : encoding = [c] := by
  have low : c.toNat < 128 := by simpa [UInt8.lt_iff_toNat_lt] using ascii
  match encoding, formed with
  | [a], _ => rw [mem_singleton.mp member]
  | [a, b], formed =>
    simp only [wellFormed, tail, Bool.and_eq_true, decide_eq_true_eq, UInt8.le_iff_toNat_le,
      UInt8.reduceToNat] at formed
    simp only [mem_cons, not_mem_nil, or_false, ← UInt8.toNat_inj] at member
    omega
  | [a, b, d], formed | [a, b, d, e], formed =>
    simp only [wellFormed, tail, Bool.and_eq_true, Bool.or_eq_true, beq_iff_eq, decide_eq_true_eq,
      UInt8.le_iff_toNat_le, ← UInt8.toNat_inj, UInt8.reduceToNat] at formed
    simp only [mem_cons, not_mem_nil, or_false, ← UInt8.toNat_inj] at member
    omega

/-- A byte of ASCII does not complete what stands before it. -/
theorem decodeRune_append_ascii (lead : UInt8) (rest : Bytes) (ascii : c < 0x80) (back : Bytes) :
    decodeRune lead (rest ++ c :: back) = decodeRune lead rest := by
  rcases Nat.lt_or_ge (lead :: rest).length (width lead) with short | fits
  · have alone : wellFormed ((lead :: rest).take (width lead)) ≠ true := by
      intro formed
      rw [take_of_length_le (Nat.le_of_lt short)] at formed
      have exact := wellFormed_width lead rest formed
      omega
    have continued : wellFormed ((lead :: (rest ++ c :: back)).take (width lead)) ≠ true := by
      intro formed
      have here : ((lead :: (rest ++ c :: back)).take (width lead))[(lead :: rest).length]? =
          some c := by
        rw [getElem?_take_of_lt short, ← cons_append, getElem?_append_right (Nat.le_refl _),
          Nat.sub_self]
        rfl
      have only := wellFormed_ascii formed ascii (mem_of_getElem? here)
      rw [only, length_cons, getElem?_cons_succ, getElem?_nil] at here
      cases here
    simp only [decodeRune, dif_neg alone, dif_neg continued]
  · have same : (lead :: (rest ++ c :: back)).take (width lead) =
        (lead :: rest).take (width lead) := by
      rw [← cons_append, take_append_of_le_length fits]
    simp only [decodeRune, same]

/-- What stands before a byte of ASCII is read on its own. -/
theorem runes_append_ascii (front : Bytes) (ascii : c < 0x80) (back : Bytes) :
    runes (front ++ c :: back) = runes front ++ runes (c :: back) := by
  induction length : front.length using Nat.strongRecOn generalizing front with
  | ind n ih =>
    cases front with
    | nil => rfl
    | cons lead rest =>
      obtain ⟨more, split, dropped, positive⟩ := decodeRune_bytes lead rest
      have inside : (decodeRune lead rest).bytes.length ≤ (lead :: rest).length := by
        rw [split, length_append]
        omega
      have shorter : more.length < n := by
        rw [← length, dropped, length_drop, length_cons]
        omega
      rw [cons_append, runes_cons, runes_cons, decodeRune_append_ascii lead rest ascii,
        ← cons_append,
        drop_append_of_le_length inside, ← dropped, ih more.length shorter more rfl, cons_append]

/-- A string is valid if it is on both sides of a byte of ASCII. -/
theorem validString_append_ascii (front : Bytes) (ascii : c < 0x80) (back : Bytes) :
    validString (front ++ c :: back) = (validString front && validString back) := by
  obtain ⟨formed, read⟩ := decodeRune_ascii ascii back
  have after : runes (c :: back) = .rune [c] formed :: runes back := by
    rw [runes_cons, read]
    rfl
  simp only [validString, runes_append_ascii front ascii, after, all_append, all_cons,
    Bool.true_and]

/-- A joined string is valid if its pieces are. -/
theorem validString_intercalate (ascii : c < 0x80) (pieces : List Bytes) :
    validString ([c].intercalate pieces) = pieces.all validString := by
  induction pieces with
  | nil => rfl
  | cons first rest ih =>
    cases rest with
    | nil => simp
    | cons second others =>
      rw [intercalate_cons_cons, append_assoc, singleton_append,
        validString_append_ascii _ ascii, ih]
      rfl

/-- A byte of ASCII is read as a rune, wherever it stands. -/
theorem ascii_mem_runes {s : Bytes} (ascii : c < 0x80) (member : c ∈ s) :
    ∃ formed, Sym.rune [c] formed ∈ runes s := by
  rw [← runes_bytes s] at member
  obtain ⟨read, reads, inside⟩ := mem_flatMap.mp member
  cases read with
  | rune encoding formed =>
    obtain rfl := wellFormed_ascii formed ascii inside
    exact ⟨formed, reads⟩
  | bad byte =>
    obtain rfl := mem_singleton.mp inside
    exact absurd ascii (bad_not_ascii reads)

/-- Texts that are equal without regard to case share the signs of ASCII that have none. -/
theorem equalFold_mem {fold : Bytes → Bytes} {s t : Bytes} (same : equalFold fold s t = true)
    (ascii : c < 0x80) (caseless_ : ¬ (0x41 ≤ c ∧ c ≤ 0x5A)) (member : c ∈ s) :
    [c] ∈ caseless fold t := by
  obtain ⟨formed, reads⟩ := ascii_mem_runes ascii member
  rw [← beq_iff_eq.mp same]
  refine mem_map.mpr ⟨_, reads, ?_⟩
  simp [lowerRune, caseless_]

end TrustedCourier.Utf8
