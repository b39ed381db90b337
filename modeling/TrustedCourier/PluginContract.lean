import TrustedCourier.Checks
import TrustedCourier.Utf8

/-!
# What crosses the plugin boundary

The rules for the locations, the values, the answers and the environment of a Backend
Plugin. A text is shown to an Operator or written to a log at some point, so none may hold
a control character; one that is not checked is made to print by `sanitize`. The quoting
of names is a parameter, and so is how a name prints.
-/

namespace TrustedCourier.PluginContract

open Checks List

def maxLocationBytes : Nat := 1024

def maxValueBytes : Nat := 1048576

def maxListLength : Nat := 10000

def maxDetailBytes : Nat := 1024

def maxMessageBytes : Nat := 16777216

def maxErrorBytes : Nat := 512

def maxEnvNameBytes : Nat := 128

def maxEnvValueBytes : Nat := 4096

/-- A control character in well-formed UTF-8 stands at the start: one of ASCII, or one of
the second range, whose encodings begin with C2. -/
def startsControl : Bytes → Bool
  | [] => false
  | c :: rest =>
    c < 0x20 || c == 0x7F || (c == 0xC2 && rest.head?.any fun d => 0x80 ≤ d && d ≤ 0x9F)

/-- `strings.IndexFunc` with `unicode.IsControl`. -/
def controlAt (s : Bytes) : Option Nat :=
  (List.range s.length).find? fun i => startsControl (s.drop i)

/-- Neither invalid UTF-8 nor a control character. -/
def printable (what : String) (s : Bytes) : Except String Unit := do
  refuse (Utf8.validString s = false) (what ++ " is not valid UTF-8")
  match controlAt s with
  | some i => .error (what ++ " contains a control character at byte " ++ toString i)
  | none => .ok ()

/-- `contract.Location`. -/
def location (loc : Bytes) : Except String Unit := do
  refuse (loc = []) "location is empty"
  refuse (loc.length > maxLocationBytes)
    ("location is " ++ toString loc.length ++ " bytes, over the " ++ toString maxLocationBytes ++
      " byte limit")
  printable "location" loc

/-- `contract.Prefix`. -/
def prefixRule (start : Bytes) : Except String Unit := if start = [] then .ok () else location start

/-- `contract.Value`. -/
def value (v : Bytes) : Except String Unit := do
  refuse (v = []) "value is empty"
  refuse (v.length > maxValueBytes)
    ("value is " ++ toString v.length ++ " bytes, over the " ++ toString maxValueBytes ++
      " byte limit")

/-- The loop of `contract.List`, from the location numbered `i` on. -/
def listFrom (start : Bytes) : Nat → List Bytes → List Bytes → Except String Unit
  | _, _, [] => .ok ()
  | i, seen, loc :: rest => do
    (location loc).mapError fun err => "locations[" ++ toString i ++ "]: " ++ err
    refuse (start.isPrefixOf loc = false)
      ("locations[" ++ toString i ++ "] does not start with the requested prefix")
    refuse (seen.contains loc = true) ("locations[" ++ toString i ++ "] is listed more than once")
    listFrom start (i + 1) (loc :: seen) rest

/-- `contract.List`. -/
def list (start : Bytes) (locations : List Bytes) : Except String Unit := do
  refuse (locations.length > maxListLength)
    ("list has " ++ toString locations.length ++ " locations, over the " ++
      toString maxListLength ++ " limit")
  listFrom start 0 [] locations

/-- `contract.Detail`. -/
def detail (d : Bytes) : Except String Unit := do
  refuse (d.length > maxDetailBytes)
    ("health detail is " ++ toString d.length ++ " bytes, over the " ++ toString maxDetailBytes ++
      " byte limit")
  printable "health detail" d

/-- What is written for a rune: a question mark for a control character, for the
replacement character and for an ill-formed byte. -/
def shown : Utf8.Sym → Bytes
  | .rune encoding _ =>
    if encoding = [0xEF, 0xBF, 0xBD] || startsControl encoding then [0x3F] else encoding
  | .bad _ => [0x3F]

/-- Write runes until `max` bytes are written, and dots for those left then. -/
def showUpTo (max : Nat) : List Utf8.Sym → Bytes → Bytes
  | [], written => written
  | read :: rest, written =>
    if written.length ≥ max then written ++ bytes "..."
    else showUpTo max rest (written ++ shown read)

/-- `contract.Sanitize`. -/
def sanitize (s : Bytes) : Bytes := showUpTo maxErrorBytes (Utf8.runes s) []

/-- Settings that the server controls. -/
def reservedEnv : List Bytes :=
  ["GODEBUG", "GOTRACEBACK", "GOGC", "GOMEMLIMIT", "GOMAXPROCS", "GORACE", "GOCOVERDIR",
    "GOFLAGS"].map bytes

def envLetter (c : UInt8) : Bool := c == 0x5F || (0x41 ≤ c && c ≤ 0x5A) || (0x61 ≤ c && c ≤ 0x7A)

/-- A letter or `_`, and digits after the first. -/
def envName (name : Bytes) : Bool :=
  (name.take 1).all envLetter && (name.drop 1).all fun c => envLetter c || (0x30 ≤ c && c ≤ 0x39)

/-- `contract.Env`. -/
def env (quote text : Bytes → String) (name value : Bytes) : Except String Unit := do
  refuse (name = [] ∨ name.length > maxEnvNameBytes)
    ("env " ++ quote name ++ ": use 1 to " ++ toString maxEnvNameBytes ++
      " letters, digits, and '_', not starting with a digit")
  refuse (envName name = false) ("env " ++ quote name ++
    ": use letters, digits, and '_', not starting with a digit")
  refuse (reservedEnv.contains name = true)
    ("env " ++ text name ++ " is a Go runtime setting the server controls and cannot be configured")
  refuse (((bytes "LD_").isPrefixOf name || (bytes "DYLD_").isPrefixOf name) = true)
    ("env " ++ text name ++
      " is a loader setting and cannot be configured; the plugin binary is pinned by its hash")
  refuse (value.length > maxEnvValueBytes)
    ("env " ++ text name ++ " is " ++ toString value.length ++ " bytes, over the " ++
      toString maxEnvValueBytes ++ " byte limit")
  printable ("env " ++ text name) value

/-! ## What is accepted -/

theorem printable_ok {what : String} {s : Bytes} {done : Unit} : printable what s = .ok done ↔
    Utf8.validString s = true ∧ ∀ i < s.length, startsControl (s.drop i) = false := by
  have clear : (controlAt s = none) ↔ ∀ i < s.length, startsControl (s.drop i) = false := by
    simp [controlAt, find?_eq_none]
  rw [← clear]
  simp only [printable, bind_ok, refuse_ok, Bool.not_eq_false]
  cases controlAt s <;> simp

/-- An accepted location is a text of limited length that prints as one line. -/
theorem location_ok {loc : Bytes} {done : Unit} : location loc = .ok done ↔
    loc ≠ [] ∧ loc.length ≤ maxLocationBytes ∧ Utf8.validString loc = true ∧
      ∀ i < loc.length, startsControl (loc.drop i) = false := by
  simp [location, bind_ok, refuse_ok, printable_ok]

/-- Every location of an accepted list is accepted. -/
theorem listFrom_ok {start : Bytes} {i : Nat} {seen locations : List Bytes} {done : Unit}
    (accepted : listFrom start i seen locations = .ok done) :
    ∀ loc ∈ locations, location loc = .ok () := by
  induction locations generalizing i seen with
  | nil => simp
  | cons loc rest ih =>
    simp only [listFrom, bind_ok, mapError_ok] at accepted
    obtain ⟨_, here, _, _, _, _, later⟩ := accepted
    intro other member
    rcases mem_cons.mp member with rfl | member
    · exact here
    · exact ih later other member

/-- An accepted list has few locations, each of limited length. -/
theorem list_ok {start : Bytes} {locations : List Bytes} {done : Unit}
    (accepted : list start locations = .ok done) :
    locations.length ≤ maxListLength ∧ ∀ loc ∈ locations, loc.length ≤ maxLocationBytes := by
  simp only [list, bind_ok, refuse_ok] at accepted
  obtain ⟨_, few, rest⟩ := accepted
  refine ⟨by omega, fun loc member => ?_⟩
  obtain ⟨_, short, _⟩ := location_ok.mp (listFrom_ok rest loc member)
  exact short

/-! ## Texts that print -/

/-- A text put together from runes that are not control characters. -/
def Prints (s : Bytes) : Prop :=
  ∃ runes : List Bytes, s = runes.flatten ∧ ∀ rune ∈ runes, Utf8.wellFormed rune = true ∧
    startsControl rune = false

theorem prints_append {s t : Bytes} (left : Prints s) (right : Prints t) : Prints (s ++ t) := by
  obtain ⟨first, rfl, firsts⟩ := left
  obtain ⟨second, rfl, seconds⟩ := right
  refine ⟨first ++ second, flatten_append.symm, fun rune member => ?_⟩
  rcases mem_append.mp member with inFirst | inSecond
  · exact firsts rune inFirst
  · exact seconds rune inSecond

theorem prints_rune {rune : Bytes} (formed : Utf8.wellFormed rune = true)
    (plain : startsControl rune = false) :
    Prints rune :=
  ⟨[rune], by simp, by simp [formed, plain]⟩

/-- A text of printing ASCII prints. -/
theorem prints_ascii {s : Bytes} (ascii : (s.all fun c => 0x20 ≤ c && c ≤ 0x7E) = true) :
    Prints s := by
  have each : ∀ c : UInt8, 0x20 ≤ c ∧ c ≤ 0x7E → Utf8.wellFormed [c] = true ∧
      startsControl [c] = false := by
    decide +kernel
  refine ⟨s.map fun c => [c], by simp [← flatMap_def], ?_⟩
  intro rune member
  obtain ⟨c, inside, rfl⟩ := mem_map.mp member
  exact each c (by simpa using all_eq_true.mp ascii c inside)

/-- The bytes of a rune after its first are continuation bytes. -/
theorem wellFormed_tail {lead : UInt8} {rest : Bytes}
    (formed : Utf8.wellFormed (lead :: rest) = true) :
    ∀ c ∈ rest, 0x80 ≤ c ∧ c ≤ 0xBF := by
  simp only [UInt8.le_iff_toNat_le, UInt8.reduceToNat]
  match rest, formed with
  | [], _ => simp
  | [b], formed =>
    simp only [Utf8.wellFormed, Utf8.tail, Bool.and_eq_true, decide_eq_true_eq,
      UInt8.le_iff_toNat_le, UInt8.reduceToNat] at formed
    simp only [forall_mem_singleton]
    omega
  | [b, c], formed | [b, c, d], formed =>
    simp only [Utf8.wellFormed, Utf8.tail, Bool.and_eq_true, Bool.or_eq_true, beq_iff_eq,
      decide_eq_true_eq, UInt8.le_iff_toNat_le, ← UInt8.toNat_inj, UInt8.reduceToNat] at formed
    simp only [mem_cons, not_mem_nil, or_false, forall_eq_or_imp, forall_eq]
    omega

/-- No control character starts at a continuation byte. -/
theorem startsControl_tail {c : UInt8} (continues : 0x80 ≤ c ∧ c ≤ 0xBF) (rest : Bytes) :
    startsControl (c :: rest) = false := by
  have apart : ∀ c : UInt8, 0x80 ≤ c ∧ c ≤ 0xBF → (c < 0x20) = False ∧ (c == 0x7F) = false ∧
      (c == 0xC2) = false := by
    decide +kernel
  obtain ⟨low, delete, second⟩ := apart c continues
  simp [startsControl, low, delete, second]

section

variable {rune : Bytes} (formed : Utf8.wellFormed rune = true)
include formed

/-- Whether a rune is a control character shows in its own bytes. -/
theorem startsControl_append (rest : Bytes) :
    startsControl (rune ++ rest) = startsControl rune := by
  match rune, formed with
  | [c], formed =>
    have single : ∀ c : UInt8, Utf8.wellFormed [c] = true → (c == 0xC2) = false := by decide +kernel
    simp [startsControl, single c formed]
  | _ :: _ :: _, _ => rfl

/-- In a rune that is none, no control character starts. -/
theorem startsControl_inside {i : Nat} (plain : startsControl rune = false)
    (inside : i < rune.length) (rest : Bytes) :
    startsControl (rune.drop i ++ rest) = false := by
  match rune, i with
  | lead :: more, 0 =>
    rw [drop_zero, startsControl_append formed]
    exact plain
  | lead :: more, i + 1 =>
    rw [length_cons] at inside
    rw [drop_succ_cons, drop_eq_getElem_cons (by omega : i < more.length), cons_append]
    exact startsControl_tail (wellFormed_tail formed _ (getElem_mem _)) _

/-- The readings of a rune and what follows it. -/
theorem runes_rune (rest : Bytes) :
    Utf8.runes (rune ++ rest) = .rune rune formed :: Utf8.runes rest := by
  match rune, formed with
  | lead :: more, formed =>
    have wide := Utf8.wellFormed_width lead more formed
    have read : Utf8.decodeRune lead (more ++ rest) = .rune (lead :: more) formed := by
      have front : (lead :: (more ++ rest)).take (Utf8.width lead) = lead :: more := by
        rw [← wide, ← cons_append, take_left]
      simp [Utf8.decodeRune, front, formed]
    rw [cons_append, Utf8.runes_cons, read]
    simp [Utf8.Sym.bytes]

end

/-- A text that prints is accepted wherever texts are checked. By induction on its runes. -/
theorem printable_of_prints {what : String} {s : Bytes} (prints : Prints s) :
    printable what s = .ok () := by
  rw [printable_ok]
  obtain ⟨runes, rfl, each⟩ := prints
  induction runes with
  | nil => exact ⟨rfl, by simp⟩
  | cons rune later ih =>
    obtain ⟨⟨formed, plain⟩, others⟩ := forall_mem_cons.mp each
    obtain ⟨valid, clear⟩ := ih others
    rw [flatten_cons]
    constructor
    · rw [Utf8.validString, runes_rune formed, all_cons, Bool.true_and]
      exact valid
    · intro i inside
      rw [length_append] at inside
      rw [drop_append]
      by_cases beyond : rune.length ≤ i
      · rw [drop_of_length_le beyond, nil_append]
        exact clear _ (by omega)
      · rw [Nat.sub_eq_zero_of_le (by omega), drop_zero]
        exact startsControl_inside formed plain (by omega) _

/-- What is written for a rune prints, in at most four bytes. -/
theorem shown_prints (read : Utf8.Sym) : Prints (shown read) ∧ (shown read).length ≤ 4 := by
  have mark : Prints [0x3F] := prints_ascii (by decide)
  cases read with
  | bad => exact ⟨mark, by simp [shown]⟩
  | rune encoding formed =>
    rw [shown]
    split
    · exact ⟨mark, by simp⟩
    · next plain =>
      simp only [Bool.or_eq_true, not_or, Bool.not_eq_true] at plain
      refine ⟨prints_rune formed plain.2, ?_⟩
      cases encoding with
      | nil => exact absurd formed (by decide)
      | cons lead more =>
        rw [Utf8.wellFormed_width lead more formed, Utf8.width]
        split_ifs <;> omega

/-- What is written prints, in at most six bytes more than the limit: a rune of four may
pass it, and the dots follow. -/
theorem showUpTo_prints (max : Nat) (reads : List Utf8.Sym) (written : Bytes)
    (prints : Prints written) (short : written.length ≤ max + 3) :
    Prints (showUpTo max reads written) ∧ (showUpTo max reads written).length ≤ max + 6 := by
  induction reads generalizing written with
  | nil => exact ⟨prints, by simp only [showUpTo]; omega⟩
  | cons read rest ih =>
    rw [showUpTo]
    split
    · refine ⟨prints_append prints (prints_ascii (by decide)), ?_⟩
      rw [length_append]
      have dots : (bytes "...").length = 3 := by decide
      omega
    · obtain ⟨printed, few⟩ := shown_prints read
      exact ih _ (prints_append prints printed) (by rw [length_append]; omega)

/-- What `Sanitize` makes of any text prints, and is short. -/
theorem sanitize_prints (s : Bytes) : Prints (sanitize s) ∧
    (sanitize s).length ≤ maxErrorBytes + 6 :=
  showUpTo_prints maxErrorBytes _ [] ⟨[], rfl, by simp⟩ (Nat.zero_le _)

end TrustedCourier.PluginContract
