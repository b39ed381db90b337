import TrustedCourier.Checks
import TrustedCourier.JsonDecode

/-!
# How long an Agent Token lives

`tc token issue` takes a lifetime as a Go duration or as a whole number of days. A
duration is a signed 64-bit number of nanoseconds, and days are turned into one by a
product that wraps. Day counts are bounded above before the product is taken and not
below, and the product is what is asked to be positive. So a day count above the bound
is refused and one between zero and the bound is taken exactly, while a count below zero
is refused only as long as its product has not come round to a positive number.
-/

namespace TrustedCourier.Lifetimes

open Checks List

/-! ## Whole numbers -/

/-- The integer that a text spells with either sign or none, if 64 bits hold it. -/
def parseSigned (text : Bytes) : Option Int :=
  if text.head? = some 0x2B then
    (JsonDecode.parseUint text.tail).bind fun n => if n < 2 ^ 63 then some n else none
  else JsonDecode.parseInt text

/-- `strconv.ParseInt` in base 10 and of 64 bits. -/
def parseInt (text : Bytes) : Option Int64 := (parseSigned text).map Int64.ofInt

/-- A number is spelled in decimal: digits, of which there is one at least, after a sign
or none. -/
inductive Spells : Bytes → Int → Prop
  | bare {digits : Bytes} (nonempty : digits ≠ []) (digit : ∀ c ∈ digits, Decimal.isDigit c) :
    Spells digits (Decimal.value digits)
  | plus {digits : Bytes} (nonempty : digits ≠ []) (digit : ∀ c ∈ digits, Decimal.isDigit c) :
    Spells (0x2B :: digits) (Decimal.value digits)
  | minus {digits : Bytes} (nonempty : digits ≠ []) (digit : ∀ c ∈ digits, Decimal.isDigit c) :
    Spells (0x2D :: digits) (-Decimal.value digits)

variable {text : Bytes}

/-- A bounded magnitude is read from exactly the digits that spell it. -/
theorem parseUint_bind {fits : Nat → Prop} [DecidablePred fits] {sign : Nat → Int} {n : Int} :
    ((JsonDecode.parseUint text).bind fun m => if fits m then some (sign m) else none) = some n ↔
      text ≠ [] ∧ (∀ c ∈ text, Decimal.isDigit c) ∧ Decimal.value text < 2 ^ 64 ∧
        fits (Decimal.value text) ∧ sign (Decimal.value text) = n := by
  simp only [JsonDecode.parseUint, Bool.and_eq_true, Bool.not_eq_true', isEmpty_eq_false_iff,
    all_eq_true,
    decide_eq_true_eq, Option.bind_eq_some_iff, Option.ite_none_right_eq_some, Option.some.injEq]
  constructor
  · rintro ⟨m, ⟨⟨⟨nonempty, digits⟩, small⟩, rfl⟩, within, same⟩
    exact ⟨nonempty, digits, small, within, same⟩
  · rintro ⟨nonempty, digits, small, within, same⟩
    exact ⟨_, ⟨⟨⟨nonempty, digits⟩, small⟩, rfl⟩, within, same⟩

/-- Digits do not begin with a sign. -/
theorem head_of_digits (digits : ∀ c ∈ text, Decimal.isDigit c) :
    text.head? ≠ some 0x2B ∧ text.head? ≠ some 0x2D := by
  refine ⟨?_, ?_⟩ <;>
  · intro sign
    obtain ⟨more, rfl⟩ := head?_eq_some_iff.mp sign
    cases digits _ mem_cons_self

/-- What is read is what is spelled, within the range of `int64`. -/
theorem parseSigned_iff {n : Int} :
    parseSigned text = some n ↔ Spells text n ∧ -2 ^ 63 ≤ n ∧ n < 2 ^ 63 := by
  constructor
  · intro parsed
    unfold parseSigned JsonDecode.parseInt at parsed
    split at parsed
    · rename_i sign
      obtain ⟨digits, rfl⟩ := head?_eq_some_iff.mp sign
      obtain ⟨nonempty, digit, -, small, rfl⟩ := parseUint_bind.mp parsed
      exact ⟨.plus nonempty digit, by omega, by omega⟩
    split at parsed
    · rename_i sign
      obtain ⟨digits, rfl⟩ := head?_eq_some_iff.mp sign
      obtain ⟨nonempty, digit, -, small, rfl⟩ := parseUint_bind.mp parsed
      exact ⟨.minus nonempty digit, by omega, by omega⟩
    · obtain ⟨nonempty, digit, -, small, rfl⟩ := parseUint_bind.mp parsed
      exact ⟨.bare nonempty digit, by omega, by omega⟩
  · rintro ⟨spelled, low, high⟩
    unfold parseSigned JsonDecode.parseInt
    cases spelled with
    | bare nonempty digit =>
      rw [if_neg (head_of_digits digit).1, if_neg (head_of_digits digit).2, parseUint_bind]
      exact ⟨nonempty, digit, by omega, by omega, rfl⟩
    | plus nonempty digit =>
      rw [head?_cons, if_pos rfl, tail_cons, parseUint_bind]
      exact ⟨nonempty, digit, by omega, by omega, rfl⟩
    | minus nonempty digit =>
      rw [head?_cons, if_neg (by decide), if_pos rfl, tail_cons, parseUint_bind]
      exact ⟨nonempty, digit, by omega, by omega, rfl⟩

/-- Exactly the decimal spellings of a 64-bit integer are read, each as its integer. -/
theorem parseInt_iff {n : Int64} : parseInt text = some n ↔ Spells text n.toInt := by
  rw [parseInt, Option.map_eq_some_iff]
  constructor
  · rintro ⟨m, parsed, rfl⟩
    obtain ⟨spelled, low, high⟩ := parseSigned_iff.mp parsed
    rwa [Int64.toInt_ofInt_of_le low high]
  · intro spelled
    exact ⟨n.toInt, parseSigned_iff.mpr ⟨spelled, n.le_toInt, n.toInt_lt⟩, Int64.ofInt_toInt n⟩

/-! ## Lifetimes -/

/-- `time.Hour`. -/
def hour : Int64 := 3600000000000

section Model

variable (quote : Bytes → Bytes) (parseDuration : Bytes → Option Int64)

/-- Go durations plus whole days, such as 30d. `parseDuration` is `time.ParseDuration`
and `quote` is the verb `%q`. -/
def parseLifetime (s : Bytes) : Except Bytes Int64 := do
  let d ← (if s.getLast? = some 0x64 then (do
      let n ← need (parseInt s.dropLast) (bytes "invalid lifetime " ++ quote s)
      refuse (n > Int64.maxValue / (24 * hour))
        (bytes "lifetime " ++ quote s ++ bytes " is too long")
      pure (n * 24 * hour))
    else need (parseDuration s) (bytes "invalid lifetime " ++ quote s))
  refuse (d ≤ 0) (bytes "lifetime " ++ quote s ++ bytes " must be positive")
  pure d

variable (parseTime : Bytes → Except Bytes Int)

/-- Exactly one of --expires-in and --expires-at gives an absolute expiry. Times are
nanoseconds, and `parseTime` is `time.Parse` of RFC 3339. -/
def parseExpiry (expiresIn expiresAt : Bytes) (now : Int) : Except Bytes Int :=
  if expiresIn = [] ∧ expiresAt = [] then
    .error (bytes "usage: token issue: an expiry is required (--expires-in or --expires-at)")
  else if expiresIn ≠ [] ∧ expiresAt ≠ [] then
    .error (bytes "usage: token issue: use only one of --expires-in and --expires-at")
  else if expiresAt ≠ [] then
    (parseTime expiresAt).mapError (bytes "usage: token issue: --expires-at: " ++ ·)
  else do
    let d ← (parseLifetime quote parseDuration expiresIn).mapError
      (bytes "usage: token issue: --expires-in: " ++ ·)
    pure (now + d.toInt)

end Model

/-! ## What is accepted -/

/-- The nanoseconds of a day. -/
def day : Int := 86400000000000

/-- The product of days wraps as one product does. -/
theorem toInt_days (n : Int64) : (n * 24 * hour).toInt = (n.toInt * day).bmod (2 ^ 64) := by
  rw [Int64.toInt_mul, Int64.toInt_mul, Int.bmod_mul_bmod, Int.mul_assoc]
  rfl

theorem maxDays : Int64.maxValue / (24 * hour) = 106751 := by decide

variable {quote : Bytes → Bytes} {parseDuration : Bytes → Option Int64}

/-- Only a positive duration is ever accepted. -/
theorem parseLifetime_positive {s : Bytes} {d : Int64}
    (accepted : parseLifetime quote parseDuration s = .ok d) :
    0 < d.toInt := by
  obtain ⟨read, -, rest⟩ := bind_ok.mp accepted
  obtain ⟨_, positive, same⟩ := bind_ok.mp rest
  rw [refuse_ok, Int64.le_iff_toInt_le] at positive
  rw [← pure_ok.mp same]
  exact Int.not_le.mp positive

/-- What is accepted of a day count: one up to the bound, if its product is positive. -/
theorem parseLifetime_days {n d : Int64} (parsed : parseInt text = some n) :
    parseLifetime quote parseDuration (text ++ [0x64]) = .ok d ↔
      n.toInt ≤ 106751 ∧ 0 < (n.toInt * day).bmod (2 ^ 64) ∧ d = n * 24 * hour := by
  have bounded : ¬ n > Int64.maxValue / (24 * hour) ↔ n.toInt ≤ 106751 := by
    rw [maxDays, gt_iff_lt, Int64.lt_iff_toInt_lt, Int.not_lt]
    rfl
  have positive : ¬ n * 24 * hour ≤ 0 ↔ 0 < (n.toInt * day).bmod (2 ^ 64) := by
    rw [Int64.le_iff_toInt_le, toInt_days, Int.not_le]
    rfl
  simp only [parseLifetime, getLast?_concat, if_true, dropLast_concat, parsed, bind_ok, need_ok,
    refuse_ok, pure_ok, Option.some.injEq]
  constructor
  · rintro ⟨_, ⟨_, rfl, _, few, rfl⟩, _, kept, rfl⟩
    exact ⟨bounded.mp few, positive.mp kept, rfl⟩
  · rintro ⟨few, kept, rfl⟩
    exact ⟨_, ⟨n, rfl, (), bounded.mpr few, rfl⟩, (), positive.mpr kept, rfl⟩

/-- A lifetime is what it says: nothing but a positive duration is accepted, and a number
of days is accepted if it is positive and 64 bits hold its nanoseconds, as exactly those. -/
structure Exact (quote : Bytes → Bytes) (parseDuration : Bytes → Option Int64) (s : Bytes) :
    Prop where
  positive : ∀ d, parseLifetime quote parseDuration s = .ok d → 0 < d.toInt
  days : ∀ (text : Bytes) (n : Int64), s = text ++ [0x64] → Spells text n.toInt → ∀ d,
    parseLifetime quote parseDuration s = .ok d ↔ 0 < n.toInt ∧ n.toInt * day < 2 ^ 63 ∧
    d.toInt = n.toInt * day

/-- A day count is not below zero, or its nanoseconds, counted round from zero at 2^64,
end no further than half the way. -/
def Unwrapped (n : Int) : Prop := 0 ≤ n ∨ n.natAbs * 86400000000000 % 2 ^ 64 ≤ 2 ^ 63

instance (n : Int) : Decidable (Unwrapped n) := by
  unfold Unwrapped
  infer_instance

theorem bmod_neg_nonpos (k : Nat) : (-(k : Int)).bmod (2 ^ 64) ≤ 0 ↔ k % 2 ^ 64 ≤ 2 ^ 63 := by
  rw [Int.bmod_def]
  omega

/-- The product of a day count below zero is not positive just if it has not come round. -/
theorem bmod_days_nonpos {n : Int} (below : n < 0) : (n * day).bmod (2 ^ 64) ≤ 0 ↔ Unwrapped n := by
  have product : n * day = -((n.natAbs * 86400000000000 : Nat) : Int) := by
    rw [day]
    omega
  rw [product, bmod_neg_nonpos, Unwrapped, or_iff_right (Int.not_le.mpr below)]

/-- A day count from zero up to the bound has its own product. -/
theorem bmod_days_small {n : Int} (low : 0 ≤ n) (high : n ≤ 106751) :
    (n * day).bmod (2 ^ 64) = n * day := by
  rw [day, Int.bmod_def]
  omega

/-- A lifetime is what it says, unless it is a day count below zero that wraps.

Proof: what is accepted is positive in any case. A day count above the bound is refused
and its nanoseconds do not fit; one from zero up to the bound keeps its product; one
below zero may not be accepted at all, and its product decides. -/
theorem lifetime_exact (quote : Bytes → Bytes) (parseDuration : Bytes → Option Int64) (s : Bytes) :
    Exact quote parseDuration s ↔
      ∀ (text : Bytes) (n : Int64), s = text ++ [0x64] → Spells text n.toInt →
        Unwrapped n.toInt := by
  constructor
  · rintro exact text n rfl spelled
    rcases Int.lt_or_le n.toInt 0 with below | above
    · rw [← bmod_days_nonpos below, ← Int.not_lt]
      intro wrapped
      have accepted : parseLifetime quote parseDuration (text ++ [0x64]) = .ok (n * 24 * hour) :=
        (parseLifetime_days (parseInt_iff.mpr spelled)).mpr ⟨by omega, wrapped, rfl⟩
      have counted := ((exact.days text n rfl spelled _).mp accepted).1
      omega
    · exact .inl above
  · intro unwrapped
    refine ⟨fun d => parseLifetime_positive, ?_⟩
    rintro text n rfl spelled d
    rw [parseLifetime_days (parseInt_iff.mpr spelled)]
    rcases Int.lt_or_le n.toInt 0 with below | above
    · have refused := (bmod_days_nonpos below).mpr (unwrapped text n rfl spelled)
      constructor
      · rintro ⟨-, product, -⟩
        omega
      · rintro ⟨counted, -⟩
        omega
    constructor
    · rintro ⟨few, product, rfl⟩
      rw [bmod_days_small above few] at product
      rw [toInt_days, bmod_days_small above few]
      rw [day] at product ⊢
      exact ⟨by omega, by omega, rfl⟩
    · rintro ⟨counted, fits, same⟩
      have few : n.toInt ≤ 106751 := by
        rw [day] at fits
        omega
      refine ⟨few, ?_, Int64.toInt_inj.mp ?_⟩
      · rw [bmod_days_small above few, day]
        omega
      · rw [same, toInt_days, bmod_days_small above few]

/-- Thirty days are 2592 million million nanoseconds. -/
theorem lifetime_exact_thirty :
    Exact id (fun _ => none) (bytes "30d") ∧
      parseLifetime id (fun _ => none) (bytes "30d") = .ok 2592000000000000 := by
  refine ⟨(lifetime_exact id (fun _ => none) (bytes "30d")).mpr ?_, by decide⟩
  intro text n same spelled
  obtain ⟨rfl, -⟩ := append_inj' (show bytes "30" ++ [0x64] = text ++ [0x64] from same) rfl
  have read : some n = parseInt (bytes "30") := (parseInt_iff.mpr spelled).symm
  cases read
  decide

/-- Two hundred thousand days before now are accepted, as almost thirty-seven years after it. -/
theorem negative_lifetime_accepted :
    Spells (bytes "-200000") (-200000) ∧
      parseLifetime id (fun _ => none) (bytes "-200000d") = .ok 1166744073709551616 ∧
      parseExpiry id (fun _ => none) (fun _ => .ok 0) (bytes "-200000d") [] 0 =
        .ok 1166744073709551616 := by
  exact ⟨.minus (by decide : bytes "200000" ≠ []) (by decide +kernel),
    by decide +kernel, by decide +kernel⟩

end TrustedCourier.Lifetimes
