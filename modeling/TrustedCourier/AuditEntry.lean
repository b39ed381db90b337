import TrustedCourier.Calendar
import TrustedCourier.Json

/-!
# Audit Records as they are stored and hashed

An Audit Record is stored as a row and hashed as a JSON object without its hash.
Verification rebuilds the object from the row, so what a hash protects is what the
object keeps of the row. It keeps all of it but for two conventions of the format:
a missing Upstream status and a status of 0 are both null, and a byte that is not
UTF-8 is the replacement character whichever byte it is.

`int` is 64 bits wide. Encoding an entry cannot fail, since its members are strings
and integers.
-/

namespace TrustedCourier.Audit

open Json List

/-- What an Audit Record says about one Delivery attempt. -/
structure Record where
  agentTokenID : Bytes
  secretName : Bytes
  delivery : Bytes
  upstream : Bytes
  upstreamHost : Bytes
  decision : Bytes
  reason : Bytes
  upstreamStatus : Int64
  failure : Bytes
deriving DecidableEq, Repr

/-- An Audit Record as it is hashed and streamed. -/
structure Entry where
  seq : Int64
  time : Bytes
  agentTokenID : Bytes
  secretName : Bytes
  delivery : Bytes
  upstream : Bytes
  upstreamHost : Bytes
  decision : Bytes
  reason : Bytes
  upstreamStatus : Option Int64
  failure : Bytes
  prevHash : Bytes
  hash : Bytes
deriving DecidableEq, Repr

/-- `hex.EncodeToString`. -/
def hexString (s : Bytes) : Bytes := s.flatMap fun c => [lowerhex (c / 16), lowerhex (c % 16)]

/-- The entry of the record with this sequence number, made at this time. -/
def newEntry (seq ms : Int64) (r : Record) (prevHash : Bytes) : Entry where
  seq := seq
  time := Calendar.format ms.toInt
  agentTokenID := r.agentTokenID
  secretName := r.secretName
  delivery := r.delivery
  upstream := r.upstream
  upstreamHost := r.upstreamHost
  decision := r.decision
  reason := r.reason
  upstreamStatus := if r.upstreamStatus ≠ 0 then some r.upstreamStatus else none
  failure := r.failure
  prevHash := hexString prevHash
  hash := []

/-- The status of an entry, null when there is none. -/
def statusValue : Option Int64 → Value
  | some status => .number status.toInt
  | none => .null

/-- The members of an entry's JSON object. An empty hash is left out. -/
def Entry.members (e : Entry) : List (Bytes × Value) :=
  [(bytes "seq", .number e.seq.toInt), (bytes "time", .text e.time),
    (bytes "agent_token_id", .text e.agentTokenID), (bytes "secret_name", .text e.secretName),
    (bytes "delivery", .text e.delivery), (bytes "upstream", .text e.upstream),
    (bytes "upstream_host", .text e.upstreamHost), (bytes "decision", .text e.decision),
    (bytes "reason", .text e.reason),
    (bytes "upstream_status", statusValue e.upstreamStatus),
    (bytes "failure", .text e.failure), (bytes "prev_hash", .text e.prevHash)] ++
  if e.hash = [] then [] else [(bytes "hash", .text e.hash)]

/-- `json.Marshal` of an entry. -/
def Entry.json (e : Entry) : Bytes := marshal e.members

/-- What `entry.hash` hashes: the entry without its hash. -/
def Entry.hashed (e : Entry) : Bytes := Entry.json { e with hash := [] }

/-- A row of `audit_records`. -/
structure Row where
  seq : Int64
  time : Int64
  agentTokenID : Bytes
  secretName : Bytes
  delivery : Bytes
  upstream : Bytes
  upstreamHost : Bytes
  decision : Bytes
  reason : Bytes
  upstreamStatus : Option Int64
  failure : Bytes
  prevHash : Bytes
  hash : Bytes
deriving DecidableEq, Repr

/-- The record verification scans from a row. A missing status is 0. -/
def Row.record (row : Row) : Record where
  agentTokenID := row.agentTokenID
  secretName := row.secretName
  delivery := row.delivery
  upstream := row.upstream
  upstreamHost := row.upstreamHost
  decision := row.decision
  reason := row.reason
  upstreamStatus := row.upstreamStatus.getD 0
  failure := row.failure

/-- What verification hashes for a row. -/
def Row.hashed (row : Row) : Bytes := (newEntry row.seq row.time row.record row.prevHash).hashed

/-- The texts of a record. -/
def Record.texts (r : Record) : List Bytes :=
  [r.agentTokenID, r.secretName, r.delivery, r.upstream, r.upstreamHost, r.decision, r.reason,
    r.failure]

/-- The text columns of a row. -/
def Row.texts (row : Row) : List Bytes := row.record.texts

/-! ## What the hash covers -/

/-- Hexadecimal digits settle the bytes they spell. -/
theorem hexString_injective {s t : Bytes} (same : hexString s = hexString t) : s = t := by
  have digits : ∀ c : UInt8, UrlEscapes.unhex (lowerhex (c / 16)) * 16 +
      UrlEscapes.unhex (lowerhex (c % 16)) = c := by
    decide +kernel
  induction s generalizing t with
  | nil =>
    cases t with
    | nil => rfl
    | cons c rest => simp [hexString] at same
  | cons c rest ih =>
    cases t with
    | nil => simp [hexString] at same
    | cons d others =>
      simp only [hexString, flatMap_cons, cons_append, nil_append, List.cons.injEq] at same
      obtain ⟨high, low, later⟩ := same
      rw [← digits c, high, low, digits d, ih later]

theorem hexString_ascii (s : Bytes) : ∀ c ∈ hexString s, c < 0x80 := by
  have digits : ∀ n : UInt8, lowerhex (n / 16) < 0x80 ∧
      lowerhex (n % 16) < 0x80 := by decide +kernel
  intro c member
  obtain ⟨byte, _, digit⟩ := mem_flatMap.mp member
  simp only [mem_cons, not_mem_nil, or_false] at digit
  rcases digit with rfl | rfl
  · exact (digits byte).1
  · exact (digits byte).2

/-- The digest texts of an entry carry exactly the bytes they spell. -/
theorem carried_hexString (s t : Bytes) : carried (hexString s) = carried (hexString t) ↔
    s = t := by
  rw [carried_valid (Utf8.validString_ascii _ (hexString_ascii s))
    (Utf8.validString_ascii _ (hexString_ascii t))]
  exact ⟨hexString_injective, fun same => by rw [same]⟩

/-- The written time of an entry carries exactly its millisecond. -/
theorem carried_format (a b : Int64) :
    carried (Calendar.format a.toInt) = carried (Calendar.format b.toInt) ↔ a = b := by
  rw [carried_valid (Utf8.validString_ascii _ (Calendar.format_ascii _))
    (Utf8.validString_ascii _ (Calendar.format_ascii _))]
  exact ⟨fun same => Int64.toInt_inj.mp (Calendar.format_injective same), fun same => by rw [same]⟩

/-- The status member carries the status, with 0 for none. -/
theorem kept_status (a b : Int64) :
    (statusValue (if a ≠ 0 then some a else none)).kept =
      (statusValue (if b ≠ 0 then some b else none)).kept ↔
      a = b := by
  by_cases zero : a = 0 <;> by_cases other : b = 0
  · simp [zero, other]
  · simp [zero, other, statusValue, Value.kept, Ne.symm other]
  · simp [zero, other, statusValue, Value.kept]
  · simp [zero, other, statusValue, Value.kept, Int64.toInt_inj]

/-- The members that are hashed have the same names in every entry. -/
theorem members_names (e f : Entry) (unhashed : e.hash = []) (unhashedOther : f.hash = []) :
    e.members.map Prod.fst = f.members.map Prod.fst := by
  simp only [Entry.members, unhashed, unhashedOther, if_true, append_nil, map_cons, map_nil]

/-- Two entries are hashed alike exactly when they were made with the same sequence
number, time, status and previous hash, and from texts that carry the same. -/
theorem newEntry_hashed_iff (seq ms seq' ms' : Int64) (r r' : Record) (prevHash prevHash' : Bytes) :
    (newEntry seq ms r prevHash).hashed = (newEntry seq' ms' r' prevHash').hashed ↔
      seq = seq' ∧ ms = ms' ∧ r.texts.map carried = r'.texts.map carried ∧
        r.upstreamStatus = r'.upstreamStatus ∧ prevHash = prevHash' := by
  rw [Entry.hashed, Entry.hashed, Entry.json, Entry.json,
    marshal_eq_iff _ _ (members_names _ _ rfl rfl)]
  simp only [Entry.members, newEntry, if_true, append_nil, map_cons, map_nil, List.cons.injEq,
    and_true, kept_status, kept_text, kept_number, Kept.text.injEq, Kept.number.injEq,
    Int64.toInt_inj,
    carried_format, carried_hexString, Record.texts]
  tauto

/-- Valid texts that carry the same are the same. -/
theorem carried_texts {left right : List Bytes}
    (valid : ∀ text ∈ left ++ right, Utf8.validString text = true)
    (same : left.map carried = right.map carried) : left = right := by
  induction left generalizing right with
  | nil => exact (map_eq_nil_iff.mp same.symm).symm
  | cons s left ih =>
    cases right with
    | nil => simp at same
    | cons t right =>
      obtain ⟨first, later⟩ := List.cons.inj same
      have validFirst := valid s (by simp)
      have validOther := valid t (by simp)
      rw [(carried_valid validFirst validOther).mp first]
      rw [ih (fun text member =>
        valid text (by simp only [mem_append, mem_cons] at member ⊢; tauto)) later]

/-- A status other than a stored 0 is known from its value. -/
theorem status_of_value {a b : Option Int64} (proper : a ≠ some 0) (properOther : b ≠ some 0)
    (same : a.getD 0 = b.getD 0) : a = b := by
  cases a with
  | none =>
    cases b with
    | none => rfl
    | some status => exact absurd (congrArg some same.symm) properOther
  | some status =>
    cases b with
    | none => exact absurd (congrArg some same) proper
    | some other => exact congrArg some same

/-- What a row's hash covers determines the row up to the two conventions of the
format: rows are hashed alike exactly when they agree in sequence number, time and
previous hash, in their status with 0 for none, and in the runes of their texts
with ill-formed bytes taken for the same. Rows that keep to the conventions, with
valid texts and no stored 0, are hashed alike only if they are the same. -/
theorem hashed_determines_row (x y : Row) :
    (x.hashed = y.hashed ↔ x.seq = y.seq ∧ x.time = y.time ∧
      x.texts.map carried = y.texts.map carried ∧
      x.upstreamStatus.getD 0 = y.upstreamStatus.getD 0 ∧ x.prevHash = y.prevHash) ∧
    ((∀ text ∈ x.texts ++ y.texts, Utf8.validString text = true) → x.upstreamStatus ≠ some 0 →
      y.upstreamStatus ≠ some 0 → x.hashed = y.hashed → { x with hash := y.hash } = y) := by
  have covered := newEntry_hashed_iff x.seq x.time y.seq y.time x.record y.record x.prevHash
    y.prevHash
  refine ⟨covered, fun valid proper properOther same => ?_⟩
  obtain ⟨seqs, times, texts, statuses, prevs⟩ := covered.mp same
  have columns := carried_texts valid texts
  have status := status_of_value proper properOther statuses
  simp only [Row.texts, Record.texts, Row.record, List.cons.injEq, and_true] at columns
  cases x
  cases y
  simp_all

/-- A row of a denied attempt, with this Secret Name and status. -/
def deniedRow (secretName : Bytes) (status : Option Int64) : Row where
  seq := 1
  time := 951782400000
  agentTokenID := bytes "t"
  secretName := secretName
  delivery := bytes "reveal"
  upstream := []
  upstreamHost := []
  decision := bytes "denied"
  reason := bytes "unknown Secret Name"
  upstreamStatus := status
  failure := []
  prevHash := List.replicate 32 0
  hash := []

/-- Two rows that differ in an ill-formed byte of the Secret Name, and two that differ
in NULL and 0 for the status, are hashed alike. -/
theorem hashed_alike_but_different :
    (deniedRow [0xFF] none ≠ deniedRow [0xFE] none ∧
      (deniedRow [0xFF] none).hashed = (deniedRow [0xFE] none).hashed) ∧
    (deniedRow [] none ≠ deniedRow [] (some 0) ∧
      (deniedRow [] none).hashed = (deniedRow [] (some 0)).hashed) := by
  decide +kernel

/-- Rows that differ in the Secret Name are hashed apart, and rows that are hashed alike
differ in their own hash at most. -/
theorem hashed_determines_row_denied :
    (deniedRow (bytes "n") none).hashed ≠ (deniedRow (bytes "m") none).hashed ∧
    ∃ x y : Row, x.hash ≠ y.hash ∧ x.hashed = y.hashed ∧ { x with hash := y.hash } = y := by
  refine ⟨fun same => ?_, deniedRow (bytes "n") none,
    { deniedRow (bytes "n") none with hash := [1] }, by decide, rfl, ?_⟩
  · have alike :=
      (hashed_determines_row (deniedRow (bytes "n") none) (deniedRow (bytes "m") none)).2
      (by decide +kernel) (by decide) (by decide) same
    exact absurd (congrArg Row.secretName alike) (by decide)
  · exact (hashed_determines_row _ _).2 (by decide +kernel) (by decide) (by decide) rfl

end TrustedCourier.Audit
