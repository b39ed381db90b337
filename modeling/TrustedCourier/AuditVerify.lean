import TrustedCourier.AuditChain
import TrustedCourier.PagedScan

/-!
# Verifying the audit log

`Verify` walks the records and then the checkpoints that cover them, page by page,
once while the log goes on and once more under its lock, and compares where it ends
with the log's memory. Each query is answered from the tables as they are at that
moment, or fails; the answers before the lock and under it are two sequences of
tables. The loops have no bound of their own, so the model gives them fuel.
-/

namespace TrustedCourier.Audit

/-- The first place the chain does not hold. -/
structure Break where
  seq : Int64
  problem : String
deriving DecidableEq, Repr

/-- The result of checking the chain. -/
structure Verification where
  records : Int64
  checkpoints : Int64
  brk : Option Break
deriving DecidableEq, Repr

/-- How far the chain and its checkpoints have been checked. -/
structure Walk where
  v : Verification
  prev : Bytes
  cpSeq : Int64
deriving DecidableEq, Repr

/-- How many rows one query reads at most. -/
def verifyPage : Nat := 1000

/-- What `Verify` reports without a key. -/
def errNoSigningKey : String :=
  "the audit signing key is not loaded, so the signed checkpoints cannot be verified; tc status says why"

/-- A break has been found. -/
def Walk.broken (w : Walk) : Bool := w.v.brk.isSome

/-- The walk with this break. -/
def Walk.breakAt (w : Walk) (seq : Int64) (problem : String) : Walk :=
  { w with v := { w.v with brk := some { seq := seq, problem := problem } } }

/-- The walk past a record. -/
def Walk.passRecord (w : Walk) (row : Row) : Walk :=
  { w with v := { w.v with records := row.seq }, prev := row.hash }

/-- The walk past a checkpoint. -/
def Walk.passCheckpoint (w : Walk) (c : CheckpointRow) : Walk :=
  { w with v := { w.v with checkpoints := w.v.checkpoints + 1 }, cpSeq := c.seq }

section Fields

variable (w : Walk) (row : Row) (c : CheckpointRow)

@[simp] theorem passRecord_records : (w.passRecord row).v.records = row.seq := rfl

@[simp] theorem passRecord_broken : (w.passRecord row).broken = w.broken := rfl

@[simp] theorem passCheckpoint_cpSeq : (w.passCheckpoint c).cpSeq = c.seq := rfl

@[simp] theorem passCheckpoint_broken : (w.passCheckpoint c).broken = w.broken := rfl

@[simp] theorem breakAt_broken (seq : Int64) (problem : String) :
    (w.breakAt seq problem).broken = true := rfl

end Fields

/-- The answers to successive queries: the tables at that moment, or an error. -/
abbrev Reads := Nat → Except String Tables

section Functions

variable (crypto : Crypto)

/-- The body of the loop in `verifyPage`. -/
def verifyRecord (w : Walk) (row : Row) : Walk :=
  let want := w.v.records + 1
  let seq := row.seq
  if seq ≠ want then w.breakAt want s!"record {want} is missing"
  else if crypto.sum256 row.hashed ≠ row.hash then
    w.breakAt seq s!"record {seq} does not match its hash"
  else if row.prevHash ≠ w.prev then
    w.breakAt seq s!"record {seq} does not chain to the record before it"
  else w.passRecord row

/-- The body of the loop in `verifyCheckpointPage`, for a checkpoint and the hash of
the record it covers, if there is one. A break counts the records covered so far. -/
def verifyCheckpoint (w : Walk) (joined : CheckpointRow × Option Bytes) : Walk :=
  let c := joined.1
  let seq := c.seq
  let prevSeq := c.prevSeq
  let cpSeq := w.cpSeq
  let covered : Walk := { w with v := { w.v with records := w.cpSeq } }
  if !crypto.verify c.checkpoint.message c.signature then
    covered.breakAt seq
      s!"the signed checkpoint at record {seq} does not verify with the audit signing key"
  else if w.cpSeq < c.prevSeq then
    covered.breakAt prevSeq s!"the signed checkpoint at record {prevSeq} is missing"
  else if c.prevSeq < w.cpSeq then
    covered.breakAt seq
      s!"the signed checkpoint at record {seq} does not follow the one at record {cpSeq}"
  else if c.head ≠ joined.2.getD [] then
    covered.breakAt seq s!"record {seq} does not match its signed checkpoint"
  else w.passCheckpoint c

/-- The query of `verifyPage`. -/
def askRecords (reads : Reads) (k : Nat) (w : Walk) : Except String (List Row) :=
  match reads k with
  | .error err => .error ("read Audit Records: " ++ err)
  | .ok tables => .ok ((tables.records.past w.v.records.toInt).take verifyPage)

/-- A checkpoint joined with the hash of the record it covers. -/
def joinRecord (tables : Tables) (c : CheckpointRow) : CheckpointRow × Option Bytes :=
  (c, (tables.records.find? c.seq.toInt).map Row.hash)

/-- The query of `verifyCheckpointPage`. -/
def askCheckpoints (reads : Reads) (k : Nat) (w : Walk) :
    Except String (List (CheckpointRow × Option Bytes)) :=
  match reads k with
  | .error err => .error ("read audit checkpoints: " ++ err)
  | .ok tables =>
    .ok (((tables.checkpoints.within w.cpSeq.toInt w.v.records.toInt).take verifyPage).map
      (joinRecord tables))

/-- `Log.verifyRest`, from the `k`th query on. -/
def verifyRest (reads : Reads) (fuel k : Nat) (w : Walk) : Option (Except String (Nat × Walk)) :=
  pages (verifyRecord crypto) Walk.broken verifyPage (askRecords reads) fuel k w

/-- The loop over checkpoints in `Log.walk`. -/
def verifyCheckpoints (reads : Reads) (fuel k : Nat) (w : Walk) :
    Option (Except String (Nat × Walk)) :=
  pages (verifyCheckpoint crypto) Walk.broken verifyPage (askCheckpoints reads) fuel k w

/-- `Log.walk`. A break in the checkpoints comes before a break in the records. -/
def walk (reads : Reads) (fuel k : Nat) (w : Walk) : Option (Except String (Nat × Walk)) :=
  match verifyRest crypto reads fuel k w with
  | none => none
  | some (.error err) => some (.error err)
  | some (.ok (k, checked)) =>
    match verifyCheckpoints crypto reads fuel k
      { checked with v := { checked.v with brk := none } } with
    | none => none
    | some (.error err) => some (.error err)
    | some (.ok (k, covered)) =>
      if covered.broken then some (.ok (k, covered))
      else some (.ok (k, { covered with v := { covered.v with brk := checked.v.brk } }))

/-- Where a walk begins. -/
def Walk.start : Walk :=
  { v := { records := 0, checkpoints := 0, brk := none }, prev := genesis, cpSeq := 0 }

/-- The comparison of the chain's end with what this process wrote. -/
def compareEnd (log : Log) (w : Walk) : Verification :=
  let v := w.v
  let seq := log.seq
  let cpSeq := log.cpSeq
  let after := v.records + 1
  let past := seq + 1
  if v.records < seq then
    { v with brk := some { seq := after, problem := s!"record {after} is missing" } }
  else if seq < v.records then
    { v with
      records := seq
      brk := some { seq := past, problem := s!"record {past} was not appended by TrustedCourier" } }
  else if w.prev ≠ log.head then
    { v with
      records := seq - 1
      brk :=
        some { seq := seq, problem := s!"record {seq} is not the record TrustedCourier appended" } }
  else if w.cpSeq < cpSeq then
    { v with
      records := w.cpSeq
      brk :=
        some { seq := cpSeq, problem := s!"the signed checkpoint at record {cpSeq} is missing" } }
  else v

/-- What `Verify` makes of a walk that found no break: a checkpoint past the chain's
end covers records that are gone. -/
def conclude (log : Log) (w : Walk) (tables : Tables) : Verification :=
  match (tables.checkpoints.past w.v.records.toInt).head? with
  | some c =>
    let missing := w.v.records + 1
    let covering := c.seq
    let problem :=
      s!"record {missing} is missing; the signed checkpoint at record {covering} covers it"
    { w.v with brk := some { seq := missing, problem := problem } }
  | none => compareEnd log w

/-- `Log.Verify`, with the log's memory as it is under the lock. `keyed` says whether
the key was loaded when the call began. -/
def verify (unlocked locked : Reads) (keyed : Bool) (log : Log) (fuel : Nat) :
    Option (Except String Verification) :=
  if !keyed then some (.error errNoSigningKey)
  else
    match walk crypto unlocked fuel 0 Walk.start with
    | none => none
    | some (.error err) => some (.error err)
    | some (.ok (_, first)) =>
      if first.broken then some (.ok first.v)
      else
        match walk crypto locked fuel 0 first with
        | none => none
        | some (.error err) => some (.error err)
        | some (.ok (k, second)) =>
          if second.broken then some (.ok second.v)
          else
            match locked k with
            | .error err => some (.error ("read audit checkpoints: " ++ err))
            | .ok tables => some (.ok (conclude log second tables))

end Functions

/-! ## Rows that pass -/

section Steps

variable {crypto : Crypto} {w : Walk}

/-- A record continues the chain at a walk's end. -/
structure Continues (crypto : Crypto) (w : Walk) (row : Row) : Prop where
  number : row.seq = w.v.records + 1
  digest : row.hash = crypto.sum256 row.hashed
  names : row.prevHash = w.prev

/-- A checkpoint continues the checkpoints at a walk's end. -/
structure Covers (crypto : Crypto) (w : Walk) (joined : CheckpointRow × Option Bytes) : Prop where
  signed : crypto.verify joined.1.checkpoint.message joined.1.signature = true
  follows : joined.1.prevSeq = w.cpSeq
  head : joined.1.head = joined.2.getD []

/-- A record that continues the chain moves the walk on. -/
theorem verifyRecord_continues {row : Row} (continues : Continues crypto w row) :
    verifyRecord crypto w row = w.passRecord row := by
  obtain ⟨number, digest, names⟩ := continues
  simp [verifyRecord, number, digest, names]

/-- Only such a record passes. -/
theorem verifyRecord_passed {row : Row} (passed : (verifyRecord crypto w row).broken = false) :
    Continues crypto w row := by
  revert passed
  fun_cases verifyRecord crypto w row with
  | case4 _ _ number digest names =>
    exact fun _ => ⟨not_not.mp number, (not_not.mp digest).symm, not_not.mp names⟩
  | _ => simp [breakAt_broken]

/-- A checkpoint that continues the checkpoints moves the walk on. -/
theorem verifyCheckpoint_covers {joined : CheckpointRow × Option Bytes}
    (covers : Covers crypto w joined) :
    verifyCheckpoint crypto w joined = w.passCheckpoint joined.1 := by
  obtain ⟨signed, follows, head⟩ := covers
  have level : ¬ w.cpSeq < w.cpSeq := by
    rw [Int64.lt_iff_toInt_lt]
    omega
  simp [verifyCheckpoint, signed, follows, head, level]

/-- Only such a checkpoint passes. -/
theorem verifyCheckpoint_passed {joined : CheckpointRow × Option Bytes}
    (passed : (verifyCheckpoint crypto w joined).broken = false) : Covers crypto w joined := by
  revert passed
  fun_cases verifyCheckpoint crypto w joined with
  | case5 c signed later earlier head =>
    intro _
    refine ⟨by simpa using signed, Int64.toInt_inj.mp ?_, not_not.mp head⟩
    simp only [Int64.lt_iff_toInt_lt, c] at later earlier
    omega
  | _ => simp [breakAt_broken]

end Steps

end TrustedCourier.Audit
