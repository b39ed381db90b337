import TrustedCourier.AuditEntry
import TrustedCourier.KeyedTable

/-!
# The audit log and its steps

The log appends Audit Records to one table and signed checkpoints to another, and
keeps in memory the last record, the record the last checkpoint covers, and the
records that could not be stored yet. Everything it does under its lock is one step
here: opening it on whatever the tables hold, appending, one round of a background
retry, an interval checkpoint, closing. A process may end between any two steps; what
is left of it is the tables, so the next thing that happens is another `openLog`.

What the surroundings do in a step is given with it: which of the record insert, the
stream write, signing and the checkpoint insert fail, with what text, and the clock.
An insert that fails leaves its table unchanged. SQLite also refuses a taken key, and
a row that no longer fits: a table holds at most some 2·10^13 rows. The hash and the
signature scheme are parameters. A failing read of the tables only keeps `Open` from
returning a log, which is no step. What the process logs is not modelled.
-/

namespace TrustedCourier.Audit

/-- The hash, and signing and verifying with the audit signing key. -/
structure Crypto where
  sum256 : Bytes → Bytes
  sign : Bytes → Bytes
  verify : Bytes → Bytes → Bool

/-- A signed statement that record `seq` has hash `head` and that the statement before
it covered record `prevSeq`. -/
structure Checkpoint where
  seq : Int64
  prevSeq : Int64
  ms : Int64
  head : Bytes
deriving DecidableEq, Repr

/-- What every signed message starts with. -/
def checkpointContext : Bytes := bytes "TrustedCourier audit checkpoint\x00"

/-- `binary.BigEndian.AppendUint64` of the two's complement. -/
def bigEndian (n : Int64) : Bytes :=
  ([56, 48, 40, 32, 24, 16, 8, 0] : List UInt64).map fun shift => (n.toUInt64 >>> shift).toUInt8

/-- What a checkpoint's signature covers. -/
def Checkpoint.message (c : Checkpoint) : Bytes :=
  checkpointContext ++ (bigEndian c.seq ++ (bigEndian c.prevSeq ++ (bigEndian c.ms ++ c.head)))

/-- A row of `audit_checkpoints`. -/
structure CheckpointRow where
  seq : Int64
  prevSeq : Int64
  time : Int64
  head : Bytes
  signature : Bytes
deriving DecidableEq, Repr

/-- The statement a row signs. -/
def CheckpointRow.checkpoint (c : CheckpointRow) : Checkpoint where
  seq := c.seq
  prevSeq := c.prevSeq
  ms := c.time
  head := c.head

/-- The two tables, each with its sequence number as primary key. -/
structure Tables where
  records : Table Row fun row => row.seq.toInt
  checkpoints : Table CheckpointRow fun c => c.seq.toInt

/-- How many rows fit into a table. -/
def maxRows : Nat := 20000000000000

/-- What `INSERT` reports for a taken key or a full database. -/
def refused : String := "constraint failed or database is full"

/-- An `INSERT` that may fail with this text. -/
def exec {ρ : Type} {key : ρ → Int} (fault : Option String) (t : Table ρ key) (row : ρ) :
    Except String (Table ρ key) :=
  match fault with
  | some err => .error err
  | none =>
    match t.insert maxRows row with
    | none => .error refused
    | some grown => .ok grown

/-- The previous hash of the first record. -/
def genesis : Bytes := List.replicate 32 0

/-- A record waiting to be stored, with the time it was made. -/
structure Pending where
  record : Record
  ms : Int64
deriving DecidableEq, Repr

/-- The record a row was stored for. -/
def Row.pending (row : Row) : Pending := { record := row.record, ms := row.time }

/-- A log's memory. `retriers` counts the running `retryStore` goroutines, and
`stopped` says that the context has ended. -/
structure Log where
  seq : Int64
  head : Bytes
  cpSeq : Int64
  keyed : Bool
  backlog : List Pending
  storeErr : String
  keyLoaded : Bool
  backlogged : Bool
  stopped : Bool
  retriers : Nat
deriving DecidableEq, Repr

/-- A log with the tables and the stream it writes to. -/
structure State where
  tables : Tables
  lines : List Bytes
  log : Log

/-- What the surroundings do while one record is stored. -/
structure Env where
  recordErr : Option String
  streamErr : Option String
  signErr : Option String
  checkpointErr : Option String
  now : Int64
deriving DecidableEq, Repr

/-- How `store` ends: the record is not stored, or it is and later failures are kept
for the caller. -/
inductive Outcome where
  | failed (err : String)
  | stored (errs : List String)
deriving DecidableEq, Repr

section Functions

variable (crypto : Crypto) (cadence : Int64)

/-- `Log.checkpoint`. -/
def checkpoint (env : Env) (s : State) : State × Option String :=
  if !s.log.keyed || s.log.seq ≤ s.log.cpSeq then (s, none)
  else
    let seq := s.log.seq
    let c : Checkpoint := { seq := seq, prevSeq := s.log.cpSeq, ms := env.now, head := s.log.head }
    match env.signErr with
    | some err => (s, some s!"sign the checkpoint at Audit Record {seq}: {err}")
    | none =>
      let row : CheckpointRow :=
        { seq := c.seq, prevSeq := c.prevSeq, time := c.ms, head := c.head,
          signature := crypto.sign c.message }
      match exec env.checkpointErr s.tables.checkpoints row with
      | .error err => (s, some s!"store the checkpoint at Audit Record {seq}: {err}")
      | .ok grown =>
        ({ s with
          tables := { s.tables with checkpoints := grown }
          log := { s.log with cpSeq := c.seq } }, none)

/-- The row `Log.store` inserts for a pending record. -/
def nextRow (log : Log) (p : Pending) : Row :=
  let e := newEntry (log.seq + 1) p.ms p.record log.head
  { seq := e.seq, time := p.ms, agentTokenID := e.agentTokenID, secretName := e.secretName,
    delivery := e.delivery, upstream := e.upstream, upstreamHost := e.upstreamHost,
    decision := e.decision, reason := e.reason, upstreamStatus := e.upstreamStatus,
    failure := e.failure, prevHash := log.head, hash := crypto.sum256 e.hashed }

/-- The line that is streamed for a pending record. -/
def nextLine (log : Log) (p : Pending) : Bytes :=
  let e := newEntry (log.seq + 1) p.ms p.record log.head
  Entry.json { e with hash := hexString (crypto.sum256 e.hashed) } ++ [0x0A]

/-- Stream the line of a record that has been stored. -/
def writeLine (env : Env) (line : Bytes) (s : State) : State × List String :=
  let seq := s.log.seq
  match env.streamErr with
  | some err => (s, [s!"Audit Record {seq} stored but not streamed: {err}"])
  | none => ({ s with lines := s.lines ++ [line] }, [])

/-- The state once this row is inserted. -/
def recorded (grown : Table Row fun row => row.seq.toInt) (row : Row) (s : State) : State :=
  { s with
    tables := { s.tables with records := grown }
    log := { s.log with seq := row.seq, head := row.hash } }

/-- What follows once a record is stored: it is streamed, and a checkpoint is signed
when one is due. -/
def finishStore (env : Env) (line : Bytes) (s : State) : State × List String :=
  let streamed := writeLine env line s
  let signed :=
    if streamed.1.log.seq - streamed.1.log.cpSeq ≥ cadence then checkpoint crypto env streamed.1
    else (streamed.1, none)
  (signed.1, streamed.2 ++ signed.2.toList)

/-- `Log.store`. -/
def store (env : Env) (p : Pending) (s : State) : State × Outcome :=
  match exec env.recordErr s.tables.records (nextRow crypto s.log p) with
  | .error err => (s, .failed ("store Audit Record: " ++ err))
  | .ok grown =>
    let finished := finishStore crypto cadence env (nextLine crypto s.log p)
      (recorded grown (nextRow crypto s.log p) s)
    (finished.1, .stored finished.2)

/-- The loop of `Log.flush` over the backlog, with the errors of the records stored so
far. The surroundings of the `k`th store are `env k`. -/
def flushFrom (env : Nat → Env) : Nat → List Pending → State → List String → State × List String
  | _, [], s, errs =>
    ({ s with log := { s.log with backlog := [], storeErr := "", backlogged := false } }, errs)
  | k, p :: rest, s, errs =>
    match store crypto cadence (env k) p s with
    | (s, .failed err) =>
      let retriers :=
        if !s.log.backlogged && !s.log.stopped then s.log.retriers + 1 else s.log.retriers
      ({ s with log :=
          { s.log with
            backlog := p :: rest, storeErr := err, backlogged := true, retriers := retriers } },
        errs ++ [err])
    | (s, .stored more) => flushFrom env (k + 1) rest s (errs ++ more)

/-- `Log.flush`. -/
def flush (env : Nat → Env) (s : State) : State × List String :=
  flushFrom crypto cadence env 0 s.log.backlog s []

/-- `Log.Append` of a record made at this time. -/
def append (env : Nat → Env) (p : Pending) (s : State) : State × List String :=
  flush crypto cadence env { s with log := { s.log with backlog := s.log.backlog ++ [p] } }

/-- One round of `Log.retryStore`, which ends once the backlog is empty. -/
def retryStore (env : Nat → Env) (s : State) : State :=
  if s.log.retriers = 0 then s
  else
    let flushed := (flush crypto cadence env s).1
    if flushed.log.backlog = [] then
      { flushed with log := { flushed.log with retriers := flushed.log.retriers - 1 } }
    else flushed

/-- `Log.Close` once background work has ended. -/
def close (env : Nat → Env) (last : Env) (s : State) : State × List String :=
  let flushed :=
    flush crypto cadence env
      { s with log := { s.log with stopped := true, retriers := 0, keyLoaded := false } }
  let lost := flushed.1.log.backlog.length
  let joined := "\n".intercalate flushed.2
  let errs := if lost > 0 then [s!"{lost} Audit Records lost at shutdown: {joined}"] else flushed.2
  if !flushed.1.log.keyed then (flushed.1, errs)
  else
    let signed := checkpoint crypto last flushed.1
    ({ signed.1 with log := { signed.1.log with keyed := false } }, errs ++ signed.2.toList)

/-- `Open` on what the tables hold. -/
def openLog (tables : Tables) : Log where
  seq := ((tables.records.last?.map Row.seq).getD 0)
  head := ((tables.records.last?.map Row.hash).getD genesis)
  cpSeq := ((tables.checkpoints.last?.map CheckpointRow.seq).getD 0)
  keyed := false
  backlog := []
  storeErr := ""
  keyLoaded := false
  backlogged := false
  stopped := false
  retriers := 0

end Functions

/-! ## Runs -/

/-- What can happen. `loadKey` is the moment the key is stored under the lock, and
`announceKey` the later one at which `Ready` learns of it; `stop` begins `Close`. -/
inductive Step where
  | openLog
  | loadKey
  | announceKey
  | append (env : Nat → Env) (p : Pending)
  | retryStore (env : Nat → Env)
  | interval (env : Env)
  | stop
  | close (env : Nat → Env) (last : Env)

/-- The tables and the stream, which outlive a process, and the log of the running
one. -/
structure World where
  tables : Tables
  lines : List Bytes
  log : Option Log

/-- Before the first process. -/
def World.init : World :=
  { tables := { records := .empty, checkpoints := .empty }, lines := [], log := none }

/-- A world in which this state's process runs. -/
def State.world (s : State) : World := { tables := s.tables, lines := s.lines, log := some s.log }

/-- What a running process does in a step. -/
def State.step (crypto : Crypto) (cadence : Int64) (s : State) : Step → State
  | .openLog => { s with log := openLog s.tables }
  | .loadKey => { s with log := { s.log with keyed := true } }
  | .announceKey => { s with log := { s.log with keyLoaded := s.log.keyed } }
  | .append env p => (append crypto cadence env p s).1
  | .retryStore env => retryStore crypto cadence env s
  | .interval env => (checkpoint crypto env s).1
  | .stop => { s with log := { s.log with stopped := true } }
  | .close env last => (close crypto cadence env last s).1

/-- Without a process nothing happens but `Open`. -/
def World.step (crypto : Crypto) (cadence : Int64) (w : World) (step : Step) : World :=
  match w.log with
  | some log =>
    (State.step crypto cadence { tables := w.tables, lines := w.lines, log := log } step).world
  | none =>
    match step with
    | .openLog => { w with log := some (openLog w.tables) }
    | _ => w

/-- A world after these steps. -/
def World.run (crypto : Crypto) (cadence : Int64) (w : World) (steps : List Step) : World :=
  steps.foldl (World.step crypto cadence) w

end TrustedCourier.Audit
