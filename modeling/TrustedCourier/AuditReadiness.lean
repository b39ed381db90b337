import TrustedCourier.AuditChain
import TrustedCourier.Runs

/-!
# Whether the audit log stores

`Ready` never waits on the log's lock: it reads two flags. What it may conclude from
them rests on everything that runs beside it, so a process is taken apart here into the
parties that share the lock: any number of calls of `Append`, the goroutine that loads the
key and then signs at intervals, each `retryStore` goroutine by itself, and `Close` with
the points at which it waits. A locked section is one action, so the states between
actions are those in which the lock is free. A process may end at any of them.

A flush leaves the flag that says whether it left records waiting, and starts a goroutine
when it is the first to leave some. A goroutine returns only after a flush that left
none. The one invariant that follows, that someone waits to retry while records wait, is
carried through every interleaving.
-/

namespace TrustedCourier.Audit

open Runs List Option

/-- How many records may follow the last checkpoint before the next is signed. -/
structure Checkpoints where
  records : Int64
  positive : 1 ≤ records.toInt

/-- The number the config sets, if it sets one: `none` inside stands for a null or for
something that is not an `int`. -/
def Checkpoints.validate : Option (Option Int64) → Except String Checkpoints
  | none => .ok ⟨1000, by decide⟩
  | some none =>
    .error "audit.checkpoints.records must be at least 1; omit it for the default of 1000"
  | some (some n) =>
    if positive : 1 ≤ n.toInt then .ok ⟨n, positive⟩
    else .error "audit.checkpoints.records must be at least 1; omit it for the default of 1000"

/-- Why `Ready` refuses Deliveries. -/
inductive Unready where
  | keyNotLoaded
  | notStoring
deriving DecidableEq, Repr

/-- `Log.Ready`. -/
def ready (log : Log) : Option Unready :=
  if !log.keyLoaded then some .keyNotLoaded
  else if log.backlogged then some .notStoring
  else none

/-! ## A process -/

/-- A `retryStore` goroutine: in its `select`, past a flush that left nothing waiting, or
gone. -/
inductive Worker where
  | waiting
  | leaving
  | returned
deriving DecidableEq, Repr

/-- The goroutine of `Start`: not started, in `loadKey`, between storing the key and
setting the flag, in `signEveryInterval`, or gone. -/
inductive Loader where
  | idle
  | fetching
  | loaded
  | ticking
  | ended
deriving DecidableEq, Repr

/-- Where `Close` is: not called, past `l.stop()`, past `l.wg.Wait()`, past clearing the
flag, done. -/
inductive Closing where
  | running
  | stopped
  | waited
  | silenced
  | closed
deriving DecidableEq, Repr

/-- A log and the goroutines at work on it. The log's `retriers` are those of `workers`
that are in their `select`. -/
structure Process where
  state : State
  workers : List Worker
  loader : Loader
  closing : Closing

/-- What can happen while the lock is free. The `i`th `retryStore` goroutine takes the
lock and flushes, returns, or finds that the context has ended. -/
inductive Act where
  | restart
  | start
  | loadKey
  | announceKey
  | interval (env : Env)
  | endLoader
  | append (env : Nat → Env) (p : Pending)
  | retryStore (i : Nat) (env : Nat → Env)
  | leave (i : Nat)
  | abandon (i : Nat)
  | stop
  | wait
  | silence
  | close (env : Nat → Env) (last : Env)

/-- A process that has just opened the log. -/
def Process.opened (tables : Tables) (lines : List Bytes) : Process where
  state := { tables := tables, lines := lines, log := openLog tables }
  workers := []
  loader := .idle
  closing := .running

/-- The first process. -/
def Process.first : Process := .opened World.init.tables World.init.lines

/-- After a locked section that may have started goroutines. -/
def Process.joined (p : Process) (s : State) : Process :=
  { p with state := s, workers := p.workers ++
    List.replicate (s.log.retriers - p.state.log.retriers) .waiting }

/-- Other memory. -/
def Process.remember (p : Process) (log : Log) : Process :=
  { p with state := { p.state with log := log } }

section Machine

variable (crypto : Crypto) (cadence : Int64)

/-- One action of one party, or `none` where that party is not at it. -/
def Process.step (p : Process) : Act → Option Process
  | .restart => some (.opened p.state.tables p.state.lines)
  | .start =>
    if p.loader = .idle ∧ p.closing = .running then some { p with loader := .fetching } else none
  | .loadKey =>
    if p.loader = .fetching then
      some { p.remember { p.state.log with keyed := true } with loader := .loaded }
    else none
  | .announceKey =>
    if p.loader = .loaded then
      some { p.remember { p.state.log with keyLoaded := true } with loader := .ticking }
    else none
  | .interval env =>
    if p.loader = .ticking then some { p with state := (checkpoint crypto env p.state).1 } else none
  | .endLoader =>
    if p.state.log.stopped ∧ (p.loader = .fetching ∨ p.loader = .ticking) then
      some { p with loader := .ended }
    else none
  | .append env r => some (p.joined (append crypto cadence env r p.state).1)
  | .retryStore i env =>
    if p.workers[i]? = some .waiting then
      let flushed := retryStore crypto cadence env p.state
      let joined := p.joined flushed
      if flushed.log.backlog = [] then some { joined with workers := joined.workers.set i .leaving }
      else some joined
    else none
  | .leave i =>
    if p.workers[i]? = some .leaving then some { p with workers := p.workers.set i .returned }
    else none
  | .abandon i =>
    if p.workers[i]? = some .waiting ∧ p.state.log.stopped then
      some { p.remember { p.state.log with retriers := p.state.log.retriers - 1 } with
        workers := p.workers.set i .returned }
    else none
  | .stop =>
    if p.closing = .running then
      some { p.remember { p.state.log with stopped := true } with closing := .stopped }
    else none
  | .wait =>
    if p.closing = .stopped ∧ (p.loader = .idle ∨ p.loader = .ended) ∧
      (∀ worker ∈ p.workers, worker = .returned) then
      some { p with closing := .waited }
    else none
  | .silence =>
    if p.closing = .waited then
      some { p.remember { p.state.log with keyLoaded := false } with closing := .silenced }
    else none
  | .close env last =>
    if p.closing = .silenced then
      some { p with state := (close crypto cadence env last p.state).1, closing := .closed }
    else none

end Machine

/-- The records an action appends. -/
def Act.appends : Act → List Pending
  | .append _ p => [p]
  | _ => []

/-! ## What a flush leaves -/

section Flushes

variable {crypto : Crypto} (cadence : Int64) {s : State}

/-- A flush flags what it leaves waiting, and starts a goroutine when nothing was flagged
before. It leaves the rest of memory as it was. -/
structure FlushedFrom (log after : Log) : Prop where
  flagged : after.backlogged = true ↔ after.backlog ≠ []
  retriers : after.retriers =
    if after.backlog ≠ [] ∧ log.backlogged = false ∧ log.stopped = false then log.retriers + 1
    else log.retriers
  stopped : after.stopped = log.stopped
  keyed : after.keyed = log.keyed
  keyLoaded : after.keyLoaded = log.keyLoaded

/-- By induction on what waits: a record that is stored changes where the tables end
only. -/
theorem flushFrom_memory (env : Nat → Env) (k : Nat) (backlog : List Pending) (errs : List String)
    (synced : Synced crypto s) :
    FlushedFrom s.log (flushFrom crypto cadence env k backlog s errs).1.log := by
  induction backlog generalizing k s errs with
  | nil => exact ⟨by simp [flushFrom], by simp [flushFrom], rfl, rfl, rfl⟩
  | cons p rest ih =>
    rcases store_advance cadence (env k) p synced with
      ⟨err, failed⟩ | ⟨row, more, after, stored, _, advance, frame⟩
    · simp only [flushFrom, failed]
      exact ⟨by simp, by simp, rfl, rfl, rfl⟩
    · simp only [flushFrom, stored]
      have later := ih (k + 1) (errs ++ more) advance.synced
      rw [frame] at later
      exact ⟨later.flagged, later.retriers, later.stopped, later.keyed, later.keyLoaded⟩

/-- A checkpoint that is signed without an error covers the last record. -/
theorem checkpoint_covers {env : Env} (keyed : s.log.keyed = true)
    (waiting : s.log.cpSeq < s.log.seq) (settled : (checkpoint crypto env s).2 = none) :
    (checkpoint crypto env s).1.log.cpSeq = (checkpoint crypto env s).1.log.seq := by
  have due : ¬ (!s.log.keyed || s.log.seq ≤ s.log.cpSeq) = true := by
    simpa [keyed] using waiting
  unfold checkpoint at settled ⊢
  rw [if_neg due] at settled ⊢
  cases failing : env.signErr with
  | some err => simp [failing] at settled
  | none =>
    simp only [failing] at settled ⊢
    split at settled
    · simp at settled
    · simp

/-- Fewer records than this follow the last checkpoint. -/
def Fresh (cadence : Int64) (log : Log) : Prop := log.seq.toInt - log.cpSeq.toInt < cadence.toInt

/-- The distance to the last checkpoint does not wrap. -/
theorem toInt_uncovered (synced : Synced crypto s) :
    (s.log.seq - s.log.cpSeq).toInt = s.log.seq.toInt - s.log.cpSeq.toInt := by
  obtain ⟨low, high⟩ := synced.covered_le
  have count := synced.count
  have few := synced.few
  unfold maxRows at few
  rw [Int64.toInt_sub]
  apply Int.bmod_eq_of_le <;> omega

/-- A record that is stored without any failure is followed by a checkpoint when one is
due. -/
theorem finishStore_fresh {env : Env} {line : Bytes} (positive : 1 ≤ cadence.toInt)
    (synced : Synced crypto s) (keyed : s.log.keyed = true)
    (settled : (finishStore crypto cadence env line s).2 = []) :
    Fresh cadence (finishStore crypto cadence env line s).1.log := by
  obtain ⟨tables, log⟩ := writeLine_state env line (s := s)
  have streamed : Synced crypto (writeLine env line s).1 := by
    rw [Synced, tables, log]
    exact synced
  have distance := toInt_uncovered streamed
  unfold finishStore at settled ⊢
  simp only [append_eq_nil_iff] at settled ⊢
  obtain ⟨_, settled⟩ := settled
  split at settled
  · next due =>
    rw [if_pos due]
    rw [ge_iff_le, Int64.le_iff_toInt_le, distance] at due
    have waiting : (writeLine env line s).1.log.cpSeq < (writeLine env line s).1.log.seq := by
      rw [Int64.lt_iff_toInt_lt]
      omega
    have covered :=
      checkpoint_covers (by rw [log]; exact keyed) waiting (toList_eq_nil_iff.mp settled)
    rw [Fresh, covered]
    omega
  · next early =>
    rw [if_neg early]
    rw [ge_iff_le, Int64.le_iff_toInt_le, distance] at early
    exact Int.not_le.mp early

/-- Storing without any failure leaves fewer records than the cadence uncovered. -/
theorem store_fresh {env : Env} {p : Pending} {after : State} (positive : 1 ≤ cadence.toInt)
    (synced : Synced crypto s) (keyed : s.log.keyed = true)
    (stored : store crypto cadence env p s = (after, .stored [])) :
    Fresh cadence after.log := by
  unfold store at stored
  cases done : exec env.recordErr s.tables.records (nextRow crypto s.log p) with
  | error err => simp [done] at stored
  | ok grown =>
    simp only [done, Prod.mk.injEq, Outcome.stored.injEq] at stored
    obtain ⟨rfl, settled⟩ := stored
    obtain ⟨_, chain⟩ := Chain.record synced rfl rfl (nextRow_hash s.log p) (exec_ok done)
    exact finishStore_fresh cadence positive chain keyed settled

/-- Errors are only ever added. -/
theorem flushFrom_errs {env : Nat → Env} {k : Nat} {backlog : List Pending} {errs : List String}
    (settled : (flushFrom crypto cadence env k backlog s errs).2 = []) : errs = [] := by
  induction backlog generalizing k s errs with
  | nil => exact settled
  | cons p rest ih =>
    simp only [flushFrom] at settled
    split at settled
    · simp at settled
    · exact (append_eq_nil_iff.mp (ih settled)).1

/-- A flush that stores something and reports no failure leaves fewer records than the
cadence uncovered. By induction on what waits: the last record that is stored decides. -/
theorem flushFrom_fresh {env : Nat → Env} {k : Nat} {backlog : List Pending} {errs : List String}
    (positive : 1 ≤ cadence.toInt) (synced : Synced crypto s) (keyed : s.log.keyed = true)
    (some : backlog ≠ [] ∨ Fresh cadence s.log)
    (settled : (flushFrom crypto cadence env k backlog s errs).2 = []) :
    Fresh cadence (flushFrom crypto cadence env k backlog s errs).1.log := by
  induction backlog generalizing k s errs with
  | nil => exact some.resolve_left (· rfl)
  | cons p rest ih =>
    rcases store_advance cadence (env k) p synced with
      ⟨err, failed⟩ | ⟨row, more, after, stored, _, advance, frame⟩
    · simp [flushFrom, failed] at settled
    · simp only [flushFrom, stored] at settled ⊢
      have quiet : more = [] := (append_eq_nil_iff.mp (flushFrom_errs cadence settled)).2
      rw [quiet] at stored
      exact ih advance.synced (by rw [frame]; exact keyed)
        (.inr (store_fresh cadence positive synced keyed stored)) settled

end Flushes

/-- The number of records that follow the last stored checkpoint. -/
def Tables.uncovered (tables : Tables) : Nat :=
  (tables.records.past ((tables.checkpoints.last?.map (·.seq.toInt)).getD 0)).length

/-- Of rows numbered one by one, those past a number are as many as the numbers left. -/
theorem length_past_numbered {rows : List Row} (start n : Int)
    (numbered : ∀ (i : Nat) (row : Row), rows[i]? = some row → row.seq.toInt = start + i + 1) :
    (rows.filter (n < ·.seq.toInt)).length = rows.length - (n - start).toNat := by
  induction rows generalizing start with
  | nil => simp
  | cons row rest ih =>
    have number := numbered 0 row rfl
    have later : ∀ (i : Nat) (other : Row), rest[i]? = some other →
        other.seq.toInt = start + 1 + i + 1 := by
      intro i other found
      have := numbered (i + 1) other found
      omega
    have kept := ih (start + 1) later
    rw [length_cons]
    by_cases past : n < row.seq.toInt
    · rw [filter_cons_of_pos (by simpa using past), length_cons]
      omega
    · rw [filter_cons_of_neg (by simpa using past)]
      omega

/-- The distance kept in memory is the one in the tables. -/
theorem uncovered_of_synced {crypto : Crypto} {s : State} (synced : Synced crypto s) :
    (s.tables.uncovered : Int) = s.log.seq.toInt - s.log.cpSeq.toInt := by
  obtain ⟨_, _, covered⟩ := synced.ends
  obtain ⟨low, high⟩ := synced.covered_le
  have count := synced.count
  have cut : ((s.tables.checkpoints.rows.getLast?.map (·.seq.toInt)).getD 0) =
      s.log.cpSeq.toInt := by
    rw [covered, toInt_last]
  have length := length_past_numbered 0 s.log.cpSeq.toInt
    (fun i row found => by rw [synced.numbered i row found]; omega)
  rw [Tables.uncovered, Table.last?, cut, Table.past, length]
  omega

/-- An `Append` that reports no failure while the key is loaded leaves fewer records than
the cadence uncovered. -/
theorem append_fresh {crypto : Crypto} {cadence : Int64} {s : State} {env : Nat → Env} {r : Pending}
    (positive : 1 ≤ cadence.toInt) (synced : Synced crypto s) (keyed : s.log.keyed = true)
    (settled : (append crypto cadence env r s).2 = []) :
    ((append crypto cadence env r s).1.tables.uncovered : Int) < cadence.toInt := by
  obtain ⟨_, advance, _⟩ := step_advance cadence (.append env r) synced
  have kept : Synced crypto (append crypto cadence env r s).1 := advance.synced
  rw [uncovered_of_synced kept]
  exact flushFrom_fresh cadence positive synced keyed (.inl (by simp)) settled

/-! ## What every interleaving keeps -/

/-- Records wait exactly while they are flagged, and until `Close` some goroutine then
waits to retry. The key flag is set only while there is a key. -/
structure Steady (crypto : Crypto) (p : Process) : Prop where
  synced : Synced crypto p.state
  flagged : p.state.log.backlogged = true ↔ p.state.log.backlog ≠ []
  counted : p.workers.count .waiting = p.state.log.retriers
  watched : p.state.log.backlog ≠ [] → p.state.log.stopped = false → 0 < p.state.log.retriers
  stopped : p.state.log.stopped = true ↔ p.closing ≠ .running
  keyed : p.state.log.keyLoaded = true → p.state.log.keyed = true
  loaded : p.loader = .loaded → p.state.log.keyed = true
  alone : p.closing ≠ .running → p.closing ≠ .stopped →
    (p.loader = .idle ∨ p.loader = .ended) ∧ p.state.log.retriers = 0

section Interleavings

variable {crypto : Crypto} {cadence : Int64} {p : Process}

/-- A process begins with nothing waiting. -/
theorem opened_steady {tables : Tables} {lines : List Bytes} {seq : Int64} {head : Bytes}
    {cpSeq : Int64} (chain : Chain crypto tables seq head cpSeq) :
    Steady crypto (.opened tables lines) :=
  ⟨openLog_synced chain lines, by simp [Process.opened, openLog],
    rfl, by simp [Process.opened, openLog],
    by simp [Process.opened, openLog], by simp [Process.opened, openLog], by simp [Process.opened],
    by simp [Process.opened]⟩

/-- Memory that differs in where the tables end only is as good. -/
theorem Steady.advanced (steady : Steady crypto p) {s : State} (synced : Synced crypto s)
    (frame : s.log = { p.state.log with cpSeq := s.log.cpSeq }) :
    Steady crypto { p with state := s } := by
  have backlogged : s.log.backlogged = p.state.log.backlogged := by rw [frame]
  have backlog : s.log.backlog = p.state.log.backlog := by rw [frame]
  have retriers : s.log.retriers = p.state.log.retriers := by rw [frame]
  have stopped : s.log.stopped = p.state.log.stopped := by rw [frame]
  have keyLoaded : s.log.keyLoaded = p.state.log.keyLoaded := by rw [frame]
  have keyed : s.log.keyed = p.state.log.keyed := by rw [frame]
  refine ⟨synced, ?_, ?_, ?_, ?_, ?_, ?_, ?_⟩
  · simpa only [backlogged, backlog] using steady.flagged
  · simpa only [retriers] using steady.counted
  · simpa only [backlog, stopped, retriers] using steady.watched
  · simpa only [stopped] using steady.stopped
  · simpa only [keyLoaded, keyed] using steady.keyed
  · simpa only [keyed] using steady.loaded
  · simpa only [retriers] using steady.alone

/-- Goroutines that a section has started are counted. -/
theorem count_joined (counted : p.workers.count .waiting = p.state.log.retriers) {s : State}
    (grown : p.state.log.retriers ≤ s.log.retriers) :
    (p.joined s).workers.count .waiting = s.log.retriers := by
  simp only [Process.joined, count_append, count_replicate_self, counted]
  omega

/-- A goroutine in its `select` is counted. -/
theorem count_here {workers : List Worker} {i : Nat} (here : workers[i]? = some .waiting) :
    0 < workers.count .waiting :=
  count_pos_iff.mpr (mem_of_getElem? here)

/-- A goroutine that leaves its `select` for good is counted no more. -/
theorem count_left {workers : List Worker} {i : Nat} {next : Worker}
    (here : workers[i]? = some .waiting) (gone : next ≠ .waiting) :
    (workers.set i next).count .waiting = workers.count .waiting - 1 := by
  obtain ⟨inside, found⟩ := List.getElem?_eq_some_iff.mp here
  rw [count_set inside, found]
  simp [gone]

/-- A flush of what waits, and perhaps more, keeps the process steady: if it leaves
records, either some were flagged before and a goroutine waits for them, or one is started. -/
theorem Steady.flushed (cadence : Int64) (steady : Steady crypto p) (backlog : List Pending)
    (env : Nat → Env) :
    Steady crypto
      (p.joined (flush crypto cadence env
      { p.state with log := { p.state.log with backlog := backlog } }).1) := by
  let begun : State := { p.state with log := { p.state.log with backlog := backlog } }
  have synced : Synced crypto begun := steady.synced
  obtain ⟨_, advance, _⟩ := flush_advance cadence env synced
  have left := flushFrom_memory cadence env 0 backlog [] synced
  have grown : p.state.log.retriers ≤ (flush crypto cadence env begun).1.log.retriers := by
    rw [flush, left.retriers]
    split <;> simp [begun]
  refine ⟨advance.synced, left.flagged, count_joined steady.counted grown, ?_, ?_, ?_, ?_, ?_⟩
  · intro remains open'
    have running : p.state.log.stopped = false := left.stopped.symm.trans open'
    by_cases flagged : p.state.log.backlogged = true
    · exact Nat.lt_of_lt_of_le (steady.watched (steady.flagged.mp flagged) running) grown
    · have started := left.retriers
      rw [if_pos ⟨remains, Bool.not_eq_true _ ▸ flagged, running⟩] at started
      exact Nat.lt_of_lt_of_eq (Nat.succ_pos _) started.symm
  · exact (Bool.eq_iff_iff.mp left.stopped).trans steady.stopped
  · intro known
    exact left.keyed.trans (steady.keyed (left.keyLoaded.symm.trans known))
  · intro known
    exact left.keyed.trans (steady.loaded known)
  · intro begun past
    obtain ⟨quiet, none⟩ := steady.alone begun past
    have ended : p.state.log.stopped = true := steady.stopped.mpr begun
    exact ⟨quiet,
      (left.retriers.trans (if_neg fun waits => Bool.noConfusion
        (ended.symm.trans waits.2.2))).trans none⟩

variable {next : Process}

section

variable (steady : Steady crypto p)
include steady

/-- A round of a goroutine in its `select` keeps the process steady: it goes only when it
leaves nothing waiting. -/
theorem Steady.retried {i : Nat} (here : p.workers[i]? = some .waiting) (env : Nat → Env)
    (taken : p.step crypto cadence (.retryStore i env) = some next) : Steady crypto next := by
  have positive := count_here here
  rw [steady.counted] at positive
  have flushed := steady.flushed cadence p.state.log.backlog env
  have left := flushFrom_memory cadence env 0 p.state.log.backlog [] steady.synced
  rw [Process.step, if_pos here, retryStore, if_neg (Nat.ne_of_gt positive)] at taken
  by_cases empty : (flush crypto cadence env p.state).1.log.backlog = []
  · have same : (flush crypto cadence env p.state).1.log.retriers = p.state.log.retriers :=
      left.retriers.trans (if_neg fun waits => waits.1 empty)
    have none : p.state.log.retriers - 1 - p.state.log.retriers = 0 := by omega
    simp only [if_pos empty] at taken
    cases taken
    refine ⟨flushed.synced, flushed.flagged, ?_, fun remains => absurd empty remains,
      flushed.stopped, flushed.keyed,
      flushed.loaded, fun begun past => absurd (steady.alone begun past).2 (Nat.ne_of_gt positive)⟩
    simp only [Process.joined, same, none, replicate_zero, append_nil]
    rw [count_left here (by simp), steady.counted]
  · simp only [if_neg empty] at taken
    cases taken
    exact flushed

/-- The locked part of `Close` keeps the process steady. -/
theorem Steady.shut (silenced : p.closing = .silenced) (env : Nat → Env) (last : Env) :
    Steady crypto
    { p with state := (close crypto cadence env last p.state).1, closing := .closed } := by
  obtain ⟨quiet, none⟩ := steady.alone (by simp [silenced]) (by simp [silenced])
  have counted : p.workers.count .waiting = 0 := steady.counted.trans none
  have unloaded : p.loader ≠ .loaded := by rcases quiet with idle | ended <;> simp [*]
  let ending : Process :=
    p.remember { p.state.log with stopped := true, retriers := 0, keyLoaded := false }
  have begun : Steady crypto ending := { steady with
    counted := counted
    watched := by simp [ending, Process.remember]
    stopped := by simp [ending, Process.remember, silenced]
    keyed := by simp [ending, Process.remember]
    alone := fun _ _ => ⟨quiet, rfl⟩ }
  let flushed := (flush crypto cadence env ending.state).1
  have left : FlushedFrom ending.state.log flushed.log :=
    flushFrom_memory cadence env 0 _ [] begun.synced
  have stored := begun.flushed cadence ending.state.log.backlog env
  have closed : Steady crypto { p with state := flushed, closing := .closed } := { stored with
    counted :=
      counted.trans (left.retriers.trans (if_neg (by simp [ending, Process.remember]))).symm
    stopped := by simp [left.stopped, ending, Process.remember]
    loaded := fun loaded => absurd loaded unloaded
    alone := fun _ _ => ⟨quiet, left.retriers.trans (if_neg (by simp [ending, Process.remember]))⟩ }
  unfold close
  simp only
  split
  · exact closed
  · obtain ⟨advance, frame⟩ := checkpoint_advance last closed.synced
    have signed := closed.advanced advance.synced frame
    have hidden : (checkpoint crypto last flushed).1.log.keyLoaded = false := by
      rw [frame]
      exact left.keyLoaded
    exact { signed with
      keyed := fun known => Bool.noConfusion (hidden.symm.trans known)
      loaded := fun loaded => absurd loaded unloaded }

/-- Every action keeps the process steady. -/
theorem step_steady {act : Act}
    (taken : p.step crypto cadence act = some next) : Steady crypto next := by
  cases act with
  | restart =>
    cases taken
    exact opened_steady steady.synced
  | append env r =>
    cases taken
    exact steady.flushed cadence _ env
  | retryStore i env =>
    by_cases here : p.workers[i]? = some .waiting
    · exact steady.retried here env taken
    · simp [Process.step, here] at taken
  | start =>
    obtain ⟨⟨_, running⟩, rfl⟩ := of_guard taken
    exact { steady with loaded := by simp, alone := fun begun => absurd running begun }
  | loadKey =>
    obtain ⟨fetching, rfl⟩ := of_guard taken
    refine { steady with
      keyed := fun _ => rfl, loaded := fun _ => rfl, alone := fun begun past => ?_ }
    exact absurd (steady.alone begun past).1 (by simp [fetching])
  | announceKey =>
    obtain ⟨loaded, rfl⟩ := of_guard taken
    refine { steady with
      keyed := fun _ => steady.loaded loaded, loaded := by simp, alone := fun begun past => ?_ }
    exact absurd (steady.alone begun past).1 (by simp [loaded])
  | interval env =>
    obtain ⟨_, rfl⟩ := of_guard taken
    obtain ⟨advance, frame⟩ := checkpoint_advance env steady.synced
    exact steady.advanced advance.synced frame
  | endLoader =>
    obtain ⟨_, rfl⟩ := of_guard taken
    exact { steady with
      loaded := by simp, alone := fun begun past => ⟨.inr rfl, (steady.alone begun past).2⟩ }
  | leave i =>
    obtain ⟨here, rfl⟩ := of_guard taken
    obtain ⟨inside, found⟩ := List.getElem?_eq_some_iff.mp here
    refine { steady with counted := ?_ }
    rw [count_set inside, found, ← steady.counted]
    simp
  | abandon i =>
    obtain ⟨⟨here, ended⟩, rfl⟩ := of_guard taken
    have positive := count_here here
    rw [steady.counted] at positive
    exact { steady with
      counted := by rw [count_left here (by simp), steady.counted]; rfl
      watched := fun _ running => Bool.noConfusion (ended.symm.trans running)
      alone := fun begun past => absurd (steady.alone begun past).2 (Nat.ne_of_gt positive) }
  | stop =>
    obtain ⟨_, rfl⟩ := of_guard taken
    exact { steady with
      watched := by simp [Process.remember]
      stopped := by simp [Process.remember], alone := by simp }
  | wait =>
    obtain ⟨⟨stopped, ended, returned⟩, rfl⟩ := of_guard taken
    have none : p.state.log.retriers = 0 := by
      rw [← steady.counted, count_eq_zero]
      intro member
      simpa using returned _ member
    exact { steady with
      stopped := steady.stopped.trans (by simp [stopped]), alone := fun _ _ => ⟨ended, none⟩ }
  | silence =>
    obtain ⟨waited, rfl⟩ := of_guard taken
    exact { steady with
      stopped := steady.stopped.trans (by simp [waited]), keyed := by simp [Process.remember]
      alone := fun _ _ => steady.alone (by simp [waited]) (by simp [waited]) }
  | close env last =>
    obtain ⟨silenced, rfl⟩ := of_guard taken
    exact steady.shut silenced env last

/-- Every action of a process stores some of the waiting records, in order, and keeps the
others waiting. -/
theorem act_advance {act : Act} (goes : act ≠ .restart)
    (taken : p.step crypto cadence act = some next) :
    ∃ added, Advance crypto p.state added next.state ∧
      added.map Row.pending ++ next.state.log.backlog = p.state.log.backlog ++ act.appends := by
  have still : Advance crypto p.state [] p.state := .refl steady.synced
  cases act with
  | restart => exact absurd rfl goes
  | append env r =>
    cases taken
    exact step_advance cadence (.append env r) steady.synced
  | retryStore i env =>
    obtain ⟨added, advance, order⟩ := step_advance cadence (.retryStore env) steady.synced
    have reached : next.state = retryStore crypto cadence env p.state := by
      simp only [Process.step] at taken
      split_ifs at taken <;> cases taken <;> rfl
    rw [reached]
    exact ⟨added, advance, order⟩
  | interval env =>
    obtain ⟨_, rfl⟩ := of_guard taken
    exact step_advance cadence (.interval env) steady.synced
  | close env last =>
    obtain ⟨_, rfl⟩ := of_guard taken
    exact step_advance cadence (.close env last) steady.synced
  | start | loadKey | announceKey | endLoader | leave | abandon | stop | wait | silence =>
    obtain ⟨_, rfl⟩ := of_guard taken
    exact ⟨[], still.remember rfl rfl rfl, (append_nil _).symm⟩

/-- A goroutine in its `select` stays there until it flushes or the process begins to close
or ends. -/
theorem act_waiting {act : Act} {i : Nat}
    (here : p.workers[i]? = some .waiting) (running : p.closing = .running) (goes : act ≠ .restart)
    (opened : act ≠ .stop) (other : ∀ env, act ≠ .retryStore i env)
    (taken : p.step crypto cadence act = some next) :
    next.workers[i]? = some .waiting ∧ next.closing = .running := by
  have joined : ∀ s, (p.joined s).workers[i]? = some .waiting := fun s => by
    rw [Process.joined, List.getElem?_append_left (List.getElem?_eq_some_iff.mp here).1, here]
  cases act with
  | restart => exact absurd rfl goes
  | stop => exact absurd rfl opened
  | append env r =>
    cases taken
    exact ⟨joined _, running⟩
  | retryStore j env =>
    have apart : j ≠ i := by
      rintro rfl
      exact other env rfl
    simp only [Process.step] at taken
    split_ifs at taken <;> cases taken
    · exact ⟨by rw [getElem?_set_ne apart, joined], running⟩
    · exact ⟨joined _, running⟩
  | leave j =>
    obtain ⟨leaving, rfl⟩ := of_guard taken
    have apart : j ≠ i := by
      rintro rfl
      simp [here] at leaving
    exact ⟨by rw [getElem?_set_ne apart, here], running⟩
  | abandon j =>
    obtain ⟨⟨_, ended⟩, _⟩ := ite_none_right_eq_some.mp taken
    exact absurd running (steady.stopped.mp ended)
  | wait =>
    obtain ⟨⟨stopped, _⟩, _⟩ := ite_none_right_eq_some.mp taken
    simp [running] at stopped
  | silence | close =>
    obtain ⟨past, _⟩ := ite_none_right_eq_some.mp taken
    simp [running] at past
  | start | loadKey | announceKey | interval | endLoader =>
    obtain ⟨_, rfl⟩ := of_guard taken
    exact ⟨here, running⟩

end

end Interleavings

/-! ## Runs -/

section Runs

variable (crypto : Crypto) (cadence : Int64)

/-- Whatever the others do, the next thing the `i`th goroutine does is flush what then
waits, unless `Close` begins or the process ends before. -/
def Process.WillFlush (p : Process) (i : Nat) : Prop :=
  ∀ later q, after (Process.step crypto cadence) p later = some q → .restart ∉ later →
    .stop ∉ later →
    (∀ env, .retryStore i env ∉ later) →
      ∀ env, ∃ next, q.step crypto cadence (.retryStore i env) = some next ∧
        next.state.tables = (flush crypto cadence env q.state).1.tables ∧
        next.state.log.backlog = (flush crypto cadence env q.state).1.log.backlog

variable {crypto cadence}

/-- Every run is steady. -/
theorem run_steady {acts : List Act} {p : Process}
    (ran : after (Process.step crypto cadence) .first acts = some p) :
    Steady crypto p :=
  after_invariant (I := Steady crypto) (fun _ _ _ steady taken => step_steady steady taken) ran
    (opened_steady chain_empty)

/-- A run of one process stores a first part of what is appended in it, in order, and keeps
the rest waiting. -/
theorem run_advance {since : List Act} {p q : Process} (steady : Steady crypto p)
    (one : .restart ∉ since) (ran : after (Process.step crypto cadence) p since = some q) :
    ∃ added, Advance crypto p.state added q.state ∧
      added.map Row.pending ++ q.state.log.backlog = p.state.log.backlog ++
        since.flatMap Act.appends := by
  induction since generalizing p with
  | nil =>
    cases ran
    exact ⟨[], .refl steady.synced, by simp⟩
  | cons act since ih =>
    obtain ⟨next, taken, ran⟩ := after_cons_iff.mp ran
    simp only [mem_cons, not_or] at one
    obtain ⟨first, advance, order⟩ := act_advance steady (Ne.symm one.1) taken
    obtain ⟨added, later, laterOrder⟩ := ih (step_steady steady taken) one.2 ran
    refine ⟨first ++ added, advance.trans later, ?_⟩
    rw [map_append, append_assoc, laterOrder, ← append_assoc, order, flatMap_cons,
      append_assoc]

/-- Until `Close` begins, a goroutine in its `select` is there or has flushed. -/
theorem run_waiting {later : List Act} {p q : Process} {i : Nat} (steady : Steady crypto p)
    (running : p.closing = .running) (here : p.workers[i]? = some .waiting)
    (goes : .restart ∉ later) (opened : .stop ∉ later) (other : ∀ env, .retryStore i env ∉ later)
    (ran : after (Process.step crypto cadence) p later = some q) :
    Steady crypto q ∧ q.workers[i]? = some .waiting := by
  induction later generalizing p with
  | nil =>
    cases ran
    exact ⟨steady, here⟩
  | cons act later ih =>
    obtain ⟨next, taken, ran⟩ := after_cons_iff.mp ran
    simp only [mem_cons, not_or] at goes opened other
    obtain ⟨here, running⟩ := act_waiting steady here running (Ne.symm goes.1) (Ne.symm opened.1)
      (fun env => Ne.symm (other env).1) taken
    exact ih (step_steady steady taken) running here goes.2 opened.2 (fun env => (other env).2) ran

/-- A round of a goroutine in its `select` is a flush. -/
theorem retryStore_flushes {p : Process} {i : Nat} (steady : Steady crypto p)
    (here : p.workers[i]? = some .waiting) (env : Nat → Env) :
    ∃ next, p.step crypto cadence (.retryStore i env) = some next ∧
      next.state.tables = (flush crypto cadence env p.state).1.tables ∧
      next.state.log.backlog = (flush crypto cadence env p.state).1.log.backlog := by
  have positive := count_here here
  rw [steady.counted] at positive
  rw [Process.step, if_pos here, retryStore, if_neg (Nat.ne_of_gt positive)]
  by_cases empty : (flush crypto cadence env p.state).1.log.backlog = []
  · simp only [if_pos empty]
    exact ⟨_, rfl, rfl, rfl⟩
  · simp only [if_neg empty]
    exact ⟨_, rfl, rfl, rfl⟩

/-- Whatever ran before, consider a process from `Open` on, at any moment its lock is free.
The backlog flag says whether records wait. So if `Ready` returns nil, the key is loaded and
the rows stored since `Open` are for the records appended since, in order. While records
wait and `Close` has not begun, a `retryStore` goroutine is alive whose next move is a
flush. And if `Append` now reports no failure while the key is loaded, fewer records than
the cadence follow the last stored checkpoint.

Proof: the process is steady, and what its flushes stored and left is what was appended. -/
theorem audit_log_watched (checkpoints : Checkpoints) (before since : List Act)
    (earlier p : Process) (one : .restart ∉ since)
    (opened : after (Process.step crypto checkpoints.records) .first before = some earlier)
    (ran : after (Process.step crypto checkpoints.records) .first (before ++ .restart :: since) =
      some p) :
    let log := p.state.log
    (log.backlogged = true ↔ log.backlog ≠ []) ∧
      (ready log = none → log.keyed = true ∧ ∃ added, p.state.tables.records.rows =
        earlier.state.tables.records.rows ++ added ∧
        added.map Row.pending = since.flatMap Act.appends) ∧
      (log.backlog ≠ [] → p.closing = .running →
        ∃ i, p.workers[i]? = some .waiting ∧ p.WillFlush crypto checkpoints.records i) ∧
      ∀ env r, log.keyed = true → (append crypto checkpoints.records env r p.state).2 = [] →
        ((append crypto checkpoints.records env r p.state).1.tables.uncovered : Int) <
          checkpoints.records.toInt := by
  intro log
  have steady := run_steady ran
  obtain ⟨mid, reached, continued⟩ := after_append_iff.mp ran
  cases opened.symm.trans reached
  obtain ⟨fresh, restarted, continued⟩ := after_cons_iff.mp continued
  cases restarted
  have chain := (run_steady opened).synced
  obtain ⟨added, advance, order⟩ := run_advance (opened_steady chain) one continued
  refine ⟨steady.flagged, ?_, ?_, fun env r keyed settled => append_fresh checkpoints.positive
    steady.synced keyed settled⟩
  · intro nil
    have flags : log.keyLoaded = true ∧ log.backlogged = false := by
      unfold ready at nil
      cases known : log.keyLoaded <;> cases waits : log.backlogged <;> simp_all
    have empty : log.backlog = [] := by
      by_contra waits
      cases (steady.flagged.mpr waits).symm.trans flags.2
    refine ⟨steady.keyed flags.1, added, advance.rows, ?_⟩
    rw [show p.state.log.backlog = [] from empty, append_nil] at order
    exact order
  · intro waits running
    have unstopped : log.stopped = false := by
      by_contra stopped
      exact steady.stopped.mp (Bool.not_eq_false _ ▸ stopped) running
    have positive := steady.watched waits unstopped
    rw [← steady.counted] at positive
    obtain ⟨i, here⟩ := getElem?_of_mem (count_pos_iff.mp positive)
    refine ⟨i, here, ?_⟩
    intro later q ran goes opened other env
    obtain ⟨kept, there⟩ := run_waiting steady running here goes opened other ran
    exact retryStore_flushes kept there env

end Runs

/-- The first process loads its key and fails to store a record: a goroutine will retry it,
and an `Append` that then stores both leaves fewer records than the cadence uncovered. -/
theorem audit_log_watched_retry :
    ∃ p, after (Process.step echo 2) .first ([] ++ .restart :: [.start, .loadKey, .announceKey,
        .append (fun _ => { calm with recordErr := some "disk" }) attempt]) = some p ∧
      ready p.state.log = some .notStoring ∧
      (∃ i, p.workers[i]? = some .waiting ∧ p.WillFlush echo 2 i) ∧
      ((append echo 2 (fun _ => calm) attempt p.state).1.tables.uncovered : Int) <
        (2 : Int64).toInt := by
  obtain ⟨p, ran, waits, running, refused, keyed, settled⟩ :
      ∃ p, after (Process.step echo 2) .first ([] ++ .restart :: [.start, .loadKey, .announceKey,
        .append (fun _ => { calm with recordErr := some "disk" }) attempt]) = some p ∧
      p.state.log.backlog ≠ [] ∧ p.closing = .running ∧ ready p.state.log = some .notStoring ∧
      p.state.log.keyed = true ∧ (append echo 2 (fun _ => calm) attempt p.state).2 = [] :=
    ⟨_, rfl, by decide, rfl, by decide, rfl, by decide +kernel⟩
  obtain ⟨_, _, watched, fresh⟩ := audit_log_watched ⟨2, by decide⟩ []
    [.start, .loadKey, .announceKey, .append (fun _ => { calm with recordErr := some "disk" })
      attempt]
    .first p (by simp) rfl ran
  exact ⟨p, ran, refused, watched waits running, fresh _ _ keyed settled⟩

end TrustedCourier.Audit
