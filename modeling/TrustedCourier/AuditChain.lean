import Mathlib.Algebra.Group.Int.Defs
import TrustedCourier.AuditLog
import TrustedCourier.Linked

/-!
# What every run of the audit log keeps

The invariant ties the two tables to a last record and a last covered record:
records numbered from 1 without gaps, each hashed over its own content and chained to
the one before, and checkpoints chained by the records they cover, each signed and
naming the hash of a stored record. A log's memory holds exactly those two ends. The
two ways the tables grow, a record and a checkpoint, each keep the invariant; every
step is made of them.
-/

namespace TrustedCourier.Audit

open List Option

/-- The tables hold a chain of records that ends at `seq` and `head`, with checkpoints
up to `cpSeq`. -/
structure Chain (crypto : Crypto) (tables : Tables) (seq : Int64) (head : Bytes) (cpSeq : Int64) :
    Prop where
  numbered : ∀ (i : Nat) (row : Row), tables.records.rows[i]? = some row → row.seq.toInt = i + 1
  few : tables.records.rows.length ≤ maxRows
  count : seq.toInt = tables.records.rows.length
  hashes : ∀ row ∈ tables.records.rows, row.hash = crypto.sum256 row.hashed
  linked : Linked Row.prevHash Row.hash genesis tables.records.rows head
  covering : Linked (·.prevSeq.toInt) (·.seq.toInt) 0 tables.checkpoints.rows cpSeq.toInt
  rising : ∀ c ∈ tables.checkpoints.rows, c.prevSeq.toInt < c.seq.toInt
  heads : ∀ c ∈ tables.checkpoints.rows, ∃ row ∈ tables.records.rows, row.seq = c.seq ∧
    row.hash = c.head
  signatures : ∀ c ∈ tables.checkpoints.rows, c.signature = crypto.sign c.checkpoint.message

/-- A log's memory is where the tables end. -/
def Synced (crypto : Crypto) (s : State) : Prop :=
  Chain crypto s.tables s.log.seq s.log.head s.log.cpSeq

/-- The number after one that is not the last does not wrap. -/
theorem toInt_succ {n : Int64} (below : n.toInt < 2 ^ 63 - 1) : (n + 1).toInt = n.toInt + 1 := by
  have low := n.le_toInt
  have one : (1 : Int64).toInt = 1 := by decide
  rw [Int64.toInt_add, one]
  apply Int.bmod_eq_of_le <;> omega

/-- Rows that fit leave room for the next number. -/
theorem toInt_succ_of_fits {n : Int64} (fits : n.toInt ≤ maxRows) :
    (n + 1).toInt = n.toInt + 1 := by
  unfold maxRows at fits
  exact toInt_succ (by omega)

/-- The next number, if it is larger, is one more. -/
theorem toInt_succ_of_lt {n : Int64} (rises : n.toInt < (n + 1).toInt) :
    (n + 1).toInt = n.toInt + 1 := by
  have bounded := (n + 1).toInt_lt
  exact toInt_succ (by omega)

/-- A number is the next one if it is one more. -/
theorem eq_succ {m n : Int64} (next : m.toInt = n.toInt + 1) : m = n + 1 := by
  have bounded := m.toInt_lt
  apply Int64.toInt_inj.mp
  rw [next, toInt_succ (by omega)]

section Growth

variable {crypto : Crypto} {tables : Tables} {seq : Int64} {head : Bytes} {cpSeq : Int64}

/-- Tables without rows hold the empty chain. -/
theorem chain_empty : Chain crypto { records := .empty, checkpoints := .empty } 0 genesis 0 where
  numbered := by simp
  few := Nat.zero_le _
  count := by decide
  hashes := by simp
  linked := rfl
  covering := (by decide : (0 : Int) = (0 : Int64).toInt)
  rising := by simp
  heads := by simp
  signatures := by simp

/-- The records are those numbered from 1 up to the last. -/
theorem Chain.seq_range (chain : Chain crypto tables seq head cpSeq) {row : Row}
    (member : row ∈ tables.records.rows) :
    1 ≤ row.seq.toInt ∧ row.seq.toInt ≤ tables.records.rows.length := by
  obtain ⟨i, inside, found⟩ := getElem_of_mem member
  have number := chain.numbered i row (by rw [getElem?_eq_getElem inside, found])
  omega

/-- The last record is where the chain ends. -/
theorem Chain.last (chain : Chain crypto tables seq head cpSeq) {row : Row}
    (last : tables.records.rows.getLast? = some row) : row.seq = seq ∧ row.hash = head := by
  constructor
  · rw [getLast?_eq_getElem?] at last
    have number := chain.numbered _ row last
    have nonempty := length_pos_of_mem (mem_of_getElem? last)
    have count := chain.count
    apply Int64.toInt_inj.mp
    omega
  · rw [chain.linked.finish_eq, last]
    rfl

/-- The number of the last row, as an integer. -/
theorem toInt_last (last : Option CheckpointRow) :
    ((last.map CheckpointRow.seq).getD 0).toInt = (last.map (·.seq.toInt)).getD 0 := by
  cases last with
  | none => decide
  | some c => rfl

section

variable (chain : Chain crypto tables seq head cpSeq)
include chain

/-- The tables determine where the chain ends. -/
theorem Chain.ends :
    seq = (tables.records.rows.getLast?.map Row.seq).getD 0 ∧
      head = (tables.records.rows.getLast?.map Row.hash).getD genesis ∧
      cpSeq = (tables.checkpoints.rows.getLast?.map CheckpointRow.seq).getD 0 := by
  refine ⟨?_, chain.linked.finish_eq, ?_⟩
  · have count := chain.count
    cases last : tables.records.rows.getLast? with
    | none =>
      rw [getLast?_eq_none_iff] at last
      rw [last, length_nil] at count
      exact Int64.toInt_inj.mp (count.trans (by decide))
    | some row => exact (chain.last last).1.symm
  · apply Int64.toInt_inj.mp
    rw [toInt_last]
    exact chain.covering.finish_eq

/-- Checkpoints are in the order of the records they cover, from 1 up to the last. -/
theorem Chain.covered_range {c : CheckpointRow}
    (member : c ∈ tables.checkpoints.rows) :
    1 ≤ c.seq.toInt ∧ c.seq.toInt ≤ tables.records.rows.length := by
  obtain ⟨row, stored, same, _⟩ := chain.heads c member
  rw [← same]
  exact chain.seq_range stored

/-- Every record and every checkpoint of a chain has a positive number. -/
theorem Chain.past_zero :
    tables.records.past 0 = tables.records.rows ∧
      tables.checkpoints.past 0 = tables.checkpoints.rows := by
  constructor
  · apply Table.past_eq_rows
    intro row member
    have range := chain.seq_range member
    omega
  · apply Table.past_eq_rows
    intro c member
    have range := chain.covered_range member
    omega

/-- A checkpoint covers a stored record, so the last covered one is stored. -/
theorem Chain.covered_le :
    0 ≤ cpSeq.toInt ∧ cpSeq.toInt ≤ seq.toInt := by
  have ends := chain.covering.finish_eq
  have count := chain.count
  cases last : tables.checkpoints.rows.getLast? with
  | none =>
    rw [last] at ends
    simp only [map_none, getD_none] at ends
    omega
  | some c =>
    rw [last] at ends
    simp only [map_some, getD_some] at ends
    have range := chain.covered_range (mem_of_getLast? last)
    omega

/-- No checkpoint is past the last. -/
theorem Chain.covered_last {c : CheckpointRow}
    (member : c ∈ tables.checkpoints.rows) : c.seq.toInt ≤ cpSeq.toInt := by
  obtain ⟨front, back, split⟩ := append_of_mem member
  obtain ⟨middle, _, names, later⟩ := Linked.append_iff.mp (split ▸ chain.covering)
  refine (later.start_le fun other inBack => chain.rising other ?_).1
  rw [split]
  exact mem_append_right front (mem_cons_of_mem c inBack)

/-- A record that continues the chain extends it. -/
theorem Chain.record {row : Row} (number : row.seq = seq + 1)
    (names : row.prevHash = head) (hashed : row.hash = crypto.sum256 row.hashed)
    {grown : Table Row fun row => row.seq.toInt}
    (inserted : tables.records.insert maxRows row = some grown) :
    grown.rows = tables.records.rows ++ [row] ∧
      Chain crypto { tables with records := grown } row.seq row.hash cpSeq := by
  have fits := Table.insert_some inserted
  have count := chain.count
  have next : row.seq.toInt = tables.records.rows.length + 1 := by
    rw [number, toInt_succ_of_fits (by omega), count]
  have appended : grown.rows = tables.records.rows ++ [row] := by
    have past : ∀ other ∈ tables.records.rows, other.seq.toInt < row.seq.toInt := by
      intro other member
      have range := chain.seq_range member
      omega
    obtain ⟨table, found, rows⟩ := Table.insert_last fits past
    rw [inserted] at found
    rw [some.inj found, rows]
  have stored : ∀ other, other ∈ tables.records.rows → other ∈ grown.rows := by
    intro other member
    rw [appended]
    exact mem_append_left [row] member
  refine ⟨appended, ?_, ?_, ?_, ?_, ?_, chain.covering, chain.rising, ?_, chain.signatures⟩
  · intro i other found
    rw [appended, getElem?_append] at found
    split at found
    · exact chain.numbered i other found
    · next past =>
      have last : i - tables.records.rows.length = 0 := by
        by_contra beyond
        rw [getElem?_eq_none (by simp; omega)] at found
        simp at found
      rw [last] at found
      cases found
      omega
  · rw [appended, length_append, length_singleton]
    omega
  · rw [appended, length_append, length_singleton, next]
    rfl
  · intro other member
    rw [appended] at member
    rcases mem_append.mp member with old | new
    · exact chain.hashes other old
    · rw [mem_singleton.mp new]
      exact hashed
  · rw [appended]
    exact chain.linked.concat names
  · intro c member
    obtain ⟨other, old, same, digest⟩ := chain.heads c member
    exact ⟨other, stored other old, same, digest⟩

/-- A checkpoint of the last record extends the checkpoints. -/
theorem Chain.sign {c : CheckpointRow} (waiting : cpSeq.toInt < seq.toInt)
    (here : c.seq = seq) (follows : c.prevSeq = cpSeq) (names : c.head = head)
    (signed : c.signature = crypto.sign c.checkpoint.message)
    {grown : Table CheckpointRow fun c => c.seq.toInt}
    (inserted : tables.checkpoints.insert maxRows c = some grown) :
    grown.rows = tables.checkpoints.rows ++ [c] ∧
      Chain crypto { tables with checkpoints := grown } seq head c.seq := by
  have fits := Table.insert_some inserted
  have count := chain.count
  have appended : grown.rows = tables.checkpoints.rows ++ [c] := by
    have past : ∀ other ∈ tables.checkpoints.rows, other.seq.toInt < c.seq.toInt := by
      intro other member
      have covered := chain.covered_last member
      rw [here]
      omega
    obtain ⟨table, found, rows⟩ := Table.insert_last fits past
    rw [inserted] at found
    rw [some.inj found, rows]
  -- The last record exists, since something is waiting for a checkpoint.
  obtain ⟨row, last⟩ : ∃ row, tables.records.rows.getLast? = some row := by
    have covered := chain.covered_le
    apply isSome_iff_exists.mp
    rw [getLast?_isSome]
    intro none
    rw [none, length_nil] at count
    omega
  obtain ⟨rowNumber, digest⟩ := chain.last last
  refine ⟨appended, chain.numbered, chain.few, chain.count, chain.hashes, chain.linked, ?_, ?_, ?_,
    ?_⟩
  · rw [appended]
    exact chain.covering.concat (by rw [follows])
  · intro other member
    rw [appended] at member
    rcases mem_append.mp member with old | new
    · exact chain.rising other old
    · rw [mem_singleton.mp new, follows, here]
      exact waiting
  · intro other member
    rw [appended] at member
    rcases mem_append.mp member with old | new
    · exact chain.heads other old
    · rw [mem_singleton.mp new]
      exact ⟨row, mem_of_getLast? last, by rw [rowNumber, here], by rw [digest, names]⟩
  · intro other member
    rw [appended] at member
    rcases mem_append.mp member with old | new
    · exact chain.signatures other old
    · rw [mem_singleton.mp new]
      exact signed

end

end Growth

/-! ## What a step adds -/

/-- The state has come to another one by storing these rows, and perhaps checkpoints,
with the memory kept in step. -/
structure Advance (crypto : Crypto) (s : State) (added : List Row) (after : State) : Prop where
  rows : after.tables.records.rows = s.tables.records.rows ++ added
  signed : s.tables.checkpoints.rows <+: after.tables.checkpoints.rows
  synced : Synced crypto after

section Steps

variable {crypto : Crypto} (cadence : Int64) {s : State}

/-- Nothing need be added. -/
theorem Advance.refl (synced : Synced crypto s) : Advance crypto s [] s :=
  ⟨(append_nil _).symm, prefix_rfl, synced⟩

/-- What is added in turn is added in all. -/
theorem Advance.trans {middle after : State} {first second : List Row}
    (left : Advance crypto s first middle) (right : Advance crypto middle second after) :
    Advance crypto s (first ++ second) after :=
  ⟨by rw [right.rows, left.rows, append_assoc], left.signed.trans right.signed, right.synced⟩

/-- An insert that is reported done was not refused. -/
theorem exec_ok {ρ : Type} {key : ρ → Int} {fault : Option String} {t grown : Table ρ key} {row : ρ}
    (done : exec fault t row = .ok grown) : t.insert maxRows row = some grown := by
  unfold exec at done
  cases fault with
  | some err => simp at done
  | none =>
    cases inserted : t.insert maxRows row with
    | none => simp [inserted] at done
    | some table =>
      simp only [inserted, Except.ok.injEq] at done
      rw [done]

/-- A checkpoint is stored for the last record, or nothing changes. Memory changes in
the record last covered only. -/
theorem checkpoint_advance (env : Env) (synced : Synced crypto s) :
    Advance crypto s [] (checkpoint crypto env s).1 ∧
      (checkpoint crypto env s).1.log =
      { s.log with cpSeq := (checkpoint crypto env s).1.log.cpSeq } := by
  unfold checkpoint
  split
  · exact ⟨.refl synced, rfl⟩
  · next due =>
    have waiting : s.log.cpSeq.toInt < s.log.seq.toInt := by
      simp only [Bool.or_eq_true, not_or, decide_eq_true_eq, Int64.le_iff_toInt_le] at due
      omega
    cases env.signErr with
    | some err => exact ⟨.refl synced, rfl⟩
    | none =>
      simp only
      split
      · exact ⟨.refl synced, rfl⟩
      · next grown done =>
        obtain ⟨appended, chain⟩ := synced.sign waiting rfl rfl rfl rfl (exec_ok done)
        exact ⟨⟨(append_nil _).symm, ⟨_, appended.symm⟩, chain⟩, rfl⟩

/-- The row for a pending record says what the record says. -/
theorem nextRow_record (log : Log) (p : Pending) : (nextRow crypto log p).record = p.record := by
  have status : ∀ a : Int64, (if a ≠ 0 then some a else none).getD 0 = a := by
    intro a
    by_cases zero : a = 0 <;> simp [zero]
  simp only [nextRow, newEntry, Row.record]
  rw [status]

/-- The row for a pending record is hashed as verification will hash it. -/
theorem nextRow_hash (log : Log) (p : Pending) :
    (nextRow crypto log p).hash = crypto.sum256 (nextRow crypto log p).hashed := by
  rw [Row.hashed, nextRow_record]
  rfl

/-- Streaming changes the stream only. -/
theorem writeLine_state (env : Env) (line : Bytes) :
    (writeLine env line s).1.tables = s.tables ∧ (writeLine env line s).1.log = s.log := by
  unfold writeLine
  cases env.streamErr <;> exact ⟨rfl, rfl⟩

/-- Streaming a stored record and signing a checkpoint keep what is stored. -/
theorem finishStore_advance (env : Env) (line : Bytes) (synced : Synced crypto s) :
    Advance crypto s [] (finishStore crypto cadence env line s).1 ∧
      (finishStore crypto cadence env line s).1.log =
        { s.log with cpSeq := (finishStore crypto cadence env line s).1.log.cpSeq } := by
  obtain ⟨tables, log⟩ := writeLine_state env line (s := s)
  have streamed : Advance crypto s [] (writeLine env line s).1 := by
    refine ⟨by rw [tables, append_nil], by rw [tables], ?_⟩
    rw [Synced, tables, log]
    exact synced
  unfold finishStore
  simp only
  split
  · obtain ⟨signed, frame⟩ := checkpoint_advance env streamed.synced
    refine ⟨streamed.trans signed, ?_⟩
    rw [frame, log]
  · exact ⟨streamed, by rw [log]⟩

/-- Either the record is not stored and nothing changes, or it is the next row, with a
checkpoint if one was due. -/
theorem store_advance (env : Env) (p : Pending) (synced : Synced crypto s) :
    (∃ err, store crypto cadence env p s = (s, .failed err)) ∨
      ∃ row errs after, store crypto cadence env p s = (after, .stored errs) ∧ row.pending = p ∧
        Advance crypto s [row] after ∧
        after.log = { s.log with
          seq := after.log.seq, head := after.log.head, cpSeq := after.log.cpSeq } := by
  unfold store
  cases done : exec env.recordErr s.tables.records (nextRow crypto s.log p) with
  | error err => exact Or.inl ⟨_, rfl⟩
  | ok grown =>
    right
    obtain ⟨appended, chain⟩ := Chain.record synced rfl rfl (nextRow_hash s.log p) (exec_ok done)
    have inserted : Advance crypto s [nextRow crypto s.log p]
        (recorded grown (nextRow crypto s.log p) s) :=
      ⟨appended, prefix_rfl, chain⟩
    obtain ⟨finished, frame⟩ :=
      finishStore_advance cadence env (nextLine crypto s.log p) inserted.synced
    refine ⟨nextRow crypto s.log p, _, _, rfl, ?_, inserted.trans finished, ?_⟩
    · rw [Row.pending, nextRow_record]
      rfl
    · rw [frame]
      rfl

/-- Memory that differs in other things than where the tables end is as good. -/
theorem Advance.remember {after : State} {added : List Row} (advance : Advance crypto s added after)
    {log : Log} (seq : log.seq = after.log.seq) (head : log.head = after.log.head)
    (cpSeq : log.cpSeq = after.log.cpSeq) :
    Advance crypto s added { after with log := log } := by
  refine ⟨advance.rows, advance.signed, ?_⟩
  rw [Synced, seq, head, cpSeq]
  exact advance.synced

/-- Flushing stores a first part of the backlog, in order, and keeps the rest. -/
theorem flushFrom_advance (env : Nat → Env) (k : Nat) (backlog : List Pending) (errs : List String)
    (synced : Synced crypto s) :
    ∃ added, Advance crypto s added (flushFrom crypto cadence env k backlog s errs).1 ∧
      added.map Row.pending ++ (flushFrom crypto cadence env k backlog s errs).1.log.backlog =
        backlog := by
  induction backlog generalizing k s errs with
  | nil => exact ⟨[], (Advance.refl synced).remember rfl rfl rfl, rfl⟩
  | cons p rest ih =>
    rcases store_advance cadence (env k) p synced with
      ⟨err, failed⟩ | ⟨row, more, after, stored, same, advance, _⟩
    · simp only [flushFrom, failed]
      exact ⟨[], (Advance.refl synced).remember rfl rfl rfl, rfl⟩
    · simp only [flushFrom, stored]
      obtain ⟨added, later, order⟩ := ih (k + 1) (errs ++ more) advance.synced
      exact ⟨row :: added, advance.trans later, by rw [map_cons, same, cons_append, order]⟩

theorem flush_advance (env : Nat → Env) (synced : Synced crypto s) :
    ∃ added, Advance crypto s added (flush crypto cadence env s).1 ∧
      added.map Row.pending ++ (flush crypto cadence env s).1.log.backlog = s.log.backlog :=
  flushFrom_advance cadence env 0 s.log.backlog [] synced

/-- Opening on tables that hold a chain finds its ends. -/
theorem openLog_synced {tables : Tables} {seq : Int64} {head : Bytes} {cpSeq : Int64}
    (chain : Chain crypto tables seq head cpSeq) (lines : List Bytes) :
    Synced crypto { tables := tables, lines := lines, log := openLog tables } := by
  obtain ⟨number, digest, covered⟩ := chain.ends
  rw [Synced, openLog, Table.last?, Table.last?, ← number, ← digest, ← covered]
  exact chain

/-- The records a step appends. -/
def Step.appends : Step → List Pending
  | .append _ p => [p]
  | _ => []

/-- Every step of a process stores some of the waiting records, in order, and keeps
the others waiting; opening forgets them. -/
theorem step_advance (step : Step) (synced : Synced crypto s) :
    ∃ added, Advance crypto s added (s.step crypto cadence step) ∧
      added.map Row.pending ++ (s.step crypto cadence step).log.backlog =
        match step with
        | .openLog => []
        | _ => s.log.backlog ++ step.appends := by
  cases step with
  | openLog =>
    refine ⟨[], ⟨(append_nil _).symm, prefix_rfl, openLog_synced synced s.lines⟩, rfl⟩
  | loadKey | announceKey | stop =>
    exact ⟨[], (Advance.refl synced).remember rfl rfl rfl, (append_nil _).symm⟩
  | append env p =>
    obtain ⟨added, advance, order⟩ :=
      flush_advance cadence (s := { s with log := { s.log with backlog := s.log.backlog ++ [p] } })
        env synced
    exact ⟨added, ⟨advance.rows, advance.signed, advance.synced⟩, order⟩
  | retryStore env =>
    obtain ⟨added, advance, order⟩ := flush_advance cadence env synced
    simp only [State.step, retryStore, Step.appends, append_nil]
    split
    · exact ⟨[], .refl synced, rfl⟩
    · split
      · exact ⟨added, advance.remember rfl rfl rfl, order⟩
      · exact ⟨added, advance, order⟩
  | interval env =>
    obtain ⟨advance, frame⟩ := checkpoint_advance env synced
    refine ⟨[], advance, ?_⟩
    simp only [State.step, Step.appends, append_nil, map_nil, nil_append]
    rw [frame]
  | close env last =>
    obtain ⟨added, advance, order⟩ := flush_advance cadence
      (s := { s with log := { s.log with stopped := true, retriers := 0, keyLoaded := false } }) env
        synced
    have flushed : Advance crypto s added _ := ⟨advance.rows, advance.signed, advance.synced⟩
    simp only [State.step, close, Step.appends, append_nil]
    split
    · exact ⟨added, flushed, order⟩
    · obtain ⟨signed, frame⟩ := checkpoint_advance last flushed.synced
      refine ⟨added, ?_, ?_⟩
      · have both := flushed.trans signed
        rw [append_nil] at both
        exact both.remember rfl rfl rfl
      · rw [frame]
        exact order

end Steps

/-! ## Runs -/

section Runs

variable (crypto : Crypto) (cadence : Int64)

/-- A world whose tables hold a chain that ends where the running log says. -/
def World.Sound (w : World) : Prop :=
  (∃ seq head cpSeq, Chain crypto w.tables seq head cpSeq) ∧
    ∀ log, w.log = some log → Chain crypto w.tables log.seq log.head log.cpSeq

theorem init_sound : World.init.Sound crypto :=
  ⟨⟨0, genesis, 0, chain_empty⟩, fun log running => by simp [World.init] at running⟩

/-- Every step keeps the chain sound. -/
theorem step_sound {w : World} (sound : w.Sound crypto) (step : Step) :
    (w.step crypto cadence step).Sound crypto := by
  unfold World.step
  cases running : w.log with
  | some log =>
    obtain ⟨added, advance, _⟩ :=
      step_advance cadence (s := { tables := w.tables, lines := w.lines, log := log }) step
      (sound.2 log running)
    refine ⟨⟨_, _, _, advance.synced⟩, fun log running => ?_⟩
    cases running
    exact advance.synced
  | none =>
    cases step with
    | openLog =>
      obtain ⟨seq, head, cpSeq, chain⟩ := sound.1
      refine ⟨⟨seq, head, cpSeq, chain⟩, fun log running => ?_⟩
      cases running
      exact openLog_synced chain w.lines
    | _ => exact sound

theorem run_sound {w : World} (sound : w.Sound crypto) (steps : List Step) :
    (w.run crypto cadence steps).Sound crypto := by
  induction steps generalizing w with
  | nil => exact sound
  | cons step rest ih => exact ih (step_sound crypto cadence sound step)

/-- In one process, the rows it has stored and the records still waiting are the
appended ones in order. -/
theorem run_process {s : State} (synced : Synced crypto s) (since : List Step)
    (one : ∀ step ∈ since, step ≠ .openLog) :
    ∃ added after, s.world.run crypto cadence since = State.world after ∧
      Advance crypto s added after ∧
      added.map Row.pending ++ after.log.backlog = s.log.backlog ++ since.flatMap Step.appends := by
  induction since generalizing s with
  | nil => exact ⟨[], s, rfl, .refl synced, by simp⟩
  | cons step rest ih =>
    obtain ⟨first, advance, order⟩ := step_advance cadence step synced
    obtain ⟨added, after, ran, later, laterOrder⟩ := ih advance.synced fun other member =>
      one other (mem_cons_of_mem step member)
    have continued : first.map Row.pending ++ (s.step crypto cadence step).log.backlog =
        s.log.backlog ++ step.appends := by
      rw [order]
      cases step with
      | openLog => exact absurd rfl (one .openLog mem_cons_self)
      | _ => rfl
    refine ⟨first ++ added, after, ran, advance.trans later, ?_⟩
    rw [map_append, append_assoc, laterOrder, ← append_assoc, continued, flatMap_cons,
      append_assoc]

/-- Whatever ran before, `Open` starts a process on what the tables hold. -/
theorem step_openLog (w : World) : w.step crypto cadence .openLog =
    State.world { tables := w.tables, lines := w.lines, log := openLog w.tables } := by
  unfold World.step
  cases w.log <;> rfl

/-- What a run keeps. Take any run up to the `Open` of a process, and any steps of that
process. The rows the process has stored, followed by the records waiting in memory,
are the records appended in it, in order and with their times. The records are
numbered from 1 without gaps, each hashed over its own entry and naming the hash of
the one before. The log's memory is the last record and the last checkpoint. The
checkpoints rise, each names the one before and the hash of the record it covers.

Proof: every step stores a first part of what waits and keeps the tables a chain that
ends where the memory says, so the run does. -/
theorem audit_log_kept (before since : List Step) (one : ∀ step ∈ since, step ≠ .openLog) :
    let opened := (World.init.run crypto cadence before).tables
    let world := World.init.run crypto cadence (before ++ .openLog :: since)
    let records := world.tables.records.rows
    let checkpoints := world.tables.checkpoints.rows
    ∃ log, world.log = some log ∧
      (∃ added, records = opened.records.rows ++ added ∧
        added.map Row.pending ++ log.backlog = since.flatMap Step.appends) ∧
      (∀ (i : Nat) (row : Row), records[i]? = some row → row.seq.toInt = i + 1 ∧
        row.hash = crypto.sum256 row.hashed ∧
        row.prevHash = ((records.take i).getLast?.map Row.hash).getD genesis) ∧
      log.seq = (records.getLast?.map Row.seq).getD 0 ∧
      log.head = (records.getLast?.map Row.hash).getD genesis ∧
      checkpoints.Pairwise (fun a b => a.seq.toInt < b.seq.toInt) ∧
      (∀ (i : Nat) (c : CheckpointRow), checkpoints[i]? = some c →
        c.prevSeq = ((checkpoints.take i).getLast?.map CheckpointRow.seq).getD 0 ∧
        ∃ row ∈ records, row.seq = c.seq ∧ row.hash = c.head) ∧
      log.cpSeq = (checkpoints.getLast?.map CheckpointRow.seq).getD 0 := by
  intro opened world records checkpoints
  obtain ⟨seq, head, cpSeq, chain⟩ := (run_sound crypto cadence (init_sound crypto) before).1
  have synced := openLog_synced chain (World.init.run crypto cadence before).lines
  obtain ⟨added, after, ran, advance, order⟩ := run_process crypto cadence synced since one
  have reached : world = after.world := by
    rw [← ran, ← step_openLog]
    exact foldl_append
  have kept := advance.synced
  refine ⟨after.log, by rw [reached]; rfl, ?_⟩
  have recordRows : records = after.tables.records.rows := by
    simp only [records, reached, State.world]
  have checkpointRows : checkpoints = after.tables.checkpoints.rows := by
    simp only [checkpoints, reached, State.world]
  rw [recordRows, checkpointRows]
  obtain ⟨number, digest, covered⟩ := kept.ends
  refine ⟨⟨added, advance.rows, order⟩, ?_, number, digest, after.tables.checkpoints.sorted, ?_,
    covered⟩
  · intro i row here
    exact ⟨kept.numbered i row here, kept.hashes row (mem_of_getElem? here),
      kept.linked.link_eq here⟩
  · intro i c here
    refine ⟨Int64.toInt_inj.mp ?_, kept.heads c (mem_of_getElem? here)⟩
    rw [toInt_last]
    exact kept.covering.link_eq here

end Runs

/-- A scheme in which every text is its own digest and signature. -/
def echo : Crypto :=
  { sum256 := id, sign := id, verify := fun message signature => message == signature }

/-- Surroundings in which nothing fails. -/
def calm : Env :=
  { recordErr := none, streamErr := none, signErr := none, checkpointErr := none, now := 0 }

/-- A denied attempt that waits to be stored. -/
def attempt : Pending := (deniedRow (bytes "n") none).pending

/-- A process that could not store its record, and the next one. -/
theorem audit_log_kept_restart :
    ∃ (log : Log) (added : List Row),
      (World.init.run echo 1
        ([.openLog, .append (fun _ => { calm with recordErr := some "disk" }) attempt] ++
        .openLog :: [.loadKey, .append (fun _ => calm) attempt])).log = some log ∧
      added.map Row.pending ++ log.backlog = [attempt] := by
  obtain ⟨log, running, ⟨added, _, order⟩, _⟩ := audit_log_kept echo 1
    [.openLog, .append (fun _ => { calm with recordErr := some "disk" }) attempt]
    [.loadKey, .append (fun _ => calm) attempt] (by simp)
  exact ⟨log, added, running, order⟩

end TrustedCourier.Audit
