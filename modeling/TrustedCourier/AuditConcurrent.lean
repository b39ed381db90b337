import TrustedCourier.AuditVerify

/-!
# Verifying while the log goes on

The pages of the first walk are read at different moments, between which the log may
append and sign. Whatever a moment shows is a first part of what the tables hold once
`Verify` has the lock, so every page is a first part of what the walk has still to
read there. A walk that is aligned with the final tables stays so over every such
page, in whatever order the moments come, and the second walk, which sees the final
tables themselves, leaves nothing unread.
-/

namespace TrustedCourier.Audit

open List

section Scans

variable {crypto : Crypto}

/-- Records that continue the chain at the walk's end all pass. -/
theorem scan_records_pass {rows : List Row} {w : Walk} {finish : Bytes} (running : w.broken = false)
    (numbers : ∀ (i : Nat) (row : Row), rows[i]? = some row →
      row.seq.toInt = w.v.records.toInt + i + 1)
    (digests : ∀ row ∈ rows, row.hash = crypto.sum256 row.hashed)
    (linked : Linked Row.prevHash Row.hash w.prev rows finish) :
    let after := scan (verifyRecord crypto) Walk.broken rows w
    after.broken = false ∧ after.v.records.toInt = w.v.records.toInt + rows.length ∧
    after.prev = finish ∧
      after.cpSeq = w.cpSeq ∧ after.v.checkpoints = w.v.checkpoints := by
  induction rows generalizing w with
  | nil => exact ⟨running, by simp [scan], linked, rfl, rfl⟩
  | cons row rest ih =>
    obtain ⟨names, later⟩ := linked
    have number : row.seq.toInt = w.v.records.toInt + 1 := by simpa using numbers 0 row rfl
    have continues : Continues crypto w row := ⟨eq_succ number, digests row mem_cons_self, names⟩
    have numbersRest : ∀ (i : Nat) (other : Row), rest[i]? = some other →
        other.seq.toInt = (w.passRecord row).v.records.toInt + i + 1 := by
      intro i other found
      have number' := numbers (i + 1) other found
      rw [passRecord_records]
      omega
    obtain ⟨quiet, count, prev, kept, covered⟩ := ih (w := w.passRecord row) running numbersRest
      (fun other member => digests other (mem_cons_of_mem row member)) later
    simp only [scan, verifyRecord_continues continues, passRecord_broken, running,
      Bool.false_eq_true, if_false]
    refine ⟨quiet, ?_, prev, kept, covered⟩
    rw [count, passRecord_records, number, length_cons]
    omega

/-- Checkpoints that continue the checkpoints at the walk's end all pass, as long as
they can be counted. -/
theorem scan_checkpoints_pass {rows : List (CheckpointRow × Option Bytes)} {w : Walk} {finish : Int}
    (running : w.broken = false)
    (signed : ∀ joined ∈ rows, crypto.verify joined.1.checkpoint.message joined.1.signature = true ∧
      joined.1.head = joined.2.getD [])
    (linked : Linked (·.1.prevSeq.toInt) (·.1.seq.toInt) w.cpSeq.toInt rows finish)
    (few : w.v.checkpoints.toInt + rows.length ≤ maxRows) :
    let after := scan (verifyCheckpoint crypto) Walk.broken rows w
    after.broken = false ∧ after.v.checkpoints.toInt = w.v.checkpoints.toInt + rows.length ∧
      after.cpSeq.toInt = finish ∧ after.v.records = w.v.records ∧ after.prev = w.prev := by
  induction rows generalizing w with
  | nil => exact ⟨running, by simp [scan], linked, rfl, rfl⟩
  | cons joined rest ih =>
    obtain ⟨follows, later⟩ := linked
    obtain ⟨verified, head⟩ := signed joined mem_cons_self
    have covers : Covers crypto w joined := ⟨verified, Int64.toInt_inj.mp follows, head⟩
    rw [length_cons] at few
    have counted : (w.passCheckpoint joined.1).v.checkpoints.toInt = w.v.checkpoints.toInt + 1 :=
      toInt_succ_of_fits (by omega)
    obtain ⟨quiet, count, reached, records, prev⟩ := ih (w := w.passCheckpoint joined.1) running
      (fun other member => signed other (mem_cons_of_mem joined member)) later (by omega)
    simp only [scan, verifyCheckpoint_covers covers, passCheckpoint_broken, running,
      Bool.false_eq_true, if_false]
    refine ⟨quiet, ?_, reached, records, prev⟩
    rw [count, counted, length_cons]
    omega

end Scans

/-! ## Alignment with the final tables -/

/-- A walk has passed a first part of the chain the tables hold, and the rest goes on
from there. -/
structure Aligned (tables : Tables) (head : Bytes) (cpSeq : Int64) (w : Walk) : Prop where
  unbroken : w.broken = false
  numbers : ∀ (i : Nat) (row : Row), (tables.records.past w.v.records.toInt)[i]? = some row →
    row.seq.toInt = w.v.records.toInt + i + 1
  linked : Linked Row.prevHash Row.hash w.prev (tables.records.past w.v.records.toInt) head
  count : w.v.records.toInt + (tables.records.past w.v.records.toInt).length =
    tables.records.rows.length
  covering : Linked (·.prevSeq.toInt) (·.seq.toInt) w.cpSeq.toInt
    (tables.checkpoints.past w.cpSeq.toInt) cpSeq.toInt
  low : 0 ≤ w.v.checkpoints.toInt
  covered : w.v.checkpoints.toInt + (tables.checkpoints.past w.cpSeq.toInt).length =
    tables.checkpoints.rows.length

section Pages

variable {crypto : Crypto} {tables : Tables} {seq : Int64} {head : Bytes} {cpSeq : Int64} {w : Walk}

section

variable (chain : Chain crypto tables seq head cpSeq)
include chain

/-- A walk begins aligned. -/
theorem aligned_start : Aligned tables head cpSeq Walk.start := by
  have zero : Walk.start.v.records.toInt = 0 ∧ Walk.start.cpSeq.toInt = 0 ∧
      Walk.start.v.checkpoints.toInt = 0 := by
    decide
  obtain ⟨records, checkpoints⟩ := chain.past_zero
  refine ⟨rfl, ?_, ?_, ?_, ?_, ?_, ?_⟩
  · intro i row found
    rw [zero.1, records] at found
    rw [zero.1, chain.numbered i row found]
    omega
  · rw [zero.1, records]
    exact chain.linked
  · rw [zero.1, records]
    omega
  · rw [zero.2.1, checkpoints]
    exact chain.covering
  · exact Int.le_of_eq zero.2.2.symm
  · rw [zero.2.1, zero.2.2, checkpoints]
    omega

/-- The next records pass, and the walk stays aligned with the others behind it. -/
theorem aligned_records (aligned : Aligned tables head cpSeq w)
    {page rest : List Row} (split : tables.records.past w.v.records.toInt = page ++ rest) :
    let after := scan (verifyRecord crypto) Walk.broken page w
    Aligned tables head cpSeq after ∧ tables.records.past after.v.records.toInt = rest := by
  intro after
  have numbers := aligned.numbers
  have linked := aligned.linked
  have count := aligned.count
  rw [split] at numbers linked count
  obtain ⟨middle, first, second⟩ := Linked.append_iff.mp linked
  have numbersPage : ∀ (i : Nat) (row : Row), page[i]? = some row →
      row.seq.toInt = w.v.records.toInt + i + 1 := by
    intro i row found
    apply numbers
    rw [List.getElem?_append_left (List.getElem?_eq_some_iff.mp found).1, found]
  have digests : ∀ row ∈ page, row.hash = crypto.sum256 row.hashed := by
    intro row member
    apply chain.hashes
    apply mem_of_mem_filter
    rw [← Table.past, split]
    exact mem_append_left rest member
  obtain ⟨quiet, reached, prev, kept, covered⟩ : after.broken = false ∧
      after.v.records.toInt = w.v.records.toInt + page.length ∧ after.prev = middle ∧
      after.cpSeq = w.cpSeq ∧
      after.v.checkpoints = w.v.checkpoints :=
        scan_records_pass aligned.unbroken numbersPage digests first
  have remains : tables.records.past after.v.records.toInt = rest := by
    cases last : page.getLast? with
    | none =>
      rw [getLast?_eq_none_iff] at last
      rw [last] at split
      simp only [after, last, scan]
      exact split
    | some row =>
      have number : after.v.records.toInt = row.seq.toInt := by
        rw [getLast?_eq_getElem?] at last
        have nonempty := length_pos_of_mem (mem_of_getElem? last)
        have named := numbersPage _ row last
        omega
      rw [number]
      exact tables.records.past_read split last
  refine ⟨⟨quiet, ?_, ?_, ?_, ?_, ?_, ?_⟩, remains⟩
  · intro i row found
    rw [remains] at found
    have number := numbers (page.length + i) row (by
      rw [getElem?_append_right (by omega), Nat.add_sub_cancel_left, found])
    rw [reached]
    omega
  · rw [remains, prev]
    exact second
  · rw [remains, reached, ← count, length_append]
    omega
  · rw [kept]
    exact aligned.covering
  · rw [covered]
    exact aligned.low
  · rw [kept, covered]
    exact aligned.covered

/-- The next checkpoints pass, and the walk stays aligned with the others behind it. -/
theorem aligned_checkpoints (aligned : Aligned tables head cpSeq w)
    {page : List (CheckpointRow × Option Bytes)} {rest : List CheckpointRow}
    (split : tables.checkpoints.past w.cpSeq.toInt = page.map Prod.fst ++ rest)
    (signed : ∀ joined ∈ page, crypto.verify joined.1.checkpoint.message joined.1.signature = true ∧
      joined.1.head = joined.2.getD []) :
    let after := scan (verifyCheckpoint crypto) Walk.broken page w
    Aligned tables head cpSeq after ∧ tables.checkpoints.past after.cpSeq.toInt = rest ∧
      after.v.records = w.v.records := by
  intro after
  have covering := aligned.covering
  have covered := aligned.covered
  have low := aligned.low
  rw [split] at covering covered
  rw [length_append, length_map] at covered
  have few : tables.checkpoints.rows.length ≤ maxRows := by
    have rising := chain.covering.length_le chain.rising
    have inside := chain.covered_le.2
    have count := chain.count
    have bounded := chain.few
    omega
  obtain ⟨middle, first, second⟩ := Linked.append_iff.mp covering
  obtain ⟨quiet, counted, reached, records, prev⟩ : after.broken = false ∧
      after.v.checkpoints.toInt = w.v.checkpoints.toInt + page.length ∧ after.cpSeq.toInt = middle ∧
      after.v.records = w.v.records ∧ after.prev = w.prev :=
    scan_checkpoints_pass aligned.unbroken signed ((Linked.map_iff Prod.fst).mp first) (by omega)
  have remains : tables.checkpoints.past after.cpSeq.toInt = rest := by
    rw [reached, first.finish_eq]
    cases last : (page.map Prod.fst).getLast? with
    | none =>
      rw [getLast?_eq_none_iff] at last
      rw [last] at split
      exact split
    | some c => exact tables.checkpoints.past_read split last
  refine ⟨⟨quiet, ?_, ?_, ?_, ?_, ?_, ?_⟩, remains, records⟩
  · rw [records]
    exact aligned.numbers
  · rw [records, prev]
    exact aligned.linked
  · rw [records]
    exact aligned.count
  · rw [remains, reached]
    exact second
  · omega
  · rw [remains, counted, ← covered]
    omega

end

end Pages

/-! ## Walks over moments -/

/-- What the tables showed at an earlier moment: a chain of their first rows. -/
structure Snapshot (crypto : Crypto) (tables part : Tables) : Prop where
  chain : ∃ seq head cpSeq, Chain crypto part seq head cpSeq
  records : part.records.rows <+: tables.records.rows
  checkpoints : part.checkpoints.rows <+: tables.checkpoints.rows

/-- Every query is answered from some moment. -/
def Shows (crypto : Crypto) (tables : Tables) (reads : Reads) : Prop :=
  ∀ k, ∃ part, reads k = .ok part ∧ Snapshot crypto tables part

section Walks

variable {crypto : Crypto} {tables : Tables} {seq : Int64} {head : Bytes} {cpSeq : Int64}
  {reads : Reads}

/-- A page of records from any moment passes, and a full one leaves less to read. -/
theorem askRecords_aligned (chain : Chain crypto tables seq head cpSeq)
    (shows : Shows crypto tables reads) (k : Nat) {w : Walk}
    (aligned : Aligned tables head cpSeq w) :
    ∃ page, askRecords reads k w = .ok page ∧
      Aligned tables head cpSeq (scan (verifyRecord crypto) Walk.broken page w) ∧
      (scan (verifyRecord crypto) Walk.broken page w).broken = false ∧
      (verifyPage ≤ page.length →
        (tables.records.past (scan (verifyRecord crypto) Walk.broken page
          w).v.records.toInt).length < (tables.records.past w.v.records.toInt).length) := by
  obtain ⟨part, read, snapshot⟩ := shows k
  obtain ⟨rest, split⟩ : (part.records.past w.v.records.toInt).take verifyPage <+:
    tables.records.past w.v.records.toInt :=
    ( take_prefix _ _).trans (Table.past_mono snapshot.records _)
  obtain ⟨kept, remains⟩ := aligned_records chain aligned split.symm
  refine ⟨_, by rw [askRecords, read], kept, kept.unbroken, fun full => ?_⟩
  have positive : 0 < verifyPage := by decide
  rw [remains, ← split, length_append]
  omega

/-- The records read at whatever moments pass, and none is left if the tables
themselves were read. -/
theorem verifyRest_aligned (chain : Chain crypto tables seq head cpSeq)
    (shows : Shows crypto tables reads) {w : Walk} (aligned : Aligned tables head cpSeq w)
    {fuel : Nat} (enough : tables.records.rows.length < fuel) (k : Nat) :
    ∃ reached after, verifyRest crypto reads fuel k w = some (.ok (reached, after)) ∧
      Aligned tables head cpSeq after ∧
      ((∀ k, reads k = .ok tables) → tables.records.past after.v.records.toInt = []) := by
  obtain ⟨reached, after, returned, kept, _, j, before, page, answer, here, short, final⟩ :=
    pages_invariant (Aligned tables head cpSeq)
      (fun w => (tables.records.past w.v.records.toInt).length)
      (fun k w aligned => askRecords_aligned chain shows k aligned) fuel k w aligned
      (Nat.lt_of_le_of_lt (length_filter_le _ _) enough)
  refine ⟨reached, after, returned, kept, fun whole => ?_⟩
  rw [askRecords, whole j] at answer
  cases answer
  rw [length_take] at short
  rw [take_of_length_le (by omega)] at final
  rw [final]
  exact (aligned_records chain here (append_nil _).symm).2

/-- Joining checkpoints with records leaves the checkpoints as they are. -/
theorem joinRecord_fst (rows : List CheckpointRow) :
    (rows.map (joinRecord tables)).map Prod.fst = rows := by
  rw [map_map]
  exact map_id rows

section

variable (chain : Chain crypto tables seq head cpSeq)
include chain

/-- The checkpoints of a chain verify and name the hashes they are joined with. -/
theorem joinRecord_signed (correct : ∀ message, crypto.verify message (crypto.sign message) = true)
    {rows : List CheckpointRow} (stored : ∀ c ∈ rows, c ∈ tables.checkpoints.rows) :
    ∀ joined ∈ rows.map (joinRecord tables),
      crypto.verify joined.1.checkpoint.message joined.1.signature = true ∧
      joined.1.head = joined.2.getD [] := by
  intro joined member
  obtain ⟨c, inRows, rfl⟩ := mem_map.mp member
  obtain ⟨row, recorded, number, digest⟩ := chain.heads c (stored c inRows)
  have found : tables.records.find? c.seq.toInt = some row := by
    rw [Table.find?_eq_some]
    exact ⟨recorded, congrArg Int64.toInt number⟩
  constructor
  · rw [joinRecord, chain.signatures c (stored c inRows)]
    exact correct _
  · rw [joinRecord, found, ← digest]
    rfl

/-- A page of checkpoints from any moment passes, and a full one leaves less to read. -/
theorem askCheckpoints_aligned (correct : ∀ message, crypto.verify message (crypto.sign message) =
    true) (shows : Shows crypto tables reads)
    (k : Nat) {w : Walk} (aligned : Aligned tables head cpSeq w) {number : Int64}
    (here : w.v.records = number) :
    ∃ page, askCheckpoints reads k w = .ok page ∧
      (Aligned tables head cpSeq (scan (verifyCheckpoint crypto) Walk.broken page w) ∧
        (scan (verifyCheckpoint crypto) Walk.broken page w).v.records = number) ∧
      (scan (verifyCheckpoint crypto) Walk.broken page w).broken = false ∧
      (verifyPage ≤ page.length →
        (tables.checkpoints.past (scan (verifyCheckpoint crypto) Walk.broken page
          w).cpSeq.toInt).length < (tables.checkpoints.past w.cpSeq.toInt).length) := by
  obtain ⟨part, read, snapshot⟩ := shows k
  obtain ⟨_, _, _, partChain⟩ := snapshot.chain
  obtain ⟨rest, split⟩ : (part.checkpoints.within w.cpSeq.toInt w.v.records.toInt).take
    verifyPage <+:
      tables.checkpoints.past w.cpSeq.toInt :=
    (( take_prefix _ _).trans (part.checkpoints.within_prefix _ _)).trans
      (Table.past_mono snapshot.checkpoints _)
  have stored : ∀ c ∈ (part.checkpoints.within w.cpSeq.toInt w.v.records.toInt).take verifyPage,
      c ∈ part.checkpoints.rows :=
    fun c member => ((Table.mem_within _ _ _ c).mp (mem_of_mem_take member)).1
  obtain ⟨kept, remains, records⟩ :=
    aligned_checkpoints chain aligned (by rw [joinRecord_fst, split])
    (joinRecord_signed partChain correct stored)
  refine ⟨_, by rw [askCheckpoints, read], ⟨kept, records.trans here⟩, kept.unbroken,
    fun full => ?_⟩
  have positive : 0 < verifyPage := by decide
  rw [length_map] at full
  rw [remains, ← split, length_append]
  omega

/-- The checkpoints read at whatever moments pass, and none is left if the tables
themselves were read after the last record. -/
theorem verifyCheckpoints_aligned
    (correct : ∀ message, crypto.verify message (crypto.sign message) = true)
    (shows : Shows crypto tables reads) {w : Walk} (aligned : Aligned tables head cpSeq w)
    {fuel : Nat} (enough : tables.checkpoints.rows.length < fuel) (k : Nat) :
    ∃ reached after, verifyCheckpoints crypto reads fuel k w = some (.ok (reached, after)) ∧
      Aligned tables head cpSeq after ∧ after.v.records = w.v.records ∧
      ((∀ k, reads k = .ok tables) → tables.records.past w.v.records.toInt = [] →
        tables.checkpoints.past after.cpSeq.toInt = []) := by
  obtain ⟨reached, after, returned, ⟨kept, records⟩, _, j, before, page, answer, ⟨here, same⟩,
    short, final⟩ :=
    pages_invariant (fun state => Aligned tables head cpSeq state ∧ state.v.records = w.v.records)
      (fun state => (tables.checkpoints.past state.cpSeq.toInt).length)
      (fun k state held => askCheckpoints_aligned chain correct shows k held.1 held.2) fuel k w
        ⟨aligned, rfl⟩
      (Nat.lt_of_le_of_lt (length_filter_le _ _) enough)
  refine ⟨reached, after, returned, kept, records, fun whole done => ?_⟩
  rw [askCheckpoints, whole j] at answer
  cases answer
  rw [length_map, length_take] at short
  have last : before.v.records.toInt = tables.records.rows.length := by
    have count := here.count
    rw [same, done, length_nil] at count
    rw [same]
    omega
  have all : tables.checkpoints.within before.cpSeq.toInt before.v.records.toInt =
      tables.checkpoints.past before.cpSeq.toInt := by
    rw [Table.within_eq_filter, filter_eq_self]
    intro c member
    have range := chain.covered_range ((Table.mem_past _ _ c).mp member).1
    rw [last]
    exact decide_eq_true range.2
  rw [take_of_length_le (by omega), all] at final
  rw [final]
  refine (aligned_checkpoints chain here (by rw [joinRecord_fst, append_nil]) ?_).2.1
  exact joinRecord_signed chain correct fun c member => ((Table.mem_past _ _ c).mp member).1

/-- A walk over whatever moments passes, and leaves nothing if it reads the tables
themselves. -/
theorem walk_aligned (correct : ∀ message, crypto.verify message (crypto.sign message) = true)
    (shows : Shows crypto tables reads) {w : Walk} (aligned : Aligned tables head cpSeq w)
    {fuel : Nat} (enough : tables.records.rows.length + tables.checkpoints.rows.length < fuel)
    (k : Nat) :
    ∃ reached after, walk crypto reads fuel k w = some (.ok (reached, after)) ∧
      Aligned tables head cpSeq after ∧
      ((∀ k, reads k = .ok tables) → tables.records.past after.v.records.toInt = [] ∧
        tables.checkpoints.past after.cpSeq.toInt = []) := by
  obtain ⟨next, checked, rest, kept, recordsLeft⟩ :=
    verifyRest_aligned chain shows aligned (by omega : _ < fuel) k
  obtain ⟨reached, covered, cover, keptAfter, records, checkpointsLeft⟩ :=
    verifyCheckpoints_aligned chain correct shows kept (by omega : _ < fuel) next
  have quiet : checked.v.brk = none := by simpa [Walk.broken] using kept.unbroken
  have quietAfter : covered.v.brk = none := by simpa [Walk.broken] using keptAfter.unbroken
  refine ⟨reached, covered, ?_, keptAfter, fun whole => ?_⟩
  · have same : ({ checked with v := { checked.v with brk := none } } : Walk) =
        checked := by rw [← quiet]
    simp only [walk, rest, same, cover, keptAfter.unbroken, Bool.false_eq_true, if_false]
    rw [quiet, ← quietAfter]
  · have done := recordsLeft whole
    exact ⟨by rw [records]; exact done, checkpointsLeft whole done⟩

/-- A walk with nothing left to read ends where the chain does, and so it concludes
without a break. -/
theorem conclude_aligned {w : Walk} (aligned : Aligned tables head cpSeq w)
    (recordsLeft : tables.records.past w.v.records.toInt = [])
    (checkpointsLeft : tables.checkpoints.past w.cpSeq.toInt = []) {log : Log}
    (number : log.seq = seq) (digest : log.head = head) (covered : log.cpSeq = cpSeq) :
    conclude log w tables = w.v ∧ w.v.records.toInt = tables.records.rows.length ∧
      w.v.checkpoints.toInt = tables.checkpoints.rows.length := by
  have count := aligned.count
  have counted := aligned.covered
  have prev := aligned.linked
  have reached := aligned.covering
  rw [recordsLeft, length_nil] at count
  rw [checkpointsLeft, length_nil] at counted
  rw [recordsLeft] at prev
  rw [checkpointsLeft] at reached
  have beyond : tables.checkpoints.past w.v.records.toInt = [] := by
    rw [eq_nil_iff_forall_not_mem]
    intro c member
    obtain ⟨stored, above⟩ := (Table.mem_past _ _ c).mp member
    have range := chain.covered_range stored
    omega
  have records : w.v.records = log.seq := by
    have total := chain.count
    rw [number]
    exact Int64.toInt_inj.mp (by omega)
  have head : w.prev = log.head := by
    rw [digest]
    exact prev
  have checkpoints : w.cpSeq = log.cpSeq := by
    rw [covered]
    exact Int64.toInt_inj.mp reached
  have level (n : Int64) : ¬ n < n := by
    rw [Int64.lt_iff_toInt_lt]
    omega
  refine ⟨?_, by omega, by omega⟩
  rw [conclude, beyond]
  simp [compareEnd, records, head, checkpoints, level]

end

/-- With enough fuel, a verification that starts over whatever moments and ends over the
tables themselves, where the log's memory ends too, finds no break and counts all. -/
theorem verify_aligned (correct : ∀ message, crypto.verify message (crypto.sign message) = true)
    {log : Log} (chain : Chain crypto tables log.seq log.head log.cpSeq) {unlocked locked : Reads}
    (shows : Shows crypto tables unlocked) (held : ∀ k, locked k = .ok tables) {fuel : Nat}
    (enough : tables.records.rows.length + tables.checkpoints.rows.length < fuel) :
    ∃ v, verify crypto unlocked locked true log fuel = some (.ok v) ∧ v.brk = none ∧
      v.records.toInt = tables.records.rows.length ∧
      v.checkpoints.toInt = tables.checkpoints.rows.length := by
  have showsLocked : Shows crypto tables locked :=
    fun k => ⟨tables, held k, ⟨_, _, _, chain⟩, prefix_rfl, prefix_rfl⟩
  obtain ⟨_, first, firstWalk, aligned, _⟩ :=
    walk_aligned chain correct shows (aligned_start chain) enough 0
  obtain ⟨k, second, secondWalk, alignedAfter, nothingLeft⟩ :=
    walk_aligned chain correct showsLocked aligned enough 0
  obtain ⟨recordsLeft, checkpointsLeft⟩ := nothingLeft held
  obtain ⟨concluded, records, checkpoints⟩ :=
    conclude_aligned chain alignedAfter recordsLeft checkpointsLeft rfl rfl rfl
  refine ⟨second.v, ?_, by simpa [Walk.broken] using alignedAfter.unbroken, records, checkpoints⟩
  simp [verify, firstWalk, aligned.unbroken, secondWalk, alignedAfter.unbroken, held, concluded]

end Walks

/-! ## Runs -/

section Runs

variable {crypto : Crypto} (cadence : Int64)

/-- What a process's tables show at any moment of its steps. -/
theorem run_snapshot {s : State} (synced : Synced crypto s) (during : List Step)
    (one : ∀ step ∈ during, step ≠ .openLog) (moment : Nat) :
    Snapshot crypto (s.world.run crypto cadence during).tables
      (s.world.run crypto cadence (during.take moment)).tables := by
  obtain ⟨_, middle, reached, advance, _⟩ := run_process crypto cadence synced (during.take moment)
    fun step member => one step (mem_of_mem_take member)
  obtain ⟨added, after, ran, later, _⟩ :=
    run_process crypto cadence advance.synced (during.drop moment)
    fun step member => one step (mem_of_mem_drop member)
  have whole : s.world.run crypto cadence during = after.world := by
    rw [← ran, ← reached]
    conv_lhs => rw [← take_append_drop moment during]
    exact foldl_append
  rw [whole, reached]
  exact ⟨⟨_, _, _, advance.synced⟩, ⟨added, later.rows.symm⟩, later.signed⟩

/-- No false alarm. Take any run of logs to a process with its key loaded, and any
further steps of that process while a verification reads its first pages: the `k`th of
them sees the tables as they are after some number of those steps. The pages under the
lock see the tables after all of them. If every signature the key makes verifies, the
verification returns, once its loops may go round often enough, without a break, and
with the numbers of stored records and checkpoints.

Proof: each moment shows first parts of the final tables, so every page is a first part
of what is left to read there. -/
theorem verify_quiet (correct : ∀ message, crypto.verify message (crypto.sign message) = true)
    (before during : List Step) (one : ∀ step ∈ during, step ≠ .openLog) {log : Log}
    (running : (World.init.run crypto cadence before).log = some log) (keyed : log.keyed = true)
    (moment : Nat → Nat) :
    let seen := fun n => World.init.run crypto cadence (before ++ during.take n)
    let held := World.init.run crypto cadence (before ++ during)
    ∃ memory enough, held.log = some memory ∧ ∀ fuel ≥ enough, ∃ v,
      verify crypto (fun k => .ok (seen (moment k)).tables) (fun _ => .ok held.tables) log.keyed
        memory fuel =
        some (.ok v) ∧ v.brk = none ∧ v.records.toInt = held.tables.records.rows.length ∧
      v.checkpoints.toInt = held.tables.checkpoints.rows.length := by
  intro seen held
  let s : State :=
    { tables := (World.init.run crypto cadence before).tables
      lines := (World.init.run crypto cadence before).lines
      log := log }
  have started : World.init.run crypto cadence before = s.world := by
    rw [State.world, ← running]
  have synced : Synced crypto s := (run_sound crypto cadence (init_sound crypto) before).2 log
    running
  have continued (steps : List Step) : World.init.run crypto cadence (before ++ steps) =
      s.world.run crypto cadence steps := by
    rw [← started]
    exact foldl_append
  obtain ⟨_, after, ran, advance, _⟩ := run_process crypto cadence synced during one
  have reached : held = after.world := (continued during).trans ran
  refine ⟨after.log, held.tables.records.rows.length + held.tables.checkpoints.rows.length +
    1, by rw [reached]; rfl, ?_⟩
  intro fuel enough
  rw [keyed]
  refine verify_aligned correct ?_ ?_ (fun _ => rfl) enough
  · rw [reached]
    exact advance.synced
  · intro k
    refine ⟨_, rfl, ?_⟩
    simp only [seen, held, continued]
    exact run_snapshot cadence synced during one (moment k)

end Runs

/-- Two records, each with a checkpoint. -/
def arrivals : List Step := [.append (fun _ => calm) attempt, .append (fun _ => calm) attempt]

/-- The two records are appended while a verification reads its first pages: the first
page sees one of them, and later pages see both. -/
theorem verify_quiet_growing :
    ∃ memory v fuel, verify echo
      (fun k => .ok (World.init.run echo 1 ([.openLog, .loadKey] ++ arrivals.take (k + 1))).tables)
      (fun _ => .ok (World.init.run echo 1 ([.openLog, .loadKey] ++ arrivals)).tables) true memory
        fuel = some (.ok v) ∧ v.brk = none ∧ v.records.toInt = 2 ∧ v.checkpoints.toInt = 2 := by
  have correct : ∀ message, echo.verify message (echo.sign message) = true := by simp [echo]
  have running : (World.init.run echo 1 [.openLog, .loadKey]).log =
      some { openLog World.init.tables with keyed := true } := rfl
  obtain ⟨memory, enough, _, returns⟩ :=
    verify_quiet 1 correct [.openLog, .loadKey] arrivals (by simp [arrivals])
    running rfl (fun k => k + 1)
  obtain ⟨v, returned, unbroken, records, checkpoints⟩ := returns enough (Nat.le_refl enough)
  refine ⟨memory, v, enough, returned, unbroken, records.trans ?_, checkpoints.trans ?_⟩
  · decide +kernel
  · decide +kernel

end TrustedCourier.Audit
