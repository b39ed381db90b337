import TrustedCourier.AuditTampering

/-!
# What a verification counts

A verification that reports a break also says how many records it found intact. Those
records are all there, match their hashes and are chained from genesis, wherever the
count was taken from: the walk's position, the last good checkpoint, or the log's own
end. A chain commits to its records only backwards from its tip, so they are the
original ones exactly when the last of them is. The records up to the last verified
checkpoint are always original, because the checkpoint names the hash of the original
record. Records after it may have been rewritten with new hashes, or added behind the
log's end, and are counted until the first one that does not chain.

Without a break the count is exact for the rows with positive numbers. Rows with other
numbers are in neither walk.
-/

namespace TrustedCourier.Audit

open List

/-- The records numbered 1 to `n` are all there, match their hashes, and are chained
from genesis to `tip`. -/
structure Counted (crypto : Crypto) (tables : Tables) (n : Int) (tip : Bytes) : Prop where
  length : ((tables.records.within 0 n).length : Int) = n
  numbered : ∀ (i : Nat) (row : Row), (tables.records.within 0 n)[i]? = some row →
    row.seq.toInt = i + 1
  hashes : ∀ row ∈ tables.records.within 0 n, row.hash = crypto.sum256 row.hashed
  linked : Linked Row.prevHash Row.hash genesis (tables.records.within 0 n) tip

namespace Counted

variable {crypto : Crypto} {tables genuine : Tables} {n : Int} {tip : Bytes}

/-- Before the first record nothing is counted. -/
theorem zero : Counted crypto tables 0 genesis := by
  have none : tables.records.within 0 0 = [] := by
    rw [eq_nil_iff_forall_not_mem]
    intro row member
    have range := ((tables.records.mem_within 0 0 row).mp member).2
    omega
  refine ⟨?_, ?_, ?_, ?_⟩ <;> rw [none]
  · rfl
  · simp
  · simp
  · rfl

section

variable (counted : Counted crypto tables n tip)
include counted

/-- A record that continues the chain is counted. -/
theorem next {row : Row} (member : row ∈ tables.records.rows)
    (number : row.seq.toInt = n + 1) (digest : row.hash = crypto.sum256 row.hashed)
    (names : row.prevHash = tip) :
    Counted crypto tables row.seq.toInt row.hash := by
  have length := counted.length
  have grown : tables.records.within 0 row.seq.toInt = tables.records.within 0 n ++ [row] := by
    have split := tables.records.within_key 0 member (by omega)
    rwa [number, show n + 1 - 1 = n by omega, ← number] at split
  refine ⟨?_, ?_, ?_, ?_⟩ <;> rw [grown]
  · rw [length_append, length_singleton]
    omega
  · intro i other found
    rcases Nat.lt_or_ge i (tables.records.within 0 n).length with inside | outside
    · rw [getElem?_append_left inside] at found
      exact counted.numbered i other found
    · rw [getElem?_append_right outside] at found
      obtain ⟨here, rfl⟩ : i = (tables.records.within 0 n).length ∧ row = other := by
        rw [getElem?_singleton] at found
        split at found
        · next first => exact ⟨by omega, Option.some.inj found⟩
        · simp at found
      omega
  · intro other member
    rcases mem_append.mp member with earlier | last
    · exact counted.hashes other earlier
    · rw [mem_singleton.mp last]
      exact digest
  · exact counted.linked.concat names

/-- The last counted record is where the chain ends. -/
theorem last (positive : 0 < n) :
    ∃ row ∈ tables.records.rows, row.seq.toInt = n ∧ row.hash = tip ∧
      row.hash = crypto.sum256 row.hashed ∧
      (tables.records.within 0 n).getLast? = some row := by
  have length := counted.length
  obtain ⟨row, found⟩ :
    ∃ row, (tables.records.within 0 n)[(tables.records.within 0 n).length - 1]? = some row :=
    ⟨_, getElem?_eq_getElem (by omega)⟩
  have number := counted.numbered _ row found
  have member := mem_of_getElem? found
  have final : (tables.records.within 0 n).getLast? =
      some row := by rw [getLast?_eq_getElem?, found]
  have ends : tip = row.hash := by
    rw [counted.linked.finish_eq, final]
    rfl
  exact ⟨row, ((tables.records.mem_within 0 n row).mp member).1, by omega, ends.symm,
    counted.hashes row member, final⟩

/-- Without its last record a counted chain is still one. -/
theorem pred (positive : 0 < n) : ∃ before, Counted crypto tables (n - 1) before := by
  obtain ⟨row, member, number, _⟩ := counted.last positive
  have split := tables.records.within_key 0 member (by omega)
  rw [number] at split
  obtain ⟨length, numbered, hashes, linked⟩ := counted
  rw [split] at length numbered hashes linked
  obtain ⟨before, front, _⟩ := Linked.append_iff.mp linked
  refine ⟨before, ?_, ?_, ?_, front⟩
  · rw [length_append, length_singleton] at length
    omega
  · intro i other found
    refine numbered i other ?_
    rw [List.getElem?_append_left (List.getElem?_eq_some_iff.mp found).1]
    exact found
  · intro other inside
    exact hashes other (mem_append_left _ inside)

/-- A counted chain can be cut off anywhere. -/
theorem upTo {m : Int} (low : 0 ≤ m) (high : m ≤ n) :
    ∃ before, Counted crypto tables m before := by
  obtain ⟨steps, rfl⟩ : ∃ steps : Nat, n = m + steps := ⟨(n - m).toNat, by omega⟩
  induction steps generalizing tip with
  | zero => exact ⟨tip, by simpa using counted⟩
  | succ steps ih =>
    obtain ⟨before, shorter⟩ := counted.pred (by omega)
    rw [show m + ((steps + 1 : Nat) : Int) - 1 = m + steps by omega] at shorter
    exact ih shorter (by omega)

end

/-- Counted chains that end alike commit to the same records. -/
theorem committed_eq (collisionFree : CollisionFree crypto) (counted : Counted crypto tables n tip)
    (original : Counted crypto genuine n tip) :
    (tables.records.within 0 n).map Row.committed =
      (genuine.records.within 0 n).map Row.committed := by
  have length := counted.length
  have lengthOriginal := original.length
  refine (Linked.content_eq Row.committed ?_ (by omega) counted.linked original.linked).1
  intro a member b memberOther same
  exact hash_settles collisionFree (counted.hashes a member) (original.hashes b memberOther) same

/-- Counted chains that commit to the same records end alike. -/
theorem tip_eq (counted : Counted crypto tables n tip) {other : Bytes}
    (original : Counted crypto genuine n other)
    (same : (tables.records.within 0 n).map Row.committed =
      (genuine.records.within 0 n).map Row.committed) :
    tip = other := by
  have hashes : (tables.records.within 0 n).map Row.hash =
      (genuine.records.within 0 n).map Row.hash := by
    have project :=
      congrArg (List.map fun committed : Int64 × Bytes × Bytes × Bytes => committed.2.2.2) same
    rw [map_map, map_map] at project
    exact project
  rw [counted.linked.finish_eq, original.linked.finish_eq, ← getLast?_map, ← getLast?_map, hashes]

end Counted

/-- Every stored chain is counted up to each of its records. -/
theorem Chain.counted {crypto : Crypto} {tables : Tables} {seq : Int64} {head : Bytes}
    {cpSeq : Int64} (chain : Chain crypto tables seq head cpSeq) :
    Counted crypto tables seq.toInt head := by
  have all : tables.records.within 0 seq.toInt = tables.records.rows := by
    rw [tables.records.within_eq_filter, chain.past_zero.1, filter_eq_self]
    intro row member
    have range := chain.seq_range member
    rw [decide_eq_true_eq, chain.count]
    exact range.2
  refine ⟨?_, ?_, ?_, ?_⟩ <;> rw [all]
  · exact chain.count.symm
  · exact chain.numbered
  · exact chain.hashes
  · exact chain.linked

/-- The record that the first `k` checkpoints reach. -/
def Tables.reach (tables : Tables) (k : Nat) : Int :=
  ((tables.checkpoints.rows.take k).getLast?.map (·.seq.toInt)).getD 0

/-- What a count of records and checkpoints says: the records are counted up to `tip`,
the checkpoints are the first of the genuine ones and reach `covered`, and up to there
the records are genuine. -/
structure Report (crypto : Crypto) (genuine tables : Tables) (records checkpoints : Int64)
    (tip : Bytes) (covered : Int) :
    Prop where
  counted : Counted crypto tables records.toInt tip
  low : 0 ≤ checkpoints.toInt
  few : checkpoints.toInt ≤ genuine.checkpoints.rows.length
  reached : covered = genuine.reach checkpoints.toInt.toNat
  inside : covered ≤ records.toInt
  settled : (tables.records.within 0 covered).map Row.committed =
    (genuine.records.within 0 covered).map Row.committed

/-- A break lies after the records counted. -/
def Broken (crypto : Crypto) (genuine tables : Tables) (v : Verification) : Prop :=
  ∃ b tip covered, v.brk = some b ∧ v.records.toInt < b.seq.toInt ∧
    Report crypto genuine tables v.records v.checkpoints tip covered

section Steps

variable {crypto : Crypto} {w : Walk}

/-- A record that does not pass is reported after the records counted. -/
theorem verifyRecord_broken {row : Row} (running : w.broken = false)
    (past : w.v.records.toInt < row.seq.toInt)
    (broken : (verifyRecord crypto w row).broken = true) :
    ∃ seq problem, verifyRecord crypto w row = w.breakAt seq problem ∧
      w.v.records.toInt < seq.toInt := by
  have bounded := row.seq.toInt_lt
  have next : (w.v.records + 1).toInt = w.v.records.toInt + 1 := toInt_succ (by omega)
  revert broken
  fun_cases verifyRecord crypto w row with
  | case1 => exact fun _ => ⟨_, _, rfl, next ▸ Int.lt_succ _⟩
  | case4 => simp [running]
  | _ => exact fun _ => ⟨_, _, rfl, past⟩

/-- A checkpoint that does not pass is reported after the records covered so far, which
are then the ones counted. -/
theorem verifyCheckpoint_broken {joined : CheckpointRow × Option Bytes} (running : w.broken = false)
    (past : w.cpSeq.toInt < joined.1.seq.toInt)
    (broken : (verifyCheckpoint crypto w joined).broken = true) :
    ∃ seq problem, verifyCheckpoint crypto w joined =
      ({ w with v := { w.v with records := w.cpSeq } } : Walk).breakAt seq problem ∧
      w.cpSeq.toInt < seq.toInt := by
  revert broken
  fun_cases verifyCheckpoint crypto w joined with
  | case2 _ _ _ _ later => exact fun _ => ⟨_, _, rfl, Int64.lt_iff_toInt_lt.mp later⟩
  | case5 => simp [running]
  | _ => exact fun _ => ⟨_, _, rfl, past⟩

end Steps

section Count

variable {crypto : Crypto} {genuine tables : Tables} {seq : Int64} {head : Bytes} {cpSeq : Int64}
  {w : Walk}

/-- What a walk has established so far. -/
def Walk.Reports (crypto : Crypto) (genuine tables : Tables) (w : Walk) : Prop :=
  Report crypto genuine tables w.v.records w.v.checkpoints w.prev w.cpSeq.toInt

/-- The next checkpoint of a chain is the one whose predecessor was the last. -/
theorem Chain.reach_next (chain : Chain crypto genuine seq head cpSeq) {k : Nat} {c : CheckpointRow}
    (member : c ∈ genuine.checkpoints.rows) (within : k ≤ genuine.checkpoints.rows.length)
    (follows : c.prevSeq.toInt = genuine.reach k) :
    k < genuine.checkpoints.rows.length ∧ genuine.reach (k + 1) = c.seq.toInt := by
  have split := take_append_drop k genuine.checkpoints.rows
  obtain ⟨middle, front, _⟩ := Linked.append_iff.mp (split ▸ chain.covering)
  have extended := front.concat (follows.trans front.finish_eq.symm)
  obtain ⟨rest, longer⟩ := Linked.prefix_of_subset chain.covering chain.rising extended
    (fun row inside => by
    rcases mem_append.mp inside with earlier | last
    · exact mem_of_mem_take earlier
    · rw [mem_singleton.mp last]
      exact member)
  have length := congrArg List.length longer
  simp only [length_append, length_take, length_singleton] at length
  refine ⟨by omega, ?_⟩
  have taken : genuine.checkpoints.rows.take (k + 1) = genuine.checkpoints.rows.take k ++ [c] := by
    conv_lhs => rw [← longer]
    have size : (genuine.checkpoints.rows.take k ++ [c]).length = k + 1 := by
      rw [length_append, length_take, length_singleton]
      omega
    rw [take_append_of_le_length size.ge, take_of_length_le size.le]
  rw [Tables.reach, taken, getLast?_concat]
  rfl

/-- The record the first checkpoints of a chain reach is stored. -/
theorem Chain.reach_range (chain : Chain crypto genuine seq head cpSeq) (k : Nat) :
    0 ≤ genuine.reach k ∧ genuine.reach k ≤ seq.toInt := by
  have count := chain.count
  unfold Tables.reach
  cases last : (genuine.checkpoints.rows.take k).getLast? with
  | none =>
    simp only [Option.map_none, Option.getD_none]
    omega
  | some c =>
    have range := chain.covered_range (mem_of_mem_take (mem_of_getLast? last))
    simp only [Option.map_some, Option.getD_some]
    omega

/-- A walk begins with nothing counted. -/
theorem start_reports : Walk.start.Reports crypto genuine tables := by
  have zero : Walk.start.v.records.toInt = 0 ∧ Walk.start.cpSeq.toInt = 0 ∧
      Walk.start.v.checkpoints.toInt = 0 := by
    decide
  obtain ⟨records, covered, checkpoints⟩ := zero
  have counted : Counted crypto tables 0 genesis := Counted.zero
  have original : Counted crypto genuine 0 genesis := Counted.zero
  refine ⟨records ▸ counted, ?_, ?_, ?_, ?_, ?_⟩
  · omega
  · omega
  · rw [covered, checkpoints]
    rfl
  · omega
  · rw [covered, length_eq_zero_iff.mp (Int.natCast_eq_zero.mp counted.length),
      length_eq_zero_iff.mp (Int.natCast_eq_zero.mp original.length)]

/-- A record that passes is counted. -/
theorem Walk.Reports.passRecord (reports : w.Reports crypto genuine tables) {row : Row}
    (member : row ∈ tables.records.rows) (past : w.v.records.toInt < row.seq.toInt)
    (continues : Continues crypto w row) :
    (w.passRecord row).Reports crypto genuine tables := by
  have number : row.seq.toInt = w.v.records.toInt + 1 := by
    rw [continues.number] at past ⊢
    exact toInt_succ_of_lt past
  obtain ⟨counted, low, few, reached, inside, settled⟩ := reports
  refine ⟨counted.next member number continues.digest continues.names, low, few, reached, ?_,
    settled⟩
  rw [passRecord_records]
  exact Int.le_trans inside (Int.le_of_lt past)

/-- A checkpoint that passes is the next genuine one, and settles the records up to the
one it covers. -/
theorem Walk.Reports.passCheckpoint (chain : Chain crypto genuine seq head cpSeq)
    (collisionFree : CollisionFree crypto) (unforged : Unforged crypto genuine)
    (reports : w.Reports crypto genuine tables) {c : CheckpointRow}
    (upTo : c.seq.toInt ≤ w.v.records.toInt) (covers : Covers crypto w (joinRecord tables c)) :
    (w.passCheckpoint c).Reports crypto genuine tables := by
  obtain ⟨counted, low, few, reached, inside, settled⟩ := reports
  obtain ⟨original, known, same⟩ := unforged _ _ covers.signed
  have statement : c.checkpoint = original.checkpoint := message_injective same
  have number : c.seq = original.seq := congrArg Checkpoint.seq statement
  have follows : original.prevSeq.toInt = genuine.reach w.v.checkpoints.toInt.toNat := by
    rw [← reached, ← covers.follows]
    exact congrArg (fun statement => statement.prevSeq.toInt) statement.symm
  obtain ⟨fewer, next⟩ := chain.reach_next known (by omega) follows
  have range := chain.covered_range known
  have count := chain.count
  have fits := chain.few
  have checkpoints : (w.v.checkpoints + 1).toInt = w.v.checkpoints.toInt + 1 := by
    have bound := chain.covering.length_le chain.rising
    have stored := chain.covered_le
    exact toInt_succ_of_fits (by omega)
  obtain ⟨row, member, rowNumber, rowHash⟩ := chain.heads original known
  obtain ⟨tip, part⟩ := counted.upTo (m := c.seq.toInt) (by rw [number]; omega) upTo
  obtain ⟨tipOriginal, partOriginal⟩ :=
    chain.counted.upTo (m := c.seq.toInt) (by rw [number]; omega)
    (by rw [number, count]; exact range.2)
  obtain ⟨last, stored, lastNumber, lastHash, _⟩ := part.last (by rw [number]; omega)
  obtain ⟨lastOriginal, storedOriginal, lastNumberOriginal, lastHashOriginal, _⟩ :=
    partOriginal.last (by rw [number]; omega)
  have sameRow : lastOriginal = row := genuine.records.key_injective storedOriginal member (by
    rw [lastNumberOriginal, rowNumber, number])
  have joined : tables.records.find? c.seq.toInt = some last := by
    rw [Table.find?_eq_some]
    exact ⟨stored, lastNumber⟩
  have tips : tip = tipOriginal := by
    have named : c.head = last.hash := by
      rw [show c.head = _ from covers.head]
      simp only [joinRecord, joined, Option.map_some, Option.getD_some]
    have heads : c.head = original.head := congrArg Checkpoint.head statement
    rw [← lastHash, ← lastHashOriginal, sameRow, rowHash, ← named, heads]
  refine ⟨counted, ?_, ?_, ?_, upTo, part.committed_eq collisionFree (tips ▸ partOriginal)⟩
  · show 0 ≤ (w.v.checkpoints + 1).toInt
    omega
  · show (w.v.checkpoints + 1).toInt ≤ _
    omega
  · show c.seq.toInt = genuine.reach (w.v.checkpoints + 1).toInt.toNat
    rw [checkpoints, show (w.v.checkpoints.toInt + 1).toNat = w.v.checkpoints.toInt.toNat +
      1 by omega, next, number]

/-- Scanning the remaining records counts those that pass, and reports the first that
does not. -/
theorem scan_records_reports (reports : w.Reports crypto genuine tables)
    (running : w.broken = false) :
    let after := scan (verifyRecord crypto) Walk.broken (tables.records.past w.v.records.toInt) w
    ({ after with v := { after.v with brk := none } } : Walk).Reports crypto genuine tables ∧
      ∀ b, after.v.brk = some b → after.v.records.toInt < b.seq.toInt := by
  intro after
  have outcome := scan_outcome (verifyRecord crypto) Walk.broken
    (fun rows state => state.Reports crypto genuine tables ∧
      tables.records.past state.v.records.toInt = rows)
    (fun state => ({ state with v := { state.v with brk := none } } : Walk).Reports crypto genuine
      tables ∧
      ∀ b, state.v.brk = some b → state.v.records.toInt < b.seq.toInt)
    (fun row rest state holds _ passed => by
      obtain ⟨reported, remains⟩ := holds
      obtain ⟨member, past⟩ := (tables.records.mem_past _ row).mp (remains ▸ mem_cons_self)
      have continues := verifyRecord_passed passed
      have onwards : tables.records.past row.seq.toInt = rest :=
        tables.records.past_read (remains.trans singleton_append.symm) rfl
      rw [verifyRecord_continues continues]
      exact ⟨reported.passRecord member past continues, onwards⟩)
    (fun row rest state holds quiet failed => by
      obtain ⟨reported, remains⟩ := holds
      obtain ⟨_, past⟩ := (tables.records.mem_past _ row).mp (remains ▸ mem_cons_self)
      obtain ⟨seq, problem, same, above⟩ := verifyRecord_broken quiet past failed
      rw [same]
      refine ⟨reported, fun b found => ?_⟩
      cases found
      exact above)
    ⟨reports, rfl⟩ running
  cases ended : after.broken with
  | true => exact outcome.2 ended
  | false =>
    refine ⟨(outcome.1 ended).1, fun b found => ?_⟩
    simp [Walk.broken, found] at ended

section

variable (chain : Chain crypto genuine seq head cpSeq)
include chain

/-- Scanning the remaining checkpoints does the same; a break leaves the records that
the checkpoints before it cover. -/
theorem scan_checkpoints_reports (collisionFree : CollisionFree crypto)
    (unforged : Unforged crypto genuine)
    (reports : w.Reports crypto genuine tables) (running : w.broken = false) :
    let after := scan (verifyCheckpoint crypto) Walk.broken
      ((tables.checkpoints.within w.cpSeq.toInt w.v.records.toInt).map (joinRecord tables)) w
    (after.broken = false → after.Reports crypto genuine tables ∧ after.v.records = w.v.records) ∧
      (after.broken = true → Broken crypto genuine tables after.v) := by
  intro after
  have outcome := scan_outcome (verifyCheckpoint crypto) Walk.broken
    (fun rows state => state.Reports crypto genuine tables ∧ state.v.records = w.v.records ∧
      (tables.checkpoints.within state.cpSeq.toInt w.v.records.toInt).map (joinRecord tables) =
        rows)
    (fun state => Broken crypto genuine tables state.v)
    (fun joined rest state holds _ passed => by
      obtain ⟨reported, same, remains⟩ := holds
      have covers := verifyCheckpoint_passed passed
      obtain ⟨c, others, split, rfl, rfl⟩ := map_eq_cons_iff.mp remains
      have member : c ∈ tables.checkpoints.within state.cpSeq.toInt w.v.records.toInt :=
        split ▸ mem_cons_self
      obtain ⟨_, _, upTo⟩ := (tables.checkpoints.mem_within _ _ c).mp member
      rw [verifyCheckpoint_covers covers]
      refine ⟨reported.passCheckpoint chain collisionFree unforged (same ▸ upTo) covers, same, ?_⟩
      have first :
          ((tables.checkpoints.within state.cpSeq.toInt w.v.records.toInt).take 1).getLast? =
            some c := by
        rw [split]
        rfl
      have onwards := tables.checkpoints.within_page first
      rw [split] at onwards
      exact congrArg _ onwards)
    (fun joined rest state holds quiet failed => by
      obtain ⟨reported, same, remains⟩ := holds
      obtain ⟨c, others, split, rfl, rfl⟩ := map_eq_cons_iff.mp remains
      have member : c ∈ tables.checkpoints.within state.cpSeq.toInt w.v.records.toInt :=
        split ▸ mem_cons_self
      obtain ⟨_, past, _⟩ := (tables.checkpoints.mem_within _ _ c).mp member
      obtain ⟨seq, problem, result, above⟩ := verifyCheckpoint_broken quiet past failed
      obtain ⟨counted, low, few, reached, inside, settled⟩ := reported
      obtain ⟨tip, part⟩ := counted.upTo (reached ▸ (chain.reach_range _).1) inside
      rw [result]
      exact ⟨_, tip, state.cpSeq.toInt, rfl, above, part, low, few, reached, Int.le_refl _,
        settled⟩)
    ⟨reports, rfl, rfl⟩ running
  exact ⟨fun ended => ⟨(outcome.1 ended).1, (outcome.1 ended).2.1⟩, outcome.2⟩

/-- A walk over fixed tables reports what it has established, with a break or without. -/
theorem walk_reports (collisionFree : CollisionFree crypto) (unforged : Unforged crypto genuine)
    {reads : Reads} (fixed : Fixed reads tables) {fuel k reached : Nat} {after : Walk}
    (reports : w.Reports crypto genuine tables) (running : w.broken = false)
    (returned : walk crypto reads fuel k w = some (.ok (reached, after))) :
    (after.broken = false → after.Reports crypto genuine tables) ∧
      (after.broken = true → Broken crypto genuine tables after.v) := by
  unfold walk at returned
  split at returned
  · simp at returned
  · simp at returned
  · next rest =>
    obtain rfl := verifyRest_fixed fixed running rest
    obtain ⟨reported, above⟩ := scan_records_reports reports running
    generalize scan (verifyRecord crypto) Walk.broken (tables.records.past w.v.records.toInt) w =
      checked at *
    split at returned
    · simp at returned
    · simp at returned
    · next cover =>
      obtain rfl := verifyCheckpoints_fixed fixed rfl cover
      obtain ⟨passed, failed⟩ := scan_checkpoints_reports chain collisionFree unforged reported rfl
      generalize scan (verifyCheckpoint crypto) Walk.broken _ _ = covered at *
      split at returned
      · next broken =>
        obtain ⟨_, rfl⟩ := Prod.mk.inj (Except.ok.inj (Option.some.inj returned))
        refine ⟨fun quiet => ?_, failed⟩
        rw [broken] at quiet
        cases quiet
      · next quiet =>
        obtain ⟨_, rfl⟩ := Prod.mk.inj (Except.ok.inj (Option.some.inj returned))
        obtain ⟨kept, records⟩ := passed (Bool.not_eq_true _ ▸ quiet)
        refine ⟨fun _ => kept, fun broken => ?_⟩
        obtain ⟨b, found⟩ := Option.isSome_iff_exists.mp broken
        refine ⟨b, covered.prev, covered.cpSeq.toInt, found, ?_, kept⟩
        rw [records]
        exact above b found

/-- If a checkpoint covers the last record the log appended, the walk ends at the log's
head. -/
theorem Report.ends {records checkpoints : Int64} {tip : Bytes} {covered : Int}
    (report : Report crypto genuine tables records checkpoints tip covered)
    (level : records = seq) (all : covered = seq.toInt) : tip = head := by
  obtain ⟨counted, _, _, _, _, settled⟩ := report
  rw [all] at settled
  exact (level ▸ counted).tip_eq chain.counted settled

end

/-- With no record at all, every chain ends at genesis. -/
theorem Counted.tip_zero {tip : Bytes} (counted : Counted crypto tables 0 tip) : tip = genesis := by
  have none := length_eq_zero_iff.mp (Int.natCast_eq_zero.mp counted.length)
  have linked := counted.linked
  rw [none] at linked
  exact linked.symm

section

variable {log : Log} (chain : Chain crypto genuine log.seq log.head log.cpSeq)
include chain

/-- The comparisons with the log's end report after the records they count. -/
theorem compareEnd_reports (reports : w.Reports crypto genuine tables) (running : w.v.brk = none)
    {b : Break}
    (found : (compareEnd log w).brk = some b) :
    Broken crypto genuine tables (compareEnd log w) := by
  have count := chain.count
  have stored := chain.covered_le
  have bounded := log.seq.toInt_lt
  obtain ⟨counted, low, few, reached, inside, settled⟩ := reports
  have range := chain.reach_range w.v.checkpoints.toInt.toNat
  unfold compareEnd at found ⊢
  simp only at found ⊢
  split
  · next shorter =>
    rw [Int64.lt_iff_toInt_lt] at shorter
    have next : (w.v.records + 1).toInt = w.v.records.toInt + 1 := toInt_succ (by omega)
    exact ⟨_, _, _, rfl, by simp only; omega, counted, low, few, reached, inside, settled⟩
  · next notShorter =>
    rw [if_neg notShorter] at found
    split
    · next longer =>
      rw [Int64.lt_iff_toInt_lt] at longer
      have above := w.v.records.toInt_lt
      have next : (log.seq + 1).toInt = log.seq.toInt + 1 := toInt_succ (by omega)
      obtain ⟨tip, part⟩ := counted.upTo (m := log.seq.toInt) (by omega) (by omega)
      exact ⟨_, tip, _, rfl, by simp only; omega, part, low, few, reached,
        by simp only; omega, settled⟩
    · next notLonger =>
      rw [if_neg notLonger] at found
      rw [Int64.lt_iff_toInt_lt] at notShorter notLonger
      have level : w.v.records = log.seq := Int64.toInt_inj.mp (by omega)
      split
      · next other =>
        -- the log's head is genesis without a record, and the last covered record's hash if
        -- that is the last
        have positive : 0 < log.seq.toInt := by
          by_contra none
          have zero : log.seq.toInt = 0 := by omega
          have ends := chain.counted
          rw [level, zero] at counted
          rw [zero] at ends
          exact other (counted.tip_zero.trans ends.tip_zero.symm)
        have uncovered : w.cpSeq.toInt ≠ log.seq.toInt := by
          intro all
          exact other (Report.ends chain ⟨counted, low, few, reached, inside, settled⟩ level all)
        have before : (log.seq - 1).toInt = log.seq.toInt - 1 := by
          rw [Int64.toInt_sub, show (1 : Int64).toInt = 1 by decide]
          apply Int.bmod_eq_of_le <;> omega
        obtain ⟨tip, part⟩ := counted.upTo (m := log.seq.toInt - 1) (by omega) (by omega)
        refine ⟨_, tip, w.cpSeq.toInt, rfl, by simp only; omega, ?_, low, few, reached, ?_, settled⟩
        · simp only [before]
          exact part
        · simp only [before]
          rw [level] at inside
          omega
      · next same =>
        rw [if_neg same] at found
        split
        · next missing =>
          rw [Int64.lt_iff_toInt_lt] at missing
          obtain ⟨tip, part⟩ := counted.upTo (by omega) inside
          exact ⟨_, tip, _, rfl, missing, part, low, few, reached, Int.le_refl _, settled⟩
        · next covered =>
          rw [if_neg covered, running] at found
          simp at found

/-- What `Verify` concludes from a walk without a break, if it reports one, comes after
the records counted. -/
theorem conclude_reports (reports : w.Reports crypto genuine tables) (running : w.v.brk = none)
    {b : Break} (found : (conclude log w tables).brk = some b) :
    Broken crypto genuine tables (conclude log w tables) := by
  unfold conclude at found ⊢
  cases covering : (tables.checkpoints.past w.v.records.toInt).head? with
  | none =>
    rw [covering] at found
    exact compareEnd_reports chain reports running found
  | some c =>
    obtain ⟨_, past⟩ := (tables.checkpoints.mem_past _ c).mp (mem_of_head? covering)
    have bounded := c.seq.toInt_lt
    have next : (w.v.records + 1).toInt = w.v.records.toInt + 1 := toInt_succ (by omega)
    exact ⟨_, _, _, rfl, by simp only; omega, reports⟩

/-- A verification of fixed tables that reports a break has counted what it says. -/
theorem verify_reports (collisionFree : CollisionFree crypto) (unforged : Unforged crypto genuine)
    {unlocked locked : Reads} (fixed : Fixed unlocked tables) (fixedLocked : Fixed locked tables)
    {keyed : Bool} {fuel : Nat} {v : Verification}
    (returned : verify crypto unlocked locked keyed log fuel = some (.ok v)) {b : Break}
    (broken : v.brk = some b) : Broken crypto genuine tables v := by
  revert returned
  -- A verification returns after the first walk, after the second one, or at its end.
  fun_cases verify crypto unlocked locked keyed log fuel <;> rintro ⟨⟩
  case case4 firstWalk found =>
    exact (walk_reports chain collisionFree unforged fixed start_reports rfl firstWalk).2 found
  case case7 firstWalk quiet _ _ secondWalk found =>
    have quietFirst := Bool.not_eq_true _ ▸ quiet
    obtain ⟨passed, _⟩ := walk_reports chain collisionFree unforged fixed start_reports rfl
      firstWalk
    exact (walk_reports chain collisionFree unforged fixedLocked (passed quietFirst) quietFirst
      secondWalk).2 found
  case case9 firstWalk quiet _ _ secondWalk quietAgain _ read =>
    have quietFirst := Bool.not_eq_true _ ▸ quiet
    have unbroken := Bool.not_eq_true _ ▸ quietAgain
    obtain ⟨passed, _⟩ := walk_reports chain collisionFree unforged fixed start_reports rfl
      firstWalk
    obtain ⟨passedAgain, _⟩ :=
      walk_reports chain collisionFree unforged fixedLocked (passed quietFirst) quietFirst
        secondWalk
    obtain rfl := fixedLocked _ _ read
    exact conclude_reports chain (passedAgain unbroken) (by simpa [Walk.broken] using unbroken)
      broken

end

/-- Counted records are the original ones exactly when the last of them is. -/
theorem counted_genuine (chain : Chain crypto genuine seq head cpSeq)
    (collisionFree : CollisionFree crypto) {n : Int64} {tip : Bytes}
    (counted : Counted crypto tables n.toInt tip) :
    (n.toInt ≤ seq.toInt ∧
        (tables.records.within 0 n.toInt).map Row.committed =
          (genuine.records.within 0 n.toInt).map Row.committed) ↔
      n = 0 ∨ ∃ row ∈ tables.records.rows, ∃ original ∈ genuine.records.rows,
        row.seq = n ∧ row.committed = original.committed := by
  have length := counted.length
  have zero : (0 : Int64).toInt = 0 := by decide
  constructor
  · rintro ⟨few, same⟩
    rcases Int.lt_or_le 0 n.toInt with positive | none
    · obtain ⟨row, member, number, _, _, last⟩ := counted.last positive
      obtain ⟨tipOriginal, part⟩ := chain.counted.upTo (m := n.toInt) (by omega) few
      obtain ⟨original, known, _, _, _, lastOriginal⟩ := part.last positive
      refine .inr ⟨row, member, original, known, Int64.toInt_inj.mp number, ?_⟩
      have ends := congrArg List.getLast? same
      rw [getLast?_map, getLast?_map, last, lastOriginal] at ends
      exact Option.some.inj ends
    · exact .inl (Int64.toInt_inj.mp (by omega))
  · rintro (rfl | ⟨row, member, original, known, number, same⟩)
    · have none := chain.count
      rw [zero] at counted ⊢
      refine ⟨by omega, ?_⟩
      exact counted.committed_eq collisionFree (counted.tip_zero ▸ Counted.zero)
    · have range := chain.seq_range known
      have count := chain.count
      have numbers : original.seq = n := by
        rw [← number]
        exact (congrArg Prod.fst same).symm
      rw [numbers] at range
      obtain ⟨last, stored, lastNumber, lastHash, _⟩ := counted.last (by omega)
      obtain ⟨tipOriginal, part⟩ := chain.counted.upTo (m := n.toInt) (by omega) (by omega)
      obtain ⟨final, storedFinal, finalNumber, finalHash, _⟩ := part.last (by omega)
      have sameRow : last = row :=
        tables.records.key_injective stored member (by rw [lastNumber, number])
      have sameOriginal : final = original := genuine.records.key_injective storedFinal known (by
        rw [finalNumber, numbers])
      have hashes : row.hash = original.hash :=
        congrArg (fun committed : Int64 × Bytes × Bytes × Bytes => committed.2.2.2) same
      have tips : tip = tipOriginal := by rw [← lastHash, ← finalHash, sameRow, sameOriginal,
        hashes]
      exact ⟨by omega, counted.committed_eq collisionFree (tips ▸ part)⟩

/-- What the count of a verification that reports a break says. Let a run have brought
the tables and the log's memory where they are, and let the tables then hold anything,
fixed during the call. If the hash is collision-free on entries and signatures verify
only on the statements of stored checkpoints, the break lies after the records counted;
these are all there, match their hashes and are chained from genesis; those up to the
record that the verified checkpoints reach are among them and are the original ones;
and all of them are original, and no more than were stored, exactly when the last one is
an original record.

Proof: every place that sets the count cuts off a chain that was walked from genesis,
and none cuts off what a verified checkpoint covers. -/
theorem verify_count (cadence : Int64) (steps : List Step) {log : Log}
    (running : (World.init.run crypto cadence steps).log = some log)
    (collisionFree : CollisionFree crypto)
    (unforged : ∀ message signature, crypto.verify message signature = true →
      ∃ c ∈ (World.init.run crypto cadence steps).tables.checkpoints.rows, message =
        c.checkpoint.message)
    (tampered : Tables) {unlocked locked : Reads} (fixed : Fixed unlocked tampered)
    (fixedLocked : Fixed locked tampered) {keyed : Bool} {fuel : Nat} {v : Verification} {b : Break}
    (returned : verify crypto unlocked locked keyed log fuel = some (.ok v))
    (broken : v.brk = some b) :
    let genuine := (World.init.run crypto cadence steps).tables
    let covered := genuine.reach v.checkpoints.toInt.toNat
    v.records.toInt < b.seq.toInt ∧ (∃ tip, Counted crypto tampered v.records.toInt tip) ∧
      covered ≤ v.records.toInt ∧
      (tampered.records.within 0 covered).map Row.committed =
        (genuine.records.within 0 covered).map Row.committed ∧
      ((v.records.toInt ≤ genuine.records.rows.length ∧
          (tampered.records.within 0 v.records.toInt).map Row.committed =
            (genuine.records.within 0 v.records.toInt).map Row.committed) ↔
        v.records = 0 ∨ ∃ row ∈ tampered.records.rows, ∃ original ∈ genuine.records.rows,
          row.seq = v.records ∧ row.committed = original.committed) := by
  intro genuine covered
  have chain := (run_sound crypto cadence (init_sound crypto) steps).2 log running
  obtain ⟨found, tip, reach, same, after, counted, _, _, rfl, inside, settled⟩ :=
    verify_reports chain collisionFree unforged fixed fixedLocked returned broken
  cases broken.symm.trans same
  refine ⟨after, ⟨tip, counted⟩, inside, settled, ?_⟩
  have criterion := counted_genuine chain collisionFree counted
  rw [chain.count] at criterion
  exact criterion

/-- A scheme in which every text is its own digest and nothing verifies. -/
def mute : Crypto := { echo with verify := fun _ _ => false }

/-- What a visit leaves whose record no checkpoint covers yet. -/
def uncovered : World := World.init.run mute 1000 visit

/-- A record with this number and previous hash, hashed over its content. -/
def forgedRow (seq : Int64) (prevHash : Bytes) : Row :=
  let row := { deniedRow (bytes "forged") none with seq := seq, prevHash := prevHash }
  { row with hash := mute.sum256 row.hashed }

/-- Two forged records, chained from genesis, in place of the one record of the visit,
and a third that does not chain to them. -/
def rewritten : Tables :=
  let first := forgedRow 1 genesis
  let second := forgedRow 2 first.hash
  let third := forgedRow 3 genesis
  { uncovered.tables with
    records := ((((Table.empty.insert maxRows first).bind (·.insert maxRows second)).bind
      (·.insert maxRows third))).getD .empty }

/-- What a verification of the rewritten tables returns. -/
def rewrittenCount : Verification where
  records := 2
  checkpoints := 0
  brk := some { seq := 3, problem := "record 3 does not chain to the record before it" }

theorem rewritten_verified :
    ∃ log, uncovered.log = some log ∧
      verify mute (still rewritten) (still rewritten) log.keyed log 2 =
        some (.ok rewrittenCount) := by
  have ran : uncovered.log.map (fun log => verify mute (still rewritten) (still rewritten) log.keyed
      log 2) = some (some (.ok rewrittenCount)) := by decide +kernel
  exact Option.map_eq_some_iff.mp ran

/-- Records rewritten with new hashes and records added behind the last are counted as
intact, up to the first that does not chain: two are counted where one was stored, and
the first is not the original. -/
theorem rewritten_counted :
    CollisionFree mute ∧ (∀ message signature, mute.verify message signature = false) ∧
      ∃ log v b, uncovered.log = some log ∧
        verify mute (still rewritten) (still rewritten) log.keyed log 2 = some (.ok v) ∧
        v.brk = some b ∧
        (uncovered.tables.records.rows.length : Int) < v.records.toInt ∧
        ∃ row ∈ rewritten.records.rows, 1 ≤ row.seq ∧ row.seq ≤ v.records ∧
          ∃ original ∈ uncovered.tables.records.rows, original.seq = row.seq ∧
            original.hashed ≠ row.hashed := by
  obtain ⟨log, running, returned⟩ := rewritten_verified
  exact ⟨fun _ _ same => same, fun _ _ => rfl, log, _, _, running, returned, rfl, by decide +kernel⟩

/-- The rewritten tables: the two records counted are chained, and are not the original
ones. -/
theorem verify_count_rewritten :
    ∃ log v b, uncovered.log = some log ∧
      verify mute (still rewritten) (still rewritten) log.keyed log 2 = some (.ok v) ∧
      v.brk = some b ∧
      v.records.toInt < b.seq.toInt ∧ ∃ tip, Counted mute rewritten v.records.toInt tip := by
  obtain ⟨log, running, returned⟩ := rewritten_verified
  have counts := verify_count 1000 visit running (fun _ _ same => same)
    (fun _ _ verified => absurd verified Bool.false_ne_true) rewritten (still_fixed _)
      (still_fixed _) returned rfl
  exact ⟨log, _, _, running, returned, rfl, counts.1, counts.2.1⟩

end Count

/-! ## Rows outside the chain -/

section Rows

variable {crypto : Crypto}

/-- A verification of fixed tables that returns without a break has accounted for every
row with a positive number: there are as many such records as the log's memory says, and
no checkpoint is past the last of them. The tables hold exactly that many records, and
only checkpoints that cover one of them, if and only if no row has a number below 1. -/
theorem verify_accounts (log : Log) (tampered : Tables) {unlocked locked : Reads}
    (fixed : Fixed unlocked tampered) (fixedLocked : Fixed locked tampered) {keyed : Bool}
    {fuel : Nat} {v : Verification}
    (returned : verify crypto unlocked locked keyed log fuel = some (.ok v))
    (unbroken : v.brk = none) :
    ((tampered.records.past 0).length : Int) = log.seq.toInt ∧
      (∀ c ∈ tampered.checkpoints.rows, c.seq.toInt ≤ log.seq.toInt) ∧
      (((tampered.records.rows.length : Int) = log.seq.toInt ∧
          ∀ c ∈ tampered.checkpoints.rows, 1 ≤ c.seq.toInt ∧ c.seq.toInt ≤ log.seq.toInt) ↔
        (∀ row ∈ tampered.records.rows, 1 ≤ row.seq.toInt) ∧
          ∀ c ∈ tampered.checkpoints.rows, 1 ≤ c.seq.toInt) := by
  obtain ⟨w, intact, noneBeyond, count, _⟩ := verify_intact fixed fixedLocked returned unbroken
  have positive : ((tampered.records.past 0).length : Int) =
      log.seq.toInt := by rw [← count, intact.count]
  have inside : ∀ c ∈ tampered.checkpoints.rows, c.seq.toInt ≤ log.seq.toInt := by
    intro c member
    by_contra beyond
    have outside : c ∈ tampered.checkpoints.past w.v.records.toInt := by
      rw [Table.mem_past, count]
      exact ⟨member, by omega⟩
    rw [noneBeyond] at outside
    exact not_mem_nil outside
  refine ⟨positive, inside, ?_, ?_⟩
  · rintro ⟨all, covered⟩
    have whole : tampered.records.past 0 = tampered.records.rows :=
      filter_sublist.eq_of_length (by
        show (tampered.records.past 0).length = _
        omega)
    refine ⟨fun row member => ?_, fun c member => (covered c member).1⟩
    rw [← whole] at member
    have above := ((tampered.records.mem_past 0 row).mp member).2
    omega
  · rintro ⟨numbered, covered⟩
    have whole : tampered.records.past 0 = tampered.records.rows := by
      apply Table.past_eq_rows
      intro row member
      have above := numbered row member
      omega
    rw [whole] at positive
    exact ⟨positive, fun c member => ⟨covered c member, inside c member⟩⟩

/-- A checkpoint nobody signed, numbered below 1. -/
def strayCheckpoint : CheckpointRow :=
  { seq := -1, prevSeq := 0, time := 0, head := [], signature := [] }

/-- The strayed tables with that checkpoint as well. -/
def strayedBoth : Tables :=
  { strayed with
    checkpoints := (strayed.checkpoints.insert maxRows strayCheckpoint).getD strayed.checkpoints }

theorem strayedBoth_verified :
    ∃ log, visited.log = some log ∧ verify notary (still strayedBoth)
      (still strayedBoth) log.keyed log 2 =
      some (.ok { records := 1, checkpoints := 1, brk := none }) ∧ log.seq = 1 := by
  have ran : visited.log.map (fun log =>
      (verify notary (still strayedBoth) (still strayedBoth) log.keyed log 2, log.seq)) =
      some (some (.ok { records := 1, checkpoints := 1, brk := none }), 1) := by decide +kernel
  obtain ⟨log, running, result⟩ := Option.map_eq_some_iff.mp ran
  obtain ⟨returned, last⟩ := Prod.mk.inj result
  exact ⟨log, running, returned, last⟩

/-- A forged record numbered 0 and a forged checkpoint numbered -1 pass unnoticed: the
tables hold one record more than the log appended. -/
theorem stray_rows_unnoticed :
    ∃ log v, visited.log = some log ∧
      verify notary (still strayedBoth) (still strayedBoth) log.keyed log 2 = some (.ok v) ∧
      v.brk = none ∧
      (strayedBoth.records.rows.length : Int) ≠ log.seq.toInt ∧
      ∃ c ∈ strayedBoth.checkpoints.rows, ¬ (1 ≤ c.seq.toInt ∧ c.seq.toInt ≤ log.seq.toInt) := by
  obtain ⟨log, running, returned, last⟩ := strayedBoth_verified
  refine ⟨log, _, running, returned, rfl, ?_⟩
  rw [last]
  decide +kernel

/-- The same tables: the one record with a positive number is the one the log counts. -/
theorem verify_accounts_strayed :
    ∃ log, visited.log = some log ∧
      ((strayedBoth.records.past 0).length : Int) = log.seq.toInt := by
  obtain ⟨log, running, returned, _⟩ := strayedBoth_verified
  exact ⟨log, running,
    (verify_accounts log strayedBoth (still_fixed _) (still_fixed _) returned rfl).1⟩

end Rows

end TrustedCourier.Audit
