import Mathlib.Algebra.Group.Nat.Defs
import TrustedCourier.AuditSoundness

/-!
# What tampering a verification lets pass

The tables may be replaced by anything at all. While the log runs, its memory of the
last record settles every record before it, and its memory of the last checkpoint
together with the signatures settles the checkpoints. Once the log has been reopened
on replaced tables its memory says nothing about the past; there an original
checkpoint that is still present settles the records it covers, whatever was appended
and signed afterwards.

Rows with a number below 1 are not part of the chain: `Verify` never reads them.
-/

namespace TrustedCourier.Audit

open List

/-! ## What is signed -/

/-- A byte of a number, by division. -/
theorem shifted_byte (n : UInt64) (shift : Nat) (inside : shift < 64) :
    (n >>> UInt64.ofNat shift).toUInt8 = UInt8.ofNat (n.toNat / 2 ^ shift) := by
  apply UInt8.toNat_inj.mp
  rw [UInt64.toNat_toUInt8, UInt64.toNat_shiftRight, UInt64.toNat_ofNat', Nat.shiftRight_eq_div_pow,
    UInt8.toNat_ofNat', Nat.mod_eq_of_lt (show shift < 2 ^ 64 by omega), Nat.mod_eq_of_lt inside]

theorem bigEndian_eq (n : Int64) : bigEndian n =
    ([56, 48, 40, 32, 24, 16, 8, 0] : List Nat).map fun shift =>
    UInt8.ofNat (n.toUInt64.toNat / 2 ^ shift) := by
  have shifts : bigEndian n = ([56, 48, 40, 32, 24, 16, 8, 0] : List Nat).map fun shift =>
      (n.toUInt64 >>> UInt64.ofNat shift).toUInt8 := rfl
  rw [shifts]
  apply map_congr_left
  intro shift member
  exact shifted_byte _ shift (by simp at member; omega)

/-- The bytes of a number determine it: from the highest byte on, each settles the
number shifted by one byte less. -/
theorem bigEndian_injective {m n : Int64} (same : bigEndian m = bigEndian n) : m = n := by
  rw [bigEndian_eq, bigEndian_eq] at same
  simp only [map_cons, map_nil, List.cons.injEq, ← UInt8.toNat_inj, UInt8.toNat_ofNat',
    and_true] at same
  obtain ⟨b56, b48, b40, b32, b24, b16, b8, b0⟩ := same
  have settles (shift : Nat) (higher : m.toUInt64.toNat / 2 ^ (shift + 8) =
    n.toUInt64.toNat / 2 ^ (shift + 8))
      (low : m.toUInt64.toNat / 2 ^ shift % 2 ^ 8 = n.toUInt64.toNat / 2 ^ shift % 2 ^ 8) :
      m.toUInt64.toNat / 2 ^ shift = n.toUInt64.toNat / 2 ^ shift := by
    rw [Nat.pow_add, ← Nat.div_div_eq_div_mul, ← Nat.div_div_eq_div_mul] at higher
    omega
  have top : m.toUInt64.toNat / 2 ^ 64 = n.toUInt64.toNat / 2 ^ 64 := by
    rw [Nat.div_eq_of_lt m.toUInt64.toNat_lt, Nat.div_eq_of_lt n.toUInt64.toNat_lt]
  have whole := settles 0 (settles 8 (settles 16 (settles 24 (settles 32 (settles 40 (settles 48
    (settles 56 top b56) b48) b40) b32) b24) b16) b8) b0
  rw [Nat.pow_zero, Nat.div_one, Nat.div_one] at whole
  have numbers := UInt64.toNat_inj.mp whole
  cases m
  cases n
  exact congrArg Int64.ofUInt64 numbers

/-- The signed message determines the statement. -/
theorem message_injective {c d : Checkpoint} (same : c.message = d.message) : c = d := by
  have length (m n : Int64) : (bigEndian m).length = (bigEndian n).length := by simp [bigEndian]
  unfold Checkpoint.message at same
  rw [append_cancel_left_eq] at same
  obtain ⟨seq, same⟩ := append_inj same (length _ _)
  obtain ⟨prevSeq, same⟩ := append_inj same (length _ _)
  obtain ⟨ms, head⟩ := append_inj same (length _ _)
  cases c
  cases d
  simp only at seq prevSeq ms head
  rw [bigEndian_injective seq, bigEndian_injective prevSeq, bigEndian_injective ms, head]

/-! ## What a hash covers -/

/-- No two entries with different encodings have the same hash. -/
def CollisionFree (crypto : Crypto) : Prop :=
  ∀ a b : Row, crypto.sum256 a.hashed = crypto.sum256 b.hashed → a.hashed = b.hashed

/-- What the chain commits to in a record. -/
def Row.committed (row : Row) : Int64 × Bytes × Bytes × Bytes :=
  (row.seq, row.hashed, row.prevHash, row.hash)

section Tampering

variable {crypto : Crypto} {tables : Tables} {seq : Int64} {head : Bytes} {cpSeq : Int64} {w : Walk}

/-- A record's hash settles what the chain commits to. -/
theorem hash_settles (collisionFree : CollisionFree crypto) {a b : Row}
    (digest : a.hash = crypto.sum256 a.hashed) (digestOther : b.hash = crypto.sum256 b.hashed)
    (same : a.hash = b.hash) :
    a.committed = b.committed ∧ a.prevHash = b.prevHash := by
  have hashed : a.hashed = b.hashed := collisionFree a b (by rw [← digest, ← digestOther, same])
  obtain ⟨number, _, _, _, link⟩ := (newEntry_hashed_iff _ _ _ _ _ _ _ _).mp hashed
  exact ⟨by rw [Row.committed, Row.committed, number, hashed, link, same], link⟩

/-- Intact records that end where a chain ends are the chain's. -/
theorem records_settled {genuine : Tables} (chain : Chain crypto genuine seq head cpSeq)
    (collisionFree : CollisionFree crypto) (intact : Intact crypto tables w)
    (count : w.v.records = seq) (ends : w.prev = head) :
    (tables.records.past 0).map Row.committed = genuine.records.rows.map Row.committed := by
  have length : (tables.records.past 0).length = genuine.records.rows.length := by
    have counted := intact.count
    rw [count, chain.count] at counted
    omega
  refine (Linked.content_eq Row.committed ?_ length (ends ▸ intact.linked) chain.linked).1
  intro a member b memberOther same
  exact hash_settles collisionFree (intact.hashes a member) (chain.hashes b memberOther) same

/-- Only statements of the checkpoints verify. -/
def Unforged (crypto : Crypto) (genuine : Tables) : Prop :=
  ∀ message signature, crypto.verify message signature = true →
    ∃ c ∈ genuine.checkpoints.rows, message = c.checkpoint.message

/-- Intact checkpoints that carry only a chain's statements and reach as far are the
chain's. -/
theorem checkpoints_settled {genuine : Tables} (chain : Chain crypto genuine seq head cpSeq)
    (unforged : Unforged crypto genuine) (intact : Intact crypto tables w)
    (inside : tables.checkpoints.past w.v.records.toInt = [])
    (reached : cpSeq.toInt ≤ w.cpSeq.toInt) :
    (tables.checkpoints.past 0).map CheckpointRow.checkpoint =
      genuine.checkpoints.rows.map CheckpointRow.checkpoint := by
  have all : tables.checkpoints.within 0 w.v.records.toInt = tables.checkpoints.past 0 := by
    rw [tables.checkpoints.within_eq_filter, filter_eq_self]
    intro c member
    have stored := ((tables.checkpoints.mem_past 0 c).mp member).1
    by_contra beyond
    have outside : c ∈ tables.checkpoints.past w.v.records.toInt := by
      rw [Table.mem_past]
      exact ⟨stored, by simpa using beyond⟩
    rw [inside] at outside
    exact not_mem_nil outside
  have covering := intact.covering
  have signed := intact.signed
  rw [all] at covering signed
  have genuineChain : Linked (fun c : Checkpoint => c.prevSeq.toInt) (·.seq.toInt) 0
      (genuine.checkpoints.rows.map CheckpointRow.checkpoint) cpSeq.toInt :=
    (Linked.map_iff CheckpointRow.checkpoint).mpr chain.covering
  refine Linked.eq_of_subset genuineChain ?_
    ((Linked.map_iff CheckpointRow.checkpoint).mpr covering) ?_ reached
  · intro statement member
    obtain ⟨c, stored, rfl⟩ := mem_map.mp member
    exact chain.rising c stored
  · intro statement member
    obtain ⟨c, stored, rfl⟩ := mem_map.mp member
    obtain ⟨original, known, same⟩ := unforged _ _ (signed c stored)
    rw [message_injective same]
    exact mem_map_of_mem known

/-- Verification is sound while the log runs. Let a run have brought the tables and the
log's memory where they are, and let the tables then hold anything, fixed during the
call. If the hash is collision-free on entries and signatures verify only on the
statements of stored checkpoints, a verification that returns without a break finds
exactly the genuine rows among those with positive numbers: the same records in number,
hashed entry, previous hash and hash, and the same checkpoints in what they state.

Proof: the verified chain has as many records as the memory says and ends at the same
hash, so it is the genuine one read backwards; the verified checkpoints are some of the
genuine ones, chained from the start and as far as the memory says. -/
theorem verify_sound (cadence : Int64) (steps : List Step) {log : Log}
    (running : (World.init.run crypto cadence steps).log = some log)
    (collisionFree : CollisionFree crypto)
    (unforged : ∀ message signature, crypto.verify message signature = true →
      ∃ c ∈ (World.init.run crypto cadence steps).tables.checkpoints.rows, message =
        c.checkpoint.message)
    (tampered : Tables) {unlocked locked : Reads} (fixed : Fixed unlocked tampered)
    (fixedLocked : Fixed locked tampered) {keyed : Bool} {fuel : Nat} {v : Verification}
    (returned : verify crypto unlocked locked keyed log fuel = some (.ok v))
    (unbroken : v.brk = none) :
    let genuine := (World.init.run crypto cadence steps).tables
    (tampered.records.past 0).map Row.committed = (genuine.records.past 0).map Row.committed ∧
      (tampered.checkpoints.past 0).map CheckpointRow.checkpoint =
        (genuine.checkpoints.past 0).map CheckpointRow.checkpoint := by
  intro genuine
  have chain := (run_sound crypto cadence (init_sound crypto) steps).2 log running
  obtain ⟨w, intact, inside, count, ends, reached⟩ :=
    verify_intact fixed fixedLocked returned unbroken
  rw [chain.past_zero.1, chain.past_zero.2]
  exact ⟨records_settled chain collisionFree intact count ends,
    checkpoints_settled chain unforged intact inside reached⟩

/-- The statement that the only record of a visit is the denied attempt. -/
def visitStatement : Checkpoint where
  seq := 1
  prevSeq := 0
  ms := 0
  head := (deniedRow (bytes "n") none).hashed

/-- A scheme in which every text is its own digest and nothing but that statement
verifies. -/
def notary : Crypto := { echo with verify := fun message _ => message == visitStatement.message }

/-- A process that loads its key and stores one record, with a checkpoint. -/
def visit : List Step := [.openLog, .loadKey, .append (fun _ => calm) attempt]

/-- What the visit leaves. -/
def visited : World := World.init.run notary 1 visit

/-- The tables after the visit with one more record, numbered 0. -/
def strayed : Tables :=
  { visited.tables with
    records := (visited.tables.records.insert maxRows { deniedRow [] none with seq := 0 }).getD
      visited.tables.records }

/-- Every query is answered, and from these tables. -/
def still (tables : Tables) : Reads := fun _ => .ok tables

theorem still_fixed (tables : Tables) : Fixed (still tables) tables := by
  intro k answer read
  exact (Except.ok.inj read).symm

/-- A text that is its own digest does not collide. -/
theorem notary_collisionFree : CollisionFree notary := fun _ _ same => same

/-- The visit, verified on tables that also hold a record numbered 0. -/
theorem verify_sound_strayed :
    ∃ log v, visited.log = some log ∧ verify notary (still strayed)
      (still strayed) log.keyed log 2 = some (.ok v) ∧
      v.brk = none ∧
      (strayed.records.past 0).map Row.committed =
        (visited.tables.records.past 0).map Row.committed := by
  have ran : visited.log.map (fun log => verify notary (still strayed) (still strayed) log.keyed log
      2) = some (some (.ok { records := 1, checkpoints := 1, brk := none })) := by decide +kernel
  obtain ⟨log, running, returned⟩ := Option.map_eq_some_iff.mp ran
  refine ⟨log, _, running, returned, rfl, ?_⟩
  refine (verify_sound 1 visit running notary_collisionFree ?_ strayed (still_fixed strayed)
    (still_fixed strayed) returned rfl).1
  intro message signature verified
  rw [show message = visitStatement.message from by simpa [notary] using verified]
  exact (by decide +kernel : ∃ c ∈ visited.tables.checkpoints.rows, visitStatement.message =
    c.checkpoint.message)

/-- Up to an intact record, the records are chained from genesis to its hash, and there
are as many as its number says. -/
theorem linked_upTo {rows : List Row} {finish : Bytes}
    (sorted : rows.Pairwise fun a b => a.seq.toInt < b.seq.toInt)
    (numbered : ∀ (i : Nat) (row : Row), rows[i]? = some row → row.seq.toInt = i + 1)
    (linked : Linked Row.prevHash Row.hash genesis rows finish) {row : Row} (member : row ∈ rows) :
    Linked Row.prevHash Row.hash genesis (rows.filter (·.seq.toInt ≤ row.seq.toInt)) row.hash ∧
      ((rows.filter (·.seq.toInt ≤ row.seq.toInt)).length : Int) = row.seq.toInt := by
  obtain ⟨front, back, rfl⟩ := append_of_mem member
  rw [Table.filter_upTo sorted]
  obtain ⟨middle, first, names, _⟩ := Linked.append_iff.mp linked
  have number := numbered front.length row (by simp)
  exact ⟨first.concat names, by rw [length_append, length_singleton, number]; rfl⟩

/-- An original checkpoint that is still present settles the records up to the one it
covers. -/
theorem covered_settled_records {genuine : Tables} (chain : Chain crypto genuine seq head cpSeq)
    (collisionFree : CollisionFree crypto) (intact : Intact crypto tables w)
    (inside : tables.checkpoints.past w.v.records.toInt = []) {c present : CheckpointRow}
    (original : c ∈ genuine.checkpoints.rows) (stored : present ∈ tables.checkpoints.rows)
    (same : present.checkpoint = c.checkpoint) :
    (tables.records.within 0 c.seq.toInt).map Row.committed =
      (genuine.records.within 0 c.seq.toInt).map Row.committed := by
  have number : present.seq = c.seq := congrArg Checkpoint.seq same
  have digest : present.head = c.head := congrArg Checkpoint.head same
  have range := chain.covered_range original
  have covered : present ∈ tables.checkpoints.within 0 w.v.records.toInt := by
    rw [Table.mem_within]
    refine ⟨stored, by rw [number]; omega, ?_⟩
    by_contra beyond
    have outside : present ∈ tables.checkpoints.past w.v.records.toInt := by
      rw [Table.mem_past]
      exact ⟨stored, by omega⟩
    rw [inside] at outside
    exact not_mem_nil outside
  obtain ⟨row, member, rowNumber, rowHash⟩ := intact.heads present covered
  obtain ⟨first, firstMember, firstNumber, firstHash⟩ := chain.heads c original
  obtain ⟨linked, length⟩ :=
    linked_upTo (tables.records.past_sorted 0) intact.numbered intact.linked member
  obtain ⟨linkedFirst, lengthFirst⟩ :=
    linked_upTo genuine.records.sorted chain.numbered chain.linked firstMember
  rw [Table.within_eq_filter, Table.within_eq_filter, chain.past_zero.1]
  rw [rowNumber, number, rowHash, digest] at linked
  rw [rowNumber, number] at length
  rw [firstNumber, firstHash] at linkedFirst
  rw [firstNumber] at lengthFirst
  refine (Linked.content_eq Row.committed ?_ (by omega) linked linkedFirst).1
  intro a inTables b inGenuine sameHash
  exact hash_settles collisionFree (intact.hashes a (mem_of_mem_filter inTables))
    (chain.hashes b (mem_of_mem_filter inGenuine)) sameHash

/-- Tampering while no process runs. After any run, let the tables be replaced by
anything, and let a log be opened on them and go on in any way. If a verification then
returns without a break, an original checkpoint that is still present says that the
records numbered from 1 up to the one it covers are the original ones.

Proof: the checkpoint names the hash of the record it covers both in the original and
in the verified tables, and both chains lead from genesis to that hash in as many
records. The signatures matter only to who could have put the checkpoint there. -/
theorem reopened_sound (cadence cadenceAfter : Int64) (steps further : List Step)
    (tampered : Tables) (lines : List Bytes) (collisionFree : CollisionFree crypto) :
    let genuine := (World.init.run crypto cadence steps).tables
    let reopened := World.run crypto cadenceAfter
        { tables := tampered, lines := lines, log := none } (.openLog :: further)
    ∀ {log : Log} {unlocked locked : Reads} {keyed : Bool} {fuel : Nat} {v : Verification},
      reopened.log = some log → Fixed unlocked reopened.tables → Fixed locked reopened.tables →
      verify crypto unlocked locked keyed log fuel = some (.ok v) → v.brk = none →
      ∀ c ∈ genuine.checkpoints.rows,
        (∃ present ∈ reopened.tables.checkpoints.rows, present.checkpoint = c.checkpoint) →
        (reopened.tables.records.within 0 c.seq.toInt).map Row.committed =
          (genuine.records.within 0 c.seq.toInt).map Row.committed := by
  intro genuine reopened log unlocked locked keyed fuel v _ fixed fixedLocked returned unbroken c
    original
  rintro ⟨present, stored, same⟩
  obtain ⟨seq, head, cpSeq, chain⟩ := (run_sound crypto cadence (init_sound crypto) steps).1
  obtain ⟨w, intact, inside, _⟩ := verify_intact fixed fixedLocked returned unbroken
  exact covered_settled_records chain collisionFree intact inside original stored same

/-- A log opened on the strayed tables, with its key. -/
def reopenedStray : World := World.run notary 1 { tables := strayed, lines := [], log := none }
    [.openLog, .loadKey]

theorem reopenedStray_verified :
    ∃ log, reopenedStray.log = some log ∧
      verify notary (still reopenedStray.tables) (still reopenedStray.tables) log.keyed log 2 =
        some (.ok { records := 1, checkpoints := 1, brk := none }) := by
  have ran : reopenedStray.log.map (fun log =>
      verify notary (still reopenedStray.tables) (still reopenedStray.tables) log.keyed log 2) =
      some (some (.ok { records := 1, checkpoints := 1, brk := none })) := by decide +kernel
  exact Option.map_eq_some_iff.mp ran

/-- A record numbered 0 that nobody stored is below every checkpoint, and no
verification reports it. -/
theorem reopened_stray_record :
    CollisionFree notary ∧ ∃ log v, reopenedStray.log = some log ∧
      verify notary (still reopenedStray.tables) (still reopenedStray.tables) log.keyed log 2 =
        some (.ok v) ∧
      v.brk = none ∧ ∃ c ∈ visited.tables.checkpoints.rows,
        c ∈ reopenedStray.tables.checkpoints.rows ∧
        ∃ row ∈ reopenedStray.tables.records.rows, row.seq ≤ c.seq ∧
          ∀ original ∈ visited.tables.records.rows, original.seq = row.seq →
            original.hashed ≠ row.hashed := by
  obtain ⟨log, running, returned⟩ := reopenedStray_verified
  exact ⟨notary_collisionFree, log, _, running, returned, rfl, by decide +kernel⟩

/-- The reopened log and the checkpoint of the visit. -/
theorem reopened_sound_strayed :
    ∃ c ∈ visited.tables.checkpoints.rows,
      (reopenedStray.tables.records.within 0 c.seq.toInt).map Row.committed =
        (visited.tables.records.within 0 c.seq.toInt).map Row.committed := by
  obtain ⟨log, running, returned⟩ := reopenedStray_verified
  obtain ⟨c, original, present⟩ : ∃ c ∈ visited.tables.checkpoints.rows,
      ∃ present ∈ reopenedStray.tables.checkpoints.rows, present.checkpoint =
        c.checkpoint := by decide +kernel
  exact ⟨c, original, reopened_sound 1 1 visit [.loadKey] strayed [] notary_collisionFree running
    (still_fixed _) (still_fixed _) returned rfl c original present⟩

end Tampering

end TrustedCourier.Audit
