import TrustedCourier.AuditVerify

/-!
# What a verification without a break says

On tables that do not change during the call, paging and the second walk are
invisible: a verification that finds no break has checked every row with a positive
sequence number in one pass. The records it checked are numbered from 1 and chained
from genesis to the log's head, and the checkpoints are signed, chained, and name the
hashes of stored records. Two chains that end alike hold the same entries, because a
hash determines the entry it covers and with it the previous hash.
-/

namespace TrustedCourier.Audit

open List Option

section Scans

variable {crypto : Crypto}

/-- Records that all pass, in rising order after the walk's end, are numbered on from
it and chained from its hash. -/
theorem scan_records {rows : List Row} {w : Walk}
    (sorted : rows.Pairwise fun a b => a.seq.toInt < b.seq.toInt)
    (past : ∀ row ∈ rows, w.v.records.toInt < row.seq.toInt)
    (passed : (scan (verifyRecord crypto) Walk.broken rows w).broken = false) :
    let after := scan (verifyRecord crypto) Walk.broken rows w
    (∀ (i : Nat) (row : Row), rows[i]? = some row → row.seq.toInt = w.v.records.toInt + i + 1) ∧
      (∀ row ∈ rows, row.hash = crypto.sum256 row.hashed) ∧
      Linked Row.prevHash Row.hash w.prev rows after.prev ∧
      after.v.records.toInt = w.v.records.toInt + rows.length ∧ after.cpSeq = w.cpSeq := by
  induction rows generalizing w with
  | nil => simp [scan, Linked]
  | cons row rest ih =>
    simp only [scan] at passed ⊢
    split at passed
    · next failed => simp [failed] at passed
    · next running =>
      have continues := verifyRecord_passed (Bool.not_eq_true _ ▸ running)
      rw [if_neg running]
      rw [verifyRecord_continues continues] at passed ⊢
      have number : row.seq.toInt = w.v.records.toInt + 1 := by
        have rises := past row mem_cons_self
        rw [continues.number] at rises ⊢
        exact toInt_succ_of_lt rises
      obtain ⟨above, sortedRest⟩ := pairwise_cons.mp sorted
      have pastRest : ∀ other ∈ rest, (w.passRecord row).v.records.toInt < other.seq.toInt := above
      obtain ⟨numbers, digests, linked, count, kept⟩ := ih sortedRest pastRest passed
      rw [passRecord_records] at numbers count
      refine ⟨?_, ?_, ⟨continues.names, linked⟩, ?_, kept⟩
      · intro i other found
        cases i with
        | zero =>
          cases found
          omega
        | succ i =>
          have later := numbers i other found
          omega
      · intro other member
        rcases mem_cons.mp member with rfl | later
        · exact continues.digest
        · exact digests other later
      · rw [count, number, length_cons]
        omega

/-- Checkpoints that all pass are signed, chained from the last one, and name the
hashes they were joined with. -/
theorem scan_checkpoints {rows : List (CheckpointRow × Option Bytes)} {w : Walk}
    (passed : (scan (verifyCheckpoint crypto) Walk.broken rows w).broken = false) :
    let after := scan (verifyCheckpoint crypto) Walk.broken rows w
    (∀ joined ∈ rows, crypto.verify joined.1.checkpoint.message joined.1.signature = true ∧
      joined.1.head = joined.2.getD []) ∧
      Linked (·.1.prevSeq.toInt) (·.1.seq.toInt) w.cpSeq.toInt rows after.cpSeq.toInt ∧
      after.v.records = w.v.records ∧ after.prev = w.prev := by
  induction rows generalizing w with
  | nil => simp [scan, Linked]
  | cons joined rest ih =>
    simp only [scan] at passed ⊢
    split at passed
    · next failed => simp [failed] at passed
    · next running =>
      have covers := verifyCheckpoint_passed (Bool.not_eq_true _ ▸ running)
      rw [if_neg running]
      rw [verifyCheckpoint_covers covers] at passed ⊢
      obtain ⟨signed, linked, records, prev⟩ := ih passed
      refine ⟨?_, ⟨congrArg Int64.toInt covers.follows, linked⟩, records, prev⟩
      intro other member
      rcases mem_cons.mp member with rfl | later
      · exact ⟨covers.signed, covers.head⟩
      · exact signed other later

end Scans

/-! ## Tables that do not change -/

/-- Every query that does not fail is answered from these tables. -/
def Fixed (reads : Reads) (tables : Tables) : Prop :=
  ∀ k answer, reads k = .ok answer → answer = tables

section Walks

variable {crypto : Crypto} {tables : Tables} {reads : Reads}

/-- After some of the remaining records have passed, those behind them remain. -/
theorem past_scanned {w : Walk} {n : Nat}
    (passed : (scan (verifyRecord crypto) Walk.broken
      ((tables.records.past w.v.records.toInt).take n) w).broken = false) :
    tables.records.past (scan (verifyRecord crypto) Walk.broken
      ((tables.records.past w.v.records.toInt).take n) w).v.records.toInt =
      (tables.records.past w.v.records.toInt).drop n := by
  cases last : ((tables.records.past w.v.records.toInt).take n).getLast? with
  | none =>
    rw [getLast?_eq_none_iff] at last
    rw [last, scan]
    rcases take_eq_nil_iff.mp last with zero | none
    · rw [zero, drop_zero]
    · rw [none, drop_nil]
  | some row =>
    have reached :=
      scan_last (P := fun row w => w.v.records = row.seq) (fun state other running => by
      rw [verifyRecord_continues (verifyRecord_passed running), passRecord_records]) passed last
    rw [reached]
    exact tables.records.past_page last

/-- After some of the remaining checkpoints have passed, those behind them remain. -/
theorem within_scanned {w : Walk} {n : Nat}
    (passed : (scan (verifyCheckpoint crypto) Walk.broken
      (((tables.checkpoints.within w.cpSeq.toInt w.v.records.toInt).map (joinRecord tables)).take n)
        w).broken = false) :
    let after := scan (verifyCheckpoint crypto) Walk.broken
      (((tables.checkpoints.within w.cpSeq.toInt w.v.records.toInt).map (joinRecord tables)).take n)
        w
    (tables.checkpoints.within after.cpSeq.toInt after.v.records.toInt).map (joinRecord tables) =
      ((tables.checkpoints.within w.cpSeq.toInt w.v.records.toInt).map (joinRecord tables)).drop
        n := by
  intro after
  have records : after.v.records = w.v.records := (scan_checkpoints passed).2.2.1
  rw [records]
  cases last : ((tables.checkpoints.within w.cpSeq.toInt w.v.records.toInt).take n).getLast? with
  | none =>
    rw [getLast?_eq_none_iff] at last
    have same : after = w := by
      simp only [after, ← map_take, last, map_nil, scan]
    rw [same]
    rcases take_eq_nil_iff.mp last with zero | none
    · rw [zero, drop_zero]
    · rw [none, map_nil, drop_nil]
  | some c =>
    have joinedLast :
      (((tables.checkpoints.within w.cpSeq.toInt w.v.records.toInt).map (joinRecord tables)).take
        n).getLast? = some (joinRecord tables c) := by
      rw [← map_take, getLast?_map, last, map_some]
    have reached :=
      scan_last (P := fun joined w => w.cpSeq = joined.1.seq) (fun state other running => by
      rw [verifyCheckpoint_covers (verifyCheckpoint_passed running), passCheckpoint_cpSeq]) passed
        joinedLast
    rw [show after.cpSeq = c.seq from reached, ← map_drop]
    exact congrArg (List.map (joinRecord tables)) (tables.checkpoints.within_page last)

/-- Paging through fixed records is scanning them. -/
theorem verifyRest_fixed (fixed : Fixed reads tables) {fuel k reached : Nat} {w after : Walk}
    (running : w.broken = false)
    (returned : verifyRest crypto reads fuel k w = some (.ok (reached, after))) :
    after = scan (verifyRecord crypto) Walk.broken (tables.records.past w.v.records.toInt) w := by
  have answers (k : Nat) (state : Walk) (page : List Row)
    (answer : askRecords reads k state = .ok page) :
      page = (tables.records.past state.v.records.toInt).take verifyPage := by
    unfold askRecords at answer
    cases read : reads k with
    | error err => simp [read] at answer
    | ok current =>
      obtain rfl := fixed k current read
      simpa [read] using answer.symm
  exact pages_fixed _ answers (fun _ passed => past_scanned passed) running returned

/-- Paging through fixed checkpoints is scanning them. -/
theorem verifyCheckpoints_fixed (fixed : Fixed reads tables) {fuel k reached : Nat} {w after : Walk}
    (running : w.broken = false)
    (returned : verifyCheckpoints crypto reads fuel k w = some (.ok (reached, after))) :
    after = scan (verifyCheckpoint crypto) Walk.broken
      ((tables.checkpoints.within w.cpSeq.toInt w.v.records.toInt).map (joinRecord tables)) w := by
  have answers (k : Nat) (state : Walk) (page : List (CheckpointRow × Option Bytes))
      (answer : askCheckpoints reads k state = .ok page) :
      page = ((tables.checkpoints.within state.cpSeq.toInt state.v.records.toInt).map
        (joinRecord tables)).take
        verifyPage := by
    unfold askCheckpoints at answer
    cases read : reads k with
    | error err => simp [read] at answer
    | ok current =>
      obtain rfl := fixed k current read
      simp only [read, Except.ok.injEq] at answer
      rw [← answer, map_take]
  exact pages_fixed _ answers (fun _ passed => within_scanned passed) running returned

/-- A walk over fixed tables that finds no break has scanned all records after its
start and all checkpoints up to the last of them. -/
theorem walk_fixed (fixed : Fixed reads tables) {fuel k reached : Nat} {w after : Walk}
    (running : w.broken = false)
    (returned : walk crypto reads fuel k w = some (.ok (reached, after)))
    (intact : after.broken = false) :
    let checked := scan (verifyRecord crypto) Walk.broken (tables.records.past w.v.records.toInt) w
    checked.broken = false ∧ after = scan (verifyCheckpoint crypto) Walk.broken
      ((tables.checkpoints.within checked.cpSeq.toInt checked.v.records.toInt).map
        (joinRecord tables)) checked := by
  intro checked
  unfold walk at returned
  match rest : verifyRest crypto reads fuel k w with
  | none => simp [rest] at returned
  | some (.error err) => simp [rest] at returned
  | some (.ok (k, found)) =>
    obtain rfl : found = checked := verifyRest_fixed fixed running rest
    simp only [rest] at returned
    match cover : verifyCheckpoints crypto reads fuel k
      { checked with v := { checked.v with brk := none } } with
    | none => simp [cover] at returned
    | some (.error err) => simp [cover] at returned
    | some (.ok (k, covered)) =>
      simp only [cover] at returned
      have scanned := verifyCheckpoints_fixed fixed rfl cover
      split at returned
      · next broken =>
        obtain ⟨_, rfl⟩ := Prod.mk.inj (Except.ok.inj (some.inj returned))
        rw [broken] at intact
        cases intact
      · next quiet =>
        obtain ⟨_, rfl⟩ := Prod.mk.inj (Except.ok.inj (some.inj returned))
        have unbroken : checked.v.brk = none := by simpa [Walk.broken] using intact
        have same : ({ checked with v := { checked.v with brk := none } } : Walk) = checked := by
          rw [← unbroken]
        have quietBreak : covered.v.brk = none := by simpa [Walk.broken] using quiet
        rw [same] at scanned
        refine ⟨by simp [Walk.broken, unbroken], ?_⟩
        rw [unbroken, ← quietBreak]
        exact scanned

/-- What a walk that found no break has established about the rows with positive
numbers: the records, and the checkpoints up to the last record. -/
structure Intact (crypto : Crypto) (tables : Tables) (w : Walk) : Prop where
  numbered : ∀ (i : Nat) (row : Row), (tables.records.past 0)[i]? = some row → row.seq.toInt = i + 1
  hashes : ∀ row ∈ tables.records.past 0, row.hash = crypto.sum256 row.hashed
  linked : Linked Row.prevHash Row.hash genesis (tables.records.past 0) w.prev
  count : w.v.records.toInt = (tables.records.past 0).length
  signed : ∀ c ∈ tables.checkpoints.within 0 w.v.records.toInt,
    crypto.verify c.checkpoint.message c.signature = true
  covering : Linked (·.prevSeq.toInt) (·.seq.toInt) 0
    (tables.checkpoints.within 0 w.v.records.toInt) w.cpSeq.toInt
  heads : ∀ c ∈ tables.checkpoints.within 0 w.v.records.toInt,
    ∃ row ∈ tables.records.past 0, row.seq = c.seq ∧ row.hash = c.head

/-- A first walk without a break establishes it, and leaves nothing to a second. -/
theorem walk_start (fixed : Fixed reads tables) {fuel reached : Nat} {after : Walk}
    (returned : walk crypto reads fuel 0 Walk.start = some (.ok (reached, after)))
    (intact : after.broken = false) :
    Intact crypto tables after ∧ tables.records.past after.v.records.toInt = [] ∧
      tables.checkpoints.within after.cpSeq.toInt after.v.records.toInt = [] := by
  obtain ⟨passed, scanned⟩ := walk_fixed fixed rfl returned intact
  have zero : Walk.start.v.records.toInt = 0 ∧ Walk.start.cpSeq.toInt = 0 := by decide
  rw [zero.1] at passed scanned
  have above : ∀ row ∈ tables.records.past 0, Walk.start.v.records.toInt < row.seq.toInt := by
    intro row member
    rw [zero.1]
    exact ((tables.records.mem_past 0 row).mp member).2
  obtain ⟨numbered, hashes, linked, count, kept⟩ :=
    scan_records (tables.records.past_sorted 0) above passed
  have recordsLeft := past_scanned (n := (tables.records.past 0).length)
    (by rw [zero.1, take_length]; exact passed)
  rw [zero.1, take_length, drop_length] at recordsLeft
  generalize scan (verifyRecord crypto) Walk.broken (tables.records.past 0) Walk.start =
    checked at *
  subst scanned
  obtain ⟨joined, covering, records, prev⟩ := scan_checkpoints intact
  have checkpointsLeft :=
    within_scanned (n := (tables.checkpoints.within checked.cpSeq.toInt
      checked.v.records.toInt).length)
    (by rw [← map_take, take_length]; exact intact)
  have uncovered : checked.cpSeq.toInt = 0 := by rw [kept, zero.2]
  simp only [← map_take, take_length, ← map_drop, drop_length, map_nil, map_eq_nil_iff,
    uncovered] at joined covering records prev checkpointsLeft ⊢
  generalize scan (verifyCheckpoint crypto) Walk.broken
    ((tables.checkpoints.within 0 checked.v.records.toInt).map (joinRecord tables)) checked =
      after at *
  rw [zero.1] at numbered count
  rw [← prev] at linked
  rw [← records] at count recordsLeft joined covering
  refine ⟨⟨?_, hashes, linked, ?_, ?_, Linked.map_iff _ |>.mp covering, ?_⟩, recordsLeft,
    checkpointsLeft⟩
  · intro i row found
    have number := numbered i row found
    omega
  · omega
  · intro c member
    exact (joined _ (mem_map_of_mem member)).1
  · intro c member
    have head : c.head = ((tables.records.find? c.seq.toInt).map Row.hash).getD [] :=
      (joined _ (mem_map_of_mem member)).2
    obtain ⟨_, positive, upTo⟩ := (tables.checkpoints.mem_within _ _ c).mp member
    obtain ⟨row, found⟩ : ∃ row, (tables.records.past 0)[c.seq.toInt.toNat - 1]? = some row :=
      ⟨_, getElem?_eq_getElem (by omega)⟩
    have number := numbered _ row found
    have stored := mem_of_getElem? found
    have joins : tables.records.find? c.seq.toInt = some row := by
      rw [Table.find?_eq_some]
      exact ⟨((tables.records.mem_past 0 row).mp stored).1, by omega⟩
    exact ⟨row, stored, Int64.toInt_inj.mp (by omega), by rw [head, joins]; rfl⟩

/-- The end comparisons all hold if they report nothing. -/
theorem conclude_intact {log : Log} {w : Walk} (concluded : (conclude log w tables).brk = none) :
    tables.checkpoints.past w.v.records.toInt = [] ∧ w.v.records = log.seq ∧ w.prev = log.head ∧
      log.cpSeq.toInt ≤ w.cpSeq.toInt := by
  unfold conclude at concluded
  cases covering : (tables.checkpoints.past w.v.records.toInt).head? with
  | some c => simp [covering] at concluded
  | none =>
    replace concluded : (compareEnd log w).brk = none := by simpa only [covering] using concluded
    revert concluded
    fun_cases compareEnd log w with
    | case5 v seq cpSeq noneMissing noneForeign head covered =>
      intro _
      simp only [Int64.lt_iff_toInt_lt, v, seq, cpSeq] at noneMissing noneForeign covered
      exact ⟨head?_eq_none_iff.mp covering, Int64.toInt_inj.mp (by omega),
        not_not.mp head, by omega⟩
    | _ => nofun

/-- A verification of fixed tables that reports no break has established that they are
intact, that no checkpoint lies past the records, and that they end where the log's
memory says. -/
theorem verify_intact {unlocked locked : Reads} (fixed : Fixed unlocked tables)
    (fixedLocked : Fixed locked tables) {keyed : Bool} {log : Log} {fuel : Nat} {v : Verification}
    (returned : verify crypto unlocked locked keyed log fuel = some (.ok v))
    (unbroken : v.brk = none) :
    ∃ w, Intact crypto tables w ∧ tables.checkpoints.past w.v.records.toInt = [] ∧
      w.v.records = log.seq ∧
      w.prev = log.head ∧ log.cpSeq.toInt ≤ w.cpSeq.toInt := by
  revert returned
  fun_cases verify crypto unlocked locked keyed log fuel <;> rintro ⟨⟩
  case case4 broken | case7 broken => simp [Walk.broken, unbroken] at broken
  case case9 first firstWalk quiet k second secondWalk quietAgain current read =>
    have quietFirst : first.broken = false := Bool.not_eq_true _ ▸ quiet
    have quietSecond : second.broken = false := Bool.not_eq_true _ ▸ quietAgain
    obtain ⟨intact, recordsLeft, checkpointsLeft⟩ := walk_start fixed firstWalk quietFirst
    have same : second = first := by
      obtain ⟨_, scanned⟩ := walk_fixed fixedLocked quietFirst secondWalk quietSecond
      rw [recordsLeft] at scanned
      simp only [scan] at scanned
      rw [checkpointsLeft] at scanned
      exact scanned
    subst same
    obtain rfl := fixedLocked k current read
    exact ⟨second, intact, conclude_intact unbroken⟩

end Walks

end TrustedCourier.Audit
