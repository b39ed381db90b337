import TrustedCourier.OpenBao

/-!
# Concurrent writes to one record

The machine of the calls of `WriteCourierKey` on one record of a KV v2 mount, the other
check-and-set writers, and OpenBao. It keeps the list of the writes that OpenBao applied.

Two things carry every result. Whatever a party has read stays good until it posts: if the
version is still the same, so are the fields. And where a call is in its loop says how many
times it has posted, whether a post is still on its way, and whether one was applied.
-/

namespace TrustedCourier.OpenBao

open Runs Versioned Option

section Machine

variable {Value : Type}

/-- Where a call of `WriteCourierKey` is. -/
inductive Point where
  | idle
  | reading (attempt : Nat)
  | posting (attempt : Nat)
  | returned (result : Except WriteErr Unit)
deriving DecidableEq

/-- A call: where it is, the record from which a post was made that OpenBao has not
handled yet, and how many times it has posted. -/
structure Call (Value : Type) where
  point : Point
  sent : Option (Record Value)
  posts : Nat

/-- A write that OpenBao applied: a call's field, or what another writer makes of the
fields it has read. -/
inductive Commit (Value : Type) where
  | key (call : Nat) (field : Bytes) (value : Value)
  | other (change : Fields Value → Fields Value)

/-- The fields once a write is applied. -/
def Commit.apply (fields : Fields Value) : Commit Value → Fields Value
  | .key _ field value => setField fields field value
  | .other change => change fields

/-- Whether a call's post was applied. -/
def Commit.madeBy (c : Nat) : Commit Value → Bool
  | .key call _ _ => call == c
  | .other _ => false

/-- A KV v2 record: the version it has, or had when it was deleted and 0 before the first
write, and the fields, if it is there. -/
abbrev Stored (Value : Type) := Cell (Option (Fields Value))

/-- The record, the calls, what other writers have read, and the writes applied so far. -/
structure World (Value : Type) where
  record : Stored Value
  calls : Nat → Call Value
  others : Nat → Option (Stored Value)
  commits : List (Commit Value)

/-- Before the calls. -/
def World.start (record : Stored Value) : World Value where
  record := record
  calls := fun _ => { point := .idle, sent := none, posts := 0 }
  others := fun _ => none
  commits := []

/-- A call goes on. -/
def World.setCall (w : World Value) (c : Nat) (call : Call Value) : World Value :=
  { w with calls := fun d => if d = c then call else w.calls d }

/-- A JSON number read into an `int64`. -/
def decodeInt64 (n : Int) : Except Bytes Int :=
  if -9223372036854775808 ≤ n ∧ n ≤ 9223372036854775807 then .ok n
  else .error (bytes "json: cannot unmarshal number into Go struct field .version of type int64")

/-- What OpenBao answers to a read: for a deleted record its kept version and no fields,
for one that never existed neither. -/
def answer (record : Stored Value) : ReadReply Value :=
  match record.value with
  | some fields =>
    .answered 200 (.ok
      { errors := [], data := none, metadata := some (decodeInt64 record.version),
        wrapped := .ok (some fields) })
  | none =>
    .answered 404 (.ok
      { errors := [], data := none,
        metadata := if record.version = 0 then none else some (decodeInt64 record.version),
        wrapped := .error () })

/-- What OpenBao makes of a post: the record, or `none` if it refuses. -/
def handle (record : Stored Value) (post : Post Value) : Option (Stored Value) :=
  record.post (post.cas.getD record.version) (some post.fields)

/-- Where a round leaves the loop. -/
def Point.judged (attempt : Nat) : Verdict → Point
  | .stored => .returned (.ok ())
  | .again => .reading (attempt + 1)
  | .failed err => .returned (.error err)

/-- Once OpenBao has handled the post, the reply comes to a call that still waits. -/
def Call.answered (call : Call Value) (m : Mount) (path : Bytes) (reply : PostReply) : Call Value :=
  { call with
    sent := none
    point :=
      match call.point with
      | .posting attempt => .judged attempt (verdict m path attempt reply)
      | point => point }

/-- What can happen. A call begins, the mount of its path being known or not; its read ends
with OpenBao's answer or with another reply; OpenBao handles its post, which it may refuse
for reasons of its own, and replies; the call gives up waiting. Another writer reads or
posts. -/
inductive Act (Value : Type) where
  | begin (c : Nat) (mount : Option Bytes)
  | read (c : Nat) (fault : Option (ReadReply Value))
  | handle (c : Nat) (refuses : Bool) (status : Nat) (resp : Bytes) (errors : List Bytes)
  | giveUp (c : Nat) (err : Bytes)
  | otherRead (j : Nat)
  | otherPost (j : Nat) (change : Fields Value → Fields Value)

variable (quote : Bytes → Bytes) (text : Bytes → Value) (m : Mount) (path : Bytes)
  (inputs : Nat → Bytes × Bytes)

/-- The field and the value of a call on this record. -/
def task (c : Nat) : Option (Location × Value) :=
  match prepare quote text (inputs c).1 (inputs c).2 with
  | .ok (loc, value) => if loc.path = path then some (loc, value) else none
  | .error _ => none

/-- One action, or `none` where it cannot happen. A reply other than OpenBao's answer never
passes for a record, and a post is answered 200 or 204 exactly if it was applied. -/
def World.step (w : World Value) : Act Value → Option (World Value)
  | .begin c mount =>
    match (w.calls c).point, prepare quote text (inputs c).1 (inputs c).2, mount with
    | .idle, .error err, _ =>
      some (w.setCall c { w.calls c with point := .returned (.error (.input err)) })
    | .idle, .ok (loc, _), some err =>
      if loc.path = path then
        some (w.setCall c { w.calls c with point := .returned (.error (.mount err)) })
      else none
    | .idle, .ok (loc, _), none =>
      if loc.path = path then some (w.setCall c { w.calls c with point := .reading 0 }) else none
    | _, _, _ => none
  | .read c fault =>
    match (w.calls c).point, fault, readRecord m path (fault.getD (answer w.record)) with
    | .reading _, _, .error err =>
      some (w.setCall c { w.calls c with point := .returned (.error (.read err)) })
    | .reading attempt, none, .ok rec =>
      some (w.setCall c
        { point := .posting attempt, sent := some rec, posts := (w.calls c).posts + 1 })
    | _, _, _ => none
  | .handle c refuses status resp errors =>
    match (w.calls c).sent, task quote text path inputs c with
    | some rec, some (loc, value) =>
      let replied := w.setCall c ((w.calls c).answered m path (.answered status resp errors))
      match if refuses then none else handle w.record (rec.post m loc.field value) with
      | some record =>
        if status = 200 ∨ status = 204 then
          some { replied with record := record, commits := w.commits ++ [.key c loc.field value] }
        else none
      | none => if status = 200 ∨ status = 204 then none else some replied
    | _, _ => none
  | .giveUp c err =>
    match (w.calls c).point with
    | .posting attempt =>
      some (w.setCall c { w.calls c with
        point := .judged attempt (verdict m path attempt (.failed err)) })
    | _ => none
  | .otherRead j => some { w with others := fun k => if k = j then some w.record else w.others k }
  | .otherPost j change =>
    match w.others j with
    | some read =>
      match w.record.post read.version (some (change (read.value.getD noFields))) with
      | some record => some { w with record := record, commits := w.commits ++ [.other change] }
      | none => some w
    | none => none

end Machine

/-! ## What is read -/

section Reads

variable {Value : Type}

/-- What was read, as a state of the record. -/
def Record.cell (rec : Record Value) : Stored Value :=
  { version := rec.version, value := rec.fields }

theorem decodeInt64_ok {n v : Int} (decoded : decodeInt64 n = .ok v) : v = n := by
  unfold decodeInt64 at decoded
  split at decoded <;> simp_all

/-- A record read from OpenBao's answer is the record. -/
theorem readRecord_answer {m : Mount} {path : Bytes} {record : Stored Value} {rec : Record Value}
    (v2 : m.v2 = true) (read : readRecord m path (answer record) = .ok rec) :
    rec.cell = record := by
  unfold readRecord at read
  split at read
  · simp at read
  · unfold answer at read
    cases stored : record.value with
    | some fields =>
      simp only [stored, v2] at read
      cases decoded : decodeInt64 record.version with
      | error err => simp [decoded] at read
      | ok version =>
        simp [decoded] at read
        rw [← read, Record.cell, decodeInt64_ok decoded, ← stored]
    | none =>
      simp only [stored, v2] at read
      by_cases never : record.version = 0
      · simp [never] at read
        rw [← read, Record.cell, ← never, ← stored]
      · cases decoded : decodeInt64 record.version with
        | error err => simp [never, decoded] at read
        | ok version =>
          simp [never, decoded] at read
          rw [← read, Record.cell, decodeInt64_ok decoded, ← stored]

end Reads

/-! ## What every interleaving keeps -/

section Interleavings

variable {Value : Type}

/-- Where a call is says how many times it has posted, whether a post is on its way, and
how many of its posts were applied: one if the call has returned nil, and if the reply
was not waited for perhaps one. -/
def Call.Fine (call : Call Value) (made : Nat) : Prop :=
  match call.point with
  | .idle => call.sent = none ∧ call.posts = 0 ∧ made = 0
  | .reading attempt => call.sent = none ∧ call.posts = attempt ∧ attempt ≤ casRetries ∧ made = 0
  | .posting attempt =>
    call.sent.isSome = true ∧ call.posts = attempt + 1 ∧ attempt ≤ casRetries ∧ made = 0
  | .returned (.ok _) => call.sent = none ∧ call.posts ≤ casRetries + 1 ∧ made = 1
  | .returned (.error (.lost _)) =>
    call.posts ≤ casRetries + 1 ∧ made + (if call.sent.isSome = true then 1 else 0) ≤ 1
  | .returned (.error _) => call.sent = none ∧ call.posts ≤ casRetries + 1 ∧ made = 0

theorem madeBy_key_iff {c call : Nat} {field : Bytes} {value : Value} :
    Commit.madeBy c (.key call field value) = true ↔ call = c :=
  beq_iff_eq

/-- How many posts of a call were applied. -/
def World.made (w : World Value) (c : Nat) : Nat := w.commits.countP (Commit.madeBy c)

/-- The record is what the applied writes have made of it, every party that has read may
still post, every call is where its posts say, and every applied write is its call's own. -/
structure Kept (quote : Bytes → Bytes) (text : Bytes → Value) (path : Bytes)
    (inputs : Nat → Bytes × Bytes) (first : Stored Value) (w : World Value) : Prop where
  folded : w.record.value.getD noFields = w.commits.foldl Commit.apply (first.value.getD noFields)
  seen : ∀ c rec, (w.calls c).sent = some rec → w.record.Seen rec.cell
  others : ∀ j read, w.others j = some read → w.record.Seen read
  fine : ∀ c, (w.calls c).Fine (w.made c)
  own : ∀ c field value, .key c field value ∈ w.commits →
    ∃ loc, task quote text path inputs c = some (loc, value) ∧ loc.field = field

section Steps

variable {quote : Bytes → Bytes} {text : Bytes → Value} {m : Mount} {path : Bytes}
  {inputs : Nat → Bytes × Bytes}
  {first : Stored Value} {w : World Value}

theorem start_kept : Kept quote text path inputs first (.start first) :=
  ⟨rfl, by simp [World.start], by simp [World.start],
    fun c => by simp [World.start, Call.Fine, World.made], by simp [World.start]⟩

/-- One call moves on, and nothing is applied. -/
theorem Kept.moved (kept : Kept quote text path inputs first w) {c : Nat} {call : Call Value}
    (fine : call.Fine (w.made c)) (seen : ∀ rec, call.sent = some rec → w.record.Seen rec.cell) :
    Kept quote text path inputs first (w.setCall c call) := by
  refine ⟨kept.folded, ?_, kept.others, ?_, kept.own⟩
  · intro d rec sent
    simp only [World.setCall] at sent
    split at sent
    · exact seen rec sent
    · exact kept.seen d rec sent
  · intro d
    simp only [World.setCall]
    split
    · next same =>
      rw [same]
      exact fine
    · exact kept.fine d

/-- A write is applied that was made from the record it replaces. Of the posts that were on
their way none is new. -/
theorem Kept.applied (kept : Kept quote text path inputs first w) {cas : Int}
    {fields : Fields Value} {record : Stored Value} {commit : Commit Value}
    {calls : Nat → Call Value} (changed : w.record.post cas (some fields) = some record)
    (made : fields = commit.apply (w.record.value.getD noFields))
    (sent : ∀ c rec, (calls c).sent = some rec → (w.calls c).sent = some rec)
    (fine : ∀ c, (calls c).Fine (w.made c + if commit.madeBy c then 1 else 0))
    (own : ∀ c field value, commit = .key c field value →
      ∃ loc, task quote text path inputs c = some (loc, value) ∧ loc.field = field) :
    Kept quote text path inputs first
      { w with record := record, calls := calls, commits := w.commits ++ [commit] } := by
  refine ⟨?_, fun c rec there => (kept.seen c rec (sent c rec there)).posted changed,
    fun j read held => (kept.others j read held).posted changed, ?_, ?_⟩
  · obtain ⟨_, rfl⟩ := Cell.post_some.mp changed
    rw [List.foldl_append, ← kept.folded]
    exact made
  · intro c
    have count : World.made { w with record := record, calls := calls, commits := w.commits ++
        [commit] } c = w.made c + if commit.madeBy c then 1 else 0 := by
      simp [World.made, List.countP_append, List.countP_cons]
    rw [count]
    exact fine c
  · intro c field value member
    rcases List.mem_append.mp member with old | new
    · exact kept.own c field value old
    · exact own c field value (List.mem_singleton.mp new).symm

/-- A call whose post was applied, and answered so, returns nil if it still waits. -/
theorem answered_applied {call : Call Value} {made status : Nat} {rec : Record Value} {resp : Bytes}
    {errors : List Bytes} (fine : call.Fine made) (sent : call.sent = some rec)
    (ok : status = 200 ∨ status = 204) :
    (call.answered m path (.answered status resp errors)).Fine (made + 1) := by
  obtain ⟨point, sentHere, posts⟩ := call
  subst sent
  cases point with
  | idle | reading => simp [Call.Fine] at fine
  | posting attempt =>
    obtain ⟨_, count, few, none⟩ := fine
    simp only [Call.answered, verdict, if_pos ok, Point.judged, Call.Fine]
    simp only at count
    exact ⟨trivial, by omega, by omega⟩
  | returned result =>
    cases result with
    | ok => simp [Call.Fine] at fine
    | error err =>
      cases err with
      | lost =>
        simp [Call.Fine] at fine
        simp [Call.answered, Call.Fine, fine]
      | input | mount | read | refused => simp [Call.Fine] at fine

/-- A call whose post was refused tries again or returns an error if it still waits. -/
theorem answered_refused {call : Call Value} {made status : Nat} {rec : Record Value} {resp : Bytes}
    {errors : List Bytes} (fine : call.Fine made) (sent : call.sent = some rec)
    (refused : ¬ (status = 200 ∨ status = 204)) :
    (call.answered m path (.answered status resp errors)).Fine made := by
  obtain ⟨point, sentHere, posts⟩ := call
  subst sent
  cases point with
  | idle | reading => simp [Call.Fine] at fine
  | posting attempt =>
    obtain ⟨_, count, few, none⟩ := fine
    simp only at count
    simp only [Call.answered, verdict, if_neg refused]
    split
    · next again => exact ⟨rfl, count, again.2.2.2, none⟩
    · exact ⟨rfl, by simp only; omega, none⟩
  | returned result =>
    cases result with
    | ok => simp [Call.Fine] at fine
    | error err =>
      cases err with
      | lost =>
        simp [Call.Fine] at fine
        simp [Call.answered, Call.Fine, fine]
      | input | mount | read | refused => simp [Call.Fine] at fine

/-- Every action keeps this. -/
theorem step_kept (v2 : m.v2 = true) (kept : Kept quote text path inputs first w) {act : Act Value}
    {next : World Value} (taken : w.step quote text m path inputs act = some next) :
    Kept quote text path inputs first next := by
  cases act with
  | begin c mount =>
    have fine := kept.fine c
    simp only [World.step] at taken
    split at taken
    · next idle _ =>
      cases taken
      simp only [Call.Fine, idle] at fine
      exact kept.moved ⟨fine.1, by simp [fine.2.1], fine.2.2⟩ (kept.seen c)
    · next idle _ =>
      obtain ⟨_, rfl⟩ := of_guard taken
      simp only [Call.Fine, idle] at fine
      exact kept.moved ⟨fine.1, by simp [fine.2.1], fine.2.2⟩ (kept.seen c)
    · next idle _ =>
      obtain ⟨_, rfl⟩ := of_guard taken
      simp only [Call.Fine, idle] at fine
      exact kept.moved ⟨fine.1, fine.2.1, Nat.zero_le _, fine.2.2⟩ (kept.seen c)
    · simp at taken
  | read c fault =>
    have fine := kept.fine c
    simp only [World.step] at taken
    split at taken
    · next attempt _ reading _ =>
      cases taken
      simp only [Call.Fine, reading] at fine
      exact kept.moved ⟨fine.1, by simp only [fine.2.1]; omega, fine.2.2.2⟩ (kept.seen c)
    · next attempt rec reading ok =>
      cases taken
      simp only [Call.Fine, reading] at fine
      refine kept.moved ⟨rfl, by simp only [fine.2.1], fine.2.2⟩ ?_
      intro other sent
      cases sent
      rw [readRecord_answer v2 ok]
      exact w.record.seen_now
    · simp at taken
  | handle c refuses status resp errors =>
    have fine := kept.fine c
    simp only [World.step] at taken
    split at taken
    · next rec loc value sent found =>
      split at taken
      · next record applied =>
        obtain ⟨ok, rfl⟩ := of_guard taken
        obtain ⟨_, applied⟩ := ite_none_left_eq_some.mp applied
        have posted : w.record.post rec.cell.version
            (some (setField (rec.fields.getD noFields) loc.field value)) = some record := by
          simpa [handle, Record.post, v2, Record.cell] using applied
        have current : rec.fields = w.record.value := (kept.seen c rec sent).current posted
        apply kept.applied posted
        · rw [Commit.apply, current]
        · intro d other there
          simp only [World.setCall] at there
          split at there
          · simp [Call.answered] at there
          · exact there
        · intro d
          simp only [World.setCall]
          by_cases same : d = c
          · rw [if_pos same, same, if_pos (madeBy_key_iff.mpr rfl)]
            exact answered_applied fine sent ok
          · rw [if_neg same, if_neg fun made => same (madeBy_key_iff.mp made).symm]
            exact kept.fine d
        · rintro d field other ⟨⟩
          exact ⟨loc, found, rfl⟩
      · obtain ⟨refused, same⟩ := ite_none_left_eq_some.mp taken
        cases same
        exact kept.moved (answered_refused fine sent refused) (by simp [Call.answered])
    · simp at taken
  | giveUp c err =>
    have fine := kept.fine c
    simp only [World.step] at taken
    split at taken
    · next attempt posting =>
      cases taken
      simp only [Call.Fine, posting] at fine
      refine kept.moved ?_ (kept.seen c)
      simp only [verdict, Point.judged, Call.Fine, fine.1, fine.2.1, fine.2.2.2]
      simp [fine.2.2.1]
    · simp at taken
  | otherRead j =>
    cases taken
    refine { kept with others := ?_ }
    intro k read held
    simp only at held
    split at held
    · cases held
      exact w.record.seen_now
    · exact kept.others k read held
  | otherPost j change =>
    simp only [World.step] at taken
    split at taken
    · next read held =>
      split at taken
      · next record posted =>
        cases taken
        have current := (kept.others j read held).current posted
        apply kept.applied posted
        · rw [Commit.apply, current]
        · exact fun _ _ there => there
        · exact kept.fine
        · rintro d field other ⟨⟩
      · cases taken
        exact kept
    · simp at taken

end Steps

/-- A list with one element of a kind is split at it. -/
theorem split_at_only {α : Type} {p : α → Bool} {l : List α} (once : l.countP p = 1) :
    ∃ before x rest, l = before ++ x :: rest ∧ p x = true ∧ before.countP p = 0 ∧
      rest.countP p = 0 := by
  obtain ⟨x, member, holds⟩ := List.countP_pos_iff.mp (by omega : 0 < l.countP p)
  obtain ⟨before, rest, rfl⟩ := List.append_of_mem member
  rw [List.countP_append, List.countP_cons_of_pos holds] at once
  exact ⟨before, x, rest, rfl, holds, by omega, by omega⟩

/-- Of any number of calls of `WriteCourierKey` on one record of a KV v2 mount, in whatever
order their reads and posts and those of other check-and-set writers come to OpenBao, and
at every moment: the record's fields are what the applied writes made of the first ones,
one after another. A call that has returned nil was applied once, and this set its field
to its value and kept every other field as it then was. A call that has returned an error
because OpenBao refused it changed nothing, and nothing of it is on its way. No call posts
more than `casRetries + 1` times.

Proof: a post is applied only at the version it was made from, and with the version the
fields are still those that were read. -/
theorem courier_key_writes_kept (quote : Bytes → Bytes) (text : Bytes → Value) (root path : Bytes)
    (inputs : Nat → Bytes × Bytes) (record : Stored Value) (acts : List (Act Value))
    (w : World Value)
    (ran : after (World.step quote text { path := root, v2 := true } path inputs) (.start record)
      acts = some w) :
    w.record.value.getD noFields = w.commits.foldl Commit.apply (record.value.getD noFields) ∧
      ∀ c, ((w.calls c).point = .returned (.ok ()) → ∃ before loc value rest,
          w.commits = before ++ .key c loc.field value :: rest ∧
          before.countP (Commit.madeBy c) = 0 ∧ rest.countP (Commit.madeBy c) = 0 ∧
          prepare quote text (inputs c).1 (inputs c).2 = .ok (loc, value) ∧
          Commit.apply (before.foldl Commit.apply (record.value.getD noFields))
            (.key c loc.field value) loc.field = some value ∧
          ∀ name, name ≠ loc.field →
            Commit.apply (before.foldl Commit.apply (record.value.getD noFields))
              (.key c loc.field value) name =
              before.foldl Commit.apply (record.value.getD noFields) name) ∧
        (∀ err, (w.calls c).point = .returned (.error (.refused err)) →
          w.commits.countP (Commit.madeBy c) = 0 ∧ (w.calls c).sent = none) ∧
        (w.calls c).posts ≤ casRetries + 1 := by
  have kept : Kept quote text path inputs record w :=
    after_invariant (I := Kept quote text path inputs record)
      (fun _ _ _ kept taken => step_kept rfl kept taken) ran start_kept
  refine ⟨kept.folded, fun c => ⟨?_, ?_, ?_⟩⟩
  · intro nil
    have fine := kept.fine c
    simp only [Call.Fine, nil] at fine
    obtain ⟨before, commit, rest, split, made, none, noMore⟩ := split_at_only fine.2.2
    cases commit with
    | other => simp [Commit.madeBy] at made
    | key call field value =>
      obtain rfl := madeBy_key_iff.mp made
      obtain ⟨loc, found, rfl⟩ := kept.own call field value (by rw [split]; simp)
      refine ⟨before, loc, value, rest, split, none, noMore, ?_, by simp [Commit.apply, setField],
        ?_⟩
      · unfold task at found
        split at found
        · next ok =>
          obtain ⟨_, same⟩ := ite_none_right_eq_some.mp found
          rw [ok, some.inj same]
        · simp at found
      · intro name other
        simp [Commit.apply, setField, other]
  · intro err refused
    have fine := kept.fine c
    simp only [Call.Fine, refused] at fine
    exact ⟨fine.2.2, fine.1⟩
  · have fine := kept.fine c
    unfold Call.Fine at fine
    split at fine <;> omega

end Interleavings

/-- Two keys for one new record. -/
def twoKeys (c : Nat) : Bytes × Bytes :=
  if c = 0 then (bytes "s/data/x#a", bytes "A") else (bytes "s/data/x#b", bytes "B")

/-- Both calls read before either posts. -/
def overlapping : List (Act Bytes) :=
  [.begin 0 none, .begin 1 none, .read 0 none, .read 1 none, .handle 0 false 200 [] [],
    .handle 1 false 400 (bytes "check-and-set parameter did not match the current version") [],
    .read 1 none,
    .handle 1 false 204 [] []]

/-- The second call is refused once and then sets its field beside the first one's. -/
theorem courier_key_writes_kept_overlapping :
    ∃ w, after (World.step id id { path := bytes "s/", v2 := true } (bytes "s/data/x") twoKeys)
        (.start { version := 0, value := none }) overlapping = some w ∧
      (w.calls 1).posts = 2 ∧ w.record.value.getD noFields = w.commits.foldl Commit.apply noFields ∧
      ∃ before loc value rest, w.commits = before ++ .key 1 loc.field value :: rest ∧
        prepare id id (bytes "s/data/x#b") (bytes "B") = .ok (loc, value) := by
  obtain ⟨w, ran, twice, nil⟩ : ∃ w, after
    (World.step id id { path := bytes "s/", v2 := true } (bytes "s/data/x") twoKeys)
      (.start { version := 0, value := none }) overlapping = some w ∧
      (w.calls 1).posts = 2 ∧ (w.calls 1).point = .returned (.ok ()) :=
    ⟨_, rfl, by decide +kernel, by decide +kernel⟩
  obtain ⟨folded, each⟩ := courier_key_writes_kept id id (bytes "s/") (bytes "s/data/x") twoKeys
    { version := 0, value := none } overlapping w ran
  obtain ⟨before, loc, value, rest, split, _, _, prepared, _⟩ := (each 1).1 nil
  exact ⟨w, ran, twice, folded, before, loc, value, rest, split, prepared⟩

end TrustedCourier.OpenBao
