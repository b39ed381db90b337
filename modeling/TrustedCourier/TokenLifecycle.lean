import TrustedCourier.AgentTokens
import TrustedCourier.Runs

/-!
# The life of an Agent Token

Calls of `IssueAgentToken`, `RevokeAgentToken` and `AuthenticateAgentToken` go on at once.
Each statement is a step, and so is the return of an issued token's value; between them
other calls take theirs. A call reads the clock when it begins, and the clock may show
anything. A call may also fail at any step, with the database.

The history of what has been issued and revoked is kept beside the table, to say what the
table should tell.
-/

namespace TrustedCourier.Access

open AgentApi (TokenError agentTokenPrefix)
open Runs List Option

/-! ## The calls -/

/-- What is wrong with a request to issue a token. -/
inductive ValidationError where
  | noExpiry
  | past (expiresAt : Int)
  | noPolicy
  | unknownPolicy (name : Bytes)
deriving DecidableEq

/-- The text of the error, by how a time is formatted and a text is quoted. -/
def ValidationError.text (rfc3339 : Int → Bytes) (quote : Bytes → Bytes) : ValidationError → Bytes
  | .noExpiry => bytes "an expiry is required"
  | .past expiresAt => bytes "expiry " ++ rfc3339 expiresAt ++ bytes " is not in the future"
  | .noPolicy => bytes "at least one Policy is required"
  | .unknownPolicy name => bytes "unknown Policy " ++ quote name

/-- The first instant of the year 1, which stands for no time. -/
def zeroTime : Int := -62135596800000000000

/-- The loop over the Policies in `IssueAgentToken`, with the names so far. -/
def policyNames (cfg : Config) : List Bytes → List Bytes → Except ValidationError (List Bytes)
  | names, [] => .ok names
  | names, name :: rest =>
    if name ∈ cfg.policies then policyNames cfg
      (if names.contains name then names else names ++ [name]) rest
    else .error (.unknownPolicy name)

/-- `IssueAgentToken` up to its statement: the token and its value. -/
def newAgentToken (cfg : Config) (policies : List Bytes) (expiresAt now : Int) (id random : Bytes) :
    Except ValidationError (AgentToken × Bytes) :=
  if expiresAt = zeroTime then .error .noExpiry
  else if expiresAt ≤ now then .error (.past expiresAt)
  else if policies.isEmpty then .error .noPolicy
  else (policyNames cfg [] policies).map fun names =>
    ({ id := id
       policies := names
       createdAt := unixMilli now
       expiresAt := unixMilli expiresAt
       lastUsedAt := none
       revokedAt := none }, agentTokenPrefix ++ random)

/-- What a call returns. -/
inductive Result where
  | issued (token : AgentToken) (value : Bytes)
  | invalid (error : ValidationError)
  | revoked
  | notFound (id : Bytes)
  | authenticated (token : AgentToken)
  | refused (error : TokenError)
  | failed
deriving DecidableEq

/-- What an Operator or an Agent asks of the token service. -/
inductive Request where
  | issue (cfg : Config) (policies : List Bytes) (expiresAt now : Int) (id random : Bytes)
  | revoke (id : Bytes) (now : Int)
  | authenticate (presented : Bytes) (now : Int)

/-- How far a call has come. -/
inductive Call where
  | idle
  /-- About to insert the row. -/
  | issuing (token : AgentToken) (value : Bytes)
  /-- About to revoke. -/
  | revoking (id : Bytes) (now : Int)
  /-- About to check and record the use. -/
  | authenticating (value : Bytes) (now : Int)
  /-- About to find out why the check refused. -/
  | refusing (value : Bytes) (now : Int)
  /-- About to return. -/
  | leaving (result : Result)
  | returned (result : Result)

/-- What has been committed. -/
inductive Event where
  | issued (value id : Bytes) (expiresAt : Int)
  | revoked (id : Bytes) (time : Int)
deriving DecidableEq

/-- The token store with every call in progress. -/
structure Service where
  table : TokenTable
  calls : Nat → Call
  history : List Event

/-- One move of the service. -/
inductive Action where
  | start (call : Nat) (request : Request)
  | move (call : Nat)
  /-- A call fails with the database. -/
  | fail (call : Nat)

/-- The service of a new database. -/
def Service.new : Service where
  table := TokenTable.empty
  calls := fun _ => .idle
  history := []

/-- A call goes on. -/
def Service.at (s : Service) (call : Nat) (progress : Call) : Service :=
  { s with calls := Function.update s.calls call progress }

/-- What a call does before its first statement. -/
def Request.begin : Request → Call
  | .issue cfg policies expiresAt now id random =>
    match newAgentToken cfg policies expiresAt now id random with
    | .ok (token, value) => .issuing token value
    | .error error => .leaving (.invalid error)
  | .revoke id now => .revoking id now
  | .authenticate presented now =>
    if agentTokenPrefix.isPrefixOf presented then .authenticating presented now
    else .leaving (.refused .invalid)

section Machine

variable (hash : Bytes → Bytes)

/-- The next step of a call. -/
def Service.move (s : Service) (call : Nat) : Option Service :=
  match s.calls call with
  | .idle => none
  | .issuing token value =>
    match s.table.insert ⟨hash value, token⟩ with
    | some grown =>
      some { s.at call (.leaving (.issued token value)) with
        table := grown, history := .issued value token.id token.expiresAt :: s.history }
    | none => some (s.at call (.leaving .failed))
  | .revoking id now =>
    if s.table.knows id then
      some { s.at call (.leaving .revoked) with
        table := s.table.revoke id (unixMilli now), history :=
          .revoked id (unixMilli now) :: s.history }
    else some { s.at call (.leaving (.notFound id)) with
      table := s.table.revoke id (unixMilli now) }
  | .authenticating value now =>
    match s.table.check (hash value) (unixMilli now) with
    | some (token, used) => some { s.at call (.leaving (.authenticated token)) with table := used }
    | none => some (s.at call (.refusing value now))
  | .refusing value _ => some (s.at call (.leaving (.refused (s.table.refusal (hash value)))))
  | .leaving result => some (s.at call (.returned result))
  | .returned _ => none

/-- An action, where it can be taken. -/
def Service.step (s : Service) : Action → Option Service
  | .start call request => match s.calls call with
    | .idle => some (s.at call request.begin)
    | _ => none
  | .move call => s.move hash call
  | .fail call => match s.calls call with
    | .idle | .returned _ => none
    | _ => some (s.at call (.leaving .failed))

end Machine

/-! ## What the table tells -/

/-- The values the run issues. -/
def issuedBy (acts : List Action) : List Bytes :=
  acts.filterMap fun
    | .start _ (.issue _ _ _ _ _ random) => some (agentTokenPrefix ++ random)
    | _ => none

/-- The values the run presents. -/
def presentedBy (acts : List Action) : List Bytes :=
  acts.filterMap fun
    | .start _ (.authenticate presented _) => some presented
    | _ => none

/-- What a run may be assumed to do: no two values in it have the same hash, and a value
it issues is presented only after a call has returned it. -/
structure Orderly (hash : Bytes → Bytes) (acts : List Action) : Prop where
  distinct : ∀ value other, value ∈ issuedBy acts ++ presentedBy acts →
    other ∈ issuedBy acts ++ presentedBy acts →
    hash value = hash other → value = other
  first : ∀ before call value now later, acts = before ++ .start call (.authenticate value now) ::
    later →
    value ∈ issuedBy acts → ∃ s issue token, after (Service.step hash) Service.new before = some s ∧
      s.calls issue = .returned (.issued token value)

section Invariant

variable (hash : Bytes → Bytes)

/-- The rows are the tokens that have been issued. -/
structure Issues (history : List Event) (table : TokenTable) : Prop where
  stored : ∀ value id expiresAt, .issued value id expiresAt ∈ history →
    ∃ row ∈ table.rows, row.hash = hash value ∧ row.token.id = id ∧ row.token.expiresAt = expiresAt
  source : ∀ row ∈ table.rows, ∃ value, .issued value row.token.id row.token.expiresAt ∈ history ∧
    row.hash = hash value

/-- The rows that have a time of revocation are those of the revoked tokens. -/
structure Revocations (history : List Event) (table : TokenTable) : Prop where
  stored : ∀ row ∈ table.rows, row.token.revokedAt.isSome = true ↔
    ∃ time, .revoked row.token.id time ∈ history
  source : ∀ id time, .revoked id time ∈ history → ∃ row ∈ table.rows, row.token.id = id

/-- The value has a row, if the run issues it. -/
def Presented (all : List Action) (table : TokenTable) (value : Bytes) : Prop :=
  value ∈ presentedBy all ∧ (value ∈ issuedBy all → ∃ row ∈ table.rows, row.hash = hash value)

/-- What a call on its way may rely on, in a run of these actions. -/
def Call.Sound (all : List Action) (table : TokenTable) : Call → Prop
  | .issuing token value => value ∈ issuedBy all ∧ token.revokedAt = none
  | .authenticating value _ => Presented hash all table value
  | .refusing value now =>
    Presented hash all table value ∧ ∀ row ∈ table.rows, row.hash = hash value →
      row.token.revokedAt.isSome = true ∨ row.token.expiresAt ≤ unixMilli now
  | .leaving (.issued _ value) | .returned (.issued _ value) =>
    ∃ row ∈ table.rows, row.hash = hash value
  | .idle | .revoking _ _ | .leaving _ | .returned _ => True

/-- What holds of the service after any run of actions. -/
structure Service.Sound (all : List Action) (s : Service) : Prop where
  issues : Issues hash s.history s.table
  events : ∀ value id expiresAt, .issued value id expiresAt ∈ s.history → value ∈ issuedBy all
  revocations : Revocations s.history s.table
  calls : ∀ call, (s.calls call).Sound hash all s.table

variable {hash} {history : List Event} {a b : TokenTable} {New : TokenRow → Prop}

/-- An update of the rows issues nothing. -/
theorem Issues.forward (issues : Issues hash history a)
    (forward : TokenTable.Forward a b fun _ => False) {grown : List Event}
    (same : ∀ value id expiresAt,
      .issued value id expiresAt ∈ grown ↔ .issued value id expiresAt ∈ history) :
      Issues hash grown b := by
  constructor
  · intro value id expiresAt member
    obtain ⟨row, before, hashed, named, expires⟩ :=
      issues.stored value id expiresAt ((same _ _ _).mp member)
    obtain ⟨later, now, leads⟩ := forward.kept row before
    exact ⟨later, now, leads.hash.trans hashed, leads.id.trans named, leads.expiresAt.trans expires⟩
  · intro later now
    rcases forward.source later now with ⟨row, before, leads⟩ | impossible
    · obtain ⟨value, member, hashed⟩ := issues.source row before
      rw [← leads.id, ← leads.expiresAt] at member
      exact ⟨value, (same _ _ _).mpr member, leads.hash.trans hashed⟩
    · exact impossible.elim

theorem Presented.forward {all : List Action} {value : Bytes}
    (presented : Presented hash all a value) (forward : TokenTable.Forward a b New) :
    Presented hash all b value := by
  refine ⟨presented.1, fun issued => ?_⟩
  obtain ⟨row, before, hashed⟩ := presented.2 issued
  obtain ⟨later, now, leads⟩ := forward.kept row before
  exact ⟨later, now, leads.hash.trans hashed⟩

/-- A call keeps its footing. A row that appears is that of a value the run issues, and a
value that is presented and issued already has its row. -/
theorem Call.Sound.forward {all : List Action} (orderly : Orderly hash all) {call : Call}
    (sound : call.Sound hash all a) (forward : TokenTable.Forward a b New)
    (new : ∀ row, New row → ∃ value ∈ issuedBy all, row.hash = hash value ∧
      ∀ other ∈ a.rows, other.hash ≠ row.hash) :
    call.Sound hash all b := by
  cases call with
  | idle | revoking => trivial
  | issuing => exact sound
  | authenticating value now => exact Presented.forward sound forward
  | refusing value now =>
    obtain ⟨presented, refused⟩ := sound
    refine ⟨presented.forward forward, fun later there hashed => ?_⟩
    rcases forward.source later there with ⟨row, before, leads⟩ | appeared
    · rcases refused row before (leads.hash.symm.trans hashed) with revoked | expired
      · obtain ⟨time, known⟩ := isSome_iff_exists.mp revoked
        exact Or.inl (by simp [leads.revokedAt time known])
      · exact Or.inr (leads.expiresAt ▸ expired)
    · obtain ⟨other, issued, own, free⟩ := new later appeared
      have same : value = other := orderly.distinct value other (mem_append_right _ presented.1)
        (mem_append_left _ issued) (hashed.symm.trans own)
      obtain ⟨row, before, taken⟩ := presented.2 (same ▸ issued)
      exact absurd (taken.trans hashed.symm) (free row before)
  | leaving result | returned result =>
    cases result with
    | issued token value =>
      obtain ⟨row, before, hashed⟩ := sound
      obtain ⟨later, now, leads⟩ := forward.kept row before
      exact ⟨later, now, leads.hash.trans hashed⟩
    | invalid | revoked | notFound | authenticated | refused | failed => trivial

end Invariant

/-! ## Steps -/

section Steps

variable {hash : Bytes → Bytes} {all : List Action} {s s' : Service} {call : Nat}

@[simp] theorem Service.at_same (s : Service) (call : Nat) (progress : Call) :
    (s.at call progress).calls call = progress := by
  simp [Service.at]

theorem Service.at_other (s : Service) {other : Nat} (apart : other ≠ call) (progress : Call) :
    (s.at call progress).calls other = s.calls other := by
  simp [Service.at, apart]

/-- The start of the service. -/
theorem Service.Sound.new (hash : Bytes → Bytes) (all : List Action) :
    Service.new.Sound hash all where
  issues :=
    ⟨fun _ _ _ member => absurd member not_mem_nil, fun _ member => absurd member not_mem_nil⟩
  events := fun _ _ _ member => absurd member not_mem_nil
  revocations :=
    ⟨fun _ member => absurd member not_mem_nil, fun _ _ member => absurd member not_mem_nil⟩
  calls := fun _ => trivial

section

variable (orderly : Orderly hash all)
include orderly

/-- One call comes further, and the table goes forward. -/
theorem Service.Sound.forward (sound : s.Sound hash all) {table : TokenTable}
    {history : List Event} {progress : Call} {New : TokenRow → Prop}
    (forward : TokenTable.Forward s.table table New) (new : ∀ row, New row →
      ∃ value ∈ issuedBy all, row.hash = hash value ∧ ∀ other ∈ s.table.rows, other.hash ≠ row.hash)
    (issues : Issues hash history table)
    (events : ∀ value id expiresAt, .issued value id expiresAt ∈ history → value ∈ issuedBy all)
    (revocations : Revocations history table) (footing : progress.Sound hash all table) :
    { s.at call progress with table := table, history := history }.Sound hash all := by
  refine ⟨issues, events, revocations, fun other => ?_⟩
  by_cases same : other = call
  · subst same
    rw [s.at_same]
    exact footing
  · rw [s.at_other same]
    exact (sound.calls other).forward orderly forward new

/-- One call comes further, and nothing else changes. -/
theorem Service.Sound.turn (sound : s.Sound hash all) {progress : Call}
    (footing : progress.Sound hash all s.table) : (s.at call progress).Sound hash all :=
  sound.forward orderly (TokenTable.Forward.refl s.table) (fun _ impossible => impossible.elim)
    sound.issues sound.events sound.revocations footing

/-- A token's row is inserted. -/
theorem Service.Sound.insert (sound : s.Sound hash all) {token : AgentToken} {value : Bytes}
    {grown : TokenTable} (issued : value ∈ issuedBy all)
    (inserted : s.table.insert ⟨hash value, token⟩ = some grown) (valid : token.revokedAt = none) :
    { s.at call (.leaving (.issued token value)) with
      table := grown, history := .issued value token.id token.expiresAt :: s.history }.Sound hash
        all := by
  obtain ⟨rows, free⟩ := TokenTable.insert_some inserted
  have member : ∀ row, row ∈ grown.rows ↔
      row ∈ s.table.rows ∨ row = ⟨hash value, token⟩ := by simp [rows]
  refine sound.forward orderly (TokenTable.forward_insert inserted) ?_ ⟨?_, ?_⟩ ?_ ⟨?_, ?_⟩ ?_
  · rintro row rfl
    exact ⟨value, issued, rfl, fun other before => (free other before).2⟩
  · intro other id expiresAt event
    rcases mem_cons.mp event with same | before
    · obtain ⟨rfl, rfl, rfl⟩ := by simpa using same
      exact ⟨⟨hash other, token⟩, (member _).mpr (Or.inr rfl), rfl, rfl, rfl⟩
    · obtain ⟨row, there, hashed⟩ := sound.issues.stored other id expiresAt before
      exact ⟨row, (member _).mpr (Or.inl there), hashed⟩
  · intro row there
    rcases (member row).mp there with before | rfl
    · obtain ⟨other, event, hashed⟩ := sound.issues.source row before
      exact ⟨other, mem_cons_of_mem _ event, hashed⟩
    · exact ⟨value, mem_cons_self, rfl⟩
  · intro other id expiresAt event
    rcases mem_cons.mp event with same | before
    · obtain ⟨rfl, _⟩ := by simpa using same
      exact issued
    · exact sound.events other id expiresAt before
  · intro row there
    rcases (member row).mp there with before | rfl
    · simpa using sound.revocations.stored row before
    · -- No token of this id was there to be revoked.
      simp only [valid, isSome_none, Bool.false_eq_true, false_iff]
      rintro ⟨time, event⟩
      obtain ⟨row, before, named⟩ := sound.revocations.source token.id time (by simpa using event)
      exact (free row before).1 named
  · intro id time event
    obtain ⟨row, before, named⟩ := sound.revocations.source id time (by simpa using event)
    exact ⟨row, (member _).mpr (Or.inl before), named⟩
  · exact ⟨⟨hash value, token⟩, (member _).mpr (Or.inr rfl), rfl⟩

/-- A token is revoked. -/
theorem Service.Sound.revoke (sound : s.Sound hash all) {id : Bytes} (now : Int)
    (known : s.table.knows id = true) :
    { s.at call (.leaving .revoked) with
      table := s.table.revoke id now, history := .revoked id now :: s.history }.Sound hash all := by
  have forward := TokenTable.forward_revoke s.table id now
  refine sound.forward orderly forward (fun _ impossible => impossible.elim)
    (sound.issues.forward forward (by simp))
    (fun value other expiresAt event => sound.events value other expiresAt (by simpa using event))
      ⟨?_, ?_⟩ trivial
  · intro later there
    obtain ⟨row, before, leads, revoked⟩ := TokenTable.mem_revoke there
    rw [revoked, sound.revocations.stored row before, leads.id]
    constructor
    · rintro (⟨time, event⟩ | rfl)
      · exact ⟨time, mem_cons_of_mem _ event⟩
      · exact ⟨now, mem_cons_self⟩
    · rintro ⟨time, event⟩
      rcases mem_cons.mp event with same | event
      · exact Or.inr (Event.revoked.inj same).1
      · exact Or.inl ⟨time, event⟩
  · intro other time event
    have held : ∃ row ∈ s.table.rows, row.token.id = other := by
      rcases mem_cons.mp event with same | event
      · exact (Event.revoked.inj same).1 ▸ (s.table.knows_iff id).mp known
      · exact sound.revocations.source other time event
    obtain ⟨row, before, named⟩ := held
    obtain ⟨later, there, leads⟩ := forward.kept row before
    exact ⟨later, there, leads.id.trans named⟩

end

/-- A statement that changes no revocation. -/
theorem Revocations.forward {history : List Event} {a b : TokenTable}
    (revocations : Revocations history a) (forward : TokenTable.Forward a b fun _ => False)
    (same : ∀ later ∈ b.rows, ∃ row ∈ a.rows, row.Later later ∧
      (later.token.revokedAt.isSome = true ↔ row.token.revokedAt.isSome = true)) :
      Revocations history b := by
  constructor
  · intro later there
    obtain ⟨row, before, leads, revoked⟩ := same later there
    rw [revoked, revocations.stored row before, leads.id]
  · intro id time event
    obtain ⟨row, before, named⟩ := revocations.source id time event
    obtain ⟨later, there, leads⟩ := forward.kept row before
    exact ⟨later, there, leads.id.trans named⟩

theorem Service.Sound.check (orderly : Orderly hash all) (sound : s.Sound hash all) {value : Bytes}
    {now : Int} {token : AgentToken} {used : TokenTable}
    (checked : s.table.check (hash value) now = some (token, used)) :
    { s.at call (.leaving (.authenticated token)) with table := used }.Sound hash all := by
  have forward := TokenTable.forward_check checked
  refine sound.forward orderly forward (fun _ impossible => impossible.elim)
    (sound.issues.forward forward fun _ _ _ => Iff.rfl) sound.events
    (sound.revocations.forward forward fun later there => ?_) trivial
  obtain ⟨row, before, leads, same⟩ := TokenTable.mem_check checked there
  exact ⟨row, before, leads, by rw [same]⟩

/-- A revocation of an id that no row has changes no row. -/
theorem Service.Sound.revoke_unknown (orderly : Orderly hash all) (sound : s.Sound hash all)
    {id : Bytes} (now : Int) (unknown : ¬ s.table.knows id = true) :
    { s.at call (.leaving (.notFound id)) with table := s.table.revoke id now }.Sound hash all := by
  have forward := TokenTable.forward_revoke s.table id now
  refine sound.forward orderly forward (fun _ impossible => impossible.elim)
    (sound.issues.forward forward fun _ _ _ => Iff.rfl) sound.events
    (sound.revocations.forward forward fun later there => ?_) trivial
  obtain ⟨row, before, leads, revoked⟩ := TokenTable.mem_revoke there
  have apart : row.token.id ≠ id := fun named =>
    unknown ((s.table.knows_iff id).mpr ⟨row, before, named⟩)
  exact ⟨row, before, leads, by simp [revoked, apart]⟩

/-- A call's move keeps the service sound. -/
theorem Service.Sound.move (orderly : Orderly hash all) (sound : s.Sound hash all)
    (taken : s.move hash call = some s') : s'.Sound hash all := by
  have footing := sound.calls call
  revert taken
  fun_cases s.move hash call <;> rintro ⟨⟩
  case case2 came grown inserted =>
    rw [came] at footing
    exact sound.insert orderly footing.1 inserted footing.2
  case case4 known => exact sound.revoke orderly _ known
  case case5 unknown => exact sound.revoke_unknown orderly _ unknown
  case case6 token used checked => exact sound.check orderly checked
  case case7 came refused =>
    rw [came] at footing
    exact sound.turn orderly ⟨footing, TokenTable.check_none refused⟩
  case case3 | case8 => exact sound.turn orderly trivial
  case case9 result came =>
    rw [came] at footing
    refine sound.turn orderly ?_
    cases result with
    | issued => exact footing
    | invalid | revoked | notFound | authenticated | refused | failed => trivial

/-- A new token is not revoked. -/
theorem newAgentToken_ok {cfg : Config} {policies : List Bytes} {expiresAt now : Int}
    {id random value : Bytes} {token : AgentToken}
    (made : newAgentToken cfg policies expiresAt now id random = .ok (token, value)) :
    value = agentTokenPrefix ++ random ∧ token.revokedAt = none := by
  revert made
  fun_cases newAgentToken cfg policies expiresAt now id random with
  | case4 =>
    cases names : policyNames cfg [] policies with
    | error => nofun
    | ok known =>
      rintro ⟨⟩
      exact ⟨rfl, rfl⟩
  | _ => nofun

/-- A call begins on a footing. A presented value that the run issues has been returned. -/
theorem Request.begin_sound (orderly : Orderly hash all) {before later : List Action}
    {request : Request} (split : all = before ++ .start call request :: later)
    (ran : after (Service.step hash) Service.new before = some s) (sound : s.Sound hash all) :
    request.begin.Sound hash all s.table := by
  cases request with
  | issue cfg policies expiresAt now id random =>
    simp only [Request.begin]
    cases made : newAgentToken cfg policies expiresAt now id random with
    | error => trivial
    | ok both =>
      obtain ⟨token, value⟩ := both
      obtain ⟨rfl, valid⟩ := newAgentToken_ok made
      refine ⟨?_, valid⟩
      simp [issuedBy, split]
  | revoke => trivial
  | authenticate presented now =>
    simp only [Request.begin]
    split
    · refine ⟨by simp [presentedBy, split], fun issued => ?_⟩
      obtain ⟨there, issue, token, reached, returned⟩ :=
        orderly.first before call presented now later split issued
      cases reached.symm.trans ran
      have footing := sound.calls issue
      rwa [returned] at footing
    · trivial

/-- Every action keeps the service sound. -/
theorem Service.Sound.step (orderly : Orderly hash all) {before later : List Action} {act : Action}
    (split : all = before ++ act :: later)
    (ran : after (Service.step hash) Service.new before = some s) (sound : s.Sound hash all)
    (taken : s.step hash act = some s') : s'.Sound hash all := by
  revert taken
  fun_cases s.step hash act with
  | case1 call request idle =>
    rintro ⟨⟩
    exact sound.turn orderly (Request.begin_sound orderly split ran sound)
  | case3 call => exact sound.move orderly
  | case6 call =>
    rintro ⟨⟩
    exact sound.turn orderly trivial
  | _ => nofun

/-- Every state of an orderly run is sound. -/
theorem Service.Sound.run (orderly : Orderly hash all)
    (ran : after (Service.step hash) Service.new all = some s) :
    s.Sound hash all := by
  have general : all <+: all → s.Sound hash all := by
    apply after_induction (P := fun acts s => acts <+: all → s.Sound hash all) _ _ ran
    · intro _
      exact Service.Sound.new hash all
    · intro acts mid act next before known taken within
      obtain ⟨later, split⟩ := within
      rw [append_assoc, singleton_append] at split
      exact (known ⟨_, split⟩).step orderly split.symm before taken
  exact general prefix_rfl

theorem Service.move_kept (taken : s.move hash call = some s') (row : TokenRow)
    (member : row ∈ s.table.rows) :
    ∃ later ∈ s'.table.rows, row.Later later := by
  revert taken
  fun_cases s.move hash call <;> rintro ⟨⟩
  case case2 grown inserted => exact (TokenTable.forward_insert inserted).kept row member
  case case4 id now _ _ | case5 id now _ _ =>
    exact (TokenTable.forward_revoke s.table id (unixMilli now)).kept row member
  case case6 token used checked => exact (TokenTable.forward_check checked).kept row member
  case case3 | case7 | case8 | case9 => exact ⟨row, member, TokenRow.Later.refl row⟩

/-- A row stays, with its revocation. -/
theorem Service.step_kept {act : Action} (taken : s.step hash act = some s') (row : TokenRow)
    (member : row ∈ s.table.rows) : ∃ later ∈ s'.table.rows, row.Later later := by
  revert taken
  fun_cases s.step hash act with
  | case3 call => exact fun taken => Service.move_kept taken row member
  | case1 | case6 =>
    rintro ⟨⟩
    exact ⟨row, member, TokenRow.Later.refl row⟩
  | _ => nofun

theorem Service.run_kept {acts : List Action} (ran : after (Service.step hash) s acts = some s')
    (row : TokenRow) (member : row ∈ s.table.rows) : ∃ later ∈ s'.table.rows, row.Later later := by
  apply after_invariant (I := fun t => ∃ later ∈ t.table.rows, row.Later later) _ ran
    ⟨row, member, TokenRow.Later.refl row⟩
  rintro t act next ⟨mid, there, leads⟩ taken
  obtain ⟨later, found, further⟩ := Service.step_kept taken mid there
  exact ⟨later, found, leads.trans further⟩

end Steps

/-! ## Whole runs -/

/-- The value is good at this time: it has been issued, is not revoked, and has not
expired. -/
def Live (history : List Event) (value : Bytes) (now : Int) : Prop :=
  ∃ id expiresAt, .issued value id expiresAt ∈ history ∧ (∀ time, .revoked id time ∉ history) ∧
    unixMilli now < expiresAt

/-- The refusal fits what has become of the value. -/
def Fits (history : List Event) (value : Bytes) (now : Int) : TokenError → Prop
  | .invalid => ∀ id expiresAt, .issued value id expiresAt ∉ history
  | .revoked => (∃ id expiresAt, .issued value id expiresAt ∈ history) ∧
      ∀ id expiresAt, .issued value id expiresAt ∈ history → ∃ time, .revoked id time ∈ history
  | .expired => (∃ id expiresAt, .issued value id expiresAt ∈ history) ∧
      ∀ id expiresAt, .issued value id expiresAt ∈ history →
        (∀ time, .revoked id time ∉ history) ∧ expiresAt ≤ unixMilli now
  | .failed => False

section Runs

variable {hash : Bytes → Bytes} {acts : List Action} {s : Service} {value : Bytes} {row : TokenRow}

/-- The row of a value tells what has been issued under it. -/
theorem Service.Sound.row_issued (orderly : Orderly hash acts) (sound : s.Sound hash acts)
    (used : value ∈ issuedBy acts ++ presentedBy acts) (member : row ∈ s.table.rows)
    (hashed : row.hash = hash value) (id : Bytes) (expiresAt : Int) :
    .issued value id expiresAt ∈ s.history ↔ id = row.token.id ∧
    expiresAt = row.token.expiresAt := by
  constructor
  · intro event
    obtain ⟨other, there, own, rfl, rfl⟩ := sound.issues.stored value id expiresAt event
    rw [s.table.hash_injective there member (own.trans hashed.symm)]
    exact ⟨rfl, rfl⟩
  · rintro ⟨rfl, rfl⟩
    obtain ⟨issued, event, own⟩ := sound.issues.source row member
    have known := sound.events issued _ _ event
    rwa [orderly.distinct issued value (mem_append_left _ known) used
      (own.symm.trans hashed)] at event

theorem Service.Sound.not_revoked (sound : s.Sound hash acts) (member : row ∈ s.table.rows) :
    row.token.revokedAt = none ↔ ∀ time, .revoked row.token.id time ∉ s.history := by
  have stored := sound.revocations.stored row member
  rw [← not_exists, ← stored, Bool.not_eq_true, isSome_eq_false_iff, isNone_iff_eq_none]

/-- The check finds the values that are good. -/
theorem Service.Sound.check_live (orderly : Orderly hash acts) (sound : s.Sound hash acts)
    (used : value ∈ issuedBy acts ++ presentedBy acts) (now : Int) :
    (s.table.check (hash value) (unixMilli now)).isSome = true ↔ Live s.history value now := by
  rw [TokenTable.check_isSome_iff]
  constructor
  · rintro ⟨row, member, hashed, valid, early⟩
    exact ⟨_, _, (sound.row_issued orderly used member hashed _ _).mpr ⟨rfl, rfl⟩,
      (sound.not_revoked member).mp valid, early⟩
  · rintro ⟨id, expiresAt, event, valid, early⟩
    obtain ⟨row, member, hashed, rfl, rfl⟩ := sound.issues.stored value id expiresAt event
    exact ⟨row, member, hashed, (sound.not_revoked member).mpr valid, early⟩

/-- A call that has been refused learns what has become of the value. -/
theorem Service.Sound.refusal_fits (orderly : Orderly hash acts) (sound : s.Sound hash acts)
    {call : Nat} {now : Int} (came : s.calls call = .refusing value now) :
    Fits s.history value now (s.table.refusal (hash value)) := by
  have footing := sound.calls call
  rw [came] at footing
  obtain ⟨⟨presented, _⟩, refused⟩ := footing
  have used := mem_append_right (issuedBy acts) presented
  rcases s.table.refusal_eq (hash value) with ⟨refusal, none⟩ | ⟨row, member, hashed, kind⟩
  · rw [refusal]
    intro id expiresAt event
    obtain ⟨row, member, hashed, _⟩ := sound.issues.stored value id expiresAt event
    exact none row member hashed
  · have issued := sound.row_issued orderly used member hashed
    rcases kind with ⟨refusal, revoked⟩ | ⟨refusal, valid⟩
    · rw [refusal]
      refine ⟨⟨_, _, (issued _ _).mpr ⟨rfl, rfl⟩⟩, fun id expiresAt event => ?_⟩
      obtain ⟨rfl, rfl⟩ := (issued id expiresAt).mp event
      exact (sound.revocations.stored row member).mp revoked
    · rw [refusal]
      refine ⟨⟨_, _, (issued _ _).mpr ⟨rfl, rfl⟩⟩, fun id expiresAt event => ?_⟩
      obtain ⟨rfl, rfl⟩ := (issued id expiresAt).mp event
      exact ⟨(sound.not_revoked member).mp valid,
        (refused row member hashed).resolve_left (by simp [valid])⟩

theorem prefix_of_issuedBy (issued : value ∈ issuedBy acts) : agentTokenPrefix <+: value := by
  obtain ⟨act, _, made⟩ := mem_filterMap.mp issued
  split at made
  · cases made
    exact prefix_append _ _
  · cases made

/-- The step of a check: the value is admitted, or refused with no row changed. -/
theorem Service.Sound.authenticates (orderly : Orderly hash acts) (sound : s.Sound hash acts)
    {call : Nat} {now : Int} (came : s.calls call = .authenticating value now) :
    ∃ next, s.step hash (.move call) = some next ∧
      ((∃ token, next.calls call = .leaving (.authenticated token)) ↔ Live s.history value now) ∧
      (¬ Live s.history value now → next.calls call = .refusing value now ∧
        next.table = s.table) := by
  have footing := sound.calls call
  rw [came] at footing
  have live := sound.check_live orderly (mem_append_right _ footing.1) now
  cases checked : s.table.check (hash value) (unixMilli now) with
  | some both =>
    obtain ⟨token, used⟩ := both
    have good : Live s.history value now := live.mp (by simp [checked])
    refine ⟨{ s.at call (.leaving (.authenticated token)) with table := used },
      by simp only [Service.step, Service.move, came, checked], ?_, fun bad => absurd good bad⟩
    exact ⟨fun _ => good, fun _ => ⟨token, s.at_same call _⟩⟩
  | none =>
    have bad : ¬ Live s.history value now := fun good => by simpa [checked] using live.mpr good
    refine ⟨s.at call (.refusing value now), by simp only [Service.step, Service.move, came,
      checked], ?_, fun _ => ⟨s.at_same call _, rfl⟩⟩
    simp [bad]

/-- A call that a revoked row refuses. -/
theorem Service.move_revoked {t next : Service} (member : row ∈ t.table.rows)
    (hashed : row.hash = hash value) {since : Int} (revoked : row.token.revokedAt = some since)
    {call : Nat} {now : Int} (came : t.calls call = .authenticating value now)
    (taken : t.step hash (.move call) = some next) :
    next.calls call = .refusing value now := by
  have refused : t.table.check (hash value) (unixMilli now) = none := by
    rw [← not_isSome_iff_eq_none, TokenTable.check_isSome_iff]
    rintro ⟨other, found, own, valid, _⟩
    rw [t.table.hash_injective found member (own.trans hashed.symm), revoked] at valid
    cases valid
  simp only [Service.step, Service.move, came, refused, some.injEq] at taken
  exact taken ▸ t.at_same call _

/-- What the listing calls active is what a check would admit. -/
theorem TokenTable.listed_active {table : TokenTable} (member : row ∈ table.rows)
    (hashed : row.hash = hash value) (now : Int) :
    toAPI row.token now = .active ↔ (table.check (hash value) (unixMilli now)).isSome = true := by
  rw [toAPI_active_iff, TokenTable.check_isSome_iff]
  constructor
  · rintro ⟨valid, early⟩
    exact ⟨row, member, hashed, valid, early⟩
  · rintro ⟨other, found, own, valid, early⟩
    rw [table.hash_injective found member (own.trans hashed.symm)] at valid early
    exact ⟨valid, early⟩

/-- The life of an Agent Token. In every orderly run, a check admits a value exactly if it
is good at the time the call has read, and otherwise changes no row. The reason given for
a refusal fits what has become of the token, and finding it changes no row either; a value
that is refused at once has never been issued. Once a token is revoked, its time of
revocation stays as it is and no later check admits its value. And the listing calls a
token active exactly if a check at that instant would admit its value. -/
theorem agent_token_lifecycle (hash : Bytes → Bytes) (acts : List Action) (s : Service)
    (ran : after (Service.step hash) Service.new acts = some s) (orderly : Orderly hash acts) :
    (∀ call value now, s.calls call = .authenticating value now →
      ∃ next, s.step hash (.move call) = some next ∧
      ((∃ token, next.calls call = .leaving (.authenticated token)) ↔ Live s.history value now) ∧
      (¬ Live s.history value now → next.calls call = .refusing value now ∧ next.table = s.table)) ∧
    (∀ call value now, s.calls call = .refusing value now →
      ∃ next error, s.step hash (.move call) = some next ∧
      next.calls call = .leaving (.refused error) ∧ Fits s.history value now error ∧
      next.table = s.table) ∧
    (∀ call value now next, s.step hash (.start call (.authenticate value now)) = some next →
      next.table = s.table ∧
      (next.calls call = .authenticating value now ∨
        next.calls call = .leaving (.refused .invalid) ∧ Fits s.history value now .invalid)) ∧
    (∀ value id expiresAt time, .issued value id expiresAt ∈ s.history →
      .revoked id time ∈ s.history →
      ∃ since, ∀ more t, after (Service.step hash) s more = some t →
        (∃ row ∈ t.table.rows, row.hash = hash value ∧ row.token.id = id ∧
          row.token.revokedAt = some since) ∧
        ∀ call now next, t.calls call = .authenticating value now →
          t.step hash (.move call) = some next →
          next.calls call = .refusing value now) ∧
    ∀ token ∈ s.table.listAgentTokens, ∃ value, .issued value token.id token.expiresAt ∈ s.history ∧
      ∀ now, (toAPI token now = .active ↔
        (s.table.check (hash value) (unixMilli now)).isSome = true) ∧
        (toAPI token now = .revoked ↔ ∃ time, .revoked token.id time ∈ s.history) := by
  have sound := Service.Sound.run orderly ran
  refine ⟨?_, ?_, ?_, ?_, ?_⟩
  · intro call value now came
    exact sound.authenticates orderly came
  · intro call value now came
    exact ⟨_, _, by simp only [Service.step, Service.move, came], s.at_same call _,
      sound.refusal_fits orderly came, rfl⟩
  · intro call value now next taken
    simp only [Service.step] at taken
    split at taken
    · cases taken
      refine ⟨rfl, ?_⟩
      rw [s.at_same, Request.begin]
      split
      · exact Or.inl rfl
      · next foreign =>
        refine Or.inr ⟨rfl, fun id expiresAt event => foreign ?_⟩
        exact isPrefixOf_iff_prefix.mpr (prefix_of_issuedBy (sound.events value id expiresAt event))
    · cases taken
  · intro value id expiresAt time issued revoked
    obtain ⟨row, member, hashed, rfl, rfl⟩ := sound.issues.stored value id expiresAt issued
    obtain ⟨since, known⟩ :=
      isSome_iff_exists.mp ((sound.revocations.stored row member).mpr ⟨time, revoked⟩)
    refine ⟨since, fun more t further => ?_⟩
    obtain ⟨later, there, leads⟩ := Service.run_kept further row member
    have stays := leads.revokedAt since known
    have same := leads.hash.trans hashed
    exact ⟨⟨later, there, same, leads.id, stays⟩,
      fun _ _ _ came taken => Service.move_revoked there same stays came taken⟩
  · intro token listed
    obtain ⟨row, member, rfl⟩ := (s.table.mem_listAgentTokens token).mp listed
    obtain ⟨value, event, hashed⟩ := sound.issues.source row member
    refine ⟨value, event, fun now => ⟨TokenTable.listed_active member hashed now, ?_⟩⟩
    rw [← sound.revocations.stored row member]
    cases revoked : row.token.revokedAt <;> simp [toAPI, revoked]
    split <;> simp

end Runs

/-- A token is issued, revoked, and then presented. -/
def issueRevokePresent : List Action :=
  [.start 0 (.issue limited [bytes "reader"] 9000000 1000000 (bytes "id") (bytes "x")), .move 0,
    .move 0,
    .start 1 (.revoke (bytes "id") 2000000), .move 1,
    .start 2 (.authenticate (bytes "tcat_x") 3000000)]

theorem issueRevokePresent_orderly : Orderly id issueRevokePresent where
  distinct := fun _ _ _ _ same => same
  first := by
    intro before call value now later split _
    rcases before with _ | ⟨_, _ | ⟨_, _ | ⟨_, _ | ⟨_, _ | ⟨_, _ | ⟨_, before⟩⟩⟩⟩⟩⟩ <;>
      simp [issueRevokePresent] at split
    obtain ⟨rfl, rfl, rfl, rfl, rfl, ⟨rfl, rfl, rfl⟩, rfl⟩ := split
    exact ⟨_, 0, _, rfl, rfl⟩

/-- The value is refused, though it has not expired. -/
theorem agent_token_lifecycle_revoked :
    ∃ s next, after (Service.step id) Service.new issueRevokePresent = some s ∧
      s.step id (.move 2) = some next ∧ next.calls 2 = .refusing (bytes "tcat_x") 3000000 ∧
      ∃ row ∈ next.table.rows, unixMilli 3000000 < row.token.expiresAt := by
  refine ⟨_, _, rfl, rfl, ?_, ?_⟩
  · obtain ⟨_, _, _, revoked, _⟩ :=
      agent_token_lifecycle id issueRevokePresent _ rfl issueRevokePresent_orderly
    obtain ⟨_, stays⟩ := revoked (bytes "tcat_x") (bytes "id") 9 2 (by decide) (by decide)
    exact (stays [] _ rfl).2 2 3000000 _ rfl rfl
  · exact ⟨_, mem_singleton.mpr rfl, by decide⟩

end TrustedCourier.Access
