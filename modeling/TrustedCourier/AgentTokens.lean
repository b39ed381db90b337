import TrustedCourier.Authorize
import TrustedCourier.Credentials

/-!
# The table of Agent Tokens

A row holds a token's hash and what is known of the token. No two rows have the same id
or the same hash, as the database sees to, and rows are never deleted. The four
statements the access service runs are here: the insertion of a row, the revocation by
id, the check that records a use, and the question why the check refused.

A time is a number of nanoseconds since 1970; the table has milliseconds. The Policies of
a token are stored as JSON and are read back before they are used; here a row has the
list.
-/

namespace TrustedCourier.Access

open List

open AgentApi (TokenError)

/-- `Time.UnixMilli`. -/
def unixMilli (time : Int) : Int := time / 1000000

/-- A row: the token and the hash of its value. -/
structure TokenRow where
  hash : Bytes
  token : AgentToken
deriving DecidableEq

/-- The table `agent_tokens`, with its primary key and its unique column. -/
structure TokenTable where
  rows : List TokenRow
  ids : rows.Pairwise fun a b => a.token.id ≠ b.token.id
  hashes : rows.Pairwise fun a b => a.hash ≠ b.hash

namespace TokenTable

/-- The table of a new database. -/
def empty : TokenTable := ⟨[], List.Pairwise.nil, List.Pairwise.nil⟩

/-- One more row, apart from every other. -/
theorem pairwise_concat {R : TokenRow → TokenRow → Prop} {rows : List TokenRow} {row : TokenRow}
    (apart : rows.Pairwise R) (last : ∀ other ∈ rows, R other row) :
    (rows ++ [row]).Pairwise R := by
  refine pairwise_append.mpr ⟨apart, pairwise_singleton _ _, ?_⟩
  intro other member new same
  exact mem_singleton.mp same ▸ last other member

/-- `INSERT`, refused when the id or the hash is taken. -/
def insert (table : TokenTable) (row : TokenRow) : Option TokenTable :=
  if free : ∀ other ∈ table.rows, other.token.id ≠ row.token.id ∧ other.hash ≠ row.hash then
    some
      { rows := table.rows ++ [row]
        ids := pairwise_concat table.ids fun other member => (free other member).1
        hashes := pairwise_concat table.hashes fun other member => (free other member).2 }
  else none

/-- `UPDATE … SET … WHERE`, for a change that leaves the id. -/
def update (table : TokenTable) (which : TokenRow → Bool) (set : AgentToken → AgentToken)
    (same : ∀ token, (set token).id = token.id) : TokenTable where
  rows := table.rows.map fun row => if which row then { row with token := set row.token } else row
  ids := by
    refine pairwise_map.mpr (table.ids.imp fun {a b} apart => ?_)
    split <;> split <;> simpa [same] using apart
  hashes := by
    refine pairwise_map.mpr (table.hashes.imp fun {a b} apart => ?_)
    split <;> split <;> exact apart

/-- `SET revoked_at = COALESCE(revoked_at, ?)`. -/
def setRevoked (now : Int) (token : AgentToken) : AgentToken :=
  { token with revokedAt := token.revokedAt.or (some now) }

/-- `SET last_used_at = ?`. -/
def setUsed (now : Int) (token : AgentToken) : AgentToken := { token with lastUsedAt := some now }

/-- The statement of `RevokeAgentToken`. -/
def revoke (table : TokenTable) (id : Bytes) (now : Int) : TokenTable :=
  table.update (·.token.id == id) (setRevoked now) fun _ => rfl

/-- Whether the statement of `RevokeAgentToken` affects a row. -/
def knows (table : TokenTable) (id : Bytes) : Bool := table.rows.any (·.token.id == id)

/-- The condition of the check. -/
def admits (hash : Bytes) (now : Int) (row : TokenRow) : Bool :=
  row.hash == hash && row.token.revokedAt.isNone && decide (now < row.token.expiresAt)

/-- The first statement of `AuthenticateAgentToken`, which checks and records the use. -/
def check (table : TokenTable) (hash : Bytes) (now : Int) : Option (AgentToken × TokenTable) :=
  (table.rows.find? (admits hash now)).map fun row =>
    (setUsed now row.token, table.update (admits hash now) (setUsed now) fun _ => rfl)

/-- What `AuthenticateAgentToken` makes of its second statement. -/
def refusal (table : TokenTable) (hash : Bytes) : TokenError :=
  match table.rows.find? (·.hash == hash) with
  | none => .invalid
  | some row => if row.token.revokedAt.isSome then .revoked else .expired

/-- `ListAgentTokens`: the newest first, then by id. -/
def listAgentTokens (table : TokenTable) : List AgentToken :=
  (table.rows.map TokenRow.token).mergeSort fun a b =>
    decide (b.createdAt < a.createdAt ∨ b.createdAt = a.createdAt ∧ a.id ≤ b.id)

end TokenTable

/-- The status of a token in the admin listing. -/
inductive Status where
  | active
  | revoked
  | expired
deriving DecidableEq

/-- The status `toAPI` computes at an instant. -/
def toAPI (token : AgentToken) (now : Int) : Status :=
  if token.revokedAt.isSome then .revoked
  else if now < token.expiresAt * 1000000 then .active
  else .expired

/-! ## What the statements do -/

/-- What a row may become: the same token, and revoked as it was if it was. -/
structure TokenRow.Later (a b : TokenRow) : Prop where
  hash : b.hash = a.hash
  id : b.token.id = a.token.id
  expiresAt : b.token.expiresAt = a.token.expiresAt
  revokedAt : ∀ time, a.token.revokedAt = some time → b.token.revokedAt = some time

theorem TokenRow.Later.refl (a : TokenRow) : a.Later a := ⟨rfl, rfl, rfl, fun _ same => same⟩

theorem TokenRow.Later.trans {a b c : TokenRow} (first : a.Later b) (second : b.Later c) :
    a.Later c where
  hash := second.hash.trans first.hash
  id := second.id.trans first.id
  expiresAt := second.expiresAt.trans first.expiresAt
  revokedAt := fun time revoked => second.revokedAt time (first.revokedAt time revoked)

namespace TokenTable

variable {table : TokenTable} {row other : TokenRow} {hash : Bytes} {now : Int}

/-- Rows of the same hash are the same row. -/
theorem hash_injective (table : TokenTable) (left : row ∈ table.rows) (right : other ∈ table.rows)
    (same : row.hash = other.hash) : row = other := by
  by_contra different
  have symmetric : Std.Symm fun a b : TokenRow => a.hash ≠ b.hash :=
    ⟨fun _ _ unequal => unequal.symm⟩
  exact table.hashes.forall left right different same

theorem insert_some {grown : TokenTable} (inserted : table.insert row = some grown) :
    grown.rows = table.rows ++ [row] ∧
      ∀ other ∈ table.rows, other.token.id ≠ row.token.id ∧ other.hash ≠ row.hash := by
  unfold insert at inserted
  split at inserted
  · next free =>
    cases inserted
    exact ⟨rfl, free⟩
  · cases inserted

theorem knows_iff (table : TokenTable) (id : Bytes) : table.knows id = true ↔
    ∃ row ∈ table.rows, row.token.id = id := by
  simp [knows]

theorem admits_iff : admits hash now row = true ↔
    row.hash = hash ∧ row.token.revokedAt = none ∧ now < row.token.expiresAt := by
  simp [admits, and_assoc]

/-- The check finds the row of the hash, if that row is neither revoked nor expired. -/
theorem check_isSome_iff (table : TokenTable) (hash : Bytes) (now : Int) :
    (table.check hash now).isSome = true ↔
    ∃ row ∈ table.rows, row.hash = hash ∧ row.token.revokedAt = none ∧
      now < row.token.expiresAt := by
  simp only [check, Option.isSome_map, find?_isSome, admits_iff]

/-- The check has refused: the row of the hash, if there is one, is revoked or expired. -/
theorem check_none (refused : table.check hash now = none) (row : TokenRow)
    (member : row ∈ table.rows) (hashed : row.hash = hash) :
    row.token.revokedAt.isSome = true ∨ row.token.expiresAt ≤ now := by
  by_contra neither
  obtain ⟨valid, early⟩ := not_or.mp neither
  have admitted : (table.check hash now).isSome = true :=
    (table.check_isSome_iff hash now).mpr ⟨row, member, hashed, by simpa using valid, by omega⟩
  simp [refused] at admitted

/-- Why the check refuses, as the table is when the question is put. -/
theorem refusal_eq (table : TokenTable) (hash : Bytes) :
    (table.refusal hash = .invalid ∧ ∀ row ∈ table.rows, row.hash ≠ hash) ∨
    ∃ row ∈ table.rows, row.hash = hash ∧
      ((table.refusal hash = .revoked ∧ row.token.revokedAt.isSome = true) ∨
        (table.refusal hash = .expired ∧ row.token.revokedAt = none)) := by
  unfold refusal
  cases found : table.rows.find? (·.hash == hash) with
  | none => exact Or.inl ⟨rfl, fun row member => by simpa using find?_eq_none.mp found row member⟩
  | some row =>
    refine Or.inr ⟨row, mem_of_find?_eq_some found, by simpa using find?_some found, ?_⟩
    cases revoked : row.token.revokedAt <;> simp [revoked]

section Update

variable (which : TokenRow → Bool) (set : AgentToken → AgentToken)

theorem mem_update (same : ∀ token, (set token).id = token.id) :
    other ∈ (table.update which set same).rows ↔
    ∃ row ∈ table.rows, (if which row then { row with token := set row.token } else row) =
      other := by
  simp only [update, mem_map]

/-- An update that leaves the expiry, and a revocation as it was, leads to later rows. -/
theorem later_update (same : ∀ token, (set token).id = token.id)
    (expires : ∀ token, (set token).expiresAt = token.expiresAt)
    (revokes : ∀ token time, token.revokedAt = some time → (set token).revokedAt = some time)
    (row : TokenRow) :
    row.Later (if which row then { row with token := set row.token } else row) := by
  split
  · exact ⟨rfl, same _, expires _, revokes _⟩
  · exact TokenRow.Later.refl row

end Update

theorem later_revoke (id : Bytes) (now : Int) (row : TokenRow) :
    row.Later (if row.token.id == id then { row with token := setRevoked now row.token }
      else row) :=
  later_update (·.token.id == id) (setRevoked now) (fun _ => rfl) (fun _ => rfl)
    (fun _ time revoked => by simp [setRevoked, revoked]) row

theorem later_use (hash : Bytes) (now : Int) (row : TokenRow) :
    row.Later (if admits hash now row then { row with token := setUsed now row.token } else row) :=
  later_update (admits hash now) (setUsed now) (fun _ => rfl) (fun _ => rfl)
    (fun _ _ revoked => revoked) row

/-- The rows of one table lead to those of a later one, and what is new is like this. -/
structure Forward (a b : TokenTable) (New : TokenRow → Prop) : Prop where
  kept : ∀ row ∈ a.rows, ∃ later ∈ b.rows, row.Later later
  source : ∀ later ∈ b.rows, (∃ row ∈ a.rows, row.Later later) ∨ New later

theorem Forward.refl (table : TokenTable) : Forward table table fun _ => False where
  kept := fun row member => ⟨row, member, TokenRow.Later.refl row⟩
  source := fun row member => Or.inl ⟨row, member, TokenRow.Later.refl row⟩

theorem forward_insert {grown : TokenTable} (inserted : table.insert row = some grown) :
    Forward table grown (· = row) := by
  obtain ⟨rows, _⟩ := insert_some inserted
  constructor
  · intro other member
    exact ⟨other, rows ▸ mem_append_left _ member, TokenRow.Later.refl other⟩
  · intro later member
    rw [rows, mem_append, mem_singleton] at member
    exact member.imp_left fun before => ⟨later, before, TokenRow.Later.refl later⟩

theorem forward_update {which : TokenRow → Bool} {set : AgentToken → AgentToken}
    {same : ∀ token, (set token).id = token.id}
    (leads : ∀ row : TokenRow, row.Later
      (if which row then { row with token := set row.token } else row)) :
    Forward table (table.update which set same) fun _ => False := by
  constructor
  · intro row member
    exact ⟨_, (mem_update which set same).mpr ⟨row, member, rfl⟩, leads row⟩
  · intro later member
    obtain ⟨row, before, rfl⟩ := (mem_update which set same).mp member
    exact Or.inl ⟨row, before, leads row⟩

theorem forward_revoke (table : TokenTable) (id : Bytes) (now : Int) :
    Forward table (table.revoke id now) fun _ => False :=
  forward_update (later_revoke id now)

theorem check_some {token : AgentToken} {used : TokenTable}
    (checked : table.check hash now = some (token, used)) :
    used = table.update (admits hash now) (setUsed now) fun _ => rfl := by
  obtain ⟨_, _, same⟩ := Option.map_eq_some_iff.mp checked
  exact (Prod.mk.inj same).2.symm

theorem forward_check {token : AgentToken} {used : TokenTable}
    (checked : table.check hash now = some (token, used)) :
    Forward table used fun _ => False := by
  rw [check_some checked]
  exact forward_update (later_use hash now)

/-- A revocation revokes the rows of the id, and no others. -/
theorem mem_revoke {id : Bytes} (member : other ∈ (table.revoke id now).rows) :
    ∃ row ∈ table.rows, row.Later other ∧
      (other.token.revokedAt.isSome = true ↔ row.token.revokedAt.isSome = true ∨
        row.token.id = id) := by
  obtain ⟨row, before, rfl⟩ := (mem_update _ _ _).mp member
  refine ⟨row, before, later_revoke id now row, ?_⟩
  by_cases named : row.token.id = id <;> simp [named, setRevoked]

/-- A use changes no revocation. -/
theorem mem_check {token : AgentToken} {used : TokenTable}
    (checked : table.check hash now = some (token, used)) (member : other ∈ used.rows) :
    ∃ row ∈ table.rows, row.Later other ∧ other.token.revokedAt = row.token.revokedAt := by
  rw [check_some checked] at member
  obtain ⟨row, before, rfl⟩ := (mem_update _ _ _).mp member
  refine ⟨row, before, later_use hash now row, ?_⟩
  split <;> rfl

theorem mem_listAgentTokens (table : TokenTable) (token : AgentToken) :
    token ∈ table.listAgentTokens ↔ ∃ row ∈ table.rows, row.token = token := by
  simp [listAgentTokens, mem_mergeSort]

end TokenTable

/-- The listing compares nanoseconds and the check milliseconds, which is the same: the
expiry is a whole number of milliseconds. -/
theorem toAPI_active_iff (token : AgentToken) (now : Int) : toAPI token now = .active ↔
    token.revokedAt = none ∧ unixMilli now < token.expiresAt := by
  have rounded : now < token.expiresAt * 1000000 ↔ unixMilli now < token.expiresAt :=
    (Int.ediv_lt_iff_lt_mul (by omega)).symm
  cases revoked : token.revokedAt with
  | some time => simp [toAPI, revoked]
  | none =>
    by_cases early : now < token.expiresAt * 1000000
    · simp [toAPI, revoked, early, ← rounded]
    · simp [toAPI, revoked, early, ← rounded]

end TrustedCourier.Access
