import TrustedCourier.Decimal
import TrustedCourier.HeaderRedaction
import TrustedCourier.PluginContract
import TrustedCourier.Runs
import TrustedCourier.Versioned

/-!
# Courier Keys in OpenBao

`WriteCourierKey` sets one field of a KV record and keeps the others: it reads the record,
sets its field, and posts the whole record back. On a KV v2 mount the post names the
version that was read, and OpenBao refuses it if the record has changed since; the call
then reads again, a few times.

Any number of calls and of other check-and-set writers work on one record at once. What
OpenBao does with a request is one action; the calls' requests come to it in any order, and
a post may come to it after its call has given up waiting. Every post that OpenBao applies
was made from the record it replaces, so the record is what the applied writes make of it
one after another.

A `json.RawMessage` is never looked into, so a field's value may be of any type. What
`json.Unmarshal` makes of a response is given with it, and so is how a text is quoted.
-/

namespace TrustedCourier.OpenBao

open ByteStrings Utf8 Checks Runs Versioned
open PluginContract (startsControl showUpTo)

/-- How many times a write retries after another writer changed the record. -/
def casRetries : Nat := 3

/-! ## Locations -/

/-- A parsed `<path>#<field>`. -/
structure Location where
  path : Bytes
  field : Bytes
deriving DecidableEq, Repr

/-- A rune that a URL or a location would read as something else. -/
def breaksPath : Sym → Bool
  | .rune encoding _ =>
    [bytes "#", bytes "?", bytes "%"].contains encoding || startsControl encoding ||
      AgentApi.spaces.contains encoding
  | .bad _ => false

section Text

variable (quote : Bytes → Bytes)

/-- `checkPath` of a record's path. -/
def checkPath (path : Bytes) : Except Bytes Unit := do
  refuse ((bytes "/").isPrefixOf path || contains path (bytes "//") || (bytes "/").isSuffixOf path)
    (bytes "the path must be an API path without a leading slash or empty segments")
  match (runes path).find? breaksPath with
  | some rune =>
    .error (bytes "the path contains " ++ quote rune.bytes ++
      bytes ", which a location cannot hold")
  | none => .ok ()

/-- `parseLocation`. -/
def parseLocation (s : Bytes) : Except Bytes Location := do
  let (path, field, ok) := cut s 0x23
  refuse (!ok || path = [] || field = [])
    (bytes "location " ++ quote s ++ bytes ": want <path>#<field>, such as secret/data/openai#key")
  (checkPath quote path).mapError fun err => bytes "location " ++ quote s ++ bytes ": " ++ err
  return { path := path, field := field }

end Text

/-- `printable`. -/
def printable (s : Bytes) (max : Nat) : Bytes := showUpTo max (runes s) []

/-- `apiError`, with the errors that the body lists, if it is one that lists any. -/
def apiError (status : Nat) (errors : List Bytes) : Bytes :=
  if errors = [] then bytes "status " ++ Decimal.digits status
  else
    bytes "status " ++ Decimal.digits status ++ bytes ": " ++
      printable ((bytes "; ").intercalate errors) 512

/-! ## Records -/

/-- The fields of a record by name. -/
abbrev Fields (Value : Type) := Bytes → Option Value

section Records

variable {Value : Type}

/-- A map without entries. -/
def noFields : Fields Value := fun _ => none

/-- `fields[field] = value`. -/
def setField (fields : Fields Value) (field : Bytes) (value : Value) : Fields Value :=
  fun name => if name = field then some value else fields name

/-- A KV secrets engine mount: its path with the trailing slash. -/
structure Mount where
  path : Bytes
  v2 : Bool
deriving DecidableEq, Repr

/-- `mount.dataRoot`. -/
def Mount.dataRoot (m : Mount) : Bytes := if m.v2 then m.path ++ bytes "data/" else m.path

/-- A record that was read: its fields, if there are any, and on a KV v2 mount its
version. -/
structure Record (Value : Type) where
  fields : Option (Fields Value)
  version : Int

/-- What `json.Unmarshal` makes of a response: the errors, the members of `data`, the
version that its `metadata` gives, and the fields that are wrapped in its `data`. -/
structure Payload (Value : Type) where
  errors : List Bytes
  data : Option (Fields Value)
  metadata : Option (Except Bytes Int)
  wrapped : Except Unit (Option (Fields Value))

/-- How a call of the API ends that reads. -/
inductive ReadReply (Value : Type) where
  | failed (err : Bytes)
  | answered (status : Nat) (body : Except Bytes (Payload Value))

/-- `Backend.readRecord`. -/
def readRecord (m : Mount) (path : Bytes) (reply : ReadReply Value) : Except Bytes (Record Value) :=
  if !m.dataRoot.isPrefixOf path then
    .error (path ++ bytes " is on KV v2 mount " ++ m.path ++
      bytes ", so its location starts with " ++ m.dataRoot)
  else
    match reply with
    | .failed err => .error err
    | .answered _ (.error err) => .error (bytes "read " ++ path ++ bytes ": " ++ err)
    | .answered status (.ok body) =>
      -- A 404 that lists errors is not a missing record but a refused path.
      if status = 404 ∧ body.errors ≠ [] ∨ status ≠ 200 ∧ status ≠ 404 then
        .error (bytes "read " ++ path ++ bytes ": " ++ apiError status body.errors)
      else if !m.v2 then
        .ok { fields := if status = 404 then none else body.data, version := 0 }
      else
        match body.metadata.getD (.ok 0) with
        | .error err => .error (bytes "read " ++ path ++ bytes ": metadata: " ++ err)
        | .ok version =>
          if status = 404 then .ok { fields := none, version := version }
          else
            match body.wrapped with
            | .error _ => .error (bytes "read " ++ path ++ bytes ": data is not an object")
            | .ok fields => .ok { fields := fields, version := version }

/-- What is posted: the fields, and on a KV v2 mount the version they were made from. -/
structure Post (Value : Type) where
  fields : Fields Value
  cas : Option Int

/-- What `WriteCourierKey` posts after reading a record. -/
def Record.post (m : Mount) (rec : Record Value) (field : Bytes) (encoded : Value) :
    Post Value where
  fields := setField (rec.fields.getD noFields) field encoded
  cas := if m.v2 then some rec.version else none

/-- How a call of the API ends that posts: with the errors that the body lists. -/
inductive PostReply where
  | failed (err : Bytes)
  | answered (status : Nat) (resp : Bytes) (errors : List Bytes)

/-- Why `WriteCourierKey` fails: before it reads, or because a read fails, or a post does
not come to an end, or OpenBao refuses one. -/
inductive WriteErr where
  | input (text : Bytes)
  | mount (text : Bytes)
  | read (text : Bytes)
  | lost (text : Bytes)
  | refused (text : Bytes)
deriving DecidableEq, Repr

/-- What a round of `WriteCourierKey` ends in. -/
inductive Verdict where
  | stored
  | again
  | failed (err : WriteErr)

/-- What `WriteCourierKey` makes of the reply to a post. -/
def verdict (m : Mount) (path : Bytes) (attempt : Nat) : PostReply → Verdict
  | .failed err => .failed (.lost err)
  | .answered status resp errors =>
    if status = 200 ∨ status = 204 then .stored
    else if m.v2 ∧ status = 400 ∧ contains resp (bytes "check-and-set") ∧ attempt < casRetries then
      .again
    else .failed (.refused (bytes "write " ++ path ++ bytes ": " ++ apiError status errors))

/-- `WriteCourierKey` until it needs the mount: where the field is, and its new value.
`text` is the JSON value of a text. -/
def prepare (quote : Bytes → Bytes) (text : Bytes → Value) (location value : Bytes) :
    Except Bytes (Location × Value) := do
  let loc ← parseLocation quote location
  refuse (!validString value)
    (bytes "a Courier Key in OpenBao must be text, such as PEM; the value is not valid UTF-8")
  return (loc, text value)

end Records

end TrustedCourier.OpenBao
