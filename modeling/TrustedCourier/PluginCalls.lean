import Mathlib.Algebra.GroupWithZero.Nat
import TrustedCourier.PluginContract

/-!
# A call of a Backend Plugin, from the core to the Backend and back

The SDK's server puts a Backend behind gRPC and holds its answers to the contract; the
core's client calls it and holds the responses to the same contract. Between them a
Backend's error becomes a status code with a text, and a refused answer becomes one of the
same kind that only a mark at its front tells apart. Whatever the Backend returns, what
comes out at the client is what went in: the same value, or an error of the same kind with
a text that prints.

`Get`, `List` and `WriteCourierKey` are one path on either side, given the method's own
check. A transport that is faithful delivers a status or a response as it is, if it is not
larger than the client takes. What `errors.Is` says of a Backend's error is given with it.
-/

namespace TrustedCourier.PluginContract

open ByteStrings Checks

/-! ## The Backend -/

/-- An error of a Backend: its text, and which of the SDK's two errors it wraps. -/
structure Err where
  text : Bytes
  notFound : Bool
  unsupported : Bool
deriving DecidableEq, Repr

/-- What a Backend does in a call, and whether it is a `CourierKeyWriter`. -/
structure Backend where
  get : Bytes → Except Err Bytes
  list : Bytes → Except Err (List Bytes)
  health : Bytes × Option Err
  courierKeyWrite : Bool
  writeCourierKey : Option (Bytes → Bytes → Option Err)

/-- `plugin.ErrNotFound`. -/
def errNotFound : Bytes := bytes "not found"

/-- `plugin.ErrUnsupported`. -/
def errUnsupported : Bytes := bytes "not supported by this Backend Plugin"

/-- `client.ErrMalformed`. -/
def errMalformed : Bytes := bytes "malformed response from Backend Plugin"

/-- `contract.MalformedPrefix`. -/
def malformedMark : Bytes := bytes "Backend Plugin produced a malformed response: "

/-! ## gRPC -/

/-- A status code. -/
inductive Code where
  | ok
  | canceled
  | unknown
  | invalidArgument
  | deadlineExceeded
  | notFound
  | alreadyExists
  | permissionDenied
  | resourceExhausted
  | failedPrecondition
  | aborted
  | outOfRange
  | unimplemented
  | internal
  | unavailable
  | dataLoss
  | unauthenticated
deriving DecidableEq, Repr

/-- `Code.String`. -/
def Code.text : Code → Bytes
  | .ok => bytes "OK"
  | .canceled => bytes "Canceled"
  | .unknown => bytes "Unknown"
  | .invalidArgument => bytes "InvalidArgument"
  | .deadlineExceeded => bytes "DeadlineExceeded"
  | .notFound => bytes "NotFound"
  | .alreadyExists => bytes "AlreadyExists"
  | .permissionDenied => bytes "PermissionDenied"
  | .resourceExhausted => bytes "ResourceExhausted"
  | .failedPrecondition => bytes "FailedPrecondition"
  | .aborted => bytes "Aborted"
  | .outOfRange => bytes "OutOfRange"
  | .unimplemented => bytes "Unimplemented"
  | .internal => bytes "Internal"
  | .unavailable => bytes "Unavailable"
  | .dataLoss => bytes "DataLoss"
  | .unauthenticated => bytes "Unauthenticated"

/-- A gRPC status: its code and its message. -/
structure Status where
  code : Code
  message : Bytes
deriving DecidableEq, Repr

/-- How a call fails at the client: with a status, or with an error that is none. -/
inductive RpcErr where
  | status (status : Status)
  | other (text : Bytes)

/-- How many bytes a number takes in the wire format. -/
def sizeVarint (n : Nat) : Nat := if n < 128 then 1 else 1 + sizeVarint (n / 128)

/-- How many bytes a field takes that holds this many: its tag, its length, and they. -/
def fieldSize (n : Nat) : Nat := 1 + sizeVarint n + n

/-- A field that is left out when it is empty. -/
def optionalSize (n : Nat) : Nat := if n = 0 then 0 else fieldSize n

/-- What a plugin says of its health. -/
structure HealthResponse where
  healthy : Bool
  detail : Bytes
deriving DecidableEq, Repr

/-- The encoded size of a `Get` response. -/
def getSize (value : Bytes) : Nat := optionalSize value.length

/-- The encoded size of a `List` response. -/
def listSize (locations : List Bytes) : Nat := (locations.map fun loc => fieldSize loc.length).sum

/-- The encoded size of a `Health` response. -/
def healthSize (resp : HealthResponse) : Nat :=
  (if resp.healthy then 2 else 0) + optionalSize resp.detail.length

/-- A faithful transport, at a client that refuses messages over the limit. -/
def carry {α : Type} (size : α → Nat) : Except Status α → Except RpcErr α
  | .error st => .error (.status st)
  | .ok resp =>
    if size resp > maxMessageBytes then
      .error (.status ⟨.resourceExhausted,
        bytes ("grpc: received message larger than max (" ++ toString (size resp) ++
        " vs. " ++ toString maxMessageBytes ++ ")")⟩)
    else .ok resp

/-! ## The SDK's server -/

namespace Server

/-- The status for an answer that breaks the contract. -/
def malformed (err : String) : Status := ⟨.internal, malformedMark ++ bytes err⟩

/-- The status for a Backend's error. -/
def toStatus (err : Err) : Status :=
  if err.notFound then ⟨.notFound, sanitize err.text⟩
  else if err.unsupported then ⟨.unimplemented, errUnsupported⟩
  else ⟨.unavailable, sanitize err.text⟩

/-- The response for what a Backend returned, under the method's check. -/
def respond {α : Type} (check : α → Except String Unit) : Except Err α → Except Status α
  | .error err => .error (toStatus err)
  | .ok answer =>
    match check answer with
    | .error err => .error (malformed err)
    | .ok _ => .ok answer

/-- A response after the request's own check. -/
def requested {α : Type} (check : Except String Unit) (response : Except Status α) :
    Except Status α :=
  match check with
  | .error err => .error ⟨.invalidArgument, bytes err⟩
  | .ok _ => response

/-- The server's `Health`. -/
def health (b : Backend) : Except Status HealthResponse :=
  match detail b.health.1, b.health.2 with
  | .error err, _ => .error (malformed err)
  | .ok _, none => .ok { healthy := true, detail := b.health.1 }
  | .ok _, some err =>
    .ok
      { healthy := false
        detail :=
          sanitize (err.text ++ if b.health.1 = [] then [] else bytes " (" ++ b.health.1 ++
            bytes ")") }

/-- The server's `Get`. -/
def get (b : Backend) (loc : Bytes) : Except Status Bytes :=
  requested (location loc) (respond value (b.get loc))

/-- The server's `List`. -/
def list (b : Backend) (start : Bytes) : Except Status (List Bytes) :=
  requested (prefixRule start) (respond (PluginContract.list start) (b.list start))

/-- The server's `WriteCourierKey`. -/
def writeCourierKey (b : Backend) (loc v : Bytes) : Except Status Unit :=
  match b.writeCourierKey, b.courierKeyWrite with
  | some write, true =>
    requested (location loc) (requested (value v)
      (match write loc v with
      | some err => .error (toStatus err)
      | none => .ok ()))
  | _, _ => .error ⟨.unimplemented, errUnsupported⟩

end Server

/-! ## The core's client -/

/-- The errors that a client's error may wrap. -/
inductive Sentinel where
  | notFound
  | unsupported
  | malformed
deriving DecidableEq, Repr

/-- An error of the client: a text with what it wraps, or an `UnhealthyError`. -/
inductive ClientErr where
  | failed (text : Bytes) (wraps : Option Sentinel)
  | unhealthy (detail : Bytes)
deriving DecidableEq, Repr

/-- `Error`. -/
def ClientErr.text : ClientErr → Bytes
  | .failed text _ => text
  | .unhealthy detail => if detail = [] then bytes "unhealthy" else bytes "unhealthy: " ++ detail

namespace Client

/-- `callError`. -/
def callError (method : Bytes) : RpcErr → ClientErr
  | .other text => .failed (method ++ (bytes ": " ++ sanitize text)) none
  | .status st =>
    if st.code = .notFound then
      if st.message ≠ [] ∧ st.message ≠ errNotFound then
        .failed (method ++ (bytes ": " ++ (errNotFound ++ (bytes ": " ++ sanitize st.message))))
          (some .notFound)
      else .failed (method ++ (bytes ": " ++ errNotFound)) (some .notFound)
    else if st.code = .unimplemented then .failed (method ++ (bytes ": " ++ errUnsupported))
      (some .unsupported)
    else if st.code = .internal ∧ malformedMark.isPrefixOf st.message = true then
      .failed (method ++ (bytes ": " ++ (errMalformed ++ (bytes ": " ++
        sanitize (trimLeading st.message malformedMark))))) (some .malformed)
    else .failed (method ++ (bytes ": " ++ (st.code.text ++ (bytes ": " ++ sanitize st.message))))
      none

/-- `malformed`: a response that the client refuses itself. -/
def malformed (method : Bytes) (err : String) : ClientErr :=
  .failed (method ++ (bytes ": " ++ (errMalformed ++ (bytes ": " ++ bytes err)))) (some .malformed)

/-- What is made of a response, under the method's check. -/
def accept {α : Type} (method : Bytes) (check : α → Except String Unit) :
    Except RpcErr α → Except ClientErr α
  | .error err => .error (callError method err)
  | .ok resp =>
    match check resp with
    | .error err => .error (malformed method err)
    | .ok _ => .ok resp

/-- A call after the client's own check of what it is asked. -/
def asked {α : Type} (method : Bytes) (check : Except String Unit) (result : Except ClientErr α) :
    Except ClientErr α :=
  match check with
  | .error err => .error (.failed (method ++ (bytes ": " ++ bytes err)) none)
  | .ok _ => result

/-- The client's `Get`. -/
def get (rpc : Bytes → Except RpcErr Bytes) (loc : Bytes) : Except ClientErr Bytes :=
  asked (bytes "Get") (location loc) (accept (bytes "Get") value (rpc loc))

/-- The client's `List`. -/
def list (rpc : Bytes → Except RpcErr (List Bytes)) (start : Bytes) :
    Except ClientErr (List Bytes) :=
  asked (bytes "List") (prefixRule start)
    (accept (bytes "List") (PluginContract.list start) (rpc start))

/-- The client's `Health`. -/
def health (rpc : Except RpcErr HealthResponse) : Except ClientErr Bytes :=
  match accept (bytes "Health") (fun resp => detail resp.detail) rpc with
  | .error err => .error err
  | .ok resp => if resp.healthy then .ok resp.detail else .error (.unhealthy resp.detail)

/-- With what the plugin reported at start. -/
def writeCourierKey (declared : Bool) (rpc : Bytes → Bytes → Except RpcErr Unit) (loc v : Bytes) :
    Except ClientErr Unit :=
  if declared then
    asked (bytes "WriteCourierKey") (location loc) (asked (bytes "WriteCourierKey") (value v)
      (accept (bytes "WriteCourierKey") (fun _ => .ok ()) (rpc loc v)))
  else .error (.failed (bytes "WriteCourierKey" ++ (bytes ": " ++ errUnsupported))
    (some .unsupported))

end Client

/-! ## Sizes -/

/-- The lengths the contract allows take at most three bytes. -/
theorem sizeVarint_le {n : Nat} (few : n < 2097152) : sizeVarint n ≤ 3 := by
  unfold sizeVarint
  split
  · omega
  · unfold sizeVarint
    split
    · omega
    · unfold sizeVarint
      split <;> omega

theorem optionalSize_le {n : Nat} (few : n < 2097152) : optionalSize n ≤ n + 4 := by
  have short := sizeVarint_le few
  unfold optionalSize fieldSize
  split <;> omega

/-- The largest value fits into a message. -/
theorem getSize_le {v : Bytes} (accepted : value v = .ok ()) : getSize v ≤ maxMessageBytes := by
  simp only [value, bind_ok, refuse_ok] at accepted
  obtain ⟨_, _, short⟩ := accepted
  unfold maxValueBytes at short
  have bounded : optionalSize v.length ≤ v.length + 4 := optionalSize_le (by omega)
  unfold getSize maxMessageBytes
  omega

/-- A location with its tag and length takes at most four bytes more. -/
theorem listSize_each {locations : List Bytes}
    (short : ∀ loc ∈ locations, loc.length ≤ maxLocationBytes) :
    listSize locations ≤ locations.length * (maxLocationBytes + 4) := by
  induction locations with
  | nil => exact Nat.le_refl 0
  | cons loc rest ih =>
    obtain ⟨here, others⟩ := List.forall_mem_cons.mp short
    have later := ih others
    unfold maxLocationBytes at here later ⊢
    have digits : sizeVarint loc.length ≤ 3 := sizeVarint_le (by omega)
    unfold listSize at later ⊢
    rw [List.map_cons, List.sum_cons, List.length_cons, fieldSize]
    omega

/-- The largest list fits into a message. -/
theorem listSize_le {start : Bytes} {locations : List Bytes}
    (accepted : list start locations = .ok ()) :
    listSize locations ≤ maxMessageBytes := by
  obtain ⟨few, short⟩ := list_ok accepted
  have total := listSize_each short
  unfold maxListLength at few
  unfold maxLocationBytes at total
  unfold maxMessageBytes
  omega

variable {resp : HealthResponse}

/-- The largest detail fits into a message. -/
theorem healthSize_le (accepted : detail resp.detail = .ok ()) :
    healthSize resp ≤ maxMessageBytes := by
  simp only [detail, bind_ok, refuse_ok] at accepted
  obtain ⟨_, short, _⟩ := accepted
  unfold maxDetailBytes at short
  have bounded : optionalSize resp.detail.length ≤ resp.detail.length + 4 :=
    optionalSize_le (by omega)
  unfold healthSize maxMessageBytes
  split <;> omega

/-! ## Texts -/

/-- A text that may be shown: valid UTF-8 without control characters, no longer than a
detail. -/
def Relayed (s : Bytes) : Prop :=
  Utf8.validString s = true ∧ (∀ i < s.length, startsControl (s.drop i) = false) ∧
  s.length ≤ maxDetailBytes

theorem relayed_of_prints {s : Bytes} (prints : Prints s) (short : s.length ≤ maxDetailBytes) :
    Relayed s := by
  have checked : printable "" s = .ok () := printable_of_prints prints
  obtain ⟨valid, clear⟩ := printable_ok.mp checked
  exact ⟨valid, clear, short⟩

/-- The texts of the client that are its own print. -/
theorem fixed_prints : Prints (bytes ": ") ∧ Prints errNotFound ∧ Prints errUnsupported ∧
    Prints errMalformed ∧
    ∀ code : Code, Prints code.text ∧ code.text.length ≤ 18 := by
  refine ⟨prints_ascii (by decide), prints_ascii (by decide), prints_ascii (by decide),
    prints_ascii (by decide), ?_⟩
  intro code
  constructor
  · apply prints_ascii
    cases code <;> decide
  · cases code <;> decide

/-- Whatever status or error arrives, the client's error prints. -/
theorem callError_relayed {method : Bytes} (prints : Prints method) (short : method.length ≤ 15)
    (err : RpcErr) :
    Relayed (Client.callError method err).text := by
  obtain ⟨colon, notFound, unsupported, malformed, code⟩ := fixed_prints
  have lengths : (bytes ": ").length = 2 ∧ errNotFound.length = 9 ∧ errUnsupported.length = 36 ∧
      errMalformed.length = 38 := by decide
  obtain ⟨two, nine, thirtySix, thirtyEight⟩ := lengths
  have limits : maxErrorBytes = 512 ∧ maxDetailBytes = 1024 := ⟨rfl, rfl⟩
  cases err with
  | other text =>
    obtain ⟨clean, few⟩ := sanitize_prints text
    apply relayed_of_prints
    · exact prints_append prints (prints_append colon clean)
    · simp only [Client.callError, ClientErr.text, List.length_append]
      omega
  | status st =>
    obtain ⟨clean, few⟩ := sanitize_prints st.message
    obtain ⟨trimmed, fewer⟩ := sanitize_prints (trimLeading st.message malformedMark)
    obtain ⟨named, brief⟩ := code st.code
    simp only [Client.callError]
    split_ifs <;> apply relayed_of_prints <;> simp only [ClientErr.text, List.length_append]
    · exact prints_append prints
        (prints_append colon (prints_append notFound (prints_append colon clean)))
    · omega
    · exact prints_append prints (prints_append colon notFound)
    · omega
    · exact prints_append prints (prints_append colon unsupported)
    · omega
    · exact prints_append prints
        (prints_append colon (prints_append malformed (prints_append colon trimmed)))
    · omega
    · exact prints_append prints
        (prints_append colon (prints_append named (prints_append colon clean)))
    · omega

/-! ## Agreement -/

/-- The result is an error that wraps this one. -/
def Wraps {α : Type} (result : Except ClientErr α) (sentinel : Sentinel) : Prop :=
  ∃ text, result = .error (.failed text (some sentinel))

/-- What the client returns is what the Backend did: the same answer if it meets the
contract, and an error of the same kind. -/
structure Agrees {α : Type} (check : α → Except String Unit) (answer : Except Err α)
    (result : Except ClientErr α) :
    Prop where
  returned : ∀ a, result = .ok a ↔ answer = .ok a ∧ check a = .ok ()
  notFound : Wraps result .notFound ↔ ∃ err, answer = .error err ∧ err.notFound = true
  unsupported : Wraps result .unsupported ↔
    ∃ err, answer = .error err ∧ err.unsupported = true ∧ err.notFound = false
  malformed : Wraps result .malformed ↔ ∃ a, answer = .ok a ∧ check a ≠ .ok ()
  relayed : ∀ err, result = .error err → Relayed err.text

section Paths

variable {α : Type} {check : α → Except String Unit} {size : α → Nat} {method : Bytes}

/-- A status for a Backend's error comes out as an error of its kind. -/
theorem callError_toStatus (method : Bytes) (err : Err) :
    ∃ text, Client.callError method (.status (Server.toStatus err)) = .failed text
      (if err.notFound then some .notFound else if err.unsupported then some .unsupported
        else none) := by
  unfold Server.toStatus
  by_cases missing : err.notFound = true
  · simp only [if_pos missing]
    rw [Client.callError, if_pos rfl]
    split <;> exact ⟨_, rfl⟩
  · by_cases lacking : err.unsupported = true
    · simp [missing, lacking, Client.callError]
    · simp [missing, lacking, Client.callError]

/-- A status for a refused answer comes out as a malformed one. -/
theorem callError_malformed (method : Bytes) (err : String) :
    ∃ text, Client.callError method (.status (Server.malformed err)) =
      .failed text (some .malformed) := by
  have marked : malformedMark.isPrefixOf (malformedMark ++ bytes err) = true := by simp
  simp [Server.malformed, Client.callError, marked]

/-- What the server sends passes the method's check. -/
theorem respond_ok {answer : Except Err α} {resp : α}
    (sent : Server.respond check answer = .ok resp) :
    answer = .ok resp ∧ check resp = .ok () := by
  cases answer with
  | error err => simp [Server.respond] at sent
  | ok a =>
    simp only [Server.respond] at sent
    split at sent
    · simp at sent
    · next passed =>
      cases sent
      exact ⟨rfl, passed⟩

/-- The two checks agree on the whole path, if what passes them fits into a message. -/
theorem agrees_path (prints : Prints method) (short : method.length ≤ 15)
    (fits : ∀ a, check a = .ok () → size a ≤ maxMessageBytes) (answer : Except Err α) :
    Agrees check answer
      (Client.accept method check (carry size (Server.respond check answer))) := by
  cases answer with
  | error err =>
    obtain ⟨text, called⟩ := callError_toStatus method err
    have relayed := callError_relayed prints short (.status (Server.toStatus err))
    have path : Client.accept method check (carry size (Server.respond check (.error err))) =
        .error (Client.callError method (.status (Server.toStatus err))) := rfl
    rw [path, called]
    rw [called] at relayed
    refine ⟨by simp, ?_, ?_, ?_, ?_⟩
    · obtain ⟨_, missing, lacking⟩ := err
      cases missing <;> cases lacking <;> simp [Wraps]
    · obtain ⟨_, missing, lacking⟩ := err
      cases missing <;> cases lacking <;> simp [Wraps]
    · obtain ⟨_, missing, lacking⟩ := err
      cases missing <;> cases lacking <;> simp [Wraps]
    · rintro other ⟨⟩
      exact relayed
  | ok a =>
    cases checked : check a with
    | ok done =>
      have path : Client.accept method check (carry size (Server.respond check (.ok a))) =
          .ok a := by
        simp [Server.respond, checked, carry, Nat.not_lt.mpr (fits a checked), Client.accept]
      rw [path]
      refine ⟨?_, by simp [Wraps], by simp [Wraps], ?_, by simp⟩
      · intro b
        constructor
        · rintro ⟨⟩
          exact ⟨rfl, checked⟩
        · rintro ⟨⟨⟩, _⟩
          rfl
      · simp [Wraps, checked]
    | error err =>
      obtain ⟨text, called⟩ := callError_malformed method err
      have relayed := callError_relayed prints short (.status (Server.malformed err))
      have path : Client.accept method check (carry size (Server.respond check (.ok a))) =
          .error (Client.callError method (.status (Server.malformed err))) := by
        simp [Server.respond, checked, carry, Client.accept]
      rw [path, called]
      rw [called] at relayed
      refine ⟨?_, by simp [Wraps], by simp [Wraps], ?_, ?_⟩
      · intro b
        constructor
        · rintro ⟨⟩
        · rintro ⟨⟨⟩, passed⟩
          simp [checked] at passed
      · simp [Wraps, checked]
      · rintro other ⟨⟩
        exact relayed

end Paths

/-! ## The four calls -/

/-- What the client's calls come to over a faithful transport. -/
def callGet (b : Backend) (loc : Bytes) : Except ClientErr Bytes :=
  Client.get (fun loc => carry getSize (Server.get b loc)) loc

/-- `List`, from the client through the server to the Backend. -/
def callList (b : Backend) (start : Bytes) : Except ClientErr (List Bytes) :=
  Client.list (fun start => carry listSize (Server.list b start)) start

/-- `Health`, over the same way. -/
def callHealth (b : Backend) : Except ClientErr Bytes :=
  Client.health (carry healthSize (Server.health b))

/-- `WriteCourierKey`, if the plugin declared it. -/
def callWriteCourierKey (declared : Bool) (b : Backend) (loc v : Bytes) : Except ClientErr Unit :=
  Client.writeCourierKey declared (fun loc v => carry (fun _ => 0) (Server.writeCourierKey b loc v))
    loc v

/-- The write as the server reaches it: only with the capability, declared at start and
still there, and a Backend that can. -/
def writeAnswer (declared : Bool) (b : Backend) (loc v : Bytes) : Option (Except Err Unit) :=
  match declared, b.courierKeyWrite, b.writeCourierKey with
  | true, true, some write =>
    some (match write loc v with
      | some err => .error err
      | none => .ok ())
  | _, _, _ => none

section Calls

variable {b : Backend}

theorem get_agrees {loc : Bytes} (asked : location loc = .ok ()) : Agrees value (b.get loc)
    (callGet b loc) := by
  have path : callGet b loc = Client.accept (bytes "Get") value
      (carry getSize (Server.respond value (b.get loc))) := by
    simp [callGet, Client.get, Client.asked, Server.get, Server.requested, asked]
  rw [path]
  exact agrees_path (prints_ascii (by decide)) (by decide) (fun _ => getSize_le) _

theorem list_agrees {start : Bytes} (asked : prefixRule start = .ok ()) :
    Agrees (list start) (b.list start) (callList b start) := by
  have path : callList b start =
      Client.accept (bytes "List") (list start)
        (carry listSize (Server.respond (list start) (b.list start))) := by
    simp [callList, Client.list, Client.asked, Server.list, Server.requested, asked]
  rw [path]
  exact agrees_path (prints_ascii (by decide)) (by decide) (fun _ => listSize_le) _

/-- The client's text for what is not supported. -/
theorem unsupported_relayed : Relayed (bytes "WriteCourierKey" ++ (bytes ": " ++ errUnsupported)) :=
  callError_relayed (prints_ascii (by decide)) (by decide) (.status ⟨.unimplemented, []⟩)

/-- A write that the server reaches agrees. -/
theorem write_agrees {declared : Bool} {loc v : Bytes} {answer : Except Err Unit}
    (asked : location loc = .ok ()) (given : value v = .ok ())
    (reached : writeAnswer declared b loc v = some answer) :
    Agrees (fun _ => .ok ()) answer (callWriteCourierKey declared b loc v) := by
  unfold writeAnswer at reached
  split at reached
  · next write capable able =>
    have path : callWriteCourierKey true b loc v =
        Client.accept (bytes "WriteCourierKey") (fun _ => .ok ())
          (carry (fun _ => 0) (Server.respond (fun _ => .ok ()) answer)) := by
      cases reached
      simp only [callWriteCourierKey, Client.writeCourierKey, Client.asked, Server.writeCourierKey,
        Server.requested, asked, given, capable, able, if_true]
      cases write loc v <;> rfl
    rw [path]
    exact agrees_path (prints_ascii (by decide)) (by decide) (fun _ _ => Nat.zero_le _) _
  · simp at reached

/-- A write without the capability is not supported. -/
theorem write_unreached {declared : Bool} {loc v : Bytes} (asked : location loc = .ok ())
    (given : value v = .ok ()) (lacking : writeAnswer declared b loc v = none) :
    callWriteCourierKey declared b loc v =
      .error (.failed (bytes "WriteCourierKey" ++ (bytes ": " ++ errUnsupported))
        (some .unsupported)) := by
  unfold writeAnswer at lacking
  cases declared with
  | false => rfl
  | true =>
    simp only [callWriteCourierKey, Client.writeCourierKey, Client.asked, asked, given, if_true]
    cases able : b.writeCourierKey with
    | none => simp [Server.writeCourierKey, able, carry, Client.accept, Client.callError]
    | some write =>
      cases capable : b.courierKeyWrite with
      | false =>
        simp [Server.writeCourierKey, able, capable, carry, Client.accept, Client.callError]
      | true => simp [able, capable] at lacking

/-- The detail of every health response passes the check. -/
theorem health_sent (sent : Server.health b = .ok resp) : detail resp.detail = .ok () := by
  unfold Server.health at sent
  split at sent
  · simp at sent
  · next passed _ =>
    cases sent
    exact passed
  · cases sent
    obtain ⟨prints, short⟩ := sanitize_prints _
    simp only [detail, bind_ok, refuse_ok]
    refine ⟨(), ?_, printable_of_prints prints⟩
    have limits : maxErrorBytes = 512 ∧ maxDetailBytes = 1024 := ⟨rfl, rfl⟩
    omega

/-- The text of an unhealthy report prints if its detail does. -/
theorem unhealthy_relayed {d : Bytes} (prints : Prints d) (short : d.length ≤ maxErrorBytes + 6) :
    Relayed (ClientErr.unhealthy d).text := by
  have lead : (bytes "unhealthy: ").length = 11 := by decide
  have limits : maxErrorBytes = 512 ∧ maxDetailBytes = 1024 := ⟨rfl, rfl⟩
  rw [ClientErr.text]
  split
  · exact relayed_of_prints (prints_ascii (by decide)) (by decide)
  · refine relayed_of_prints (prints_append (prints_ascii (by decide)) prints) ?_
    rw [List.length_append]
    omega

/-- A health response is taken as it was sent. -/
theorem health_received (sent : Server.health b = .ok resp) :
    callHealth b = if resp.healthy then .ok resp.detail else .error (.unhealthy resp.detail) := by
  have passed := health_sent sent
  have fits := healthSize_le passed
  simp [callHealth, sent, carry, Nat.not_lt.mpr fits, Client.health, Client.accept, passed]

/-- What the client says of a Backend's health is what the Backend said. -/
structure HealthAgrees (b : Backend) (result : Except ClientErr Bytes) : Prop where
  returned : ∀ d, result = .ok d ↔ d = b.health.1 ∧ detail b.health.1 = .ok () ∧ b.health.2 = none
  malformed : Wraps result .malformed ↔ detail b.health.1 ≠ .ok ()
  unhealthy : (∃ d, result = .error (.unhealthy d)) ↔ detail b.health.1 = .ok () ∧
  ∃ err, b.health.2 = some err
  relayed : ∀ err, result = .error err → Relayed err.text

/-- `Health` says what the Backend says. -/
theorem health_agrees : HealthAgrees b (callHealth b) := by
  cases checked : detail b.health.1 with
  | error err =>
    obtain ⟨text, called⟩ := callError_malformed (bytes "Health") err
    have relayed :
        Relayed (Client.callError (bytes "Health") (.status (Server.malformed err))).text :=
      callError_relayed (prints_ascii (by decide)) (by decide) _
    have path : callHealth b =
        .error (Client.callError (bytes "Health") (.status (Server.malformed err))) := by
      simp [callHealth, Server.health, checked, carry, Client.health, Client.accept]
    rw [path, called]
    rw [called] at relayed
    refine ⟨by simp [checked], by simp [Wraps, checked], by simp [checked], ?_⟩
    rintro other ⟨⟩
    exact relayed
  | ok done =>
    cases failing : b.health.2 with
    | none =>
      have path : callHealth b = .ok b.health.1 := by
        rw [health_received (by simp only [Server.health, checked, failing]; rfl)]
        rfl
      rw [path]
      refine ⟨?_, by simp [Wraps, checked], by simp [failing], by simp⟩
      intro d
      rw [checked, failing]
      constructor
      · rintro ⟨⟩
        exact ⟨rfl, rfl, rfl⟩
      · rintro ⟨rfl, _⟩
        rfl
    | some err =>
      let resp : HealthResponse :=
        { healthy := false
          detail :=
            sanitize (err.text ++ if b.health.1 = [] then [] else bytes " (" ++ b.health.1 ++
              bytes ")") }
      have sent : Server.health b = .ok resp := by
        simp only [Server.health, checked, failing]
        rfl
      have path : callHealth b = .error (.unhealthy resp.detail) := by
        rw [health_received sent]
        rfl
      rw [path]
      refine ⟨by simp [failing], by simp [Wraps, checked], by simp [checked, failing], ?_⟩
      rintro other ⟨⟩
      exact unhealthy_relayed (sanitize_prints _).1 (sanitize_prints _).2

end Calls

/-- What the SDK's server sends for any Backend, the core's client takes, and what the
client returns is what the Backend did. No response is larger than the client takes, and
each passes the check that the client makes of it. `Get` and `List` return the Backend's
answer if it meets the contract and else an error of its kind; so does `WriteCourierKey`
where the capability is there, and is unsupported where it is not; `Health` tells a broken
detail, an unhealthy Backend and a healthy one apart. Every text that the client relays is
valid UTF-8 without control characters, no longer than a health detail.

Proof: both sides make the same check, each kind of error has a status code of its own, and
only an answer that was refused is sent with the mark. -/
theorem plugin_contract_agrees (b : Backend) (declared : Bool) :
    (∀ loc, location loc = .ok () →
      (∀ resp, Server.get b loc = .ok resp → getSize resp ≤ maxMessageBytes ∧ value resp = .ok ()) ∧
      Agrees value (b.get loc) (callGet b loc)) ∧
    (∀ start, prefixRule start = .ok () →
      (∀ resp, Server.list b start = .ok resp → listSize resp ≤ maxMessageBytes ∧
        list start resp = .ok ()) ∧
      Agrees (list start) (b.list start) (callList b start)) ∧
    (∀ loc v, location loc = .ok () → value v = .ok () →
      (∀ answer, writeAnswer declared b loc v = some answer →
        Agrees (fun _ => .ok ()) answer (callWriteCourierKey declared b loc v)) ∧
      (writeAnswer declared b loc v = none → ∃ text,
        callWriteCourierKey declared b loc v = .error (.failed text (some .unsupported)) ∧
        Relayed text)) ∧
    (∀ resp, Server.health b = .ok resp → healthSize resp ≤ maxMessageBytes ∧
      detail resp.detail = .ok ()) ∧
    HealthAgrees b (callHealth b) := by
  refine ⟨?_, ?_, ?_, ?_, health_agrees⟩
  · intro loc asked
    refine ⟨fun resp sent => ?_, get_agrees asked⟩
    simp only [Server.get, Server.requested, asked] at sent
    obtain ⟨_, passed⟩ := respond_ok sent
    exact ⟨getSize_le passed, passed⟩
  · intro start asked
    refine ⟨fun resp sent => ?_, list_agrees asked⟩
    simp only [Server.list, Server.requested, asked] at sent
    obtain ⟨_, passed⟩ := respond_ok sent
    exact ⟨listSize_le passed, passed⟩
  · intro loc v asked given
    exact ⟨fun answer reached => write_agrees asked given reached,
      fun lacking => ⟨_, write_unreached asked given lacking, unsupported_relayed⟩⟩
  · intro resp sent
    have passed := health_sent sent
    exact ⟨healthSize_le passed, passed⟩

/-- A Backend whose error wraps both errors, with a text that is no text, and that lists a
location outside the prefix it is asked for. -/
def hostile : Backend where
  get := fun _ => .error ⟨[0xFF, 0x0A], true, true⟩
  list := fun _ => .ok [bytes "elsewhere"]
  health := ([0x07], none)
  courierKeyWrite := true
  writeCourierKey := none

/-- What the client makes of it. -/
theorem plugin_contract_agrees_hostile : location (bytes "kv/x") = .ok () ∧
    Wraps (callGet hostile (bytes "kv/x")) .notFound ∧
    ¬ Wraps (callGet hostile (bytes "kv/x")) .unsupported ∧
    Wraps (callList hostile (bytes "kv/x")) .malformed ∧ Wraps (callHealth hostile) .malformed ∧
    Wraps (callWriteCourierKey true hostile (bytes "kv/x") (bytes "v")) .unsupported := by
  have asked : location (bytes "kv/x") = .ok () := by decide +kernel
  have given : value (bytes "v") = .ok () := by decide +kernel
  obtain ⟨get, list, write, _, health⟩ := plugin_contract_agrees hostile true
  refine ⟨asked, ?_, ?_, ?_, ?_, ?_⟩
  · exact (get _ asked).2.notFound.mpr ⟨_, rfl, rfl⟩
  · rw [(get _ asked).2.unsupported]
    rintro ⟨err, ⟨⟩, _, found⟩
    cases found
  · exact (list (bytes "kv/x") asked).2.malformed.mpr ⟨_, rfl, by decide +kernel⟩
  · exact health.malformed.mpr (by decide +kernel)
  · obtain ⟨text, unsupported, _⟩ := (write _ _ asked given).2 rfl
    exact ⟨text, unsupported⟩

end TrustedCourier.PluginContract
