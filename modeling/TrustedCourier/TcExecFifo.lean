import TrustedCourier.JsonDecode
import TrustedCourier.TcExecOutput

/-!
# Replies of tc-exec through a FIFO and through a socket

The broker writes the same line to either: the reply as JSON and a newline. Over the
socket the client reads one value. Over the FIFO it collects reads until one ends in a
newline, within a bound on the whole line, and then also bounds the output it decoded.
However the line is cut into writes and reads, what is collected is the line, because a
newline stands at its end only, and the bound on the line never strikes, because a byte is
written as at most six. The second bound does: an ill-formed byte is decoded as three.

Neither side is cancelled here and no time runs out.
-/

namespace TrustedCourier.TcExec

open JsonDecode List

/-! ## The line -/

/-- A member that is left out when it has its zero value. -/
def omitempty (name : String) (empty : Bool) (text : Bytes) : List (Bytes × Bytes) :=
  if empty then [] else [(bytes name, text)]

/-- The reference in JSON. -/
def MailboxRef.marshal (ref : MailboxRef) : Bytes :=
  object [(bytes "path", Json.appendString ref.path), (bytes "device", Decimal.digits ref.device),
    (bytes "request_inode", Decimal.digits ref.request),
    (bytes "response_inode", Decimal.digits ref.response)]

/-- `json.Marshal` of a reply. -/
def Reply.marshal (r : Reply) : Bytes :=
  object (omitempty "job" r.job.isEmpty (Json.appendString r.job) ++
    omitempty "mailbox" r.mailbox.isNone ((r.mailbox.map MailboxRef.marshal).getD []) ++
    omitempty "status" (r.status == 0) (Decimal.signed 0 r.status) ++
    omitempty "output" r.output.isEmpty (Json.appendString r.output) ++
    omitempty "truncated" (!r.truncated) (bytes "true") ++
    omitempty "error" r.error.isEmpty (Json.appendString r.error))

/-- What the broker writes: `json.NewEncoder(conn).Encode` on a socket, and on a FIFO the
same with the newline appended. -/
def Reply.line (r : Reply) : Bytes := r.marshal ++ [0x0A]

section

-- The rune that stands for those that differ from a rune in letter case only.
variable (fold : Bytes → Bytes)

/-- A member of a reference's object, by its name. -/
def MailboxRef.decode (ref : MailboxRef) (entry : Bytes × Doc) : Option MailboxRef :=
  let field := fieldOf fold (["path", "device", "request_inode", "response_inode"].map bytes)
    entry.1
  if field = some (bytes "path") then (textInto ref.path entry.2).map ({ ref with path := · })
  else if field = some (bytes "device") then
    (uintInto ref.device entry.2).map ({ ref with device := · })
  else if field = some (bytes "request_inode") then
    (uintInto ref.request entry.2).map ({ ref with request := · })
  else if field = some (bytes "response_inode") then
    (uintInto ref.response entry.2).map ({ ref with response := · })
  else some ref

/-- A reference where there may be one already. -/
def mailboxInto (old : Option MailboxRef) : Doc → Option (Option MailboxRef)
  | .null => some none
  | .object members => (members.foldlM (MailboxRef.decode fold) (old.getD ⟨[], 0, 0, 0⟩)).map some
  | _ => none

/-- A member of a reply's object, by its name. -/
def Reply.decode (r : Reply) (entry : Bytes × Doc) : Option Reply :=
  let field := fieldOf fold (["job", "mailbox", "status", "output", "truncated", "error"].map bytes)
    entry.1
  if field = some (bytes "job") then (textInto r.job entry.2).map ({ r with job := · })
  else if field = some (bytes "mailbox") then
    (mailboxInto fold r.mailbox entry.2).map ({ r with mailbox := · })
  else if field = some (bytes "status") then (intInto r.status entry.2).map ({ r with status := · })
  else if field = some (bytes "output") then
    (textInto r.output entry.2).map ({ r with output := · })
  else if field = some (bytes "truncated") then
    (boolInto r.truncated entry.2).map ({ r with truncated := · })
  else if field = some (bytes "error") then (textInto r.error entry.2).map ({ r with error := · })
  else some r

/-- A value into a new reply. -/
def replyOf : Doc → Option Reply
  | .null => some {}
  | .object members => members.foldlM (Reply.decode fold) {}
  | _ => none

/-- `decoder.Decode` into a reply, and what it leaves. -/
def decode (input : Bytes) : Option (Reply × Bytes) := do
  let (doc, rest) ← readValue maxNestingDepth input
  let reply ← replyOf fold doc
  some (reply, rest)

/-- `call`, given all that the broker writes to the socket. -/
def call (stream : Bytes) : Option Reply := (decode fold stream).map Prod.fst

/-! ## The FIFO -/

/-- Why a dispatch fails: a text of its own, or an error of the JSON decoder. -/
inductive DispatchErr where
  | text (s : String)
  | json
deriving DecidableEq

/-- `dispatchMailbox` once it has left the loop. -/
def finish (output : Bytes) : Except DispatchErr Reply :=
  match decode fold output with
  | none => .error .json
  | some (result, rest) =>
    if skipSpace rest ≠ [] then .error (.text "trailing mailbox reply data")
    else if outputLimit < result.output.length ∨ 0 ∈ result.job then
      .error (.text "invalid mailbox reply")
    else .ok result

/-- A reply on its way: what `writeFIFO` has left, what is in the FIFO, whether the broker has
closed it, what `dispatchMailbox` has read, and what it returned. -/
structure Fifo where
  data : Bytes
  pipe : Bytes := []
  closed : Bool := false
  output : Bytes := []
  returned : Option (Except DispatchErr Reply) := none

/-- What happens next: a write that takes some bytes or none, the broker's close, or a read
that gets some bytes or none. -/
inductive Turn where
  | write (n : Nat)
  | close
  | read (n : Nat)

/-- The client's loop on what a read got. -/
def Fifo.receive (s : Fifo) (chunk : Bytes) : Fifo :=
  let output := s.output ++ chunk
  { s with
    pipe := s.pipe.drop chunk.length
    output := output
    returned :=
      if outputLimit * 6 + 4096 < output.length then some (.error (.text "oversized mailbox reply"))
      else if chunk.getLast? = some 0x0A then some (finish fold output)
      else none }

/-- One turn of the broker or of the client. -/
def Fifo.step (s : Fifo) : Turn → Fifo
  | .write n => { s with data := s.data.drop n, pipe := s.pipe ++ s.data.take n }
  -- The broker closes once everything is written.
  | .close => if s.data = [] then { s with closed := true } else s
  | .read n =>
    if s.returned.isSome then s
    else if s.pipe = [] ∧ s.closed then
      { s with returned := some (.error (.text "broker closed mailbox before replying")) }
    else if min n 8192 = 0 ∨ s.pipe = [] then s
    else s.receive fold (s.pipe.take (min n 8192))

/-- The reply of a broker, through these turns. -/
def dispatchMailbox (reply : Reply) (turns : List Turn) : Fifo :=
  turns.foldl (Fifo.step fold) { data := reply.line }

/-- Everything that was written has been read, as far as the FIFO goes. -/
def Fifo.Delivered (s : Fifo) : Prop := s.data = [] ∧ s.pipe = []

/-- What is read, in the FIFO and not yet written makes up the line, and the client returns
when it has read it all. -/
structure Fifo.Carries (s : Fifo) (line : Bytes) : Prop where
  whole : s.output ++ s.pipe ++ s.data = line
  closed : s.closed = true → s.data = []
  returned : s.returned = if s.output = line then some (finish fold line) else none

variable {fold}

/-- A front of a line that ends in the newline is the line. -/
theorem line_ends {body output rest : Bytes} (single : 0x0A ∉ body)
    (front : output ++ rest = body ++ [0x0A]) (nonempty : output ≠ []) :
    output.getLast? = some 0x0A ↔ output = body ++ [0x0A] := by
  constructor
  · intro last
    rcases eq_nil_or_concat rest with rfl | ⟨more, final, rfl⟩
    · rwa [append_nil] at front
    · rw [concat_eq_append, ← append_assoc] at front
      have inside : output ++ more = body := (append_inj' front rfl).1
      have member : 0x0A ∈ output := mem_of_getLast? last
      exact absurd (by rw [← inside]; exact mem_append_left _ member) single
  · rintro rfl
    exact getLast?_concat

/-- Every turn carries the line on. -/
theorem Fifo.Carries.step {s : Fifo} {body : Bytes} (single : 0x0A ∉ body)
    (bounded : (body ++ [0x0A]).length ≤ outputLimit * 6 + 4096)
    (carries : s.Carries fold (body ++ [0x0A])) (turn : Turn) :
    (s.step fold turn).Carries fold (body ++ [0x0A]) := by
  obtain ⟨whole, closed, returned⟩ := carries
  cases turn with
  | write n =>
    refine ⟨?_, ?_, returned⟩
    · rw [← whole, Fifo.step, append_assoc, append_assoc, append_assoc, take_append_drop]
    · intro shut
      rw [Fifo.step, closed shut, drop_nil]
  | close =>
    rw [Fifo.step]
    split
    · next written => exact ⟨whole, fun _ => written, returned⟩
    · exact ⟨whole, closed, returned⟩
  | read n =>
    rw [Fifo.step]
    split
    · exact ⟨whole, closed, returned⟩
    next running =>
    -- The client is in its loop, so something is left to read.
    have unread : s.output ≠ body ++ [0x0A] := by
      intro all
      rw [returned, if_pos all] at running
      exact running rfl
    split
    · next ended =>
      rw [ended.1, closed ended.2, append_nil, append_nil] at whole
      exact absurd whole unread
    split
    · exact ⟨whole, closed, returned⟩
    next some_ =>
    obtain ⟨positive, nonempty⟩ := not_or.mp some_
    have chunk : s.pipe.take (min n 8192) ≠ [] := by
      rw [Ne, take_eq_nil_iff, not_or]
      exact ⟨positive, nonempty⟩
    have front : (s.output ++ s.pipe.take (min n 8192)) ++ (s.pipe.drop (min n 8192) ++ s.data) =
        body ++ [0x0A] := by
      rw [← whole, append_assoc, ← append_assoc (s.pipe.take _), take_append_drop, append_assoc]
    have left : s.pipe.drop (s.pipe.take (min n 8192)).length = s.pipe.drop (min n 8192) := by
      rw [drop_eq_drop_iff, length_take]
      omega
    generalize s.pipe.take (min n 8192) = got at chunk front left
    have short : ¬ outputLimit * 6 + 4096 < (s.output ++ got).length := by
      have size := congrArg List.length front
      rw [length_append] at size
      omega
    have last : got.getLast? = some 0x0A ↔ s.output ++ got = body ++ [0x0A] := by
      rw [← line_ends single front (by simp [chunk]), getLast?_append_of_ne_nil _ chunk]
    refine ⟨?_, closed, ?_⟩
    · simp only [Fifo.receive, left]
      rw [append_assoc]
      exact front
    · rw [Fifo.receive]
      simp only [if_neg short, last]
      split
      · next all => rw [all]
      · rfl

variable (fold) in
/-- Whatever turns it takes, a line arrives as it is. -/
theorem dispatchMailbox_carries {reply : Reply} (single : 0x0A ∉ reply.marshal)
    (bounded : reply.line.length ≤ outputLimit * 6 + 4096) (turns : List Turn) :
    (dispatchMailbox fold reply turns).Carries fold reply.line := by
  have general : ∀ (turns : List Turn) (s : Fifo), s.Carries fold reply.line →
      (turns.foldl (Fifo.step fold) s).Carries fold reply.line := by
    intro turns
    induction turns with
    | nil => exact fun s carries => carries
    | cons turn turns ih => exact fun s carries => ih _ (carries.step single bounded turn)
  refine general turns _ ⟨rfl, Bool.noConfusion, ?_⟩
  rw [if_neg (by simp [Reply.line])]

/-! ## Reading the line back -/

/-- A reply as it is read back. -/
def Reply.coerced (r : Reply) : Reply :=
  { r with job := coerce r.job, output := coerce r.output, error := coerce r.error }

/-- A member that is left out when it has its zero value, with what it is read as. -/
def omitemptyDoc (name : String) (empty : Bool) (text : Bytes) (doc : Doc) :
    List (Bytes × Bytes × Doc) :=
  if empty then [] else [(bytes name, text, doc)]

theorem omitemptyDoc_text (name : String) (empty : Bool) (text : Bytes) (doc : Doc) :
    (omitemptyDoc name empty text doc).map (fun entry => (entry.1, entry.2.1)) =
      omitempty name empty text := by
  cases empty <;> rfl

theorem omitemptyDoc_reads {depth : Nat} {text : Bytes} {doc : Doc} (reads : Reads depth text doc)
    (name : String) (empty : Bool) : ∀ entry ∈ omitemptyDoc name empty text doc,
      Reads depth entry.2.1 entry.2.2 := by
  intro entry member
  unfold omitemptyDoc at member
  split at member
  · exact absurd member not_mem_nil
  · obtain rfl := mem_singleton.mp member
    exact reads

/-- A member is set, or left out because the reply has its value already. -/
theorem omitemptyDoc_decode {name : String} {empty : Bool} {text : Bytes} {doc : Doc}
    (r next : Reply) (set : empty = false → r.decode fold (coerce (bytes name), doc) = some next)
    (blank : empty = true → next = r) :
    ((omitemptyDoc name empty text doc).map fun entry => (coerce entry.1, entry.2.2)).foldlM
      (Reply.decode fold) r = some next := by
  cases empty with
  | true => rw [blank rfl]; rfl
  | false => simp [omitemptyDoc, set]

/-- The members of a reply without a mailbox. -/
def Reply.docs (r : Reply) : List (Bytes × Bytes × Doc) :=
  omitemptyDoc "job" r.job.isEmpty (Json.appendString r.job) (.text (coerce r.job)) ++
    omitemptyDoc "status" (r.status == 0) (Decimal.signed 0 r.status)
      (.number (Decimal.signed 0 r.status)) ++
    omitemptyDoc "output" r.output.isEmpty (Json.appendString r.output) (.text (coerce r.output)) ++
    omitemptyDoc "truncated" (!r.truncated) (bytes "true") (.bool true) ++
    omitemptyDoc "error" r.error.isEmpty (Json.appendString r.error) (.text (coerce r.error))

variable {r : Reply}

section

variable (local_ : r.mailbox = none)
include local_

theorem marshal_docs :
    r.marshal = object (r.docs.map fun entry => (entry.1, entry.2.1)) := by
  have nowhere : omitempty "mailbox" r.mailbox.isNone ((r.mailbox.map MailboxRef.marshal).getD []) =
      [] := by
    rw [local_]
    rfl
  rw [Reply.marshal, nowhere, append_nil]
  simp only [Reply.docs, map_append, omitemptyDoc_text]

/-- A reply without a mailbox is decoded as it was, but for its ill-formed bytes. -/
theorem replyOf_docs (low : -2 ^ 63 ≤ r.status) (high : r.status < 2 ^ 63) :
    replyOf fold (.object (r.docs.map fun entry => (coerce entry.1, entry.2.2))) =
      some r.coerced := by
  obtain ⟨job, mailbox, status, output, truncated, error⟩ := r
  obtain rfl : mailbox = none := local_
  have nothing : ∀ s : Bytes, s.isEmpty = true → coerce s = [] := by
    intro s empty
    rw [isEmpty_iff.mp empty]
    rfl
  have number : Reply.decode fold { job := coerce job }
      (coerce (bytes "status"), .number (Decimal.signed 0 status)) =
      some { job := coerce job, status := status } :=
    congrArg (Option.map _) (parseInt_signed low high)
  have flag : (!truncated) = false →
      Reply.decode fold { job := coerce job, status := status, output := coerce output }
      (coerce (bytes "truncated"), .bool true) =
      some
        { job := coerce job, status := status, output := coerce output,
          truncated := truncated } := by
    intro set
    rw [Bool.not_eq_false'] at set
    subst set
    rfl
  simp only [replyOf, Reply.docs, map_append, foldlM_append, Option.bind_eq_bind]
  rw [omitemptyDoc_decode {} { job := coerce job } (fun _ => rfl)
    (fun empty => by rw [nothing job empty]),
    Option.bind_some,
    omitemptyDoc_decode _ { job := coerce job, status := status } (fun _ => number)
      (fun zero => by rw [beq_iff_eq.mp zero]),
    Option.bind_some,
    omitemptyDoc_decode _ { job := coerce job, status := status, output := coerce output }
      (fun _ => rfl) (fun empty => by rw [nothing output empty]),
    Option.bind_some, omitemptyDoc_decode _ _ flag (fun unset => by simpa using unset),
    Option.bind_some,
    omitemptyDoc_decode _ (Reply.coerced ⟨job, none, status, output, truncated, error⟩)
      (fun _ => rfl) (fun empty => by rw [Reply.coerced, nothing error empty])]

/-- What the broker writes is read back as one value, but for ill-formed bytes. -/
theorem decode_line (low : -2 ^ 63 ≤ r.status) (high : r.status < 2 ^ 63) :
    decode fold r.line = some (r.coerced, [0x0A]) := by
  have each : ∀ entry ∈ r.docs, Reads 9999 entry.2.1 entry.2.2 := by
    intro entry member
    simp only [Reply.docs, mem_append] at member
    rcases member with (((job | status) | output) | truncated) | error
    · exact omitemptyDoc_reads (text_reads _ r.job) _ _ entry job
    · exact omitemptyDoc_reads (number_reads _ r.status) _ _ entry status
    · exact omitemptyDoc_reads (text_reads _ r.output) _ _ entry output
    · exact omitemptyDoc_reads (true_reads _) _ _ entry truncated
    · exact omitemptyDoc_reads (text_reads _ r.error) _ _ entry error
  have ends : After [0x0A] := by
    intro c first
    cases first
    decide
  have read : readValue maxNestingDepth r.line =
      some (.object (r.docs.map fun entry => (coerce entry.1, entry.2.2)), [0x0A]) := by
    rw [Reply.line, marshal_docs local_]
    exact object_reads r.docs each [0x0A] ends
  simp only [decode, Option.bind_eq_bind, read, Option.bind_some, replyOf_docs local_ low high]

/-- What `dispatchMailbox` makes of a line it has read. -/
theorem finish_line (low : -2 ^ 63 ≤ r.status) (high : r.status < 2 ^ 63)
    (anonymous : r.job = []) : finish fold r.line =
      if r.output.length + 2 * illFormed r.output ≤ outputLimit then .ok r.coerced
      else .error (.text "invalid mailbox reply") := by
  have blank : skipSpace [0x0A] = [] := by decide
  have nameless : r.coerced.job = [] := by rw [Reply.coerced, anonymous]; rfl
  have size : r.coerced.output.length = r.output.length + 2 * illFormed r.output :=
    length_coerce r.output
  simp only [finish, decode_line local_ low high, blank, ne_eq, not_true_eq_false, if_false,
    nameless, not_mem_nil, or_false, size]
  split
  · next long => rw [if_neg (by omega)]
  · next short => rw [if_pos (by omega)]

/-! ## How long a line is -/

/-- A reply is written on one line. -/
theorem newline_not_mem_marshal : 0x0A ∉ r.marshal := by
  rw [marshal_docs local_]
  apply control_not_mem_object (by decide)
  have each : ∀ (name : String) (empty : Bool) {text : Bytes} (doc : Doc), 0x0A ∉ text →
      ∀ entry ∈ omitemptyDoc name empty text doc, 0x0A ∉ entry.2.1 := by
    intro name empty text doc single entry member
    cases empty with
    | true => exact absurd member not_mem_nil
    | false =>
      obtain rfl := mem_singleton.mp member
      exact single
  have number : 0x0A ∉ Decimal.signed 0 r.status := by
    intro member
    rcases Decimal.signed_bytes 0 r.status _ member with sign | digit
    · exact absurd sign (by decide)
    · exact absurd digit (by decide)
  intro entry member
  obtain ⟨doc, listed, rfl⟩ := mem_map.mp member
  simp only [Reply.docs, mem_append] at listed
  rcases listed with (((job | status) | output) | truncated) | error
  · exact each _ _ _ (Json.control_not_mem_appendString (by decide) r.job) doc job
  · exact each _ _ _ number doc status
  · exact each _ _ _ (Json.control_not_mem_appendString (by decide) r.output) doc output
  · exact each _ _ _ (by decide) doc truncated
  · exact each _ _ _ (Json.control_not_mem_appendString (by decide) r.error) doc error

/-- A reply takes six bytes for each byte of its texts, and little more. -/
theorem length_line (low : -2 ^ 63 ≤ r.status) (high : r.status < 2 ^ 63) :
    r.line.length ≤ 6 * (r.job.length + r.output.length + r.error.length) + 100 := by
  have each : ∀ (name : String) (empty : Bool) (text : Bytes) (doc : Doc),
      ((omitemptyDoc name empty text doc).map fun entry =>
        (Json.appendString entry.1).length + entry.2.1.length + 2).sum ≤
        (Json.appendString (bytes name)).length + text.length + 2 := by
    intro name empty text doc
    cases empty with
    | true => exact Nat.zero_le _
    | false => exact Nat.le_refl _
  have names : (Json.appendString (bytes "job")).length = 5 ∧
    (Json.appendString (bytes "status")).length = 8 ∧
      (Json.appendString (bytes "output")).length = 8 ∧
      (Json.appendString (bytes "truncated")).length = 11 ∧
      (Json.appendString (bytes "error")).length = 7 ∧ (bytes "true").length = 4 := by decide
  have digits : (Decimal.digits r.status.natAbs).length ≤ 20 := by
    rw [Decimal.digits, length_map, Nat.length_toDigits_le_iff (by decide) (by decide)]
    omega
  have number : (Decimal.signed 0 r.status).length ≤ 21 := by
    have bare : Decimal.padded 0 r.status.natAbs =
        Decimal.digits r.status.natAbs := by simp [Decimal.padded]
    rw [Decimal.signed, bare]
    split
    · rw [length_cons]
      omega
    · omega
  have whole := length_object (r.docs.map fun entry => (entry.1, entry.2.1))
  rw [← marshal_docs local_, map_map] at whole
  simp only [Reply.docs, map_append, sum_append] at whole
  have job := each "job" r.job.isEmpty (Json.appendString r.job) (.text (coerce r.job))
  have status := each "status" (r.status == 0) (Decimal.signed 0 r.status)
    (.number (Decimal.signed 0 r.status))
  have output :=
    each "output" r.output.isEmpty (Json.appendString r.output) (.text (coerce r.output))
  have truncated := each "truncated" (!r.truncated) (bytes "true") (.bool true)
  have error := each "error" r.error.isEmpty (Json.appendString r.error) (.text (coerce r.error))
  have jobText := Json.length_appendString r.job
  have outputText := Json.length_appendString r.output
  have errorText := Json.length_appendString r.error
  rw [Reply.line, length_append, length_singleton]
  simp only [Function.comp_def] at whole
  omega

/-! ## Workers' replies -/

end

/-- The broker's reply for a worker that ended so. -/
def workerReply (code : Int64) (expired : Bool) (chunks : List Bytes) : Reply :=
  shellReply (workerResult code.toInt expired chunks)

/-- What a worker's reply carries. -/
theorem workerReply_shape (code : Int64) (expired : Bool) (chunks : List Bytes) :
    (workerReply code expired chunks).mailbox = none ∧ (workerReply code expired chunks).job = [] ∧
      -2 ^ 63 ≤ (workerReply code expired chunks).status ∧
      (workerReply code expired chunks).status < 2 ^ 63 ∧
      (workerReply code expired chunks).error.length ≤ 17 ∧
      (workerReply code expired chunks).output = if expired then []
        else chunks.flatten.take outputLimit := by
  cases expired with
  | true =>
    have timedOut : -2 ^ 63 ≤ (124 : Int) ∧ (124 : Int) < 2 ^ 63 ∧
        (bytes "command timed out").length ≤ 17 := by decide
    exact ⟨rfl, rfl, timedOut.1, timedOut.2.1, timedOut.2.2, rfl⟩
  | false => exact ⟨rfl, rfl, Int64.le_toInt code, Int64.toInt_lt code, Nat.zero_le _,
      (writes_hold chunks).1⟩

/-- A worker's reply is one line, within the bound that `dispatchMailbox` sets. -/
theorem workerReply_line (code : Int64) (expired : Bool) (chunks : List Bytes) :
    0x0A ∉ (workerReply code expired chunks).marshal ∧
      (workerReply code expired chunks).line.length ≤ outputLimit * 6 + 4096 := by
  obtain ⟨local_, anonymous, low, high, error, output⟩ := workerReply_shape code expired chunks
  have kept : (workerReply code expired chunks).output.length ≤ outputLimit := by
    rw [output]
    split
    · exact Nat.zero_le _
    · rw [length_take]
      exact Nat.min_le_left _ _
  have long := length_line local_ low high
  rw [anonymous, length_nil] at long
  exact ⟨newline_not_mem_marshal local_, by omega⟩

/-- Wherever the turns have led, others deliver what is left. -/
theorem Fifo.Carries.deliverable {s : Fifo} {body : Bytes} (single : 0x0A ∉ body)
    (bounded : (body ++ [0x0A]).length ≤ outputLimit * 6 + 4096)
    (carries : s.Carries fold (body ++ [0x0A])) :
    ∃ turns : List Turn, (turns.foldl (Fifo.step fold) s).Delivered := by
  -- A write and then a read moves each byte, so the bytes not yet written count twice.
  induction left : 2 * s.data.length + s.pipe.length using Nat.strongRecOn generalizing s with
  | ind n ih =>
    by_cases unwritten : s.data = []
    · by_cases unread : s.pipe = []
      · exact ⟨[], unwritten, unread⟩
      · have running : s.returned.isSome = false := by
          rw [carries.returned, if_neg, Option.isSome_none]
          intro all
          have whole := carries.whole
          rw [all, append_assoc, append_right_eq_self] at whole
          exact unread (append_eq_nil_iff.mp whole).1
        have moved : s.step fold (.read 1) = s.receive fold (s.pipe.take 1) := by
          simp [Fifo.step, running, unread]
        have fewer : 2 * (s.step fold (.read 1)).data.length + (s.step fold (.read 1)).pipe.length <
            n := by
          have nonempty := length_pos_iff.mpr unread
          rw [moved]
          simp only [Fifo.receive, length_drop, length_take]
          omega
        obtain ⟨turns, delivered⟩ := ih _ fewer (carries.step single bounded (.read 1)) rfl
        exact ⟨.read 1 :: turns, delivered⟩
    · have fewer : 2 * (s.step fold (.write s.data.length)).data.length +
          (s.step fold (.write s.data.length)).pipe.length < n := by
        have nonempty := length_pos_iff.mpr unwritten
        simp only [Fifo.step, drop_length, take_length, length_append, length_nil]
        omega
      obtain ⟨turns, delivered⟩ := ih _ fewer (carries.step single bounded (.write s.data.length))
        rfl
      exact ⟨.write s.data.length :: turns, delivered⟩

variable (fold) in
/-- Every worker's reply can be delivered. -/
theorem workerReply_delivered (code : Int64) (expired : Bool) (chunks : List Bytes) :
    ∃ turns : List Turn,
      (dispatchMailbox fold (workerReply code expired chunks) turns).Delivered := by
  obtain ⟨single, bounded⟩ := workerReply_line code expired chunks
  exact (dispatchMailbox_carries fold single bounded []).deliverable single bounded

/-- What `dispatchMailbox` returns once a worker's reply is delivered. -/
theorem workerReply_returned {code : Int64} {expired : Bool} {chunks : List Bytes}
    {turns : List Turn}
    (delivered : (dispatchMailbox fold (workerReply code expired chunks) turns).Delivered) :
    (dispatchMailbox fold (workerReply code expired chunks) turns).returned =
      some (finish fold (workerReply code expired chunks).line) := by
  obtain ⟨single, bounded⟩ := workerReply_line code expired chunks
  obtain ⟨whole, _, returned⟩ := dispatchMailbox_carries fold single bounded turns
  rw [delivered.1, delivered.2, append_nil, append_nil] at whole
  rw [returned, if_pos whole]

/-- The socket's client reads every worker's reply. -/
theorem call_workerReply (code : Int64) (expired : Bool) (chunks : List Bytes) :
    call fold (workerReply code expired chunks).line =
      some (workerReply code expired chunks).coerced := by
  obtain ⟨local_, _, low, high, _, _⟩ := workerReply_shape code expired chunks
  rw [call, decode_line local_ low high]
  rfl

variable (fold) in
/-- When a reply that the FIFO has delivered is returned as the socket's client returns it:
however it was cut into writes and reads, exactly if the output that the worker's reply keeps
is within the limit also when each of its ill-formed bytes counts as three. -/
theorem dispatchMailbox_as_call (code : Int64) (expired : Bool) (chunks : List Bytes)
    (turns : List Turn)
    (delivered : (dispatchMailbox fold (workerReply code expired chunks) turns).Delivered) :
    (∃ reply, (dispatchMailbox fold (workerReply code expired chunks) turns).returned =
      some (.ok reply) ∧
        call fold (workerReply code expired chunks).line = some reply) ↔
      expired = true ∨ (chunks.flatten.take outputLimit).length +
        2 * illFormed (chunks.flatten.take outputLimit) ≤ outputLimit := by
  obtain ⟨local_, anonymous, low, high, _, output⟩ := workerReply_shape code expired chunks
  have fits : (workerReply code expired chunks).output.length + 2 *
    illFormed (workerReply code expired chunks).output ≤
      outputLimit ↔ expired = true ∨ (chunks.flatten.take outputLimit).length +
        2 * illFormed (chunks.flatten.take outputLimit) ≤ outputLimit := by
    rw [output]
    cases expired with
    | true =>
      have empty : ([] : Bytes).length + 2 * illFormed [] ≤ outputLimit := by decide
      exact iff_of_true empty (Or.inl rfl)
    | false => simp
  rw [workerReply_returned delivered, call_workerReply, finish_line local_ low high anonymous,
    ← fits]
  constructor
  · rintro ⟨reply, returned, _⟩
    split at returned
    · next short => exact short
    · cases returned
  · intro short
    exact ⟨_, by rw [if_pos short], rfl⟩

/-- A worker that writes a letter and a byte that is no character, and exits with 3: the byte
is three bytes of either client's output. -/
theorem dispatchMailbox_as_call_illFormed :
    illFormed [0x61, 0xC3] = 1 ∧
      ∃ reply, (dispatchMailbox id (workerReply 3 false [[0x61, 0xC3]])
          [.write 2, .read 8192, .write 30, .read 7, .write 100, .close, .read 100]).returned =
            some (.ok reply) ∧
        call id (workerReply 3 false [[0x61, 0xC3]]).line = some reply :=
  ⟨by decide, (dispatchMailbox_as_call id 3 false [[0x61, 0xC3]] _ ⟨by decide, by decide⟩).mpr
    (Or.inr (by decide))⟩

/-- A letter before anything else is well-formed. -/
theorem illFormed_ascii {c : UInt8} (ascii : c < 0x80) (s : Bytes) :
    illFormed (c :: s) = illFormed s := by
  obtain ⟨formed, read⟩ := Utf8.decodeRune_ascii ascii s
  rw [illFormed, Utf8.runes_cons, read, countP_cons_of_neg (by simp [Utf8.Sym.rune?])]
  rfl

theorem illFormed_replicate {c : UInt8} (ascii : c < 0x80) (n : Nat) (s : Bytes) :
    illFormed (List.replicate n c ++ s) = illFormed s := by
  induction n with
  | zero => rfl
  | succ n ih => rw [replicate_succ, cons_append, illFormed_ascii ascii, ih]

/-- A long output in which the limit cuts a character in two is returned over the socket and
refused over the FIFO. -/
theorem dispatchMailbox_refused :
    ∃ (chunks : List Bytes) (turns : List Turn), Utf8.validString chunks.flatten = true ∧
      (dispatchMailbox id (workerReply 0 false chunks) turns).returned =
        some (.error (.text "invalid mailbox reply")) ∧
      ∃ reply, call id (workerReply 0 false chunks).line = some reply := by
  obtain ⟨k, limit⟩ : ∃ k, outputLimit = k + 2 := ⟨1048574, rfl⟩
  -- Letters up to the last but one byte, then a letter of two bytes.
  let chunk : Bytes := List.replicate k 0x61 ++ 0x61 :: [0xC3, 0xA9]
  have valid : Utf8.validString chunk = true := by
    rw [Utf8.validString_append_ascii _ (by decide), Bool.and_eq_true]
    refine ⟨Utf8.validString_ascii _ fun c member => ?_, by decide⟩
    rw [eq_of_mem_replicate member]
    decide
  have cut : chunk.take outputLimit = List.replicate k 0x61 ++ [0x61, 0xC3] := by
    rw [limit, take_append, take_of_length_le (by simp), length_replicate, Nat.add_sub_cancel_left]
    rfl
  have single : illFormed [0x61, 0xC3] = 1 := by decide
  obtain ⟨turns, delivered⟩ := workerReply_delivered id 0 false [chunk]
  obtain ⟨local_, anonymous, low, high, _, output⟩ := workerReply_shape 0 false [chunk]
  have long : ¬ (workerReply 0 false [chunk]).output.length +
      2 * illFormed (workerReply 0 false [chunk]).output ≤ outputLimit := by
    rw [output, if_neg Bool.false_ne_true, flatten_singleton, cut, illFormed_replicate (by decide),
      single, length_append, length_replicate, limit, length_cons, length_singleton]
    omega
  refine ⟨[chunk], turns, by rwa [flatten_singleton], ?_, _, call_workerReply 0 false [chunk]⟩
  rw [workerReply_returned delivered, finish_line local_ low high anonymous, if_neg long]

end

end TrustedCourier.TcExec
