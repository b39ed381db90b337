import Mathlib.Data.List.AList
import TrustedCourier.AuditEntry
import TrustedCourier.FilePaths
import TrustedCourier.Runs

/-!
# The tc-exec broker

The broker keeps jobs until they are dispatched: a command and a working directory under
an ID that it draws. A job is dispatched through the broker's socket or through the FIFOs
of its mailbox, where the byte `D` starts it. A dispatch takes a worker slot, takes the job
out of the table, and runs it in a sandbox. Jobs that nobody dispatches expire.

The broker is a machine. Its parties are the calls of `processJobContext`, those that
come over the socket and those that the mailboxes make, the goroutine of each mailbox, the
sweep and `serve`. An action moves one of them up to its next access to what they share,
or lets time pass. What the kernel, the file system and the sandboxed command return is
given with the action.

The mutex is `lock`, the call that holds it; what is done under it without waiting for the
kernel is one action that needs it free. Times are readings of a clock that never goes
back, in nanoseconds. The machine keeps a history of what happened to the jobs.
-/

namespace TrustedCourier.TcExec

open FilePaths (abs base dir join rel)
open Audit (hexString)

/-- How many jobs the table holds. -/
def maxJobs : Nat := 128

/-- How many jobs run at once. -/
def maxWorkers : Nat := 8

/-- Ten minutes: an older job expires. -/
def jobTTL : Int := 600000000000

/-- What is asked of the broker. -/
structure Message where
  action : Bytes
  command : Bytes := []
  workdir : Bytes := []
  job : Bytes := []

/-- The FIFOs of a mailbox: where they are and which they are. -/
structure MailboxRef where
  path : Bytes
  device : Nat
  request : Nat
  response : Nat

/-- What the broker answers a client. -/
structure Reply where
  job : Bytes := []
  mailbox : Option MailboxRef := none
  status : Int := 0
  output : Bytes := []
  truncated : Bool := false
  error : Bytes := []

/-- A reply that only says what is wrong. -/
def failure (text : String) : Reply := { error := bytes text }

/-- The answer where no slot is free. -/
def busy : Reply := failure "broker busy"

/-- A job as the broker keeps it. -/
structure Job where
  command : Bytes
  workdir : Bytes
  created : Int
deriving DecidableEq, Inhabited

/-- What stays the same while the broker serves. The mailbox directory is there if the
profile has one. -/
structure Broker where
  workspace : Bytes
  socket : Bytes
  configPath : Bytes
  workspaceDir : Bool
  mailboxPath : Option Bytes

/-! ## Working directories -/

/-- What the file system says at one moment. -/
structure Files where
  getwd : Except String Bytes
  evalSymlinks : Bytes → Except String Bytes

/-- `canonical`. -/
def canonical (files : Files) (path : Bytes) (existing : Bool) : Except String Bytes := do
  let p ← abs files.getwd path
  if existing then files.evalSymlinks p
  else
    let parent ← files.evalSymlinks (dir p)
    return join parent (base p)

/-- `within`, which looks at the root before it looks at the path. -/
def within (atRoot atPath : Files) (root path : Bytes) : Bool :=
  match abs atRoot.getwd path, atRoot.evalSymlinks root with
  | .ok absolute, .ok r =>
    match atPath.evalSymlinks absolute with
    | .ok p => p == r || (r ++ [0x2F]).isPrefixOf p
    | .error _ => false
  | _, _ => false

/-! ## Workers -/

/-- What `shellContext` finds: whether there is a `/lib64`, its own binary, and whether the
network filter could be made. -/
structure Host where
  lib64 : Bool
  executable : Option Bytes
  filter : Bool

/-- The arguments that mount the broker's files, where it was given a profile. -/
def brokerMounts (b : Broker) (host : Host) : Option (List Bytes) :=
  if b.configPath = [] then some []
  else host.executable.map fun exe =>
    [bytes "--ro-bind", b.configPath, bytes "/tc-exec.json", bytes "--bind", b.socket,
      bytes "/tc-broker.sock", bytes "--ro-bind", exe, bytes "/tc-exec"]

/-- The arguments of bwrap for a command in a directory of the sandbox. -/
def bwrapArgs (b : Broker) (host : Host) (mounts : List Bytes) (wd command : Bytes) : List Bytes :=
  ["--unshare-all", "--share-net", "--die-with-parent", "--new-session", "--ro-bind", "/usr",
    "/usr", "--ro-bind", "/bin", "/bin", "--ro-bind", "/lib", "/lib"].map bytes ++
  (if host.lib64 then ["--ro-bind", "/lib64", "/lib64"].map bytes else []) ++
  ["--dev", "/dev", "--proc", "/proc", "--tmpfs", "/tmp", "--tmpfs", "/home", "--bind"].map bytes ++
  [if b.workspaceDir then bytes "/proc/self/fd/3" else b.workspace, bytes "/workspace"] ++ mounts ++
  ([bytes "--chdir", wd] ++
  (["--setenv", "HOME", "/home", "--setenv", "PATH", "/usr/bin:/bin", "--setenv", "TC_EXEC_CONFIG",
    "/tc-exec.json", "--setenv", "TC_EXEC_SOCKET", "/tc-broker.sock", "--seccomp",
    if b.workspaceDir then "4" else "3", "--", "/bin/bash", "--noprofile", "--norc",
    "-c"].map bytes ++
  [command]))

/-- What `shellContext` hands to bwrap, or its reply if it does not come to that. -/
def shellArgs (b : Broker) (host : Host) (j : Job) : Except Reply (List Bytes) :=
  match rel b.workspace j.workdir with
  | .error _ => .error (failure "invalid workdir")
  | .ok relative =>
    match brokerMounts b host with
    | none => .error (failure "cannot locate tc-exec binary")
    | some mounts =>
      if host.filter then
        .ok (bwrapArgs b host mounts (join (bytes "/workspace") relative) j.command)
      else .error (failure "cannot create network filter")

/-- How `cmd.Run` ended, and whether its context was done by then. -/
structure Result where
  code : Int
  output : Bytes
  truncated : Bool
  expired : Bool

/-- The reply of `shellContext` once `cmd.Run` has returned. -/
def shellReply (result : Result) : Reply :=
  if result.expired then { status := 124, error := bytes "command timed out" }
  else { status := result.code, output := result.output, truncated := result.truncated }

/-! ## The machine -/

/-- The two ways a request arrives. -/
inductive Transport where
  | socket
  | fifo
deriving DecidableEq

/-- Where a call of `processJobContext` is. A submission has checked its working directory,
has drawn its ID, has found room under the lock, has recorded its job under the lock. A
dispatch has a slot, has taken the job or found none, has accepted it, runs it, and gives
the slot back. -/
inductive Stage where
  | begun
  | checked (workdir : Bytes)
  | drawn (workdir id : Bytes)
  | entered (workdir id : Bytes)
  | recorded (id : Bytes)
  | slotted
  | taken (entry : Option Job)
  | launching (entry : Job)
  | running (entry : Job)
  | leaving (reply : Reply)
  | answered (reply : Reply)

/-- A client's request under way. -/
structure Call where
  transport : Transport
  message : Message
  stage : Stage

/-- Where `serveMailbox` is, and its deferred calls: it waits for the start byte until its
deadline, then for the dispatch it has made, whose context it may have cancelled; when it
has returned, its job is removed and its files are cleaned up. -/
inductive Phase where
  | born
  | polling (deadline : Int)
  | pending (deadline : Int)
  | reading (deadline : Int)
  | serving (call : Nat) (cancelled : Bool)
  | draining (call : Nat)
  | replying
  | returned
  | removed
  | finished

/-- The mailbox of a job, while it is served. -/
structure Mailbox where
  job : Bytes
  phase : Phase

/-- Why an entry was removed from the table. -/
inductive Cause where
  | dispatch (call : Nat)
  | expiry
  | mailbox (box : Nat)
  | unmade (call : Nat)

/-- What happens to a job. -/
inductive Event where
  | drawn (call : Nat) (id : Bytes)
  | recorded (call : Nat) (id : Bytes) (entry : Job)
  | removed (id : Bytes) (cause : Cause)
  | admitted (call : Nat) (id : Bytes) (entry : Job) (now : Int)
  | started (call : Nat) (id : Bytes) (entry : Job) (args : List Bytes)

/-- The broker, its calls and its mailboxes; `workers` is how many slots are taken. -/
structure State where
  now : Int
  jobs : AList fun _ : Bytes => Job
  workers : Nat
  mailboxActive : Int
  mailboxClosing : Bool
  lock : Option Nat
  calls : List Call
  mailboxes : List Mailbox
  accepting : Bool
  sweeping : Bool
  stopped : Bool
  exited : Bool
  history : List Event

/-- `serve` begins to accept. -/
def State.serve (now : Int) : State where
  now := now
  jobs := ∅
  workers := 0
  mailboxActive := 0
  mailboxClosing := false
  lock := none
  calls := []
  mailboxes := []
  accepting := true
  sweeping := true
  stopped := false
  exited := false
  history := []

namespace State

/-- `s` with one more event in its history. -/
def log (s : State) (event : Event) : State := { s with history := s.history ++ [event] }

/-- A call begins. -/
def spawn (s : State) (transport : Transport) (m : Message) : State :=
  { s with calls := s.calls ++ [{ transport := transport, message := m, stage := .begun }] }

/-- A call goes on. -/
def set (s : State) (k : Nat) (stage : Stage) : State :=
  { s with calls := s.calls.modify k fun call => { call with stage := stage } }

/-- A mailbox goes on. -/
def setPhase (s : State) (j : Nat) (phase : Phase) : State :=
  { s with mailboxes := s.mailboxes.modify j fun box => { box with phase := phase } }

/-- `delete(b.jobs, id)`. -/
def delete (s : State) (id : Bytes) (cause : Cause) : State :=
  match s.jobs.lookup id with
  | none => s
  | some _ => { s.log (.removed id cause) with jobs := s.jobs.erase id }

/-- `broker.expire`. -/
def expire (s : State) (now : Int) : State :=
  s.jobs.entries.foldl (fun s e => if jobTTL < now - e.2.created then s.delete e.1 .expiry else s) s

/-- Whether the mailboxes' context is done. -/
def ended (s : State) : Bool := s.stopped || s.mailboxClosing

/-- Whether a call has its reply. -/
def replied (s : State) (k : Nat) : Bool :=
  match s.calls[k]?.map Call.stage with
  | some (.answered _) => true
  | _ => false

/-- A mailbox's goroutine is started. -/
def opened (s : State) (id : Bytes) : State :=
  { s with mailboxActive := s.mailboxActive + 1, mailboxes := s.mailboxes ++
    [{ job := id, phase := .born }] }

/-- `newMailboxJob`, with the FIFOs that the kernel has made, or `none` if it fails. -/
def newMailboxJob (s : State) (root id : Bytes) (made : Option (Nat × Nat × Nat)) :
    Option (MailboxRef × State) :=
  if s.mailboxClosing then none
  else made.map fun (device, request, response) =>
    ({ path := join root id, device := device, request := request, response := response },
      s.opened id)

end State

/-- How a call goes on: the file system as it looks at it, the random bytes, the FIFOs that
were made, the host, whether the worker's process could not be started and whether the
context was done then, how the worker ended, or what another action replies. -/
inductive Move where
  | check (atRoot atPath atWorkdir : Files)
  | draw (nonce : Option (Fin 24 → UInt8))
  | enter
  | record
  | publish (made : Option (Nat × Nat × Nat))
  | acquire
  | take
  | judge
  | launch (host : Host) (unstarted : Option Bool)
  | finish (result : Result)
  | release
  | other (reply : Reply)

/-- The job ID that a submission makes of its random bytes. -/
def jobID (nonce : Fin 24 → UInt8) : Bytes := hexString (List.ofFn nonce)

/-- `processJobContext`: a call goes on, or `none` if it cannot do this where it is. -/
def State.processJobContext (b : Broker) (s : State) (k : Nat) (call : Call) (move : Move) :
    Option State :=
  let m := call.message
  match call.stage, move with
  | .begun, .check atRoot atPath atWorkdir =>
    if m.action = bytes "submit" then
      if m.command = [] ∨ 65536 < m.command.length then
        some (s.set k (.answered (failure "invalid command")))
      else if within atRoot atPath b.workspace m.workdir = false then
        some (s.set k (.answered (failure "workdir outside workspace")))
      else
        match canonical atWorkdir m.workdir true with
        | .error _ => some (s.set k (.answered (failure "invalid workdir")))
        | .ok workdir => some (s.set k (.checked workdir))
    else none
  | .checked _, .draw none => some (s.set k (.answered (failure "random source unavailable")))
  | .checked workdir, .draw (some nonce) =>
    some ((s.log (.drawn k (jobID nonce))).set k (.drawn workdir (jobID nonce)))
  | .drawn workdir id, .enter =>
    if s.lock = none then
      let swept := s.expire s.now
      if maxJobs ≤ swept.jobs.entries.length ∨ maxJobs ≤ swept.mailboxActive then
        some (swept.set k (.answered busy))
      else some ({ swept with lock := some k }.set k (.entered workdir id))
    else none
  | .entered workdir id, .record =>
    let entry := { command := m.command, workdir := workdir, created := s.now }
    some ({ s.log (.recorded k id entry) with jobs := s.jobs.insert id entry }.set k (.recorded id))
  | .recorded id, .publish made =>
    match b.mailboxPath with
    | none => some ({ s with lock := none }.set k (.answered { job := id }))
    | some root =>
      match s.newMailboxJob root id made with
      | some (ref, opened) =>
        some ({ opened with lock := none }.set k (.answered { job := id, mailbox := some ref }))
      | none =>
        some ({ s.delete id (.unmade k) with lock := none }.set k
          (.answered (failure "cannot create job mailbox")))
  | .begun, .acquire =>
    if m.action = bytes "dispatch" then
      if s.workers < maxWorkers then some ({ s with workers := s.workers + 1 }.set k .slotted)
      else some (s.set k (.answered busy))
    else none
  | .slotted, .take =>
    if s.lock = none then some ((s.delete m.job (.dispatch k)).set k (.taken (s.jobs.lookup m.job)))
    else none
  | .taken none, .judge => some (s.set k (.leaving (failure "unknown or expired job")))
  | .taken (some entry), .judge =>
    if jobTTL < s.now - entry.created then
      some (s.set k (.leaving (failure "unknown or expired job")))
    else some ((s.log (.admitted k m.job entry s.now)).set k (.launching entry))
  | .launching entry, .launch host unstarted =>
    match shellArgs b host entry, unstarted with
    | .error reply, _ => some (s.set k (.leaving reply))
    | .ok args, none => some ((s.log (.started k m.job entry args)).set k (.running entry))
    | .ok _, some expired =>
      some (s.set k
        (.leaving (shellReply { code := 1, output := [], truncated := false, expired := expired })))
  | .running _, .finish result => some (s.set k (.leaving (shellReply result)))
  | .leaving reply, .release => some ({ s with workers := s.workers - 1 }.set k (.answered reply))
  | .begun, .other reply =>
    if m.action = bytes "request" then some (s.set k (.answered reply))
    else if m.action ≠ bytes "submit" ∧ m.action ≠ bytes "dispatch" then
      some (s.set k (.answered (failure "unknown action")))
    else none
  | _, _ => none

/-- What a read of the request FIFO returns: a byte, the end when nobody has it open for
writing, `EAGAIN` or `EINTR`, another error. -/
inductive Read where
  | byte (c : UInt8)
  | eof
  | again
  | failed

/-- Which case `select` takes. -/
inductive Choice where
  | done
  | cancelled
  | tick (got : Read)

/-- How a mailbox goes on; `fired` is whether the timer of its deadline has run. -/
inductive BoxMove where
  | begin
  | poll
  | check (fired : Bool)
  | read (got : Read)
  | select (choice : Choice)
  | drain
  | write
  | remove
  | clean

/-- `serveMailbox` and what its goroutine has deferred. -/
def State.serveMailbox (s : State) (j : Nat) (box : Mailbox) (move : BoxMove) : Option State :=
  match box.phase, move with
  | .born, .begin => some (s.setPhase j (.polling (s.now + jobTTL)))
  | .polling deadline, .poll =>
    if s.lock = none then
      some (s.setPhase j (if (s.jobs.lookup box.job).isSome then .pending deadline else .returned))
    else none
  | .pending deadline, .check fired =>
    some (s.setPhase j (if s.ended || (fired && decide (deadline ≤ s.now)) then .returned
      else .reading deadline))
  | .reading deadline, .read got =>
    match got with
    | .byte c =>
      if c = 0x44 then
        some ((s.spawn .fifo { action := bytes "dispatch", job := box.job }).setPhase j
          (.serving s.calls.length false))
      else some (s.setPhase j .returned)
    | .eof | .again => some (s.setPhase j (.polling deadline))
    | .failed => some (s.setPhase j .returned)
  | .serving call cancelled, .select choice =>
    match choice with
    | .done => if s.replied call then some (s.setPhase j .replying) else none
    | .cancelled => if cancelled || s.ended then some (s.setPhase j (.draining call)) else none
    | .tick .again => some s
    | .tick _ => some (s.setPhase j (.serving call true))
  | .draining call, .drain => if s.replied call then some (s.setPhase j .returned) else none
  | .replying, .write => some (s.setPhase j .returned)
  | .returned, .remove =>
    if s.lock = none then
      some ({ s.delete box.job (.mailbox j) with
        mailboxActive := s.mailboxActive - 1 }.setPhase j .removed)
    else none
  | .removed, .clean => some (s.setPhase j .finished)
  | _, _ => none

/-- What can happen: time passes; a connection brings a message; a call or a mailbox goes
on; the sweep sees a tick, or ends; the broker gets a signal; `serve` stops accepting,
closes the mailboxes, and returns. -/
inductive Act where
  | wait (ns : Nat)
  | accept (message : Message)
  | call (k : Nat) (move : Move)
  | mailbox (j : Nat) (move : BoxMove)
  | sweep (tick : Int)
  | sweepEnds
  | signal
  | hangUp
  | closeMailbox
  | exit

/-- The job ID that is drawn. -/
def Act.drawnID : Act → Option Bytes
  | .call _ (.draw (some nonce)) => some (jobID nonce)
  | _ => none

def Phase.isFinished : Phase → Bool
  | .finished => true
  | _ => false

/-- One action, or `none` where it cannot happen. -/
def State.step (b : Broker) (s : State) (act : Act) : Option State :=
  if s.exited then none
  else
    match act with
    | .wait ns => some { s with now := s.now + ns }
    | .accept message => if s.accepting then some (s.spawn .socket message) else none
    | .call k move => s.calls[k]?.bind fun call => s.processJobContext b k call move
    | .mailbox j move => s.mailboxes[j]?.bind fun box => s.serveMailbox j box move
    | .sweep tick =>
      if s.sweeping ∧ s.lock = none ∧ tick ≤ s.now then some (s.expire tick) else none
    | .sweepEnds => if s.stopped then some { s with sweeping := false } else none
    | .signal => some { s with stopped := true }
    | .hangUp => some { s with accepting := false }
    | .closeMailbox =>
      if s.accepting = false ∧ s.lock = none ∧ b.mailboxPath.isSome then
        some { s with mailboxClosing := true }
      else none
    | .exit =>
      if s.accepting = false ∧
          (b.mailboxPath.isSome → s.mailboxClosing ∧
            s.mailboxes.all fun box => box.phase.isFinished) then
        some { s with exited := true }
      else none

end TrustedCourier.TcExec
