import TrustedCourier.Configs
import TrustedCourier.Runs

/-!
# The supervisor of a Backend Plugin

`supervised.run` launches a plugin, waits until its process exits or the host is stopped,
kills it, and launches it again after a wait that doubles. A plugin outside the server's
FIPS 140-3 mode is refused for good. Meanwhile the process may exit by itself, the host may
be stopped, and callers take the client under the lock and use it later.

An action is a step of `run`, of the operating system or of a caller; what the files hold
and what a process reports are given with it. A file is hashed first and executed later, and
in between it may be written to, and another one may be put at its path. Times are in
nanoseconds; the clock that `time.Since` and timers read does not go back.
-/

namespace TrustedCourier.PluginHost

open Config

/-! ## FIPS 140-3 modes -/

/-- `client.FIPS140`, without the module's version. -/
structure FIPS140 where
  enabled : Bool
  only : Bool
deriving DecidableEq, Repr

/-- `FIPS140.Mode`. -/
def FIPS140.mode (f : FIPS140) : String :=
  if f.only then "only" else if f.enabled then "on" else "off"

/-- `FIPS140.Covers`. -/
def FIPS140.covers (f host : FIPS140) : Bool :=
  (f.enabled || !host.enabled) && (f.only || !host.only)

/-! ## What is executed -/

/-- The builds of `verifiedCommand`: `exec_linux.go` and `exec_other.go`. -/
inductive Platform where
  | linux
  | other
deriving DecidableEq, Repr

/-- `exec.Cmd`: what is executed, the name it is given, and whether the file that was opened
is descriptor 3 of the child. -/
structure Command where
  path : Bytes
  arg0 : Bytes
  extraFile : Bool

/-- `verifiedCommand`. -/
def verifiedCommand (platform : Platform) (path : Bytes) : Command :=
  match platform with
  | .linux => { path := bytes "/proc/self/fd/3", arg0 := path, extraFile := true }
  | .other => { path := path, arg0 := path, extraFile := false }

/-- What the files hold when a command is executed: the one that was opened before, and
those that paths lead to now. -/
structure Files where
  opened : Bytes
  named : Bytes → Bytes

/-- The contents that a command executes. -/
def Command.executes (cmd : Command) (files : Files) : Bytes :=
  if cmd.extraFile && cmd.path = bytes "/proc/self/fd/3" then files.opened else files.named cmd.path

/-- A process as it was started: what `openVerified` hashed, what the files held when the
command was executed, and what the process executes. -/
structure Launched where
  hashed : Bytes
  files : Files
  executed : Bytes

/-! ## The state -/

/-- `State`. -/
inductive PluginState where
  | starting
  | running
  | restarting
  | stopped
  | refused
deriving DecidableEq, Repr

/-- A started plugin: its process and what it reported. -/
structure Client where
  process : Nat
  courierKeyWrite : Bool
  fips : FIPS140
deriving DecidableEq, Repr

/-- What a plugin that was started reports. -/
structure Report where
  courierKeyWrite : Bool
  fips140Enabled : Bool
  fips140Only : Bool

/-- `dispense`, once the plugin has answered. -/
def dispense (process : Nat) (report : Report) : Client where
  process := process
  courierKeyWrite := report.courierKeyWrite
  fips := { enabled := report.fips140Enabled || report.fips140Only, only := report.fips140Only }

/-- Where `run` is. -/
inductive Point where
  | loop
  | opening
  | spawning (hashed : Bytes)
  | dispensing (process : Nat)
  | checking (c : Client)
  | publishing (c : Client)
  | waiting (c : Client)
  | killing (c : Client) (exited : Bool)
  | clearing (c : Client) (exited : Bool)
  | failing (err : String)
  | refusing (err : String)
  | resting
  | sleeping (until' : Int)
  | ending
  | ended

/-- What is remembered of a run: when a launch began, and when a wait began, how long it was
to be, and whether the plugin had been stable. -/
inductive Event where
  | launch (t : Int)
  | rest (t wait : Int) (stable : Bool)

/-- `supervised`, with where `run` is, the host's context, the processes that were started,
those of them that are alive, and the clients that callers have taken. -/
structure Supervised where
  point : Point
  clock : Int
  cancelled : Bool
  client : Option Client
  state : PluginState
  restarts : Nat
  lastErr : String
  backoff : Int
  attempt : Nat
  started : Int
  launched : List Launched
  alive : List Nat
  taken : List Client
  history : List Event

/-- `minBackoff`: 250 ms. -/
def minBackoff : Int := 250000000

/-- `maxBackoff`: 30 s. -/
def maxBackoff : Int := 30000000000

/-- `stableAfter`: a minute. -/
def stableAfter : Int := 60000000000

/-- `New` at this time. -/
def Supervised.start (now : Int) : Supervised where
  point := .loop
  clock := now
  cancelled := false
  client := none
  state := .starting
  restarts := 0
  lastErr := ""
  backoff := minBackoff
  attempt := 0
  started := now
  launched := []
  alive := []
  taken := []
  history := []

/-! ## The machine -/

/-- What the plugin's path gives: it cannot be opened, it cannot be read, or it is read. -/
inductive Opened where
  | unopened (err : String)
  | unread (err : String)
  | contents (binary : Bytes)

/-- What can happen. The last three are not steps of `run`. -/
inductive Act where
  | check (t : Int)
  | opened (reply : Opened)
  | spawned (files : Files) (err : Option String)
  | dispensed (reply : Except String Report)
  | covered
  | published
  | exitSeen
  | doneSeen
  | killed
  | cleared
  | settled
  | rested (t : Int)
  | woke (t : Int)
  | stopped
  | finished
  | cancel
  | exits (process : Nat)
  | take

/-- What the server prints and hashes with, what it was built for, and the mode it runs in. -/
structure Server where
  platform : Platform
  quote : Bytes → String
  text : Bytes → String
  sha256 : Bytes → Bytes
  hostFIPS140 : FIPS140

/-- The server, and the plugin that is supervised. -/
structure Env extends Server where
  plugin : BackendPlugin

/-- `openVerified`. -/
def openVerified (env : Env) : Opened → Except String Bytes
  | .unopened err => .error ("Backend Plugin " ++ env.quote env.plugin.name ++ ": " ++ err)
  | .unread err =>
    .error ("Backend Plugin " ++ env.quote env.plugin.name ++ ": read " ++
      env.text env.plugin.path ++ ": " ++ err)
  | .contents binary =>
    if env.sha256 binary ≠ env.plugin.sha256 then
      .error ("Backend Plugin " ++ env.quote env.plugin.name ++ ": " ++ env.text env.plugin.path ++
        " has SHA-256 " ++
        env.text (env.sha256 binary) ++ ", but the config pins " ++ env.text env.plugin.sha256 ++
          "; refusing to run it")
    else .ok binary

/-- `ErrNotFIPS` as `launch` wraps it. -/
def errNotFIPS (env : Env) (c : Client) : String :=
  "Backend Plugin refused: it is not in FIPS 140-3 mode: it reports FIPS 140-3 mode " ++
    c.fips.mode ++
    " and the server runs in mode " ++ env.hostFIPS140.mode ++
      "; rebuild it on the current plugin SDK"

namespace Supervised

variable (s : Supervised)

/-- `run` goes on elsewhere. -/
def goto (point : Point) : Supervised := { s with point := point }

/-- A process is no more. -/
def kill (process : Nat) : Supervised :=
  { s with alive := s.alive.filter (· ≠ process) }

/-- An event is remembered. -/
def log (event : Event) : Supervised := { s with history := s.history ++ [event] }

/-- The head of the loop: the context is looked at, a relaunch is counted, and the time is
taken. -/
def check (t : Int) : Supervised :=
  if s.cancelled then s.goto .ending
  else if s.attempt > 0 then
    { (s.log (.launch t)).goto .opening with
      restarts := s.restarts + 1, state := .starting, started := t }
  else { (s.log (.launch t)).goto .opening with started := t }

/-- The wait that follows an attempt. -/
def rest (t : Int) : Supervised :=
  let stable := decide (t - s.started ≥ stableAfter)
  let backoff := if stable then minBackoff else s.backoff
  { (s.log (.rest t backoff stable)).goto (.sleeping (t + backoff)) with backoff := backoff }

/-- The deferred function of `run`. -/
def finish : Supervised :=
  if s.state ≠ .refused then { s.goto .ended with state := .stopped, lastErr := "" }
  else s.goto .ended

variable (env : Env)

/-- A process is started for a file that was hashed. -/
def spawn (hashed : Bytes) (files : Files) : Supervised :=
  let executed := (verifiedCommand env.platform env.plugin.path).executes files
  { s.goto (.dispensing s.launched.length) with
    launched := s.launched ++ [{ hashed := hashed, files := files, executed := executed }]
    alive := s.alive ++ [s.launched.length] }

/-- The client is there for callers. -/
def publish (c : Client) : Supervised :=
  { s.goto (.waiting c) with client := some c, state := .running, lastErr := "" }

/-- The client is there no more. -/
def clear (exited : Bool) : Supervised :=
  let point : Point := if exited then .failing "Backend Plugin exited unexpectedly" else .ending
  { s.goto point with client := none }

/-- The wait is over. -/
def wake (t : Int) : Supervised :=
  { s.goto .loop with
    clock := t
    backoff := min (s.backoff * 2) maxBackoff
    attempt := s.attempt + 1 }

/-- One action, or `none` if it cannot happen now. -/
def go : Act → Option Supervised
  | .check t =>
    match s.point with
    | .loop => some { s.check t with clock := t }
    | _ => none
  | .opened reply =>
    match s.point with
    | .opening =>
      match openVerified env reply with
      | .ok binary => some (s.goto (.spawning binary))
      | .error err => some (s.goto (.failing err))
    | _ => none
  | .spawned files err =>
    match s.point, err with
    | .spawning hashed, none => some (s.spawn env hashed files)
    | .spawning _, some err => some (s.goto (.failing err))
    | _, _ => none
  | .dispensed reply =>
    match s.point, reply with
    | .dispensing process, .ok report =>
      some (s.goto (.checking (dispense process report)))
    -- client.Start kills the process whose plugin it cannot use.
    | .dispensing process, .error err => some ((s.kill process).goto (.failing err))
    | _, _ => none
  | .covered =>
    match s.point with
    | .checking c =>
      if c.fips.covers env.hostFIPS140 then some (s.goto (.publishing c))
      else some ((s.kill c.process).goto (.refusing (errNotFIPS env c)))
    | _ => none
  | .published =>
    match s.point with
    | .publishing c => some (s.publish c)
    | _ => none
  | .exitSeen =>
    match s.point with
    | .waiting c =>
      if c.process ∈ s.alive then none else some (s.goto (.killing c true))
    | _ => none
  | .doneSeen =>
    match s.point with
    | .waiting c => if s.cancelled then some (s.goto (.killing c false)) else none
    | _ => none
  | .killed =>
    match s.point with
    | .killing c exited => some ((s.kill c.process).goto (.clearing c exited))
    | _ => none
  | .cleared =>
    match s.point with
    | .clearing _ exited => some (s.clear exited)
    | _ => none
  | .settled =>
    match s.point with
    | .failing err => some { s.goto .resting with state := .restarting, lastErr := err }
    | .refusing err => some { s.goto .ending with state := .refused, lastErr := err }
    | _ => none
  | .rested t =>
    match s.point with
    | .resting => some { s.rest t with clock := t }
    | _ => none
  | .woke t =>
    match s.point with
    | .sleeping until' => if until' ≤ t then some (s.wake t) else none
    | _ => none
  | .stopped =>
    match s.point with
    | .sleeping _ => if s.cancelled then some (s.goto .ending) else none
    | _ => none
  | .finished =>
    match s.point with
    | .ending => some s.finish
    | _ => none
  | .cancel => some { s with cancelled := true }
  | .exits process => some (s.kill process)
  -- Host.running, for a plugin that is configured.
  | .take => some { s with taken := s.taken ++ s.client.toList }

end Supervised

/-- The time that an action takes. -/
def Act.time : Act → Option Int
  | .check t | .rested t | .woke t => some t
  | _ => none

/-- One action at a time that is not before the last one. -/
def Supervised.step (env : Env) (s : Supervised) (act : Act) : Option Supervised :=
  if act.time.all (s.clock ≤ ·) then s.go env act else none

/-- A step of `run`. -/
def Act.own : Act → Bool
  | .cancel | .exits _ | .take => false
  | _ => true

/-- The end of the context. -/
def Act.ofContext : Act → Bool
  | .cancel => true
  | _ => false

/-! ## What an action does -/

namespace Supervised

/-- What an action comes to: a case for each branch of `go`, with what was asked there. -/
inductive Moves (env : Env) (s : Supervised) : Act → Supervised → Prop where
  | checks {t : Int} (here : s.point = .loop) : Moves env s (.check t) { s.check t with clock := t }
  | verified {reply : Opened} {hashed : Bytes} (here : s.point = .opening)
      (checked : openVerified env reply = .ok hashed) :
        Moves env s (.opened reply) (s.goto (.spawning hashed))
  | unverified {reply : Opened} {err : String} (here : s.point = .opening)
      (checked : openVerified env reply = .error err) :
        Moves env s (.opened reply) (s.goto (.failing err))
  | spawned {hashed : Bytes} {files : Files} (here : s.point = .spawning hashed) :
      Moves env s (.spawned files none) (s.spawn env hashed files)
  | unspawned {hashed : Bytes} {files : Files} {err : String} (here : s.point = .spawning hashed) :
      Moves env s (.spawned files (some err)) (s.goto (.failing err))
  | dispensed {process : Nat} {report : Report} (here : s.point = .dispensing process) :
      Moves env s (.dispensed (.ok report)) (s.goto (.checking (dispense process report)))
  | undispensed {process : Nat} {err : String} (here : s.point = .dispensing process) :
      Moves env s (.dispensed (.error err)) ((s.kill process).goto (.failing err))
  | covered {c : Client} (here : s.point = .checking c)
      (covers : c.fips.covers env.hostFIPS140 = true) :
      Moves env s .covered (s.goto (.publishing c))
  | uncovered {c : Client} (here : s.point = .checking c)
      (covers : ¬ c.fips.covers env.hostFIPS140 = true) :
      Moves env s .covered ((s.kill c.process).goto (.refusing (errNotFIPS env c)))
  | published {c : Client} (here : s.point = .publishing c) : Moves env s .published (s.publish c)
  | exitSeen {c : Client} (here : s.point = .waiting c) (gone : c.process ∉ s.alive) :
      Moves env s .exitSeen (s.goto (.killing c true))
  | doneSeen {c : Client} (here : s.point = .waiting c) (done : s.cancelled = true) :
      Moves env s .doneSeen (s.goto (.killing c false))
  | killed {c : Client} {exited : Bool} (here : s.point = .killing c exited) :
      Moves env s .killed ((s.kill c.process).goto (.clearing c exited))
  | cleared {c : Client} {exited : Bool} (here : s.point = .clearing c exited) :
      Moves env s .cleared (s.clear exited)
  | failed {err : String} (here : s.point = .failing err) :
      Moves env s .settled { s.goto .resting with state := .restarting, lastErr := err }
  | refused {err : String} (here : s.point = .refusing err) :
      Moves env s .settled { s.goto .ending with state := .refused, lastErr := err }
  | rested {t : Int} (here : s.point = .resting) :
      Moves env s (.rested t) { s.rest t with clock := t }
  | woke {t until' : Int} (here : s.point = .sleeping until') (past : until' ≤ t) :
      Moves env s (.woke t) (s.wake t)
  | stopped {until' : Int} (here : s.point = .sleeping until') (done : s.cancelled = true) :
      Moves env s .stopped (s.goto .ending)
  | finished (here : s.point = .ending) : Moves env s .finished s.finish
  | cancel : Moves env s .cancel { s with cancelled := true }
  | exits (process : Nat) : Moves env s (.exits process) (s.kill process)
  | take : Moves env s .take { s with taken := s.taken ++ s.client.toList }

variable {env : Env} {s next : Supervised} {act : Act}

theorem moves_of_go (taken : s.go env act = some next) : Moves env s act next := by
  cases act <;> simp only [go] at taken
  all_goals
    repeat' split at taken
    all_goals cases taken
    all_goals constructor <;> assumption

theorem go_of_step (taken : s.step env act = some next) :
    s.go env act = some next ∧ act.time.all (s.clock ≤ ·) = true := by
  unfold step at taken
  split at taken
  · next since => exact ⟨taken, since⟩
  · cases taken

/-- An action that is taken comes to one of the cases. -/
theorem moves_of_step (taken : s.step env act = some next) : Moves env s act next :=
  moves_of_go (go_of_step taken).1

end Supervised

/-! ## What the supervisor has in hand -/

/-- What was hashed is still there when it is executed: on Linux in the file that was opened,
elsewhere at the plugin's path. -/
def Launched.Unchanged (env : Env) (l : Launched) : Prop :=
  match env.platform with
  | .linux => l.files.opened = l.hashed
  | .other => l.files.named env.plugin.path = l.hashed

/-- The process was started for contents that the config pins, and executes such contents
unless they were changed in between. -/
structure Launched.Pinned (env : Env) (l : Launched) : Prop where
  hashed : env.sha256 l.hashed = env.plugin.sha256
  executed : l.Unchanged env → env.sha256 l.executed = env.plugin.sha256

/-- The plugin of the client is inside the server's mode, and its process is one that was
started for contents the config pins. -/
def Trusted (env : Env) (launched : List Launched) (c : Client) : Prop :=
  c.fips.covers env.hostFIPS140 = true ∧ ∃ l, launched[c.process]? = some l ∧ l.Pinned env

/-- No process is alive but this one. -/
def Only (alive : List Nat) (process : Nat) : Prop := ∀ p ∈ alive, p = process

/-- On Linux the file that was opened is executed, whatever its path leads to by then. -/
theorem executes_linux (path : Bytes) (files : Files) :
    (verifiedCommand .linux path).executes files = files.opened := rfl

/-- Elsewhere the path is looked up once more. -/
theorem executes_other (path : Bytes) (files : Files) :
    (verifiedCommand .other path).executes files = files.named path := rfl

/-- A command executes what was hashed unless that was changed. -/
theorem executes_unchanged {env : Env} {l : Launched} (unchanged : l.Unchanged env) :
    (verifiedCommand env.platform env.plugin.path).executes l.files = l.hashed := by
  unfold Launched.Unchanged at unchanged
  cases built : env.platform with
  | linux =>
    rw [executes_linux]
    simpa [built] using unchanged
  | other =>
    rw [executes_other]
    simpa [built] using unchanged

/-- Only the pinned binary is opened. -/
theorem openVerified_pinned {env : Env} {reply : Opened} {hashed : Bytes}
    (opened : openVerified env reply = .ok hashed) : env.sha256 hashed = env.plugin.sha256 := by
  cases reply with
  | unopened err | unread err => cases opened
  | contents read =>
    rw [openVerified] at opened
    split at opened
    · cases opened
    · next same =>
      cases opened
      exact not_not.mp same

/-- A trusted client stays so when another process is started. -/
theorem Trusted.grown {env : Env} {c : Client} {launched : List Launched}
    (trusted : Trusted env launched c) (l : Launched) : Trusted env (launched ++ [l]) c := by
  obtain ⟨covers, own, found, pinned⟩ := trusted
  obtain ⟨inside, _⟩ := List.getElem?_eq_some_iff.mp found
  have kept : (launched ++ [l])[c.process]? = some own := by
    rw [List.getElem?_append_left inside, found]
  exact ⟨covers, own, kept, pinned⟩

namespace Supervised

section Sound

variable (env : Env) (s : Supervised)

/-- Nothing is published, and nothing has been refused. -/
def Idle : Prop := s.client = none ∧ s.state ≠ .refused

/-- The client is published, and trusted. -/
def Published (c : Client) : Prop :=
  Trusted env s.launched c ∧ s.client = some c ∧ s.state = .running ∧ s.lastErr = ""

/-- What holds where `run` is: no process is alive but the one in hand, and so on. -/
def At : Point → Prop
  | .loop | .opening | .failing _ | .refusing _ | .resting | .sleeping _ => s.alive = [] ∧ s.Idle
  | .spawning hashed => s.alive = [] ∧ s.Idle ∧ env.sha256 hashed = env.plugin.sha256
  | .dispensing process => Only s.alive process ∧ s.Idle ∧ process < s.launched.length
  | .checking c => Only s.alive c.process ∧ s.Idle ∧ c.process < s.launched.length
  | .publishing c => Only s.alive c.process ∧ s.Idle ∧ Trusted env s.launched c
  | .waiting c | .killing c _ => Only s.alive c.process ∧ s.Published env c
  | .clearing c _ => s.alive = [] ∧ s.Published env c
  | .ending => s.alive = [] ∧ s.client = none
  | .ended => s.alive = [] ∧ s.client = none ∧ (s.state = .stopped ∨ s.state = .refused)

/-- What holds at every moment. -/
structure Sound : Prop where
  pinned : ∀ l ∈ s.launched, l.Pinned env
  taken : ∀ c ∈ s.taken, Trusted env s.launched c
  place : s.At env s.point

end Sound

section Steps

variable {env : Env} {s next : Supervised} {c : Client} {act : Act}

/-- At the start nothing has been launched, and nothing was given away. -/
theorem Sound.start (env : Env) (now : Int) : (start now).Sound env where
  pinned := by simp [Supervised.start]
  taken := by simp [Supervised.start]
  place := by simp [Supervised.start, At, Idle]

/-- At most one process is alive. -/
theorem Sound.single (sound : s.Sound env) : ∀ i ∈ s.alive, ∀ j ∈ s.alive, i = j := by
  have place := sound.place
  cases here : s.point <;> rw [here] at place <;> grind [At, Only]

/-- A client is published only while the plugin runs. -/
theorem Sound.published (sound : s.Sound env) (held : s.client = some c) : s.Published env c := by
  have place := sound.place
  cases here : s.point <;> rw [here] at place <;>
    grind [At, Idle, Published]

/-- A refusal is the last but one of the states. -/
theorem Sound.refused (sound : s.Sound env) (refused : s.state = .refused) :
    s.client = none ∧ (s.point = .ending ∨ s.point = .ended) := by
  have place := sound.place
  cases here : s.point <;> rw [here] at place <;>
    grind [At, Idle, Published]

theorem dead_of_only {process : Nat} (only : Only s.alive process) :
    (s.kill process).alive = [] := by
  simpa [kill, Only] using only

/-- A process exits by itself. -/
theorem At.exits {point : Point} (place : s.At env point) (process : Nat) :
    (s.kill process).At env point := by
  have fewer {p : Nat} (only : Only s.alive p) : Only (s.kill process).alive p :=
    fun q member => only q (List.mem_of_mem_filter member)
  have none' (empty : s.alive = []) : (s.kill process).alive = [] := by simp [kill, empty]
  cases point <;> exact ⟨by first | exact fewer place.1 | exact none' place.1, place.2⟩

/-- The head of the loop, where nothing runs. -/
theorem Sound.check (sound : s.Sound env) (here : s.point = .loop) (t : Int) :
    ({ s.check t with clock := t } : Supervised).Sound env := by
  obtain ⟨pinned, given, place⟩ := sound
  rw [here] at place
  obtain ⟨dead, unpublished, unrefused⟩ := place
  unfold Supervised.check
  split_ifs with cancelled again
  · exact ⟨pinned, given, dead, unpublished⟩
  · exact ⟨pinned, given, dead, unpublished, by simp⟩
  · exact ⟨pinned, given, dead, unpublished, unrefused⟩

/-- The end of `run`: what was not refused is stopped. -/
theorem Sound.finish (sound : s.Sound env) (here : s.point = .ending) : s.finish.Sound env := by
  obtain ⟨pinned, given, place⟩ := sound
  rw [here] at place
  obtain ⟨dead, unpublished⟩ := place
  unfold Supervised.finish
  split
  · exact ⟨pinned, given, dead, unpublished, .inl rfl⟩
  · next refused => exact ⟨pinned, given, dead, unpublished, .inr (not_not.mp refused)⟩

/-- The process that is started is the one in hand, and its contents were checked. -/
theorem Sound.spawn {hashed : Bytes} (sound : s.Sound env) (here : s.point = .spawning hashed)
    (files : Files) : (s.spawn env hashed files).Sound env := by
  obtain ⟨pinned, given, place⟩ := sound
  rw [here] at place
  obtain ⟨dead, idle, checked⟩ := place
  let executed := (verifiedCommand env.platform env.plugin.path).executes files
  let l : Launched := { hashed := hashed, files := files, executed := executed }
  have own : l.Pinned env := by
    refine ⟨checked, fun unchanged => ?_⟩
    have same : l.executed = hashed := executes_unchanged unchanged
    rw [same, checked]
  refine ⟨?_, fun c held => (given c held).grown l, ?_, idle, ?_⟩
  · exact List.forall_mem_append.mpr ⟨pinned, by simpa using own⟩
  · simp [Supervised.spawn, goto, Only, dead]
  · simp [Supervised.spawn, goto]

/-- One step of `run`, of a process or of a caller. -/
theorem Sound.moves (sound : s.Sound env) (moved : Moves env s act next) : next.Sound env := by
  have whole := sound
  obtain ⟨pinned, given, place⟩ := sound
  cases moved with
  | checks here => exact whole.check here _
  | spawned here => exact whole.spawn here _
  | finished here => exact whole.finish here
  | take =>
    refine ⟨pinned, fun c held => ?_, place⟩
    rcases List.mem_append.mp held with earlier | new
    · exact given c earlier
    · exact (whole.published (by simpa using new)).1
  | cancel => exact ⟨pinned, given, place⟩
  | exits process => exact ⟨pinned, given, place.exits process⟩
  | verified here checked =>
    rw [here] at place
    obtain ⟨dead, idle⟩ := place
    exact ⟨pinned, given, dead, idle, openVerified_pinned checked⟩
  | unverified here | rested here | woke here | dispensed here | exitSeen here | doneSeen here =>
    -- What holds here is what holds there.
    rw [here] at place
    exact ⟨pinned, given, place⟩
  | unspawned here =>
    rw [here] at place
    obtain ⟨dead, idle, _⟩ := place
    exact ⟨pinned, given, dead, idle⟩
  | undispensed here | uncovered here =>
    rw [here] at place
    obtain ⟨only, idle, _⟩ := place
    exact ⟨pinned, given, dead_of_only only, idle⟩
  | covered here covers =>
    rw [here] at place
    obtain ⟨only, idle, inside⟩ := place
    have found := List.getElem?_eq_getElem inside
    exact ⟨pinned, given, only, idle, covers, _, found, pinned _ (List.getElem_mem inside)⟩
  | published here =>
    rw [here] at place
    obtain ⟨only, _, trusted⟩ := place
    exact ⟨pinned, given, only, trusted, rfl, rfl, rfl⟩
  | killed here =>
    rw [here] at place
    obtain ⟨only, client⟩ := place
    exact ⟨pinned, given, dead_of_only only, client⟩
  | @cleared c exited here =>
    rw [here] at place
    obtain ⟨dead, _, _, running, _⟩ := place
    cases exited with
    | true => exact ⟨pinned, given, dead, rfl, fun refused => by cases running.symm.trans refused⟩
    | false => exact ⟨pinned, given, dead, rfl⟩
  | failed here =>
    rw [here] at place
    obtain ⟨dead, unpublished, _⟩ := place
    exact ⟨pinned, given, dead, unpublished, by simp⟩
  | refused here | stopped here =>
    rw [here] at place
    obtain ⟨dead, unpublished, _⟩ := place
    exact ⟨pinned, given, dead, unpublished⟩

end Steps

end Supervised

/-! ## The host -/

/-- `Host`: its plugins in the order of their names. -/
abbrev Host := List (BackendPlugin × Supervised)

/-- What can happen to a host: a step at one of its plugins, or the end of its context. -/
inductive HostAct where
  | one (index : Nat) (act : Act)
  | cancel

namespace Host

variable (server : Server) (host : Host)

/-- One action. The context is the host's, so none of the plugins' ends alone. -/
def step : HostAct → Option Host
  | .one index act =>
    if act.ofContext then none
    else host[index]?.bind fun p =>
      (p.2.step ⟨server, p.1⟩ act).map fun next => host.set index (p.1, next)
  | .cancel => some (host.map fun p => (p.1, { p.2 with cancelled := true }))

/-- `Start` of these plugins. -/
def start (now : Int) (plugins : List BackendPlugin) : Host := plugins.map fun p => (p, .start now)

/-- `running`. -/
def running (name : Bytes) : Except String Client :=
  match host.find? (fun p => p.1.name == name) with
  | none => .error ("Backend Plugin " ++ server.quote name ++ " is not configured")
  | some p =>
    match p.2.client with
    | none => .error ("Backend Plugin " ++ server.quote name ++ ": Backend Plugin is not running")
    | some c => .ok c

end Host

end TrustedCourier.PluginHost
