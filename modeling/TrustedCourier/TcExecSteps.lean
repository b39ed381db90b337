import TrustedCourier.TcExec

/-!
# What the parties of the broker can do

What each party can do in one step is said once, with the branches of the source that
have the same effect taken together. What is proved of every run of the broker is proved
by these effects.
-/

namespace TrustedCourier.TcExec

open List Option

open FilePaths (Kept elements elements_kept isAbs join join_inside rel rel_inside)

/-! ## Workers -/

/-- A worker gets this job: its command in a shell, in the directory that its working
directory is below the mounted workspace. -/
def Gets (b : Broker) (entry : Job) (args : List Bytes) : Prop :=
  [bytes "-c", entry.command] <:+ args ∧
  ∃ wd, [bytes "--chdir", wd] <:+: args ∧
    (∃ relative, rel b.workspace entry.workdir = .ok relative ∧
      wd = join (bytes "/workspace") relative) ∧
    ∀ rest, isAbs b.workspace = true → isAbs entry.workdir = true →
      elements entry.workdir = elements b.workspace ++ rest →
      wd = 0x2F :: [0x2F].intercalate (bytes "workspace" :: rest)

/-- A path below the workspace is at the same place below its mount. -/
theorem join_workspace {workspace workdir relative : Bytes} {rest : List Bytes}
    (found : rel workspace workdir = .ok relative) (rooted : isAbs workspace = true)
    (alike : isAbs workdir = true) (inside : elements workdir = elements workspace ++ rest) :
    join (bytes "/workspace") relative =
      0x2F :: [0x2F].intercalate (bytes "workspace" :: rest) := by
  have named : Kept (bytes "workspace") := ⟨by decide, by decide, by decide, by decide⟩
  have below : ∀ part ∈ rest, Kept part := by
    intro part member
    apply elements_kept alike
    rw [inside]
    exact mem_append_right _ member
  rw [rel_inside rooted alike inside] at found
  rw [← Except.ok.inj found]
  exact join_inside named below

/-- What a command is run with. -/
theorem shellArgs_ok {b : Broker} {host : Host} {j : Job} {args : List Bytes}
    (built : shellArgs b host j = .ok args) :
    Gets b j args := by
  revert built
  fun_cases shellArgs b host j <;> rintro ⟨⟩
  case case3 relative found _ _ _ =>
    refine ⟨?_, _, ⟨_, _, append_assoc _ _ _⟩, ⟨relative, found, rfl⟩,
      fun rest rooted alike inside => join_workspace found rooted alike inside⟩
    refine List.IsSuffix.trans ?_ (suffix_append _ _)
    refine List.IsSuffix.trans ?_ (suffix_append _ _)
    refine ⟨["--setenv", "HOME", "/home", "--setenv", "PATH", "/usr/bin:/bin", "--setenv",
      "TC_EXEC_CONFIG",
      "/tc-exec.json", "--setenv", "TC_EXEC_SOCKET", "/tc-broker.sock", "--seccomp",
      if b.workspaceDir then "4" else "3", "--", "/bin/bash", "--noprofile", "--norc"].map bytes,
        rfl⟩

/-- A dispatch whose worker cannot be started is not told that the broker is busy. -/
theorem shellArgs_error {b : Broker} {host : Host} {j : Job} {reply : Reply}
    (refused : shellArgs b host j = .error reply) :
    reply.error ≠ busy.error := by
  revert refused
  fun_cases shellArgs b host j <;> rintro ⟨⟩ <;> decide

theorem shellReply_error (result : Result) : (shellReply result).error ≠ busy.error := by
  unfold shellReply
  split
  · decide
  · change ([] : Bytes) ≠ busy.error
    decide

/-! ## Stages and phases -/

/-- The call has a worker slot. -/
def Stage.slot : Stage → Bool
  | .slotted | .taken _ | .launching _ | .running _ | .leaving _ => true
  | _ => false

/-- The call's worker runs. -/
def Stage.runs : Stage → Bool
  | .running _ => true
  | _ => false

/-- The call holds the lock. -/
def Stage.locks : Stage → Bool
  | .entered _ _ | .recorded _ => true
  | _ => false

/-- The call is a dispatch that got a slot. -/
def Stage.past : Stage → Bool
  | .taken _ | .launching _ | .running _ => true
  | .leaving reply | .answered reply => reply.error != busy.error
  | _ => false

/-- The working directory that a submission has found. -/
def Stage.workdir : Stage → Option Bytes
  | .checked workdir | .drawn workdir _ | .entered workdir _ => some workdir
  | _ => none

/-- The goroutine has not yet removed its job. -/
def Phase.active : Phase → Bool
  | .removed | .finished => false
  | _ => true

/-! ## One step of each party -/

section Steps

variable (b : Broker) (s : State)

/-- How a call goes on, by its effect. -/
inductive Call.Goes (k : Nat) (call : Call) : Move → State → Prop where
  | answers {move : Move} {reply : Reply} (unslotted : call.stage.slot = false)
      (unlocked : call.stage.locks = false)
      (fresh : call.stage.past = false) : Goes k call move (s.set k (.answered reply))
  | leaves {move : Move} {reply : Reply} (slotted : call.stage.slot = true)
      (past : call.stage.past = true)
      (other : reply.error ≠ busy.error) : Goes k call move (s.set k (.leaving reply))
  | checks {atRoot atPath atWorkdir : Files} {workdir : Bytes} (begun : call.stage = .begun)
      (inside : within atRoot atPath b.workspace call.message.workdir = true)
      (found : canonical atWorkdir call.message.workdir true = .ok workdir) :
      Goes k call (.check atRoot atPath atWorkdir) (s.set k (.checked workdir))
  | draws {nonce : Fin 24 → UInt8} {workdir : Bytes} (checked : call.stage = .checked workdir) :
      Goes k call (.draw (some nonce))
        ((s.log (.drawn k (jobID nonce))).set k (.drawn workdir (jobID nonce)))
  | refused {workdir id : Bytes} (drawn : call.stage = .drawn workdir id) (free : s.lock = none) :
      Goes k call .enter ((s.expire s.now).set k (.answered busy))
  | enters {workdir id : Bytes} (drawn : call.stage = .drawn workdir id) (free : s.lock = none)
      (room : (s.expire s.now).jobs.entries.length < maxJobs)
        (few : (s.expire s.now).mailboxActive < maxJobs) :
      Goes k call .enter ({ s.expire s.now with lock := some k }.set k (.entered workdir id))
  | records {workdir id : Bytes} {entry : Job} (entered : call.stage = .entered workdir id)
      (made : entry = { command := call.message.command, workdir := workdir, created := s.now }) :
      Goes k call .record
        ({ s.log (.recorded k id entry) with jobs := s.jobs.insert id entry }.set k (.recorded id))
  | publishes {id : Bytes} {made : Option (Nat × Nat × Nat)} {reply : Reply}
      (recorded : call.stage = .recorded id) :
      Goes k call (.publish made) ({ s with lock := none }.set k (.answered reply))
  | opens {id : Bytes} {made : Option (Nat × Nat × Nat)} {reply : Reply}
      (recorded : call.stage = .recorded id) :
      Goes k call (.publish made)
        ({ s.opened id with lock := none }.set k (.answered reply))
  | unmade {id : Bytes} {made : Option (Nat × Nat × Nat)} {reply : Reply}
      (recorded : call.stage = .recorded id) :
      Goes k call (.publish made)
        ({ s.delete id (.unmade k) with lock := none }.set k (.answered reply))
  | acquires (begun : call.stage = .begun) (free : s.workers < maxWorkers) :
      Goes k call .acquire ({ s with workers := s.workers + 1 }.set k .slotted)
  | takes (slotted : call.stage = .slotted) (free : s.lock = none) :
      Goes k call .take
        ((s.delete call.message.job (.dispatch k)).set k (.taken (s.jobs.lookup call.message.job)))
  | admits {entry : Job} (taken : call.stage = .taken (some entry))
      (young : s.now - entry.created ≤ jobTTL) :
      Goes k call .judge ((s.log (.admitted k call.message.job entry s.now)).set k
        (.launching entry))
  | starts {entry : Job} {host : Host} {args : List Bytes}
      (launching : call.stage = .launching entry) (built : shellArgs b host entry = .ok args) :
      Goes k call (.launch host none) ((s.log (.started k call.message.job entry args)).set k
        (.running entry))
  | releases {reply : Reply} (leaving : call.stage = .leaving reply) :
      Goes k call .release ({ s with workers := s.workers - 1 }.set k (.answered reply))

/-- How a mailbox goes on, by its effect. -/
inductive Mailbox.Goes (j : Nat) (box : Mailbox) : State → Prop where
  | stays : Goes j box s
  | moves {phase : Phase} (same : phase.active = box.phase.active) : Goes j box (s.setPhase j phase)
  | spawns {m : Message} {phase : Phase} (same : phase.active = box.phase.active) :
      Goes j box ((s.spawn .fifo m).setPhase j phase)
  | removes (active : box.phase.active = true) (free : s.lock = none) :
      Goes j box
        ({ s.delete box.job (.mailbox j) with mailboxActive := s.mailboxActive - 1 }.setPhase j
          .removed)

end Steps

section Effects

variable {b : Broker} {s : State} {k : Nat} {call : Call} {move : Move} {reply : Reply}
  {stage : Stage}

/-- A call is answered that has neither a slot nor the lock. -/
theorem Call.Goes.answersAt (here : call.stage = stage)
    (plain : stage.slot = false ∧ stage.locks = false ∧ stage.past = false) :
    call.Goes b s k move (s.set k (.answered reply)) := by
  rw [← here] at plain
  exact .answers plain.1 plain.2.1 plain.2.2

/-- A dispatch that got a slot leaves. -/
theorem Call.Goes.leavesAt (here : call.stage = stage)
    (slotted : stage.slot = true ∧ stage.past = true) (other : reply.error ≠ busy.error) :
    call.Goes b s k move (s.set k (.leaving reply)) := by
  rw [← here] at slotted
  exact .leaves slotted.1 slotted.2 other

/-- A mailbox goes on that removes nothing. -/
theorem Mailbox.Goes.movesAt {j : Nat} {box : Mailbox} {phase earlier : Phase}
    (here : box.phase = earlier) (same : phase.active = earlier.active) :
    box.Goes s j (s.setPhase j phase) := by
  rw [← here] at same
  exact .moves same

end Effects

/-- Every step of a call has one of these effects. -/
theorem processJobContext_goes {b : Broker} {s next : State} {k : Nat} {call : Call} {move : Move}
    (stepped : s.processJobContext b k call move = some next) : call.Goes b s k move next := by
  revert stepped
  fun_cases s.processJobContext b k call move <;> rintro ⟨⟩
  case case1 begun _ _ | case2 begun _ _ _ | case3 begun _ _ _ _ _ | case16 begun _ _ | case28 begun
      _ | case29 begun _ _ => exact .answersAt begun ⟨rfl, rfl, rfl⟩
  case case4 begun _ _ inside workdir found =>
    exact .checks begun (Bool.not_eq_false _ ▸ inside) found
  case case6 checked => exact .answersAt checked ⟨rfl, rfl, rfl⟩
  case case7 checked => exact .draws checked
  case case8 drawn free _ _ => exact .refused drawn free
  case case9 drawn free _ room =>
    have both := not_or.mp room
    exact .enters drawn free (Nat.lt_of_not_le both.1) (Int.lt_of_not_ge both.2)
  case case11 entered _ => exact .records entered rfl
  case case12 recorded _ => exact .publishes recorded
  case case13 recorded _ _ ref opened made =>
    unfold State.newMailboxJob at made
    split at made
    · simp at made
    · obtain ⟨fifos, _, same⟩ := map_eq_some_iff.mp made
      obtain rfl := (Prod.mk.inj same).2
      exact .opens recorded
  case case14 recorded _ _ _ => exact .unmade recorded
  case case15 begun _ free => exact .acquires begun free
  case case18 slotted free => exact .takes slotted free
  case case20 taken | case21 taken _ => exact .leavesAt taken ⟨rfl, rfl⟩ (by decide)
  case case22 taken young => exact .admits taken (Int.not_lt.mp young)
  case case23 launching _ refused => exact .leavesAt launching ⟨rfl, rfl⟩ (shellArgs_error refused)
  case case24 launching _ built => exact .starts launching built
  case case25 launching _ _ _ => exact .leavesAt launching ⟨rfl, rfl⟩ (shellReply_error _)
  case case26 running => exact .leavesAt running ⟨rfl, rfl⟩ (shellReply_error _)
  case case27 leaving => exact .releases leaving

theorem serveMailbox_goes {s next : State} {j : Nat} {box : Mailbox} {move : BoxMove}
    (stepped : s.serveMailbox j box move = some next) : box.Goes s j next := by
  revert stepped
  fun_cases s.serveMailbox j box move <;> rintro ⟨⟩
  case case2 phase _ | case4 phase => exact .movesAt phase (by split <;> rfl)
  case case5 phase => exact .spawns (by rw [phase]; rfl)
  case case14 => exact .stays
  case case19 phase free => exact .removes (by rw [phase]; rfl) free
  case case1 phase | case6 phase _ _ | case7 phase | case8 phase | case9 phase | case10 phase _ |
      case12 phase _ | case15 phase _ _ | case16 phase _ | case18 phase | case21 phase =>
    exact .movesAt phase rfl

/-! ## States that go on -/

section Updates

variable {s : State} {k : Nat} {stage : Stage} {call : Call}

/-- One entry of a list is changed: what that does to a count. -/
theorem countP_modify {α : Type} {p : α → Bool} {f : α → α} {l : List α} {i : Nat} {a : α}
    (found : l[i]? = some a) :
    (l.modify i f).countP p + (p a).toNat = l.countP p + (p (f a)).toNat := by
  induction l generalizing i with
  | nil => simp at found
  | cons first rest ih =>
    cases i with
    | zero =>
      obtain rfl : first = a := by simpa using found
      cases here : p first <;> cases there : p (f first) <;> simp [here, there]
    | succ i =>
      have later := ih (by simpa using found)
      rw [modify_succ_cons, countP_cons, countP_cons]
      omega

theorem set_calls (s : State) (k : Nat) (stage : Stage) (i : Nat) :
    (s.set k stage).calls[i]? = s.calls[i]?.map fun call => if k = i then
    { call with stage := stage } else call :=
  getElem?_modify _ _ _ _

theorem calls_set {i : Nat} {other : Call} (found : (s.set k stage).calls[i]? = some other) :
    (i = k ∧ ∃ call, s.calls[k]? = some call ∧ other = { call with stage := stage }) ∨
      (i ≠ k ∧ s.calls[i]? = some other) := by
  rw [set_calls] at found
  obtain ⟨call, here, same⟩ := map_eq_some_iff.mp found
  by_cases self : k = i
  · subst self
    rw [if_pos rfl] at same
    exact .inl ⟨rfl, call, here, same.symm⟩
  · rw [if_neg self] at same
    exact .inr ⟨fun back => self back.symm, by rw [here, same]⟩

theorem set_set (s : State) (k : Nat) (first stage : Stage) :
    (s.set k first).set k stage = s.set k stage := by
  unfold State.set
  rw [modify_modify_eq]
  rfl

theorem calls_spawn {transport : Transport} {m : Message} {i : Nat} {other : Call}
    (found : (s.spawn transport m).calls[i]? = some other) :
    s.calls[i]? = some other ∨ other.stage = .begun := by
  unfold State.spawn at found
  rw [getElem?_append] at found
  split at found
  · exact .inl found
  · have last := mem_of_getElem? found
    rw [mem_singleton.mp last]
    exact .inr rfl

/-- Removing an entry changes only the table and the history. -/
theorem delete_frame (s : State) (id : Bytes) (cause : Cause) :
    ∃ jobs history, s.delete id cause = { s with jobs := jobs, history := history } := by
  unfold State.delete
  split
  · exact ⟨s.jobs, s.history, rfl⟩
  · exact ⟨_, _, rfl⟩

/-- What removing an entry keeps, expiry keeps. -/
theorem expire_induction {P : State → Prop} (kept : ∀ s id, P s → P (s.delete id .expiry))
    (now : Int) (holds : P s) :
    P (s.expire now) := by
  have general : ∀ (entries : List (Sigma fun _ : Bytes => Job)) (s : State), P s →
      P (entries.foldl (fun s e => if jobTTL < now - e.2.created then s.delete e.1 .expiry else s)
        s) := by
    intro entries
    induction entries with
    | nil => exact fun _ holds => holds
    | cons entry rest ih =>
      intro s holds
      rw [foldl_cons]
      apply ih
      split
      · exact kept s entry.1 holds
      · exact holds
  exact general s.jobs.entries s holds

/-- Expiry changes only the table and the history. -/
theorem expire_frame (s : State) (now : Int) :
    ∃ jobs history, s.expire now = { s with jobs := jobs, history := history } := by
  apply expire_induction (P := fun t => ∃ jobs history, t =
    { s with jobs := jobs, history := history }) _ now
  · exact ⟨s.jobs, s.history, rfl⟩
  · rintro t id ⟨jobs, history, rfl⟩
    obtain ⟨fewer, longer, same⟩ :=
      delete_frame { s with jobs := jobs, history := history } id .expiry
    exact ⟨fewer, longer, same⟩

end Updates

end TrustedCourier.TcExec
