import TrustedCourier.TcExecSteps

/-!
# The broker's bounds

The worker slots that are taken are those of the calls that have one, so no more workers
run than there are slots. A submission looks for room and adds its job under one lock, and
counts its mailbox under it; the mailbox is counted until it has removed its job. The table
and the mailboxes therefore stay within their bounds at every moment, those at which a
submission holds the lock included.
-/

namespace TrustedCourier.TcExec

/-! ## Worker slots -/

section Slots

variable {b : Broker} {s next : State}

/-- The slots taken are those of the calls, and no more than there are. -/
structure Slots (s : State) : Prop where
  counted : s.workers = s.calls.countP fun call => call.stage.slot
  few : s.workers ≤ maxWorkers

/-- A call goes on and takes a slot or gives one back, as the count of workers says. -/
theorem Slots.set {k workers : Nat} {call : Call} {stage : Stage} (slots : Slots s)
    (found : s.calls[k]? = some call)
    (moved : workers + call.stage.slot.toNat = s.workers + stage.slot.toNat)
    (few : workers ≤ maxWorkers) :
    Slots ({ s with workers := workers }.set k stage) where
  counted := by
    have count : _ + call.stage.slot.toNat = _ + stage.slot.toNat :=
      countP_modify (p := fun call : Call => call.stage.slot)
        (f := fun call => { call with stage := stage }) found
    rw [← slots.counted] at count
    change workers = List.countP _ (s.calls.modify k _)
    omega
  few := few

/-- A call that has a slot before and after, or neither. -/
theorem Slots.same {k : Nat} {call : Call} {stage : Stage} (slots : Slots s)
    (found : s.calls[k]? = some call) (same : stage.slot = call.stage.slot) :
    Slots (s.set k stage) :=
  slots.set found (by rw [same]) slots.few

/-- Expired entries have no slots. -/
theorem Slots.expire (slots : Slots s) (now : Int) : Slots (s.expire now) := by
  obtain ⟨jobs, history, same⟩ := expire_frame s now
  rw [same]
  exact ⟨slots.counted, slots.few⟩

/-- A removed entry has no slot. -/
theorem Slots.delete (slots : Slots s) (id : Bytes) (cause : Cause) :
    Slots (s.delete id cause) := by
  obtain ⟨jobs, history, same⟩ := delete_frame s id cause
  rw [same]
  exact ⟨slots.counted, slots.few⟩

/-- A new call has no slot. -/
theorem Slots.spawn (slots : Slots s) (transport : Transport) (m : Message) :
    Slots (s.spawn transport m) where
  counted := by
    change s.workers = List.countP _ (s.calls ++ [_])
    rw [List.countP_append, ← slots.counted]
    rfl
  few := slots.few

/-- Whatever a call does, the slots are counted. -/
theorem call_slots {k : Nat} {call : Call} {move : Move} (slots : Slots s)
    (found : s.calls[k]? = some call) (goes : call.Goes b s k move next) : Slots next := by
  cases goes with
  | answers unslotted => exact slots.same found unslotted.symm
  | leaves slotted => exact slots.same found slotted.symm
  | checks here | draws here | records here | publishes here | opens here | admits here
  | starts here => exact Slots.same ⟨slots.counted, slots.few⟩ found (by rw [here]; rfl)
  | refused drawn | enters drawn =>
    obtain ⟨jobs, history, same⟩ := expire_frame s s.now
    rw [same]
    exact Slots.same ⟨slots.counted, slots.few⟩ found (by rw [drawn]; rfl)
  | @unmade id _ _ recorded =>
    obtain ⟨jobs, history, same⟩ := delete_frame s id (.unmade k)
    rw [same]
    exact Slots.same ⟨slots.counted, slots.few⟩ found (by rw [recorded]; rfl)
  | acquires begun free => exact slots.set found (by rw [begun]; rfl) free
  | takes slotted =>
    obtain ⟨jobs, history, same⟩ := delete_frame s call.message.job (.dispatch k)
    rw [same]
    exact Slots.same ⟨slots.counted, slots.few⟩ found (by rw [slotted]; rfl)
  | releases leaving =>
    have some' : 0 < s.workers := by
      rw [slots.counted, List.countP_pos_iff]
      exact ⟨call, List.mem_of_getElem? found, by rw [leaving]; rfl⟩
    have few := slots.few
    apply slots.set found
    · rw [leaving]
      change s.workers - 1 + 1 = s.workers + 0
      omega
    · omega

/-- Whatever a mailbox does, the slots are counted. -/
theorem mailbox_slots {j : Nat} {box : Mailbox} (slots : Slots s) (goes : box.Goes s j next) :
    Slots next := by
  cases goes with
  | stays => exact slots
  | moves => exact ⟨slots.counted, slots.few⟩
  | @spawns m =>
    have spawned := slots.spawn .fifo m
    exact ⟨spawned.counted, spawned.few⟩
  | removes =>
    have deleted := slots.delete box.job (.mailbox j)
    exact ⟨deleted.counted, deleted.few⟩

/-- No more workers run than there are slots. -/
theorem Slots.running (slots : Slots s) :
    (s.calls.countP fun call => call.stage.runs) ≤ maxWorkers := by
  have inside : (s.calls.countP fun call => call.stage.runs) ≤ s.calls.countP fun call =>
      call.stage.slot := by
    apply List.countP_mono_left
    intro call _ runs
    cases here : call.stage with
    | running => rfl
    | _ => simp [here, Stage.runs] at runs
  exact inside.trans (slots.counted ▸ slots.few)

end Slots

/-! ## Room for jobs and mailboxes -/

section Room

variable {b : Broker} {s next : State}

/-- The table and the mailboxes are within their bounds, and the call that holds the lock
has found room for what it is about to add. -/
structure Room (s : State) : Prop where
  jobs : s.jobs.entries.length ≤ maxJobs
  active : s.mailboxActive = s.mailboxes.countP fun box => box.phase.active
  bound : s.mailboxActive ≤ maxJobs
  holder : ∀ (k : Nat) (call : Call), s.calls[k]? = some call → call.stage.locks = true →
    s.lock = some k ∧ s.mailboxActive < maxJobs
  room : ∀ (k : Nat) (call : Call) (workdir id : Bytes), s.calls[k]? = some call →
    call.stage = .entered workdir id →
    s.jobs.entries.length < maxJobs

/-- What is in a table after an entry is removed. -/
theorem delete_length (s : State) (id : Bytes) (cause : Cause) :
    (s.delete id cause).jobs.entries.length ≤ s.jobs.entries.length := by
  unfold State.delete
  split
  · exact Nat.le_refl _
  · exact (List.kerase_sublist id s.jobs.entries).length_le

/-- An insert adds at most one entry. -/
theorem insert_length (jobs : AList fun _ : Bytes => Job) (id : Bytes) (entry : Job) :
    (jobs.insert id entry).entries.length ≤ jobs.entries.length + 1 :=
  Nat.succ_le_succ (List.kerase_sublist id jobs.entries).length_le

/-- Fewer jobs, and nothing else is different. -/
theorem Room.fewer {jobs : AList fun _ : Bytes => Job} {history : List Event} (room : Room s)
    (fewer : jobs.entries.length ≤ s.jobs.entries.length) :
    Room { s with jobs := jobs, history := history } where
  jobs := fewer.trans room.jobs
  active := room.active
  bound := room.bound
  holder := room.holder
  room k call workdir id found entered := fewer.trans_lt (room.room k call workdir id found entered)

/-- A removed entry makes room. -/
theorem Room.delete (room : Room s) (id : Bytes) (cause : Cause) : Room (s.delete id cause) := by
  have fewer := delete_length s id cause
  obtain ⟨jobs, history, same⟩ := delete_frame s id cause
  rw [same] at fewer ⊢
  exact room.fewer fewer

/-- Expired entries make room. -/
theorem Room.expire (room : Room s) (now : Int) : Room (s.expire now) :=
  expire_induction (fun _ id known => known.delete id .expiry) now room

/-- A call goes on without the lock. -/
theorem Room.set {k : Nat} {stage : Stage} (room : Room s) (unlocked : stage.locks = false) :
    Room (s.set k stage) where
  jobs := room.jobs
  active := room.active
  bound := room.bound
  holder := by
    intro i other found locks
    rcases calls_set found with ⟨rfl, call, _, rfl⟩ | ⟨_, there⟩
    · cases unlocked.symm.trans locks
    · exact room.holder i other there locks
  room := by
    intro i other workdir id found entered
    rcases calls_set found with ⟨rfl, call, _, rfl⟩ | ⟨_, there⟩
    · have same : stage = .entered workdir id := entered
      simp [same, Stage.locks] at unlocked
    · exact room.room i other workdir id there entered

/-- Nobody holds the lock. -/
structure Open (s : State) : Prop where
  jobs : s.jobs.entries.length ≤ maxJobs
  active : s.mailboxActive = s.mailboxes.countP fun box => box.phase.active
  bound : s.mailboxActive ≤ maxJobs
  nobody : ∀ (k : Nat) (call : Call), s.calls[k]? = some call → call.stage.locks = false

/-- Where nobody holds the lock, nobody has entered without a job yet. -/
theorem Open.room (free : Open s) : Room s where
  jobs := free.jobs
  active := free.active
  bound := free.bound
  holder k call found locks := absurd ((free.nobody k call found).symm.trans locks) (by decide)
  room k call workdir id found entered := by
    have unlocked := free.nobody k call found
    simp [entered, Stage.locks] at unlocked

section

variable (room : Room s)
include room

/-- A free lock is held by nobody. -/
theorem Room.unlocked (free : s.lock = none) : Open s where
  jobs := room.jobs
  active := room.active
  bound := room.bound
  nobody := by
    intro k call found
    by_contra locks
    have held := (room.holder k call found (Bool.not_eq_false _ ▸ locks)).1
    rw [free] at held
    simp at held

/-- The call that holds the lock gives it back. -/
theorem Room.release {k : Nat} {call : Call} {reply : Reply} (found : s.calls[k]? = some call)
    (locks : call.stage.locks = true) : Open ({ s with lock := none }.set k (.answered reply)) where
  jobs := room.jobs
  active := room.active
  bound := room.bound
  nobody := by
    intro i other here
    rcases calls_set here with ⟨rfl, earlier, _, rfl⟩ | ⟨apart, there⟩
    · rfl
    · by_contra held
      have both := (room.holder i other there (Bool.not_eq_false _ ▸ held)).1
      rw [(room.holder k call found locks).1] at both
      exact apart (Option.some.inj both).symm

/-- Whatever a call does, the bounds hold. -/
theorem call_room {k : Nat} {call : Call} {move : Move} (found : s.calls[k]? = some call)
    (goes : call.Goes b s k move next) : Room next := by
  cases goes with
  | answers | leaves | checks => exact room.set rfl
  | refused => exact (room.expire s.now).set rfl
  | @enters workdir id drawn free fits few =>
    have swept := room.expire s.now
    obtain ⟨jobs, history, same⟩ := expire_frame s s.now
    rw [same] at swept fits few ⊢
    have open' := swept.unlocked free
    refine ⟨swept.jobs, swept.active, swept.bound, ?_, ?_⟩
    · intro i other here locks
      rcases calls_set here with ⟨rfl, earlier, _, rfl⟩ | ⟨_, there⟩
      · exact ⟨rfl, few⟩
      · cases (open'.nobody i other there).symm.trans locks
    · exact fun _ _ _ _ _ _ => fits
  | @records workdir id entry entered =>
    have locks : call.stage.locks = true := by rw [entered]; rfl
    obtain ⟨held, few⟩ := room.holder k call found locks
    have space := room.room k call workdir id found entered
    refine ⟨(insert_length s.jobs id entry).trans space, room.active, room.bound, ?_, ?_⟩
    · intro i other here locked
      rcases calls_set here with ⟨rfl, earlier, _, rfl⟩ | ⟨_, there⟩
      · exact ⟨held, few⟩
      · exact room.holder i other there locked
    · intro i other workdir' id' here again
      rcases calls_set here with ⟨rfl, earlier, _, rfl⟩ | ⟨apart, there⟩
      · simp at again
      · have both := (room.holder i other there (by rw [again]; rfl)).1
        rw [held] at both
        exact absurd (Option.some.inj both).symm apart
  | publishes recorded => exact (room.release found (by rw [recorded]; rfl)).room
  | @opens id _ reply recorded =>
    have locks : call.stage.locks = true := by rw [recorded]; rfl
    have released : Open ({ s with lock := none }.set k (.answered reply)) :=
      room.release found locks
    have few := (room.holder k call found locks).2
    refine Open.room ⟨released.jobs, ?_, ?_, released.nobody⟩
    · change s.mailboxActive + 1 = ((s.mailboxes ++ [_]).countP _ : Nat)
      rw [List.countP_append, room.active]
      rfl
    · change s.mailboxActive + 1 ≤ maxJobs
      omega
  | @unmade id _ reply recorded =>
    have deleted := room.delete id (.unmade k)
    obtain ⟨jobs, history, same⟩ := delete_frame s id (.unmade k)
    have here : (s.delete id (.unmade k)).calls[k]? = some call := by
      rw [same]
      exact found
    exact (deleted.release here (by rw [recorded]; rfl)).room
  | takes => exact (room.delete call.message.job (.dispatch k)).set rfl
  | draws | acquires | admits | starts | releases =>
    exact Room.set ⟨room.jobs, room.active, room.bound, room.holder, room.room⟩ rfl

/-- A new call takes no room. -/
theorem Room.spawn (transport : Transport) (m : Message) : Room (s.spawn transport m) where
  jobs := room.jobs
  active := room.active
  bound := room.bound
  holder := by
    intro i other found locks
    rcases calls_spawn found with earlier | begun
    · exact room.holder i other earlier locks
    · rw [begun] at locks
      exact absurd locks (by decide)
  room := by
    intro i other workdir id found entered
    rcases calls_spawn found with earlier | begun
    · exact room.room i other workdir id earlier entered
    · rw [begun] at entered
      simp at entered

/-- A mailbox goes on, its count changed as its phase says. -/
theorem Room.setPhase {j : Nat} {box : Mailbox} {phase : Phase} {active : Int}
    (found : s.mailboxes[j]? = some box)
    (moved : active + box.phase.active.toNat = s.mailboxActive + phase.active.toNat)
    (fewer : active ≤ s.mailboxActive) :
    Room ({ s with mailboxActive := active }.setPhase j phase) where
  jobs := room.jobs
  active := by
    have count : _ + box.phase.active.toNat = _ + phase.active.toNat :=
      countP_modify (p := fun box : Mailbox => box.phase.active)
        (f := fun box => { box with phase := phase }) found
    have known := room.active
    change active = (List.countP _ (s.mailboxes.modify j _) : Nat)
    omega
  bound := Int.le_trans fewer room.bound
  holder k call here locks :=
    ⟨(room.holder k call here locks).1, Int.lt_of_le_of_lt fewer (room.holder k call here locks).2⟩
  room := room.room

/-- Whatever a mailbox does, the bounds hold. -/
theorem mailbox_room {j : Nat} {box : Mailbox} (found : s.mailboxes[j]? = some box)
    (goes : box.Goes s j next) : Room next := by
  cases goes with
  | stays => exact room
  | moves same => exact room.setPhase found (by rw [same]) (Int.le_refl _)
  | @spawns m _ same =>
    exact (room.spawn .fifo m).setPhase found (by rw [same]; rfl) (Int.le_refl _)
  | removes active =>
    have deleted := room.delete box.job (.mailbox j)
    obtain ⟨jobs, history, same⟩ := delete_frame s box.job (.mailbox j)
    rw [same] at deleted ⊢
    refine deleted.setPhase found ?_ (by change s.mailboxActive - 1 ≤ s.mailboxActive; omega)
    rw [active]
    change s.mailboxActive - 1 + 1 = s.mailboxActive + 0
    omega

end

end Room

end TrustedCourier.TcExec
