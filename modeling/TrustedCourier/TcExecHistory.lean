import TrustedCourier.TcExecSteps

/-!
# What the broker's history says

Whatever is recorded comes from a submission whose working directory was checked, whatever
is admitted was checked against the clock, and whatever is started was given to bwrap. A
dispatch that was refused for want of a slot has not touched the table.
-/

namespace TrustedCourier.TcExec

open Option

/-- The message of a call. -/
def State.message (s : State) (k : Nat) : Option Message := s.calls[k]?.map Call.message

/-! ## What the history says -/

section Histories

variable {b : Broker} {acts : List Act} {s next : State}

/-- The call's working directory is the canonical form of the one in its message, as it
was found when the message was checked. -/
def Submitted (b : Broker) (acts : List Act) (k : Nat) (m : Message) (workdir : Bytes) : Prop :=
  ∃ atRoot atPath atWorkdir, .call k (.check atRoot atPath atWorkdir) ∈ acts ∧
    within atRoot atPath b.workspace m.workdir = true ∧
      canonical atWorkdir m.workdir true = .ok workdir

/-- What is recorded is what was submitted, what is admitted is not too old, and a worker
gets what it is started for. -/
def Event.Fits (b : Broker) (acts : List Act) (messages : Nat → Option Message) : Event → Prop
  | .recorded k _ entry =>
    ∃ m, messages k = some m ∧ entry.command = m.command ∧ Submitted b acts k m entry.workdir
  | .admitted _ _ entry now => now - entry.created ≤ jobTTL
  | .started _ _ entry args => Gets b entry args
  | _ => True

/-- What calls are at, and what has happened, fits what clients have asked for. -/
structure Told (b : Broker) (acts : List Act) (s : State) : Prop where
  stages : ∀ (k : Nat) (call : Call) (workdir : Bytes), s.calls[k]? = some call →
    call.stage.workdir = some workdir →
    Submitted b acts k call.message workdir
  events : ∀ event ∈ s.history, event.Fits b acts s.message

variable {k : Nat}

/-- A submission stays one when another action is taken. -/
theorem Submitted.later {m : Message} {workdir : Bytes} (submitted : Submitted b acts k m workdir)
    (act : Act) :
    Submitted b (acts ++ [act]) k m workdir := by
  obtain ⟨atRoot, atPath, atWorkdir, checked, rest⟩ := submitted
  exact ⟨atRoot, atPath, atWorkdir, List.mem_append_left _ checked, rest⟩

/-- The messages of calls do not change when one goes on. -/
theorem message_set (s : State) (k : Nat) (stage : Stage) :
    (s.set k stage).message = s.message := by
  funext i
  unfold State.message
  rw [set_calls, map_map]
  congr 1
  funext call
  rw [Function.comp_apply]
  split <;> rfl

/-- The messages of the calls before are as they were. -/
theorem message_spawn {transport : Transport} {m other : Message} {i : Nat}
    (known : s.message i = some other) :
    (s.spawn transport m).message i = some other := by
  obtain ⟨call, found, same⟩ := map_eq_some_iff.mp known
  have inside := (List.getElem?_eq_some_iff.mp found).1
  unfold State.message State.spawn
  rw [List.getElem?_append_left inside, found]
  exact congrArg some same

namespace Told

/-- A further action takes nothing back. -/
theorem later (told : Told b acts s) (act : Act) : Told b (acts ++ [act]) s where
  stages k call workdir found known := (told.stages k call workdir found known).later act
  events := by
    intro event member
    have fits := told.events event member
    cases event with
    | recorded k id entry =>
      obtain ⟨m, known, same, submitted⟩ := fits
      exact ⟨m, known, same, submitted.later act⟩
    | _ => exact fits

/-- A call goes on to a stage with a workdir that was submitted with it. -/
theorem set {stage : Stage} (told : Told b acts s)
    (known : ∀ (call : Call) (workdir : Bytes), s.calls[k]? = some call →
      stage.workdir = some workdir →
      Submitted b acts k call.message workdir) : Told b acts (s.set k stage) where
  stages := by
    intro i other workdir found here
    rcases calls_set found with ⟨rfl, call, there, rfl⟩ | ⟨_, there⟩
    · exact known call workdir there here
    · exact told.stages i other workdir there here
  events := by
    rw [message_set]
    exact told.events

/-- A call that is no submission on its way may be anywhere. -/
theorem idle {stage : Stage} (told : Told b acts s) (nowhere : stage.workdir = none) :
    Told b acts (s.set k stage) := by
  apply told.set
  intro call workdir _ here
  rw [nowhere] at here
  simp at here

/-- A submission goes on with the working directory that it has found. -/
theorem carry {call : Call} {stage : Stage} (told : Told b acts s) (found : s.calls[k]? = some call)
    (same : stage.workdir = call.stage.workdir) : Told b acts (s.set k stage) := by
  apply told.set
  intro other workdir here known
  obtain rfl : call = other := some.inj (found.symm.trans here)
  exact told.stages k call workdir found (same ▸ known)

/-- Something happens that fits. -/
theorem log (told : Told b acts s) (event : Event) (fits : event.Fits b acts s.message) :
    Told b acts (s.log event) where
  stages := told.stages
  events := by
    intro other member
    rcases List.mem_append.mp member with earlier | last
    · exact told.events other earlier
    · rw [List.mem_singleton.mp last]
      exact fits

/-- An entry is removed. -/
theorem delete (told : Told b acts s) (id : Bytes) (cause : Cause) :
    Told b acts (s.delete id cause) := by
  unfold State.delete
  split
  · exact told
  · have logged := told.log (.removed id cause) trivial
    exact ⟨logged.stages, logged.events⟩

/-- The expired entries are removed. -/
theorem expire (told : Told b acts s) (now : Int) : Told b acts (s.expire now) :=
  expire_induction (fun _ id known => known.delete id .expiry) now told

/-- A new call has no workdir yet. -/
theorem spawn (told : Told b acts s) (transport : Transport) (m : Message) :
    Told b acts (s.spawn transport m) where
  stages := by
    intro i other workdir found here
    rcases calls_spawn found with earlier | begun
    · exact told.stages i other workdir earlier here
    · rw [begun] at here
      simp [Stage.workdir] at here
  events := by
    intro event member
    have fits := told.events event member
    cases event with
    | recorded k id entry =>
      obtain ⟨other, known, rest⟩ := fits
      exact ⟨other, message_spawn known, rest⟩
    | _ => exact fits

end Told

/-- Whatever a call does fits. -/
theorem call_told {call : Call} {move : Move} (told : Told b acts s) (taken : .call k move ∈ acts)
    (found : s.calls[k]? = some call) (goes : call.Goes b s k move next) : Told b acts next := by
  cases goes with
  | answers | leaves => exact told.idle rfl
  | checks _ inside canonical =>
    apply told.set
    intro other workdir here known
    obtain rfl : call = other := some.inj (found.symm.trans here)
    cases known
    exact ⟨_, _, _, taken, inside, canonical⟩
  | @draws nonce _ checked =>
    exact (told.log (.drawn k (jobID nonce)) trivial).carry found (by rw [checked]; rfl)
  | refused => exact (told.expire s.now).idle rfl
  | enters drawn =>
    have swept := told.expire s.now
    obtain ⟨jobs, history, same⟩ := expire_frame s s.now
    rw [same] at swept ⊢
    exact Told.carry ⟨swept.stages, swept.events⟩ found (by rw [drawn]; rfl)
  | @records workdir id entry entered made =>
    have submitted := told.stages k call workdir found (by rw [entered]; rfl)
    have known : s.message k = some call.message := by
      unfold State.message
      rw [found]
      rfl
    have fits : (Event.recorded k id entry).Fits b acts s.message := by
      rw [made]
      exact ⟨call.message, known, rfl, submitted⟩
    have logged := told.log (.recorded k id entry) fits
    exact Told.idle ⟨logged.stages, logged.events⟩ rfl
  | publishes | opens | acquires | releases => exact Told.idle ⟨told.stages, told.events⟩ rfl
  | @unmade id =>
    have deleted := told.delete id (.unmade k)
    exact Told.idle ⟨deleted.stages, deleted.events⟩ rfl
  | takes => exact (told.delete call.message.job (.dispatch k)).idle rfl
  | @admits entry _ young =>
    exact (told.log (.admitted k call.message.job entry s.now) young).idle rfl
  | @starts entry _ args _ built =>
    exact (told.log (.started k call.message.job entry args) (shellArgs_ok built)).idle rfl

/-- Whatever a mailbox does fits. -/
theorem mailbox_told {j : Nat} {box : Mailbox} (told : Told b acts s) (goes : box.Goes s j next) :
    Told b acts next := by
  cases goes with
  | stays => exact told
  | moves => exact ⟨told.stages, told.events⟩
  | @spawns m =>
    have spawned := told.spawn .fifo m
    exact ⟨spawned.stages, spawned.events⟩
  | removes =>
    have deleted := told.delete box.job (.mailbox j)
    exact ⟨deleted.stages, deleted.events⟩

end Histories

/-! ## Dispatches that were refused -/

section Refusals

variable {b : Broker} {s next : State}

/-- Only a dispatch that got a slot has taken a job. -/
def Past (s : State) : Prop :=
  ∀ k id, .removed id (.dispatch k) ∈ s.history → ∃ call, s.calls[k]? = some call ∧
    call.stage.past = true

section

variable (past : Past s)
include past

/-- A call goes on, and stays past the slot if it was. -/
theorem Past.set {k : Nat} {call : Call} {stage : Stage} (found : s.calls[k]? = some call)
    (kept : call.stage.past = true → stage.past = true) : Past (s.set k stage) := by
  intro i id member
  obtain ⟨other, here, gone⟩ := past i id member
  rw [set_calls, here]
  by_cases self : k = i
  · subst self
    obtain rfl : call = other := some.inj (found.symm.trans here)
    exact ⟨_, congrArg some (if_pos rfl), kept gone⟩
  · exact ⟨other, congrArg some (if_neg self), gone⟩

/-- Something else happens than that a dispatch takes a job. -/
theorem Past.log (event : Event) (other : ∀ k id, event ≠ .removed id (.dispatch k)) :
    Past (s.log event) := by
  intro k id member
  rcases List.mem_append.mp member with earlier | last
  · exact past k id earlier
  · exact absurd (List.mem_singleton.mp last).symm (other k id)

/-- An entry is removed for another reason. -/
theorem Past.delete (id : Bytes) (cause : Cause) (other : ∀ k, cause ≠ .dispatch k) :
    Past (s.delete id cause) := by
  unfold State.delete
  split
  · exact past
  · apply past.log
    intro k id' same
    exact other k (Event.removed.inj same).2

/-- The expired entries are removed. -/
theorem Past.expire (now : Int) : Past (s.expire now) :=
  expire_induction (P := Past) (fun _ id known => known.delete id .expiry (by simp)) now past

/-- A new call has taken nothing. -/
theorem Past.spawn (transport : Transport) (m : Message) : Past (s.spawn transport m) := by
  intro k id member
  obtain ⟨call, found, gone⟩ := past k id member
  have inside := (List.getElem?_eq_some_iff.mp found).1
  exact ⟨call, by rw [State.spawn, List.getElem?_append_left inside, found], gone⟩

/-- A dispatch takes a job, or finds none. -/
theorem Past.take {k : Nat} {call : Call} {entry : Option Job}
    (found : s.calls[k]? = some call) (id : Bytes) :
    Past ((s.delete id (.dispatch k)).set k (.taken entry)) := by
  intro i other member
  rw [set_calls]
  obtain ⟨jobs, history, same⟩ := delete_frame s id (.dispatch k)
  by_cases self : k = i
  · subst self
    exact ⟨{ call with stage := .taken entry },
      by rw [same, found]; exact congrArg some (if_pos rfl), rfl⟩
  · have earlier : .removed other (.dispatch i) ∈ s.history := by
      change _ ∈ (s.delete id (.dispatch k)).history at member
      unfold State.delete at member
      split at member
      · exact member
      · rcases List.mem_append.mp member with before | last
        · exact before
        · have same := (Event.removed.inj (List.mem_singleton.mp last)).2
          exact absurd (Cause.dispatch.inj same).symm self
    obtain ⟨third, here, gone⟩ := past i other earlier
    exact ⟨third, by rw [same, here]; exact congrArg some (if_neg self), gone⟩

/-- Whatever a call does, this stays so. -/
theorem call_past {k : Nat} {call : Call} {move : Move} (found : s.calls[k]? = some call)
    (goes : call.Goes b s k move next) : Past next := by
  cases goes with
  | answers _ _ fresh => exact past.set found fun gone => absurd (fresh.symm.trans gone) (by decide)
  | leaves _ _ other => exact past.set found fun _ => bne_iff_ne.mpr other
  | @draws nonce _ checked =>
    exact (past.log (.drawn k (jobID nonce)) (by simp)).set found
      fun gone => by simp [checked, Stage.past] at gone
  | refused drawn | enters drawn =>
    have swept := past.expire s.now
    obtain ⟨jobs, history, same⟩ := expire_frame s s.now
    rw [same] at swept ⊢
    exact Past.set swept found fun gone => by simp [drawn, Stage.past] at gone
  | @records _ id entry entered =>
    have logged := past.log (.recorded k id entry) (by simp)
    exact Past.set logged found fun gone => by simp [entered, Stage.past] at gone
  | checks early | publishes early | opens early | acquires early =>
    exact Past.set past found fun gone => by simp [early, Stage.past] at gone
  | @unmade id _ _ recorded =>
    have deleted := past.delete id (.unmade k) (by simp)
    obtain ⟨jobs, history, same⟩ := delete_frame s id (.unmade k)
    rw [same] at deleted ⊢
    exact Past.set deleted found fun gone => by simp [recorded, Stage.past] at gone
  | takes => exact past.take found call.message.job
  | @admits entry =>
    exact (past.log (.admitted k call.message.job entry s.now) (by simp)).set found fun _ => rfl
  | @starts entry _ args =>
    exact (past.log (.started k call.message.job entry args) (by simp)).set found fun _ => rfl
  | releases leaving =>
    exact Past.set past found fun gone => by rwa [leaving] at gone

/-- Whatever a mailbox does, this stays so. -/
theorem mailbox_past {j : Nat} {box : Mailbox} (goes : box.Goes s j next) : Past next := by
  cases goes with
  | stays | moves => exact past
  | @spawns m => exact past.spawn .fifo m
  | removes => exact past.delete box.job (.mailbox j) (by simp)

end

end Refusals

end TrustedCourier.TcExec
