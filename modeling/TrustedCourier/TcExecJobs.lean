import TrustedCourier.SingleUse
import TrustedCourier.TcExecBounds
import TrustedCourier.TcExecHistory

/-!
# What becomes of a job

A job is a ticket that is used once: issued when its ID is drawn, recorded in the table,
taken by the dispatch that finds it there, accepted if it has not expired, and used when
its worker is started. The broker keeps to the course of such tickets, whatever its parties
do at the same time and over both transports.

The call that goes on with a job has a claim on it, and what is in the table waits. Where
a job is in its course says which of these there can be, so there is never more than one.
-/

namespace TrustedCourier.TcExec

open Runs SingleUse List Option

/-! ## What happens to one job -/

/-- The job that an event is about. -/
def Event.job : Event → Bytes
  | .drawn _ id => id
  | .recorded _ id _ => id
  | .removed id _ => id
  | .admitted _ id _ _ => id
  | .started _ id _ _ => id

/-- What an event does to its job. -/
def Event.deed : Event → Use Nat Job
  | .drawn k _ => .issue k
  | .recorded k _ entry => .record k entry
  | .removed _ (.dispatch k) => .take k
  | .removed _ _ => .discard
  | .admitted k _ entry _ => .accept k entry
  | .started k _ entry _ => .use k entry

/-- What has happened to a job. -/
def State.uses (s : State) (id : Bytes) : List (Use Nat Job) :=
  (s.history.filter fun event => event.job == id).map Event.deed

/-- Whether an event starts a worker for this job. -/
def Event.starts (id : Bytes) : Event → Bool
  | .started _ other _ _ => other == id
  | _ => false

/-- Where a job is, if it has kept to its course. -/
def State.life (s : State) (id : Bytes) : Option (Life Nat Job) :=
  after Life.step .unborn (s.uses id)

/-- The job IDs that were drawn. -/
def Event.drawnID : Event → Option Bytes
  | .drawn _ id => some id
  | _ => none

/-- A call's right to go on with a job. -/
inductive Claim where
  | issued (id : Bytes)
  | held (id : Bytes) (entry : Job)
  | accepted (id : Bytes) (entry : Job)

/-- The job a claim is on. -/
def Claim.job : Claim → Bytes
  | .issued id => id
  | .held id _ => id
  | .accepted id _ => id

/-- Where the claimed job is. -/
def Claim.Fits (k : Nat) (life : Life Nat Job) : Claim → Prop
  | .issued _ => life = .issued k
  | .held _ entry => ∃ maker, life = .held maker entry k
  | .accepted _ entry => ∃ maker, life = .accepted maker entry k

/-- The claim of a call, by its stage. -/
def Call.claim (call : Call) : Option Claim :=
  match call.stage with
  | .drawn _ id => some (.issued id)
  | .entered _ id => some (.issued id)
  | .taken (some entry) => some (.held call.message.job entry)
  | .launching entry => some (.accepted call.message.job entry)
  | _ => none

/-! ## The course of a job -/

section Courses

variable {s : State} {id : Bytes} {life next : Life Nat Job} {event : Event}

/-- Every job has kept to its course, what is in the table waits, and every call may do
what it is about to do. -/
structure Accounted (s : State) : Prop where
  alive : ∀ id, (s.life id).isSome = true
  table : ∀ id entry, s.jobs.lookup id = some entry →
    ∃ maker, s.life id = some (.waiting maker entry)
  claims : ∀ (k : Nat) (call : Call) (claim : Claim), s.calls[k]? = some call →
    call.claim = some claim →
    ∃ life, s.life claim.job = some life ∧ claim.Fits k life

/-- Only the table, the calls and the history count. -/
theorem Accounted.same {after : State} (accounted : Accounted s) (jobs : after.jobs = s.jobs := by
    rfl) (calls : after.calls = s.calls := by rfl)
    (history : after.history = s.history := by rfl) : Accounted after := by
  obtain ⟨⟩ := s
  cases jobs
  cases calls
  cases history
  exact ⟨accounted.alive, accounted.table, accounted.claims⟩

/-- An event is a use of its own job only. -/
theorem uses_log (s : State) (event : Event) (id : Bytes) :
    (s.log event).uses id = s.uses id ++ if event.job = id then [event.deed] else [] := by
  unfold State.uses State.log
  rw [filter_append, map_append]
  by_cases own : event.job = id
  · simp [own]
  · simp [own]

/-- An event takes its job's life on by its deed. -/
theorem life_log (lived : s.life event.job = some life)
    (stepped : life.step event.deed = some next) :
    (s.log event).life event.job = some next := by
  unfold State.life
  rw [uses_log, if_pos rfl]
  exact after_concat_iff.mpr ⟨life, lived, stepped⟩

/-- The lives of other jobs stay as they are. -/
theorem life_log_other (apart : event.job ≠ id) : (s.log event).life id = s.life id := by
  unfold State.life
  rw [uses_log, if_neg apart, append_nil]

variable {k : Nat}

/-- Who has a claim on a job may go on with it. -/
theorem Claim.Fits.holder {claim : Claim} (fits : claim.Fits k life) : life.holder = some k := by
  cases claim with
  | issued id =>
    obtain rfl := fits
    rfl
  | held id entry | accepted id entry =>
    obtain ⟨maker, rfl⟩ := fits
    rfl

/-- No call has a claim on this job. -/
def Unclaimed (s : State) (id : Bytes) : Prop :=
  ∀ (k : Nat) (call : Call) (claim : Claim), s.calls[k]? = some call → call.claim = some claim →
    claim.job ≠ id

namespace Accounted

section

variable (accounted : Accounted s)
include accounted

/-- A job that nobody holds is claimed by no call. -/
theorem unclaimed (lived : s.life id = some life) (nobody : life.holder = none) :
    Unclaimed s id := by
  rintro k call claim found claimed rfl
  obtain ⟨known, lives, fits⟩ := accounted.claims k call claim found claimed
  obtain rfl : life = known := some.inj (lived.symm.trans lives)
  rw [fits.holder] at nobody
  simp at nobody

/-- A job that is not waiting has no entry. -/
theorem absent (lived : s.life id = some life)
    (elsewhere : ∀ maker entry, life ≠ .waiting maker entry) :
    s.jobs.lookup id = none := by
  cases found : s.jobs.lookup id with
  | none => rfl
  | some entry =>
    obtain ⟨maker, waits⟩ := accounted.table id entry found
    exact absurd (some.inj (lived.symm.trans waits)) (elsewhere maker entry)

/-- What nobody else has a right to is done. -/
theorem log (lived : s.life event.job = some life) (stepped : life.step event.deed = some next)
    (gone : s.jobs.lookup event.job = none) (free : Unclaimed s event.job) :
    Accounted (s.log event) where
  alive := by
    intro id
    by_cases own : event.job = id
    · subst own
      rw [life_log lived stepped]
      rfl
    · rw [life_log_other own]
      exact accounted.alive id
  table := by
    intro id entry found
    have apart : event.job ≠ id := by
      rintro rfl
      rw [show (s.log event).jobs = s.jobs from rfl, gone] at found
      simp at found
    rw [life_log_other apart]
    exact accounted.table id entry found
  claims := by
    intro k call claim found claimed
    rw [life_log_other (free k call claim found claimed).symm]
    exact accounted.claims k call claim found claimed

/-- A call goes on with a claim that fits. -/
theorem set {stage : Stage} (claimed : ∀ (call : Call) (claim : Claim), s.calls[k]? = some call →
      { call with stage := stage }.claim = some claim →
      ∃ life, s.life claim.job = some life ∧ claim.Fits k life) : Accounted (s.set k stage) where
  alive := accounted.alive
  table := accounted.table
  claims := by
    intro i other claim found holds
    rcases calls_set found with ⟨rfl, call, here, rfl⟩ | ⟨_, there⟩
    · exact claimed call claim here holds
    · exact accounted.claims i other claim there holds

/-- A call that claims nothing may be anywhere. -/
theorem idle {stage : Stage} (quiet : ∀ call : Call, { call with stage := stage }.claim = none) :
    Accounted (s.set k stage) := by
  apply accounted.set
  intro call claim _ holds
  rw [quiet call] at holds
  simp at holds

/-- An entry is dropped. -/
theorem erase (id : Bytes) : Accounted { s with jobs := s.jobs.erase id } where
  alive := accounted.alive
  table := by
    intro other entry found
    by_cases self : other = id
    · subst self
      rw [AList.lookup_erase] at found
      simp at found
    · rw [AList.lookup_erase_ne self] at found
      exact accounted.table other entry found
  claims := accounted.claims

/-- The entry of a waiting job is put into the table. -/
theorem insert {maker : Nat} {entry : Job} (lived : s.life id = some (.waiting maker entry)) :
    Accounted { s with jobs := s.jobs.insert id entry } where
  alive := accounted.alive
  table := by
    intro other found here
    by_cases self : other = id
    · subst self
      rw [AList.lookup_insert] at here
      cases here
      exact ⟨maker, lived⟩
    · rw [AList.lookup_insert_ne self] at here
      exact accounted.table other found here
  claims := accounted.claims

/-- What is removed from the table was waiting there. -/
theorem delete (id : Bytes) (cause : Cause) : Accounted (s.delete id cause) := by
  unfold State.delete
  split
  · exact accounted
  · next entry found =>
    obtain ⟨maker, waits⟩ := accounted.table id entry found
    have gone := accounted.erase id
    have moved : ∃ next, (Life.waiting maker entry).step (Event.removed id cause).deed =
        some next := by
      cases cause <;> exact ⟨_, rfl⟩
    obtain ⟨next, stepped⟩ := moved
    exact gone.log waits stepped (AList.lookup_erase id s.jobs) (gone.unclaimed waits rfl)

/-- A job taken by a dispatch is held by it. -/
theorem taken {entry : Job} (found : s.jobs.lookup id = some entry) :
    ∃ maker, (s.delete id (.dispatch k)).life id = some (.held maker entry k) := by
  obtain ⟨maker, waits⟩ := accounted.table id entry found
  refine ⟨maker, ?_⟩
  have logged : (s.log (.removed id (.dispatch k))).life id = some (.held maker entry k) :=
    life_log waits rfl
  unfold State.delete
  rw [found]
  exact logged

/-- Expired entries are removed. -/
theorem expire (now : Int) : Accounted (s.expire now) :=
  expire_induction (fun _ id known => known.delete id .expiry) now accounted

/-- A new call claims nothing. -/
theorem spawn (transport : Transport) (m : Message) : Accounted (s.spawn transport m) where
  alive := accounted.alive
  table := accounted.table
  claims := by
    intro i other claim found holds
    rcases calls_spawn found with earlier | begun
    · exact accounted.claims i other claim earlier holds
    · rw [Call.claim, begun] at holds
      simp at holds

/-- A call does what it has a right to. Meanwhile it claims nothing. -/
theorem advance {call : Call} {claim : Claim} (found : s.calls[k]? = some call)
    (claimed : call.claim = some claim) (event : Event) (own : event.job = claim.job)
    {Q : Life Nat Job → Prop}
    (moves : ∀ life, claim.Fits k life → ∃ next, life.step event.deed = some next ∧ Q next) :
    Accounted ((s.log event).set k .begun) ∧ ∃ next, (s.log event).life event.job = some next ∧
      Q next := by
  obtain ⟨life, lived, fits⟩ := accounted.claims k call claim found claimed
  rw [← own] at lived
  obtain ⟨next, stepped, holds⟩ := moves life fits
  have resting : Accounted (s.set k .begun) := accounted.idle fun _ => rfl
  have free : Unclaimed (s.set k .begun) event.job := by
    intro i other third here held same
    rcases calls_set here with ⟨_, earlier, _, rfl⟩ | ⟨apart, there⟩
    · simp [Call.claim] at held
    · obtain ⟨known, lives, right⟩ := accounted.claims i other third there held
      rw [same] at lives
      obtain rfl : life = known := some.inj (lived.symm.trans lives)
      exact apart (some.inj (right.holder.symm.trans fits.holder))
  have gone : (s.set k .begun).jobs.lookup event.job = none := by
    apply accounted.absent lived
    rintro maker entry rfl
    have nobody := fits.holder
    simp [Life.holder] at nobody
  exact ⟨resting.log lived stepped gone free, next, life_log lived stepped, holds⟩

end

end Accounted

end Courses

/-! ## IDs that were drawn -/

section Draws

variable {s : State}

/-- The ids drawn so far. -/
def State.ids (s : State) : List Bytes := s.history.filterMap Event.drawnID

/-- Without a draw nothing has happened to a job. -/
theorem unborn_of_undrawn {id : Bytes} (accounted : Accounted s) (undrawn : id ∉ s.ids) :
    s.life id = some .unborn := by
  obtain ⟨life, lived⟩ := isSome_iff_exists.mp (accounted.alive id)
  have story := Life.after_story lived
  have issued : ∀ maker, .issue maker ∉ s.uses id := by
    intro maker member
    obtain ⟨event, here, deed⟩ := mem_map.mp member
    obtain ⟨inside, own⟩ := mem_filter.mp here
    cases event with
    | drawn k other =>
      obtain rfl : other = id := by simpa [Event.job] using own
      exact undrawn (mem_filterMap.mpr ⟨_, inside, rfl⟩)
    | removed other cause => cases cause <;> simp [Event.deed] at deed
    | _ => simp [Event.deed] at deed
  rw [lived]
  cases life with
  | unborn => rfl
  | _ => exact absurd (by rw [story]; exact mem_cons_self) (issued _)

/-- Removing an entry draws none. -/
theorem ids_delete (s : State) (id : Bytes) (cause : Cause) : (s.delete id cause).ids = s.ids := by
  unfold State.delete
  split
  · rfl
  · simp [State.ids, State.log, Event.drawnID]

/-- Expiry draws none. -/
theorem ids_expire (s : State) (now : Int) : (s.expire now).ids = s.ids :=
  expire_induction (P := fun t => t.ids = s.ids)
    (fun t id same => (ids_delete t id .expiry).trans same) now rfl

/-- Other events draw none. -/
theorem ids_log (event : Event) (other : event.drawnID = none) : (s.log event).ids = s.ids := by
  simp [State.ids, State.log, other]

end Draws

section Courses

variable {b : Broker} {s next : State}

/-- A call keeps every job on its course, if what it draws is new. -/
theorem call_accounted {k : Nat} {call : Call} {move : Move} (accounted : Accounted s)
    (found : s.calls[k]? = some call) (fresh : ∀ id, (Act.call k move).drawnID = some id →
      id ∉ s.ids) (goes : call.Goes b s k move next) :
    Accounted next := by
  cases goes with
  | answers | leaves | checks => exact accounted.idle fun _ => rfl
  | @draws nonce workdir checked =>
    have unborn := unborn_of_undrawn accounted (fresh (jobID nonce) rfl)
    have gone : s.jobs.lookup (jobID nonce) = none :=
      accounted.absent unborn fun _ _ other => by simp at other
    have logged : Accounted (s.log (.drawn k (jobID nonce))) :=
      accounted.log unborn rfl gone (accounted.unclaimed unborn rfl)
    apply logged.set
    intro other claim _ claimed
    cases claimed
    exact ⟨.issued k, life_log unborn rfl, rfl⟩
  | refused => exact (accounted.expire s.now).idle fun _ => rfl
  | @enters workdir id drawn =>
    have swept := accounted.expire s.now
    have locked : Accounted { s.expire s.now with lock := some k } := swept.same
    obtain ⟨jobs, history, same⟩ := expire_frame s s.now
    have here : (s.expire s.now).calls[k]? = some call := by
      rw [same]
      exact found
    have issued : call.claim = some (.issued id) := by rw [Call.claim, drawn]
    apply locked.set
    intro other claim _ claimed
    cases claimed
    exact swept.claims k call (.issued id) here issued
  | @records workdir id entry entered =>
    have issued : call.claim = some (.issued id) := by rw [Call.claim, entered]
    obtain ⟨rested, _, lived, rfl⟩ := accounted.advance found issued (.recorded k id entry) rfl
      (Q := fun life => life = .waiting k entry) (by rintro life rfl; exact ⟨_, if_pos rfl, rfl⟩)
    have stored :
        Accounted ({ s.log (.recorded k id entry) with jobs := s.jobs.insert id entry }.set k
          .begun) :=
      rested.insert lived
    have settled : Accounted (State.set _ k (.recorded id)) := stored.idle fun _ => rfl
    rwa [set_set] at settled
  | publishes | opens | acquires | releases => exact Accounted.idle accounted.same fun _ => rfl
  | @unmade id => exact Accounted.idle (accounted.delete id (.unmade k)).same fun _ => rfl
  | takes =>
    apply (accounted.delete call.message.job (.dispatch k)).set
    intro other claim here claimed
    obtain ⟨jobs, history, same⟩ := delete_frame s call.message.job (.dispatch k)
    obtain rfl : call = other := by
      rw [same] at here
      exact some.inj (found.symm.trans here)
    cases held : s.jobs.lookup call.message.job with
    | none => simp [Call.claim, held] at claimed
    | some entry =>
      rw [Call.claim, held] at claimed
      cases claimed
      obtain ⟨maker, lived⟩ := accounted.taken (k := k) held
      exact ⟨_, lived, maker, rfl⟩
  | @admits entry taken =>
    have held : call.claim = some (.held call.message.job entry) := by rw [Call.claim, taken]
    obtain ⟨rested, now, lived, accepted⟩ :=
      accounted.advance found held (.admitted k call.message.job entry s.now) rfl
        (Q := (Claim.accepted call.message.job entry).Fits k)
        (by rintro life ⟨maker, rfl⟩; exact ⟨_, if_pos ⟨rfl, rfl⟩, maker, rfl⟩)
    have settled : Accounted (((s.log (.admitted k call.message.job entry s.now)).set k .begun).set
        k (.launching entry)) := by
      apply rested.set
      intro other claim here claimed
      rcases calls_set here with ⟨_, first, there, rfl⟩ | ⟨apart, _⟩
      · obtain rfl : call = first := some.inj (found.symm.trans there)
        cases claimed
        exact ⟨now, lived, accepted⟩
      · exact absurd rfl apart
    rwa [set_set] at settled
  | @starts entry host args launching =>
    have accepted : call.claim = some (.accepted call.message.job entry) := by rw [Call.claim,
      launching]
    obtain ⟨rested, _⟩ :=
      accounted.advance found accepted (.started k call.message.job entry args) rfl
        (Q := fun _ => True) (by rintro life ⟨maker, rfl⟩; exact ⟨_, if_pos ⟨rfl, rfl⟩, trivial⟩)
    have settled : Accounted (State.set _ k (.running entry)) := rested.idle fun _ => rfl
    rwa [set_set] at settled

/-- Whatever a mailbox does, the jobs are accounted for. -/
theorem mailbox_accounted {j : Nat} {box : Mailbox} (accounted : Accounted s)
    (goes : box.Goes s j next) :
    Accounted next := by
  cases goes with
  | stays => exact accounted
  | moves => exact accounted.same
  | @spawns m => exact (accounted.spawn .fifo m).same
  | removes => exact (accounted.delete box.job (.mailbox j)).same

end Courses

/-! ## Every run -/

section Runs

variable {b : Broker} {acts : List Act} {s next : State}

/-- What holds after every run in which no ID was drawn twice. -/
structure Sound (b : Broker) (acts : List Act) (s : State) : Prop where
  ids : s.ids.Sublist (acts.filterMap Act.drawnID)
  accounted : Accounted s
  slots : Slots s
  room : Room s
  told : Told b acts s
  past : Past s

/-- A broker that starts to serve has nothing to account for. -/
theorem serve_sound (b : Broker) (now : Int) : Sound b [] (.serve now) where
  ids := List.Sublist.refl []
  accounted := ⟨fun _ => rfl, by simp [State.serve], by simp [State.serve]⟩
  slots := ⟨rfl, Nat.zero_le _⟩
  room := Open.room ⟨Nat.zero_le _, rfl, Int.natCast_nonneg maxJobs, by simp [State.serve]⟩
  told := ⟨by simp [State.serve], by simp [State.serve]⟩
  past := by simp [Past, State.serve]

/-- A call draws at most one id, the one of its action. -/
theorem ids_call {k : Nat} {call : Call} {move : Move} (goes : call.Goes b s k move next) :
    next.ids = s.ids ∨ ∃ id, (Act.call k move).drawnID = some id ∧ next.ids = s.ids ++ [id] := by
  cases goes with
  | draws => exact .inr ⟨_, rfl, by simp [State.ids, State.log, State.set, Event.drawnID]⟩
  | refused | enters => exact .inl (ids_expire s s.now)
  | @records _ id entry => exact .inl (ids_log (.recorded k id entry) rfl)
  | unmade | takes => exact .inl (ids_delete s _ _)
  | @admits entry => exact .inl (ids_log (.admitted k call.message.job entry s.now) rfl)
  | @starts entry _ args => exact .inl (ids_log (.started k call.message.job entry args) rfl)
  | _ => exact .inl rfl

/-- A mailbox draws none. -/
theorem ids_mailbox {j : Nat} {box : Mailbox} (goes : box.Goes s j next) : next.ids = s.ids := by
  cases goes with
  | removes => exact ids_delete s _ _
  | _ => rfl

namespace Sound

section

variable (sound : Sound b acts s)
include sound

/-- An action that changes neither the jobs nor any call or mailbox. -/
theorem aside (now : Int) (closing accepting sweeping stopped exited : Bool) :
    Sound b acts { s with
      now := now, mailboxClosing := closing, accepting := accepting, sweeping := sweeping,
      stopped := stopped, exited := exited } where
  ids := sound.ids
  accounted := sound.accounted.same
  slots := ⟨sound.slots.counted, sound.slots.few⟩
  room := ⟨sound.room.jobs, sound.room.active, sound.room.bound, sound.room.holder, sound.room.room⟩
  told := ⟨sound.told.stages, sound.told.events⟩
  past := sound.past

/-- A further action takes nothing back. -/
theorem later (act : Act) : Sound b (acts ++ [act]) s where
  ids := by
    rw [filterMap_append]
    exact sound.ids.trans (sublist_append_left _ _)
  accounted := sound.accounted
  slots := sound.slots
  room := sound.room
  told := sound.told.later act
  past := sound.past

/-- Expired entries are removed. -/
theorem expire (now : Int) : Sound b acts (s.expire now) where
  ids := by
    rw [ids_expire]
    exact sound.ids
  accounted := sound.accounted.expire now
  slots := sound.slots.expire now
  room := sound.room.expire now
  told := sound.told.expire now
  past := sound.past.expire now

/-- A new call claims nothing. -/
theorem spawn (transport : Transport) (m : Message) : Sound b acts (s.spawn transport m) where
  ids := sound.ids
  accounted := sound.accounted.spawn transport m
  slots := sound.slots.spawn transport m
  room := sound.room.spawn transport m
  told := sound.told.spawn transport m
  past := sound.past.spawn transport m

/-- Whatever a mailbox does is sound. -/
theorem mailbox {j : Nat} {box : Mailbox} (found : s.mailboxes[j]? = some box)
    (goes : box.Goes s j next) : Sound b acts next where
  ids := by
    rw [ids_mailbox goes]
    exact sound.ids
  accounted := mailbox_accounted sound.accounted goes
  slots := mailbox_slots sound.slots goes
  room := mailbox_room sound.room found goes
  told := mailbox_told sound.told goes
  past := mailbox_past sound.past goes

/-- Whatever a call does is sound, as long as no id is drawn twice. -/
theorem call {k : Nat} {call : Call} {move : Move}
    (distinct : ((acts ++ [Act.call k move]).filterMap Act.drawnID).Nodup)
    (found : s.calls[k]? = some call) (goes : call.Goes b s k move next) :
    Sound b (acts ++ [.call k move]) next := by
  have later := sound.later (.call k move)
  have fresh : ∀ id, (Act.call k move).drawnID = some id → id ∉ s.ids := by
    intro id drawn member
    have once : ((acts.filterMap Act.drawnID) ++ [id]).Nodup := by simpa [drawn] using distinct
    exact disjoint_of_nodup_append once (sound.ids.subset member) mem_cons_self
  refine ⟨?_, call_accounted sound.accounted found fresh goes, call_slots sound.slots found goes,
    call_room sound.room found goes, call_told later.told (by simp) found goes,
    call_past sound.past found goes⟩
  rcases ids_call goes with same | ⟨id, drawn, longer⟩
  · rw [same]
    exact later.ids
  · have extended : (acts ++ [Act.call k move]).filterMap Act.drawnID =
        acts.filterMap Act.drawnID ++ [id] := by
      simp [drawn]
    rw [longer, extended]
    exact sound.ids.append (List.Sublist.refl [id])

/-- Every action keeps all of this, if no ID is drawn twice. -/
theorem step {act : Act} (distinct : ((acts ++ [act]).filterMap Act.drawnID).Nodup)
    (stepped : s.step b act = some next) : Sound b (acts ++ [act]) next := by
  have later := sound.later act
  unfold State.step at stepped
  split at stepped
  · simp at stepped
  · cases act with
    | wait ns | signal | hangUp =>
      cases stepped
      exact later.aside _ _ _ _ _ _
    | accept message =>
      obtain ⟨_, rfl⟩ := of_guard stepped
      exact later.spawn .socket message
    | call k move =>
      obtain ⟨call, found, went⟩ := bind_eq_some_iff.mp stepped
      exact sound.call distinct found (processJobContext_goes went)
    | mailbox j move =>
      obtain ⟨box, found, went⟩ := bind_eq_some_iff.mp stepped
      exact later.mailbox found (serveMailbox_goes went)
    | sweep tick =>
      obtain ⟨_, rfl⟩ := of_guard stepped
      exact later.expire tick
    | sweepEnds | closeMailbox | exit =>
      obtain ⟨_, rfl⟩ := of_guard stepped
      exact later.aside _ _ _ _ _ _

end

end Sound

/-- Every state that a broker reaches is sound. -/
theorem run_sound {now : Int} (distinct : (acts.filterMap Act.drawnID).Nodup)
    (ran : after (State.step b) (.serve now) acts = some s) : Sound b acts s := by
  apply after_induction (P := fun acts s => (acts.filterMap Act.drawnID).Nodup → Sound b acts s)
    (fun _ => serve_sound b now) _ ran distinct
  intro acts mid act next _ known stepped distinct
  have earlier : (acts.filterMap Act.drawnID).Nodup := by
    rw [filterMap_append] at distinct
    exact distinct.sublist (sublist_append_left _ _)
  exact (known earlier).step distinct stepped

/-- A start of a job is a use of it. -/
theorem starts_eq (id : Bytes) (event : Event) :
    Event.starts id event = (event.deed.uses && event.job == id) := by
  cases event with
  | removed other cause => cases cause <;> rfl
  | started => exact (Bool.true_and _).symm
  | _ => rfl

/-- The workers that were started for a job are its uses. -/
theorem countP_starts (s : State) (id : Bytes) :
    s.history.countP (Event.starts id) = (s.uses id).countP Use.uses := by
  rw [State.uses, countP_map, countP_filter]
  apply countP_congr
  intro event _
  rw [starts_eq]
  rfl

/-- A dispatch that is answered at once has found every slot taken, and changes nothing. -/
theorem acquire_refused {k : Nat} (slots : Slots s)
    (stepped : s.step b (.call k .acquire) = some next) (refused : next.replied k = true) :
    s.workers = maxWorkers ∧ next = s.set k (.answered busy) := by
  unfold State.step at stepped
  split at stepped
  · simp at stepped
  · obtain ⟨call, found, went⟩ := bind_eq_some_iff.mp stepped
    have slotted : ∀ workers, ({ s with workers := workers }.set k .slotted).replied k = false := by
      intro workers
      unfold State.replied
      rw [set_calls, found]
      simp
    cases stage : call.stage with
    | begun =>
      simp only [State.processJobContext, stage] at went
      obtain ⟨_, acquired⟩ := ite_none_right_eq_some.mp went
      split at acquired
      · cases acquired
        rw [slotted] at refused
        simp at refused
      · next full =>
        exact ⟨Nat.le_antisymm slots.few (Nat.not_lt.mp full), (some.inj acquired).symm⟩
    | _ => simp [State.processJobContext, stage] at went

end Runs

/-- In every interleaving of submissions, dispatches over the socket and over FIFOs,
cancellations, sweeps and a shutdown, if no job ID is drawn twice:

* at most one worker is started for a job;
* what happens to a job is, in this order and each at most once, that its ID is drawn, that
  it is recorded, and then either that it is discarded, or that a dispatch takes it out of
  the table, admits it, and starts its worker;
* what is recorded is the command and the canonical working directory of its submission,
  what is admitted is at most `jobTTL` old, and a worker gets that command and directory;
* a dispatch that is refused at once has found every slot taken and changes nothing but its
  own answer, and one that was told that the broker is busy has taken no job;
* the table, the mailboxes that have not removed their job, and the workers that run are
  within their bounds. -/
theorem jobs_run_once_as_submitted (b : Broker) (start : Int) (acts : List Act) (s : State)
    (distinct : (acts.filterMap Act.drawnID).Nodup)
    (ran : after (State.step b) (.serve start) acts = some s) :
    (∀ id, s.history.countP (Event.starts id) ≤ 1) ∧
    (∀ id, ∃ maker entry, s.uses id <+: [.issue maker, .record maker entry, .discard] ∨
      ∃ taker, s.uses id <+:
        [.issue maker, .record maker entry, .take taker, .accept taker entry, .use taker entry]) ∧
    (∀ event ∈ s.history, event.Fits b acts s.message) ∧
    (∀ k next, s.step b (.call k .acquire) = some next → next.replied k = true →
      s.workers = maxWorkers ∧ next = s.set k (.answered busy)) ∧
    (∀ k call, s.calls[k]? = some call → call.stage = .answered busy →
      ∀ id, .removed id (.dispatch k) ∉ s.history) ∧
    s.jobs.entries.length ≤ maxJobs ∧
    s.mailboxActive ≤ maxJobs ∧ s.mailboxActive = (s.mailboxes.countP fun box => box.phase.active) ∧
    (s.calls.countP fun call => call.stage.runs) ≤ maxWorkers := by
  have sound := run_sound distinct ran
  have story : ∀ id, ∃ life : Life Nat Job, s.uses id = life.story := by
    intro id
    obtain ⟨life, lived⟩ := isSome_iff_exists.mp (sound.accounted.alive id)
    exact ⟨life, Life.after_story lived⟩
  refine ⟨?_, ?_, sound.told.events, ?_, ?_, sound.room.jobs, sound.room.bound, sound.room.active,
    sound.slots.running⟩
  · intro id
    obtain ⟨life, told⟩ := story id
    rw [countP_starts, told]
    exact life.story_uses
  · intro id
    obtain ⟨life, told⟩ := story id
    rw [told]
    exact life.story_course
  · exact fun k next stepped refused => acquire_refused sound.slots stepped refused
  · intro k call found answered id member
    obtain ⟨other, here, past⟩ := sound.past k id member
    obtain rfl : call = other := some.inj (found.symm.trans here)
    simp [answered, Stage.past] at past

/-- A file system without links. -/
def plain : Files := { getwd := .ok (bytes "/"), evalSymlinks := fun path => .ok path }

/-- A broker with mailboxes. -/
def sandboxed : Broker where
  workspace := bytes "/work"
  socket := bytes "/run/tc-exec.sock"
  configPath := []
  workspaceDir := true
  mailboxPath := some (bytes "/run/mailbox")

/-- One job is dispatched over both transports at once. -/
def bothTransports : List Act :=
  [.accept { action := bytes "submit", command := bytes "make", workdir := bytes "/work/src" },
    .call 0 (.check plain plain plain), .call 0 (.draw (some fun _ => 7)), .call 0 .enter,
    .call 0 .record,
    .call 0 (.publish (some (1, 2, 3))), .mailbox 0 .begin, .mailbox 0 .poll,
    .mailbox 0 (.check false),
    .mailbox 0 (.read (.byte 0x44)), .accept
      { action := bytes "dispatch", job := jobID fun _ => 7 }, .wait 1000,
    .call 1 .acquire, .call 2 .acquire, .call 2 .take, .call 1 .take, .call 1 .judge,
    .call 2 .judge,
    .call 2 (.launch { lib64 := true, executable := none, filter := true } none), .call 1 .release,
    .mailbox 0 (.select .done), .mailbox 0 .write, .mailbox 0 .remove]

/-- Dispatched over both transports, a job runs once. -/
theorem jobs_run_once_as_submitted_both :
    ∃ s, after (State.step sandboxed) (.serve 0) bothTransports = some s ∧
      s.history.countP (Event.starts (jobID fun _ => 7)) = 1 ∧
      (s.calls.countP fun call => call.stage.runs) ≤ maxWorkers := by
  have ran : ((after (State.step sandboxed) (.serve 0) bothTransports).map fun s =>
      s.history.countP (Event.starts (jobID fun _ => 7))) = some 1 := by decide +kernel
  obtain ⟨s, reached, once⟩ := map_eq_some_iff.mp ran
  have kept := jobs_run_once_as_submitted sandboxed 0 bothTransports s (by decide +kernel) reached
  exact ⟨s, reached, once, kept.2.2.2.2.2.2.2.2⟩

end TrustedCourier.TcExec
