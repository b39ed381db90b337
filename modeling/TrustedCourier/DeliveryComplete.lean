import TrustedCourier.Deliveries

/-!
# What a record without a failure says

A Delivery is complete when every byte of the Upstream's body, redacted, has been taken by
the Agent's connection. The bytes go out at two times: while the body is copied, where a
write that fails ends the exchange and is noted, and after it, when what the Writer held
back is written and nobody looks at the error. Besides, a status that the server does not
take for one ends the handler with a panic that is noted nowhere.

So a record without a failure means a complete Delivery exactly if neither happens to a
body that has bytes to lose. The condition is on what the Upstream answers and how the
Agent's connection takes it.
-/

namespace TrustedCourier.AgentApi

open ByteStrings Redact Access List

/-! ## What has been taken -/

/-- The last write was refused. -/
def refused : List Sent → Bool
  | .failed :: _ => true
  | _ => false

/-- The bytes of bodies that the Agent's connection has taken, write by write. -/
def accepted : List Sent → Bytes
  | [] => []
  | .body b :: rest => (if refused rest then [] else b) ++ accepted rest
  | _ :: rest => accepted rest

theorem refused_append (before : List Sent) {after : List Sent} (fresh : refused after = false) :
    refused (before ++ after) = refused before := by
  cases before with
  | nil => exact fresh
  | cons s rest => cases s <;> rfl

/-- A write or a header after others does not change what became of them. -/
theorem accepted_append (before : List Sent) {after : List Sent} (fresh : refused after = false) :
    accepted (before ++ after) = accepted before ++ accepted after := by
  induction before with
  | nil => rfl
  | cons s rest ih =>
    cases s with
    | body b => rw [cons_append, accepted, accepted, refused_append rest fresh, ih, append_assoc]
    | head status header | failed | trailers header => exact ih

section Relay

variable {lib : Library} {agent : Connection} {needles : List Bytes}

/-- One write adds what it passes on if it is taken. -/
theorem accepted_pass (r : Relay) (b : Bytes) (failed : Bool) :
    accepted (r.pass b failed).sent = accepted r.sent ++ if failed then [] else b := by
  rw [Relay.pass, accepted_append _ rfl]
  cases failed with
  | true => rfl
  | false => simp [accepted, refused]

/-- A header changes nothing about the body. -/
structure Relay.SameBody (r after : Relay) : Prop where
  protocol : after.protocol = r.protocol
  body : after.body = r.body
  writes : after.writes = r.writes
  accepted : accepted after.sent = accepted r.sent

variable {r : Relay} {after : Relay}

theorem commit_sameBody {code : Int64} (committed : r.commit code = some after) :
    r.SameBody after ∧ after.committed = (r.committed || !informational r.protocol code) := by
  unfold Relay.commit at committed
  split at committed
  · next already =>
    cases committed
    exact ⟨⟨rfl, rfl, rfl, rfl⟩, by simp [already]⟩
  · next open_ =>
    split at committed
    · cases committed
    · cases committed
      refine ⟨⟨rfl, rfl, rfl, ?_⟩, by simp [open_]⟩
      rw [accepted_append _ rfl]
      exact append_nil _

theorem writeHeader_sameBody {code : Int64} (written : r.writeHeader lib code = some after) :
    r.SameBody after ∧ after.committed = (r.committed || !informational r.protocol code) := by
  unfold Relay.writeHeader at written
  dsimp only at written
  split at written
  · obtain ⟨same, committed⟩ := commit_sameBody written
    exact ⟨⟨same.protocol, same.body, same.writes, same.accepted⟩, committed⟩
  · obtain ⟨same, committed⟩ := commit_sameBody written
    exact ⟨⟨same.protocol, same.body, same.writes, same.accepted⟩, committed⟩

theorem start_sameBody (started : r.start lib = some after) : r.SameBody after := by
  unfold Relay.start at started
  split at started
  · cases started
    exact ⟨rfl, rfl, rfl, rfl⟩
  · exact (writeHeader_sameBody started).1

/-! ## The copy -/

/-- A Relay has been given a stream, and the Agent has taken all that is released of it. -/
def Relay.Carried (needles : List Bytes) (stream : Bytes) (r : Relay) : Prop :=
  Tracks needles stream (accepted r.sent) r.body

/-- One write passes on what the chunk lets through. If the Agent takes it, all that is
released has been taken again. -/
theorem write_carried (lib : Library) (agent : Connection) {stream : Bytes}
    (carried : r.Carried needles stream) (p : Bytes) :
    ∃ after n, r.write lib agent p =
      some (after, n, (agent r.writes (passedBy needles stream p)).2.isSome) ∧
      after.writes = r.writes + 1 ∧
      ((agent r.writes (passedBy needles stream p)).2 = none →
        after.Carried needles (stream ++ p) ∧
        ((agent r.writes (passedBy needles stream p)).1 = (passedBy needles stream p).length →
          n = p.length)) := by
  obtain ⟨started, starts⟩ : ∃ started, r.start lib = some started := start_some
  have same := start_sameBody starts
  have tracks : Tracks needles stream (accepted started.sent) started.body := by
    rw [same.body, same.accepted]
    exact carried
  obtain ⟨passed, error, taken⟩ := write_passes tracks (agent r.writes) p
  let body := started.body.write (agent r.writes) p
  let after : Relay :=
    { started.pass body.2.1 body.2.2.2.isSome with
      body := body.1
      writeErr := started.writeErr || body.2.2.2.isSome }
  have written : r.write lib agent p = some (after, body.2.2.1, body.2.2.2.isSome) := by
    simp only [Relay.write, starts, Option.bind_eq_bind, Option.bind_some, same.writes]
    rfl
  refine ⟨after, body.2.2.1, by rw [written, error], congrArg (· + 1) same.writes, fun took => ?_⟩
  obtain ⟨tracks, all⟩ := taken took
  refine ⟨?_, all⟩
  show Tracks needles (stream ++ p) (accepted (started.pass body.2.1 body.2.2.2.isSome).sent) body.1
  rw [accepted_pass, passed, error, took]
  exact tracks

/-- The Agent takes what each read lets through, up to the end, where the writes before
and the stream so far are given. -/
def TakesAll (agent : Connection) (needles : List Bytes) : Nat → Bytes → List Bytes → Prop
  | _, _, [] => True
  | writes, stream, p :: rest =>
    if p = [] then TakesAll agent needles writes stream rest
    else (agent writes (passedBy needles stream p)).2 = none ∧ TakesAll agent needles (writes + 1)
      (stream ++ p) rest

/-- The copy completes exactly if the body does not break off and the Agent takes all that
is released on the way. Then that is all that is released of the body. -/
theorem copy_carried (lib : Library)
    (honest : ∀ k b, (agent k b).2 = none → (agent k b).1 = b.length) (broken : Bool)
    (reads : List Bytes) {stream : Bytes} (carried : r.Carried needles stream) :
    ((r.copy lib agent broken reads).2 = .completed ↔
      broken = false ∧ TakesAll agent needles r.writes stream reads) ∧
      ((r.copy lib agent broken reads).2 = .completed →
        (r.copy lib agent broken reads).1.Carried needles (stream ++ reads.flatten) ∧
        (r.copy lib agent broken reads).1.writes = r.writes + reads.countP (· ≠ [])) := by
  induction reads generalizing r stream with
  | nil =>
    simp only [Relay.copy, TakesAll, and_true, flatten_nil, append_nil, countP_nil, Nat.add_zero]
    refine ⟨?_, fun _ => carried⟩
    cases broken <;> simp
  | cons p rest ih =>
    by_cases empty : p = []
    · subst empty
      simpa [Relay.copy, TakesAll] using ih carried
    · obtain ⟨after, n, written, writes, taken⟩ := write_carried lib agent carried p
      rw [Relay.copy, if_neg empty, written, TakesAll, if_neg empty,
        countP_cons_of_pos (by simpa using empty)]
      dsimp only
      cases answer : (agent r.writes (passedBy needles stream p)).2 with
      | some error => simp
      | none =>
        obtain ⟨carried, all⟩ := taken answer
        have whole := all (honest _ _ answer)
        have later := ih carried
        simp only [Option.isSome_none, Bool.false_or, whole, ne_eq, not_true_eq_false, decide_false,
          if_false, Bool.false_eq_true, true_and]
        rw [writes, append_assoc] at later
        rw [flatten_cons, Nat.add_comm (List.countP _ _) 1, ← Nat.add_assoc]
        exact later

/-- After the copy, what is held back is written. The Agent has then taken the whole body
exactly if it takes that. -/
theorem finish_accepted {stream : Bytes} (carried : r.Carried needles stream) :
    accepted (r.finish lib agent).sent = reference needles stream ↔
      heldBack needles stream = [] ∨ (agent r.writes (heldBack needles stream)).2 = none := by
  obtain ⟨held, nothing, error⟩ := close_passes carried (agent r.writes)
  have whole : accepted r.sent ++ heldBack needles stream = reference needles stream := by
    rw [← held]
    exact close_completes (agent r.writes) carried
  have ended : accepted (r.finish lib agent).sent =
      accepted (if r.body.pending = 0 then r
        else r.pass (r.body.close (agent r.writes)).2.1
          (r.body.close (agent r.writes)).2.2.isSome).sent := by
    simp only [Relay.finish]
    rw [accepted_append _ rfl]
    exact append_nil _
  rw [ended, ← whole]
  by_cases none : r.body.pending = 0
  · rw [if_pos none, nothing.mp none, append_nil]
    exact iff_of_true rfl (Or.inl rfl)
  · have some : heldBack needles stream ≠ [] := fun empty => none (nothing.mpr empty)
    rw [if_neg none, accepted_pass, held, error none, append_cancel_left_eq]
    cases (agent r.writes (heldBack needles stream)).2 with
    | none => simp
    | some error => simp [some]

/-! ## The exchange -/

/-- Nothing of a body has been given to a Relay yet. -/
structure Relay.Fresh (needles : List Bytes) (r : Relay) : Prop where
  body : r.body = newWriter needles
  writes : r.writes = 0
  accepted : accepted r.sent = []

theorem Relay.Fresh.carried (fresh : r.Fresh needles) : r.Carried needles [] := by
  rw [Relay.Carried, fresh.body, fresh.accepted]
  exact tracks_new needles

theorem Relay.SameBody.fresh (same : r.SameBody after) (fresh : r.Fresh needles) :
    after.Fresh needles :=
  ⟨same.body.trans fresh.body, same.writes.trans fresh.writes, same.accepted.trans fresh.accepted⟩

/-- Informational responses leave the body alone. On HTTP/1 one of them may switch
protocols, and then no other status is written. -/
theorem early_fresh {early : List Informational} (fresh : r.Fresh needles)
    (told : early.foldlM (Relay.inform lib) r = some after) :
    after.Fresh needles ∧ after.committed =
      (r.committed || (r.protocol = .http1 && early.any (·.status = 101))) := by
  induction early generalizing r with
  | nil =>
    cases told
    exact ⟨fresh, by simp⟩
  | cons info rest ih =>
    rw [foldlM_cons, Option.bind_eq_bind, Option.bind_eq_some_iff] at told
    obtain ⟨next, informed, others⟩ := told
    obtain ⟨headed, written, rfl⟩ := Option.map_eq_some_iff.mp informed
    obtain ⟨same, committed⟩ := writeHeader_sameBody written
    have kept : Relay.Fresh needles { headed with header := fun _ => [] } :=
      let first := same.fresh ⟨fresh.body, fresh.writes, fresh.accepted⟩
      ⟨first.body, first.writes, first.accepted⟩
    obtain ⟨later, ended⟩ := ih kept others
    refine ⟨later, ended.trans ?_⟩
    have switching : (!informational r.protocol info.status) =
        (r.protocol = .http1 && decide (info.status = 101)) := by
      cases r.protocol <;> simp [informational, info.range.1, info.range.2]
    simp only [committed, switching, same.protocol, any_cons, Bool.or_assoc,
      Bool.and_or_distrib_left]

/-- The last bytes of a body reach the Agent. The response has a status that the server
takes for one, or has one already, which only HTTP/1 knows, or has no bytes; and if the body
ends well and all that is released on the way is taken, what is held back to the end is
taken too. -/
def Finishes (protocol : Protocol) (agent : Connection) (needles : List Bytes)
    (early : List Informational) (plain : Response) : Prop :=
  (ValidStatus plain.status ∨ (protocol = .http1 ∧ ∃ info ∈ early, info.status = 101) ∨
      plain.body.reads.flatten = []) ∧
    (plain.body.broken = false → TakesAll agent needles 0 [] plain.body.reads →
      heldBack needles plain.body.reads.flatten = [] ∨
        (agent (plain.body.reads.countP (· ≠ [])) (heldBack needles plain.body.reads.flatten)).2 =
          none)

/-- A response that can be read is delivered after the informational ones. -/
theorem serve_delivers (agent : Connection) (atError : Circumstances) {method : Bytes}
    {answer : Answer} {plain : Response} {told : Relay}
    (early : answer.early.foldlM (Relay.inform lib) r = some told)
    (reads : answer.Reads lib method plain) :
    r.serve lib agent method atError answer = told.deliver lib agent plain := by
  obtain ⟨res, responds, decoded, other⟩ := reads
  simp only [Relay.serve, early, responds, decoded, if_neg other]

/-- What comes of a response that can be read, given to a Relay that has seen no body yet.
The server panics at its status; or the copy does not complete, and the response is
aborted; or it completes, and all that is released of the body has been taken. -/
theorem deliver_cases (lib : Library)
    (honest : ∀ k b, (agent k b).2 = none → (agent k b).1 = b.length) (fresh : r.Fresh needles)
    (plain : Response) :
    let served := r.deliver lib agent plain
    let copied := plain.body.broken = false ∧ TakesAll agent needles 0 [] plain.body.reads
    served.failure = [] ∧
      ((served.ending = .panicked ∧ r.committed = false ∧ ¬ ValidStatus plain.status ∧
        served.relay.Fresh needles) ∨
        ((r.committed = true ∨ ValidStatus plain.status) ∧
          ((served.ending = .aborted ∧ ¬ copied) ∨
            (served.ending = .completed ∧ copied ∧
              served.relay.Carried needles plain.body.reads.flatten ∧
              served.relay.writes = plain.body.reads.countP (· ≠ []))))) := by
  intro served copied
  let headed : Relay :=
    { r with header := announce plain.announced (copyHeader r.header plain.header) }
  have headedFresh : headed.Fresh needles := ⟨fresh.body, fresh.writes, fresh.accepted⟩
  cases written : headed.writeHeader lib plain.status with
  | none =>
    have panics : served = ⟨r, plain.status, [], .panicked⟩ := by
      simp only [served, Relay.deliver]
      rw [show Relay.writeHeader lib _ plain.status = none from written]
    obtain ⟨uncommitted, invalid⟩ := writeHeader_none.mp written
    rw [panics]
    exact ⟨rfl, Or.inl ⟨rfl, uncommitted, invalid, fresh⟩⟩
  | some started =>
    have goes : r.committed = true ∨ ValidStatus plain.status := by
      by_contra neither
      rw [not_or, Bool.not_eq_true] at neither
      cases written.symm.trans (writeHeader_none.mpr neither)
    have startedFresh := (writeHeader_sameBody written).1.fresh headedFresh
    have ending : (started.copy lib agent plain.body.broken plain.body.reads).2 ≠ .panicked :=
      copy_ending _ _ started
    obtain ⟨completes, carried⟩ :=
      copy_carried lib honest plain.body.broken plain.body.reads startedFresh.carried
    rw [startedFresh.writes] at completes carried
    refine ⟨(deliver_ending plain).1, Or.inr ⟨goes, ?_⟩⟩
    cases copies : started.copy lib agent plain.body.broken plain.body.reads with
    | mk after end_ =>
      rw [copies] at completes carried ending
      cases end_ with
      | panicked => exact absurd rfl ending
      | aborted =>
        have aborts : served = ⟨after, plain.status, [], .aborted⟩ := by
          simp only [served, Relay.deliver]
          rw [show Relay.writeHeader lib _ plain.status = some started from written]
          simp only [copies]
        rw [aborts]
        exact Or.inl ⟨rfl, fun whole => absurd (completes.mpr whole) (by simp)⟩
      | completed =>
        have ends : served =
            ⟨{ after with header := addTrailers plain after.header }, plain.status, [],
              .completed⟩ := by
          simp only [served, Relay.deliver]
          rw [show Relay.writeHeader lib _ plain.status = some started from written]
          simp only [copies]
        obtain ⟨tracks, writes⟩ := carried rfl
        rw [ends]
        exact Or.inr ⟨rfl, completes.mp rfl, tracks, by rw [writes, Nat.zero_add]⟩

end Relay

/-! ## Records -/

section Records

variable {lib : Library} {w : World} {view : View} {header : Header} {req : Request}

/-- The Agent has taken the whole of a body, redacted. -/
def Whole (lib : Library) (method : Bytes) (answer : Answer) (needles : List Bytes)
    (run : List Event) : Prop :=
  ∃ plain, answer.Reads lib method plain ∧
    accepted (response run) = Redact.string plain.body.reads.flatten needles

/-- There is one way to read an answer. -/
theorem reads_unique {method : Bytes} {answer : Answer} {one other : Response}
    (reads : answer.Reads lib method one) (also : answer.Reads lib method other) : one = other := by
  obtain ⟨res, responds, decoded, _⟩ := reads
  obtain ⟨_, same, again, _⟩ := also
  cases responds.symm.trans same
  exact Option.some.inj (decoded.symm.trans again)

/-- What is given to the server and noted in the record, by how `ServeHTTP` ends. -/
theorem exchange_ending (lib : Library) (w : World) (header : Header) (record : Audit.Record)
    (method : Bytes) (transport : Transport) (out : Outgoing) (needles : List Bytes) :
    let attempt := exchange lib w header record method transport out needles
    let served := (newRelay w.protocol header needles).serve lib w.agent method w.atError
      (w.upstream transport out)
    attempt.record.decision = record.decision ∧
      (served.ending = .completed → attempt.record.failure = served.failure ∧
        response attempt.events = (served.relay.finish lib w.agent).sent) ∧
      (served.ending = .aborted → attempt.record.failure ≠ []) ∧
      (served.ending = .panicked → attempt.record.failure = served.failure ∧
        response attempt.events = served.relay.sent) := by
  intro attempt served
  have ended {ending : Ending} (ends : served.ending = ending) :
      ((newRelay w.protocol header needles).serve lib w.agent method w.atError
        (w.upstream transport out)).ending = ending := ends
  cases ends : served.ending with
  | completed =>
    simp only [attempt, exchange, ended ends]
    exact ⟨rfl, fun _ => ⟨rfl, response_tell _⟩, by simp, by simp⟩
  | aborted =>
    simp only [attempt, exchange, ended ends]
    exact ⟨rfl, by simp, fun _ => abortFailure_ne_nil _ _, by simp⟩
  | panicked =>
    simp only [attempt, exchange, ended ends]
    refine ⟨rfl, by simp, by simp, fun _ => ⟨rfl, ?_⟩⟩
    show response (tell served.relay.sent ++ [.panicked served.upstreamStatus]) = served.relay.sent
    rw [response_append, response_tell]
    exact append_nil _

/-- A record without a failure means that the whole body was taken, exactly if the last
bytes of every response that can be read reach the Agent. -/
theorem exchange_whole_iff (honest : ∀ k b, (w.agent k b).2 = none → (w.agent k b).1 = b.length)
    (record : Audit.Record) (method : Bytes) (transport : Transport) (out : Outgoing)
    (needles : List Bytes) :
    let attempt := exchange lib w header record method transport out needles
    let answer := w.upstream transport out
    (attempt.record.failure = [] → Whole lib method answer needles attempt.events) ↔
      ∀ plain, answer.Reads lib method plain →
        Finishes w.protocol w.agent needles answer.early plain := by
  intro attempt answer
  obtain ⟨_, completed, aborted, panicked⟩ := exchange_ending lib w header record method
    transport out needles
  rcases serve_cases lib w.agent method w.atError answer (newRelay w.protocol header needles) with
    ⟨unreadable, noted, ends⟩ | ⟨plain, reads, bare, _⟩
  · refine iff_of_true (fun none => ?_) (fun plain reads => absurd ⟨plain, reads⟩ unreadable)
    exact absurd ((completed ends).1.symm.trans none) noted
  · have only : (∀ other, answer.Reads lib method other →
      Finishes w.protocol w.agent needles answer.early other) ↔
        Finishes w.protocol w.agent needles answer.early plain :=
      ⟨fun every => every plain reads, fun here other also => reads_unique reads also ▸ here⟩
    have whole : Whole lib method answer needles attempt.events ↔
        accepted (response attempt.events) = reference needles plain.body.reads.flatten := by
      rw [← string_reference]
      exact ⟨fun ⟨other, also, same⟩ => reads_unique reads also ▸ same,
        fun same => ⟨plain, reads, same⟩⟩
    rw [only, whole]
    obtain ⟨told, early⟩ : ∃ told, answer.early.foldlM (Relay.inform lib)
      (newRelay w.protocol header needles) = some told :=
      early_some _ _
    obtain ⟨fresh, committed⟩ := early_fresh ⟨rfl, rfl, rfl⟩ early
    have switched : told.committed = (w.protocol = .http1 && answer.early.any (·.status = 101)) :=
      committed
    have delivers := serve_delivers w.agent w.atError early reads
    obtain ⟨_, ends⟩ := deliver_cases lib honest fresh plain
    rw [← delivers] at ends
    have status : told.committed = true ↔
        w.protocol = .http1 ∧ ∃ info ∈ answer.early, info.status = 101 := by
      simp only [switched, Bool.and_eq_true, decide_eq_true_eq, any_eq_true]
    rcases ends with
      ⟨ends, uncommitted, invalid, left⟩ | ⟨goes, ⟨ends, cut⟩ | ⟨ends, copied, carried, writes⟩⟩
    · -- Nothing of the body was written, and nothing is noted.
      obtain ⟨failure, sent⟩ := panicked ends
      rw [failure, bare, sent, left.accepted]
      constructor
      · intro lost
        have empty : plain.body.reads.flatten = [] := by
          rw [← length_eq_zero_iff, ← reference_length needles, ← lost rfl, length_nil]
        exact ⟨Or.inr (Or.inr empty), fun _ _ => Or.inl (by rw [empty, heldBack]; exact drop_nil)⟩
      · rintro ⟨valid | switches | empty, _⟩ _
        · exact absurd valid invalid
        · exact absurd (status.mpr switches) (by simp [uncommitted])
        · rw [empty]
          rfl
    · refine iff_of_true (fun none => absurd none (aborted ends))
        ⟨?_, fun ended taken => absurd ⟨ended, taken⟩ cut⟩
      exact goes.elim (fun switches => Or.inr (Or.inl (status.mp switches))) Or.inl
    · obtain ⟨failure, sent⟩ := completed ends
      rw [failure, bare, sent, finish_accepted carried, writes]
      constructor
      · intro ends
        exact ⟨goes.elim (fun switches => Or.inr (Or.inl (status.mp switches))) Or.inl,
          fun _ _ => ends rfl⟩
      · intro finishes _
        exact finishes.2 copied.1 copied.2

/-- The Upstream is contacted. -/
def Event.contacts : Event → Bool
  | .contacted _ _ _ => true
  | _ => false

/-- What comes after it: only answers to the Agent, and how the handler is left. -/
def Event.answers : Event → Bool
  | .sent _ => true
  | .aborted => true
  | .panicked _ => true
  | _ => false

theorem tell_contacts (sent : List Sent) : (tell sent).any Event.contacts = false := by
  simp [tell, Event.contacts]

theorem tell_answers (sent : List Sent) : (tell sent).all Event.answers = true := by
  simp [tell, Event.answers]

/-- An exchange contacts its Upstream once, and then only answers. -/
theorem exchange_events (lib : Library) (w : World) (header : Header) (record : Audit.Record)
    (method : Bytes) (transport : Transport) (out : Outgoing) (needles : List Bytes) :
    ∃ rest, (exchange lib w header record method transport out needles).events =
        .contacted transport out (w.upstream transport out) :: rest ∧
        rest.all Event.answers = true := by
  unfold exchange
  dsimp only
  split
  · exact ⟨_, rfl, tell_answers _⟩
  · refine ⟨tell _ ++ [.aborted], rfl, ?_⟩
    rw [all_append, tell_answers]
    rfl
  · refine ⟨tell _ ++ [.panicked _], rfl, ?_⟩
    rw [all_append, tell_answers]
    rfl

/-- An attempt that is denied or fails early contacts no Upstream. -/
theorem refuse_contacts (record : Audit.Record) (reason : Bytes) (status : Int64) (msg : String) :
    (Attempt.refuse header record reason status msg).run.any Event.contacts = false := by
  rw [Attempt.run, any_append, Attempt.refuse, tell_contacts]
  rfl

theorem fail_contacts (record : Audit.Record) (failure : Bytes) (status : Int64) (msg : String) :
    (Attempt.fail header record failure status msg).run.any Event.contacts = false := by
  rw [Attempt.run, any_append, Attempt.fail, tell_contacts]
  rfl

theorem turnAway_contacts (refusal : Refusal) :
    (turnAway header refusal).any Event.contacts = false := by
  cases refusal with
  | unauthorized text => exact tell_contacts _
  | abandoned => rfl
  | internal => exact tell_contacts _

/-- What is done first stands first in the run. -/
theorem run_after (front : List Event) (a : Attempt) : (a.after front).run = front ++ a.run := by
  rw [Attempt.run, Attempt.run, Attempt.after, append_assoc]

/-- A run of an attempt either contacts no Upstream, or is an exchange after a resolution
and a rendering. -/
theorem proxyAttempt_shape (lib : Library) (w : World) (view : View) (header : Header)
    (req : Request) (tok : AgentToken) (slot : Slot) :
    let run := (proxyAttempt lib w view header req tok slot).run
    run.any Event.contacts = false ∨
      ∃ value cred record transport out, record.decision = allowed ∧
        run = [.resolved view.cfg req.secretName (.ok value), .rendered (.ok cred), .released] ++
          (exchange lib w header record req.method transport out cred.needles).run := by
  intro run
  rcases proxyAttempt_cases lib w view header req tok slot with ⟨_, refused⟩ | ⟨_, _, refused⟩ |
    ⟨_, _, reason, _, denied⟩ | ⟨rest, rt, _, _, _, resolved⟩
  · exact Or.inl (by simp only [run, refused, refuse_contacts])
  · exact Or.inl (by simp only [run, refused, refuse_contacts])
  · exact Or.inl (by simp only [run, denied, refuse_contacts])
  · simp only [run, resolved, resolve, run_after]
    cases w.resolve view.cfg req.secretName with
    | error e =>
      refine Or.inl ?_
      rw [any_append]
      cases e with
      | lockedMemory | other => rw [fail_contacts]; rfl
    | ok value =>
      simp only [inject, run_after]
      cases render rt.template value with
      | error e =>
        refine Or.inl ?_
        rw [any_append, any_append, fail_contacts]
        rfl
      | ok cred => exact Or.inr ⟨value, cred, _, _, _, rfl, rfl⟩

/-- A run either contacts no Upstream, or is an exchange after a check, a resolution and a
rendering. -/
theorem proxy_shape (lib : Library) (w : World) (view : View) (header : Header) (req : Request) :
    (proxy lib w view header req).any Event.contacts = false ∨
      ∃ token tok value cred record transport out, record.decision = allowed ∧
        proxy lib w view header req =
          [.checked token (.ok tok), .resolved view.cfg req.secretName (.ok value),
            .rendered (.ok cred), .released] ++
            (exchange lib w header record req.method transport out cred.needles).run := by
  obtain ⟨slot, proxies⟩ := proxy_checkThen lib w view header req
  rw [proxies]
  rcases checkThen_cases (w := w) header
    (fun tok => proxyAttempt lib w view header req tok slot) with
    ⟨refusal, _, run⟩ | ⟨token, tok, _, _, run⟩
  · refine Or.inl ?_
    rw [run, any_append, turnAway_contacts, Bool.or_false]
    unfold checks
    split
    · rfl
    · rfl
  · rw [run]
    rcases proxyAttempt_shape lib w view header req tok slot with none |
      ⟨value, cred, record, transport, out, allows, exchanged⟩
    · exact Or.inl none
    · exact Or.inr ⟨token, tok, value, cred, record, transport, out, allows, by rw [exchanged]; rfl⟩

/-- A record without a failure means a complete Delivery exactly if the last bytes reach
the Agent.

Take any request that is proxied to an Upstream, any answer of the Upstream, wherever its
body breaks off, and any connection to the Agent, wherever its writes fail. That every
byte of the body, redacted, was taken by the connection if the record that is appended
allows the Delivery and notes no failure, holds if and only if the server can write the
response's status, unless there is no body, and the connection takes what Redaction has
held back to the end, if the copy before has not failed. -/
theorem unfailed_record_complete_iff
    (honest : ∀ k b, (w.agent k b).2 = none → (w.agent k b).1 = b.length) {transport : Transport}
    {out : Outgoing} {answer : Answer} {cred : Credential}
    (contacted : .contacted transport out answer ∈ proxy lib w view header req)
    (rendered : .rendered (.ok cred) ∈ proxy lib w view header req) :
    (∀ record, .appended record ∈ proxy lib w view header req → record.decision = allowed →
      record.failure = [] →
        Whole lib req.method answer cred.needles (proxy lib w view header req)) ↔
      ∀ plain, answer.Reads lib req.method plain →
        Finishes w.protocol w.agent cred.needles answer.early plain := by
  rcases proxy_shape lib w view header req with
    silent | ⟨token, tok, value, used, record, road, sent, allows, run⟩
  · exact absurd rfl (any_eq_false.mp silent _ contacted)
  · obtain ⟨rest, events, answers⟩ := exchange_events lib w header record req.method road
      sent used.needles
    have others {e : Event} (member : e ∈ rest) : e.answers = true :=
      all_eq_true.mp answers e member
    -- The run names one contact, one rendering and one record.
    have contact : transport = road ∧ out = sent ∧ answer = w.upstream road sent := by
      simp only [run, Attempt.run, events, mem_append, mem_cons, not_mem_nil, reduceCtorEq,
        or_false, false_or, Event.contacted.injEq] at contacted
      exact contacted.resolve_right fun later => absurd (others later) (by simp [Event.answers])
    have rendering : cred = used := by
      simp only [run, Attempt.run, events, mem_append, mem_cons, not_mem_nil, reduceCtorEq,
        or_false, false_or, Event.rendered.injEq, Except.ok.injEq] at rendered
      exact rendered.resolve_right fun later => absurd (others later) (by simp [Event.answers])
    have appended (other : Audit.Record) : .appended other ∈ proxy lib w view header req ↔
        other = (exchange lib w header record req.method road sent used.needles).record := by
      simp only [run, Attempt.run, events, mem_append, mem_cons, not_mem_nil, reduceCtorEq,
        or_false, false_or, Event.appended.injEq]
      exact or_iff_right fun later => absurd (others later) (by simp [Event.answers])
    obtain ⟨rfl, rfl, rfl⟩ := contact
    subst rendering
    have taken : response (proxy lib w view header req) =
        response (exchange lib w header record req.method transport out cred.needles).events := by
      rw [run, response_append, response_run]
      rfl
    have decided := (exchange_ending lib w header record req.method transport out
      cred.needles).1
    simp only [appended, forall_eq, decided, allows, true_imp_iff, Whole, taken]
    exact exchange_whole_iff honest record req.method transport out cred.needles

end Records

/-! ## A response that ends in a held back byte -/

/-- The Upstream's answer: a body that ends in the first byte of the Secret. -/
def trailingAnswer : Answer where
  early := []
  response := some
    { status := 200, header := fun _ => [], announced := [], body := ⟨[bytes "xs"], false⟩,
      trailers := [] }

/-- A world in which that is the answer, and the Agent's connection is as given. -/
def trailingWorld (agent : Connection) : World :=
  { plainWorld with upstream := fun _ _ => trailingAnswer, agent := agent }

/-- The run of an allowed request in it. -/
def trailingRun (agent : Connection) : List Event :=
  proxy plainLibrary (trailingWorld agent) (viewOf limited) (fun _ => [])
    (readRequest (bytes "repos"))

/-- If this is a record, it notes no failure. -/
def Event.unfailed : Event → Bool
  | .appended record => record.failure == []
  | _ => true

theorem trailing_reads {plain : Response}
    (reads : trailingAnswer.Reads plainLibrary (bytes "GET") plain) :
    plain.body = ⟨[bytes "xs"], false⟩ ∧ plain.status = 200 := by
  obtain ⟨res, responds, decoded, _⟩ := reads
  cases responds
  cases decoded
  exact ⟨rfl, rfl⟩

/-- What such a run does. -/
theorem trailingRun_shape (agent : Connection)
    (contacts : (trailingRun agent).any Event.contacts = true) :
    ∃ transport out cred record, .contacted transport out trailingAnswer ∈ trailingRun agent ∧
      .rendered (.ok cred) ∈ trailingRun agent ∧ .appended record ∈ trailingRun agent ∧
      record.decision = allowed := by
  rcases proxy_shape plainLibrary (trailingWorld agent) (viewOf limited) (fun _ => [])
    (readRequest (bytes "repos")) with
    silent | ⟨token, tok, value, cred, record, transport, out, allows, run⟩
  · cases silent.symm.trans contacts
  · obtain ⟨rest, events, _⟩ := exchange_events plainLibrary (trailingWorld agent) (fun _ => [])
      record (bytes "GET") transport out cred.needles
    let attempt := exchange plainLibrary (trailingWorld agent) (fun _ => []) record (bytes "GET")
      transport out cred.needles
    have allowed := (exchange_ending plainLibrary (trailingWorld agent) (fun _ => []) record
      (bytes "GET") transport out cred.needles).1.trans allows
    refine ⟨transport, out, cred, attempt.record, ?_, ?_, ?_, allowed⟩
    · rw [trailingRun, run]
      exact mem_append_right _ (mem_append_left _ (events ▸ mem_cons_self))
    · rw [trailingRun, run]
      exact mem_append_left _ (by simp)
    · rw [trailingRun, run]
      exact mem_append_right _ (mem_append_right _ (mem_singleton_self _))

/-- A connection that takes the first write and no other. -/
def closing : Connection := fun k b => if k = 0 then (b.length, none) else (0, some ())

/-- The last byte is refused, and the record notes no failure. -/
theorem unfailed_record_incomplete :
    ∃ transport out cred record, .contacted transport out trailingAnswer ∈ trailingRun closing ∧
      .rendered (.ok cred) ∈ trailingRun closing ∧ .appended record ∈ trailingRun closing ∧
      record.decision = allowed ∧ record.failure = [] ∧
      ¬ Whole plainLibrary (bytes "GET") trailingAnswer cred.needles (trailingRun closing) := by
  obtain ⟨transport, out, cred, record, contacted, rendered, appended, allows⟩ :=
    trailingRun_shape closing (by decide +kernel)
  have clean : (trailingRun closing).all Event.unfailed = true := by decide +kernel
  refine ⟨transport, out, cred, record, contacted, rendered, appended, allows, ?_, ?_⟩
  · exact beq_iff_eq.mp (all_eq_true.mp clean _ appended)
  · rintro ⟨plain, reads, same⟩
    have taken : (accepted (response (trailingRun closing))).length = 1 := by decide +kernel
    rw [same, string_reference, reference_length, (trailing_reads reads).1] at taken
    exact absurd taken (by decide)

/-- A connection that takes everything. -/
def taking : Connection := fun _ b => (b.length, none)

/-- If it is taken, the Delivery without a failure is complete. -/
theorem unfailed_record_complete_taken :
    ∃ (cred : Credential) (record : Audit.Record), .appended record ∈ trailingRun taking ∧
      record.failure = [] ∧
      Whole plainLibrary (bytes "GET") trailingAnswer cred.needles (trailingRun taking) := by
  obtain ⟨transport, out, cred, record, contacted, rendered, appended, allows⟩ :=
    trailingRun_shape taking (by decide +kernel)
  have clean : (trailingRun taking).all Event.unfailed = true := by decide +kernel
  have unfailed : record.failure = [] := beq_iff_eq.mp (all_eq_true.mp clean _ appended)
  have finishes (plain : Response) (reads : trailingAnswer.Reads plainLibrary (bytes "GET") plain) :
      Finishes .http1 taking cred.needles [] plain := by
    obtain ⟨_, status⟩ := trailing_reads reads
    exact ⟨Or.inl (by rw [status]; decide), fun _ _ => Or.inr rfl⟩
  exact ⟨cred, record, appended, unfailed,
    (unfailed_record_complete_iff (fun _ _ _ => rfl) contacted rendered).mpr finishes record
      appended allows unfailed⟩

end TrustedCourier.AgentApi
