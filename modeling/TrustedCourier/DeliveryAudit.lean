import TrustedCourier.Deliveries

/-!
# One Audit Record for every Delivery attempt

Whatever the world does, a request whose token is accepted ends in one appended record,
and any other in none. The record says how the attempt went: denied, with the reason; or
allowed, and then with a failure exactly if one shows in the run. The Secret Resolver and
the Upstreams are only called in an allowed attempt.

The closures that fill in the record are followed once, through what is done with an
allowed attempt's record on each way out. An attempt is sound if its record is the one it
started with but for the Upstream's status and the failure, and the failure is what its
events show.
-/

namespace TrustedCourier.AgentApi

open Config Access Headers ForwardedPath List

/-! ## What shows in a run -/

/-- What has failed when a Delivery has: the Secret was not obtained or could not be
rendered, the Upstream gave no response that can be read, or the response was given up
after it had started. -/
def Event.Fails (lib : Library) (method : Bytes) : Event → Prop
  | .resolved _ _ (.error _) => True
  | .rendered (.error _) => True
  | .contacted _ _ answer => ¬ ∃ plain, answer.Reads lib method plain
  | .aborted => True
  | _ => False

/-- The calls that need an allowed attempt. -/
def Event.Reaches : Event → Prop
  | .resolved _ _ _ => True
  | .contacted _ _ _ => True
  | _ => False

/-- What an attempt may do: resolve the Secret Name of its request in the config of its
snapshot, and contact the Upstream of its route. It may be left by a panic of the server's
only at a status that is none. Checking a token and appending a record are not part of
it. -/
def Event.Within (view : View) (req : Request) : Event → Prop
  | .checked _ _ => False
  | .appended _ => False
  | .resolved cfg secretName _ => cfg = view.cfg ∧ secretName = req.secretName
  | .contacted transport _ _ => ∃ rt, routeOf view req = some rt ∧ transport = rt.transport
  | .panicked status => ¬ ValidStatus status
  | _ => True

theorem Event.IsSent.within {e : Event} (sent : e.IsSent) (view : View) (req : Request) :
    e.Within view req := by
  cases e <;> first | exact sent.elim | trivial

theorem Event.IsSent.not_fails {e : Event} (sent : e.IsSent) (lib : Library) (method : Bytes) :
    ¬ e.Fails lib method := by
  cases e <;> first | exact sent.elim | exact id

theorem Event.IsSent.not_reaches {e : Event} (sent : e.IsSent) : ¬ e.Reaches := by
  cases e <;> first | exact sent.elim | exact id

/-! ## Allowed attempts -/

/-- An attempt that keeps to its request and whose record, otherwise as it was, has a
failure exactly if one shows. -/
structure Attempt.Sound (lib : Library) (view : View) (req : Request) (record : Audit.Record)
    (a : Attempt) : Prop where
  within : ∀ e ∈ a.events, e.Within view req
  kept : a.record =
    { record with upstreamStatus := a.record.upstreamStatus, failure := a.record.failure }
  noted : a.record.failure ≠ [] ↔ ∃ e ∈ a.events, e.Fails lib req.method

section Sound

variable {lib : Library} {w : World} {view : View} {header : Header} {req : Request}
  {record : Audit.Record}

/-- What was done first did not fail. -/
theorem Attempt.Sound.after {front : List Event} {a : Attempt}
    (within : ∀ e ∈ front, e.Within view req)
    (fine : ∀ e ∈ front, ¬ e.Fails lib req.method) (sound : a.Sound lib view req record) :
    (a.after front).Sound lib view req record where
  within := fun e member => (mem_append.mp member).elim (within e) (sound.within e)
  kept := sound.kept
  noted := by
    simp only [Attempt.after, mem_append, or_and_right, exists_or, sound.noted, iff_or_self]
    rintro ⟨e, member, fails⟩
    exact absurd fails (fine e member)

theorem tell_within {sent : List Sent} : ∀ e ∈ tell sent, e.Within view req :=
  fun _ member => (isSent_tell member).within view req

theorem tell_not_fails {sent : List Sent} : ∀ e ∈ tell sent, ¬ e.Fails lib req.method :=
  fun _ member => (isSent_tell member).not_fails lib req.method

/-- After a failure that shows, its text is noted and an error answered. -/
theorem fail_sound {first : Event} {more : List Event} {failure : Bytes}
    {status : Int64} {msg : String}
    (within : ∀ e ∈ first :: more, e.Within view req)
    (fails : first.Fails lib req.method) (text : failure ≠ []) :
    (Attempt.after (first :: more) (Attempt.fail header record failure status msg)).Sound
      lib view req record where
  within := fun e member => (mem_append.mp member).elim (within e) (tell_within e)
  kept := rfl
  noted := iff_of_true text ⟨first, mem_cons_self, fails⟩

/-- An attempt that sends, ends in some event, and notes a failure if that is one. -/
theorem ending_sound {sent : List Sent} {endings : List Event} {ended : Audit.Record}
    (within : ∀ e ∈ endings, e.Within view req)
    (kept : ended =
      { record with upstreamStatus := ended.upstreamStatus, failure := ended.failure })
    (noted : ended.failure ≠ [] ↔ ∃ e ∈ endings, e.Fails lib req.method) :
    Attempt.Sound lib view req record ⟨tell sent ++ endings, ended⟩ where
  within := fun e member => (mem_append.mp member).elim (tell_within e) (within e)
  kept := kept
  noted := by
    simp only [mem_append, or_and_right, exists_or, noted, iff_or_self]
    rintro ⟨e, member, fails⟩
    exact absurd fails (tell_not_fails e member)

/-- A reveal's response is as its record says. -/
theorem writeSecret_sound (clean : record.failure = []) (value : Option Bytes) :
    (writeSecret w header record value).Sound lib view req record := by
  have text : bytes "the Secret could not be written to the Agent" ≠ [] := by decide
  have interrupted (sent : List Sent) : Attempt.Sound lib view req record
    ⟨tell sent ++ [.aborted, .released],
      { record with failure := bytes "the Secret could not be written to the Agent" }⟩ := by
    apply ending_sound
    · exact forall_mem_cons.mpr ⟨trivial, forall_mem_singleton.mpr trivial⟩
    · rfl
    · exact iff_of_true text ⟨.aborted, mem_cons_self, trivial⟩
  unfold writeSecret
  dsimp only
  split
  · exact interrupted _
  · split
    · exact interrupted _
    · apply ending_sound
      · exact forall_mem_singleton.mpr trivial
      · rfl
      · exact iff_of_false (fun failed => failed clean) (by simp [Event.Fails])

/-- The Upstream of the route is contacted, and what the closures note is what shows. -/
theorem exchange_sound {rt : Route} (route : routeOf view req = some rt) (out : Outgoing)
    (needles : List Bytes) :
    (exchange lib w header record req.method rt.transport out needles).Sound
      lib view req record := by
  have contacted : ∀ e ∈ [Event.contacted rt.transport out (w.upstream rt.transport out)],
      e.Within view req :=
    forall_mem_singleton.mpr ⟨rt, route, rfl⟩
  unfold exchange
  dsimp only
  rcases serve_cases lib w.agent req.method w.atError (w.upstream rt.transport out)
    (newRelay w.protocol header needles) with
    ⟨unread, failed, ending⟩ | ⟨plain, reads, clean, invalid⟩
  · rw [ending]
    exact ⟨fun e member => (mem_append.mp member).elim (contacted e) (tell_within e), rfl,
      iff_of_true failed ⟨_, mem_cons_self, unread⟩⟩
  · -- The response can be read, so whatever fails, fails after it has started.
    apply Attempt.Sound.after contacted
    · exact forall_mem_singleton.mpr (not_not_intro ⟨plain, reads⟩)
    · split
      · exact ⟨tell_within, rfl, iff_of_false (fun failed => failed clean) fun ⟨e, member, fails⟩ =>
          tell_not_fails e member fails⟩
      · apply ending_sound
        · exact forall_mem_singleton.mpr trivial
        · rfl
        · exact iff_of_true (abortFailure_ne_nil _ _) ⟨.aborted, mem_singleton_self _, trivial⟩
      · next ending =>
        apply ending_sound
        · exact forall_mem_singleton.mpr (invalid ending)
        · rfl
        · exact iff_of_false (fun failed => failed clean) (by simp [Event.Fails])

theorem inject_sound {rt : Route} (route : routeOf view req = some rt) (inbound : Header)
    (rest : Bytes) (slot : Slot) (value : Option Bytes) :
    (inject lib w header record req inbound rest slot rt value).Sound lib view req record := by
  unfold inject
  dsimp only
  have within : ∀ e ∈ [Event.rendered (render rt.template value), .released], e.Within view req :=
    forall_mem_cons.mpr ⟨trivial, forall_mem_singleton.mpr trivial⟩
  cases rendered : render rt.template value with
  | error e =>
    rw [rendered] at within
    exact fail_sound within trivial (by decide)
  | ok cred =>
    rw [rendered] at within
    apply (exchange_sound route _ cred.needles).after within
    exact forall_mem_cons.mpr ⟨id, forall_mem_singleton.mpr id⟩

/-- The Secret Resolver is asked for the request's Secret Name, and then everything is
sound if what is done with the Secret is. -/
theorem resolve_sound {deliver : Option Bytes → Attempt}
    (delivers : ∀ value, (deliver value).Sound lib view req record) :
    (resolve w view header record req.secretName deliver).Sound lib view req record := by
  unfold resolve
  dsimp only
  have within (answer : Except ResolveError (Option Bytes)) :
      ∀ e ∈ [Event.resolved view.cfg req.secretName answer], e.Within view req :=
    forall_mem_singleton.mpr ⟨rfl, rfl⟩
  cases w.resolve view.cfg req.secretName with
  | error e =>
    cases e with
    | lockedMemory | other => exact fail_sound (within _) trivial (by decide)
  | ok value =>
    apply (delivers value).after (within _)
    exact forall_mem_singleton.mpr id

end Sound

/-! ## Every attempt -/

/-- What allows a Delivery: the Secret Name is defined, and an entry of a Policy of the
token lists the mode for it, and for Proxy Delivery admits the method and the path that is
forwarded. -/
def Permits (cfg : Config) (tok : AgentToken) (req : Request) : DeliveryMode → Prop
  | .reveal => req.secretName ∈ cfg.secrets ∧ HasEntry cfg tok (Lists req.secretName .reveal)
  | .proxy => req.secretName ∈ cfg.secrets ∧ ∃ rest, forwardedPath req.escapedPath = some rest ∧
      HasEntry cfg tok fun a => Lists req.secretName .proxy a ∧ AdmitsMethod req.method a ∧
        AdmitsPath rest a

/-- The record names the attempt: its token, its Secret Name, its mode. -/
def Names (tok : AgentToken) (req : Request) (mode : DeliveryMode) (record : Audit.Record) : Prop :=
  record.agentTokenID = tok.id ∧ record.secretName = req.secretName ∧ record.delivery = mode.text

/-- An attempt is denied for a reason and nothing is called, or it is allowed, for good
reason, and sound. -/
inductive Attempt.Decided (lib : Library) (view : View) (req : Request) (tok : AgentToken)
    (mode : DeliveryMode) (a : Attempt) : Prop where
  | refused (names : Names tok req mode a.record) (decision : a.record.decision = denied)
      (reason : a.record.reason ≠ [])
      (clean : a.record.failure = []) (silent : ∀ e ∈ a.events, e.IsSent)
  | permitted (record : Audit.Record) (names : Names tok req mode record)
      (decision : record.decision = allowed)
      (clean : record.reason = []) (permits : Permits view.cfg tok req mode)
        (sound : a.Sound lib view req record)

section Decided

variable {lib : Library} {w : World} {view : View} {header : Header} {req : Request}
  {tok : AgentToken}

theorem refuse_decided {record : Audit.Record} {mode : DeliveryMode} {reason : Bytes}
    {status : Int64} {msg : String} (names : Names tok req mode record)
    (clean : record.failure = []) (text : reason ≠ []) :
    (Attempt.refuse header record reason status msg).Decided lib view req tok mode :=
  .refused names rfl text clean fun _ => isSent_tell

theorem Denial.text_ne_nil (reason : Denial) : reason.text ≠ [] := by
  cases reason <;> decide

theorem revealAttempt_decided : (revealAttempt w view header req tok).Decided lib view req tok
    .reveal := by
  have names : Names tok req .reveal (revealRecord req tok) := ⟨rfl, rfl, rfl⟩
  rcases revealAttempt_cases w view header req tok with ⟨reason, denied⟩ | ⟨permitted, resolved⟩
  · rw [denied]
    exact refuse_decided names rfl (Denial.text_ne_nil reason)
  · rw [resolved]
    exact .permitted { revealRecord req tok with decision := allowed } names rfl rfl
      (authorize_allowed.mp permitted) (resolve_sound fun value => writeSecret_sound rfl value)

theorem proxyAttempt_decided (slot : Slot) :
    (proxyAttempt lib w view header req tok slot).Decided lib view req tok .proxy := by
  have names : Names tok req .proxy (proxyRecord view req tok) := ⟨rfl, rfl, rfl⟩
  rcases proxyAttempt_cases lib w view header req tok slot with ⟨_, refused⟩ | ⟨_, _, refused⟩ |
    ⟨_, _, reason, text, denied⟩ | ⟨rest, rt, path, permitted, route, resolved⟩
  · rw [refused]
    exact refuse_decided names rfl (by decide)
  · rw [refused]
    exact refuse_decided names rfl (by decide)
  · rw [denied]
    exact refuse_decided names rfl text
  · rw [resolved]
    obtain ⟨known, found⟩ := authorizeProxy_allowed.mp permitted
    exact .permitted { proxyRecord view req tok with decision := allowed } names rfl rfl
      ⟨known, rest, path, found⟩ (resolve_sound fun value => inject_sound route _ rest slot value)

variable {mode : DeliveryMode} {a : Attempt}

section

variable (decided : a.Decided lib view req tok mode)
include decided

theorem Attempt.Decided.within : ∀ e ∈ a.events, e.Within view req := by
  cases decided with
  | refused _ _ _ _ silent => exact fun e member => (silent e member).within view req
  | permitted _ _ _ _ _ sound => exact sound.within

theorem Attempt.Decided.reaches {e : Event} (member : e ∈ a.events)
    (reaches : e.Reaches) : a.record.decision = allowed ∧ Permits view.cfg tok req mode := by
  cases decided with
  | refused _ _ _ _ silent => exact absurd reaches (silent e member).not_reaches
  | permitted record _ decision _ permits sound =>
    rw [sound.kept]
    exact ⟨decision, permits⟩

/-- The record of an attempt, by its decision. -/
theorem Attempt.Decided.record : Names tok req mode a.record ∧
    (a.record.decision = denied ∧ a.record.reason ≠ [] ∧ a.record.failure = [] ∨
      a.record.decision = allowed ∧ a.record.reason = [] ∧
        (a.record.failure ≠ [] ↔ ∃ e ∈ a.events, e.Fails lib req.method)) := by
  cases decided with
  | refused names decision reason clean _ => exact ⟨names, Or.inl ⟨decision, reason, clean⟩⟩
  | permitted record names decision clean _ sound =>
    have noted := sound.noted
    rw [sound.kept] at noted ⊢
    exact ⟨names, Or.inr ⟨decision, clean, noted⟩⟩

end

end Decided

theorem allowed_ne_denied : allowed ≠ denied := by decide

/-! ## Every request -/

/-- A run of a handler: a request that is turned away, or one whose token is accepted,
with its attempt. -/
inductive Audited (lib : Library) (view : View) (req : Request) (mode : DeliveryMode)
    (run : List Event) : Prop where
  | turnedAway (refused : ∀ e ∈ run, e.IsSent ∨ ∃ token error, e = .checked token (.error error))
  | attempted (token : Bytes) (tok : AgentToken) (a : Attempt)
      (decided : a.Decided lib view req tok mode) (shape : run = .checked token (.ok tok) :: a.run)

theorem checkThen_audited {lib : Library} {w : World} {view : View} {header : Header}
    {req : Request} {mode : DeliveryMode} {presented : List Bytes} {attempt : AgentToken → Attempt}
    (decided : ∀ tok, (attempt tok).Decided lib view req tok mode) :
    Audited lib view req mode (checkThen w header presented attempt) := by
  rcases checkThen_cases (w := w) header attempt with
    ⟨refusal, refused, run⟩ | ⟨token, tok, _, _, run⟩
  · refine .turnedAway fun e member => ?_
    rw [run] at member
    rcases mem_append.mp member with checked | sent
    · exact Or.inr (checks_refused refused e checked)
    · exact Or.inl (isSent_turnAway sent)
  · exact .attempted token tok (attempt tok) (decided tok) run

/-- Every request is audited. -/
theorem handle_audited (mode : DeliveryMode) (lib : Library) (w : World) (view : View)
    (header : Header) (req : Request) :
    Audited lib view req mode (handle mode lib w view header req) := by
  cases mode with
  | proxy =>
    obtain ⟨slot, run⟩ := proxy_checkThen lib w view header req
    rw [handle, run]
    exact checkThen_audited fun tok => proxyAttempt_decided slot
  | reveal =>
    rw [handle, reveal]
    split
    · exact .turnedAway fun e member => Or.inl (isSent_tell member)
    · split
      · exact .turnedAway fun e member => Or.inl (isSent_turnAway member)
      · exact checkThen_audited fun tok => revealAttempt_decided

/-- An Upstream was contacted and did not answer. -/
def Event.unanswered : Event → Bool
  | .contacted _ _ answer => answer.response.isNone
  | _ => false

/-- A run that asks an Upstream for something the Policies allow. -/
def readRun : List Event :=
  handle .proxy plainLibrary plainWorld (viewOf limited) (fun _ => []) (readRequest (bytes "repos"))

end TrustedCourier.AgentApi
