import TrustedCourier.Deliveries

/-!
# Denials reveal nothing about Secret Names

Two runs of a handler are compared, for requests that differ in their Secret Name and
Upstream, in different worlds and under different configs. What an Agent without an
accepted token gets is settled before the Secret Name is looked at. With an accepted
token, and short of the Secret Resolver, it is settled by the headers and the path that
would be forwarded: an undefined Secret Name, one that is not allowed, and one without
such an Upstream are denied in the same words.

Time is not part of a run.
-/

namespace TrustedCourier.AgentApi

open Config Access Headers ForwardedPath List

/-- What a check of a token comes to, apart from whose it is. -/
def outcome (answer : Except TokenError AgentToken) : Except TokenError Unit :=
  answer.map fun _ => ()

/-- Where two runs check the same token, they come to the same. -/
def ChecksAlike (run run' : List Event) : Prop :=
  ∀ token answer answer', .checked token answer ∈ run → .checked token answer' ∈ run' →
    outcome answer = outcome answer'

/-- A run that does not reach the Secret Resolver. -/
def Unresolved (run : List Event) : Prop :=
  ∀ cfg secretName answer, .resolved cfg secretName answer ∉ run

theorem Unresolved.of_cons {e : Event} {rest : List Event} (unresolved : Unresolved (e :: rest)) :
    Unresolved rest :=
  fun cfg secretName answer member => unresolved cfg secretName answer (mem_cons_of_mem e member)

/-- Two runs that an Agent cannot tell apart before the Secret Resolver is reached, if
their paths are the same as far as that matters. -/
structure Indistinct (samePath : Prop) (run run' : List Event) : Prop where
  accepts : (∃ tok, Accepts tok run) ↔ ∃ tok, Accepts tok run'
  refused : (∀ tok, ¬ Accepts tok run) → response run = response run'
  denied : (∃ tok, Accepts tok run) → samePath → Unresolved run → Unresolved run' →
  response run = response run'

theorem not_accepts_sent {run : List Event} (sent : ∀ e ∈ run, e.IsSent) (tok : AgentToken) :
    ¬ Accepts tok run := by
  rintro ⟨token, member⟩
  exact sent _ member

theorem Indistinct.of_not_accepts {samePath : Prop} {run run' : List Event}
    (refused : ∀ tok, ¬ Accepts tok run) (refused' : ∀ tok, ¬ Accepts tok run')
    (same : response run = response run') : Indistinct samePath run run' where
  accepts := iff_of_false (not_exists.mpr refused) (not_exists.mpr refused')
  refused := fun _ => same
  denied := fun _ _ _ _ => same

/-! ## Before the token is known -/

section Admit

variable {w w' : World} {header : Header} {presented : List Bytes}
  {attempt attempt' : AgentToken → Attempt}

/-- The same refusal follows from the same outcome. -/
theorem verifyAgentToken_alike (gone : w.gone = w'.gone)
    (same : ∀ token, presented = [token] →
      outcome (w.authenticate token) = outcome (w'.authenticate token)) :
    (verifyAgentToken w.authenticate w.gone presented).map (fun _ => ()) =
      (verifyAgentToken w'.authenticate w'.gone presented).map fun _ => () := by
  match presented with
  | [] | first :: second :: rest => rfl
  | [token] =>
    have checked := same token rfl
    unfold outcome at checked
    cases answer : w.authenticate token with
    | ok tok =>
      cases answer' : w'.authenticate token with
      | ok tok' => simp [verifyAgentToken, answer, answer', Except.map]
      | error e' => simp [answer, answer', Except.map] at checked
    | error e =>
      cases answer' : w'.authenticate token with
      | ok tok' => simp [answer, answer', Except.map] at checked
      | error e' =>
        obtain rfl : e = e' := by simpa [answer, answer', Except.map] using checked
        cases e <;> simp [verifyAgentToken, answer, answer', gone, Except.map]

theorem not_accepts_turnAway {refusal : Refusal} (tok : AgentToken)
    (refused : verifyAgentToken w.authenticate w.gone presented = .error refusal) :
    ¬ Accepts tok (checks w presented ++ turnAway header refusal) := by
  rintro ⟨token, member⟩
  rcases mem_append.mp member with checked | sent
  · obtain ⟨_, _, same⟩ := checks_refused refused _ checked
    cases same
  · exact isSent_turnAway sent

/-- Two requests that present the same are turned away in the same way, or an attempt is
made for both. -/
theorem checkThen_alike (gone : w.gone = w'.gone)
    (alike : ChecksAlike (checkThen w header presented attempt)
      (checkThen w' header presented attempt')) :
    (∃ refusal, (∀ tok, ¬ Accepts tok (checkThen w header presented attempt)) ∧
        (∀ tok, ¬ Accepts tok (checkThen w' header presented attempt')) ∧
        response (checkThen w header presented attempt) = response (turnAway header refusal) ∧
        response (checkThen w' header presented attempt') = response (turnAway header refusal)) ∨
      (∃ token tok tok', checkThen w header presented attempt = .checked token (.ok tok) ::
        (attempt tok).run ∧
        checkThen w' header presented attempt' = .checked token (.ok tok') ::
          (attempt' tok').run) := by
  have same : ∀ token, presented = [token] →
      outcome (w.authenticate token) = outcome (w'.authenticate token) := by
    intro token only
    have checked (w : World) (attempt : AgentToken → Attempt) :
        .checked token (w.authenticate token) ∈ checkThen w header presented attempt :=
      mem_append_left _ (mem_checks.mpr ⟨token, only, rfl⟩)
    exact alike token _ _ (checked w attempt) (checked w' attempt')
  have verified := verifyAgentToken_alike gone same
  cases first : verifyAgentToken w.authenticate w.gone presented with
  | error refusal =>
    cases second : verifyAgentToken w'.authenticate w'.gone presented with
    | ok tok' => simp [first, second, Except.map] at verified
    | error refusal' =>
      obtain rfl : refusal = refusal' := by simpa [first, second, Except.map] using verified
      refine Or.inl ⟨refusal, ?_⟩
      simp only [checkThen, first, second, response_append, response_checks, nil_append, and_self,
        and_true]
      exact ⟨fun tok => not_accepts_turnAway tok first, fun tok => not_accepts_turnAway tok second⟩
  | ok tok =>
    cases second : verifyAgentToken w'.authenticate w'.gone presented with
    | error refusal' => simp [first, second, Except.map] at verified
    | ok tok' =>
      obtain ⟨token, rfl, answer⟩ := verifyAgentToken_ok.mp first
      obtain ⟨_, only, answer'⟩ := verifyAgentToken_ok.mp second
      obtain rfl := singleton_inj.mp only
      refine Or.inr ⟨token, tok, tok', ?_⟩
      simp [checkThen, first, second, checks, answer, answer']

/-- If the attempts cannot be told apart short of the Secret Resolver, neither can the
runs. -/
theorem checkThen_indistinct {samePath : Prop} (gone : w.gone = w'.gone)
    (alike : ChecksAlike (checkThen w header presented attempt)
      (checkThen w' header presented attempt'))
    (quiet : samePath → ∀ tok tok', Unresolved (attempt tok).run → Unresolved (attempt' tok').run →
      response (attempt tok).run = response (attempt' tok').run) :
    Indistinct samePath (checkThen w header presented attempt)
      (checkThen w' header presented attempt') := by
  rcases checkThen_alike gone alike with
    ⟨refusal, refused, refused', same, same'⟩ | ⟨token, tok, tok', run, run'⟩
  · exact .of_not_accepts refused refused' (same.trans same'.symm)
  · rw [run, run']
    refine ⟨iff_of_true ⟨tok, token, mem_cons_self⟩ ⟨tok', token, mem_cons_self⟩, ?_, ?_⟩
    · intro refused
      exact absurd ⟨token, mem_cons_self⟩ (refused tok)
    · intro _ path unresolved unresolved'
      exact quiet path tok tok' unresolved.of_cons unresolved'.of_cons

end Admit

/-! ## Short of the Secret Resolver -/

section Attempts

variable {lib : Library} {w : World} {view : View} {header : Header} {req : Request}
  {tok : AgentToken} {slot : Slot}

/-- What an attempt that does not reach the Secret Resolver is answered, by what an Agent
knows: the headers and the path of its request. -/
def refusalOf (lib : Library) (header : Header) (req : Request) : List Sent :=
  if (dropOffer lib req.header).get (bytes "Upgrade") ≠ [] then
    writeError header 400 "Proxy Delivery does not support protocol upgrades"
  else if forwardedPath req.escapedPath = none then
    writeError header 400 "the path must not contain dot segments"
  else writeError header 403 deniedMessage

theorem resolve_reaches {record : Audit.Record} {secretName : Bytes}
    {deliver : Option Bytes → Attempt} :
    ¬ Unresolved (resolve w view header record secretName deliver).run := by
  intro unresolved
  exact unresolved view.cfg secretName _ (mem_append_left _ mem_cons_self)

theorem response_refuse {record : Audit.Record} {reason : Bytes} {status : Int64} {msg : String} :
    response (Attempt.refuse header record reason status msg).run =
      writeError header status msg := by
  rw [response_run, Attempt.refuse, response_tell]

theorem revealAttempt_response (unresolved : Unresolved (revealAttempt w view header req tok).run) :
    response (revealAttempt w view header req tok).run = writeError header 403 deniedMessage := by
  rcases revealAttempt_cases w view header req tok with ⟨reason, denied⟩ | ⟨_, resolved⟩
  · rw [denied, response_refuse]
  · rw [resolved] at unresolved
    exact absurd unresolved resolve_reaches

theorem proxyAttempt_response
    (unresolved : Unresolved (proxyAttempt lib w view header req tok slot).run) :
    response (proxyAttempt lib w view header req tok slot).run = refusalOf lib header req := by
  rcases proxyAttempt_cases lib w view header req tok slot with
    ⟨upgrades, refused⟩ | ⟨plain, dots, refused⟩ |
    ⟨plain, path, reason, _, denied⟩ | ⟨rest, rt, _, _, _, resolved⟩
  · rw [refused, response_refuse, refusalOf, if_pos upgrades]
  · rw [refused, response_refuse, refusalOf, if_neg plain, if_pos dots]
  · rw [denied, response_refuse, refusalOf, if_neg plain, if_neg path]
  · rw [resolved] at unresolved
    exact absurd unresolved resolve_reaches

end Attempts

section Handlers

variable {lib : Library} {w w' : World} {view view' : View} {header : Header} {req req' : Request}

/-- Two refused reveals look the same. -/
theorem reveal_indistinct {samePath : Prop} (method : req.method = req'.method)
    (headers : req.header = req'.header) (gone : w.gone = w'.gone)
    (alike : ChecksAlike (reveal lib w view header req) (reveal lib w' view' header req')) :
    Indistinct samePath (reveal lib w view header req) (reveal lib w' view' header req') := by
  unfold reveal at alike ⊢
  rw [← method, ← headers] at alike ⊢
  have turnedAway (run : List Event) (sent : ∀ e ∈ run, e.IsSent) : Indistinct samePath run run :=
    .of_not_accepts (not_accepts_sent sent) (not_accepts_sent sent) rfl
  by_cases other : req.method ≠ bytes "GET"
  · rw [if_pos other, if_pos other]
    exact turnedAway _ fun _ => isSent_tell
  · rw [if_neg other, if_neg other] at alike ⊢
    cases found : presentedBearer lib req.header with
    | error refusal => exact turnedAway _ fun _ => isSent_turnAway
    | ok presented =>
      simp only [found] at alike
      refine checkThen_indistinct gone alike fun _ tok tok' unresolved unresolved' => ?_
      rw [revealAttempt_response unresolved, revealAttempt_response unresolved']

/-- What is forwarded depends on the remaining path alone. -/
theorem forwardedPath_remainder {escaped escaped' : Bytes}
    (same : remainder escaped = remainder escaped') :
    forwardedPath escaped = forwardedPath escaped' := by
  rw [forwardedPath, forwardedPath, same]

/-- Two refused requests look the same. -/
theorem proxy_indistinct {mode : DeliveryMode} (proxied : mode = .proxy)
    (headers : req.header = req'.header) (query : req.rawQuery = req'.rawQuery)
    (slots : slotsOf view.cfg = slotsOf view'.cfg) (gone : w.gone = w'.gone)
    (alike : ChecksAlike (proxy lib w view header req) (proxy lib w' view' header req')) :
    Indistinct (mode = .proxy → remainder req.escapedPath = remainder req'.escapedPath)
      (proxy lib w view header req) (proxy lib w' view' header req') := by
  obtain ⟨slot, run⟩ := proxy_checkThen lib w view header req
  obtain ⟨slot', run'⟩ := proxy_checkThen lib w' view' header req'
  -- The slots are those of all templates, so both requests present the same.
  have found : presented lib.equalFold lib.maxParams view.snap.slots req.header req.rawQuery =
      presented lib.equalFold lib.maxParams view'.snap.slots req'.header req'.rawQuery := by
    rw [view.serves.slots, view'.serves.slots, slots, headers, query]
  rw [run, run', found] at alike ⊢
  refine checkThen_indistinct gone alike fun path tok tok' unresolved unresolved' => ?_
  rw [proxyAttempt_response unresolved, proxyAttempt_response unresolved', refusalOf, refusalOf,
    headers, forwardedPath_remainder (path proxied)]

end Handlers

/-- Denials say nothing about Secret Names. Take two runs of the same handler on requests
with the same method, headers and query, under configs with the same credential slots,
where a token that both check has the same outcome. The Secret Names, the Upstreams, the
tokens, the configs and everything else in the two worlds are arbitrary.

Then a token is accepted in both runs or in neither. If in neither, the Agent gets the
same response, whatever the paths. If in both, with the same path to be forwarded, and if
neither reaches the Secret Resolver, it gets the same response. -/
theorem denials_alike (mode : DeliveryMode) (lib : Library) (header : Header) (w w' : World)
    (view view' : View) (req req' : Request) (method : req.method = req'.method)
    (headers : req.header = req'.header) (query : req.rawQuery = req'.rawQuery)
    (slots : slotsOf view.cfg = slotsOf view'.cfg) (gone : w.gone = w'.gone)
    (alike : ChecksAlike (handle mode lib w view header req)
      (handle mode lib w' view' header req')) :
    let run := handle mode lib w view header req
    let run' := handle mode lib w' view' header req'
    ((∃ tok, Accepts tok run) ↔ ∃ tok, Accepts tok run') ∧
      ((∀ tok, ¬ Accepts tok run) → response run = response run') ∧
      ((∃ tok, Accepts tok run) →
        (mode = .proxy → remainder req.escapedPath = remainder req'.escapedPath) →
        Unresolved run → Unresolved run' → response run = response run') := by
  suffices indistinct :
    Indistinct (mode = .proxy → remainder req.escapedPath = remainder req'.escapedPath)
      (handle mode lib w view header req) (handle mode lib w' view' header req') from
    ⟨indistinct.accepts, indistinct.refused, indistinct.denied⟩
  cases mode with
  | reveal => exact reveal_indistinct method headers gone alike
  | proxy => exact proxy_indistinct rfl headers query slots gone alike

/-- The same Secret under another Secret Name, which no Policy allows. -/
def renamed : Config :=
  { Config.empty with secrets := AList.singleton (bytes "gh") { github with name := bytes "gh" } }

/-- Nothing was resolved, and no token refused. -/
def Event.quiet : Event → Bool
  | .resolved _ _ _ => false
  | .checked _ (.error _) => false
  | _ => true

theorem quiet_run (run : List Event) (quiet : run.all Event.quiet = true) : Unresolved run ∧
    ∀ token answer, .checked token answer ∈ run → outcome answer = .ok () := by
  refine ⟨fun cfg secretName answer member => ?_, fun token answer member => ?_⟩
  · exact absurd (all_eq_true.mp quiet _ member) (by simp [Event.quiet])
  · cases answer with
    | ok tok => rfl
    | error e => exact absurd (all_eq_true.mp quiet _ member) (by simp [Event.quiet])

/-- A run that asks for a path which no Policy allows. -/
def deniedRun (cfg : Config) : List Event :=
  handle .proxy plainLibrary plainWorld (viewOf cfg) (fun _ => []) (readRequest (bytes "users"))

/-- Where the path is not allowed and where the Secret Name is undefined, an accepted token
is denied in the same words. -/
theorem denials_alike_undefined : (∃ tok, Accepts tok (deniedRun limited)) ∧
    response (deniedRun limited) = response (deniedRun renamed) := by
  obtain ⟨unresolved, checked⟩ := quiet_run (deniedRun limited) (by decide +kernel)
  obtain ⟨unresolved', checked'⟩ := quiet_run (deniedRun renamed) (by decide +kernel)
  have slots : slotsOf limited = slotsOf renamed := by
    simp [slotsOf, newSlots, limited, renamed]
  have accepted : ∃ tok, Accepts tok (deniedRun limited) :=
    ⟨limitedToken, bytes "tcat_a", mem_append_left _
      (mem_checks.mpr ⟨bytes "tcat_a", by decide +kernel, rfl⟩)⟩
  have alike := denials_alike .proxy plainLibrary (fun _ => []) plainWorld plainWorld
    (viewOf limited) (viewOf renamed)
    (readRequest (bytes "users")) (readRequest (bytes "users")) rfl rfl rfl slots rfl
    fun token answer answer' member member' =>
      (checked token answer member).trans (checked' token answer' member').symm
  exact ⟨accepted, alike.2.2 accepted (fun _ => rfl) unresolved unresolved'⟩

end TrustedCourier.AgentApi
