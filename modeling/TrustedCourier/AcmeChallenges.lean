import TrustedCourier.AcmeIssuer

/-!
# Challenges are answered while they are validated, and cleaned up afterwards

The CA validates a challenge at any moment after it was told to, and the verdict is waited
for. All that time the answer has to be in place: the DNS record was set, has been seen at
the name servers and not been removed since, or the certificate manager serves the challenge
certificate or the HTTP response. When the order is over, no response may be left at the
certificate manager, and `Cleanup` has been called for every record. A DNS provider may
refuse that; then its record stays, and the Operator is told to remove it.
-/

namespace TrustedCourier.AcmeIssuer

open Dialogues Config Runs List

/-! ## What the certificate manager serves to validations -/

/-- The pending responses of `certmanager.Manager`. -/
structure Responses (Cert : Type) where
  alpn : NameMap Cert
  http01 : NameMap Bytes

/-- `acme.ALPNProto`. -/
def alpnProto : Bytes := bytes "acme-tls/1"

/-- `HTTP01Path`. -/
def http01Path : Bytes := bytes "/.well-known/acme-challenge/"

def errNoChallenge : String := "no TLS-ALPN-01 challenge is pending for this name"

section Serving

variable {Cert : Type} (lower : Bytes → Bytes) (m : Responses Cert)

/-- The TLS-ALPN-01 certificate of a name is kept. -/
def Responses.presentTLSALPN (domain : Bytes) (cert : Cert) : Responses Cert :=
  { m with alpn := m.alpn.insert (lower domain) cert }

/-- The certificate of a name is withdrawn. -/
def Responses.removeTLSALPN (domain : Bytes) : Responses Cert :=
  { m with alpn := m.alpn.erase (lower domain) }

/-- The answer to an HTTP-01 token is kept. -/
def Responses.presentHTTP (token keyAuth : Bytes) : Responses Cert :=
  { m with http01 := m.http01.insert token keyAuth }

/-- The answer to a token is withdrawn. -/
def Responses.removeHTTP (token : Bytes) : Responses Cert :=
  { m with http01 := m.http01.erase token }

/-- `GetCertificate` of `TLSConfig`, where `Certificate` gives this to everyone else. -/
def Responses.getCertificate (certificate : Except String Cert) (supportedProtos : List Bytes)
    (serverName : Bytes) :
    Except String Cert :=
  if supportedProtos = [alpnProto] then
    match m.alpn.lookup (lower serverName) with
    | some cert => .ok cert
    | none => .error errNoChallenge
  else certificate

/-- `HTTP01Handler`: the body that is served, or nothing where it is not found. -/
def Responses.http01Handler (method path : Bytes) : Option Bytes :=
  let token := path.drop http01Path.length
  if http01Path.isPrefixOf path = false ∨ token = [] ∨ method ≠ bytes "GET" ∧
    method ≠ bytes "HEAD" then none
  else m.http01.lookup token

end Serving

/-! ## What stands after a conversation -/

section Standing

variable {Signer Cert : Type}

/-- What was said, call by call. -/
abbrev Talked (Signer Cert : Type) : Type := List (Exchange (Call Signer Cert) Call.Reply)

/-- Where a response is looked up: a name in lower case, or a token. -/
inductive Slot where
  | alpn (name : Bytes)
  | http (token : Bytes)
deriving DecidableEq

/-- The response that is pending there. -/
def Responses.find (m : Responses Cert) : Slot → Option (Cert ⊕ Bytes)
  | .alpn name => (m.alpn.lookup name).map .inl
  | .http token => (m.http01.lookup token).map .inr

/-- The records that `Present` and `Cleanup` were called for, in order and whatever the DNS
provider replied, where responses were presented, and the responses pending. -/
structure Ledger (Cert : Type) where
  presented : List Record
  cleaned : List Record
  shown : List Slot
  responses : Responses Cert

variable (lower : Bytes → Bytes)

/-- A call is entered into the ledger. -/
def Ledger.note (l : Ledger Cert) : Call Signer Cert → Ledger Cert
  | .present record => { l with presented := l.presented ++ [record] }
  | .cleanup record => { l with cleaned := l.cleaned ++ [record] }
  | .presentTLSALPN domain cert =>
    { l with
      shown := l.shown ++ [.alpn (lower domain)]
      responses := l.responses.presentTLSALPN lower domain cert }
  | .removeTLSALPN domain => { l with responses := l.responses.removeTLSALPN lower domain }
  | .presentHTTP token keyAuth =>
    { l with shown := l.shown ++ [.http token], responses := l.responses.presentHTTP token keyAuth }
  | .removeHTTP token => { l with responses := l.responses.removeHTTP token }
  | _ => l

/-- The ledger of a conversation that began with these responses. -/
def ledger (m : Responses Cert) (h : Talked Signer Cert) : Ledger Cert :=
  h.foldl (fun l e => l.note lower e.call)
    { presented := [], cleaned := [], shown := [], responses := m }

/-- The record was set, and `Cleanup` has not been called for it since. -/
def Standing (h : Talked Signer Cert) (record : Record) : Prop :=
  ∃ front back, h = front ++ ⟨.present record, .ok ()⟩ :: back ∧
    ∀ e ∈ back, e.call ≠ .cleanup record

/-- The record was set, has been seen at its name servers, and `Cleanup` has not been called
for it since. -/
def Propagated (h : Talked Signer Cert) (record : Record) : Prop :=
  ∃ before records back, h = before ++ ⟨.waitPropagated records, .ok ()⟩ :: back ∧
    Standing before record ∧
    record ∈ records ∧ ∀ e ∈ back, e.call ≠ .cleanup record

variable {Public : Type} (lib : Library Public Signer) (m : Responses Cert)

/-- The answer to a challenge is in place. A token is never empty. -/
structure Answerable (h : Talked Signer Cert) (account : Signer) (authz : Authorization)
    (challenge : Challenge) :
    Prop where
  dns : challenge.type = challengeDNS01 →
  ∃ value, lib.dns01ChallengeRecord account challenge.token = .ok value ∧
    Propagated h { name := dns01Label ++ authz.identifier, value := value }
  alpn : challenge.type = challengeTLSALPN01 → ∃ cert,
    ⟨.tlsALPN01ChallengeCert account challenge.token authz.identifier, .ok cert⟩ ∈ h ∧
    ∀ certificate name, lower name = lower authz.identifier →
      (ledger lower m h).responses.getCertificate lower certificate [alpnProto] name = .ok cert
  http : challenge.type = challengeHTTP01 → challenge.token ≠ [] → ∃ keyAuth,
    lib.http01ChallengeResponse account challenge.token = .ok keyAuth ∧
    (ledger lower m h).responses.http01Handler (bytes "GET") (http01Path ++ challenge.token) =
      some keyAuth

/-- The CA has offered the challenge for an authorization that is not valid yet. -/
structure Chosen (h : Talked Signer Cert) (account : Signer) (authz : Authorization)
    (challenge : Challenge) : Prop where
  fetched : ∃ url, ⟨.getAuthorization account url, .ok authz⟩ ∈ h
  unsettled : authz.status ≠ statusValid
  member : challenge ∈ authz.challenges

/-- It has, and the answer to the challenge is in place. -/
def Offered (h : Talked Signer Cert) (account : Signer) (authz : Authorization)
    (challenge : Challenge) : Prop :=
  Chosen h account authz challenge ∧ Answerable lower lib m h account authz challenge

/-- Whenever the CA is told to validate a challenge, and whenever the verdict is waited
for, the answer is in place. -/
def Orderly (before : Talked Signer Cert) : Exchange (Call Signer Cert) Call.Reply → Prop
  | ⟨.accept account challenge, _⟩ => ∃ authz, Offered lower lib m before account authz challenge
  | ⟨.waitAuthorization account url, _⟩ => ∃ authz challenge, authz.uri = url ∧
    ⟨.accept account challenge, .ok ()⟩ ∈ before ∧
    Offered lower lib m before account authz challenge
  | _ => True

/-- Of the records that `Present` was called for only these are still to be cleaned up, and
no response is left that was presented. -/
structure Balanced (l : Ledger Cert) (records : List Record) : Prop where
  records : l.presented = l.cleaned ++ records
  responses : ∀ slot, l.responses.find slot = if slot ∈ l.shown then none else m.find slot

/-- All was in order so far, and only these records are still to be cleaned up. -/
structure Pending (h : Talked Signer Cert) (records : List Record) : Prop where
  orderly : Each (Orderly lower lib m) h
  balanced : Balanced m (ledger lower m h) records

/-- What validating adds to a conversation is in order and leaves all as it is. -/
def Validating (h h' : Talked Signer Cert) : Prop :=
  ∃ more, h' = h ++ more ∧ (∀ e ∈ more, e.call.still = true) ∧ Each (Orderly lower lib m) h'

/-- Where a pending challenge comes from, with its record standing. -/
def Drawn (h : Talked Signer Cert) (account : Signer) (c : DnsChallenge) : Prop :=
  Standing h c.record ∧ ∃ authz, Chosen h account authz c.challenge ∧
    c.challenge.type = challengeDNS01 ∧
    c.authzURL = authz.uri ∧ c.record.name = dns01Label ++ authz.identifier ∧
    lib.dns01ChallengeRecord account c.challenge.token = .ok c.record.value

/-- The challenge is offered, for the authorization that is waited for. -/
def Ready (account : Signer) (h : Talked Signer Cert) (c : DnsChallenge) : Prop :=
  ∃ authz, authz.uri = c.authzURL ∧ Offered lower lib m h account authz c.challenge

end Standing

/-! ## What calls leave as it is -/

section Order

variable {Public Signer Cert α : Type} {lib : Library Public Signer} {cfg : ACME}
  {lower : Bytes → Bytes}
  {m : Responses Cert} {h h' more : Talked Signer Cert} {e : Exchange (Call Signer Cert) Call.Reply}
  {l : Ledger Cert}
  {record : Record} {records : List Record} {account : Signer}
  {authz : Authorization} {challenge : Challenge}
  {c : DnsChallenge}

theorem note_still {c : Call Signer Cert} (still : c.still = true) (l : Ledger Cert) :
    l.note lower c = l := by
  cases c <;> first | rfl | cases still

theorem ledger_concat (e : Exchange (Call Signer Cert) Call.Reply) :
    ledger lower m (h ++ [e]) = (ledger lower m h).note lower e.call := foldl_append

theorem ledger_still (still : ∀ e ∈ more, e.call.still = true) :
    ledger lower m (h ++ more) = ledger lower m h := by
  unfold ledger
  rw [foldl_append]
  induction more with
  | nil => rfl
  | cons e rest ih =>
    obtain ⟨here, later⟩ := forall_mem_cons.mp still
    rw [foldl_cons, note_still here]
    exact ih later

theorem ne_cleanup {c : Call Signer Cert} (still : c.still = true) : c ≠ .cleanup record := by
  rintro rfl
  cases still

theorem Standing.later (standing : Standing h record)
    (kept : ∀ e ∈ more, e.call ≠ .cleanup record) :
    Standing (h ++ more) record := by
  obtain ⟨front, back, rfl, before⟩ := standing
  exact ⟨front, back ++ more, by simp, forall_mem_append.mpr ⟨before, kept⟩⟩

theorem Propagated.still (seen : Propagated h record) (still : ∀ e ∈ more, e.call.still = true) :
    Propagated (h ++ more) record := by
  obtain ⟨before, records, back, rfl, standing, listed, kept⟩ := seen
  refine ⟨before, records, back ++ more, by simp, standing, listed,
    forall_mem_append.mpr ⟨kept, ?_⟩⟩
  exact fun e member => ne_cleanup (still e member)

theorem Chosen.later (chosen : Chosen h account authz challenge) (more : Talked Signer Cert) :
    Chosen (h ++ more) account authz challenge := by
  obtain ⟨⟨url, fetched⟩, unsettled, member⟩ := chosen
  exact ⟨⟨url, mem_append_left _ fetched⟩, unsettled, member⟩

theorem Offered.still (offered : Offered lower lib m h account authz challenge)
    (still : ∀ e ∈ more, e.call.still = true) :
    Offered lower lib m (h ++ more) account authz challenge := by
  obtain ⟨chosen, dns, alpn, http⟩ := offered
  refine ⟨chosen.later more, fun type => ?_, fun type => ?_, ?_⟩
  · obtain ⟨value, computed, seen⟩ := dns type
    exact ⟨value, computed, seen.still still⟩
  · obtain ⟨cert, made, answers⟩ := alpn type
    rw [ledger_still still]
    exact ⟨cert, mem_append_left _ made, answers⟩
  · rw [ledger_still still]
    exact http

/-- A call that asks for no validation is always in order. -/
theorem orderly_of_quiet {c : Call Signer Cert} (quiet : c.validates = false) (reply : c.Reply) :
    Orderly lower lib m h ⟨c, reply⟩ := by
  cases c <;> trivial

theorem Validating.refl (orderly : Each (Orderly lower lib m) h) : Validating lower lib m h h :=
  ⟨[], (append_nil h).symm, fun _ member => absurd member not_mem_nil, orderly⟩

theorem Validating.orderly (so : Validating lower lib m h h') : Each (Orderly lower lib m) h' := by
  obtain ⟨_, _, _, orderly⟩ := so
  exact orderly

theorem Validating.concat
    (so : Validating lower lib m h h') (still : e.call.still = true)
    (fits : Orderly lower lib m h' e) :
    Validating lower lib m h (h' ++ [e]) := by
  obtain ⟨more, rfl, each, orderly⟩ := so
  refine ⟨more ++ [e], by rw [append_assoc], ?_, orderly.concat fits⟩
  exact forall_mem_append.mpr ⟨each, by simpa using still⟩

theorem Validating.trans {h' h'' : Talked Signer Cert} (so : Validating lower lib m h h')
    (then' : Validating lower lib m h' h'') : Validating lower lib m h h'' := by
  obtain ⟨more, rfl, still, _⟩ := so
  obtain ⟨last, rfl, still', orderly⟩ := then'
  exact ⟨more ++ last, by rw [append_assoc], forall_mem_append.mpr ⟨still, still'⟩, orderly⟩

theorem Offered.validating (offered : Offered lower lib m h account authz challenge)
    (so : Validating lower lib m h h') : Offered lower lib m h' account authz challenge := by
  obtain ⟨more, rfl, still, _⟩ := so
  exact offered.still still

section

variable (pending : Pending lower lib m h records)
include pending

theorem Pending.validating (so : Validating lower lib m h h') : Pending lower lib m h' records := by
  obtain ⟨more, rfl, still, orderly⟩ := so
  exact ⟨orderly, by rw [ledger_still still]; exact pending.balanced⟩

/-- One call that asks for no validation. -/
theorem Pending.call {left : List Record} {c : Call Signer Cert} (reply : c.Reply)
    (quiet : c.validates = false)
    (balanced : ∀ l, Balanced m l records → Balanced m (l.note lower c) left) :
    Pending lower lib m (h ++ [⟨c, reply⟩]) left :=
  ⟨pending.orderly.concat (orderly_of_quiet quiet reply),
    by rw [ledger_concat]; exact balanced _ pending.balanced⟩

theorem Pending.quiet {c : Call Signer Cert} (reply : c.Reply)
    (quiet : c.quiet = true) : Pending lower lib m (h ++ [⟨c, reply⟩]) records := by
  rw [Call.quiet, Bool.and_eq_true, Bool.not_eq_true'] at quiet
  exact pending.call reply quiet.2 fun l balanced => by rwa [note_still quiet.1]

/-! ## Rules for conversations -/

end

/-- What holds when a program ends, whatever is replied to it. -/
abbrev Ends (program : Program (Call Signer Cert) Call.Reply α)
    (post : α → Talked Signer Cert → Prop) (h : Talked Signer Cert) : Prop :=
  wp recorded (fun _ => True) program post h

theorem ends_then {c : Call Signer Cert} {rest : c.Reply → Talk Signer Cert α}
    {post : Except String α → Talked Signer Cert → Prop}
    (more : ∀ reply, Ends (rest reply).run post (h ++ [⟨c, reply⟩])) :
    Ends (say c >>= rest).run post h :=
  wp_say trivial fun reply _ said => said ▸ more reply

/-- Quiet calls set nothing and remove nothing, whatever is replied. -/
theorem ends_quiet {program : Program (Call Signer Cert) Call.Reply α}
    (only : Only (fun c => c.quiet = true) program) (pending : Pending lower lib m h records) :
    Ends program (fun _ h' => Pending lower lib m h' records) h := by
  induction program generalizing h with
  | done result => exact ⟨trivial, pending⟩
  | ask c next ih =>
    refine ⟨trivial, fun reply h' said => ?_⟩
    rw [said]
    exact ih reply (only.2 reply) (pending.quiet reply only.1)

/-! ## TLS-ALPN-01 and HTTP-01 -/

theorem challengeOf_ok {type : Bytes} (found : challengeOf lib cfg authz type = .ok challenge) :
    challenge ∈ authz.challenges ∧ challenge.type = type := by
  unfold challengeOf at found
  split at found
  · rename_i other first
    cases found
    exact ⟨mem_of_find?_eq_some first, by simpa using find?_some first⟩
  · cases found

theorem ends_validated (offered : Offered lower lib m h account authz challenge)
    (orderly : Each (Orderly lower lib m) h) :
    Ends (validated lib cfg account authz challenge : Talk Signer Cert Unit).run
      (fun _ => Validating lower lib m h) h := by
  refine ends_then fun reply => ?_
  have asked : Validating lower lib m h (h ++ [⟨.accept account challenge, reply⟩]) :=
    (Validating.refl orderly).concat rfl ⟨authz, offered⟩
  refine wp_orFail trivial (fun _ _ => asked) ?_
  rintro _ rfl
  refine ends_then fun verdict => ?_
  have waited := asked.concat (e := ⟨.waitAuthorization account authz.uri, verdict⟩) rfl
    ⟨authz, challenge, rfl, by simp, offered.validating asked⟩
  cases verdict <;> exact ⟨trivial, waited⟩

/-- An entry that is put in and taken out again is gone, and the others are as they were. -/
theorem lookup_erase_insert {α : Type} (entries : NameMap α) (name key : Bytes) (value : α) :
    ((entries.insert name value).erase name).lookup key = if key = name then none
      else entries.lookup key := by
  by_cases same : key = name
  · rw [if_pos same, same, AList.lookup_erase]
  · rw [if_neg same, AList.lookup_erase_ne same, AList.lookup_insert_ne same]

theorem find_alpn_undone (r : Responses Cert) (domain : Bytes) (cert : Cert) (slot : Slot) :
    ((r.presentTLSALPN lower domain cert).removeTLSALPN lower domain).find slot =
      if slot = .alpn (lower domain) then none else r.find slot := by
  cases slot with
  | alpn name =>
    simp only [Responses.find, Responses.presentTLSALPN, Responses.removeTLSALPN,
      lookup_erase_insert, Slot.alpn.injEq]
    split <;> rfl
  | http token => rfl

theorem find_http_undone (r : Responses Cert) (token keyAuth : Bytes) (slot : Slot) :
    ((r.presentHTTP token keyAuth).removeHTTP token).find slot = if slot = .http token then none
      else r.find slot := by
  cases slot with
  | alpn name => rfl
  | http other =>
    simp only [Responses.find, Responses.presentHTTP, Responses.removeHTTP, lookup_erase_insert,
      Slot.http.injEq]
    split <;> rfl

/-- A response is presented and removed again. -/
theorem Balanced.undone (balanced : Balanced m l []) {slot : Slot} {responses : Responses Cert}
    (gone : ∀ other, responses.find other = if other = slot then none else l.responses.find other) :
    Balanced m { l with shown := l.shown ++ [slot], responses := responses } [] := by
  refine ⟨balanced.records, fun other => ?_⟩
  rw [gone, balanced.responses]
  by_cases same : other = slot <;> simp [same]

/-- The answer is put in place, the challenge validated, and the answer taken away. -/
theorem ends_shown {shown removed : Call Signer Cert} (pending : Pending lower lib m h [])
    (chosen : Chosen h account authz challenge)
    (answer : ∀ reply, Answerable lower lib m (h ++ [⟨shown, reply⟩]) account authz challenge)
    (quiet : shown.validates = false ∧ removed.validates = false)
    (undone : ∀ l, Balanced m l [] → Balanced m ((l.note lower shown).note lower removed) []) :
    Ends (say shown >>= fun _ => deferring (validated lib cfg account authz challenge)
      (Program.call removed) :
      Talk Signer Cert Unit).run (fun _ h' => Pending lower lib m h' []) h := by
  refine ends_then fun reply => ?_
  rw [Ends, wp_deferring]
  have orderly := pending.orderly.concat (orderly_of_quiet quiet.1 reply)
  refine wp_mono (ends_validated ⟨chosen.later _, answer reply⟩ orderly) ?_
  rintro _ _ - ⟨more, rfl, still, validated⟩
  rw [wp_call_recorded]
  intro reply'
  refine ⟨validated.concat (orderly_of_quiet quiet.2 reply'), ?_⟩
  rw [ledger_concat, ledger_still still, ledger_concat]
  exact undone _ pending.balanced

/-- Once the certificate is presented, every validation that names the domain gets it. -/
theorem ends_alpn (pending : Pending lower lib m h []) (chosen : Chosen h account authz challenge)
    (type : challenge.type = challengeTLSALPN01) {cert : Cert}
    (made : ⟨.tlsALPN01ChallengeCert account challenge.token authz.identifier, .ok cert⟩ ∈ h) :
    Ends (say (.presentTLSALPN authz.identifier cert) >>= fun _ =>
      deferring (validated lib cfg account authz challenge)
      (tell (.removeTLSALPN authz.identifier)) : Talk Signer Cert Unit).run
      (fun _ h' => Pending lower lib m h' []) h := by
  refine ends_shown pending chosen (fun reply => ⟨fun other => ?_, fun _ => ?_, fun other => ?_⟩)
    ⟨rfl, rfl⟩ ?_
  · cases type.symm.trans other
  · refine ⟨cert, mem_append_left _ made, fun certificate name same => ?_⟩
    rw [ledger_concat, Responses.getCertificate, if_pos rfl, same]
    simp only [Ledger.note, Responses.presentTLSALPN, AList.lookup_insert]
  · cases type.symm.trans other
  · exact fun l balanced => balanced.undone (find_alpn_undone l.responses _ _)

/-- Once the key authorization is presented, it is served under its token. -/
theorem ends_http (pending : Pending lower lib m h []) (chosen : Chosen h account authz challenge)
    (type : challenge.type = challengeHTTP01) {keyAuth : Bytes}
    (computed : lib.http01ChallengeResponse account challenge.token = .ok keyAuth) :
    Ends (say (.presentHTTP challenge.token keyAuth) >>= fun _ =>
      deferring (validated lib cfg account authz challenge)
      (tell (.removeHTTP challenge.token)) : Talk Signer Cert Unit).run
      (fun _ h' => Pending lower lib m h' []) h := by
  refine ends_shown pending chosen
    (fun reply => ⟨fun other => ?_, fun other => ?_, fun _ token => ?_⟩)
    ⟨rfl, rfl⟩ ?_
  · cases type.symm.trans other
  · cases type.symm.trans other
  · refine ⟨keyAuth, computed, ?_⟩
    have starts : http01Path.isPrefixOf (http01Path ++ challenge.token) = true :=
      isPrefixOf_iff_prefix.mpr (prefix_append _ _)
    rw [ledger_concat, Responses.http01Handler, drop_left, if_neg (by simp [starts, token])]
    simp only [Ledger.note, Responses.presentHTTP, AList.lookup_insert]
  · exact fun l balanced => balanced.undone (find_http_undone l.responses _ _)

/-- One authorization by TLS-ALPN-01 or HTTP-01 leaves nothing pending. -/
theorem ends_authorize (notDNS : cfg.challenge ≠ challengeDNS01)
    (pending : Pending lower lib m h []) (url : Bytes) :
    Ends (authorize lib cfg account url : Talk Signer Cert Unit).run
      (fun _ h' => Pending lower lib m h' []) h := by
  refine ends_then fun reply => ?_
  have fetched := pending.quiet reply rfl
  refine wp_orFail trivial (fun _ _ => fetched) ?_
  rintro authz rfl
  split
  · exact ⟨trivial, fetched⟩
  · rename_i unsettled
    refine wp_given trivial (fun _ _ => fetched) fun challenge found => ?_
    obtain ⟨member, type⟩ := challengeOf_ok found
    have chosen : Chosen (h ++ [⟨Call.getAuthorization account url, .ok authz⟩]) account authz
        challenge :=
      ⟨⟨url, mem_concat_self⟩, unsettled, member⟩
    split
    · rename_i alpn
      refine ends_then fun made => ?_
      have drawn := fetched.quiet made rfl
      refine wp_orFail trivial (fun _ _ => drawn) ?_
      rintro cert rfl
      exact ends_alpn drawn (chosen.later _) (type.trans alpn) mem_concat_self
    · split
      · rename_i http
        refine wp_given trivial (fun _ _ => fetched) fun keyAuth computed => ?_
        exact ends_http fetched chosen (type.trans http) computed
      · rename_i notALPN notHTTP
        refine wp_mono (ends_validated ⟨chosen, ?_, ?_, ?_⟩ fetched.orderly) fun _ _ _ =>
          fetched.validating
        · exact fun dns => absurd (type.symm.trans dns) notDNS
        · exact fun alpn => absurd (type.symm.trans alpn) notALPN
        · exact fun http => absurd (type.symm.trans http) notHTTP

/-- However it ends, no response is left. -/
theorem ends_authorizeEach (notDNS : cfg.challenge ≠ challengeDNS01)
    (pending : Pending lower lib m h []) (urls : List Bytes) :
    Ends (urls.forM (authorize lib cfg account) : Talk Signer Cert Unit).run
      (fun _ h' => Pending lower lib m h' []) h := by
  induction urls generalizing h with
  | nil => exact ⟨trivial, pending⟩
  | cons url rest ih =>
    have unrolled : ((url :: rest).forM (authorize lib cfg account) : Talk Signer Cert Unit) =
        authorize lib cfg account url >>= fun _ => rest.forM (authorize lib cfg account) := rfl
    rw [unrolled, Ends, wp_exceptBind]
    refine wp_mono (ends_authorize notDNS pending url) ?_
    rintro ended h' - settled
    cases ended with
    | error err => exact settled
    | ok done => exact ih settled

/-! ## DNS-01 -/

theorem Balanced.present (balanced : Balanced m l records) (record : Record) :
    Balanced m (l.note lower (.present record : Call Signer Cert)) (records ++ [record]) :=
  ⟨by simp [Ledger.note, balanced.records], balanced.responses⟩

theorem Balanced.cleanup (balanced : Balanced m l (record :: records)) :
    Balanced m (l.note lower (.cleanup record : Call Signer Cert)) records :=
  ⟨by simp [Ledger.note, balanced.records], balanced.responses⟩

theorem Drawn.later (drawn : Drawn lib h account c)
    (kept : e.call ≠ .cleanup c.record) : Drawn lib (h ++ [e]) account c := by
  obtain ⟨standing, authz, chosen, known⟩ := drawn
  exact ⟨standing.later (by simpa using kept), authz, chosen.later _, known⟩

/-- A challenge whose record is set comes from its authorization. -/
theorem dnsChallenge_drawn {authz : Authorization}
    (made : dnsChallenge lib cfg account authz = .ok c)
    (fetched : ∃ url, ⟨.getAuthorization account url, .ok authz⟩ ∈ h)
    (unsettled : authz.status ≠ statusValid) (done : Unit) :
    Drawn lib (h ++ [⟨.present c.record, .ok done⟩]) account c := by
  unfold dnsChallenge at made
  simp only [Checks.bind_ok, Checks.pure_ok] at made
  obtain ⟨challenge, found, value, computed, rfl⟩ := made
  obtain ⟨member, type⟩ := challengeOf_ok found
  have chosen : Chosen h account authz challenge := ⟨fetched, unsettled, member⟩
  exact ⟨⟨h, [], rfl, by simp⟩, authz, chosen.later _, type, rfl, rfl, computed⟩

/-- A challenge whose record has been seen is offered for validation. -/
theorem Drawn.offered (drawn : Drawn lib h account c) {records : List Record}
    (listed : c.record ∈ records) (done : Unit) : ∃ authz, authz.uri = c.authzURL ∧
      Offered lower lib m (h ++ [⟨.waitPropagated records, .ok done⟩]) account authz
        c.challenge := by
  obtain ⟨standing, authz, chosen, type, uri, name, computed⟩ := drawn
  have record : c.record =
      { name := dns01Label ++ authz.identifier, value := c.record.value } := by rw [← name]
  refine ⟨authz, uri.symm, chosen.later _, fun _ => ⟨c.record.value, computed, record ▸ ?_⟩, ?_, ?_⟩
  · exact ⟨h, records, [], rfl, standing, listed, by simp⟩
  · exact fun other => absurd (other.symm.trans type) (by decide)
  · exact fun other => absurd (other.symm.trans type) (by decide)

/-- After the loop that sets the records, those pending are the ones asked to be set, and
if it did not fail, all of them stand. -/
theorem ends_setRecords (urls : List Bytes) (pending : List DnsChallenge)
    (set : Pending lower lib m h (pending.map (·.record)))
    (known : ∀ c ∈ pending, Drawn lib h account c) :
    Ends (setRecords lib cfg account pending urls)
      (fun ended h' => Pending lower lib m h' (ended.1.map (·.record)) ∧
        (ended.2 = .ok () → ∀ c ∈ ended.1, Drawn lib h' account c)) h := by
  induction urls generalizing h pending with
  | nil => exact ⟨trivial, set, fun _ => known⟩
  | cons url rest ih =>
    rw [Ends, setRecords, wp_bind, wp_call_recorded]
    intro reply
    have asked := set.quiet reply rfl
    have later : ∀ c ∈ pending, Drawn lib (h ++ [⟨.getAuthorization account url, reply⟩]) account
        c :=
      fun c member => (known c member).later (by simp)
    cases reply with
    | error fault => exact ⟨trivial, asked, fun failed => by simp at failed⟩
    | ok authz =>
      dsimp only
      split
      · exact ih pending asked later
      · rename_i unsettled
        split
        · exact ⟨trivial, asked, fun failed => by simp at failed⟩
        · rename_i c made
          rw [wp_bind, wp_call_recorded]
          intro setting
          have more : Pending lower lib m _ ((pending ++ [c]).map (·.record)) :=
            asked.call setting rfl fun l balanced => by simpa using balanced.present c.record
          cases setting with
          | error fault => exact ⟨trivial, more, fun failed => by simp at failed⟩
          | ok done =>
            refine ih (pending ++ [c]) more (forall_mem_append.mpr ⟨fun other member => ?_, ?_⟩)
            · exact (later other member).later (by simp)
            · simpa using dnsChallenge_drawn made ⟨url, mem_concat_self⟩ unsettled done

theorem Ready.validating (ready : Ready lower lib m account h c)
    (so : Validating lower lib m h h') : Ready lower lib m account h' c := by
  obtain ⟨authz, uri, offered⟩ := ready
  exact ⟨authz, uri, offered.validating so⟩

/-- The challenges that are accepted one after another, each of them offered. -/
theorem ends_acceptAll (orderly : Each (Orderly lower lib m) h) (cs : List DnsChallenge)
    (ready : ∀ c ∈ cs, Ready lower lib m account h c) :
    Ends (acceptAll lib account cs : Talk Signer Cert Unit).run
      (fun ended h' => Validating lower lib m h h' ∧
        (ended = .ok () → ∀ c ∈ cs, ⟨.accept account c.challenge, .ok ()⟩ ∈ h')) h := by
  induction cs generalizing h with
  | nil => exact ⟨trivial, Validating.refl orderly, fun _ c member => absurd member not_mem_nil⟩
  | cons c rest ih =>
    obtain ⟨⟨authz, uri, here⟩, later⟩ := forall_mem_cons.mp ready
    refine ends_then fun reply => ?_
    have next : Validating lower lib m h (h ++ [⟨.accept account c.challenge, reply⟩]) :=
      (Validating.refl orderly).concat rfl ⟨authz, here⟩
    refine wp_orFail trivial (fun _ _ => ⟨next, fun failed => by simp at failed⟩) ?_
    rintro done rfl
    refine wp_mono (ih next.orderly fun other member => (later other member).validating next) ?_
    rintro ended _ - ⟨⟨more, rfl, still, each⟩, accepted⟩
    refine ⟨next.trans ⟨more, rfl, still, each⟩,
      fun fine => forall_mem_cons.mpr ⟨by simp, accepted fine⟩⟩

/-- The verdicts are waited for one after another. -/
theorem ends_waitAll (orderly : Each (Orderly lower lib m) h) (cs : List DnsChallenge)
    (ready : ∀ c ∈ cs, ⟨.accept account c.challenge, .ok ()⟩ ∈ h ∧ Ready lower lib m account h c) :
    Ends (waitAll lib account cs : Talk Signer Cert Unit).run (fun _ => Validating lower lib m h)
      h := by
  induction cs generalizing h with
  | nil => exact ⟨trivial, Validating.refl orderly⟩
  | cons c rest ih =>
    obtain ⟨⟨accepted, authz, uri, here⟩, later⟩ := forall_mem_cons.mp ready
    refine ends_then fun reply => ?_
    have next : Validating lower lib m h (h ++ [⟨.waitAuthorization account c.authzURL, reply⟩]) :=
      (Validating.refl orderly).concat rfl ⟨authz, c.challenge, uri, accepted, here⟩
    refine wp_orFail trivial (fun _ _ => next) fun done _ => ?_
    refine wp_mono (ih next.orderly fun other member => ?_) fun _ _ _ => next.trans
    exact ⟨mem_append_left _ (later other member).1, (later other member).2.validating next⟩

/-- When all records stand, validating leaves them standing. -/
theorem ends_validateAll {cs : List DnsChallenge}
    (pending : Pending lower lib m h (cs.map (·.record)))
    (known : ∀ c ∈ cs, Drawn lib h account c) :
    Ends (validateAll lib account cs : Talk Signer Cert Unit).run
      (fun _ h' => Pending lower lib m h' (cs.map (·.record))) h := by
  refine ends_then fun reply => ?_
  have waited := pending.quiet reply rfl
  refine wp_orFail trivial (fun _ _ => waited) ?_
  rintro done rfl
  have ready : ∀ c ∈ cs, Ready lower lib m account
      (h ++ [⟨.waitPropagated (cs.map (·.record)), .ok done⟩]) c :=
    fun c member => (known c member).offered (mem_map_of_mem member) done
  rw [wp_exceptBind]
  refine wp_mono (ends_acceptAll waited.orderly cs ready) ?_
  rintro ended h' - ⟨so, accepted⟩
  have kept := waited.validating so
  cases ended with
  | error err => exact kept
  | ok _ =>
    refine wp_mono (ends_waitAll so.orderly cs fun c member => ?_) fun _ _ _ => kept.validating
    exact ⟨accepted rfl c member, (ready c member).validating so⟩

/-- The deferred removal removes all that is pending, whatever fails. -/
theorem ends_cleanUp {cs : List DnsChallenge}
    (pending : Pending lower lib m h (cs.map (·.record))) :
    Ends (cleanUp cs : Program (Call Signer Cert) Call.Reply Unit)
      (fun _ h' => Pending lower lib m h' []) h := by
  induction cs generalizing h with
  | nil => exact ⟨trivial, pending⟩
  | cons c rest ih =>
    rw [Ends, cleanUp, wp_bind, wp_call_recorded]
    exact fun reply => ih (pending.call reply rfl fun l balanced => balanced.cleanup)

/-- However DNS-01 ends, no record is left. -/
theorem ends_authorizeByDNS (dns : DNS) (pending : Pending lower lib m h []) (urls : List Bytes) :
    Ends (authorizeByDNS lib cfg dns account urls : Talk Signer Cert Unit).run
      (fun _ h' => Pending lower lib m h' []) h := by
  rw [Ends, authorizeByDNS, wp_exceptBind]
  refine wp_mono (ends_quiet ((aside_dnsProvider lib cfg account dns).mono fun _ aside => aside.2)
    pending) ?_
  rintro built h' - pending
  cases built with
  | error err => exact pending
  | ok _ =>
    rw [onOk_ok, wp_deferring, ExceptT.run_mk, wp_bind]
    refine wp_mono (ends_setRecords urls [] pending fun c member => absurd member not_mem_nil) ?_
    rintro ⟨cs, set⟩ h'' - ⟨pending, known⟩
    dsimp only at pending known ⊢
    rw [wp_bind]
    -- However setting and validating end, the removal follows, and the provider is closed.
    have removed : ∀ {ended : Except String Unit} {h'' : Talked Signer Cert},
      Pending lower lib m h'' (cs.map (·.record)) →
        Ends (cleanUp cs >>= fun _ => pure ended : Program (Call Signer Cert) Call.Reply _)
          (fun _ => Ends (tell Call.closeProvider) fun _ h' => Pending lower lib m h' []) h'' := by
      intro ended h'' pending
      rw [Ends, wp_bind]
      exact wp_mono (ends_cleanUp pending) fun _ _ _ settled =>
        ⟨trivial, ends_quiet (only_call rfl) settled⟩
    cases set with
    | error err => exact ⟨trivial, removed pending⟩
    | ok done => exact wp_mono (ends_validateAll pending (known rfl)) fun _ _ _ => removed

/-! ## The order -/

theorem ends_authorizeOrder {h : Talked Signer Cert} (account : Signer)
    (pending : Pending lower lib m h []) (order : Order) :
    Ends (authorizeOrder lib cfg account order : Talk Signer Cert Unit).run
      (fun _ h' => Pending lower lib m h' []) h := by
  unfold authorizeOrder
  split
  · split
    · exact ends_authorizeByDNS _ pending _
    · exact ⟨trivial, pending⟩
  · rename_i notDNS
    exact ends_authorizeEach notDNS pending _

/-- What comes before and after the authorizations is quiet. -/
theorem ends_obtain :
    Ends (obtain lib cfg : Talk Signer Cert (CertManager.Issued × CertManager.Leaf Public)).run
    (fun _ h' => Pending lower lib m h' []) [] := by
  have start : Pending lower lib m ([] : Talked Signer Cert) [] := ⟨each_nil, rfl, fun _ => rfl⟩
  have client : Asks (fun c => c.quiet = true) (client lib cfg : Talk Signer Cert Signer) :=
    only_exceptBind (quiet_accountKey lib cfg) fun pair =>
      only_exceptBind ((aside_introduce lib cfg pair.1 pair.2).mono fun _ aside => aside.2) fun _ =>
        trivial
  rw [Ends, obtain, wp_exceptBind]
  refine wp_mono (ends_quiet client start) ?_
  rintro began h - pending
  cases began with
  | error err => exact pending
  | ok account =>
    refine ends_then fun reply => ?_
    have ordered := pending.quiet reply rfl
    refine wp_orFail trivial (fun _ _ => ordered) ?_
    rintro order rfl
    rw [wp_exceptBind]
    refine wp_mono (ends_authorizeOrder account ordered order) ?_
    rintro ended h' - settled
    cases ended with
    | error err => exact settled
    | ok _ =>
      refine ends_quiet ((aside_issue cfg account order fun _ _ => ?_).mono fun _ aside => aside.2)
        settled
      exact only_exceptBind trivial fun _ => only_exceptBind trivial fun _ => trivial

/-- Whatever the Backend, the CA and the DNS provider reply: whenever `Obtain` tells the CA
to validate a challenge, and whenever it waits for the verdict, the answer to the challenge
is in place. When `Obtain` ends, it has called `Cleanup` for the same records it has called
`Present` for, in the same order, and of the responses that the certificate manager serves
those that were presented are gone and the others as they were.

Proof: what only prepares or finishes an order is quiet; each authorization puts its answer
in place before it validates and takes it away after. -/
theorem challenges_answered (lib : Library Public Signer) (cfg : ACME) (lower : Bytes → Bytes)
    (m : Responses Cert) (result : Except String (CertManager.Issued × CertManager.Leaf Public))
    (h : Talked Signer Cert) (ran : Run recorded [] (obtain lib cfg).run result h) :
    Each (Orderly lower lib m) h ∧ (ledger lower m h).cleaned = (ledger lower m h).presented ∧
      ∀ slot, (ledger lower m h).responses.find slot = if slot ∈ (ledger lower m h).shown then none
        else m.find slot := by
  have spec : Ends (obtain lib cfg).run (fun _ h' => Pending lower lib m h' []) [] := ends_obtain
  have settled := wp_run spec ran
  refine ⟨settled.orderly, ?_, settled.balanced.responses⟩
  rw [settled.balanced.records, append_nil]

end Order

/-- The order fails, and `Cleanup` is called for the record that was set for it. -/
theorem challenges_answered_refused :
    ∃ (result : Except String (CertManager.Issued × CertManager.Leaf Bytes))
    (h : Talked Bytes Bytes),
      Run recorded [] (obtain plainLibrary plainACME).run result h ∧
      (ledger id { alpn := ∅, http01 := ∅ } h).presented =
      [{ name := bytes "_acme-challenge.a.example", value := bytes "t" }] ∧
      Each (Orderly id plainLibrary { alpn := ∅, http01 := ∅ }) h ∧
      (ledger id { alpn := ∅, http01 := ∅ } h).cleaned =
        (ledger id { alpn := ∅, http01 := ∅ } h).presented := by
  have ran := run_replying refusing (obtain plainLibrary plainACME : Talk Bytes Bytes _).run []
  obtain ⟨orderly, cleaned, _⟩ :=
    challenges_answered plainLibrary plainACME id { alpn := ∅, http01 := ∅ } _ _ ran
  exact ⟨_, _, ran, by decide, orderly, cleaned⟩

end TrustedCourier.AcmeIssuer
