import TrustedCourier.CertManager

/-!
# When certificates are ordered

Every order, every wait and every certificate that is served fits what happened before it.
That is one predicate on an entry of the history, and each entry is made only where the
state of the loop vouches for it: the stored certificate's renewal time is past or the
certificate is still the loaded one; an issued pair is written or still pending; a written
pair's spacing is past, or set as the earliest time, or the pair is still pending; a failed
round's wait is over or being waited for.
-/

namespace TrustedCourier.CertManager

open Runs List

section Histories

variable {Public Signer : Type}

/-- When it happened. -/
def Event.time : Event Public Signer → Int
  | .read t _ _ | .answered t _ | .started t | .failed t _ _ | .issued t _ | .written t _
  | .served t _ _ _ => t

/-- The leaf of a chain, if it has one. -/
def leafOf (pem : Pem Public Signer) (chain : Bytes) : Option (Leaf Public) :=
  match pem.parseChain chain with
  | .ok chain => pem.parseCertificate chain.1
  | .error _ => none

/-- How many rounds have failed, once this has happened too: none if a pair is stored. -/
def Event.count (n : Nat) : Event Public Signer → Nat
  | .failed _ _ _ => n + 1
  | .served _ _ _ (.issued _) => 0
  | _ => n

/-- How many rounds have failed since a pair was last stored. -/
def streak (history : List (Event Public Signer)) : Nat := history.foldl Event.count 0

/-- The wait after so many failures: it doubles up to a limit. -/
def waitAfter : Nat → Int
  | 0 => acmeMinRetry
  | n + 1 => min (waitAfter n * 2) acmeMaxRetry

/-- An order may start now: the Backend has answered, a stored pair that was usable is due,
every issued pair is written since, what was written is due and a third of its lifetime
ago, and the wait after every failed round is over. -/
structure MayStart (pem : Pem Public Signer) (before : List (Event Public Signer)) (t : Int) :
    Prop where
  answered : ∃ u stored, .answered u stored ∈ before
  stored : ∀ u cert, .answered u (some cert) ∈ before → renewAt cert.leaf ≤ t
  written : ∀ earlier u pair later, before = earlier ++ .issued u pair :: later →
    ∃ v, .written v pair ∈ later
  spaced : ∀ u pair leaf, .written u pair ∈ before → leafOf pem pair.chain = some leaf →
    u + lifetime leaf / 3 ≤ t ∧ renewAt leaf ≤ t
  rested : ∀ u wait asked, .failed u wait asked ∈ before → u + wait ≤ t

/-- A certificate may be served: it was parsed with its matching key and valid then, and it
was read from the Backend or both its writes had succeeded. -/
structure MayServe (pem : Pem Public Signer) (t : Int) (cert : Certificate Public Signer)
    (parsed : Int) (chain key : Bytes) : Prop where
  parsedBefore : parsed ≤ t
  matching : pem.keyMatches cert.leaf.publicKey cert.privateKey = true
  valid : cert.leaf.notBefore ≤ parsed ∧ parsed ≤ cert.leaf.notAfter
  same : leafOf pem chain = some cert.leaf ∧ pem.parseSigner key = .ok cert.privateKey

/-- An entry fits what came before it. -/
def Fits (pem : Pem Public Signer) (before : List (Event Public Signer)) :
    Event Public Signer → Prop
  | .started t => MayStart pem before t
  | .failed _ wait _ => wait = waitAfter (streak before)
  | .served t cert parsed (.stored chain key) =>
    MayServe pem t cert parsed chain key ∧ ∃ u, .read u chain key ∈ before
  | .served t cert parsed (.issued pair) =>
    MayServe pem t cert parsed pair.chain pair.key ∧ ∃ u, .written u pair ∈ before
  | _ => True

end Histories

section Parsing

variable {Public Signer : Type} {pem : Pem Public Signer} {cert : Certificate Public Signer}

/-- What is parsed is the leaf of the chain, valid now, with the key that matches. -/
theorem parsePEM_ok {now : Int} {chain key : Bytes}
    (parsed : parsePEM pem now chain key = .ok cert) :
    leafOf pem chain = some cert.leaf ∧ pem.parseSigner key = .ok cert.privateKey ∧
      pem.keyMatches cert.leaf.publicKey cert.privateKey = true ∧
      cert.leaf.notBefore ≤ now ∧ now ≤ cert.leaf.notAfter := by
  unfold parsePEM at parsed
  cases chained : pem.parseChain chain with
  | error err => simp [chained, bind, Except.bind] at parsed
  | ok der =>
    cases read : pem.parseCertificate der.1 with
    | none => simp [chained, read, bind, Except.bind] at parsed
    | some leaf =>
      cases fresh : expired pem leaf now with
      | some err => simp [chained, read, fresh, bind, Except.bind] at parsed
      | none =>
        cases signed : pem.parseSigner key with
        | error err => simp [chained, read, fresh, signed, bind, Except.bind] at parsed
        | ok signer =>
          simp only [chained, read, fresh, signed, bind, Except.bind] at parsed
          split at parsed
          · next fits =>
            cases parsed
            unfold expired at fresh
            split at fresh
            · simp at fresh
            · next live =>
              split at fresh
              · simp at fresh
              · next begun =>
                exact ⟨by simp [leafOf, chained, read], rfl, fits, Int.not_lt.mp begun,
                  Int.not_lt.mp live⟩
          · simp at parsed

theorem usable_some {domains : List Bytes} {now : Int} {fault : Option String} {chain key : Bytes}
    (stored : usable pem domains now fault chain key = some cert) :
    parsePEM pem now chain key = .ok cert := by
  unfold usable at stored
  split at stored
  · next ok =>
    obtain ⟨_, same⟩ := Option.ite_none_right_eq_some.mp stored
    rw [ok, Option.some.inj same]
  · simp at stored

theorem mayServe_of_parsed {t parsed : Int} {chain key : Bytes}
    (ok : parsePEM pem parsed chain key = .ok cert) (since : parsed ≤ t) :
    MayServe pem t cert parsed chain key := by
  obtain ⟨leaf, signer, fits, valid⟩ := parsePEM_ok ok
  exact ⟨since, fits, valid, leaf, signer⟩

end Parsing

/-! ## What every run keeps -/

section Invariant

variable {Public Signer : Type} {pem : Pem Public Signer}

/-- What the loaded certificate, the pending pair and the earliest time vouch for. While a
pair is pending the loaded certificate is due. -/
structure Core (pem : Pem Public Signer) (clock : Int) (cert : Option (Certificate Public Signer))
    (pending : Option Issued) (earliest : Int) (history : List (Event Public Signer)) : Prop where
  past : ∀ event ∈ history, event.time ≤ clock
  ordered : Each (fun before event => ∀ earlier ∈ before, earlier.time ≤ event.time) history
  stored : ∀ u old, .answered u (some old) ∈ history → cert = some old ∨ renewAt old.leaf ≤ clock
  unwritten : ∀ before u pair later, history = before ++ .issued u pair :: later →
    pending = some pair ∨ ∃ v, .written v pair ∈ later
  spaced : ∀ u pair leaf, .written u pair ∈ history → leafOf pem pair.chain = some leaf →
    pending = some pair ∨
      (u + lifetime leaf / 3 ≤ earliest ∧ ∃ loaded, cert = some loaded ∧ loaded.leaf = leaf) ∨
      (u + lifetime leaf / 3 ≤ clock ∧ renewAt leaf ≤ clock)
  due : pending ≠ none → ∀ loaded, cert = some loaded → renewAt loaded.leaf ≤ clock ∧
    earliest ≤ clock
  fits : Each (Fits pem) history

/-- The loaded certificate was entered as served. -/
def Served (cert : Option (Certificate Public Signer)) (history : List (Event Public Signer)) :
    Prop :=
  ∀ loaded, cert = some loaded → ∃ t parsed source, .served t loaded parsed source ∈ history

/-- The waits after the failed rounds are over by this time. -/
def Waited (history : List (Event Public Signer)) (limit : Int) : Prop :=
  ∀ u wait asked, .failed u wait asked ∈ history → u + wait ≤ limit

/-- The stored pair has been read. -/
def Answered (history : List (Event Public Signer)) : Prop :=
  ∃ u stored, .answered u stored ∈ history

/-- Every issued pair is written since. -/
def AllWritten (history : List (Event Public Signer)) : Prop :=
  ∀ before u pair later, history = before ++ .issued u pair :: later → ∃ v, .written v pair ∈ later

/-- What holds where the loop is. -/
def State.Place (s : State Public Signer) : Prop :=
  match s.point with
  | .loading _ | .loadingKey _ _ | .resting _ _ =>
    s.cert = none ∧ s.pending = none ∧ Waited s.history s.clock ∧
    s.backoff = waitAfter (streak s.history)
  | .parsingStored chain key =>
    s.cert = none ∧ s.pending = none ∧ Waited s.history s.clock ∧
    s.backoff = waitAfter (streak s.history) ∧
      ∃ u, .read u chain key ∈ s.history
  | .top | .waiting _ | .writingKey | .writingCertificate =>
    Answered s.history ∧ Waited s.history s.clock ∧ s.backoff = waitAfter (streak s.history)
  | .attempting | .obtaining =>
    Answered s.history ∧ Waited s.history s.clock ∧ s.backoff = waitAfter (streak s.history) ∧
    s.pending = none ∧
      ∀ loaded, s.cert = some loaded → CertManager.renewAt loaded.leaf ≤ s.clock ∧
        s.earliest ≤ s.clock
  | .parsing =>
    Answered s.history ∧ Waited s.history s.clock ∧ s.backoff = waitAfter (streak s.history) ∧
    AllWritten s.history ∧
      ∀ pair, s.pending = some pair → ∃ v, .written v pair ∈ s.history
  | .backing until' =>
    Answered s.history ∧ Waited s.history until' ∧
      min (s.backoff * 2) acmeMaxRetry = waitAfter (streak s.history)
  | .ended => True

/-- What every run keeps. -/
structure Sound (pem : Pem Public Signer) (s : State Public Signer) : Prop where
  core : Core pem s.clock s.cert s.pending s.earliest s.history
  served : Served s.cert s.history
  place : s.Place

section Core

variable {clock : Int} {cert : Option (Certificate Public Signer)} {pending : Option Issued}
  {earliest : Int}
  {history : List (Event Public Signer)}

/-- Time passes. -/
theorem Core.later (core : Core pem clock cert pending earliest history) {t : Int}
    (since : clock ≤ t) :
    Core pem t cert pending earliest history := by
  refine ⟨?_, core.ordered, ?_, core.unwritten, ?_, ?_, core.fits⟩
  · intro event member
    exact Int.le_trans (core.past event member) since
  · intro u old member
    rcases core.stored u old member with loaded | due
    · exact .inl loaded
    · exact .inr (Int.le_trans due since)
  · intro u pair leaf member found
    rcases core.spaced u pair leaf member found with held | set | ⟨third, due⟩
    · exact .inl held
    · exact .inr (.inl set)
    · exact .inr (.inr ⟨Int.le_trans third since, Int.le_trans due since⟩)
  · intro held loaded serving
    obtain ⟨due, reached⟩ := core.due held loaded serving
    exact ⟨Int.le_trans due since, Int.le_trans reached since⟩

/-- An entry is made that fits, and that the state vouches for. -/
theorem Core.log (core : Core pem clock cert pending earliest history) (event : Event Public Signer)
    (now : event.time = clock) (fits : Fits pem history event)
    (stored : ∀ u old, event = .answered u (some old) → cert = some old)
    (held : ∀ u pair, event = .issued u pair ∨ event = .written u pair → pending = some pair) :
    Core pem clock cert pending earliest (history ++ [event]) := by
  refine ⟨?_, core.ordered.concat (by rw [now]; exact core.past), ?_, ?_, ?_, core.due,
    core.fits.concat fits⟩
  · intro other member
    rcases mem_append.mp member with old | new
    · exact core.past other old
    · rw [mem_singleton.mp new]
      exact Int.le_of_eq now
  · intro u old member
    rcases mem_append.mp member with before | new
    · exact core.stored u old before
    · exact .inl (stored u old (mem_singleton.mp new).symm)
  · intro before u pair later split
    rcases concat_split split with ⟨_, same⟩ | ⟨more, rfl, earlier⟩
    · exact .inl (held u pair (.inl same))
    · rcases core.unwritten before u pair more earlier with waiting | ⟨v, member⟩
      · exact .inl waiting
      · exact .inr ⟨v, mem_append_left _ member⟩
  · intro u pair leaf member found
    rcases mem_append.mp member with before | new
    · exact core.spaced u pair leaf before found
    · exact .inl (held u pair (.inr (mem_singleton.mp new).symm))

/-- A first certificate is loaded. -/
theorem Core.load (core : Core pem clock none none earliest history)
    (cert : Certificate Public Signer) :
    Core pem clock (some cert) none earliest history := by
  refine ⟨core.past, core.ordered, ?_, core.unwritten, ?_, fun held => absurd rfl held, core.fits⟩
  · intro u old member
    exact .inr ((core.stored u old member).resolve_left (by simp))
  · intro u pair leaf member found
    rcases core.spaced u pair leaf member found with held | ⟨_, _, nothing, _⟩ | past
    · exact .inl held
    · cases nothing
    · exact .inr (.inr past)

/-- A pair is issued while the loaded certificate is due. -/
theorem Core.hold (core : Core pem clock cert none earliest history) (pair : Issued)
    (due : ∀ loaded, cert = some loaded → renewAt loaded.leaf ≤ clock ∧ earliest ≤ clock) :
    Core pem clock cert (some pair) earliest history := by
  refine ⟨core.past, core.ordered, core.stored, ?_, ?_, fun _ => due, core.fits⟩
  · intro before u other later split
    exact .inr ((core.unwritten before u other later split).resolve_left (by simp))
  · intro u other leaf member found
    exact .inr ((core.spaced u other leaf member found).resolve_left (by simp))

/-- A pending pair that is written is loaded, and spaces the orders after it. -/
theorem Core.renew {pair : Issued} {fresh : Certificate Public Signer}
    (core : Core pem clock cert (some pair) earliest history) (all : AllWritten history)
    (leaf : leafOf pem pair.chain = some fresh.leaf) :
    Core pem clock (some fresh) none (clock + lifetime fresh.leaf / 3) history := by
  have due := core.due (by simp)
  refine ⟨core.past, core.ordered, ?_, fun before u other later split =>
    .inr (all before u other later split), ?_, fun held => absurd rfl held, core.fits⟩
  · intro u old member
    rcases core.stored u old member with loaded | past
    · exact .inr (due old loaded).1
    · exact .inr past
  · intro u other found member parsed
    rcases core.spaced u other found member parsed with held | ⟨third, loaded, serving, rfl⟩ | past
    · cases held
      cases leaf.symm.trans parsed
      have written : u ≤ clock := core.past _ member
      exact .inr (.inl ⟨by omega, fresh, rfl, rfl⟩)
    · obtain ⟨renewal, reached⟩ := due loaded serving
      exact .inr (.inr ⟨Int.le_trans third reached, renewal⟩)
    · exact .inr (.inr past)

end Core

section Places

variable {history : List (Event Public Signer)}

theorem Waited.later {limit t : Int} (waited : Waited history limit) (since : limit ≤ t) :
    Waited history t :=
  fun u wait asked member => Int.le_trans (waited u wait asked member) since

variable {event : Event Public Signer}

/-- An entry that is no failure. -/
theorem Waited.log {limit : Int} (waited : Waited history limit)
    (other : ∀ u wait asked, event ≠ .failed u wait asked) : Waited (history ++ [event]) limit := by
  intro u wait asked member
  rcases mem_append.mp member with old | new
  · exact waited u wait asked old
  · exact absurd (mem_singleton.mp new).symm (other u wait asked)

theorem Served.log {cert : Option (Certificate Public Signer)}
    (served : Served cert history) : Served cert (history ++ [event]) := by
  intro loaded serving
  obtain ⟨t, parsed, source, member⟩ := served loaded serving
  exact ⟨t, parsed, source, mem_append_left _ member⟩

/-- The certificate that is loaded now is entered. -/
theorem served_now {cert : Certificate Public Signer} {t parsed : Int} {source : Source} :
    Served (some cert) (history ++ [.served t cert parsed source]) := by
  rintro loaded ⟨⟩
  exact ⟨t, parsed, source, mem_append_right _ (mem_singleton.mpr rfl)⟩

theorem Answered.log (answered : Answered history) : Answered (history ++ [event]) := by
  obtain ⟨u, stored, member⟩ := answered
  exact ⟨u, stored, mem_append_left _ member⟩

theorem streak_concat (event : Event Public Signer) :
    streak (history ++ [event]) = event.count (streak history) := by
  simp only [streak, foldl_append, foldl_cons, foldl_nil]

/-- The first wait, doubled or at its limit, is never shorter. -/
theorem acmeMinRetry_le_waitAfter (n : Nat) : acmeMinRetry ≤ waitAfter n := by
  have order : acmeMinRetry ≤ acmeMaxRetry ∧ 0 ≤ acmeMinRetry := by decide
  induction n with
  | zero => exact Int.le_refl _
  | succ n ih =>
    rw [waitAfter]
    omega

/-- What a failed round leaves. -/
theorem fail_fields (s : State Public Signer) (t : Int) (asked : Bool) (err : String) :
    (s.fail t asked err).point = .backing (t + s.backoff) ∧ (s.fail t asked err).clock = t ∧
      (s.fail t asked err).cert = s.cert ∧ (s.fail t asked err).pending = s.pending ∧
      (s.fail t asked err).earliest = s.earliest ∧ (s.fail t asked err).backoff = s.backoff ∧
      (s.fail t asked err).history = s.history ++ [.failed t s.backoff asked] := by
  unfold State.fail
  cases s.cert <;> exact ⟨rfl, rfl, rfl, rfl, rfl, rfl, rfl⟩

/-- A round fails after the answer: the wait is the one due now. -/
theorem fail_sound {s : State Public Signer} {t : Int} {asked : Bool} {err : String}
    (since : s.clock ≤ t) (core : Core pem s.clock s.cert s.pending s.earliest s.history)
    (served : Served s.cert s.history) (answered : Answered s.history)
    (waited : Waited s.history s.clock) (backoff : s.backoff = waitAfter (streak s.history)) :
    Sound pem (s.fail t asked err) := by
  obtain ⟨point, clock, cert, pending, earliest, kept, history⟩ := fail_fields s t asked err
  have least := acmeMinRetry_le_waitAfter (streak s.history)
  have order : 0 ≤ acmeMinRetry := by decide
  refine ⟨?_, ?_, ?_⟩
  · rw [clock, cert, pending, earliest, history]
    exact (core.later since).log _ rfl backoff (by simp) (by simp)
  · rw [cert, history]
    exact served.log
  · rw [State.Place, point, history, kept]
    refine ⟨answered.log, ?_, ?_⟩
    · intro u wait other member
      rcases mem_append.mp member with old | new
      · have passed := waited u wait other old
        omega
      · obtain ⟨rfl, rfl, rfl⟩ := Event.failed.inj (mem_singleton.mp new)
        exact Int.le_refl _
    · rw [streak_concat, Event.count, waitAfter, backoff]

end Places

/-! ## Steps -/

variable {domains : List Bytes} {s next : State Public Signer}

/-- Once a certificate is due, its renewal and the earliest time are past. -/
theorem due_reached {leaf : Leaf Public} {t : Int} (reached : s.due leaf ≤ t) :
    CertManager.renewAt leaf ≤ t ∧ s.earliest ≤ t := by
  unfold State.due at reached
  split at reached <;> omega

theorem start_sound (now : Int) : Sound pem (.start now : State Public Signer) := by
  refine ⟨⟨by simp [State.start],
    each_nil, by simp [State.start], by simp [State.start], by simp [State.start],
    by simp [State.start], each_nil⟩, by simp [Served, State.start], ?_⟩
  exact ⟨rfl, rfl, by simp [Waited, State.start], rfl⟩

/-- The Backend answers that it holds no pair that can be used. -/
theorem unstored_sound {t : Int} (since : s.clock ≤ t)
    (core : Core pem s.clock s.cert s.pending s.earliest s.history)
    (served : Served s.cert s.history) (waited : Waited s.history s.clock)
    (backoff : s.backoff = waitAfter (streak s.history)) :
    Sound pem ((s.log (.answered t none)).move t .top) := by
  refine ⟨?_, served.log, ?_⟩
  · exact (core.later since).log _ rfl trivial (by simp) (by simp)
  · refine ⟨⟨t, none, mem_append_right _ (mem_singleton.mpr rfl)⟩,
      (waited.later since).log (by simp), ?_⟩
    simp only [State.log, State.move, streak_concat, Event.count]
    exact backoff

section

variable (sound : Sound pem s)
include sound

/-- The stored pair is served: nothing was loaded before. -/
theorem parseStored_sound {t : Int} (since : s.clock ≤ t) {fault : Option String}
    (moved : Goes pem domains s (.parseStored t fault) next) : Sound pem next := by
  obtain ⟨core, served, place⟩ := sound
  cases moved with
  | unusable here =>
    simp only [State.Place, here] at place
    obtain ⟨_, _, waited, backoff, _⟩ := place
    exact unstored_sound since core served waited backoff
  | @loaded _ _ chain key cert here found =>
    simp only [State.Place, here] at place
    obtain ⟨unserved, idle, waited, backoff, u, member⟩ := place
    have ok := usable_some found
    have loaded : Core pem t (some cert) none s.earliest s.history := by
      have later := core.later since
      rw [unserved, idle] at later
      exact later.load cert
    have entered := loaded.log (.answered t (some cert)) rfl trivial (by simp) (by simp)
    refine ⟨?_, served_now, ?_, (waited.later since).log (by simp) |>.log (by simp), ?_⟩
    · have final := entered.log (.served t cert t (.stored chain key)) rfl
        ⟨mayServe_of_parsed ok (Int.le_refl t), u, mem_append_left _ member⟩ (by simp) (by simp)
      rw [← idle] at final
      exact final
    · exact Answered.log ⟨t, some cert, mem_append_right _ (mem_singleton.mpr rfl)⟩
    · simp only [State.log, State.move, State.serve, streak_concat, Event.count]
      exact backoff

/-- An order starts where it may. -/
theorem checkWritable_sound {t : Int} (since : s.clock ≤ t) {err : Option String}
    (moved : Goes pem domains s (.checkWritable t err) next) : Sound pem next := by
  obtain ⟨core, served, place⟩ := sound
  have here : s.point = .attempting := by cases moved <;> assumption
  simp only [State.Place, here] at place
  obtain ⟨answered, waited, backoff, idle, due⟩ := place
  cases moved with
  | unwritable => exact fail_sound since core served answered waited backoff
  | started =>
    have start : MayStart pem s.history t := by
      refine ⟨answered, ?_, ?_, ?_, waited.later since⟩
      · intro u old member
        rcases core.stored u old member with loaded | past
        · exact Int.le_trans (due old loaded).1 since
        · exact Int.le_trans past since
      · intro before u pair later split
        rcases core.unwritten before u pair later split with held | written
        · cases idle.symm.trans held
        · exact written
      · intro u pair leaf member found
        rcases core.spaced u pair leaf member found with
          held | ⟨third, loaded, serving, rfl⟩ | ⟨third, past⟩
        · cases idle.symm.trans held
        · obtain ⟨renewal, reached⟩ := due loaded serving
          exact ⟨by omega, by omega⟩
        · exact ⟨by omega, by omega⟩
    refine ⟨(core.later since).log _ rfl start (by simp) (by simp), served.log, answered.log,
      (waited.later since).log (by simp), ?_, idle, ?_⟩
    · simp only [State.log, State.move, streak_concat, Event.count]
      exact backoff
    · intro loaded serving
      obtain ⟨renewal, reached⟩ := due loaded serving
      exact ⟨Int.le_trans renewal since, Int.le_trans reached since⟩

/-- A pair that is issued is pending from now on, and the loaded certificate is due. -/
theorem obtained_sound {t : Int} (since : s.clock ≤ t) {reply : Except String Issued}
    (moved : Goes pem domains s (.obtained t reply) next) : Sound pem next := by
  obtain ⟨core, served, place⟩ := sound
  have here : s.point = .obtaining := by cases moved <;> assumption
  simp only [State.Place, here] at place
  obtain ⟨answered, waited, backoff, idle, due⟩ := place
  cases moved with
  | refused | unfit => exact fail_sound since core served answered waited backoff
  | @issued _ pair =>
    have held : Core pem t s.cert (some pair) s.earliest s.history := by
      have later := core.later since
      rw [idle] at later
      exact later.hold pair fun loaded serving =>
        ⟨Int.le_trans (due loaded serving).1 since, Int.le_trans (due loaded serving).2 since⟩
    refine ⟨held.log _ rfl trivial (by simp) (by simp), served.log, answered.log,
      (waited.later since).log (by simp), ?_⟩
    simp only [State.log, State.move, streak_concat, Event.count]
    exact backoff

/-- A pair that is written is the one that is pending. -/
theorem wroteCertificate_sound {t : Int} (since : s.clock ≤ t) {err : Option String}
    (moved : Goes pem domains s (.wroteCertificate t err) next) : Sound pem next := by
  obtain ⟨core, served, place⟩ := sound
  have here : s.point = .writingCertificate := by cases moved <;> assumption
  simp only [State.Place, here] at place
  obtain ⟨answered, waited, backoff⟩ := place
  cases moved with
  | chainUnwritten => exact fail_sound since core served answered waited backoff
  | @chainWritten _ pair _ held =>
    have now : .written t pair ∈ s.history ++ [Event.written t pair] :=
      mem_append_right _ (mem_singleton.mpr rfl)
    refine ⟨(core.later since).log _ rfl trivial (by simp) ?_, served.log, answered.log,
      (waited.later since).log (by simp), ?_, ?_, ?_⟩
    · rintro u other (⟨⟨⟩⟩ | ⟨⟨⟩⟩)
      exact held
    · simp only [State.log, State.move, streak_concat, Event.count]
      exact backoff
    · intro before u other later split
      rcases concat_split split with ⟨_, same⟩ | ⟨more, rfl, earlier⟩
      · simp at same
      · rcases core.unwritten before u other more earlier with pending | ⟨v, member⟩
        · cases held.symm.trans pending
          exact ⟨t, mem_append_right _ (mem_singleton.mpr rfl)⟩
        · exact ⟨v, mem_append_left _ member⟩
    · intro other pending
      cases held.symm.trans pending
      exact ⟨t, now⟩

/-- A pair that is stored is served, and the waits begin anew. -/
theorem parsed_sound {t now : Int} (since : s.clock ≤ t)
    (moved : Goes pem domains s (.parsed t now) next) : Sound pem next := by
  obtain ⟨core, served, place⟩ := sound
  have here : s.point = .parsing := by cases moved <;> assumption
  simp only [State.Place, here] at place
  obtain ⟨answered, waited, backoff, all, written⟩ := place
  cases moved with
  | expired => exact fail_sound since core served answered waited backoff
  | @served _ _ pair cert _ held ok after =>
    have whole : s.clock ≤ now := Int.le_trans since after
    have renewed : Core pem now (some cert) none (now + lifetime cert.leaf / 3) s.history := by
      have later := core.later whole
      rw [held] at later
      exact later.renew all (parsePEM_ok ok).1
    refine ⟨renewed.log _ rfl ⟨mayServe_of_parsed ok after, written pair held⟩ (by simp) (by simp),
      served_now, answered.log, (waited.later whole).log (by simp), ?_⟩
    simp only [State.log, State.move, State.serve, streak_concat, Event.count]
    rfl

/-- Every action keeps this. Most of them only move the loop on. -/
theorem step_sound {act : Act} (taken : s.step pem domains act = some next) : Sound pem next := by
  obtain ⟨since, taken⟩ := Option.ite_none_right_eq_some.mp taken
  have past {t : Int} (time : act.time = some t) : s.clock ≤ t := by simpa [time] using since
  have whole := sound
  obtain ⟨core, served, place⟩ := sound
  cases goes_of_go taken with
  | loaded | unusable => exact parseStored_sound whole (past rfl) (goes_of_go taken)
  | unwritable | started => exact checkWritable_sound whole (past rfl) (goes_of_go taken)
  | refused | unfit | issued => exact obtained_sound whole (past rfl) (goes_of_go taken)
  | chainUnwritten | chainWritten =>
    exact wroteCertificate_sound whole (past rfl) (goes_of_go taken)
  | expired | served => exact parsed_sound whole (past rfl) (goes_of_go taken)
  | noChain here | noKey here =>
    simp only [State.Place, here] at place
    obtain ⟨_, _, waited, backoff⟩ := place
    exact unstored_sound (past rfl) core served waited backoff
  | chainRead here | chainUnread here | keyUnread here | rested here =>
    simp only [State.Place, here] at place
    obtain ⟨unserved, idle, waited, backoff⟩ := place
    exact ⟨core.later (past rfl), served, unserved, idle, waited.later (past rfl), backoff⟩
  | @keyRead t _ _ _ here =>
    simp only [State.Place, here] at place
    obtain ⟨unserved, idle, waited, backoff⟩ := place
    refine ⟨(core.later (past rfl)).log _ rfl trivial (by simp) (by simp), served.log, unserved,
      idle,
      (waited.later (past rfl)).log (by simp), ?_, t, mem_append_right _ (mem_singleton.mpr rfl)⟩
    simp only [State.log, State.move, streak_concat, Event.count]
    exact backoff
  | again here | wait here | woke here | keyWritten here =>
    simp only [State.Place, here] at place
    obtain ⟨answered, waited, backoff⟩ := place
    exact ⟨core.later (past rfl), served, answered, waited.later (past rfl), backoff⟩
  | attempt here idle late =>
    -- The CA is asked only once the loaded certificate is due.
    simp only [State.Place, here] at place
    obtain ⟨answered, waited, backoff⟩ := place
    exact ⟨core.later (past rfl), served, answered, waited.later (past rfl), backoff, idle,
      fun loaded serving => due_reached (late loaded serving)⟩
  | keyUnwritten here =>
    simp only [State.Place, here] at place
    obtain ⟨answered, waited, backoff⟩ := place
    exact fail_sound (past rfl) core served answered waited backoff
  | retried here elapsed =>
    simp only [State.Place, here] at place
    obtain ⟨answered, waited, doubled⟩ := place
    exact ⟨core.later (past rfl), served, answered, waited.later elapsed, doubled⟩
  | stopped => exact ⟨core, served, trivial⟩

end

end Invariant

/-- In every run of `runACME`, whatever the Backend, the CA and the parser do, with a clock
that never goes back: the history is in the order of its times. An order starts only after
the Backend has answered a read of the stored pair, not before that pair's renewal if it
was usable, not while an issued pair is not written, not before a third of a written pair's
lifetime has passed since and the pair is due, and not before the wait after a failed round
is over, which is at least `acmeMinRetry`. These waits double up to a limit until a pair is
stored. Every certificate that is served was parsed with its matching key, valid then, and
read from the Backend or written to it before; and only such a one is ever loaded.

Proof: the history fits at every entry, because the state of the loop vouches for it. -/
theorem acme_orders_spaced {Public Signer : Type} (pem : Pem Public Signer) (domains : List Bytes)
    (now : Int) (acts : List Act) (s : State Public Signer)
    (ran : after (State.step pem domains) (.start now) acts = some s) :
    (∀ before event rest, s.history = before ++ event :: rest →
      ∀ earlier ∈ before, earlier.time ≤ event.time) ∧
    (∀ before t rest, s.history = before ++ .started t :: rest →
      MayStart pem before t ∧ ∀ u wait asked, .failed u wait asked ∈ before →
        u + acmeMinRetry ≤ t) ∧
    (∀ before t wait asked rest, s.history = before ++ .failed t wait asked :: rest →
      wait = waitAfter (streak before)) ∧
    (∀ before t cert parsed source rest, s.history = before ++ .served t cert parsed source ::
      rest →
      ∃ chain key, MayServe pem t cert parsed chain key ∧
        ((∃ u, .read u chain key ∈ before) ∨
          ∃ u, .written u { chain := chain, key := key } ∈ before)) ∧
    ∀ cert, s.cert = some cert → ∃ t parsed source, .served t cert parsed source ∈ s.history := by
  have sound : Sound pem s :=
    after_invariant (I := Sound pem) (fun _ _ _ sound taken => step_sound sound taken) ran
      (start_sound now)
  have fits := sound.core.fits
  refine ⟨sound.core.ordered, ?_, ?_, ?_, sound.served⟩
  · intro before t rest split
    have start : MayStart pem before t := fits before _ rest split
    refine ⟨start, fun u wait asked member => ?_⟩
    obtain ⟨first, later, rfl⟩ := append_of_mem member
    have lasted : wait = waitAfter (streak first) :=
      fits first (.failed u wait asked) (later ++ .started t :: rest)
        (by rw [split, append_assoc, cons_append])
    have least := acmeMinRetry_le_waitAfter (streak first)
    have rested := start.rested u _ asked member
    omega
  · intro before t wait asked rest split
    exact fits before _ rest split
  · intro before t cert parsed source rest split
    have serve := fits before _ rest split
    cases source with
    | stored chain key => exact ⟨chain, key, serve.1, .inl serve.2⟩
    | issued pair => exact ⟨pair.chain, pair.key, serve.1, .inr serve.2⟩

/-- Every chain is a certificate for a minute and a half, and every key matches. -/
def lenient : Pem Unit Unit where
  parseChain := fun chain => .ok (chain, [])
  parseCertificate :=
    fun _ => some { notBefore := 0, notAfter := 90 * second, dnsNames := [], publicKey := () }
  parseSigner := fun _ => .ok ()
  keyMatches := fun _ _ => true
  rfc3339 := fun _ => ""

/-- The Backend holds nothing, and the CA refuses once before it issues a pair, of which the
Backend takes the key at the second attempt. -/
def refusedOnce : List Act :=
  [.readCertificate 0 .notFound, .check 0, .checkWritable 0 none,
    .obtained 1 (.error "rate limited"),
    .retry (30 * second + 1), .check (30 * second + 1), .checkWritable (30 * second + 1) none,
    .obtained (31 * second) (.ok { chain := bytes "C", key := bytes "K" }),
    .wroteKey (31 * second) (some "sealed"),
    .retry (91 * second), .check (91 * second), .wroteKey (91 * second) none]

/-- The second order is spaced from the refusal. -/
theorem acme_orders_spaced_refused :
    ∃ s before rest, after (State.step lenient []) (.start 0) refusedOnce = some s ∧
      s.history = before ++ .started (30 * second + 1) :: rest ∧
      MayStart lenient before (30 * second + 1) := by
  obtain ⟨s, ran, shape⟩ : ∃ s, after (State.step lenient []) (.start 0) refusedOnce = some s ∧
      s.history = [.answered 0 none, .started 0, .failed 1 acmeMinRetry true] ++
        .started (30 * second + 1) ::
        [.issued (31 * second) { chain := bytes "C", key := bytes "K" },
          .failed (31 * second) (60 * second) false] :=
    ⟨_, rfl, rfl⟩
  obtain ⟨_, starts, _⟩ := acme_orders_spaced lenient [] 0 refusedOnce s ran
  exact ⟨s, _, _, ran, shape, (starts _ _ _ shape).1⟩

end TrustedCourier.CertManager
