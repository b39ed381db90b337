import TrustedCourier.AcmeOrders

/-!
# Recovery of the certificate manager after an outage

The loop and the Backend's two locations are one machine here. A failed write may leave
anything behind; a read that is answered tells what is there. Once the Backend and the CA
answer again, every action brings the loop closer to serving a pair that the Backend holds,
as long as a pair that was issued has not expired when both its writes are done. A pair that
has expired by then is kept, written and refused again for ever.
-/

namespace TrustedCourier.CertManager

open Runs Option

section

variable {Public Signer : Type} (pem : Pem Public Signer) (domains : List Bytes)

/-! ## The manager and the Backend -/

/-- What the Backend holds for the certificate and for the key. -/
structure Contents where
  chain : Option Bytes := none
  key : Option Bytes := none

/-- What an action makes of the Backend, given the pair that is being written and what a
failed write would leave. A read that is answered tells what is there. -/
def Contents.take (c : Contents) (pending : Option Issued) (left : Option Bytes) :
    Act → Option Contents
  | .readCertificate _ (.found chain) => if c.chain = some chain then some c else none
  | .readCertificate _ .notFound => if c.chain = none then some c else none
  | .readKey _ (.found key) => if c.key = some key then some c else none
  | .readKey _ .notFound => if c.key = none then some c else none
  | .wroteKey _ none => some { c with key := pending.map Issued.key }
  | .wroteKey _ (some _) => some { c with key := left }
  | .wroteCertificate _ none => some { c with chain := pending.map Issued.chain }
  | .wroteCertificate _ (some _) => some { c with chain := left }
  | _ => some c

/-- The loop and the Backend. -/
structure World (Public Signer : Type) where
  state : State Public Signer
  backend : Contents

/-- An action, with what it would leave in the Backend if it is a write that fails. -/
abbrev Deed := Act × Option Bytes

/-- One action of the loop, with its effect on the Backend. -/
def World.step (w : World Public Signer) (deed : Deed) : Option (World Public Signer) := do
  let state ← w.state.step pem domains deed.1
  let backend ← w.backend.take w.state.pending deed.2 deed.1
  some ⟨state, backend⟩

/-- The loaded certificate is valid now, and the Backend holds the pair it comes from. -/
def World.Recovered (w : World Public Signer) : Prop :=
  ∃ cert chain key, w.state.cert = some cert ∧ w.backend.chain = some chain ∧
    w.backend.key = some key ∧
    parsePEM pem w.state.clock chain key = .ok cert

def hour : Int := 3600 * second

/-- The Backend answers and stores, the CA issues a pair that is good for an hour, and
nothing is cancelled. -/
def Act.Healthy : Act → Prop
  | .readCertificate _ reply | .readKey _ reply => ∀ err, reply ≠ .failed err
  | .parseStored _ fault => fault = none
  | .checkWritable _ err | .wroteKey _ err | .wroteCertificate _ err => err = none
  | .obtained t reply =>
    ∃ pair cert, reply = .ok pair ∧ parsePEM pem t pair.chain pair.key = .ok cert ∧
      t + hour ≤ cert.leaf.notAfter
  | .stop => False
  | _ => True

/-- A pair whose writes are done has not expired when it is parsed and when it goes into
service. -/
def State.Timely (s : State Public Signer) : Act → Prop
  | .parsed t now => ∀ pair leaf, s.pending = some pair → leafOf pem pair.chain = some leaf →
      t ≤ leaf.notAfter ∧ now ≤ leaf.notAfter
  | _ => True

variable {pem domains}

/-! ## What every run keeps -/

theorem expired_none {leaf : Leaf Public} {now : Int} (begun : leaf.notBefore ≤ now)
    (valid : now ≤ leaf.notAfter) :
    expired pem leaf now = none := by
  rw [expired, if_neg (by omega), if_neg (by omega)]

/-- A pair that parses keeps doing so while it is valid. -/
theorem parsePEM_valid {t now : Int} {chain key : Bytes} {cert : Certificate Public Signer}
    (parses : parsePEM pem t chain key = .ok cert) (begun : cert.leaf.notBefore ≤ now)
    (valid : now ≤ cert.leaf.notAfter) :
    parsePEM pem now chain key = .ok cert := by
  obtain ⟨leaf, _, _, begunThen, validThen⟩ := parsePEM_ok parses
  unfold leafOf at leaf
  unfold parsePEM at parses ⊢
  cases chained : pem.parseChain chain with
  | error err => simp [chained] at leaf
  | ok der =>
    rw [chained] at leaf
    simp only [chained, bind, Except.bind, leaf, expired_none begunThen validThen,
      expired_none begun valid] at parses ⊢
    exact parses

/-- What the point in the loop says of the Backend. -/
def World.Place (w : World Public Signer) : Prop :=
  match w.state.point with
  | .loadingKey _ chain => w.backend.chain = some chain
  | .parsingStored chain key => w.backend.chain = some chain ∧ w.backend.key = some key
  | .waiting due => ∃ cert, w.state.cert = some cert ∧ due = w.state.due cert.leaf
  | .writingKey => w.state.pending.isSome = true
  | .writingCertificate =>
    w.state.pending.isSome = true ∧ w.backend.key = w.state.pending.map Issued.key
  | .parsing => w.state.pending.isSome = true ∧ w.backend.key = w.state.pending.map Issued.key ∧
      w.backend.chain = w.state.pending.map Issued.chain
  | _ => True

/-- A pending pair parsed when it was issued, and the point in the loop tells what the
Backend holds. -/
structure World.Held (pem : Pem Public Signer) (w : World Public Signer) : Prop where
  pending : ∀ pair, w.state.pending = some pair →
    ∃ t cert, t ≤ w.state.clock ∧ parsePEM pem t pair.chain pair.key = .ok cert
  place : w.Place

variable {w : World Public Signer} {next : World Public Signer}

/-- What a step is. -/
theorem step_goes {deed : Deed} (taken : w.step pem domains deed = some next) :
    Goes pem domains w.state deed.1 next.state ∧ deed.1.time.all (w.state.clock ≤ ·) = true ∧
      w.backend.take w.state.pending deed.2 deed.1 = some next.backend := by
  obtain ⟨state, moved, rest⟩ := bind_eq_some_iff.mp taken
  obtain ⟨backend, effect, same⟩ := bind_eq_some_iff.mp rest
  cases same
  obtain ⟨since, went⟩ := ite_none_right_eq_some.mp moved
  exact ⟨goes_of_go went, since, effect⟩

/-- A pending pair that stays pending parsed when it was issued. -/
theorem World.Held.same (held : w.Held pem)
    (same : next.state.pending = w.state.pending) (since : w.state.clock ≤ next.state.clock)
    (place : next.Place) :
    next.Held pem := by
  refine ⟨fun pair pending => ?_, place⟩
  obtain ⟨t, cert, before, parses⟩ := held.pending pair (same ▸ pending)
  exact ⟨t, cert, by omega, parses⟩

/-- A failed round leaves the pair pending. -/
theorem World.Held.fail (held : w.Held pem) {t : Int} (since : w.state.clock ≤ t)
    (asked : Bool) (err : String) (backend : Contents) :
    World.Held pem ⟨w.state.fail t asked err, backend⟩ := by
  obtain ⟨point, clock, _, pending, _⟩ := fail_fields w.state t asked err
  refine held.same pending (by rw [clock]; exact since) ?_
  rw [World.Place, point]
  trivial

theorem start_held (now : Int) (backend : Contents) :
    World.Held pem (⟨.start now, backend⟩ : World Public Signer) :=
  ⟨fun _ pending => by simp [State.start] at pending, trivial⟩

/-- Every step keeps this. -/
theorem step_held {deed : Deed} (held : w.Held pem)
    (taken : w.step pem domains deed = some next) : next.Held pem := by
  obtain ⟨goes, since, effect⟩ := step_goes taken
  obtain ⟨act, left⟩ := deed
  obtain ⟨state, backend⟩ := next
  have place := held.place
  dsimp only at goes since effect
  cases goes with
  | chainRead here =>
    obtain ⟨found, rfl⟩ := of_guard effect
    exact held.same rfl (of_decide_eq_true since) found
  | noChain here | chainUnread here | attempt here idle | woke here elapsed | started here
  | retried here => exact held.same rfl (of_decide_eq_true since) trivial
  | keyRead here =>
    obtain ⟨found, rfl⟩ := of_guard effect
    rw [World.Place, here] at place
    exact held.same rfl (of_decide_eq_true since) ⟨place, found⟩
  | noKey here | keyUnread here | loaded here fits | unusable here | rested here =>
    exact held.same rfl (of_decide_eq_true since) trivial
  | again here pending => exact held.same rfl (of_decide_eq_true since) (isSome_of_eq_some pending)
  | wait here idle served early => exact held.same rfl (of_decide_eq_true since) ⟨_, served, rfl⟩
  | unwritable here | refused here | unfit here unparsed | keyUnwritten here
  | chainUnwritten here | expired here pending unparsed =>
    exact held.fail (of_decide_eq_true since) _ _ _
  | issued here parses =>
    refine ⟨fun other pending => ?_, rfl⟩
    cases pending
    exact ⟨_, _, Int.le_refl _, parses⟩
  | keyWritten here =>
    cases effect
    rw [World.Place, here] at place
    exact held.same rfl (of_decide_eq_true since) ⟨place, rfl⟩
  | chainWritten here pending =>
    cases effect
    rw [World.Place, here] at place
    exact held.same rfl (of_decide_eq_true since) ⟨place.1, place.2, rfl⟩
  | served here pending parses ordered =>
    exact ⟨fun _ pending => absurd pending.symm (some_ne_none _), trivial⟩
  | stopped => exact held.same rfl (Int.le_refl _) trivial

/-! ## Closer with every action -/

/-- A round can begin: a pair is to be written, none is loaded, or the loaded one is due. -/
def State.ready (s : State Public Signer) : Bool :=
  s.pending.isSome || s.cert.all fun cert => s.due cert.leaf ≤ s.clock

/-- How many actions the loop may need from a point on before it serves. -/
def Point.rank (ready : Bool) : Point → Nat
  | .resting .. => 12
  | .loading _ => 11
  | .loadingKey .. => 10
  | .parsingStored .. => 9
  | .backing _ => 8
  | .top => if ready then 5 else 7
  | .waiting _ => 6
  | .attempting => 4
  | .obtaining => 3
  | .writingKey => 2
  | .writingCertificate => 1
  | .parsing | .ended => 0

/-- How far the loop is from serving. -/
def State.rank (s : State Public Signer) : Nat := s.point.rank s.ready

theorem rank_top (ready : Bool) : 4 < Point.top.rank ready ∧ Point.top.rank ready < 8 := by
  cases ready <;> decide

theorem rank_le (ready : Bool) (point : Point) : point.rank ready ≤ 12 := by
  cases point <;> cases ready <;> simp [Point.rank]

/-- Each action of a world that is well again serves a pair or brings the loop closer. -/
theorem step_closer {deed : Deed} (held : w.Held pem)
    (taken : w.step pem domains deed = some next) (healthy : deed.1.Healthy pem)
    (timely : w.state.Timely pem deed.1) : next.Recovered pem ∨ next.state.rank < w.state.rank := by
  obtain ⟨goes, since, effect⟩ := step_goes taken
  obtain ⟨act, left⟩ := deed
  obtain ⟨state, backend⟩ := next
  have place := held.place
  dsimp only at goes since effect healthy timely
  have top : ∀ ready : Bool, Point.top.rank ready < 8 := fun ready => (rank_top ready).2
  have begun : ∀ ready : Bool, 4 < Point.top.rank ready := fun ready => (rank_top ready).1
  unfold World.Place at place
  unfold State.rank
  cases goes with
  | chainRead here => exact Or.inr (by rw [here]; exact Nat.lt_succ_self 10)
  | noChain here => exact Or.inr (by rw [here]; exact (top _).trans (by decide : 8 < 11))
  | chainUnread here | keyUnread here => exact absurd rfl (healthy _)
  | keyRead here => exact Or.inr (by rw [here]; exact Nat.lt_succ_self 9)
  | noKey here => exact Or.inr (by rw [here]; exact (top _).trans (by decide : 8 < 10))
  | loaded here fits =>
    cases effect
    rw [here] at place
    exact Or.inl ⟨_, _, _, rfl, place.1, place.2, usable_some fits⟩
  | unusable here => exact Or.inr (by rw [here]; exact (top _).trans (by decide : 8 < 9))
  | rested here => exact Or.inr (by rw [here]; exact Nat.lt_succ_self 11)
  | again here pending =>
    exact Or.inr (by rw [here]; exact Nat.lt_trans (by decide : 2 < 4) (begun _))
  | wait here idle served early =>
    -- The loaded certificate was not due before either.
    have unready : w.state.ready = false := by
      have passed : w.state.clock ≤ _ := of_decide_eq_true since
      simp only [State.ready, idle, served, isSome_none, Bool.false_or, all_some,
        decide_eq_false_iff_not]
      omega
    exact Or.inr (by rw [here, unready]; exact Nat.lt_succ_self 6)
  | attempt here idle => exact Or.inr (by rw [here]; exact begun _)
  | @woke t due here elapsed =>
    rw [here] at place
    obtain ⟨cert, served, rfl⟩ := place
    have ready : (w.state.move t .top).ready = true := by
      rw [State.ready, Bool.or_eq_true]
      refine Or.inr ?_
      simp only [State.move, served, all_some, decide_eq_true_eq]
      exact elapsed
    exact Or.inr (by rw [here, ready]; exact Nat.lt_succ_self 5)
  | unwritable here | keyUnwritten here | chainUnwritten here =>
    exact absurd healthy (some_ne_none _)
  | started here => exact Or.inr (by rw [here]; exact Nat.lt_succ_self 3)
  | refused here =>
    obtain ⟨pair, cert, issued, _⟩ := healthy
    cases issued
  | unfit here unparsed =>
    obtain ⟨pair, cert, issued, parses, _⟩ := healthy
    cases issued
    rw [unparsed] at parses
    cases parses
  | issued here parses => exact Or.inr (by rw [here]; exact Nat.lt_succ_self 2)
  | keyWritten here => exact Or.inr (by rw [here]; exact Nat.lt_succ_self 1)
  | chainWritten here pending => exact Or.inr (by rw [here]; exact Nat.lt_succ_self 0)
  | @expired t now pair err text here pending unparsed =>
    obtain ⟨t₀, cert, before, parses⟩ := held.pending pair pending
    obtain ⟨leaf, _, _, begun, _⟩ := parsePEM_ok parses
    have passed : w.state.clock ≤ t := of_decide_eq_true since
    have again := parsePEM_valid parses (by omega) (timely pair cert.leaf pending leaf).1
    rw [unparsed] at again
    cases again
  | @served t now pair cert here pending parses ordered =>
    cases effect
    obtain ⟨leaf, _, _, begun, _⟩ := parsePEM_ok parses
    rw [here, pending] at place
    have valid := parsePEM_valid parses (by omega) (timely pair cert.leaf pending leaf).2
    exact Or.inl ⟨cert, pair.chain, pair.key, rfl, place.2.2, place.2.1, valid⟩
  | retried here => exact Or.inr (by rw [here]; exact top _)
  | stopped => exact healthy.elim

/-! ## A pair that has expired -/

/-- The points between a pair's being issued and its being stored, with the loop's end. -/
def Point.storing : Point → Bool
  | .top | .writingKey | .writingCertificate | .parsing | .backing _ | .ended => true
  | _ => false

/-- A pair is to be stored that has expired, and this certificate is served, if any. -/
structure State.Stuck (pem : Pem Public Signer) (cert : Option (Certificate Public Signer))
    (s : State Public Signer) :
    Prop where
  pending : ∃ pair leaf, s.pending = some pair ∧ leafOf pem pair.chain = some leaf ∧
    leaf.notAfter < s.clock
  storing : s.point.storing = true
  served : s.cert = cert

variable {cert : Option (Certificate Public Signer)}

theorem State.Stuck.same {s next : State Public Signer}
    (stuck : s.Stuck pem cert) (pending : next.pending = s.pending) (served : next.cert = s.cert)
    (since : s.clock ≤ next.clock) (storing : next.point.storing = true) : next.Stuck pem cert := by
  obtain ⟨pair, leaf, held, read, elapsed⟩ := stuck.pending
  exact ⟨⟨pair, leaf, pending.trans held, read, by omega⟩, storing, served.trans stuck.served⟩

theorem State.Stuck.fail {s : State Public Signer}
    (stuck : s.Stuck pem cert) {t : Int} (since : s.clock ≤ t) (asked : Bool) (err : String) :
    (s.fail t asked err).Stuck pem cert := by
  obtain ⟨point, clock, served, pending, _⟩ := fail_fields s t asked err
  exact stuck.same pending served (by rw [clock]; exact since) (by rw [point]; rfl)

/-- Whatever happens, an expired pair stays to be stored and nothing else is served. -/
theorem step_stuck {deed : Deed}
    (stuck : w.state.Stuck pem cert) (taken : w.step pem domains deed = some next) :
    next.state.Stuck pem cert := by
  obtain ⟨goes, since, _⟩ := step_goes taken
  obtain ⟨act, left⟩ := deed
  obtain ⟨state, backend⟩ := next
  have storing := stuck.storing
  obtain ⟨pair, leaf, held, read, elapsed⟩ := stuck.pending
  dsimp only at goes since ⊢
  cases goes with
  | chainRead here | noChain here | chainUnread here | keyRead here | noKey here
  | keyUnread here | loaded here
  | unusable here | rested here | woke here | unwritable here | started here
  | refused here | unfit here | issued here =>
    rw [here] at storing
    exact absurd storing Bool.false_ne_true
  | wait here idle | attempt here idle =>
    rw [held] at idle
    exact absurd idle (some_ne_none _)
  | again here pending | keyWritten here | chainWritten here pending | retried here =>
    exact stuck.same rfl rfl (of_decide_eq_true since) rfl
  | keyUnwritten here | chainUnwritten here | expired here pending unparsed =>
    exact stuck.fail (of_decide_eq_true since) _ _
  | @served t now other fresh here pending parses ordered =>
    rw [held] at pending
    cases pending
    obtain ⟨same, _, _, _, valid⟩ := parsePEM_ok parses
    cases read.symm.trans same
    have passed : w.state.clock ≤ t := of_decide_eq_true since
    omega
  | stopped => exact stuck.same rfl rfl (Int.le_refl _) rfl

/-! ## Nothing holds the loop up -/

/-- Only a cancellation ends the loop. -/
theorem running_of_goes {s next : State Public Signer} {act : Act}
    (goes : Goes pem domains s act next) (other : act ≠ .stop) : next.point ≠ .ended := by
  cases goes with
  | stopped => exact absurd rfl other
  | unwritable | refused | unfit | keyUnwritten | chainUnwritten | expired =>
    rw [(fail_fields _ _ _ _).1]
    exact Point.noConfusion
  | _ => exact Point.noConfusion

variable (domains) in
/-- A loop that has not ended can always take another healthy action, and has not ended after
it: the Backend and the CA only have to answer. -/
theorem healthy_continues (held : w.Held pem) (running : w.state.point ≠ .ended)
    (issues : w.state.point = .obtaining → ∃ (pair : Issued) (cert : Certificate Public Signer),
      parsePEM pem w.state.clock pair.chain pair.key = .ok cert ∧
      w.state.clock + hour ≤ cert.leaf.notAfter) :
    ∃ deed next, deed.1.Healthy pem ∧ w.step pem domains deed = some next ∧
      next.state.point ≠ .ended := by
  have able {t : Int} (act : Act) (healthy : act.Healthy pem) (time : act.time = some t)
      (since : w.state.clock ≤ t) (moved : (w.state.go pem domains act).isSome = true)
      (effect : (w.backend.take w.state.pending none act).isSome = true) :
      ∃ deed next, deed.1.Healthy pem ∧ w.step pem domains deed = some next ∧
        next.state.point ≠ .ended := by
    obtain ⟨state, went⟩ := isSome_iff_exists.mp moved
    obtain ⟨backend, left⟩ := isSome_iff_exists.mp effect
    have other : act ≠ .stop := fun same => by rw [same] at healthy; exact healthy
    refine ⟨(act, none), ⟨state, backend⟩, healthy, ?_, running_of_goes (goes_of_go went) other⟩
    simp [World.step, State.step, time, since, went, left]
  have place := held.place
  have now := Int.le_refl w.state.clock
  cases here : w.state.point with
  | loading retry =>
    cases stored : w.backend.chain with
    | none =>
      exact able (.readCertificate w.state.clock .notFound) nofun rfl now (by simp [State.go, here])
        (by simp [Contents.take, stored])
    | some chain =>
      exact able (.readCertificate w.state.clock (.found chain)) nofun rfl now
        (by simp [State.go, here]) (by simp [Contents.take, stored])
  | loadingKey retry chain =>
    cases stored : w.backend.key with
    | none =>
      exact able (.readKey w.state.clock .notFound) nofun rfl now (by simp [State.go, here])
        (by simp [Contents.take, stored])
    | some key =>
      exact able (.readKey w.state.clock (.found key)) nofun rfl now (by simp [State.go, here])
        (by simp [Contents.take, stored])
  | parsingStored chain key =>
    refine able (.parseStored w.state.clock none) rfl rfl now ?_ rfl
    simp only [State.go, here]
    split <;> rfl
  | resting retry until' =>
    refine able (.rest (max w.state.clock until')) trivial rfl (Int.le_max_left _ _) ?_ rfl
    simp only [State.go, here, if_pos (Int.le_max_right w.state.clock until'), isSome_some]
  | top =>
    refine able (.check w.state.clock) trivial rfl now ?_ rfl
    cases pending : w.state.pending with
    | some pair => simp [State.go, here, pending]
    | none =>
      cases served : w.state.cert with
      | none => simp [State.go, here, pending, served]
      | some cert =>
        simp only [State.go, here, pending, served]
        split <;> rfl
  | waiting due =>
    refine able (.wake (max w.state.clock due)) trivial rfl (Int.le_max_left _ _) ?_ rfl
    simp only [State.go, here, if_pos (Int.le_max_right w.state.clock due), isSome_some]
  | attempting =>
    exact able (.checkWritable w.state.clock none) rfl rfl now (by simp [State.go, here]) rfl
  | obtaining =>
    obtain ⟨pair, cert, parses, good⟩ := issues here
    exact able (.obtained w.state.clock (.ok pair)) ⟨pair, cert, rfl, parses, good⟩ rfl now
      (by simp [State.go, here, parses]) rfl
  | writingKey =>
    exact able (.wroteKey w.state.clock none) rfl rfl now (by simp [State.go, here]) rfl
  | writingCertificate =>
    rw [World.Place, here] at place
    obtain ⟨pair, pending⟩ := isSome_iff_exists.mp place.1
    exact able (.wroteCertificate w.state.clock none) rfl rfl now
      (by simp [State.go, here, pending]) rfl
  | parsing =>
    rw [World.Place, here] at place
    obtain ⟨pair, pending⟩ := isSome_iff_exists.mp place.1
    refine able (.parsed w.state.clock w.state.clock) trivial rfl now ?_ rfl
    simp only [State.go, here, pending, Int.le_refl, if_true]
    split <;> rfl
  | backing until' =>
    refine able (.retry (max w.state.clock until')) trivial rfl (Int.le_max_left _ _) ?_ rfl
    simp only [State.go, here, if_pos (Int.le_max_right w.state.clock until'), isSome_some]
  | ended => exact absurd here running

variable (domains) in
/-- Nothing stops a loop that stores an expired pair: the Backend goes on taking it. -/
theorem stuck_continues (held : w.Held pem)
    (stuck : w.state.Stuck pem cert) (running : w.state.point ≠ .ended) :
    ∃ deed next, deed.1.Healthy pem ∧ w.step pem domains deed = some next ∧
      next.state.Stuck pem cert ∧ next.state.point ≠ .ended := by
  have storing := stuck.storing
  obtain ⟨deed, next, healthy, taken, ongoing⟩ :=
    healthy_continues domains held running fun here => by
    rw [here] at storing
    cases storing
  exact ⟨deed, next, healthy, taken, step_stuck stuck taken, ongoing⟩

end

/-- After an outage of any length and any failures, once the Backend and the CA answer
again, the manager serves a valid certificate that the Backend holds after at most thirteen
actions, if no pair has expired when its writes are done. An action is the end of a call or
of a wait, and a loop that is not cancelled always has one to take (`healthy_continues`). -/
theorem acme_recovers {Public Signer : Type} (pem : Pem Public Signer) (domains : List Bytes)
    (now : Int) (contents : Contents) (before later : List Deed) (w last : World Public Signer)
    (outage : after (World.step pem domains) ⟨.start now, contents⟩ before = some w)
    (recovery : after (World.step pem domains) w later = some last) (long : 13 ≤ later.length)
    (healthy : ∀ deed ∈ later, deed.1.Healthy pem)
    (timely : ∀ first deed rest mid, later = first ++ deed :: rest →
      after (World.step pem domains) w first = some mid → mid.state.Timely pem deed.1) :
    Passed (World.step pem domains) w later (World.Recovered pem) := by
  have held : w.Held pem :=
    after_invariant (fun _ _ _ held taken => step_held held taken) outage (start_held now contents)
  refine passed_of_rank (fun w deed => deed.1.Healthy pem ∧ w.state.Timely pem deed.1)
    (fun _ _ _ held taken => step_held held taken) (fun w => w.state.rank)
    (fun _ _ _ held taken fair => step_closer held taken fair.1 fair.2) recovery held
    (Nat.lt_of_le_of_lt (rank_le _ _) long) ?_
  intro first deed rest mid split passed
  exact ⟨healthy deed (by rw [split]; simp), timely first deed rest mid split passed⟩

/-- Every chain is a certificate for a hundred hours, and every key matches. -/
def hundredHours : Pem Unit Unit where
  parseChain := fun chain => .ok (chain, [])
  parseCertificate :=
    fun _ => some { notBefore := 0, notAfter := 100 * hour, dnsNames := [], publicKey := () }
  parseSigner := fun _ => .ok ()
  keyMatches := fun _ _ => true
  rfc3339 := fun _ => ""

/-- A read, an order, and another order when the first pair is due. -/
def issuedTwice : List Deed :=
  [.rest minRetry, .readCertificate minRetry .notFound, .check minRetry,
    .checkWritable minRetry none,
    .obtained second (.ok ⟨bytes "C", bytes "K"⟩), .wroteKey second none,
    .wroteCertificate second none,
    .parsed second second, .check second, .wake (70 * hour), .check (70 * hour),
    .checkWritable (70 * hour) none,
    .obtained (71 * hour) (.ok ⟨bytes "D", bytes "L"⟩)].map (·, none)

/-- The Backend is sealed at first, and the loop recovers. -/
theorem acme_recovers_sealed :
    ∃ w, after (World.step hundredHours []) ⟨.start 0, {}⟩
    [(.readCertificate 0 (.failed "sealed"), none)] = some w ∧
      Passed (World.step hundredHours []) w issuedTwice (World.Recovered hundredHours) := by
  have lasts : ∀ (chain : Bytes) leaf, leafOf hundredHours chain = some leaf →
      leaf.notAfter = 100 * hour := by
    rintro chain leaf read
    cases read
    rfl
  have punctual : ∀ deed ∈ issuedTwice, ∀ s, State.Timely hundredHours s deed.1 := by
    simp only [issuedTwice, List.map_cons, List.map_nil, List.forall_mem_cons, State.Timely,
      implies_true, true_and, List.not_mem_nil, false_implies, and_true]
    intro s pair leaf _ read
    rw [lasts _ leaf read]
    decide
  have healthy : ∀ deed ∈ issuedTwice, deed.1.Healthy hundredHours := by
    simp only [issuedTwice, List.map_cons, List.map_nil, List.forall_mem_cons]
    exact ⟨trivial, nofun, trivial, rfl, ⟨_, _, rfl, rfl, by decide⟩, rfl, rfl, trivial, trivial,
      trivial, trivial, rfl, ⟨_, _, rfl, rfl, by decide⟩, nofun⟩
  obtain ⟨w, outage, last, recovery⟩ : ∃ w, after (World.step hundredHours []) ⟨.start 0, {}⟩
      [(.readCertificate 0 (.failed "sealed"), none)] = some w ∧
      ∃ last, after (World.step hundredHours []) w issuedTwice = some last := ⟨_, rfl, _, rfl⟩
  refine ⟨w, outage, acme_recovers hundredHours [] 0 {} _ issuedTwice w last outage recovery
    (by decide) healthy ?_⟩
  intro first deed rest mid split _
  exact punctual deed (by rw [split]; simp) mid.state

/-- A pair is issued, and the Backend cannot store it before it has expired. From then on the
Backend and the CA may answer for ever: the pair is written and refused again and again,
and the manager never serves anything. -/
theorem acme_never_recovers :
    ∃ (before : List Deed) (w : World Unit Unit),
      after (World.step hundredHours []) ⟨.start 0, {}⟩ before = some w ∧
      (∀ k, ∃ (later : List Deed) (last : World Unit Unit), later.length = k ∧
        after (World.step hundredHours []) w later = some last ∧
        ∀ deed ∈ later, deed.1.Healthy hundredHours) ∧
      ∀ later last, after (World.step hundredHours []) w later = some last →
        ¬ last.Recovered hundredHours := by
  let before : List Deed := [.readCertificate 0 .notFound, .check 0, .checkWritable 0 none,
    .obtained second (.ok ⟨bytes "C", bytes "K"⟩), .wroteKey (101 * hour) (some "sealed"),
    .retry (102 * hour)].map (·, none)
  obtain ⟨w, outage, pending, read, clock, point, unserved⟩ :
    ∃ w, after (World.step hundredHours []) ⟨.start 0, {}⟩
      before = some w ∧ w.state.pending = some ⟨bytes "C", bytes "K"⟩ ∧
      leafOf hundredHours (bytes "C") = some ⟨0, 100 * hour, [], ()⟩ ∧ w.state.clock = 102 * hour ∧
      w.state.point = .top ∧ w.state.cert = none := ⟨_, rfl, rfl, rfl, rfl, rfl, rfl⟩
  have held : w.Held hundredHours :=
    after_invariant (fun _ _ _ held taken => step_held held taken) outage (start_held 0 {})
  have elapsed : 100 * hour < w.state.clock := by rw [clock]; decide
  have stuck : w.state.Stuck hundredHours none :=
    ⟨⟨_, _, pending, read, elapsed⟩, by rw [point]; rfl, unserved⟩
  refine ⟨before, w, outage, ?_, ?_⟩
  · have ongoing : ∀ (k : Nat) (w : World Unit Unit), w.Held hundredHours →
      w.state.Stuck hundredHours none →
        w.state.point ≠ .ended → ∃ (later : List Deed) (last : World Unit Unit), later.length = k ∧
          after (World.step hundredHours []) w later = some last ∧
          ∀ deed ∈ later, deed.1.Healthy hundredHours := by
      intro k
      induction k with
      | zero => exact fun w _ _ _ => ⟨[], w, rfl, rfl, by simp⟩
      | succ k ih =>
        intro w held stuck running
        obtain ⟨deed, next, healthy, taken, still, on⟩ := stuck_continues [] held stuck running
        obtain ⟨later, last, size, ran, all⟩ := ih next (step_held held taken) still on
        exact ⟨deed :: later, last, by rw [List.length_cons, size],
          after_cons_iff.mpr ⟨next, taken, ran⟩, List.forall_mem_cons.mpr ⟨healthy, all⟩⟩
    exact fun k => ongoing k w held stuck (by rw [point]; exact Point.noConfusion)
  · intro later last ran
    have still : last.state.Stuck hundredHours none :=
      after_invariant (I := fun w : World Unit Unit => w.state.Stuck hundredHours none)
        (fun _ _ _ stuck taken => step_stuck stuck taken) ran stuck
    rintro ⟨cert, _, _, served, _⟩
    rw [still.served] at served
    exact absurd served.symm (some_ne_none _)

end TrustedCourier.CertManager
