import TrustedCourier.AcmeIssuer

/-!
# One ACME account

The Issuer keeps the key of its ACME account in a Backend. It draws a key only where the
Backend holds none, stores it, and uses it only once the Backend has said that it is
stored. So over any number of orders the CA sees one account.

The Backend keeps what is written to the account key's location. A read of it may fail, and
so may a write, with or without effect; that nothing is found is said only while there is
nothing.
-/

namespace TrustedCourier.AcmeIssuer

open Dialogues Config

section Account

variable {Public Signer Cert : Type}

/-- What the Backend holds at the account key's location, what it held before each call, and
what was said. -/
structure Backed (Signer Cert : Type) where
  stored : Option Bytes
  past : List (Option Bytes)
  said : List (Exchange (Call Signer Cert) Call.Reply)

/-- A read gives what is stored, or fails. -/
def Reads (stored : Option Bytes) : Except Fault Held → Prop
  | .ok held => ∀ value, held.contents = .ok value → stored = some value
  | .error fault => fault.kind = .notFound → stored = none

/-- A write that fails may have had its effect. -/
def Writes (stored : Option Bytes) (value : Bytes) (next : Option Bytes) : Except Fault Unit → Prop
  | .ok _ => next = some value
  | .error _ => next = stored ∨ next = some value

variable (cfg : ACME)

/-- What a call does to what is stored. -/
def Stores (stored : Option Bytes) : (c : Call Signer Cert) → c.Reply → Option Bytes → Prop
  | .courierKey key, reply, next => next = stored ∧ (key = cfg.accountKey → Reads stored reply)
  | .writeCourierKey key value, reply, next =>
    if key = cfg.accountKey then Writes stored value next reply else next = stored
  | _, _, next => next = stored

/-- The world in which the Backend keeps the account key. -/
def backed : World (Call Signer Cert) Call.Reply (Backed Signer Cert) := fun s c reply t =>
  (t.said = s.said ++ [⟨c, reply⟩] ∧ t.past = s.past ++ [s.stored]) ∧
    Stores cfg s.stored c reply t.stored

variable (lib : Library Public Signer)

/-- The account key is stored. -/
def Kept (account : Signer) (s : Backed Signer Cert) : Prop :=
  ∃ value, s.stored = some value ∧ lib.parseSigner value = .ok account

/-- A key that is stored at one moment is stored at another. -/
def Keeps (earlier later : Option Bytes) : Prop :=
  ∀ value, earlier = some value → later = some value

/-- What is signed is signed with the key that is stored, and a key that was stored first or
at any moment since is stored at all later ones. -/
structure Single (first : Option Bytes) (s : Backed Signer Cert) : Prop where
  signed : ∀ e ∈ s.said, ∀ account, e.call.account = some account → Kept lib account s
  same : Keeps first s.stored
  moments : (s.past ++ [s.stored]).Pairwise Keeps

end Account

/-! ## What calls keep -/

section Calls

variable {Public Signer Cert : Type} {lib : Library Public Signer} {cfg : ACME}
  {first : Option Bytes}
  {s t : Backed Signer Cert} {account : Signer}

variable {c : Call Signer Cert}

/-- Only a write to the location changes what is stored there. -/
theorem stored_same {reply : c.Reply} {next : Option Bytes} (fine : By cfg account c)
    (stores : Stores cfg s.stored c reply next) : next = s.stored := by
  cases c with
  | courierKey key => exact stores.1
  | writeCourierKey key value => rwa [Stores, if_neg fine] at stores
  | _ => exact stores

/-- A write to the location. -/
theorem stores_write (stored next : Option Bytes) (value : Bytes)
    (reply : Except Fault Unit) :
    Stores cfg stored (.writeCourierKey cfg.accountKey value : Call Signer Cert) reply next ↔
      Writes stored value next reply := iff_of_eq (if_pos rfl)

/-- One more moment. -/
theorem Single.moments_concat {now : Option Bytes} (single : Single lib first s)
    (keeps : Keeps s.stored now) :
    ((s.past ++ [s.stored]) ++ [now]).Pairwise Keeps := by
  refine List.pairwise_append.mpr ⟨single.moments, List.pairwise_singleton _ _,
    fun earlier among later last => ?_⟩
  obtain rfl := List.mem_singleton.mp last
  rcases List.mem_append.mp among with before | latest
  · have until' := (List.pairwise_append.mp single.moments).2.2 earlier before s.stored (by simp)
    exact fun value held => keeps value (until' value held)
  · exact List.mem_singleton.mp latest ▸ keeps

/-- A call that leaves what is stored. -/
theorem Single.say {reply : c.Reply} (single : Single lib first s)
    (answered : backed cfg s c reply t) (same : t.stored = s.stored)
    (signed : ∀ other, c.account = some other → Kept lib other s) : Single lib first t := by
  have kept : ∀ other, Kept lib other s → Kept lib other t := by
    rintro other ⟨value, stored, parses⟩
    exact ⟨value, same.trans stored, parses⟩
  refine ⟨fun e member other signs => kept other ?_,
    fun value held => same.trans (single.same value held), ?_⟩
  · rw [answered.1.1, List.mem_append, List.mem_singleton] at member
    rcases member with old | rfl
    · exact single.signed e old other signs
    · exact signed other signs
  · rw [answered.1.2]
    exact single.moments_concat fun value held => same.trans held

/-- Such a call is signed with the key or not at all. -/
theorem By.signed (fine : By cfg account c) {other : Signer} (signs : c.account = some other) :
    other = account := by
  cases c with
  | writeCourierKey key value => cases signs
  | _ =>
    rcases fine with unsigned | same
    · cases unsigned.symm.trans signs
    · exact Option.some.inj (signs.symm.trans same)

/-- Calls signed with a key that is stored keep it so. -/
theorem by_keeps {reply : c.Reply} (holds : Single lib first s ∧ Kept lib account s)
    (fine : By cfg account c) (answered : backed cfg s c reply t) :
    Single lib first t ∧ Kept lib account t := by
  obtain ⟨single, kept⟩ := holds
  have same := stored_same fine answered.2
  refine ⟨single.say answered same fun other signs => fine.signed signs ▸ kept, ?_⟩
  obtain ⟨value, stored, parses⟩ := kept
  exact ⟨value, same.trans stored, parses⟩

end Calls

/-! ## The programs that are given the key -/

section Given

variable {Public Signer Cert : Type} (lib : Library Public Signer) (cfg : ACME) (account : Signer)

theorem by_validated (authz : Authorization) (challenge : Challenge) :
    Asks (By cfg account) (validated lib cfg account authz challenge : Talk Signer Cert Unit) :=
  asks_ok (.inr rfl) fun _ => asks_then (.inr rfl) fun _ => asks_orFail _ _

theorem by_authorize (url : Bytes) : Asks (By cfg account)
    (authorize lib cfg account url : Talk Signer Cert Unit) := by
  have shown : ∀ authz challenge {show' hide : Call Signer Cert}, By cfg account show' →
    By cfg account hide →
      Asks (By cfg account) (say show' >>= fun _ =>
        deferring (validated lib cfg account authz challenge) (Program.call hide)) :=
    fun authz challenge _ _ one two =>
      asks_then one fun _ => only_deferring (by_validated lib cfg account authz challenge)
        (only_call two)
  refine asks_ok (.inr rfl) fun authz => ?_
  refine only_ite trivial (only_exceptBind trivial fun challenge => ?_)
  refine only_ite ?_ (only_ite ?_ (by_validated lib cfg account authz challenge))
  · exact asks_ok (.inr rfl) fun _ => shown authz challenge (.inl rfl) (.inl rfl)
  · exact only_exceptBind trivial fun _ => shown authz challenge (.inl rfl) (.inl rfl)

theorem by_setRecords (urls : List Bytes) (pending : List DnsChallenge) :
    Only (By cfg account)
    (setRecords lib cfg account pending urls : Program (Call Signer Cert) Call.Reply _) := by
  induction urls generalizing pending with
  | nil => trivial
  | cons url rest ih =>
    refine only_bind (only_call (.inr rfl)) fun reply => ?_
    cases reply with
    | error fault => trivial
    | ok authz =>
      refine only_ite (ih pending) ?_
      split
      · trivial
      · refine only_bind (only_call (.inl rfl)) fun set => ?_
        cases set with
        | error fault => trivial
        | ok _ => exact ih _

theorem by_validateAll (cs : List DnsChallenge) :
    Asks (By cfg account) (validateAll lib account cs : Talk Signer Cert Unit) := by
  have accepts : Asks (By cfg account) (acceptAll lib account cs : Talk Signer Cert Unit) := by
    induction cs with
    | nil => trivial
    | cons c rest ih => exact asks_ok (.inr rfl) fun _ => ih
  have waits : Asks (By cfg account) (waitAll lib account cs : Talk Signer Cert Unit) := by
    clear accepts
    induction cs with
    | nil => trivial
    | cons c rest ih => exact asks_ok (.inr rfl) fun _ => ih
  exact asks_ok (.inl rfl) fun _ => only_exceptBind accepts fun _ => waits

theorem by_cleanUp (cs : List DnsChallenge) :
    Only (By cfg account) (cleanUp cs : Program (Call Signer Cert) Call.Reply Unit) := by
  induction cs with
  | nil => trivial
  | cons c rest ih => exact only_bind (only_call (.inl rfl)) fun _ => ih

/-- An order is authorized with this account only. -/
theorem by_authorizeOrder (order : Order) :
    Asks (By cfg account) (authorizeOrder lib cfg account order : Talk Signer Cert Unit) := by
  unfold authorizeOrder
  split
  · split
    · refine only_exceptBind ((aside_dnsProvider lib cfg account _).mono fun _ aside => aside.1)
        fun _ => ?_
      refine only_deferring ?_ (only_call (.inl rfl))
      refine only_bind (by_setRecords lib cfg account _ _) fun ended => only_bind ?_ fun _ => ?_
      · split
        · trivial
        · exact by_validateAll lib cfg account _
      · exact only_bind (by_cleanUp cfg account _) fun _ => trivial
    · trivial
  · induction order.authzURLs with
    | nil => trivial
    | cons url rest ih => exact only_exceptBind (by_authorize lib cfg account url) fun _ => ih

end Given

/-! ## Getting the key -/

section Getting

variable {Public Signer Cert : Type} {lib : Library Public Signer} {cfg : ACME}
  {first : Option Bytes}
  {s t : Backed Signer Cert}

/-- A program that is given a key that is stored keeps all as it is. -/
theorem wp_signs {α : Type} (account : Signer) {program : Talk Signer Cert α}
    (signs : Asks (By cfg account) program) (single : Single lib first s)
    (kept : Kept lib account s) :
    wp (backed cfg) (Single lib first) program.run (fun _ t => Kept lib account t) s := by
  have both : wp (backed cfg) (fun s => Single lib first s ∧ Kept lib account s) program.run
      (fun _ t => Single lib first t ∧ Kept lib account t) s :=
    wp_keeps signs (fun _ _ _ _ holds fine answered => by_keeps holds fine answered) ⟨single, kept⟩
  exact wp_mono (wp_weaken both fun _ holds => holds.1) fun _ _ _ holds => holds.2

/-- A call that neither signs nor writes the account key keeps what is stored. -/
theorem wp_aside {Q : Option Bytes → Prop} (single : Single lib first s) (holds : Q s.stored)
    {c : Call Signer Cert} (unsigned : c.account = none)
    (keeps : ∀ stored reply next, Stores cfg stored c reply next → next = stored) :
    wp (backed cfg) (Single lib first) (Program.call c) (fun _ t => Q t.stored) s := by
  rw [wp_call]
  refine ⟨single, fun reply t answered => ?_⟩
  have same := keeps _ _ _ answered.2
  refine ⟨single.say answered same fun signer signs => ?_, same ▸ holds⟩
  cases unsigned.symm.trans signs

variable (roundTrip : ∀ key pem, lib.marshalSigner key = .ok pem → lib.parseSigner pem = .ok key)
include roundTrip

/-- What `accountKey` gives is stored. -/
theorem wp_accountKey (single : Single lib first s) :
    wp (backed cfg) (Single lib first) (accountKey lib cfg : Talk Signer Cert (Signer × Bool)).run
      (onOk (fun pair t => Kept lib pair.1 t) fun _ _ => True) s := by
  refine wp_say single fun reply t answered => ?_
  have same : t.stored = s.stored := answered.2.1
  have read : Reads t.stored reply := same ▸ answered.2.2 rfl
  have still : Single lib first t := single.say answered same fun _ signs => by cases signs
  clear single same answered
  cases reply with
  | ok held =>
    dsimp only
    rw [readHeld, wp_deferring]
    refine wp_orFail still (fun _ _ => wp_aside (Q := fun _ => True) still trivial rfl
      fun _ _ _ same => same) ?_
    intro value contents
    have stored := read value contents
    refine ⟨still, ?_⟩
    cases parses : lib.parseSigner value with
    | error err => exact wp_aside (Q := fun _ => True) still trivial rfl fun _ _ _ same => same
    | ok key =>
      exact wp_aside (Q := fun now => ∃ value, now = some value ∧ lib.parseSigner value = .ok key)
        still ⟨value, stored, parses⟩ rfl fun _ _ _ same => same
  | error fault =>
    dsimp only
    rw [wp_exceptBind, refuse]
    split
    · exact ⟨still, trivial⟩
    · rename_i missing
      have none : t.stored = none := read (not_not.mp missing)
      refine ⟨still, wp_say still fun drawn u answered => ?_⟩
      have none : u.stored = Option.none := answered.2.trans none
      have still : Single lib first u := still.say answered answered.2 fun _ signs => by cases signs
      refine wp_orFail still (fun _ _ => trivial) fun generated _ => ?_
      refine wp_given still (fun _ _ => trivial) fun pem marshalled =>
        wp_say still fun written v answered => ?_
      have writes := (stores_write _ _ _ _).mp answered.2
      -- Nothing was stored before, so no key that was stored is replaced.
      have fresh : Single lib first v := by
        have keeps : Keeps u.stored v.stored := fun value held => by cases none.symm.trans held
        refine ⟨fun e member signer signs => ?_,
          fun value held => keeps value (still.same value held), ?_⟩
        · rw [answered.1.1, List.mem_append, List.mem_singleton] at member
          rcases member with old | rfl
          · obtain ⟨value, held, _⟩ := still.signed e old signer signs
            cases none.symm.trans held
          · cases signs
        · rw [answered.1.2]
          exact still.moments_concat keeps
      refine wp_orFail fresh (fun _ _ => trivial) fun _ stored =>
        ⟨fresh, pem, ?_, roundTrip generated pem marshalled⟩
      rwa [stored] at writes

/-- The client has the account's key. -/
theorem wp_client (single : Single lib first s) :
    wp (backed cfg) (Single lib first) (client lib cfg : Talk Signer Cert Signer).run
      (onOk (fun account t => Kept lib account t) fun _ _ => True) s := by
  rw [client, wp_exceptBind]
  refine wp_mono (wp_accountKey roundTrip single) ?_
  rintro got t still kept
  cases got with
  | error err => trivial
  | ok pair =>
    rw [onOk_ok, wp_exceptBind]
    refine wp_mono
      (wp_signs pair.1 ((aside_introduce lib cfg pair.1 pair.2).mono fun _ aside => aside.1)
      still kept) ?_
    rintro known u still kept
    cases known with
    | error err => trivial
    | ok _ => exact ⟨still, kept⟩

/-- An order keeps what is signed and what is stored in agreement at every moment. -/
theorem wp_obtain_single (single : Single lib first s) :
    wp (backed cfg) (Single lib first)
      (obtain lib cfg : Talk Signer Cert (CertManager.Issued × CertManager.Leaf Public)).run
        (fun _ _ => True) s := by
  rw [obtain, wp_exceptBind]
  refine wp_mono (wp_client roundTrip single) ?_
  rintro got t still kept
  cases got with
  | error err => trivial
  | ok account =>
    refine wp_mono (wp_signs account ?_ still kept) fun _ _ _ _ => trivial
    refine asks_ok (.inr rfl) fun order => ?_
    refine only_exceptBind (by_authorizeOrder lib cfg account order) fun _ => ?_
    refine (aside_issue cfg account order fun _ _ => ?_).mono fun _ aside => aside.1
    exact only_exceptBind trivial fun _ => only_exceptBind trivial fun _ => trivial

end Getting

/-- Over any number of orders, each of which may come to its end or be cut short at any
call, and with a Backend that keeps the account key as it was told to: a key that is stored,
at the start or at any moment of the sessions, is stored at every later moment; every call
to the CA is signed with the key that is stored, and so all of them with one key.

Proof: the key is drawn only when the Backend holds none, and nothing is signed before the
Backend has confirmed it. -/
theorem one_account {Public Signer Cert : Type} (lib : Library Public Signer) (cfg : ACME)
    (roundTrip : ∀ key pem, lib.marshalSigner key = .ok pem → lib.parseSigner pem = .ok key)
    (stored : Option Bytes) (t : Backed Signer Cert)
    (sessions : Sessions (backed cfg) (fun _ : Unit => (obtain lib cfg).run)
      { stored := stored, past := [], said := [] } t) :
    (∀ value, stored = some value → t.stored = some value) ∧ (t.past ++ [t.stored]).Pairwise Keeps ∧
      ∀ e ∈ t.said, ∀ account, e.call.account = some account → Kept lib account t := by
  have start :
      Single lib stored ({ stored := stored, past := [], said := [] } : Backed Signer Cert) :=
    ⟨fun e member => absurd member List.not_mem_nil, fun value held => held,
      List.pairwise_singleton _ _⟩
  have single : Single lib stored t :=
    sessions.invariant (I := Single lib stored)
      (fun _ s single => wp_obtain_single roundTrip single) start
  exact ⟨single.same, single.moments, single.signed⟩

/-- An order that finds no key, draws one, stores it and registers with it, and is killed. -/
theorem one_account_kept :
    ∃ t : Backed Bytes Bytes,
      Sessions (backed plainACME) (fun _ : Unit => (obtain plainLibrary plainACME).run)
        { stored := none, past := [], said := [] } t ∧
      t.past = [none, none, none, some (bytes "key"), some (bytes "key")] ∧
      t.stored = some (bytes "key") ∧
      (t.past ++ [t.stored]).Pairwise Keeps ∧ (∃ e ∈ t.said, e.call.account = some (bytes "key")) ∧
      ∀ e ∈ t.said, ∀ account, e.call.account = some account → Kept plainLibrary account t := by
  have said : ∀ {α β : Type} {a : α} {b : β}, a = a ∧ b = b := ⟨rfl, rfl⟩
  have cut : Cut (backed plainACME) ⟨none, [], []⟩
      (obtain plainLibrary plainACME : Talk Bytes Bytes _).run ⟨some (bytes "key"), _, _⟩ :=
    .ask (show backed plainACME _ (.courierKey _) (.error ⟨.notFound, ""⟩) ⟨none, _, _⟩ from
      ⟨said, rfl, fun _ _ => rfl⟩) <|
    .ask (show backed plainACME _ .generateKey (.ok (bytes "key")) ⟨none, _, _⟩ from ⟨said, rfl⟩) <|
    .ask (show backed plainACME _ (.writeCourierKey _ _) (.ok ()) ⟨some (bytes "key"), _, _⟩ from
      ⟨said, (stores_write _ _ _ _).mpr rfl⟩) <|
    .ask (show backed plainACME _ .discover (.ok ()) ⟨_, _, _⟩ from ⟨said, rfl⟩) <|
    .ask (show backed plainACME _ (.register _ _ _) (.ok ()) ⟨_, _, _⟩ from ⟨said, rfl⟩) (.here _ _)
  have sessions : Sessions (backed plainACME) (fun _ : Unit => (obtain plainLibrary plainACME).run)
      _ _ :=
    .again (i := ()) (.none _) cut
  have known := one_account plainLibrary plainACME (fun _ _ same => by rw [Except.ok.inj same]; rfl)
    none _ sessions
  exact ⟨_, sessions, rfl, rfl, known.2.1, ⟨_, List.mem_concat_self, rfl⟩, known.2.2⟩

end TrustedCourier.AcmeIssuer
