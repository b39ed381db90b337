import TrustedCourier.Routes
import TrustedCourier.Runs

/-!
# The snapshot a request is served from

Each request takes a snapshot: a config with the routes and the credential slots built
from it. The stored snapshot serves as long as its config is the running one; the first
request that finds another config running builds a new one, under a lock. Requests and
reloads go on at once, and each atomic load and store is a step of its own.

Configs are compared by their addresses. A config is known here by the number of the
reload that put it in effect, the config of the start having number zero.
-/

namespace TrustedCourier.AgentApi

open Config Runs Option

/-- The credential slots of a config. -/
def slotsOf (cfg : Config) : Slots :=
  newSlots (cfg.secrets.entries.map fun s => (s.1, s.2.injectionTemplate))

/-- A snapshot, with the number of its config. -/
structure Snapshot where
  cfg : Nat
  routes : Routes
  slots : Slots

/-- How far a request has come in `currentSnapshot`. -/
inductive Progress where
  /-- Not yet called. -/
  | idle
  /-- About to read the running config. -/
  | called
  /-- About to compare the stored snapshot. -/
  | read (cfg : Nat)
  /-- About to take the lock. -/
  | waiting
  /-- About to read the running config again. -/
  | locked
  /-- About to load the stored snapshot. -/
  | reread (cfg : Nat)
  /-- About to build a snapshot and store it. -/
  | building (cfg : Nat) (old : Snapshot)
  /-- About to close the transports no route has. -/
  | stored (old snap : Snapshot)
  /-- About to give up the lock. -/
  | leaving (snap : Snapshot)
  | returned (snap : Snapshot)

/-- The server, with the configs that have been in effect, in order. -/
structure Server where
  configs : List Config
  running : Nat
  snapshot : Snapshot
  snapshotMu : Option Nat
  transports : Nat
  closed : List Nat
  requests : Nat → Progress

/-- A reload, or a move of a request. -/
inductive Action where
  /-- A reload puts a config in effect. -/
  | reload (cfg : Config)
  | call (request : Nat)
  | move (request : Nat)

/-- `NewServer`. -/
def Server.new (cfg : Config) : Server :=
  let built := newRoutes cfg ∅ 0
  { configs := [cfg]
    running := 0
    snapshot := ⟨0, built.1, slotsOf cfg⟩
    snapshotMu := none
    transports := built.2
    closed := []
    requests := fun _ => .idle }

/-- A request has come this far. -/
def Server.at (s : Server) (request : Nat) (progress : Progress) : Server :=
  { s with requests := Function.update s.requests request progress }

/-- A request builds a snapshot of a config and stores it. -/
def Server.build (s : Server) (request cfg : Nat) (old : Snapshot) (config : Config) : Server :=
  let built := newRoutes config old.routes s.transports
  let snap := ⟨cfg, built.1, slotsOf config⟩
  { s.at request (.stored old snap) with snapshot := snap, transports := built.2 }

/-- The next step of a request in `currentSnapshot`. -/
def Server.move (s : Server) (request : Nat) : Option Server :=
  match s.requests request with
  | .idle => none
  | .called => some (s.at request (.read s.running))
  | .read cfg =>
    some (s.at request (if s.snapshot.cfg = cfg then .returned s.snapshot else .waiting))
  | .waiting =>
    if s.snapshotMu = none then some { s.at request .locked with snapshotMu := some request }
    else none
  | .locked => some (s.at request (.reread s.running))
  | .reread cfg =>
    some (s.at request
      (if s.snapshot.cfg = cfg then .leaving s.snapshot else .building cfg s.snapshot))
  | .building cfg old => (s.configs[cfg]?).map (s.build request cfg old)
  | .stored old snap =>
    some { s.at request (.leaving snap) with
      closed := s.closed ++ closeUnused old.routes snap.routes }
  | .leaving snap => some { s.at request (.returned snap) with snapshotMu := none }
  | .returned _ => none

/-- An action, where it can be taken. -/
def Server.step (s : Server) : Action → Option Server
  | .reload cfg => some { s with configs := s.configs ++ [cfg], running := s.configs.length }
  | .call request => match s.requests request with
    | .idle => some (s.at request .called)
    | _ => none
  | .move request => s.move request

/-! ## What holds in every state -/

/-- The routes of a snapshot are those of the config, and so are its slots. -/
structure Serves (cfg : Config) (snap : Snapshot) : Prop where
  routes : ∀ key template up, (key, template, up) ∈ routesOf cfg ↔
    ∃ transport, snap.routes.lookup key = some ⟨template, up, transport⟩
  slots : snap.slots = slotsOf cfg

/-- The snapshot is built from its own config. -/
def Own (configs : List Config) (snap : Snapshot) : Prop :=
  ∃ cfg, configs[snap.cfg]? = some cfg ∧ Serves cfg snap

/-- What a request on its way may rely on. Once it has read a config under the lock,
nothing later is stored until it stores its own. -/
def Progress.Sound (configs : List Config) (running : Nat) (current : Snapshot) : Progress → Prop
  | .idle | .called | .read _ | .waiting | .locked => True
  | .reread cfg => current.cfg ≤ cfg ∧ cfg ≤ running
  | .building cfg old => old = current ∧ current.cfg ≤ cfg ∧ cfg ≤ running
  | .stored _ snap | .leaving snap | .returned snap => Own configs snap

/-- The request holds the lock. -/
def Progress.Inside : Progress → Prop
  | .locked | .reread _ | .building _ _ | .stored _ _ | .leaving _ => True
  | .idle | .called | .read _ | .waiting | .returned _ => False

/-- What holds of the server after any run of actions. -/
structure Server.Sound (s : Server) : Prop where
  current : s.running + 1 = s.configs.length
  behind : s.snapshot.cfg ≤ s.running
  own : Own s.configs s.snapshot
  trusted : Trusted s.snapshot.routes s.transports
  holder : ∀ request, (s.requests request).Inside → s.snapshotMu = some request
  requests : ∀ request, (s.requests request).Sound s.configs s.running s.snapshot

/-- The config a request works with, once it has read one. -/
def Progress.config : Progress → Option Nat
  | .idle | .called | .waiting | .locked => none
  | .read cfg | .reread cfg | .building cfg _ => some cfg
  | .stored _ snap | .leaving snap | .returned snap => some snap.cfg

theorem serves_newRoutes (cfg : Config) (number : Nat) {old : Routes} {next : Nat}
    (trusted : Trusted old next) :
    Serves cfg ⟨number, (newRoutes cfg old next).1, slotsOf cfg⟩ := by
  have built := newRoutes_built cfg trusted.known
  refine ⟨fun key template up => ⟨built.complete key template up, ?_⟩, rfl⟩
  rintro ⟨transport, found⟩
  exact (built.sound key _ found).1

variable {configs : List Config}

theorem Own.mono {snap : Snapshot} (own : Own configs snap) (more : List Config) :
    Own (configs ++ more) snap := by
  obtain ⟨cfg, known, serves⟩ := own
  exact ⟨cfg, List.getElem?_append_left (List.getElem?_eq_some_iff.mp known).1 ▸ known, serves⟩

/-- A reload leaves every request its footing. -/
theorem Progress.Sound.reload {progress : Progress} {running later : Nat} {current : Snapshot}
    (sound : progress.Sound configs running current) (more : List Config)
    (rises : running ≤ later) :
    progress.Sound (configs ++ more) later current := by
  cases progress with
  | idle | called | read | waiting | locked => trivial
  | reread cfg => exact ⟨sound.1, sound.2.trans rises⟩
  | building cfg old => exact ⟨sound.1, sound.2.1, sound.2.2.trans rises⟩
  | stored _ snap | leaving snap | returned snap => exact Own.mono sound more

/-- A request that does not hold the lock does not rely on what is stored. -/
theorem Progress.Sound.store {progress : Progress} {running : Nat} {current : Snapshot}
    (sound : progress.Sound configs running current) (outside : ¬ progress.Inside)
    (next : Snapshot) :
    progress.Sound configs running next := by
  cases progress with
  | idle | called | read | waiting | returned => exact sound
  | locked | reread | building | stored | leaving => exact absurd trivial outside

/-- The server starts sound. -/
theorem Server.Sound.new (cfg : Config) : (Server.new cfg).Sound where
  current := rfl
  behind := Nat.le_refl _
  own := ⟨cfg, rfl, serves_newRoutes cfg 0 trusted_empty⟩
  trusted := newRoutes_trusted cfg trusted_empty
  holder := fun _ inside => inside.elim
  requests := fun _ => trivial

section Steps

variable {s s' : Server} {request : Nat}

@[simp] theorem Server.at_same (s : Server) (request : Nat) (progress : Progress) :
    (s.at request progress).requests request = progress := by
  simp [Server.at]

theorem Server.at_other (s : Server) {other : Nat} (apart : other ≠ request) (progress : Progress) :
    (s.at request progress).requests other = s.requests other := by
  simp [Server.at, apart]

@[simp] theorem Server.build_same (s : Server) (request cfg : Nat) (old : Snapshot)
    (config : Config) :
    (s.build request cfg old config).requests request =
      .stored old (s.build request cfg old config).snapshot :=
  s.at_same request _

theorem Server.build_other (s : Server) {other : Nat} (apart : other ≠ request) (cfg : Nat)
    (old : Snapshot) (config : Config) :
    (s.build request cfg old config).requests other = s.requests other :=
  s.at_other apart _

/-- A step that changes one request's progress, the lock and what is closed. -/
theorem Server.Sound.advance (sound : s.Sound) {progress : Progress} {holder : Option Nat}
    (closed : List Nat) (footing : progress.Sound s.configs s.running s.snapshot)
    (holds : progress.Inside → holder = some request)
    (others : ∀ other, other ≠ request → (s.requests other).Inside → holder = some other) :
    { s.at request progress with snapshotMu := holder, closed := closed }.Sound where
  current := sound.current
  behind := sound.behind
  own := sound.own
  trusted := sound.trusted
  holder := by
    intro other inside
    by_cases same : other = request
    · subst same
      rw [s.at_same] at inside
      exact holds inside
    · rw [s.at_other same] at inside
      exact others other same inside
  requests := by
    intro other
    by_cases same : other = request
    · subst same
      rw [s.at_same]
      exact footing
    · rw [s.at_other same]
      exact sound.requests other

/-- The holder of the lock stores a snapshot of a config no older than the stored one. -/
theorem Server.Sound.build (sound : s.Sound) {cfg : Nat} {old : Snapshot} {config : Config}
    (came : s.requests request = .building cfg old) (known : s.configs[cfg]? = some config) :
    (s.build request cfg old config).Sound := by
  have footing := sound.requests request
  have holds := sound.holder request
  rw [came] at footing holds
  obtain ⟨rfl, older, read⟩ := footing
  have own : Own s.configs (s.build request cfg s.snapshot config).snapshot :=
    ⟨config, known, serves_newRoutes config cfg sound.trusted⟩
  refine ⟨sound.current, read, own, newRoutes_trusted config sound.trusted, ?_, ?_⟩
  · intro other inside
    by_cases same : other = request
    · subst same
      exact holds trivial
    · rw [s.build_other same] at inside
      exact sound.holder other inside
  · intro other
    by_cases same : other = request
    · subst same
      rw [s.build_same]
      exact own
    · rw [s.build_other same]
      apply (sound.requests other).store
      intro inside
      -- The lock has one holder.
      exact same (some.inj ((sound.holder other inside).symm.trans (holds trivial)))

/-- A request's step keeps the server sound. -/
theorem Server.Sound.move (sound : s.Sound) (taken : s.move request = some s') : s'.Sound := by
  have footing := sound.requests request
  have holds := sound.holder request
  have others : ∀ other, other ≠ request → (s.requests other).Inside → s.snapshotMu = some other :=
    fun other _ => sound.holder other
  unfold Server.move at taken
  cases came : s.requests request with
  | idle => simp [came] at taken
  | called =>
    obtain rfl := by simpa [came] using taken
    exact sound.advance s.closed trivial (fun inside => inside.elim) others
  | read cfg =>
    obtain rfl := by simpa [came] using taken
    refine sound.advance s.closed ?_ ?_ others
    · split
      · exact sound.own
      · trivial
    · split <;> exact fun inside => inside.elim
  | waiting =>
    rw [came] at taken
    obtain ⟨free, rfl⟩ := of_guard taken
    refine sound.advance s.closed trivial (fun _ => rfl) fun other _ inside => ?_
    exact absurd (sound.holder other inside) (by simp [free])
  | locked =>
    obtain rfl := by simpa [came] using taken
    rw [came] at holds
    exact sound.advance s.closed ⟨sound.behind, Nat.le_refl _⟩ (fun _ => holds trivial) others
  | reread cfg =>
    obtain rfl := by simpa [came] using taken
    rw [came] at holds footing
    refine sound.advance s.closed ?_ (fun _ => holds trivial) others
    split
    · exact sound.own
    · exact ⟨rfl, footing⟩
  | building cfg old =>
    simp only [came, map_eq_some_iff] at taken
    obtain ⟨config, known, rfl⟩ := taken
    exact sound.build came known
  | stored old snap =>
    obtain rfl := by simpa [came] using taken
    rw [came] at holds footing
    exact sound.advance _ footing (fun _ => holds trivial) others
  | leaving snap =>
    obtain rfl := by simpa [came] using taken
    rw [came] at holds footing
    refine sound.advance s.closed footing (fun inside => inside.elim) fun other apart inside => ?_
    exact absurd (some.inj ((sound.holder other inside).symm.trans (holds trivial))) apart
  | returned snap => simp [came] at taken

/-- Every action keeps the server sound. -/
theorem Server.Sound.step {act : Action} (sound : s.Sound) (taken : s.step act = some s') :
    s'.Sound := by
  cases act with
  | reload cfg =>
    cases taken
    have rises : s.running ≤ s.configs.length := by
      have := sound.current
      omega
    exact
      { current := by simp
        behind := sound.behind.trans rises
        own := sound.own.mono [cfg]
        trusted := sound.trusted
        holder := sound.holder
        requests := fun request => (sound.requests request).reload [cfg] rises }
  | call request =>
    simp only [Server.step] at taken
    split at taken
    · cases taken
      exact sound.advance s.closed trivial (fun inside => inside.elim) fun other _ =>
        sound.holder other
    · cases taken
  | move request => exact sound.move taken

/-- What a step can do: put a config in effect, take one request on without storing
anything, or store a snapshot. -/
inductive Server.Takes (s : Server) : Server → Prop
  | reload (cfg : Config) :
  s.Takes { s with configs := s.configs ++ [cfg], running := s.configs.length }
  | advance (request : Nat) (progress : Progress) (holder : Option Nat) (closed : List Nat)
      (works : ∀ cfg, progress.config = some cfg → (s.requests request).config = some cfg ∨
        cfg = s.running) :
      s.Takes { s.at request progress with snapshotMu := holder, closed := closed }
  | build (request cfg : Nat) (old : Snapshot) (config : Config)
      (came : s.requests request = .building cfg old) :
      s.Takes (s.build request cfg old config)

/-- A request's move is one of the steps. -/
theorem Server.takes_move (taken : s.move request = some s') : s.Takes s' := by
  unfold Server.move at taken
  cases came : s.requests request with
  | idle | returned => simp [came] at taken
  | called | locked =>
    obtain rfl := by simpa [came] using taken
    exact .advance request _ s.snapshotMu s.closed fun cfg works => Or.inr (some.inj works).symm
  | read cfg | reread cfg =>
    obtain rfl := by simpa [came] using taken
    refine .advance request _ s.snapshotMu s.closed fun other works => Or.inl ?_
    rw [came]
    split at works <;> simp_all [Progress.config]
  | waiting =>
    rw [came] at taken
    obtain ⟨_, rfl⟩ := of_guard taken
    exact .advance request _ _ s.closed fun cfg works => absurd works (by simp [Progress.config])
  | building cfg old =>
    simp only [came, map_eq_some_iff] at taken
    obtain ⟨config, _, rfl⟩ := taken
    exact .build request cfg old config came
  | stored old snap | leaving snap =>
    obtain rfl := by simpa [came] using taken
    exact .advance request _ _ _ fun cfg works => Or.inl (came ▸ works)

/-- Every action is one of the steps. -/
theorem Server.takes {act : Action} (taken : s.step act = some s') : s.Takes s' := by
  cases act with
  | reload cfg =>
    cases taken
    exact .reload cfg
  | call request =>
    simp only [Server.step] at taken
    split at taken
    · cases taken
      exact .advance request .called s.snapshotMu s.closed fun cfg works =>
        absurd works (by simp [Progress.config])
    · cases taken
  | move request => exact Server.takes_move taken

/-- What is stored never moves back to an earlier config. -/
theorem Server.step_forward {act : Action} (sound : s.Sound) (taken : s.step act = some s') :
    s.snapshot.cfg ≤ s'.snapshot.cfg := by
  cases Server.takes taken with
  | reload | advance => exact Nat.le_refl _
  | build request cfg old config came =>
    have footing := sound.requests request
    rw [came] at footing
    exact footing.2.1

/-- The config a request works with is the one it worked with before the step, or the
running one. -/
theorem Server.step_config {act : Action} (taken : s.step act = some s') (request : Nat) {cfg : Nat}
    (works : (s'.requests request).config = some cfg) :
    (s.requests request).config = some cfg ∨ cfg = s.running := by
  cases Server.takes taken with
  | reload => exact Or.inl works
  | advance other progress _ _ source =>
    by_cases same : request = other
    · subst same
      rw [s.at_same] at works
      exact source cfg works
    · rw [s.at_other same] at works
      exact Or.inl works
  | build other _ old config came =>
    by_cases same : request = other
    · subst same
      rw [s.build_same] at works
      exact Or.inl (came ▸ works)
    · rw [s.build_other same] at works
      exact Or.inl works

end Steps

/-! ## Whole runs -/

theorem Server.Sound.run {s t : Server} {acts : List Action} (sound : s.Sound)
    (ran : after Server.step s acts = some t) :
    t.Sound :=
  after_invariant (fun _ _ _ known taken => known.step taken) ran sound

/-- A request works with a config that was running at some moment since its call. -/
theorem Server.config_passed {s t : Server} {acts : List Action} {request cfg : Nat}
    (fresh : (s.requests request).config = none) (ran : after Server.step s acts = some t)
    (works : (t.requests request).config = some cfg) :
    Passed Server.step s acts fun mid => mid.running = cfg := by
  have general : ∀ cfg, (t.requests request).config = some cfg →
      Passed Server.step s acts fun mid => mid.running = cfg := by
    apply after_induction (P := fun acts t => ∀ cfg, (t.requests request).config = some cfg →
      Passed Server.step s acts fun mid => mid.running = cfg) _ _ ran
    · intro cfg works
      cases fresh.symm.trans works
    · intro acts mid act next before known taken cfg works
      rcases Server.step_config taken request works with same | running
      · exact (known cfg same).later [act]
      · exact (Passed.now before running.symm).later [act]
  exact general cfg works

/-- One request, one config, and never an older one. In every run from the start of the
server, what is stored never moves back to the config of an earlier reload; and a request
that is called and returns gets a snapshot whose routes and slots are those of its own
config, which was the running one at some moment from the call to the return. -/
theorem one_config_per_request (first : Config) (acts : List Action) (s : Server)
    (reached : after Server.step (Server.new first) acts = some s) :
    (∀ more t, after Server.step s more = some t → s.snapshot.cfg ≤ t.snapshot.cfg) ∧
    ∀ request called more t returned snap, s.step (.call request) = some called →
      after Server.step called more = some t → t.step (.move request) = some returned →
      returned.requests request = .returned snap →
      (∃ cfg, returned.configs[snap.cfg]? = some cfg ∧ Serves cfg snap) ∧
        Passed Server.step called more fun mid => mid.running = snap.cfg := by
  have sound : s.Sound := (Server.Sound.new first).run reached
  constructor
  · intro more t ran
    exact after_related (R := fun s t => s.snapshot.cfg ≤ t.snapshot.cfg)
      (fun _ _ _ known taken => known.step taken)
      (fun _ => Nat.le_refl _) Nat.le_trans
        (fun _ _ _ known taken => Server.step_forward known taken) ran sound
  · intro request called more t returned snap calls ran returns got
    have own := (((sound.step calls).run ran).step returns).requests request
    rw [got] at own
    refine ⟨own, ?_⟩
    have fresh : (called.requests request).config = none := by
      simp only [Server.step] at calls
      split at calls
      · cases calls
        simp [Progress.config]
      · cases calls
    have works : (returned.requests request).config = some snap.cfg := by rw [got, Progress.config]
    rcases Server.step_config returns request works with same | running
    · exact Server.config_passed fresh ran same
    · exact Passed.now ran running.symm

/-- The first request after a reload builds the snapshot it gets, and is served the
Upstream the reload brought. -/
theorem one_config_per_request_reloaded :
    let loaded := { Config.empty with secrets := AList.singleton github.name github }
    ∃ s called t returned snap, after Server.step (Server.new Config.empty) [.reload loaded] =
      some s ∧
      s.step (.call 0) = some called ∧
        after Server.step called (List.replicate 7 (.move 0)) = some t ∧
      t.step (.move 0) = some returned ∧ returned.requests 0 = .returned snap ∧ snap.cfg = 1 ∧
      ∃ rt, snap.routes.lookup ⟨github.name, bytes "api"⟩ = some rt ∧
        rt.upstream.host = bytes "api.github.com" := by
  intro loaded
  refine ⟨_, _, _, _, _, rfl, rfl, rfl, rfl, rfl, rfl, ?_⟩
  obtain ⟨⟨cfg, known, serves⟩, _⟩ := (one_config_per_request Config.empty [.reload loaded] _ rfl).2
    0 _
    (List.replicate 7 (.move 0)) _ _ _ rfl rfl rfl rfl
  obtain rfl : loaded = cfg := some.inj known
  obtain ⟨transport, found⟩ := (serves.routes ⟨github.name, bytes "api"⟩ _ _).mp
    (mem_routesOf.mpr ⟨github, rfl, rfl, rfl⟩)
  exact ⟨_, found, rfl⟩

end TrustedCourier.AgentApi
