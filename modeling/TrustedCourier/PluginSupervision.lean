import TrustedCourier.PluginHost

/-!
# What a host of Backend Plugins keeps to

Three results over every interleaving of supervisors, processes and callers: what is
executed and which clients are handed out, how launches are spaced, and how a supervisor
comes to its end.
-/

namespace TrustedCourier.PluginHost

open Config

/-! ## What is executed -/

section Hosts

variable {server : Server} {host next : Host} {plugins : List BackendPlugin} {acts : List HostAct}
  {now : Int}

/-- Every plugin of the host is one it was started with, in a sound state. -/
def Host.Sound (server : Server) (plugins : List BackendPlugin) (host : Host) : Prop :=
  ∀ p ∈ host, p.1 ∈ plugins ∧ p.2.Sound ⟨server, p.1⟩

/-- One action of a host keeps all its plugins sound. -/
theorem Host.Sound.step (sound : host.Sound server plugins) {act : HostAct}
    (taken : host.step server act = some next) : next.Sound server plugins := by
  cases act with
  | one index act =>
    simp only [Host.step] at taken
    split at taken
    · cases taken
    · obtain ⟨p, found, moved⟩ := Option.bind_eq_some_iff.mp taken
      obtain ⟨after, stepped, rfl⟩ := Option.map_eq_some_iff.mp moved
      have known := sound p (List.mem_of_getElem? found)
      intro q among
      rcases List.mem_or_eq_of_mem_set among with earlier | rfl
      · exact sound q earlier
      · exact ⟨known.1, known.2.moves (Supervised.moves_of_step stepped)⟩
  | cancel =>
    cases taken
    intro q among
    obtain ⟨p, earlier, rfl⟩ := List.mem_map.mp among
    exact ⟨(sound p earlier).1, (sound p earlier).2.moves .cancel⟩

/-- Every plugin of a host is sound at every moment. -/
theorem Host.sound_after
    (ran : Runs.after (Host.step server) (Host.start now plugins) acts = some host) :
    host.Sound server plugins := by
  refine Runs.after_invariant (I := Host.Sound server plugins) (fun _ _ _ sound => sound.step) ran
    ?_
  intro p among
  obtain ⟨plugin, configured, rfl⟩ := List.mem_map.mp among
  exact ⟨configured, .start _ now⟩

/-- A client that `running` returns is the published one of a plugin of that name. -/
theorem Host.of_running {name : Bytes} {c : Client} (running : host.running server name = .ok c) :
    ∃ p ∈ host, p.1.name = name ∧ p.2.client = some c := by
  unfold Host.running at running
  split at running
  · cases running
  · rename_i p found
    split at running
    · cases running
    · rename_i held
      cases running
      exact ⟨p, List.mem_of_find?_eq_some found, by simpa using List.find?_some found, held⟩

/-- Whatever steps the supervisors, the processes and the callers take: every process of a
plugin was started for contents with the SHA-256 that the config pins, and executes contents
with that SHA-256 unless they were changed between the hash and the execution; on Linux that
takes a write into the file itself, and what its path leads to makes no difference. At most
one of the processes is alive, and every client that a caller has taken is of one of them
and inside the server's FIPS 140-3 mode. A name is answered with a client only of a plugin
configured under it, and only while that plugin is reported as running without an error. -/
theorem plugins_trusted
    (ran : Runs.after (Host.step server) (Host.start now plugins) acts = some host) :
    (∀ p ∈ host, (∀ l ∈ p.2.launched, server.sha256 l.hashed = p.1.sha256 ∧
        (server.platform = .linux → l.files.opened = l.hashed →
          server.sha256 l.executed = p.1.sha256) ∧
        (server.platform = .other → l.files.named p.1.path = l.hashed →
          server.sha256 l.executed = p.1.sha256)) ∧
      (∀ i ∈ p.2.alive, ∀ j ∈ p.2.alive, i = j) ∧
      ∀ c ∈ p.2.taken, Trusted ⟨server, p.1⟩ p.2.launched c) ∧
    ∀ name c, host.running server name = .ok c → ∃ p ∈ host, p.1 ∈ plugins ∧ p.1.name = name ∧
      p.2.state = .running ∧ p.2.lastErr = "" ∧ Trusted ⟨server, p.1⟩ p.2.launched c := by
  have sound := Host.sound_after ran
  refine ⟨fun p among => ⟨fun l started => ?_, (sound p among).2.single, (sound p among).2.taken⟩,
    fun name c running => ?_⟩
  · obtain ⟨hashed, executed⟩ := (sound p among).2.pinned l started
    refine ⟨hashed, fun built same => executed ?_, fun built same => executed ?_⟩
    · simpa [Launched.Unchanged, built] using same
    · simpa [Launched.Unchanged, built] using same
  obtain ⟨p, among, named, held⟩ := Host.of_running running
  obtain ⟨trusted, _, state, lastErr⟩ := (sound p among).2.published held
  exact ⟨p, among, (sound p among).1, named, state, lastErr, trusted⟩

end Hosts

/-- A server in FIPS 140-3 mode, with the identity for a hash. -/
def plainServer : Server where
  platform := .linux
  quote := fun name => toString name
  text := fun name => toString name
  sha256 := id
  hostFIPS140 := { enabled := true, only := false }

/-- A plugin whose contents are pinned. -/
def plainPlugin : BackendPlugin where
  name := [111]
  path := [47, 111]
  sha256 := [7, 9]
  user := []
  insecureShareCoreUser := true
  env := []

/-- A launch that comes up. Another file was put at the plugin's path meanwhile. -/
def launch (t : Int) : List Act :=
  [.check t, .opened (.contents [7, 9]), .spawned ⟨[7, 9], fun _ => [6, 6]⟩ none,
    .dispensed (.ok { courierKeyWrite := true, fips140Enabled := true, fips140Only := false }),
    .covered, .published]

/-- The plugin runs, and what it executes is what was pinned. -/
theorem plugins_trusted_running : ∃ host c,
    Runs.after (Host.step plainServer) (Host.start 0 [plainPlugin])
      ((launch 0).map (HostAct.one 0)) = some host ∧
    host.running plainServer [111] = .ok c ∧ ∃ p ∈ host, p.2.state = .running ∧
      Trusted ⟨plainServer, p.1⟩ p.2.launched c ∧
      ∀ l ∈ p.2.launched, plainServer.sha256 l.executed = p.1.sha256 := by
  obtain ⟨each, running⟩ := @plugins_trusted plainServer _ [plainPlugin] ((launch 0).map (.one 0)) 0
    rfl
  obtain ⟨p, among, _, _, state, _, trusted⟩ := running [111] _ rfl
  refine ⟨_, _, rfl, rfl, p, among, state, trusted, fun l started => ?_⟩
  have unchanged : l.files.opened = l.hashed := by
    obtain rfl := List.mem_singleton.mp among
    obtain rfl := List.mem_singleton.mp started
    rfl
  exact ((each p among).1 l started).2.1 rfl unchanged

/-! ## The waits between launches -/

/-- The wait that is due after an attempt that did not last: 250 ms after the first one, and
then twice the wait before, up to 30 s. -/
def due (history : List Event) : Int :=
  history.foldl (fun due event =>
    match event with
    | .launch _ => due
    | .rest _ wait _ => min (wait * 2) maxBackoff) minBackoff

/-- The plugin is started. -/
def Event.isLaunch : Event → Bool
  | .launch _ => true
  | .rest _ _ _ => false

/-- What a moment of the history has to do with those before it. A launch is the first one
or comes after a wait that is over. A wait follows a launch; it is the shortest one if the
launch lasted. -/
def Paced (before : List Event) : Event → Prop
  | .launch t => before = [] ∨ ∃ earlier u wait stable, before = earlier ++ [.rest u wait stable] ∧
    u + wait ≤ t
  | .rest t wait stable => (∃ earlier u, before = earlier ++ [.launch u] ∧ u ≤ t ∧
    stable = decide (t - u ≥ stableAfter)) ∧
      wait = if stable then minBackoff else due before

namespace Supervised

/-- What the supervisor remembers of its history where it is. -/
def Remembers (s : Supervised) : Point → Prop
  | .loop => s.backoff = due s.history ∧ s.attempt = s.history.countP Event.isLaunch ∧
      (s.history = [] ∨ ∃ earlier u wait stable, s.history = earlier ++ [.rest u wait stable] ∧
        u + wait ≤ s.clock)
  | .sleeping until' => s.attempt + 1 = s.history.countP Event.isLaunch ∧
      ∃ earlier u stable, s.history = earlier ++ [.rest u s.backoff stable] ∧ until' = u + s.backoff
  | .ending | .ended => True
  | _ => s.backoff = due s.history ∧ s.attempt + 1 = s.history.countP Event.isLaunch ∧
      ∃ earlier, s.history = earlier ++ [.launch s.started] ∧ s.started ≤ s.clock

/-- What holds of the history at every moment. -/
structure Spaced (s : Supervised) : Prop where
  each : Runs.Each Paced s.history
  restarts : s.restarts = s.history.countP Event.isLaunch - 1
  place : s.Remembers s.point

section Steps

variable {env : Env} {s next : Supervised}

/-- A launch begins: the wait before it is over. -/
theorem Spaced.launch {t : Int} (spaced : s.Spaced) (here : s.point = .loop) (later : s.clock ≤ t) :
    ({ s.check t with clock := t } : Supervised).Spaced := by
  have known := spaced.place
  rw [here] at known
  obtain ⟨backoff, attempt, waited⟩ := known
  have fits : Paced s.history (.launch t) := by
    rcases waited with empty | ⟨earlier, u, wait, stable, split, past⟩
    · exact .inl empty
    · exact .inr ⟨earlier, u, wait, stable, split, Int.le_trans past later⟩
  have one : (s.history ++ [Event.launch t]).countP Event.isLaunch =
      s.history.countP Event.isLaunch + 1 := by
    simp [Event.isLaunch]
  have same : s.backoff = due (s.history ++ [.launch t]) := by simpa [due] using backoff
  have restarts := spaced.restarts
  unfold check
  split_ifs with cancelled again
  · exact ⟨spaced.each, restarts, trivial⟩
  all_goals
    refine ⟨spaced.each.concat fits, ?_, same, ?_, s.history, rfl, Int.le_refl _⟩ <;>
      simp only [goto, log, one] <;> omega

/-- A wait begins. -/
theorem Spaced.pause {t : Int} (spaced : s.Spaced) (here : s.point = .resting)
    (later : s.clock ≤ t) :
    ({ s.rest t with clock := t } : Supervised).Spaced := by
  have known := spaced.place
  rw [here] at known
  obtain ⟨backoff, attempt, earlier, launched, before⟩ := known
  refine ⟨spaced.each.concat
    ⟨⟨earlier, s.started, launched, Int.le_trans before later, rfl⟩, by rw [backoff]⟩, ?_, ?_,
    s.history, t, _, rfl, rfl⟩
  · simpa [rest, goto, log, Event.isLaunch] using spaced.restarts
  · simpa [rest, goto, log, Event.isLaunch] using attempt

/-- A wait is over. -/
theorem Spaced.wake {t until' : Int} (spaced : s.Spaced) (here : s.point = .sleeping until')
    (past : until' ≤ t) :
    (s.wake t).Spaced := by
  have known := spaced.place
  rw [here] at known
  obtain ⟨attempt, earlier, u, stable, split, ends⟩ := known
  refine ⟨spaced.each, spaced.restarts, ?_, attempt,
    .inr ⟨earlier, u, s.backoff, stable, split, ends ▸ past⟩⟩
  change min (s.backoff * 2) maxBackoff = due s.history
  simp [split, due]

/-- One action keeps the launches spaced. Between a launch and the wait after it nothing is
remembered anew. -/
theorem Spaced.moves {act : Act} (spaced : s.Spaced) (taken : s.step env act = some next) :
    next.Spaced := by
  have since := (go_of_step taken).2
  have known := spaced.place
  cases moves_of_step taken with
  | checks here => exact spaced.launch here (by simpa [Act.time] using since)
  | rested here => exact spaced.pause here (by simpa [Act.time] using since)
  | woke here past => exact spaced.wake here past
  | cancel | take | exits process => exact ⟨spaced.each, spaced.restarts, known⟩
  | refused here | stopped here => exact ⟨spaced.each, spaced.restarts, trivial⟩
  | finished here =>
    unfold finish
    split <;> exact ⟨spaced.each, spaced.restarts, trivial⟩
  | @cleared c exited here =>
    rw [here] at known
    cases exited with
    | true => exact ⟨spaced.each, spaced.restarts, known⟩
    | false => exact ⟨spaced.each, spaced.restarts, trivial⟩
  | verified here | unverified here | spawned here | unspawned here | dispensed here
    | undispensed here | covered here | uncovered here | published here | exitSeen here
    | doneSeen here | killed here | failed here =>
    rw [here] at known
    exact ⟨spaced.each, spaced.restarts, known⟩

end Steps

end Supervised

/-- Over every run of a supervisor, with its process exiting at any moment: each launch but
the first comes after a wait that began when the attempt before it was over and is over
now; a wait is 250 ms after an attempt that lasted a minute and after the first one, and
otherwise twice the wait before, up to 30 s; and the restarts that are reported are the
launches but the first. -/
theorem launches_spaced {env : Env} {now : Int} {acts : List Act} {s : Supervised}
    (ran : Runs.after (Supervised.step env) (.start now) acts = some s) :
    Runs.Each Paced s.history ∧ s.restarts = s.history.countP Event.isLaunch - 1 := by
  have spaced : s.Spaced :=
    Runs.after_invariant (I := Supervised.Spaced) (fun _ _ _ spaced => spaced.moves) ran
      ⟨Runs.each_nil, rfl, rfl, rfl, .inl rfl⟩
  exact ⟨spaced.each, spaced.restarts⟩

/-- The plugin exits at once, and is launched again a quarter of a second later. -/
def relaunched : List Act :=
  launch 0 ++ [.exits 0, .exitSeen, .killed, .cleared, .settled, .rested 5, .woke 250000005,
    .check 250000005]

/-- A plugin that is started twice. -/
theorem launches_spaced_relaunched : ∃ s,
    Runs.after (Supervised.step ⟨plainServer, plainPlugin⟩) (.start 0) relaunched = some s ∧
    s.restarts = 1 ∧ Runs.Each Paced s.history :=
  ⟨_, rfl, rfl, (@launches_spaced ⟨plainServer, plainPlugin⟩ 0 relaunched _ rfl).1⟩

/-! ## The end of a supervisor -/

/-- How many steps of `run` are left at most once the context is done. -/
def Point.left : Point → Nat
  | .opening => 13
  | .spawning _ => 12
  | .dispensing _ => 11
  | .checking _ => 10
  | .publishing _ => 9
  | .waiting _ => 8
  | .killing _ _ => 7
  | .clearing _ _ => 6
  | .failing _ => 5
  | .resting => 4
  | .sleeping _ => 3
  | .loop => 2
  | .refusing _ => 2
  | .ending => 1
  | .ended => 0

theorem Point.left_le (point : Point) : point.left ≤ 13 := by
  cases point <;> simp [Point.left]

/-- Nothing comes after a refusal: it stays, no process is started, and no client is given. -/
structure Refused (s next : Supervised) : Prop where
  state : next.state = .refused
  launched : next.launched = s.launched
  taken : next.taken = s.taken

namespace Supervised

/-- The supervisor is on its way out: the context is done, or the plugin was refused. -/
def Leaving (s : Supervised) : Prop := s.cancelled = true ∨ s.state = .refused

section Steps

variable {env : Env} {s next : Supervised} {act : Act}

/-- Where `run` still loops it leaves only because the context is done. -/
theorem Leaving.cancelled (leaving : s.Leaving) (sound : s.Sound env) (ending : s.point ≠ .ending)
    (ended : s.point ≠ .ended) : s.cancelled = true := by
  rcases leaving with cancelled | refused
  · exact cancelled
  · rcases (sound.refused refused).2 with here | here
    · exact absurd here ending
    · exact absurd here ended

/-- A step of `run` brings it closer to its end. -/
theorem closer_of_moves (leaving : s.Leaving) (sound : s.Sound env) (own : act.own = true)
    (moved : Moves env s act next) : next.point.left < s.point.left := by
  have cancelled := leaving.cancelled sound
  cases moved with
  | cancel | exits process | take => cases own
  | checks here =>
    -- The context is done, so the head of the loop leaves it.
    have done : s.cancelled = true := cancelled (by simp [here]) (by simp [here])
    simp [check, done, goto, here, Point.left]
  | @cleared c exited here => cases exited <;> simp [clear, goto, here, Point.left]
  | finished here =>
    unfold finish
    split <;> simp [goto, here, Point.left]
  | verified here | unverified here | unspawned here | dispensed here | undispensed here
    | covered here | uncovered here | exitSeen here | doneSeen here | killed here | failed here
    | refused here | stopped here => simp [goto, here, Point.left]
  | spawned here => simp [spawn, goto, here, Point.left]
  | published here => simp [publish, goto, here, Point.left]
  | rested here => simp [rest, goto, here, Point.left]
  | woke here past => simp [wake, goto, here, Point.left]

/-- What is not a step of `run` leaves it where it is. -/
theorem stays_of_moves (other : act.own = false) (moved : Moves env s act next) :
    next.point = s.point := by
  cases moved with
  | cancel | exits process | take => rfl
  | _ => cases other

/-- A context that is done stays done. -/
theorem cancelled_of_moves (cancelled : s.cancelled = true) (moved : Moves env s act next) :
    next.cancelled = true := by
  cases moved with
  | checks here =>
    rw [check, if_pos cancelled]
    exact cancelled
  | finished here =>
    unfold finish
    split <;> exact cancelled
  | cancel => rfl
  | _ => exact cancelled

/-- After a refusal `run` only ends, and what else happens starts and gives nothing. -/
theorem refused_of_moves (refused : s.state = .refused) (sound : s.Sound env)
    (moved : Moves env s act next) : Refused s next := by
  obtain ⟨unpublished, there⟩ := sound.refused refused
  cases moved with
  | cancel | exits process => exact ⟨refused, rfl, rfl⟩
  | take => exact ⟨refused, rfl, by simp [unpublished]⟩
  | finished here =>
    rw [finish, if_neg (not_not.mpr refused)]
    exact ⟨refused, rfl, rfl⟩
  | checks here | verified here | unverified here | spawned here | unspawned here | dispensed here
    | undispensed here | covered here | uncovered here | published here | exitSeen here
    | doneSeen here | killed here | cleared here | failed here | refused here | rested here
    | woke here | stopped here => exact absurd there (by simp [here])

/-- A step that `run` can take on its way out. -/
def wayOut (s : Supervised) : Act :=
  match s.point with
  | .loop => .check s.clock
  | .opening => .opened (.unopened "")
  | .spawning _ => .spawned ⟨[], fun _ => []⟩ none
  | .dispensing _ => .dispensed (.error "")
  | .checking _ => .covered
  | .publishing _ => .published
  | .waiting _ => .doneSeen
  | .killing _ _ => .killed
  | .clearing _ _ => .cleared
  | .failing _ | .refusing _ => .settled
  | .resting => .rested s.clock
  | .sleeping _ => .stopped
  | .ending | .ended => .finished

/-- Until its end, `run` always has a step it can take. -/
theorem Leaving.able (leaving : s.Leaving) (sound : s.Sound env) (going : s.point ≠ .ended) :
    s.wayOut.own = true ∧ (s.step env s.wayOut).isSome = true := by
  have cancelled := leaving.cancelled sound
  cases here : s.point with
  | checking c =>
    simp only [wayOut, here, step, Act.time, Option.all_none, if_true, go]
    exact ⟨rfl, by split <;> rfl⟩
  | _ => simp_all [wayOut, step, Act.time, Act.own, go, openVerified]

end Steps

end Supervised

/-- Once the context is done or the plugin was refused, whatever else happens: `run` takes
at most thirteen further steps, can always take one until its end, and at its end no
process of the plugin is alive, no client is published, and the plugin is reported as
stopped or refused. After a refusal no process is started and no client is given, and the
refusal stays. -/
theorem winds_down {env : Env} {now : Int} {acts more : List Act} {s t : Supervised}
    (ran : Runs.after (Supervised.step env) (.start now) acts = some s) (leaving : s.Leaving)
    (later : Runs.after (Supervised.step env) s more = some t) :
    more.countP Act.own ≤ 13 ∧
    (t.point ≠ .ended → ∃ act, act.own = true ∧ (t.step env act).isSome = true) ∧
    (t.point = .ended → t.alive = [] ∧ t.client = none ∧
      (t.state = .stopped ∨ t.state = .refused)) ∧
    (s.state = .refused → Refused s t) := by
  have reached : s.Sound env :=
    Runs.after_invariant (I := Supervised.Sound env)
      (fun _ _ _ sound taken => sound.moves (Supervised.moves_of_step taken)) ran (.start env now)
  have kept (s act next) (known : s.Sound env ∧ s.Leaving)
    (taken : Supervised.step env s act = some next) :
      next.Sound env ∧ next.Leaving := by
    obtain ⟨sound, leaving⟩ := known
    have moved := Supervised.moves_of_step taken
    refine ⟨sound.moves moved, ?_⟩
    rcases leaving with cancelled | refused
    · exact .inl (Supervised.cancelled_of_moves cancelled moved)
    · exact .inr (Supervised.refused_of_moves refused sound moved).state
  obtain ⟨sound, leaving'⟩ := Runs.after_invariant kept later ⟨reached, leaving⟩
  refine ⟨?_, fun going => ⟨_, leaving'.able sound going⟩, ?_, ?_⟩
  · have counted := Runs.after_counted kept Act.own (fun s => s.point.left)
      (fun s act next known taken own =>
        Supervised.closer_of_moves known.2 known.1 own (Supervised.moves_of_step taken))
      (fun s act next _ taken other =>
        by rw [Supervised.stays_of_moves other (Supervised.moves_of_step taken)])
      later ⟨reached, leaving⟩
    have bound := s.point.left_le
    omega
  · intro ended
    have place := sound.place
    rwa [ended] at place
  · intro refused
    have related := Runs.after_related kept (R := fun a b => a.state = .refused → Refused a b)
      (fun a refused => ⟨refused, rfl, rfl⟩)
      (fun first second refused => by
        have one := first refused
        have two := second one.state
        exact ⟨two.state, two.launched.trans one.launched, two.taken.trans one.taken⟩)
      (fun a act b known taken refused =>
        Supervised.refused_of_moves refused known.1 (Supervised.moves_of_step taken))
      later ⟨reached, leaving⟩
    exact related refused

/-- The context is done while the plugin runs. -/
theorem winds_down_running : ∃ s t,
    Runs.after (Supervised.step ⟨plainServer, plainPlugin⟩) (.start 0)
      (launch 0 ++ [.cancel]) = some s ∧
    Runs.after (Supervised.step ⟨plainServer, plainPlugin⟩) s
    [.take, .doneSeen, .killed, .cleared, .finished] = some t ∧
    t.point = .ended ∧ t.alive = [] ∧ t.client = none := by
  refine ⟨_, _, rfl, rfl, rfl, ?_⟩
  have down := @winds_down ⟨plainServer, plainPlugin⟩ 0 (launch 0 ++ [.cancel])
    [.take, .doneSeen, .killed, .cleared, .finished] _ _ rfl (.inl rfl) rfl
  exact ⟨(down.2.2.1 rfl).1, (down.2.2.1 rfl).2.1⟩

end TrustedCourier.PluginHost
