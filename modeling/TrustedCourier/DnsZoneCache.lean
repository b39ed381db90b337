import TrustedCourier.DnsZones

/-!
# The zones that are remembered

A provider finds the zones of an order's names one name after another, on one cache. A
lookup reports a zone's id, or that the provider does not hold the zone, or fails; what it
reports may depend on everything that was looked up before. The cache remembers exactly
the answers that were given. So a zone that was answered is not looked up again, and each
call ends at the first of its candidates that was answered with an id, whoever asked. A
search without a cache, made at any later time, ends there too unless a lookup fails,
provided that a zone's answers, once given, do not differ.
-/

namespace TrustedCourier.Dns

open List

/-- What a lookup reports of a zone: its id, that it is not there, or a failure. -/
abbrev Report := Except String (Option Bytes)

/-- Lookups that were made, with their reports, in their order. -/
abbrev Lookups := List (Bytes × Report)

/-! ## Lookups and searches -/

section Model

variable {σ : Type} (lookup : σ → Bytes → Report × σ)

/-- A lookup that is written down. -/
def noting (s : σ × Lookups) (zone : Bytes) : Report × σ × Lookups :=
  ((lookup s.1 zone).1, (lookup s.1 zone).2, s.2 ++ [(zone, (lookup s.1 zone).1)])

/-- What any number of lookups of any zones can leave. -/
inductive Reached (initial : σ) : σ × Lookups → Prop
  | start : Reached initial (initial, [])
  | asked {s : σ × Lookups} (before : Reached initial s) (zone : Bytes) :
  Reached initial (noting lookup s zone).2

/-- A zone's answers, once given, never differ. Lookups may still fail, and what is
answered first may depend on when it is asked. -/
def Steady (initial : σ) : Prop :=
  ∀ s, Reached lookup initial s → ∀ zone given answer,
    (zone, .ok given) ∈ s.2 → (lookup s.1 zone).1 = .ok answer → answer = given

/-- The search for a zone without a cache. -/
def search : List Bytes → σ → Except String (Option (Bytes × Bytes)) × σ
  | [], s => (.ok none, s)
  | candidate :: rest, s =>
    match lookup s candidate with
    | (.error err, s) => (.error err, s)
    | (.ok (some id), s) => (.ok (some (id, candidate)), s)
    | (.ok none, s) => search rest s

/-- What the outcome of a search is reported as. -/
def conclude (cfg : Config) (name : Bytes) : Except String (Option (Bytes × Bytes)) →
    Except ZoneErr (Bytes × Bytes)
  | .error err => .error (.lookup err)
  | .ok (some found) => .ok found
  | .ok none =>
    .error (if cfg.zone ≠ [] then .notAtProvider cfg.provider cfg.zone
      else .noZone cfg.provider name)

theorem find_eq (lower : Lower) (cfg : Config) (name : Bytes) (cache : ZoneCache) (s : σ) :
    find lookup lower cfg name cache s =
      (conclude cfg name (findIn lookup (zoneCandidates lower cfg name) cache s).1,
        (findIn lookup (zoneCandidates lower cfg name) cache s).2) := by
  unfold find conclude
  split <;> rename_i outcome <;> rw [outcome]

/-- Calls of `find` on one cache, for one name after another, from nothing remembered. -/
def calls (lower : Lower) (cfg : Config) (initial : σ) (names : List Bytes) :
    ZoneCache × σ × Lookups :=
  names.foldl (fun held name => (find (noting lookup) lower cfg name held.1 held.2).2)
    ({}, initial, [])

end Model

/-! ## What the cache holds -/

/-- No zone is looked up again once it has been answered. -/
def Once (log : Lookups) : Prop := log.Pairwise fun before after => before.1 = after.1 →
    ∃ err, before.2 = .error err

/-- The cache holds the answers that were given, and a zone that was answered was not
looked up again. -/
structure Remembered (cache : ZoneCache) (log : Lookups) : Prop where
  ids : ∀ zone id, cache.ids.lookup zone = some id ↔ (zone, .ok (some id)) ∈ log
  missing : ∀ zone, zone ∈ cache.missing ↔ (zone, .ok none) ∈ log
  once : Once log

theorem remembered_empty : Remembered {} [] where
  ids := by simp
  missing := by simp
  once := .nil

variable {cache : ZoneCache} {log : Lookups} {zone : Bytes}

/-- What the cache does not know was not answered. -/
theorem Remembered.unanswered (held : Remembered cache log) (unknown : cache.ids.lookup zone = none)
    (untold : zone ∉ cache.missing) : ∀ answer, (zone, .ok answer) ∉ log := by
  intro answer given
  cases answer with
  | none => exact untold ((held.missing zone).mpr given)
  | some id =>
    have known := (held.ids zone id).mpr given
    rw [unknown] at known
    cases known

/-- A zone that was not answered may be looked up. -/
theorem Once.asked (once : Once log) (unanswered : ∀ answer, (zone, .ok answer) ∉ log)
    (report : Report) :
    Once (log ++ [(zone, report)]) := by
  refine pairwise_append.mpr ⟨once, pairwise_singleton _ _, ?_⟩
  rintro ⟨earlier, told⟩ member _ last same
  rw [mem_singleton.mp last] at same
  cases told with
  | error err => exact ⟨err, rfl⟩
  | ok answer =>
    rw [show earlier = zone from same] at member
    exact absurd member (unanswered answer)

theorem Remembered.failed (held : Remembered cache log)
    (unanswered : ∀ answer, (zone, .ok answer) ∉ log) (err : String) :
    Remembered cache (log ++ [(zone, .error err)]) where
  ids := by simp [held.ids]
  missing := by simp [held.missing]
  once := held.once.asked unanswered _

theorem Remembered.found (held : Remembered cache log)
    (unanswered : ∀ answer, (zone, .ok answer) ∉ log) (id : Bytes) :
    Remembered { cache with ids := (zone, id) :: cache.ids } (log ++ [(zone, .ok (some id))]) where
  ids other told := by
    rw [lookup_cons, mem_append, mem_singleton, Prod.mk.injEq]
    by_cases same : other = zone
    · subst same
      simp [unanswered, eq_comm]
    · simp [same, held.ids, beq_false_of_ne same]
  missing := by simp [held.missing]
  once := held.once.asked unanswered _

theorem Remembered.absent (held : Remembered cache log)
    (unanswered : ∀ answer, (zone, .ok answer) ∉ log) :
    Remembered { cache with missing := zone :: cache.missing } (log ++ [(zone, .ok none)]) where
  ids := by simp [held.ids]
  missing other := by simp [held.missing, or_comm]
  once := held.once.asked unanswered _

/-! ## What a call ends at -/

/-- What a search among candidates says, given every lookup up to its end and those that it
made itself: candidates are passed over that were answered as missing, until there are
none left, or one was answered with its id, or its lookup fails and the search with it. -/
inductive Verdict (log asked : Lookups) : List Bytes → Except String (Option (Bytes × Bytes)) → Prop
  | exhausted : Verdict log asked [] (.ok none)
  | failed {zone : Bytes} {rest : List Bytes} {err : String}
  (met : asked.getLast? = some (zone, .error err)) :
    Verdict log asked (zone :: rest) (.error err)
  | found {zone id : Bytes} {rest : List Bytes} (given : (zone, .ok (some id)) ∈ log) :
    Verdict log asked (zone :: rest) (.ok (some (id, zone)))
  | passed {zone : Bytes} {rest : List Bytes} {outcome : Except String (Option (Bytes × Bytes))}
    (given : (zone, .ok none) ∈ log) (others : Verdict log asked rest outcome) :
    Verdict log asked (zone :: rest) outcome

variable {asked : Lookups} {candidates : List Bytes}
  {outcome : Except String (Option (Bytes × Bytes))}

/-- A lookup that the search made first does not change what it says. -/
theorem Verdict.preceded (verdict : Verdict log asked candidates outcome) (first : Bytes × Report) :
    Verdict log (first :: asked) candidates outcome := by
  induction verdict with
  | exhausted => exact .exhausted
  | failed met =>
    refine .failed ?_
    rw [getLast?_cons, met]
    rfl
  | found given => exact .found given
  | passed given _ others => exact .passed given others

section Runs

variable {σ : Type} {lookup : σ → Bytes → Report × σ} {initial : σ}

/-- One call's search: it remembers what it is answered, and its verdict is on the answers
that were given by its end.

Proof: a candidate that is remembered was answered, so it is found or passed over without
a lookup. Any other was not, so its lookup is no repetition, and what is remembered then
is what was answered again. -/
theorem findIn_verdict (candidates : List Bytes) {cache : ZoneCache} {s : σ × Lookups}
    (held : Remembered cache s.2) (reached : Reached lookup initial s) :
    ∃ asked, (findIn (noting lookup) candidates cache s).2.2.2 = s.2 ++ asked ∧
      Remembered (findIn (noting lookup) candidates cache s).2.1 (s.2 ++ asked) ∧
      Reached lookup initial (findIn (noting lookup) candidates cache s).2.2 ∧
      Verdict (s.2 ++ asked) asked candidates (findIn (noting lookup) candidates cache s).1 := by
  induction candidates generalizing cache s with
  | nil =>
    rw [findIn]
    exact ⟨[], (append_nil _).symm, by simpa using held, reached, .exhausted⟩
  | cons zone rest ih =>
    unfold findIn
    split
    · next id known =>
      refine ⟨[], (append_nil _).symm, by simpa using held, reached, .found ?_⟩
      rw [append_nil]
      exact (held.ids zone id).mp known
    · next unknown =>
      split
      · next told =>
        obtain ⟨asked, log, kept, after, verdict⟩ := ih held reached
        have given := (held.missing zone).mp (contains_iff_mem.mp told)
        exact ⟨asked, log, kept, after, .passed (mem_append_left _ given) verdict⟩
      · next untold =>
        have unanswered := held.unanswered unknown fun told => untold (contains_iff_mem.mpr told)
        have onward := reached.asked zone
        unfold noting at onward ⊢
        cases report : (lookup s.1 zone).1 with
        | error err =>
          simp only [report] at onward ⊢
          exact ⟨[(zone, .error err)], rfl, held.failed unanswered err, onward, .failed rfl⟩
        | ok answer =>
          cases answer with
          | some id =>
            simp only [report] at onward ⊢
            exact ⟨[(zone, .ok (some id))], rfl, held.found unanswered id, onward, .found (by simp)⟩
          | none =>
            simp only [report] at onward ⊢
            obtain ⟨asked, log, kept, after, verdict⟩ := ih (held.absent unanswered) onward
            have joined : s.2 ++ [(zone, .ok none)] ++ asked = s.2 ++ (zone, .ok none) ::
                asked := by simp
            rw [joined] at log kept verdict
            exact ⟨(zone, .ok none) :: asked, log, kept, after,
              .passed (by simp) (verdict.preceded _)⟩

theorem Steady.answer (steady : Steady lookup initial) {s after : σ} {later : Lookups}
    {given answer : Option Bytes} (reached : Reached lookup initial (s, later))
    (told : (zone, .ok given) ∈ later) (answered : lookup s zone = (.ok answer, after)) :
    answer = given :=
  steady _ reached zone given answer told (congrArg Prod.fst answered)

/-- A search without a cache, once the answers are given, says the same unless a lookup fails. -/
theorem Verdict.uncached (steady : Steady lookup initial)
    (verdict : Verdict log asked candidates outcome) {s : σ} {later : Lookups}
    (reached : Reached lookup initial (s, later)) (grown : log ⊆ later) :
    (∃ err, outcome = .error err) ∨ (∃ err, (search lookup candidates s).1 = .error err) ∨
      (search lookup candidates s).1 = outcome := by
  induction verdict generalizing s later with
  | exhausted => exact .inr (.inr rfl)
  | failed => exact .inl ⟨_, rfl⟩
  | found given =>
    unfold search
    split
    · exact .inr (.inl ⟨_, rfl⟩)
    · next answered =>
      cases steady.answer reached (grown given) answered
      exact .inr (.inr rfl)
    · next answered => cases steady.answer reached (grown given) answered
  | @passed zone _ _ given _ others =>
    unfold search
    split
    · exact .inr (.inl ⟨_, rfl⟩)
    · next answered => cases steady.answer reached (grown given) answered
    · next answered =>
      have onward := reached.asked zone
      unfold noting at onward
      rw [answered] at onward
      exact others onward fun entry member => mem_append_left _ (grown member)

/-- A verdict is on the candidate after those that were passed over, if there is one. -/
theorem Verdict.split (verdict : Verdict log asked candidates outcome) :
    ∃ longer shorter, candidates = longer ++ shorter ∧ (∀ c ∈ longer, (c, .ok none) ∈ log) ∧
      ((shorter = [] ∧ outcome = .ok none) ∨ ∃ zone rest, shorter = zone :: rest ∧
        ((∃ id, outcome = .ok (some (id, zone)) ∧ (zone, .ok (some id)) ∈ log) ∨
          ∃ err, outcome = .error err ∧ asked.getLast? = some (zone, .error err))) := by
  induction verdict with
  | exhausted => exact ⟨[], [], rfl, forall_mem_nil _, .inl ⟨rfl, rfl⟩⟩
  | failed met => exact ⟨[], _, rfl, forall_mem_nil _, .inr ⟨_, _, rfl, .inr ⟨_, rfl, met⟩⟩⟩
  | found given => exact ⟨[], _, rfl, forall_mem_nil _, .inr ⟨_, _, rfl, .inl ⟨_, rfl, given⟩⟩⟩
  | passed given _ others =>
    obtain ⟨longer, shorter, rfl, missing, ends⟩ := others
    exact ⟨_ :: longer, shorter, rfl, forall_mem_cons.mpr ⟨given, missing⟩, ends⟩

/-! ## Calls one after another -/

/-- What one call of `find` returned, given the lookups that were made before it and those
that it made: it is what a search without a cache returns, and no lookup is repeated. -/
structure Transparent (lookup : σ → Bytes → Report × σ) (initial : σ) (lower : Lower) (cfg : Config)
    (name : Bytes) (earlier asked : Lookups) (result : Except ZoneErr (Bytes × Bytes)) : Prop where
  /-- A zone that is returned is the first candidate that is found, with its id. -/
  found : ∀ id zone, result = .ok (id, zone) → ∃ longer shorter,
    zoneCandidates lower cfg name = longer ++ zone :: shorter ∧
      (∀ c ∈ longer, (c, .ok none) ∈ earlier ++ asked) ∧ (zone, .ok (some id)) ∈ earlier ++ asked
  /-- The call's own last lookup failed before any candidate was found, or none was found. -/
  failed : ∀ err, result = .error err →
    (∃ text longer zone shorter, err = .lookup text ∧
      zoneCandidates lower cfg name = longer ++ zone :: shorter ∧
      (∀ c ∈ longer, (c, .ok none) ∈ earlier ++ asked) ∧
      asked.getLast? = some (zone, .error text)) ∨
    (err = (if cfg.zone ≠ [] then .notAtProvider cfg.provider cfg.zone else .noZone cfg.provider
      name) ∧
      ∀ c ∈ zoneCandidates lower cfg name, (c, .ok none) ∈ earlier ++ asked)
  /-- A search without a cache, made after the call, returns the same unless one of the two
  met a failure. -/
  uncached : ∀ s later, Reached lookup initial (s, later) → earlier ++ asked ⊆ later →
    (∃ text, result = .error (.lookup text)) ∨
    (∃ text, (search lookup (zoneCandidates lower cfg name) s).1 = .error text) ∨
    conclude cfg name (search lookup (zoneCandidates lower cfg name) s).1 = result
  once : Once (earlier ++ asked)

variable (lookup) in
theorem calls_concat (lower : Lower) (cfg : Config) (initial : σ) (names : List Bytes)
    (name : Bytes) :
    calls lookup lower cfg initial (names ++ [name]) =
      (findIn (noting lookup) (zoneCandidates lower cfg name)
        (calls lookup lower cfg initial names).1 (calls lookup lower cfg initial names).2).2 := by
  rw [calls, foldl_append]
  exact congrArg Prod.snd (find_eq (noting lookup) lower cfg name _ _)

variable (lookup) in
theorem calls_remembered (lower : Lower) (cfg : Config) (initial : σ) (names : List Bytes) :
    Remembered (calls lookup lower cfg initial names).1 (calls lookup lower cfg initial names).2.2 ∧
      Reached lookup initial (calls lookup lower cfg initial names).2 := by
  induction names using List.reverseRecOn with
  | nil => exact ⟨remembered_empty, .start⟩
  | append_singleton names name ih =>
    obtain ⟨asked, log, kept, after, -⟩ := findIn_verdict (zoneCandidates lower cfg name) ih.1 ih.2
    rw [calls_concat, log]
    exact ⟨kept, after⟩

/-- What any call of any sequence of calls of `find` returns, which is the one that follows
some names, and what it looks up. -/
theorem find_transparent {σ : Type} (lookup : σ → Bytes → Report × σ) (initial : σ)
    (steady : Steady lookup initial) (lower : Lower) (cfg : Config) (names : List Bytes)
    (name : Bytes) :
    ∃ asked,
      (calls lookup lower cfg initial (names ++ [name])).2.2 =
        (calls lookup lower cfg initial names).2.2 ++ asked ∧
      Transparent lookup initial lower cfg name (calls lookup lower cfg initial names).2.2 asked
        (find (noting lookup) lower cfg name (calls lookup lower cfg initial names).1
          (calls lookup lower cfg initial names).2).1 := by
  obtain ⟨held, reached⟩ := calls_remembered lookup lower cfg initial names
  obtain ⟨asked, log, kept, -, verdict⟩ :=
    findIn_verdict (zoneCandidates lower cfg name) held reached
  refine ⟨asked, by rw [calls_concat, log], ?_⟩
  rw [find_eq]
  generalize (findIn (noting lookup) (zoneCandidates lower cfg name)
    (calls lookup lower cfg initial names).1
    (calls lookup lower cfg initial names).2).1 = outcome at verdict ⊢
  have uncached : ∀ s later, Reached lookup initial (s, later) →
      (calls lookup lower cfg initial names).2.2 ++ asked ⊆ later →
      (∃ text, conclude cfg name outcome = .error (.lookup text)) ∨
      (∃ text, (search lookup (zoneCandidates lower cfg name) s).1 = .error text) ∨
      conclude cfg name (search lookup (zoneCandidates lower cfg name) s).1 =
        conclude cfg name outcome := by
    intro s later after grown
    rcases verdict.uncached steady after grown with ⟨text, rfl⟩ | failed | same
    · exact .inl ⟨text, rfl⟩
    · exact .inr (.inl failed)
    · exact .inr (.inr (congrArg (conclude cfg name) same))
  obtain ⟨longer, shorter, split, missing, ends⟩ := verdict.split
  refine ⟨fun id zone returned => ?_, fun err returned => ?_, uncached, kept.once⟩
  · rcases ends with ⟨-, rfl⟩ | ⟨zone', rest, rfl, ⟨id', rfl, given⟩ | ⟨text, rfl, -⟩⟩
    · cases returned
    · obtain ⟨rfl, rfl⟩ := Prod.mk.inj (Except.ok.inj returned)
      exact ⟨longer, rest, split, missing, given⟩
    · cases returned
  · rcases ends with ⟨rfl, rfl⟩ | ⟨zone, rest, rfl, ⟨id, rfl, -⟩ | ⟨text, rfl, met⟩⟩
    · rw [append_nil] at split
      exact .inr ⟨(Except.error.inj returned).symm, split ▸ missing⟩
    · cases returned
    · exact .inl ⟨text, longer, zone, rest, (Except.error.inj returned).symm, split, missing, met⟩

/-- Lookups that report the truth or fail are steady. -/
theorem steady_of_truth (truth : Bytes → Option Bytes)
    (honest : ∀ s zone answer, (lookup s zone).1 = .ok answer → answer = truth zone) (initial : σ) :
    Steady lookup initial := by
  have told : ∀ s, Reached lookup initial s → ∀ zone given, (zone, .ok given) ∈ s.2 →
      given = truth zone := by
    intro s reached
    induction reached with
    | start => simp
    | asked before zone ih =>
      intro other given member
      rcases mem_append.mp member with earlier | last
      · exact ih other given earlier
      · obtain ⟨rfl, report⟩ := Prod.mk.inj (mem_singleton.mp last)
        exact honest _ _ given report.symm
  intro s reached zone given answer member answered
  rw [honest s.1 zone answer answered, told s reached zone given member]

end Runs

/-- A provider that holds `example.com`, and whose first lookup times out. -/
def flaky (made : Nat) (zone : Bytes) : Report × Nat :=
  (if made = 0 then .error "timeout"
    else .ok (if zone = bytes "example.com" then some (bytes "Z1") else none), made + 1)

theorem flaky_steady : Steady flaky 0 := by
  refine steady_of_truth (fun zone => if zone =
    bytes "example.com" then some (bytes "Z1") else none) ?_ 0
  intro made zone answer answered
  unfold flaky at answered
  dsimp only at answered
  split at answered
  · cases answered
  · exact (Except.ok.inj answered).symm

/-- The zone of a first name, found at the second attempt, is not looked up for the next. -/
theorem find_transparent_flaky :
    (find (noting flaky) id { provider := "azure" } (bytes "b.c.example.com")
      (calls flaky id { provider := "azure" } 0 [bytes "a.example.com", bytes "a.example.com"]).1
      (calls flaky id { provider := "azure" } 0
        [bytes "a.example.com", bytes "a.example.com"]).2).1 =
        .ok (bytes "Z1", bytes "example.com") ∧
    (calls flaky id { provider := "azure" } 0
      ([bytes "a.example.com", bytes "a.example.com"] ++ [bytes "b.c.example.com"])).2.2 =
        [(bytes "example.com", .error "timeout"), (bytes "example.com", .ok (some (bytes "Z1"))),
          (bytes "c.example.com", .ok none)] ∧
    ∃ asked, Transparent flaky 0 id { provider := "azure" } (bytes "b.c.example.com")
      (calls flaky id { provider := "azure" } 0 [bytes "a.example.com", bytes "a.example.com"]).2.2
        asked
      (find (noting flaky) id { provider := "azure" } (bytes "b.c.example.com")
        (calls flaky id { provider := "azure" } 0 [bytes "a.example.com", bytes "a.example.com"]).1
        (calls flaky id { provider := "azure" } 0
          [bytes "a.example.com", bytes "a.example.com"]).2).1 := by
  refine ⟨rfl, rfl, ?_⟩
  obtain ⟨asked, -, transparent⟩ := find_transparent flaky 0 flaky_steady id { provider := "azure" }
    [bytes "a.example.com", bytes "a.example.com"] (bytes "b.c.example.com")
  exact ⟨asked, transparent⟩

end TrustedCourier.Dns
