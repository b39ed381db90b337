import Mathlib.Logic.Basic

/-!
# Programs that call on their surroundings

A program either ends with a result or makes a call and goes on with what is replied. The
surroundings are a world: from each of its states, the replies a call may get and the state
after it. A program that is written once can so be put into different worlds: one that only
records what is said, or one that keeps files and tables.

A program may be cut short at any call, as when its process is killed. The weakest
precondition `wp` speaks of both: of the result and the world at the end of a run, and of an
invariant of the world at every moment before that. It is computed along the program, so
that a specification of a part is all that is needed where the part is used.
-/

namespace TrustedCourier.Dialogues

universe u v w x

/-- A program with calls, whose replies have types that depend on the call. -/
inductive Program (Call : Type u) (Reply : Call → Type v) (α : Type w) : Type (max u v w) where
  | done (result : α)
  | ask (call : Call) (next : Reply call → Program Call Reply α)

/-- A call and what was replied. -/
structure Exchange (Call : Type u) (Reply : Call → Type v) where
  call : Call
  reply : Reply call

/-- What a call may get in a state, and the state after it. -/
def World (Call : Type u) (Reply : Call → Type v) (σ : Type x) :=
  σ → (call : Call) → Reply call → σ → Prop

variable {Call : Type u} {Reply : Call → Type v} {α β : Type w} {σ : Type x}

namespace Program

/-- One program after another. -/
protected def bind : Program Call Reply α → (α → Program Call Reply β) → Program Call Reply β
  | .done result, rest => rest result
  | .ask call next, rest => .ask call fun reply => (next reply).bind rest

instance : Monad (Program Call Reply) where
  pure := .done
  bind := Program.bind

/-- One call. -/
def call (c : Call) : Program Call Reply (Reply c) := .ask c .done

/-- Run a program in surroundings that are given as a function. -/
def play (answer : (c : Call) → σ → Reply c × σ) : Program Call Reply α → σ → α × σ
  | .done result, s => (result, s)
  | .ask c next, s => (next (answer c s).1).play answer (answer c s).2

end Program

open Program

/-! ## Runs -/

section Runs

variable (world : World Call Reply σ)

/-- The program runs from a state to its result and the state then. -/
inductive Run : σ → Program Call Reply α → α → σ → Prop
  | done (s : σ) (result : α) : Run s (.done result) result s
  | ask {s mid t : σ} {call : Call} {reply : Reply call} {next : Reply call → Program Call Reply α}
    {result : α} (answered : world s call reply mid) (rest : Run mid (next reply) result t) :
    Run s (.ask call next) result t

/-- The program has come this far: it stands before a call, or at its end. -/
inductive Cut : σ → Program Call Reply α → σ → Prop
  | here (s : σ) (program : Program Call Reply α) : Cut s program s
  | ask {s mid t : σ} {call : Call} {reply : Reply call} {next : Reply call → Program Call Reply α}
    (answered : world s call reply mid) (rest : Cut mid (next reply) t) : Cut s (.ask call next) t

/-- The weakest precondition: the invariant holds as long as the program runs, and what is
asked of its result holds when it ends. -/
def wp (invariant : σ → Prop) : Program Call Reply α → (α → σ → Prop) → σ → Prop
  | .done result, post, s => invariant s ∧ post result s
  | .ask call next, post, s =>
    invariant s ∧ ∀ reply t, world s call reply t → wp invariant (next reply) post t

variable {world} {invariant : σ → Prop} {s t : σ} {program : Program Call Reply α}
  {post : α → σ → Prop}

section

variable (known : wp world invariant program post s)
include known

/-- Every run ends as promised. -/
theorem wp_run {result : α}
    (run : Run world s program result t) : post result t := by
  induction run with
  | done s result => exact known.2
  | ask answered rest ih => exact ih (known.2 _ _ answered)

/-- The invariant holds wherever a run is cut off. -/
theorem wp_cut
    (cut : Cut world s program t) : invariant t := by
  induction cut with
  | here s program => cases program <;> exact known.1
  | ask answered rest ih => exact ih (known.2 _ _ answered)

/-- The invariant holds at the start. -/
theorem wp_now : invariant s := by
  cases program <;> exact known.1

end

/-- Answers that the world allows give a run. -/
theorem run_play {answer : (c : Call) → σ → Reply c × σ}
    (allowed : ∀ c s, world s c (answer c s).1 (answer c s).2) (program : Program Call Reply α)
    (s : σ) :
    Run world s program (program.play answer s).1 (program.play answer s).2 := by
  induction program generalizing s with
  | done result => exact .done s result
  | ask c next ih => exact .ask (allowed c s) (ih _ _)

/-! ## Rules -/

/-- Less can be promised of the end. -/
theorem wp_mono {post' : α → σ → Prop}
    (known : wp world invariant program post s)
    (weaker : ∀ result t, invariant t → post result t → post' result t) :
    wp world invariant program post' s := by
  induction program generalizing s with
  | done result => exact ⟨known.1, weaker result s known.1 known.2⟩
  | ask c next ih => exact ⟨known.1, fun reply t answered => ih reply (known.2 reply t answered)⟩

/-- Less can be promised on the way. -/
theorem wp_weaken {weaker : σ → Prop}
    (known : wp world invariant program post s) (implied : ∀ t, invariant t → weaker t) :
    wp world weaker program post s := by
  induction program generalizing s with
  | done result => exact ⟨implied s known.1, known.2⟩
  | ask c next ih =>
    exact ⟨implied s known.1, fun reply t answered => ih reply (known.2 reply t answered)⟩

/-- One call. -/
@[simp] theorem wp_call {c : Call} {post : Reply c → σ → Prop} :
    wp world invariant (Program.call c) post s ↔
    invariant s ∧ ∀ reply t, world s c reply t → invariant t ∧ post reply t := Iff.rfl

/-- One program after another. -/
@[simp] theorem wp_bind {rest : α → Program Call Reply β} {post : β → σ → Prop} :
    wp world invariant (program >>= rest) post s ↔
      wp world invariant program (fun result => wp world invariant (rest result) post) s := by
  induction program generalizing s with
  | done result => exact ⟨fun known => ⟨wp_now known, known⟩, And.right⟩
  | ask c next ih =>
    constructor
    · exact fun known => ⟨known.1, fun reply t answered => (ih reply).mp (known.2 reply t answered)⟩
    · exact fun known =>
        ⟨known.1, fun reply t answered => (ih reply).mpr (known.2 reply t answered)⟩

end Runs

/-! ## Programs that may fail -/

section Failures

variable {ε : Type w}

/-- What is asked of a success, beside what is asked of a failure. -/
def onOk (success : α → σ → Prop) (failure : ε → σ → Prop) : Except ε α → σ → Prop
  | .ok value => success value
  | .error err => failure err

@[simp] theorem onOk_ok {success : α → σ → Prop} {failure : ε → σ → Prop} {value : α} {s : σ} :
    onOk success failure (.ok value) s ↔ success value s := Iff.rfl

/-- Do something when the body is over, however it ended. -/
def deferring {δ : Type w} (body : ExceptT ε (Program Call Reply) α) (last : Program Call Reply δ) :
    ExceptT ε (Program Call Reply) α :=
  ExceptT.mk (body.run >>= fun ended => last >>= fun _ => pure ended)

variable {world : World Call Reply σ} {invariant : σ → Prop} {s : σ}
  {body : ExceptT ε (Program Call Reply) α}

/-- What is deferred comes after either end. -/
theorem wp_deferring {δ : Type w} {last : Program Call Reply δ}
    {post : Except ε α → σ → Prop} : wp world invariant (deferring body last).run post s ↔
      wp world invariant body.run (fun ended => wp world invariant last fun _ => post ended) s := by
  have unfolded : (deferring body last).run =
      (body.run >>= fun ended => last >>= fun _ => pure ended) := rfl
  have ends : ∀ ended t, wp world invariant (last >>= fun _ => pure ended) post t ↔
      wp world invariant last (fun _ => post ended) t := by
    intro ended t
    rw [wp_bind]
    exact ⟨fun known => wp_mono known fun _ _ _ holds => holds.2,
      fun known => wp_mono known fun _ _ now holds => ⟨now, holds⟩⟩
  rw [unfolded, wp_bind]
  exact ⟨fun known => wp_mono known fun ended t _ => (ends ended t).mp,
    fun known => wp_mono known fun ended t _ => (ends ended t).mpr⟩

variable {rest : α → ExceptT ε (Program Call Reply) β}

/-- A failure ends the program; only after a success does it go on. -/
theorem wp_exceptBind
    {post : Except ε β → σ → Prop} : wp world invariant (body >>= rest).run post s ↔
      wp world invariant body.run
        (onOk (fun value => wp world invariant (rest value).run post) fun err => post (.error err))
          s := by
  rw [ExceptT.run_bind, wp_bind]
  constructor
  · intro known
    refine wp_mono known fun ended t _ holds => ?_
    cases ended with
    | ok value => exact holds
    | error err => exact holds.2
  · intro known
    refine wp_mono known fun ended t now holds => ?_
    cases ended with
    | ok value => exact holds
    | error err => exact ⟨now, holds⟩

/-- A call, or another part that cannot fail. -/
theorem wp_lift {body : Program Call Reply α} {post : Except ε α → σ → Prop} :
    wp world invariant (ExceptT.lift body : ExceptT ε (Program Call Reply) α).run post s ↔
      wp world invariant body (fun value => post (.ok value)) s := by
  have unfolded : (ExceptT.lift body : ExceptT ε (Program Call Reply) α).run =
      body >>= fun value => pure (Except.ok value) := rfl
  rw [unfolded, wp_bind]
  exact ⟨fun known => wp_mono known fun _ _ _ holds => holds.2,
    fun known => wp_mono known fun _ _ now holds => ⟨now, holds⟩⟩

/-- Of a part that may end anyhow, only what follows its success counts. -/
theorem wp_whatever
    {success : β → σ → Prop}
    (went : ∀ value t, wp world (fun _ => True) (rest value).run (onOk success fun _ _ => True) t) :
    wp world (fun _ => True) (body >>= rest).run (onOk success fun _ _ => True) s := by
  have any : ∀ (program : Program Call Reply (Except ε α)) (s : σ), wp world (fun _ => True) program
      (fun _ _ => True) s := by
    intro program
    induction program with
    | done result => exact fun _ => ⟨trivial, trivial⟩
    | ask c next ih => exact fun _ => ⟨trivial, fun reply t _ => ih reply t⟩
  rw [wp_exceptBind]
  refine wp_mono (any _ s) fun ended t _ _ => ?_
  cases ended with
  | ok value => exact went value t
  | error err => trivial

end Failures

/-! ## What is said -/

section Recorded

/-- The world that replies anything and records it. -/
def recorded : World Call Reply (List (Exchange Call Reply)) :=
  fun before call reply after => after = before ++ [⟨call, reply⟩]

/-- Each call is replied the same whenever it is made, and recorded. -/
def replying (reply : (c : Call) → Reply c) (c : Call) (history : List (Exchange Call Reply)) :
    Reply c × List (Exchange Call Reply) :=
  (reply c, history ++ [⟨c, reply c⟩])

/-- A play against fixed replies is a run. -/
theorem run_replying (reply : (c : Call) → Reply c) (program : Program Call Reply α)
    (history : List (Exchange Call Reply)) :
    Run recorded history program (program.play (replying reply) history).1
      (program.play (replying reply) history).2 :=
  run_play (fun _ _ => rfl) program history

/-- The program makes only such calls, whatever is replied. -/
def Only (allowed : Call → Prop) : Program Call Reply α → Prop
  | .done _ => True
  | .ask call next => allowed call ∧ ∀ reply, Only allowed (next reply)

variable {allowed : Call → Prop}

/-- A call that is allowed. -/
theorem only_call {c : Call} (fine : allowed c) :
    Only allowed (Program.call c : Program Call Reply (Reply c)) :=
  ⟨fine, fun _ => trivial⟩

/-- One program after another. -/
theorem only_bind {program : Program Call Reply α} {rest : α → Program Call Reply β}
    (first : Only allowed program) (next : ∀ value, Only allowed (rest value)) :
    Only allowed (program >>= rest) := by
  induction program with
  | done result => exact next result
  | ask c more ih => exact ⟨first.1, fun reply => ih reply (first.2 reply)⟩

/-- More may be allowed. -/
theorem Only.mono {other : Call → Prop} {program : Program Call Reply α}
    (only : Only allowed program) (implied : ∀ c, allowed c → other c) : Only other program := by
  induction program with
  | done result => trivial
  | ask c next ih => exact ⟨implied c only.1, fun reply => ih reply (only.2 reply)⟩

theorem only_ite {condition : Prop} [Decidable condition] {first second : Program Call Reply α}
    (yes : Only allowed first) (no : Only allowed second) :
    Only allowed (if condition then first else second) := by
  split
  · exact yes
  · exact no

theorem only_lift {ε : Type w} {program : Program Call Reply α} (first : Only allowed program) :
    Only allowed (ExceptT.lift program : ExceptT ε (Program Call Reply) α).run :=
  only_bind first fun _ => trivial

/-- One fallible program after another. -/
theorem only_exceptBind {ε : Type w} {body : ExceptT ε (Program Call Reply) α}
    {rest : α → ExceptT ε (Program Call Reply) β} (first : Only allowed body.run)
    (next : ∀ value, Only allowed (rest value).run) : Only allowed (body >>= rest).run := by
  rw [ExceptT.run_bind]
  refine only_bind first fun ended => ?_
  cases ended with
  | ok value => exact next value
  | error err => trivial

/-- A program, then what is deferred. -/
theorem only_deferring {ε δ : Type w} {body : ExceptT ε (Program Call Reply) α}
    {last : Program Call Reply δ} (first : Only allowed body.run) (then' : Only allowed last) :
    Only allowed (deferring body last).run :=
  only_bind first fun _ => only_bind then' fun _ => trivial

/-- What such calls keep, the program keeps. -/
theorem wp_keeps {world : World Call Reply σ} {I : σ → Prop} {program : Program Call Reply α}
    {s : σ} (only : Only allowed program)
    (kept : ∀ s c reply t, I s → allowed c → world s c reply t → I t) (holds : I s) :
    wp world I program (fun _ => I) s := by
  induction program generalizing s with
  | done result => exact ⟨holds, holds⟩
  | ask c next ih =>
    exact ⟨holds, fun reply t answered => ih reply (only.2 reply)
      (kept s c reply t holds only.1 answered)⟩

variable {history : List (Exchange Call Reply)}

@[simp] theorem wp_call_recorded {c : Call} {post : Reply c → List (Exchange Call Reply) → Prop} :
    wp recorded (fun _ => True) (Program.call c) post history ↔
    ∀ reply, post reply (history ++ [⟨c, reply⟩]) := by
  simp only [wp_call, true_and]
  exact ⟨fun known reply => known reply _ rfl, fun known reply after said => said ▸ known reply⟩

end Recorded

/-! ## Starting again -/

section Sessions

variable {ι : Type x} (world : World Call Reply σ) (programs : ι → Program Call Reply α)

/-- One of the programs is started after another. Each of them comes to its end or is cut
short anywhere. -/
inductive Sessions : σ → σ → Prop
  | none (s : σ) : Sessions s s
  | again {s mid t : σ} {i : ι} (before : Sessions s mid) (cut : Cut world mid (programs i) t) :
  Sessions s t

variable {world programs}

/-- What every program keeps at every moment holds at every moment of every session. -/
theorem Sessions.invariant {I : σ → Prop}
    (kept : ∀ i s, I s → wp world I (programs i) (fun _ _ => True) s) {s t : σ}
    (sessions : Sessions world programs s t) (holds : I s) : I t := by
  induction sessions with
  | none => exact holds
  | again before cut ih => exact wp_cut (kept _ _ ih) cut

end Sessions

end TrustedCourier.Dialogues
