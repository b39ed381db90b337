import TrustedCourier.Checks
import TrustedCourier.FilePaths
import TrustedCourier.Shell
import TrustedCourier.TcExecFifo

/-!
# The commands that the hooks put in place

Before the agent's shell runs a command, a hook hands the command to the broker and puts
another in its place, which fetches the broker's reply. It is a line for a shell and holds
the path of a program, a path or a reference as JSON, and the identifier of a job, each
quoted by `shellQuote`: in single quotes, and a quote of its own outside them and after a
backslash. A shell reads each as one word, all of it quoted, whose text is what was quoted.
So the line is the one command that it is meant to be, whatever these texts hold.
-/

namespace TrustedCourier.HookCommands

open Checks Shell TcExec List

/-! ## The hooks -/

/-- How one byte stands between single quotes: a quote ends them, stands after a backslash and
begins them again. -/
def escapeQuote (c : UInt8) : Bytes := if c = 0x27 then bytes "'\\''" else [c]

/-- `shellQuote` of either hook. -/
def shellQuote (s : Bytes) : Bytes := 0x27 :: (s.flatMap escapeQuote ++ [0x27])

/-- The command of tc-exec's hook: with the reference to a mailbox, if the broker made one, or
with the path of the configuration. -/
def execCommand (exe config : Bytes) (mailbox : Option Bytes) (job : Bytes) : Bytes :=
  match mailbox with
  | none => shellQuote exe ++ bytes " dispatch --config " ++ shellQuote config ++ bytes " --job " ++
      shellQuote job
  | some ref => shellQuote exe ++ bytes " dispatch --mailbox " ++ shellQuote ref ++
      bytes " --job " ++ shellQuote job

/-- The command of tc-claude-hook. -/
def claudeCommand (bin profile job : Bytes) : Bytes :=
  shellQuote bin ++ bytes " dispatch --config " ++ shellQuote profile ++ bytes " --job " ++
    shellQuote job

/-- `hook` of tc-exec once it has called the broker, up to the command that it puts in place. -/
def hook (config : Bytes) (called : Except Bytes Reply) (executable : Except Bytes Bytes) :
    Except Bytes Bytes := do
  let r ← called
  refuse (r.error ≠ []) r.error
  let exe ← executable
  pure (execCommand exe config (r.mailbox.map MailboxRef.marshal) r.job)

/-- `run` of tc-claude-hook once it has read its input, up to the command that it puts in
place. `socketOf` is the socket that a profile names, if it is one, and `submitJob` the
broker's answer at a socket. -/
def claudeHook (getenv : Bytes → Bytes) (readFile : Bytes → Except Bytes Bytes)
    (socketOf : Bytes → Option Bytes) (submitJob : Bytes → Except Bytes Bytes) :
    Except Bytes Bytes := do
  let profile := getenv (bytes "TC_EXEC_CONFIG")
  refuse (!FilePaths.isAbs profile)
    (bytes "TC_EXEC_CONFIG must be an absolute path in a protected launch")
  let bin := if getenv (bytes "TC_EXEC_BINARY") = [] then bytes "tc-exec"
    else getenv (bytes "TC_EXEC_BINARY")
  refuse (!FilePaths.isAbs bin)
    (bytes "TC_EXEC_BINARY must be an absolute path in a protected launch")
  let data ← (readFile profile).mapError (bytes "read execution profile: " ++ ·)
  let socket ← need ((socketOf data).filter FilePaths.isAbs)
    (bytes "execution profile has no absolute socket path")
  let job ← (submitJob socket).mapError (bytes "submit confined job: " ++ ·)
  refuse (job = [] ∨ job.any (bytes "\r\n\x00").contains)
    (bytes "broker returned invalid job identifier")
  pure (claudeCommand bin profile job)

/-! ## What a shell reads -/

/-- Within single quotes, what `shellQuote` wrote for a text is read up to the quote that ends
it, as quoted parts whose text goes on by that text.

Proof: by induction on the text. A quote of its own ends the quoted text that was read so
far, is quoted by its backslash, and the next text begins empty; any other byte goes on. -/
theorem run_escapeQuote {s : Bytes} (clean : 0 ∉ s) (text : Bytes) :
    ∃ more, (∀ tokens parts, run ⟨tokens, .single parts text⟩ (s.flatMap escapeQuote ++ [0x27]) =
        .ok ⟨tokens, .word (parts ++ more)⟩) ∧ Quoted more ∧ removeQuotes more = text ++ s := by
  induction s generalizing text with
  | nil =>
    exact ⟨[.quoted text], fun _ _ => rfl,
      ⟨by simp, by simp [Part.bareByte]⟩, by simp [removeQuotes, Part.text]⟩
  | cons c rest ih =>
    obtain ⟨nonzero, later⟩ := ne_and_not_mem_of_not_mem_cons clean
    rw [flatMap_cons, append_assoc]
    by_cases quote : c = 0x27
    · subst quote
      obtain ⟨more, read, quoted, kept⟩ := ih later []
      refine ⟨.quoted text :: .quoted [0x27] :: more, fun tokens parts => ?_, ⟨by simp, ?_⟩, ?_⟩
      · have reopened : run ⟨tokens, .single parts text⟩ (escapeQuote 0x27) =
            .ok ⟨tokens, .single (parts ++ [.quoted text] ++ [.quoted [0x27]]) []⟩ := rfl
        have onward := read tokens (parts ++ [.quoted text] ++ [.quoted [0x27]])
        have joined : parts ++ [.quoted text] ++ [.quoted [0x27]] ++ more =
            parts ++ .quoted text :: .quoted [0x27] :: more := by simp
        rw [joined] at onward
        rw [run_append, reopened]
        exact onward
      · exact forall_mem_cons.mpr ⟨rfl, forall_mem_cons.mpr ⟨rfl, quoted.2⟩⟩
      · change text ++ ([0x27] ++ removeQuotes more) = text ++ 0x27 :: rest
        rw [kept]
        rfl
    · obtain ⟨more, read, quoted, kept⟩ := ih later (text ++ [c])
      refine ⟨more, fun tokens parts => ?_, quoted, by rw [kept, append_assoc, singleton_append]⟩
      have stepped : step ⟨tokens, .single parts text⟩ c =
          .ok ⟨tokens, .single parts (text ++ [c])⟩ := by
        rw [step, if_neg (Ne.symm nonzero)]
        simp only [if_neg quote]
      rw [escapeQuote, if_neg quote, singleton_append, run_cons, stepped]
      exact read tokens parts

/-- What is quoted reads as one word, all of it quoted. -/
theorem reads_shellQuote {s : Bytes} (clean : 0 ∉ s) :
    ∃ parts, Reads (shellQuote s) parts ∧ Quoted parts ∧ removeQuotes parts = s := by
  obtain ⟨parts, read, quoted, kept⟩ := run_escapeQuote clean []
  exact ⟨parts, fun tokens => read tokens [], quoted, kept⟩

/-- The words of the commands that are not quoted. -/
theorem reads_unquoted : ∀ text ∈ ["dispatch", "--config", "--mailbox", "--job"].map bytes,
    Reads text (text.map .bare) ∧ expands (text.map .bare) = false := by
  have plain : ∀ text ∈ ["dispatch", "--config", "--mailbox", "--job"].map bytes,
      text ≠ [] ∧ (∀ c ∈ text, isPlain c = true) ∧ text.head? ≠ some 0x23 ∧
      expands (text.map .bare) = false := by
    decide +kernel
  intro text member
  obtain ⟨nonempty, bytewise, wordly, kept⟩ := plain text member
  exact ⟨reads_plain nonempty bytewise wordly, kept⟩

/-- The words of a command that dispatches a job are read as they are meant. -/
theorem simpleCommand_dispatch (aliases : List Bytes) {flag exe value job : Bytes}
    (known : flag ∈ ["--config", "--mailbox"].map bytes) (cleanExe : 0 ∉ exe)
    (cleanValue : 0 ∉ value) (cleanJob : 0 ∉ job) :
    simpleCommand aliases
        ([0x20].intercalate [shellQuote exe, bytes "dispatch", flag, shellQuote value,
          bytes "--job", shellQuote job]) =
      some [exe, bytes "dispatch", flag, value, bytes "--job", job] := by
  obtain ⟨exeParts, exeReads, exeQuoted, exeText⟩ := reads_shellQuote cleanExe
  obtain ⟨valueParts, valueReads, valueQuoted, valueText⟩ := reads_shellQuote cleanValue
  obtain ⟨jobParts, jobReads, jobQuoted, jobText⟩ := reads_shellQuote cleanJob
  obtain ⟨dispatchReads, dispatchKept⟩ := reads_unquoted (bytes "dispatch") (by decide)
  have listed : ∀ flag ∈ ["--config", "--mailbox"].map bytes,
      flag ∈ ["dispatch", "--config", "--mailbox", "--job"].map bytes := by decide
  obtain ⟨flagReads, flagKept⟩ := reads_unquoted flag (listed flag known)
  obtain ⟨jobFlagReads, jobFlagKept⟩ := reads_unquoted (bytes "--job") (by decide)
  have read := simpleCommand_words aliases
    [(shellQuote exe, exeParts), (bytes "dispatch", (bytes "dispatch").map .bare),
      (flag, flag.map .bare),
      (shellQuote value, valueParts), (bytes "--job", (bytes "--job").map .bare),
      (shellQuote job, jobParts)]
    (cons_ne_nil _ _) (by
      simp only [forall_mem_cons]
      exact ⟨exeReads, dispatchReads, flagReads, valueReads, jobFlagReads, jobReads, by simp⟩)
  have kept :
    ∀ word ∈ [(bytes "dispatch").map .bare, flag.map .bare, valueParts, (bytes "--job").map .bare,
      jobParts], expands word = false := by
    simp only [forall_mem_cons]
    exact ⟨dispatchKept, flagKept, valueQuoted.expands, jobFlagKept, jobQuoted.expands, by simp⟩
  have given := arguments_quoted aliases exeQuoted kept
  simp only [map_cons, map_nil] at read given
  rw [read, given]
  simp only [removeQuotes_bare, exeText, valueText, jobText]

/-- The texts between what is quoted are the words and the blanks. -/
theorem dispatch_line {lead flag : Bytes} (spaced : lead = bytes " dispatch " ++ flag ++ [0x20])
    (exe value job : Bytes) :
    shellQuote exe ++ lead ++ shellQuote value ++ bytes " --job " ++ shellQuote job =
      [0x20].intercalate [shellQuote exe, bytes "dispatch", flag, shellQuote value, bytes "--job",
        shellQuote job] := by
  have dispatch : bytes " dispatch " = [0x20] ++ bytes "dispatch" ++ [0x20] := by decide
  have jobFlag : bytes " --job " = [0x20] ++ bytes "--job" ++ [0x20] := by decide
  rw [spaced, dispatch, jobFlag]
  simp only [intercalate_cons_cons, intercalate_singleton, append_assoc]

section Commands

variable (aliases : List Bytes) {exe value job : Bytes}
variable (cleanExe : 0 ∉ exe) (cleanValue : 0 ∉ value) (cleanJob : 0 ∉ job)
include cleanExe cleanValue cleanJob

theorem execCommand_config : simpleCommand aliases (execCommand exe value none job) =
    some [exe, bytes "dispatch", bytes "--config", value, bytes "--job", job] := by
  have spaced : bytes " dispatch --config " = bytes " dispatch " ++ bytes "--config" ++
      [0x20] := by decide
  rw [execCommand, dispatch_line spaced]
  exact simpleCommand_dispatch aliases (by decide) cleanExe cleanValue cleanJob

theorem execCommand_mailbox (config : Bytes) :
    simpleCommand aliases (execCommand exe config (some value) job) =
    some [exe, bytes "dispatch", bytes "--mailbox", value, bytes "--job", job] := by
  have spaced : bytes " dispatch --mailbox " = bytes " dispatch " ++ bytes "--mailbox" ++
      [0x20] := by decide
  rw [execCommand, dispatch_line spaced]
  exact simpleCommand_dispatch aliases (by decide) cleanExe cleanValue cleanJob

end Commands

/-- The two hooks write one command. -/
theorem claudeCommand_eq (bin profile job : Bytes) :
    claudeCommand bin profile job = execCommand bin profile none job := rfl

/-- The commands of both hooks, whatever they quote, are one simple command each: the program,
asked to dispatch the job, with the configuration or the mailbox that is given. -/
theorem dispatch_commands_read (aliases : List Bytes) (exe value job : Bytes) (cleanExe : 0 ∉ exe)
    (cleanValue : 0 ∉ value) (cleanJob : 0 ∉ job) :
    simpleCommand aliases (execCommand exe value none job) =
        some [exe, bytes "dispatch", bytes "--config", value, bytes "--job", job] ∧
      (∀ config, simpleCommand aliases (execCommand exe config (some value) job) =
        some [exe, bytes "dispatch", bytes "--mailbox", value, bytes "--job", job]) ∧
      simpleCommand aliases (claudeCommand exe value job) =
        some [exe, bytes "dispatch", bytes "--config", value, bytes "--job", job] := by
  refine ⟨execCommand_config aliases cleanExe cleanValue cleanJob,
    execCommand_mailbox aliases cleanExe cleanValue cleanJob, ?_⟩
  rw [claudeCommand_eq]
  exact execCommand_config aliases cleanExe cleanValue cleanJob

/-- Quotes, a backslash, a newline and what would be further commands. -/
theorem dispatch_commands_read_hostile :
    simpleCommand [bytes "tc-exec"]
        (execCommand (bytes "tc-exec") (bytes "/etc/it's; rm -rf $HOME") none (bytes "a\n\\'#b")) =
      some [bytes "tc-exec", bytes "dispatch", bytes "--config", bytes "/etc/it's; rm -rf $HOME",
        bytes "--job", bytes "a\n\\'#b"] :=
  (dispatch_commands_read [bytes "tc-exec"] (bytes "tc-exec") (bytes "/etc/it's; rm -rf $HOME")
    (bytes "a\n\\'#b") (by decide) (by decide) (by decide)).1

/-! ## What the hooks put in place -/

/-- A reference holds no NUL when it is written. -/
theorem nul_not_mem_marshal (ref : MailboxRef) : 0 ∉ ref.marshal := by
  have number : ∀ n, 0 ∉ Decimal.digits n :=
    fun n member => absurd (Decimal.digits_isDigit n 0 member) (by decide)
  refine JsonDecode.control_not_mem_object (by decide) ?_
  simp only [forall_mem_cons]
  exact ⟨Json.control_not_mem_appendString (by decide) ref.path, number _, number _,
    number _, by simp⟩

/-- What tc-exec's hook puts in place runs the program with the broker's reference to a mailbox,
or with the configuration if there is none, and with the broker's job. -/
theorem hook_reads (aliases : List Bytes) {config command : Bytes} {called : Except Bytes Reply}
    {executable : Except Bytes Bytes} (placed : hook config called executable = .ok command)
    (cleanConfig : 0 ∉ config) (cleanExe : ∀ exe, executable = .ok exe → 0 ∉ exe)
    (cleanJob : ∀ r, called = .ok r → 0 ∉ r.job) :
    ∃ r exe, called = .ok r ∧ executable = .ok exe ∧ simpleCommand aliases command =
      some ([exe, bytes "dispatch"] ++
        r.mailbox.elim [bytes "--config", config] (fun ref => [bytes "--mailbox", ref.marshal]) ++
        [bytes "--job", r.job]) := by
  obtain ⟨r, answered, rest⟩ := bind_ok.mp placed
  obtain ⟨_, -, rest⟩ := bind_ok.mp rest
  obtain ⟨exe, found, same⟩ := bind_ok.mp rest
  refine ⟨r, exe, answered, found, ?_⟩
  rw [← pure_ok.mp same]
  cases r.mailbox with
  | none => exact execCommand_config aliases (cleanExe exe found) cleanConfig (cleanJob r answered)
  | some ref =>
    exact execCommand_mailbox aliases (cleanExe exe found) (nul_not_mem_marshal ref)
      (cleanJob r answered) config

/-- What tc-claude-hook puts in place runs the program at an absolute path with an absolute
configuration, and with a job that the hook has looked at itself. -/
theorem claudeHook_reads (aliases : List Bytes) {getenv : Bytes → Bytes}
    {readFile : Bytes → Except Bytes Bytes} {socketOf : Bytes → Option Bytes}
    {submitJob : Bytes → Except Bytes Bytes} {command : Bytes}
    (placed : claudeHook getenv readFile socketOf submitJob = .ok command)
    (clean : ∀ name, 0 ∉ getenv name) :
    ∃ bin profile job, FilePaths.isAbs bin = true ∧ FilePaths.isAbs profile = true ∧ job ≠ [] ∧
      simpleCommand aliases command =
        some [bin, bytes "dispatch", bytes "--config", profile, bytes "--job", job] := by
  unfold claudeHook at placed
  simp only [bind_ok, refuse_ok, pure_ok, Bool.not_eq_true', Bool.not_eq_false, not_or] at placed
  obtain ⟨_, profileAbs, _, binAbs, data, -, socket, -, job, -, _, ⟨nonempty, plain⟩, rfl⟩ := placed
  have cleanBin : 0 ∉ (if getenv (bytes "TC_EXEC_BINARY") = [] then bytes "tc-exec"
      else getenv (bytes "TC_EXEC_BINARY")) := by
    split
    · decide
    · exact clean _
  have cleanJob : 0 ∉ job := by
    intro nul
    exact plain (any_eq_true.mpr ⟨0, nul, by decide⟩)
  refine ⟨_, _, job, binAbs, profileAbs, nonempty, ?_⟩
  rw [claudeCommand_eq]
  exact execCommand_config aliases cleanBin (clean _) cleanJob

end TrustedCourier.HookCommands
