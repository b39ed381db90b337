import TrustedCourier.Decimal

/-!
# How a POSIX shell reads a command line

A line is taken apart a byte at a time. Blanks, newlines and operators end a word unless a
backslash, single quotes or double quotes keep them in it, and `#` where a word might begin
starts a comment. What quoting does is done at once: a word is kept as the characters that
no quoting covers and the texts that some quoting keeps as they are, without the quotes,
and a backslash before a newline joins two lines. Where `$` or a backquote has its own
meaning, the extent of what it begins is decided by the rules of expansion, and reading
stops there.

A simple command is a line of words alone. Its first word is neither reserved nor an
assignment nor an alias, and no word of it expands to anything but itself; its arguments
are then the words without their quotes.
-/

namespace TrustedCourier.Shell

open List

/-- A part of a word: a character that no quoting covers, or a text that is quoted. -/
inductive Part where
  | bare (c : UInt8)
  | quoted (text : Bytes)
  deriving DecidableEq

/-- A token of the command line. -/
inductive Token where
  | word (parts : List Part)
  | operator (text : Bytes)
  | newline
  | comment
  deriving DecidableEq

/-- Why a line is not taken apart: it holds a NUL, which no line does; it holds an
expansion; or it ends before a quote does. -/
inductive Refusal where
  | nul
  | expansion
  | unterminated
  deriving DecidableEq

/-- What is being read: nothing, an operator so far, a word so far, a text within quotes of
a word so far, a comment, or what a backslash may change, with what was read before it. -/
inductive Mode where
  | gap
  | operator (text : Bytes)
  | word (parts : List Part)
  | single (parts : List Part) (text : Bytes)
  | double (parts : List Part) (text : Bytes)
  | doubleBackslash (parts : List Part) (text : Bytes)
  | comment
  | backslash (before : Mode)

/-- The tokens that have ended, and what is being read. -/
structure State where
  tokens : List Token
  mode : Mode

/-! ## Tokens -/

/-- The operators, of which a longer one is preferred. -/
def operators : List Bytes :=
  ["&", "|", ";", "<", ">", "(", ")", "&&", "||", ";;", ";&", "<<", ">>", "<&", ">&", "<>", "<<-",
    ">|"].map bytes

/-- The tokens, with the one that ends here. -/
def State.ended (s : State) : List Token :=
  match s.mode with
  | .word parts => s.tokens ++ [.word parts]
  | .operator text => s.tokens ++ [.operator text]
  | _ => s.tokens

/-- The tokens before the word that goes on or begins here, and what there is of it. -/
def State.begun (s : State) : List Token × List Part :=
  match s.mode with
  | .word parts => (s.tokens, parts)
  | _ => (s.ended, [])

/-- The word goes on by a part, or begins with it. -/
def State.extended (s : State) (part : Part) : State := ⟨s.begun.1, .word (s.begun.2 ++ [part])⟩

/-- The operator with one more byte, if there is such an operator. -/
def State.longer (s : State) (c : UInt8) : Option Bytes :=
  match s.mode with
  | .operator text => if operators.contains (text ++ [c]) then some (text ++ [c]) else none
  | _ => none

/-- A word has begun. -/
def State.inWord (s : State) : Bool :=
  match s.mode with
  | .word _ => true
  | _ => false

/-- A byte that no quoting covers. The rules are tried in the order of the standard. -/
def unquoted (s : State) (c : UInt8) : Except Refusal State :=
  match s.longer c with
  | some text => .ok { s with mode := .operator text }
  | none =>
    if c = 0x5C then .ok { s with mode := .backslash s.mode }
    else if c = 0x27 then .ok ⟨s.begun.1, .single s.begun.2 []⟩
    else if c = 0x22 then .ok ⟨s.begun.1, .double s.begun.2 []⟩
    else if c = 0x24 ∨ c = 0x60 then .error .expansion
    else if operators.contains [c] then .ok ⟨s.ended, .operator [c]⟩
    else if c = 0x0A then .ok ⟨s.ended ++ [.newline], .gap⟩
    else if c = 0x20 ∨ c = 0x09 then .ok ⟨s.ended, .gap⟩
    else if c = 0x23 ∧ s.inWord = false then .ok ⟨s.ended ++ [.comment], .comment⟩
    else .ok (s.extended (.bare c))

/-- One byte of a line. -/
def step (s : State) (c : UInt8) : Except Refusal State :=
  if c = 0 then .error .nul
  else
    match s.mode with
    | .single parts text =>
      .ok { s with
        mode := if c = 0x27 then .word (parts ++ [.quoted text]) else .single parts (text ++ [c]) }
    | .double parts text =>
      if c = 0x22 then .ok { s with mode := .word (parts ++ [.quoted text]) }
      else if c = 0x5C then .ok { s with mode := .doubleBackslash parts text }
      else if c = 0x24 ∨ c = 0x60 then .error .expansion
      else .ok { s with mode := .double parts (text ++ [c]) }
    | .doubleBackslash parts text =>
      -- Within double quotes a backslash is one of its own unless it is before one of these.
      if c = 0x0A then .ok { s with mode := .double parts text }
      else if (bytes "$`\"\\").contains c then .ok { s with mode := .double parts (text ++ [c]) }
      else .ok { s with mode := .double parts (text ++ [0x5C, c]) }
    | .comment => if c = 0x0A then .ok ⟨s.tokens ++ [.newline], .gap⟩ else .ok s
    | .backslash before =>
      if c = 0x0A then
        .ok { s with mode := before }
      else .ok (State.extended { s with mode := before } (.quoted [c]))
    | _ => unquoted s c

/-- The end of a line. -/
def finish (s : State) : Except Refusal (List Token) :=
  match s.mode with
  | .single _ _ | .double _ _ | .doubleBackslash _ _ | .backslash _ => .error .unterminated
  | _ => .ok s.ended

/-- The whole text, byte after byte. -/
def run (s : State) (text : Bytes) : Except Refusal State := text.foldlM step s

/-- The tokens of a line. -/
def tokenize (line : Bytes) : Except Refusal (List Token) := run ⟨[], .gap⟩ line >>= finish

/-! ## Simple commands -/

/-- The character that a part is, if it is not quoted. -/
def Part.bareByte : Part → Option UInt8
  | .bare c => some c
  | .quoted _ => none

/-- What is left of a part without its quotes. -/
def Part.text : Part → Bytes
  | .bare c => [c]
  | .quoted text => text

/-- The text of a word of which nothing is quoted. -/
def bareText (parts : List Part) : Option Bytes := parts.mapM Part.bareByte

/-- Quote removal. -/
def removeQuotes (parts : List Part) : Bytes := parts.flatMap Part.text

/-- The words that are not the name of a command where one may stand, those of common shells
beyond the standard among them. -/
def reservedWords : List Bytes :=
  ["!", "\x7b", "\x7d", "case", "do", "done", "elif", "else", "esac", "fi", "for", "if", "in",
    "then", "until", "while", "[[", "]]", "function", "select", "time"].map bytes

/-- What may stand in the name of a variable. -/
def isNameByte (c : UInt8) : Bool :=
  (0x61 ≤ c && c ≤ 0x7A) || (0x41 ≤ c && c ≤ 0x5A) || Decimal.isDigit c || c == 0x5F

/-- A word that assigns to a variable: a name, and `=` after it, none of it quoted. -/
def assigns (parts : List Part) : Bool :=
  let name := parts.takeWhile fun part => part.bareByte.any isNameByte
  name.head?.any (fun part => !part.bareByte.any Decimal.isDigit) &&
    (parts.drop name.length).head? == some (.bare 0x3D)

/-- A word that is expanded, by a home directory, by the paths that match it, or by braces. -/
def expands (parts : List Part) : Bool :=
  parts.head? == some (.bare 0x7E) || parts.any fun part =>
    part.bareByte.any (bytes "*?[\x7b").contains

/-- The parts of a word. -/
def Token.asWord : Token → Option (List Part)
  | .word parts => some parts
  | _ => none

/-- The arguments of words that are one simple command, given the names of the aliases. -/
def arguments (aliases : List Bytes) (words : List (List Part)) : Option (List Bytes) :=
  match words with
  | [] => none
  | first :: _ =>
    if (bareText first).any (fun text => reservedWords.contains text || aliases.contains text) then
      none
    else if assigns first || words.any expands then none
    else some (words.map removeQuotes)

/-- The arguments of a line that is one simple command. -/
def simpleCommand (aliases : List Bytes) (line : Bytes) : Option (List Bytes) := do
  let tokens ← (tokenize line).toOption
  let words ← tokens.mapM Token.asWord
  arguments aliases words

/-! ## Lines of words -/

theorem run_append (s : State) (text more : Bytes) :
    run s (text ++ more) = run s text >>= (run · more) :=
  foldlM_append

theorem run_cons (s : State) (c : UInt8) (rest : Bytes) :
    run s (c :: rest) = step s c >>= (run · rest) :=
  foldlM_cons

/-- A byte that goes into a word as it is. -/
def isPlain (c : UInt8) : Bool := c != 0 && !(bytes "\\'\"$`\n \t").contains c &&
    !operators.contains [c]

/-- A plain byte goes on a word, or begins one unless it begins a comment. -/
theorem step_plain {s : State} {c : UInt8} (plain : isPlain c = true)
    (wordly : s.mode = .gap ∧ c ≠ 0x23 ∨ ∃ parts, s.mode = .word parts) :
    step s c = .ok (s.extended (.bare c)) := by
  simp only [isPlain, Bool.and_eq_true, bne_iff_ne, ne_eq, Bool.not_eq_true', contains_eq_mem,
    decide_eq_false_iff_not] at plain
  obtain ⟨⟨nonzero, apart⟩, noOperator⟩ := plain
  have other : ∀ d ∈ bytes "\\'\"$`\n \t", c ≠ d := fun d member same => apart (same ▸ member)
  have begins : ¬(c = 0x23 ∧ s.inWord = false) := by
    rintro ⟨sign, outside⟩
    rcases wordly with ⟨-, notSign⟩ | ⟨parts, inside⟩
    · exact notSign sign
    · simp [State.inWord, inside] at outside
  have alone : s.longer c = none := by
    rcases wordly with ⟨mode, -⟩ | ⟨parts, mode⟩ <;> simp [State.longer, mode]
  have covered : step s c = unquoted s c := by
    rw [step, if_neg nonzero]
    rcases wordly with ⟨mode, -⟩ | ⟨parts, mode⟩ <;> rw [mode]
  rw [covered]
  simp only [unquoted, alone]
  rw [if_neg (other 0x5C (by decide)), if_neg (other 0x27 (by decide)),
    if_neg (other 0x22 (by decide)),
    if_neg (not_or.mpr ⟨other 0x24 (by decide), other 0x60 (by decide)⟩),
    if_neg (by simpa using noOperator), if_neg (other 0x0A (by decide)),
    if_neg (not_or.mpr ⟨other 0x20 (by decide), other 0x09 (by decide)⟩), if_neg begins]

/-- Plain bytes go on a word. -/
theorem run_plain {text : Bytes} (plain : ∀ c ∈ text, isPlain c = true) (tokens : List Token)
    (parts : List Part) :
    run ⟨tokens, .word parts⟩ text = .ok ⟨tokens, .word (parts ++ text.map .bare)⟩ := by
  induction text generalizing parts with
  | nil => simp [run, pure, Except.pure]
  | cons c rest ih =>
    have onward := ih (fun d member => plain d (mem_cons_of_mem _ member)) (parts ++ [.bare c])
    rw [append_assoc] at onward
    rw [run_cons, step_plain (plain c mem_cons_self) (.inr ⟨parts, rfl⟩)]
    exact onward

/-- A text that reads as one word, up to whatever ends it. -/
def Reads (text : Bytes) (parts : List Part) : Prop :=
  ∀ tokens, run ⟨tokens, .gap⟩ text = .ok ⟨tokens, .word parts⟩

/-- A plain text reads as itself unless it is a comment. -/
theorem reads_plain {text : Bytes} (nonempty : text ≠ []) (plain : ∀ c ∈ text, isPlain c = true)
    (wordly : text.head? ≠ some 0x23) : Reads text (text.map .bare) := by
  intro tokens
  obtain ⟨c, rest, rfl⟩ := exists_cons_of_ne_nil nonempty
  have begins : c ≠ 0x23 := fun sign => wordly (congrArg some sign)
  rw [run_cons, step_plain (plain c mem_cons_self) (.inl ⟨rfl, begins⟩)]
  exact run_plain (fun d member => plain d (mem_cons_of_mem _ member)) tokens [.bare c]

/-- Words with a blank between each two are tokens. -/
theorem run_words (words : List (Bytes × List Part)) (nonempty : words ≠ [])
    (reads : ∀ w ∈ words, Reads w.1 w.2)
    (tokens : List Token) :
    (run ⟨tokens, .gap⟩ ([0x20].intercalate (words.map Prod.fst)) >>= finish) =
      .ok (tokens ++ words.map fun w => .word w.2) := by
  induction words generalizing tokens with
  | nil => exact absurd rfl nonempty
  | cons first rest ih =>
    have begin := reads first mem_cons_self tokens
    cases rest with
    | nil =>
      rw [map_singleton, intercalate_singleton, begin]
      rfl
    | cons second others =>
      have onward := ih (cons_ne_nil _ _) (fun w member => reads w (mem_cons_of_mem _ member))
        (tokens ++ [.word first.2])
      rw [append_assoc] at onward
      rw [map_cons, map_cons, intercalate_cons_cons, append_assoc, run_append, begin]
      exact onward

/-- What is left to ask of a line of words is asked of the words. -/
theorem simpleCommand_words (aliases : List Bytes) (words : List (Bytes × List Part))
    (nonempty : words ≠ []) (reads : ∀ w ∈ words, Reads w.1 w.2) :
    simpleCommand aliases ([0x20].intercalate (words.map Prod.fst)) =
      arguments aliases (words.map Prod.snd) := by
  have tokens : tokenize ([0x20].intercalate (words.map Prod.fst)) =
      .ok (words.map fun w => .word w.2) :=
    run_words words nonempty reads []
  have listed : (words.map fun w => Token.word w.2).mapM Token.asWord =
      some (words.map Prod.snd) := by
    rw [ByteStrings.mapM_some_iff, map_map, map_map]
    rfl
  rw [simpleCommand, tokens]
  simp only [Except.toOption, Option.bind_eq_bind, Option.bind_some, listed]

/-! ## Quoted words -/

/-- All of a word is quoted, of which there is some, if only an empty text. -/
def Quoted (parts : List Part) : Prop := parts ≠ [] ∧ ∀ part ∈ parts, part.bareByte = none

/-- A quoted word begins with no character of its own. -/
theorem Quoted.head {parts : List Part} (quoted : Quoted parts) :
    ∃ first rest, parts = first :: rest ∧ first.bareByte = none := by
  obtain ⟨first, rest, rfl⟩ := exists_cons_of_ne_nil quoted.1
  exact ⟨first, rest, rfl, quoted.2 first mem_cons_self⟩

theorem Quoted.expands {parts : List Part} (quoted : Quoted parts) : expands parts = false := by
  have home : (parts.head? == some (.bare 0x7E)) = false := by
    obtain ⟨first, rest, rfl, covered⟩ := quoted.head
    refine beq_false_of_ne fun same => ?_
    rw [Option.some.inj same] at covered
    cases covered
  have matched : (parts.any fun part => part.bareByte.any (bytes "*?[\x7b").contains) = false := by
    refine any_eq_false.mpr fun part member => ?_
    rw [quoted.2 part member]
    exact Bool.false_ne_true
  rw [Shell.expands, home, matched, Bool.or_false]

/-- A command whose first word is quoted is neither reserved nor an assignment nor an alias. -/
theorem arguments_quoted (aliases : List Bytes) {first : List Part} {rest : List (List Part)}
    (quoted : Quoted first) (kept : ∀ word ∈ rest, expands word = false) :
    arguments aliases (first :: rest) = some ((first :: rest).map removeQuotes) := by
  have expanded : (first :: rest).any expands = false := by
    rw [any_cons, quoted.expands, Bool.false_or, any_eq_false]
    exact fun word member => ne_true_of_eq_false (kept word member)
  obtain ⟨part, more, rfl, covered⟩ := quoted.head
  have unnamed : bareText (part :: more) = none := by
    rw [bareText, mapM_cons, covered]
    rfl
  have assigned : assigns (part :: more) = false := by
    simp [assigns, covered]
  rw [arguments, unnamed, assigned, expanded]
  rfl

theorem removeQuotes_bare (text : Bytes) : removeQuotes (text.map .bare) = text := by
  induction text with
  | nil => rfl
  | cons c rest ih => exact congrArg (c :: ·) ih

end TrustedCourier.Shell
