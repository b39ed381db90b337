import TrustedCourier.TcExec

/-!
# How much output a reply of tc-exec carries

A worker's output is collected by a writer that keeps the first bytes and notes that it
dropped some; an Upstream's response body is read through a reader that stops after as many
bytes, and nothing notes what it left unread. Both keep exactly the first `outputLimit`
bytes of whatever they are given, in whatever pieces it comes. Only the writer's replies
say so.
-/

namespace TrustedCourier.TcExec

open List

def outputLimit : Nat := 1048576

/-! ## A worker's output -/

/-- What is kept of a command's output. -/
structure BoundedOutput where
  buf : Bytes := []
  truncated : Bool := false
deriving DecidableEq, Repr

/-- `boundedOutput.Write`. -/
def BoundedOutput.write (w : BoundedOutput) (p : Bytes) : BoundedOutput :=
  let n := p.length
  let remaining := outputLimit - w.buf.length
  let written := if 0 < remaining then min remaining n else 0
  { buf := w.buf ++ p.take written, truncated := w.truncated || written < n }

/-- What has been kept of the output so far, and whether some of it was dropped. -/
def BoundedOutput.Holds (w : BoundedOutput) (output : Bytes) : Prop :=
  w.buf = output.take outputLimit ∧ w.truncated = decide (outputLimit < output.length)

/-- A write is added to the output, as far as it fits. -/
theorem BoundedOutput.Holds.add {w : BoundedOutput} {output : Bytes} (holds : w.Holds output)
    (p : Bytes) :
    (w.write p).Holds (output ++ p) := by
  obtain ⟨kept, noted⟩ := holds
  have size : w.buf.length = min outputLimit output.length := by rw [kept, length_take]
  have room :
    (if 0 < outputLimit - w.buf.length then min (outputLimit - w.buf.length) p.length else 0) =
      min (outputLimit - output.length) p.length := by
    rw [size]
    split <;> omega
  constructor
  · simp only [BoundedOutput.write, room]
    rw [kept, take_append, ← take_take, take_length]
  · simp only [BoundedOutput.write, room, noted, length_append]
    rw [Bool.eq_iff_iff]
    simp only [Bool.or_eq_true, decide_eq_true_eq]
    omega

/-- Whatever pieces the output comes in, its first bytes are kept. -/
theorem writes_hold (chunks : List Bytes) :
    (chunks.foldl BoundedOutput.write {}).Holds chunks.flatten := by
  have general : ∀ (chunks : List Bytes) (w : BoundedOutput) (output : Bytes), w.Holds output →
      (chunks.foldl BoundedOutput.write w).Holds (output ++ chunks.flatten) := by
    intro chunks
    induction chunks with
    | nil =>
      intro w output holds
      rwa [foldl_nil, flatten_nil, append_nil]
    | cons chunk rest ih =>
      intro w output holds
      rw [foldl_cons, flatten_cons, ← append_assoc]
      exact ih _ _ (holds.add chunk)
  exact general chunks {} [] ⟨rfl, by decide⟩

/-- How a worker's run ended, with its output written in these pieces. -/
def workerResult (code : Int) (expired : Bool) (chunks : List Bytes) : Result :=
  let out := chunks.foldl BoundedOutput.write {}
  { code := code, output := out.buf, truncated := out.truncated, expired := expired }

/-! ## An Upstream's response -/

/-- How a read ends a body. -/
inductive ReadErr where
  | eof
  | failed (text : String)
deriving DecidableEq, Repr

/-- One read of a body: the bytes it returns, and how it ends the body, if it does. -/
abbrev BodyRead := Bytes × Option ReadErr

/-- `io.ReadAll` of `io.LimitReader`: what is read, and the error it ends with. A read of
more bytes than are left gets only those, and the reader is then at its end. -/
def readAll : Nat → List BodyRead → Bytes × Option String
  | 0, _ => ([], none)
  | _ + 1, [] => ([], none)
  | limit + 1, (chunk, err) :: rest =>
    if limit + 1 < chunk.length then (chunk.take (limit + 1), none)
    else
      match err with
      | some .eof => (chunk, none)
      | some (.failed text) => (chunk, some text)
      | none =>
        let more := readAll (limit + 1 - chunk.length) rest
        (chunk ++ more.1, more.2)

/-- The body that the reads are made of, up to the one that ends it. -/
def bodyOf : List BodyRead → Bytes
  | [] => []
  | (chunk, err) :: rest => if err.isSome then chunk else chunk ++ bodyOf rest

/-- A first read beyond the limit is cut off there. -/
theorem readAll_long {limit : Nat} {chunk : Bytes} (long : limit < chunk.length)
    (err : Option ReadErr) (rest : List BodyRead) :
    readAll limit ((chunk, err) :: rest) = (chunk.take limit, none) := by
  cases limit with
  | zero => rfl
  | succ limit => simp only [readAll, if_pos long]

/-- Reading up to a limit returns the first bytes of the body. -/
theorem readAll_take (limit : Nat) (reads : List BodyRead) :
    (readAll limit reads).1 = (bodyOf reads).take limit := by
  induction reads generalizing limit with
  | nil => cases limit <;> simp [readAll, bodyOf]
  | cons read rest ih =>
    obtain ⟨chunk, err⟩ := read
    cases limit with
    | zero => simp [readAll]
    | succ limit =>
      by_cases long : limit + 1 < chunk.length
      · rw [readAll_long long, bodyOf]
        cases err with
        | some ended => rfl
        | none => exact (take_append_of_le_length (Nat.le_of_lt long)).symm
      · simp only [readAll, bodyOf, if_neg long]
        have whole : chunk.take (limit + 1) = chunk := take_of_length_le (by omega)
        cases err with
        | some ended => cases ended <;> exact whole.symm
        | none =>
          simp only [ih]
          exact (take_append.trans (by rw [whole])).symm

/-- `httpRequest` once `client.Do` has returned a response. -/
def httpReply (status : Int) (reads : List BodyRead) : Reply :=
  match readAll outputLimit reads with
  | (_, some _) => failure "response read failed"
  | (body, none) => { status := status, output := body }

/-! ## What a reply announces -/

/-- Where the output of a reply comes from. -/
inductive Source where
  | worker (code : Int) (expired : Bool) (chunks : List Bytes)
  | upstream (status : Int) (reads : List BodyRead)

/-- The broker's reply. -/
def Source.reply : Source → Reply
  | .worker code expired chunks => shellReply (workerResult code expired chunks)
  | .upstream status reads => httpReply status reads

/-- The whole output. -/
def Source.output : Source → Bytes
  | .worker _ _ chunks => chunks.flatten
  | .upstream _ reads => bodyOf reads

/-- A reply carries the whole output and says that it does, or the first bytes of a
longer one and says that. -/
def Announced (reply : Reply) (output : Bytes) : Prop :=
  (reply.output = output ∧ reply.truncated = false) ∨
    (reply.output = output.take outputLimit ∧ reply.truncated = true ∧ outputLimit < output.length)

/-- A response body is no longer than a reply can carry. -/
def Source.fits : Source → Prop
  | .worker .. => True
  | .upstream _ reads => (bodyOf reads).length ≤ outputLimit

/-- Which replies announce what they left out: those of workers always, whatever pieces
the output came in, and those of Upstreams exactly when they left out nothing. -/
theorem truncation_announced (source : Source) (succeeded : source.reply.error = []) :
    Announced source.reply source.output ↔ source.fits := by
  cases source with
  | worker code expired chunks =>
    obtain ⟨kept, noted⟩ := writes_hold chunks
    refine iff_of_true ?_ trivial
    cases expired with
    | true =>
      have text : bytes "command timed out" ≠ [] := by decide
      exact absurd succeeded text
    | false =>
      rcases Nat.lt_or_ge outputLimit chunks.flatten.length with long | short
      · exact Or.inr ⟨kept, noted.trans (decide_eq_true long), long⟩
      · refine Or.inl ⟨kept.trans (take_of_length_le short), noted.trans ?_⟩
        exact decide_eq_false (by omega)
  | upstream status reads =>
    have taken := readAll_take outputLimit reads
    simp only [Source.reply, Source.output, Source.fits, httpReply] at succeeded ⊢
    generalize readAll outputLimit reads = result at *
    obtain ⟨body, err⟩ := result
    cases err with
    | some text =>
      have failed : bytes "response read failed" ≠ [] := by decide
      exact absurd succeeded failed
    | none =>
      simp only at taken
      simp only [Announced, Bool.false_eq_true, false_and, and_false, or_false, and_true, taken]
      exact take_eq_self_iff _

/-- A worker that writes twice. -/
theorem truncation_announced_worker :
    Announced (Source.worker 0 false [bytes "a", bytes "b"]).reply (bytes "ab") :=
  (truncation_announced (.worker 0 false [bytes "a", bytes "b"]) rfl).mpr trivial

/-- A response body that is one byte too long is shortened, and the reply says that
nothing is missing. -/
theorem truncation_silent :
    ∃ (status : Int) (reads : List BodyRead), (httpReply status reads).error = [] ∧
      (httpReply status reads).truncated = false ∧ (httpReply status reads).output ≠ bodyOf reads ∧
      (bodyOf reads).length = outputLimit + 1 := by
  have size : (List.replicate (outputLimit + 1) (0x61 : UInt8)).length = outputLimit + 1 :=
    length_replicate
  have cut : httpReply 200 [(List.replicate (outputLimit + 1) 0x61, some .eof)] =
      { status := 200, output := (List.replicate (outputLimit + 1) 0x61).take outputLimit } := by
    rw [httpReply, readAll_long (by rw [size]; exact Nat.lt_succ_self _)]
  refine ⟨200, [(List.replicate (outputLimit + 1) 0x61, some .eof)], by rw [cut], by rw [cut], ?_,
    size⟩
  rw [cut]
  intro same
  have shorter := congrArg List.length same
  rw [length_take, size] at shorter
  have whole : (bodyOf [(List.replicate (outputLimit + 1) 0x61, some .eof)]).length =
      outputLimit + 1 := size
  omega

end TrustedCourier.TcExec
