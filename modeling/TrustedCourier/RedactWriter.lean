import TrustedCourier.Redact

/-!
# The redacting Writer over every chunking of a stream

The Writer keeps the raw bytes of a trailing partial match together with their
marks, and writes everything before it. A Write with nothing kept and no match
in its bytes bypasses the buffer. The underlying writer is called once in every
Write and at most once in Close; its result is a parameter, and a failed call
leaves the buffer as the source leaves it.

The invariant relates a Writer to the whole stream so far: what was written is
the reference's masking of everything before the longest overlap, and the buffer
holds the overlap's raw bytes and final marks. Every Write keeps it, whatever
the chunk, so the chunking cannot show in the output.
-/

namespace TrustedCourier.Redact

open ByteStrings Occurrences List Option

universe u
variable {ε : Type u}

/-- What the underlying writer answers to the bytes of one call: how many it
took, and an error. -/
abbrev Underlying (ε : Type u) := Bytes → Nat × Option ε

/-- The Writer's fields. `buf` and `masked` may be longer than what is pending. -/
structure Writer where
  needles : List Bytes
  mask : UInt8
  buf : Bytes
  masked : List Bool
  pending : Nat
deriving DecidableEq, Repr

/-- A writer that has passed nothing on. -/
def newWriter (needles : List Bytes) : Writer :=
  { needles := views needles, mask := maskFor needles, buf := [], masked := [], pending := 0 }

/-- `copy(s, s[from:])`: the elements from `from` on, moved to the front. -/
def copyDown {β : Type u} (s : List β) (start : Nat) : List β :=
  s.drop start ++ s.drop (s.length - start)

/-- One Write: the Writer after it, the bytes passed to the underlying writer,
and the result. -/
def Writer.write (under : Underlying ε) (w : Writer) (p : Bytes) :
    Writer × Bytes × Nat × Option ε :=
  if w.needles = [] then (w, p, under p)
  else if w.pending = 0 ∧ containsAny p w.needles = false then
    let hold := partialMatch p w.needles
    let sent := p.take (p.length - hold)
    match (under sent).2 with
    | some err => (w, sent, 0, some err)
    | none =>
      ({ w with
        buf := p.drop (p.length - hold), masked := List.replicate hold false, pending := hold },
        sent, p.length, none)
  else
    let buf := w.buf.take w.pending ++ p
    let masked := markMatches buf w.needles
      (w.masked.take w.pending ++ List.replicate p.length false)
    let hold := partialMatch buf w.needles
    let send := buf.length - hold
    let sent := applyMask (buf.take send) masked w.mask
    let buf := sent ++ buf.drop send
    match (under sent).2 with
    | some err => ({ w with buf := buf, masked := masked }, sent, 0, some err)
    | none =>
      let kept := copyDown buf send
      ({ w with
          buf := kept.take hold ++ List.replicate (kept.length - hold) 0
          masked := copyDown masked send
          pending := hold }, sent, p.length, none)

/-- Close: the Writer after it, the bytes passed to the underlying writer if it
is called, and the error. -/
def Writer.close (under : Underlying ε) (w : Writer) : Writer × Bytes × Option ε :=
  if w.pending = 0 then (w, [], none)
  else
    let sent := applyMask (w.buf.take w.pending) w.masked w.mask
    ({ w with buf := List.replicate w.pending 0 ++ w.buf.drop w.pending, pending := 0 },
      sent, (under sent).2)

/-- Successive Writes, with everything passed to the underlying writer. -/
def Writer.writeAll (under : Underlying ε) : Writer → List Bytes → Writer × Bytes
  | w, [] => (w, [])
  | w, p :: rest =>
    let after := w.write under p
    let final := Writer.writeAll under after.1 rest
    (final.1, after.2.1 ++ final.2)

/-- The complete output of a Writer: all Writes, then Close. -/
def output (under : Underlying ε) (needles chunks : List Bytes) : Bytes :=
  let written := (newWriter needles).writeAll under chunks
  written.2 ++ (written.1.close under).2.1

/-- A Writer that has seen `stream` and written `emitted`. Its pending bytes are
the longest overlap, raw, beside the marks the whole stream so far gives them. -/
structure Tracks (given : List Bytes) (stream emitted : Bytes) (w : Writer) : Prop where
  needles : w.needles = views given
  mask : w.mask = maskFor given
  longest : Longest w.needles stream w.pending
  held : w.buf.take w.pending = stream.drop (stream.length - w.pending)
  aligned : w.pending ≤ w.masked.length
  marks : ∀ j < w.pending, Marked w.masked j ↔ Covered given stream (stream.length - w.pending + j)
  emitted : emitted = (reference given stream).take (stream.length - w.pending)

theorem views_proper (given : List Bytes) : ∀ needle ∈ views given, needle ≠ [] :=
  fun needle member => ((mem_views given needle).mp member).2

theorem reference_length (needles : List Bytes) (text : Bytes) :
    (reference needles text).length = text.length := by
  simp [reference]

/-- A slice whose marks are the coverage of its positions is masked to the same
slice of the reference. -/
theorem applyMask_slice (needles : List Bytes) (text : Bytes) (cut n : Nat) (masked : List Bool)
    (aligned : ((text.drop cut).take n).length ≤ masked.length)
    (marks : ∀ j < ((text.drop cut).take n).length, Marked masked j ↔
      Covered needles text (cut + j)) :
    applyMask ((text.drop cut).take n) masked (maskFor needles) =
      ((reference needles text).drop cut).take n := by
  have length : (applyMask ((text.drop cut).take n) masked (maskFor needles)).length =
      (((reference needles text).drop cut).take n).length := by
    simp only [applyMask, length_zipWith, length_take, length_drop, reference_length]
      at aligned ⊢
    omega
  apply ext_getElem length
  intro j inLeft inRight
  have inside : j < ((text.drop cut).take n).length := by
    simp only [applyMask, length_zipWith] at inLeft
    omega
  have marked := marks j inside
  simp only [Marked, getElem?_eq_getElem (Nat.lt_of_lt_of_le inside aligned),
    some.injEq] at marked
  simp only [applyMask, getElem_zipWith, getElem_take, getElem_drop, reference,
    getElem_mapIdx, marked]

/-- Before the longest overlap, a longer stream's reference is the shorter one's. -/
theorem reference_settled (needles : List Bytes) (text more : Bytes) (hold : Nat)
    (longest : Longest (views needles) text hold) :
    (reference needles (text ++ more)).take (text.length - hold) =
      (reference needles text).take (text.length - hold) := by
  apply ext_getElem
  · simp only [length_take, reference_length, length_append]
    omega
  · intro i inLeft inRight
    have before : i < text.length - hold := by
      simp only [length_take] at inRight
      omega
    have inText : i < text.length := by omega
    have same : Covered needles (text ++ more) i ↔ Covered needles text i := by
      have settled := covered_settled more longest before
      rwa [covered_views, covered_views] at settled
    simp only [getElem_take, reference, getElem_mapIdx, same,
      getElem_append_left inText]

section Writes

variable {given : List Bytes} {stream emitted : Bytes} {w : Writer}

section

variable (tracks : Tracks given stream emitted w)
include tracks

/-- Coverage of a continued stream from the pending bytes on, in terms of what the
Writer holds. -/
theorem Tracks.covered (p : Bytes) (j : Nat) :
    Covered given (stream ++ p) (stream.length - w.pending + j) ↔
      Covered given stream (stream.length - w.pending + j) ∨
        Covered w.needles (w.buf.take w.pending ++ p) j := by
  have resumed := covered_resumed p tracks.longest j
  rw [tracks.needles, covered_views, covered_views, covered_views] at resumed
  rw [resumed, tracks.held, tracks.needles, covered_views]

theorem Tracks.proper : ∀ needle ∈ w.needles, needle ≠ [] := by
  rw [tracks.needles]
  exact views_proper given

theorem Tracks.joined_length (p : Bytes) :
    (w.buf.take w.pending ++ p).length = w.pending + p.length := by
  have fits := tracks.longest.fits
  rw [tracks.held, length_append, length_drop]
  omega

/-- The pending bytes and the next chunk are the end of the continued stream. -/
theorem Tracks.joined (p : Bytes) :
    (stream ++ p).drop (stream.length - w.pending) = w.buf.take w.pending ++ p := by
  rw [drop_append_of_le_length (by omega), tracks.held]

/-- A Writer advances over a chunk by passing on the reference's bytes up to the
new overlap and holding that overlap with its marks. The two paths of Write
establish these facts, each in its own way. -/
theorem Tracks.advance {after : Writer} (p sent : Bytes)
    (sameNeedles : after.needles = w.needles) (sameMask : after.mask = w.mask)
    (longest : Longest w.needles (w.buf.take w.pending ++ p) after.pending)
    (held : after.buf.take after.pending = (w.buf.take w.pending ++ p).drop
      ((w.buf.take w.pending ++ p).length - after.pending))
    (aligned : after.pending ≤ after.masked.length)
    (marks : ∀ j < after.pending, Marked after.masked j ↔ Covered given (stream ++ p)
      (stream.length - w.pending + ((w.buf.take w.pending ++ p).length - after.pending + j)))
    (passed : sent = ((reference given (stream ++ p)).drop (stream.length - w.pending)).take
      ((w.buf.take w.pending ++ p).length - after.pending)) :
    Tracks given (stream ++ p) (emitted ++ sent) after := by
  have fits := tracks.longest.fits
  have newFits := longest.fits
  have bufLength := tracks.joined_length p
  have cut : (stream ++ p).length - after.pending =
      stream.length - w.pending + ((w.buf.take w.pending ++ p).length - after.pending) := by
    rw [bufLength] at newFits ⊢
    rw [length_append]
    omega
  refine ⟨sameNeedles.trans tracks.needles, sameMask.trans tracks.mask, ?_, ?_, aligned, ?_, ?_⟩
  · rw [sameNeedles]
    rw [tracks.held] at longest
    exact longest_resumed tracks.longest longest
  · rw [held, cut, ← drop_drop, tracks.joined p]
  · intro j inside
    rw [cut, marks j inside, Nat.add_assoc]
  · have settled := reference_settled given stream p w.pending
      (tracks.needles ▸ tracks.longest)
    rw [tracks.emitted, passed, cut, take_add, settled]

end

/-- A fresh Writer has seen and written nothing. -/
theorem tracks_new (given : List Bytes) : Tracks given [] [] (newWriter given) where
  needles := rfl
  mask := rfl
  longest := longest_nil _
  held := rfl
  aligned := Nat.le_refl 0
  marks := fun _ inside => absurd inside (Nat.not_lt_zero _)
  emitted := rfl

/-- The path that bypasses the buffer. Nothing is pending and the chunk holds no
match, so no byte of the chunk is covered in the whole stream, and its raw bytes
are the reference's. -/
theorem write_bypass (tracks : Tracks given stream emitted w) (p : Bytes) (nothing : w.pending = 0)
    (clean : containsAny p w.needles = false) :
    Tracks given (stream ++ p) (emitted ++ p.take (p.length - partialMatch p w.needles))
      { w with
        buf := p.drop (p.length - partialMatch p w.needles)
        masked := List.replicate (partialMatch p w.needles) false
        pending := partialMatch p w.needles } := by
  have buffered : w.buf.take w.pending ++ p = p := by simp [nothing]
  have uncovered : ∀ j, ¬ Covered given (stream ++ p) (stream.length - w.pending + j) := by
    intro j covered
    rcases (tracks.covered p j).mp covered with earlier | ⟨needle, member, start, _, _, occurs⟩
    · have inside := covered_lt earlier
      omega
    · rw [buffered] at occurs
      have present : containsAny p w.needles = true :=
        any_eq_true.mpr ⟨needle, member, (contains_iff p needle).mpr
          (occurs.isInfix.trans (drop_suffix start p).isInfix)⟩
      rw [clean] at present
      cases present
  have longest := partialMatch_longest p w.needles tracks.proper
  have fits := longest.fits
  apply tracks.advance p
  · rfl
  · rfl
  · rw [buffered]
    exact longest
  · rw [buffered]
    apply take_of_length_le
    simp only [length_drop]
    omega
  · simp
  · intro j inside
    rw [buffered]
    simp only [uncovered, iff_false, Marked]
    simp [inside]
  · -- The reference leaves uncovered bytes as they are.
    have raw : (reference given (stream ++ p)).drop (stream.length - w.pending) = p := by
      apply ext_getElem
      · simp only [length_drop, reference_length, length_append, nothing]
        omega
      · intro j inLeft inRight
        have bare := uncovered j
        rw [nothing, Nat.sub_zero] at bare
        simp only [getElem_drop, reference, getElem_mapIdx, nothing, Nat.sub_zero, bare,
          if_false]
        simp
    rw [raw, buffered]

/-- What was moved to the front. -/
theorem copyDown_take {β : Type u} (s : List β) (start : Nat) :
    (copyDown s start).take (s.length - start) = s.drop start := by
  rw [copyDown, ← length_drop, take_left]

theorem copyDown_getElem? {β : Type u} {s : List β} {start j : Nat}
    (inside : start + j < s.length) :
    (copyDown s start)[j]? = s[start + j]? := by
  rw [copyDown, getElem?_append_left (by rw [length_drop]; omega), getElem?_drop]

section

variable (tracks : Tracks given stream emitted w)
include tracks

/-- The marks carried with the pending bytes and the marks of the joined bytes are
together the coverage of the whole stream. -/
theorem Tracks.joined_marks (p : Bytes) :
    let buf := w.buf.take w.pending ++ p
    let masked :=
      markMatches buf w.needles (w.masked.take w.pending ++ List.replicate p.length false)
    masked.length = buf.length ∧ ∀ j < buf.length, Marked masked j ↔
      Covered given (stream ++ p) (stream.length - w.pending + j) := by
  intro buf masked
  have marksHeld : (w.masked.take w.pending).length = w.pending := by
    rw [length_take]
    exact Nat.min_eq_left tracks.aligned
  obtain ⟨length, exactMarks⟩ := markMatches_exact buf w.needles
    (w.masked.take w.pending ++ List.replicate p.length false) tracks.proper
    (by rw [length_append, marksHeld, length_replicate, tracks.joined_length])
  refine ⟨length, fun j inside => ?_⟩
  rw [exactMarks j inside, tracks.covered p j]
  apply or_congr_left
  by_cases pending : j < w.pending
  · rw [← tracks.marks j pending]
    simp only [Marked, getElem?_append_left (marksHeld ▸ pending), getElem?_take, pending,
      if_true]
  · have outside : ¬ Covered given stream (stream.length - w.pending + j) := by
      intro covered
      have bounded := covered_lt covered
      omega
    simp only [outside, iff_false, Marked]
    rw [getElem?_append_right (by omega), getElem?_replicate]
    split <;> simp

/-- The path through the buffer. By their marks, the joined bytes are masked as the
reference masks them, and the overlap is moved to the front with its marks. -/
theorem write_buffered (p : Bytes) :
    let buf := w.buf.take w.pending ++ p
    let masked :=
      markMatches buf w.needles (w.masked.take w.pending ++ List.replicate p.length false)
    let hold := partialMatch buf w.needles
    let send := buf.length - hold
    let sent := applyMask (buf.take send) masked w.mask
    Tracks given (stream ++ p) (emitted ++ sent)
      { w with
        buf := (copyDown (sent ++ buf.drop send) send).take hold ++
          List.replicate ((copyDown (sent ++ buf.drop send) send).length - hold) 0
        masked := copyDown masked send
        pending := hold } := by
  intro buf masked hold send sent
  obtain ⟨maskedLength, marks⟩ : masked.length = buf.length ∧ ∀ j < buf.length, Marked masked j ↔
      Covered given (stream ++ p) (stream.length - w.pending + j) := tracks.joined_marks p
  have rest : (stream ++ p).drop (stream.length - w.pending) = buf := tracks.joined p
  have longest := partialMatch_longest buf w.needles tracks.proper
  have newFits : hold ≤ buf.length := longest.fits
  have sentExact : sent = ((reference given (stream ++ p)).drop (stream.length - w.pending)).take
      send := by
    rw [← applyMask_slice given (stream ++ p) (stream.length - w.pending) send masked, rest,
      ← tracks.mask]
    · rw [rest, maskedLength, length_take]
      omega
    · intro j inside
      rw [rest, length_take] at inside
      exact marks j (by omega)
  have sentLength : sent.length = send := by
    simp only [sent, applyMask, length_zipWith, length_take]
    omega
  have size : (buf.drop send).length = hold := by
    rw [length_drop]
    omega
  have keptFront : (copyDown (sent ++ buf.drop send) send).take hold = buf.drop send := by
    have front := copyDown_take (sent ++ buf.drop send) send
    rwa [length_append, sentLength, size, Nat.add_sub_cancel_left, ← sentLength, drop_left,
      sentLength] at front
  apply tracks.advance p
  · rfl
  · rfl
  · exact longest
  · show ((copyDown (sent ++ buf.drop send) send).take hold ++
      List.replicate ((copyDown (sent ++ buf.drop send) send).length - hold) (0 : UInt8)).take
        hold = buf.drop send
    rw [keptFront, take_append_of_le_length (by omega), ← size, take_length]
  · show hold ≤ (copyDown masked send).length
    simp only [copyDown, length_append, length_drop]
    omega
  · intro j inside
    have within : send + j < buf.length := by
      have bounded : j < hold := inside
      omega
    simp only [Marked, copyDown_getElem? (maskedLength ▸ within)]
    exact marks (send + j) within
  · exact sentExact

/-- Without needles nothing is ever pending and the reference is the identity. -/
theorem write_unmasked (p : Bytes) (empty : w.needles = []) :
    Tracks given (stream ++ p) (emitted ++ p) w := by
  have nothing : w.pending = 0 := by
    rcases tracks.longest.attained with zero | ⟨_, needle, member, _⟩
    · exact zero
    · simp [empty] at member
  have uncovered : ∀ text i, ¬ Covered given text i := by
    rintro text i covered
    obtain ⟨needle, member, _⟩ := (covered_views given text i).mpr covered
    rw [← tracks.needles, empty] at member
    exact not_mem_nil member
  have raw : ∀ text, reference given text = text := by
    intro text
    apply ext_getElem (reference_length given text)
    intro i inLeft inRight
    simp only [reference, getElem_mapIdx, uncovered, if_false]
  refine ⟨tracks.needles, tracks.mask, ?_, ?_, tracks.aligned, ?_, ?_⟩
  · rw [empty, nothing]
    exact ⟨Nat.zero_le _, Or.inl rfl, by rintro k ⟨_, needle, member, _⟩; simp at member⟩
  · simp [nothing]
  · intro j inside
    omega
  · have before := tracks.emitted
    rw [nothing, raw, Nat.sub_zero, take_length] at before
    rw [nothing, raw, Nat.sub_zero, take_length, before]

end

variable (under : Underlying ε)

/-- One Write keeps the invariant, on each of its three paths, as long as the
underlying writer does not fail. -/
theorem write_tracks (reliable : ∀ sent, (under sent).2 = none)
    (tracks : Tracks given stream emitted w) (p : Bytes) :
    Tracks given (stream ++ p) (emitted ++ (w.write under p).2.1) (w.write under p).1 := by
  unfold Writer.write
  split
  · next empty => exact write_unmasked tracks p empty
  · split
    · next bypass =>
      simp only [reliable]
      exact write_bypass tracks p bypass.1 bypass.2
    · simp only [reliable]
      exact write_buffered tracks p

/-- Any number of Writes keep the invariant for the stream they spell together. -/
theorem writeAll_tracks (reliable : ∀ sent, (under sent).2 = none)
    (chunks : List Bytes) (tracks : Tracks given stream emitted w) :
    Tracks given (stream ++ chunks.flatten) (emitted ++ (w.writeAll under chunks).2)
      (w.writeAll under chunks).1 := by
  induction chunks generalizing stream emitted w with
  | nil => simpa [Writer.writeAll] using tracks
  | cons p rest ih =>
    have advanced := ih (write_tracks under reliable tracks p)
    simpa [Writer.writeAll] using advanced

/-- Close passes on the masked pending bytes, which end the reference. -/
theorem close_completes (tracks : Tracks given stream emitted w) :
    emitted ++ (w.close under).2.1 = reference given stream := by
  have fits := tracks.longest.fits
  have sent : (w.close under).2.1 = applyMask (w.buf.take w.pending) w.masked w.mask := by
    unfold Writer.close
    split
    · next nothing => simp [nothing, applyMask]
    · rfl
  have whole : (stream.drop (stream.length - w.pending)).take w.pending =
      stream.drop (stream.length - w.pending) := by
    apply take_of_length_le
    rw [length_drop]
    omega
  have length : (stream.drop (stream.length - w.pending)).length = w.pending := by
    rw [length_drop]
    omega
  have masked := applyMask_slice given stream (stream.length - w.pending) w.pending w.masked
    (by rw [whole, length]; exact tracks.aligned)
    (by rw [whole, length]; exact tracks.marks)
  have tail : ((reference given stream).drop (stream.length - w.pending)).take w.pending =
      (reference given stream).drop (stream.length - w.pending) := by
    apply take_of_length_le
    rw [length_drop, reference_length]
    omega
  rw [whole, tail] at masked
  rw [sent, tracks.held, tracks.mask, masked, tracks.emitted, take_append_drop]

end Writes

/-- The complete output depends on the stream only, and is its reference. -/
theorem output_reference (under : Underlying ε) (reliable : ∀ sent, (under sent).2 = none)
    (needles chunks : List Bytes) : output under needles chunks =
      reference needles chunks.flatten := by
  have tracks := writeAll_tracks under reliable chunks (tracks_new needles)
  rw [nil_append, nil_append] at tracks
  exact close_completes under tracks

/-- Masking a whole string at once is the reference too. Its early return is taken
exactly when no position is covered. -/
theorem string_reference (s : Bytes) (needles : List Bytes) :
    string s needles = reference needles s := by
  unfold string
  split
  · next absent =>
    have uncovered : ∀ i, ¬ Covered needles s i := by
      rintro i ⟨needle, member, start, before, inside, occurs⟩
      have proper : needle ≠ [] := by
        rintro rfl
        simp only [length_nil] at inside
        omega
      have present := (contains_iff s needle).mpr
        (occurs.isInfix.trans (drop_suffix start s).isInfix)
      have found : needles.any (fun n => n ≠ [] && contains s n) = true :=
        any_eq_true.mpr ⟨needle, member, by simp [proper, present]⟩
      simp only [found, Bool.not_true, Bool.false_eq_true] at absent
    apply ext_getElem (reference_length needles s).symm
    intro i inLeft inRight
    simp only [reference, getElem_mapIdx, uncovered, if_false]
  · obtain ⟨length, marks⟩ := markMatches_exact s (views needles) (List.replicate s.length false)
      (views_proper needles) length_replicate
    have masked := applyMask_slice needles s 0 s.length
      (markMatches s (views needles) (List.replicate s.length false))
    simp only [drop_zero, take_length, Nat.zero_add] at masked
    rw [masked (Nat.le_of_eq length.symm)]
    · apply take_of_length_le
      rw [reference_length]
    · intro i inside
      rw [marks i inside, covered_views]
      simp [Marked, inside]

/-- Whatever the chunks, all that reaches an underlying writer that never fails is
what masking the whole stream at once gives: each byte inside an occurrence of a
needle becomes the mask byte, and every other byte stays. -/
theorem redaction_exact (under : Underlying ε) (reliable : ∀ sent, (under sent).2 = none)
    (needles chunks : List Bytes) :
    output under needles chunks = string chunks.flatten needles ∧
      string chunks.flatten needles = reference needles chunks.flatten :=
  ⟨(output_reference under reliable needles chunks).trans (string_reference _ _).symm,
    string_reference _ _⟩

/-- Two needles whose occurrences overlap each other and three chunk boundaries. -/
theorem redaction_exact_overlapping :
    output (fun sent => (sent.length, (none : Option Unit))) [bytes "abc", [], bytes "cda"]
        [bytes "xa", [], bytes "bcd", bytes "ay"] = bytes "x*****y" := by
  have exact := redaction_exact (fun sent => (sent.length, (none : Option Unit))) (fun _ => rfl)
    [bytes "abc", [], bytes "cda"] [bytes "xa", [], bytes "bcd", bytes "ay"]
  rw [exact.1, exact.2]
  decide

/-! ## No needle survives -/

/-- When some mask byte is in no needle, the chosen one is in no needle. -/
theorem maskFor_free {needles : List Bytes} (free : ∃ m ∈ maskBytes, ∀ n ∈ needles, m ∉ n) :
    ∀ n ∈ needles, maskFor needles ∉ n := by
  obtain ⟨m, member, absent⟩ := free
  have chosenSome : (maskBytes.find? fun m => !needles.any fun n => n.contains m).isSome := by
    rw [find?_isSome]
    exact ⟨m, member, by simpa using absent⟩
  obtain ⟨chosen, found⟩ := isSome_iff_exists.mp chosenSome
  have accepted := find?_some found
  have same : maskFor needles = chosen := by rw [maskFor, found, getD_some]
  rw [same]
  simpa using accepted

/-- A needle in the masked text would have been an occurrence in the text itself:
none of its bytes is the mask, so each is an uncovered byte of the text. But then
its first byte was covered. -/
theorem reference_clean {needles : List Bytes} (free : ∀ n ∈ needles, maskFor needles ∉ n)
    (text needle : Bytes) (member : needle ∈ needles) (proper : needle ≠ []) :
    ¬ needle <:+: reference needles text := by
  rintro ⟨before, after, split⟩
  have positive : 0 < needle.length := length_pos_iff.mpr proper
  have total : before.length + needle.length + after.length = text.length := by
    rw [← reference_length needles text, ← split, length_append, length_append]
  have raw : ∀ j (inside : j < needle.length), ¬ Covered needles text (before.length + j) ∧
      text[before.length + j]? = some needle[j] := by
    intro j inside
    have here : (reference needles text)[before.length + j]? = some needle[j] := by
      rw [← split, append_assoc, getElem?_append_right (by omega)]
      simp [getElem?_append_left inside]
    have bounded : before.length + j < text.length := by omega
    simp only [reference, getElem?_mapIdx, getElem?_eq_getElem bounded, map_some,
      some.injEq] at here
    by_cases covered : Covered needles text (before.length + j)
    · rw [if_pos covered] at here
      exact absurd (here ▸ getElem_mem inside) (free needle member)
    · rw [if_neg covered] at here
      exact ⟨covered, by rw [getElem?_eq_getElem bounded, here]⟩
  have occurs : needle <+: text.drop before.length := by
    rw [prefix_iff_getElem?]
    intro j inside
    rw [getElem?_drop, (raw j inside).2]
  exact (raw 0 positive).1 ⟨needle, member, before.length, by omega, by omega, occurs⟩

/-- As long as some mask byte occurs in no needle, no needle is left in anything
that reaches the underlying writer, taken together, nor in a masked string. -/
theorem redaction_clean (under : Underlying ε) (reliable : ∀ sent, (under sent).2 = none)
    (needles chunks : List Bytes) (free : ∃ m ∈ maskBytes, ∀ n ∈ needles, m ∉ n)
    (needle : Bytes) (member : needle ∈ needles) (proper : needle ≠ []) :
    ¬ needle <:+: output under needles chunks ∧ ¬ needle <:+: string chunks.flatten needles := by
  rw [output_reference under reliable, string_reference]
  exact ⟨reference_clean (maskFor_free free) _ needle member proper,
    reference_clean (maskFor_free free) _ needle member proper⟩

/-- A needle that holds the preferred mask byte, split over two chunks. -/
theorem redaction_clean_starred :
    ¬ bytes "a*" <:+: output (fun sent => (sent.length, (none : Option Unit))) [bytes "a*", []]
        [bytes "aa", bytes "**"] ∧ ¬ bytes "a*" <:+: string (bytes "aa**") [bytes "a*", []] :=
  redaction_clean (fun sent => (sent.length, (none : Option Unit))) (fun _ => rfl)
    [bytes "a*", []] [bytes "aa", bytes "**"] ⟨'x'.toUInt8, by decide, by decide⟩
    (bytes "a*") (by decide) (by decide)

/-! ## What is held back -/

/-- The empty needles have no proper prefix, so leaving them out changes no overlap. -/
theorem longest_views {needles : List Bytes} {text : Bytes} {hold : Nat} :
    Longest (views needles) text hold ↔ Longest needles text hold := by
  have same : ∀ k, Overlap (views needles) text k ↔ Overlap needles text k := by
    intro k
    constructor
    · rintro ⟨fits, needle, member, shorter, starts⟩
      exact ⟨fits, needle, ((mem_views needles needle).mp member).1, shorter, starts⟩
    · rintro ⟨fits, needle, member, shorter, starts⟩
      have proper : needle ≠ [] := length_pos_iff.mp (Nat.zero_lt_of_lt shorter)
      exact ⟨fits, needle, (mem_views needles needle).mpr ⟨member, proper⟩, shorter, starts⟩
  constructor
  · rintro ⟨fits, attained, bound⟩
    exact ⟨fits, attained.imp_right (same hold).mp, fun k overlap => bound k ((same k).mpr overlap)⟩
  · rintro ⟨fits, attained, bound⟩
    exact ⟨fits, attained.imp_right (same hold).mpr, fun k overlap => bound k ((same k).mp overlap)⟩

/-- What a Write passes on does not depend on the underlying writer, and it fails as that
does. What it leaves if it does not fail depends on it no more, and then it has written
all it was given, provided that all it passed on was taken. -/
theorem write_shape (w : Writer) (p : Bytes) : ∃ sent next, ∀ under : Underlying ε,
    (w.write under p).2.1 = sent ∧ (w.write under p).2.2.2 = (under sent).2 ∧
      ((under sent).2 = none → (w.write under p).1 = next ∧
        ((under sent).1 = sent.length → (w.write under p).2.2.1 = p.length)) := by
  -- What is passed on and left is read off an underlying writer that takes everything.
  let taking : Underlying ε := fun b => (b.length, none)
  refine ⟨(w.write taking p).2.1, (w.write taking p).1, fun under => ?_⟩
  unfold Writer.write
  by_cases empty : w.needles = []
  · rw [if_pos empty, if_pos empty]
    exact ⟨rfl, rfl, fun _ => ⟨rfl, id⟩⟩
  · simp only [if_neg empty]
    by_cases bypass : w.pending = 0 ∧ containsAny p w.needles = false
    · simp only [if_pos bypass, taking]
      split
      · next failed =>
        exact ⟨rfl, failed.symm, fun taken => absurd (failed.symm.trans taken) (by simp)⟩
      · next taken => exact ⟨rfl, taken.symm, fun _ => ⟨rfl, fun _ => rfl⟩⟩
    · simp only [if_neg bypass, taking]
      split
      · next failed =>
        exact ⟨rfl, failed.symm, fun taken => absurd (failed.symm.trans taken) (by simp)⟩
      · next taken => exact ⟨rfl, taken.symm, fun _ => ⟨rfl, fun _ => rfl⟩⟩

/-- What has been passed on of a stream: all that is before its longest overlap, masked. -/
def released (needles : List Bytes) (stream : Bytes) : Bytes :=
  (reference needles stream).take (stream.length - partialMatch stream (views needles))

/-- What one more chunk of a stream lets through. -/
def passedBy (needles : List Bytes) (stream p : Bytes) : Bytes :=
  (released needles (stream ++ p)).drop (released needles stream).length

/-- What is still held back of a stream, masked. -/
def heldBack (needles : List Bytes) (stream : Bytes) : Bytes :=
  (reference needles stream).drop (released needles stream).length

section Released

variable {given : List Bytes} {stream emitted : Bytes} {w : Writer}

section

variable (tracks : Tracks given stream emitted w)
include tracks

theorem Tracks.released : emitted = released given stream := by
  have longest := tracks.longest
  rw [tracks.needles] at longest
  rw [tracks.emitted, Redact.released, longest.unique
    (partialMatch_longest stream (views given) (views_proper given))]

/-- One Write passes on what the chunk lets through. It fails as the underlying writer
does with that, and otherwise keeps the invariant. -/
theorem write_passes (under : Underlying ε) (p : Bytes) :
    (w.write under p).2.1 = passedBy given stream p ∧
      (w.write under p).2.2.2 = (under (passedBy given stream p)).2 ∧
      ((under (passedBy given stream p)).2 = none →
        Tracks given (stream ++ p) (emitted ++ passedBy given stream p) (w.write under p).1 ∧
        ((under (passedBy given stream p)).1 = (passedBy given stream p).length →
          (w.write under p).2.2.1 = p.length)) := by
  obtain ⟨sent, next, shape⟩ := write_shape w p
  have advanced := write_tracks (fun b => (b.length, (none : Option ε))) (fun _ => rfl) tracks p
  obtain ⟨passed, _, kept⟩ := shape fun b => (b.length, none)
  rw [passed, (kept rfl).1] at advanced
  have lets : sent = passedBy given stream p := by
    have whole := advanced.released
    rw [passedBy, ← whole, ← tracks.released, drop_left]
  subst lets
  obtain ⟨passed, error, kept⟩ := shape under
  refine ⟨passed, error, fun taken => ?_⟩
  rw [(kept taken).1]
  exact ⟨advanced, (kept taken).2⟩

/-- Close passes on what is held back, if anything is. -/
theorem close_passes (under : Underlying ε) :
    (w.close under).2.1 = heldBack given stream ∧ (w.pending = 0 ↔ heldBack given stream = []) ∧
      (w.pending ≠ 0 → (w.close under).2.2 = (under (heldBack given stream)).2) := by
  have whole := close_completes under tracks
  have held : (w.close under).2.1 = heldBack given stream := by
    rw [heldBack, ← tracks.released, ← whole, drop_left]
  refine ⟨held, ?_, ?_⟩
  · have fits := tracks.longest.fits
    have size : (heldBack given stream).length = w.pending := by
      rw [heldBack, ← tracks.released, tracks.emitted, length_drop, length_take, reference_length]
      omega
    rw [← length_eq_zero_iff, size]
  · intro some
    rw [← held]
    unfold Writer.close
    rw [if_neg some]

end

end Released

/-- Successive Writes can be cut anywhere. -/
theorem writeAll_append (under : Underlying ε) (w : Writer) (first rest : List Bytes) :
    w.writeAll under (first ++ rest) =
      (((w.writeAll under first).1.writeAll under rest).1,
        (w.writeAll under first).2 ++ ((w.writeAll under first).1.writeAll under rest).2) := by
  induction first generalizing w with
  | nil => rfl
  | cons p first ih =>
    simp only [cons_append, Writer.writeAll, ih]
    rw [append_assoc]

/-- After any number of Writes that did not fail, exactly the longest overlap has not
been passed on: the longest end of the stream that is a proper prefix of a needle, which
is shorter than some needle. What has been passed on begins the output of every
continuation of the stream. Each byte that has not been is part of a match in some
continuation: a needle that starts at or before it and goes on beyond the end. -/
theorem writer_holds_back (under : Underlying ε) (reliable : ∀ sent, (under sent).2 = none)
    (needles chunks : List Bytes) :
    ∃ hold, Longest needles chunks.flatten hold ∧
      ((newWriter needles).writeAll under chunks).2.length = chunks.flatten.length - hold ∧
      ((∃ needle ∈ needles, needle ≠ []) → ∃ needle ∈ needles, hold < needle.length) ∧
      (∀ more, ((newWriter needles).writeAll under chunks).2 <+:
        output under needles (chunks ++ more)) ∧
      ∀ i < chunks.flatten.length, ((newWriter needles).writeAll under chunks).2.length ≤ i →
        ∃ needle ∈ needles, ∃ start ≤ i, ∃ more, more ≠ [] ∧
          chunks.flatten.drop start ++ more = needle := by
  have tracks := writeAll_tracks under reliable chunks (tracks_new needles)
  rw [nil_append, nil_append] at tracks
  have longest : Longest needles chunks.flatten
      ((newWriter needles).writeAll under chunks).1.pending := by
    have seen := tracks.longest
    rwa [tracks.needles, longest_views] at seen
  have emitted : ((newWriter needles).writeAll under chunks).2.length =
      chunks.flatten.length - ((newWriter needles).writeAll under chunks).1.pending := by
    rw [tracks.emitted, length_take, reference_length]
    omega
  refine ⟨((newWriter needles).writeAll under chunks).1.pending, longest, emitted, ?_, ?_, ?_⟩
  · rintro ⟨needle, member, proper⟩
    rcases longest.attained with none | ⟨_, other, known, shorter, _⟩
    · exact ⟨needle, member, none ▸ length_pos_iff.mpr proper⟩
    · exact ⟨other, known, shorter⟩
  · intro more
    rw [output, writeAll_append, append_assoc]
    exact prefix_append _ _
  · -- The needle of the longest overlap begins where the held back bytes do.
    intro i inside held
    have fits := longest.fits
    rcases longest.attained with none | ⟨_, needle, member, shorter, more, goesOn⟩
    · omega
    · refine ⟨needle, member, _, by omega, more, ?_, goesOn⟩
      rintro rfl
      have same := congrArg List.length goesOn
      rw [append_nil, length_drop] at same
      omega

/-- A byte that only one of two needles can still use is held back, and no other. -/
theorem writer_holds_back_waiting :
    ∃ hold, Longest [bytes "abc", bytes "ca"] (bytes "xab" ++ (bytes "c" ++ [])) hold ∧
      ((newWriter [bytes "abc", bytes "ca"]).writeAll
        (fun sent => (sent.length, (none : Option Unit)))
        [bytes "xab", bytes "c"]).2.length = 4 - hold ∧ hold = 1 := by
  obtain ⟨hold, longest, emitted, _⟩ :=
    writer_holds_back (fun sent => (sent.length, (none : Option Unit)))
    (fun _ => rfl) [bytes "abc", bytes "ca"] [bytes "xab", bytes "c"]
  have written : ((newWriter [bytes "abc", bytes "ca"]).writeAll
      (fun sent => (sent.length, (none : Option Unit)))
      [bytes "xab", bytes "c"]).2.length = 3 := by decide
  have size : [bytes "xab", bytes "c"].flatten.length = 4 := by decide
  have fits := longest.fits
  exact ⟨hold, longest, by rw [emitted, size], by omega⟩

end TrustedCourier.Redact
