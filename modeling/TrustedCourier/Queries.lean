import Mathlib.Data.List.Dedup
import TrustedCourier.UrlEscapes

/-!
# Query strings

A raw query is read twice on its way: `url.ParseQuery` finds the parameters by name,
and `withoutParam` takes the parameters of a name out of the raw text. Both cut the
text at every `&` and each piece at its first `=`. They decide alike which pieces
carry a name, because a piece that only one of them can read carries nothing for the
other.

`url.Values` is the list of parsed parameters in the order of the text; looking up a
name keeps that order. Go bounds how many parameters it parses, by a setting: the
bound is a parameter here. What `ParseQuery` reports about unreadable pieces is not
modelled, since every caller ignores it.
-/

namespace TrustedCourier.Queries

open ByteStrings UrlEscapes List

/-- The pieces of a query. -/
def pieces (rawQuery : Bytes) : List Bytes := rawQuery.splitOn 0x26

/-- The pieces that hold anything. -/
def params (rawQuery : Bytes) : List Bytes := (pieces rawQuery).filter (· ≠ [])

/-- One round of the loop in `parseQuery`: the name and the value of a piece that can
be read. -/
def parsePair (pair : Bytes) : Option (Bytes × Bytes) :=
  if 0x3B ∈ pair then none
  else
    let key := (cut pair 0x3D).1
    let value := (cut pair 0x3D).2.1
    match queryUnescape key, queryUnescape value with
    | some key, some value => some (key, value)
    | _, _ => none

/-- The parameters that can be read, in order. -/
def readParams (rawQuery : Bytes) : List (Bytes × Bytes) := (params rawQuery).filterMap parsePair

/-- `url.ParseQuery`, with the most pieces it accepts. -/
def parseQuery (maxParams : Option Nat) (rawQuery : Bytes) : List (Bytes × Bytes) :=
  match maxParams with
  | none => readParams rawQuery
  | some most => if rawQuery.count 0x26 + 1 ≤ most then readParams rawQuery else []

/-- The values of a name, as `url.Values` holds them. -/
def values (parsed : List (Bytes × Bytes)) (name : Bytes) : List Bytes :=
  (parsed.filter (·.1 = name)).map Prod.snd

/-- The names of the parameters in the order of their bytes. -/
def sortedNames (parsed : List (Bytes × Bytes)) : List Bytes :=
  (parsed.map Prod.fst).dedup.mergeSort fun a b => decide (a ≤ b)

/-- How a parameter is written. -/
def encodePair (key value : Bytes) : Bytes := queryEscape key ++ 0x3D :: queryEscape value

/-- `Values.Encode`. -/
def encode (parsed : List (Bytes × Bytes)) : Bytes :=
  [0x26].intercalate ((sortedNames parsed).flatMap fun name => (values parsed name).map
    (encodePair name))

/-- No `;` and no incomplete escape: the loop of `cleanQueryParams` reaches the end. -/
def wellEscaped : Bytes → Bool
  | [] => true
  | c :: rest =>
    if c = 0x3B then false
    else if c = 0x25 then
      match rest with
      | a :: b :: tail => ishex a && ishex b && wellEscaped tail
      | _ => false
    else wellEscaped rest

/-- `cleanQueryParams`: what `ReverseProxy` hands on of a query. -/
def cleanQueryParams (maxParams : Option Nat) (s : Bytes) : Bytes :=
  if wellEscaped s then s else encode (parseQuery maxParams s)

/-- The name `withoutParam` reads in a piece. -/
def paramName (pair : Bytes) : Bytes :=
  let key := (cut pair 0x3D).1
  (queryUnescape key).getD key

/-- `withoutParam`. -/
def withoutParam (rawQuery name : Bytes) : Bytes :=
  [0x26].intercalate ((pieces rawQuery).filter fun pair => paramName pair ≠ name)

/-! ## Cutting and joining -/

/-- Joined pieces that hold no separator are the parameters of the joined text. -/
theorem params_intercalate {parts : List Bytes} (whole : ∀ part ∈ parts, 0x26 ∉ part) :
    params ([0x26].intercalate parts) = parts.filter (· ≠ []) := by
  unfold params pieces
  cases parts with
  | nil => rfl
  | cons first rest => rw [splitOn_intercalate 0x26 whole (cons_ne_nil first rest)]

/-- Taking a name out leaves the other parameters, byte by byte and in order. -/
theorem params_withoutParam (rawQuery name : Bytes) :
    params (withoutParam rawQuery name) = (params rawQuery).filter fun pair => paramName pair ≠
      name := by
  have whole : ∀ part ∈ (pieces rawQuery).filter fun pair => paramName pair ≠ name, 0x26 ∉ part :=
    fun part member => not_mem_of_mem_splitOn (mem_of_mem_filter member)
  rw [withoutParam, params_intercalate whole, params, filter_filter, filter_filter]
  apply filter_congr
  intro pair _
  rw [Bool.and_comm]

/-- A parameter put behind a query, with a separator if there is anything before it. -/
theorem params_behind {rawQuery pair : Bytes} (whole : 0x26 ∉ pair) (nonempty : pair ≠ []) :
    params ((if rawQuery ≠ [] then rawQuery ++ bytes "&" else rawQuery) ++ pair) =
      params rawQuery ++ [pair] := by
  have single : params pair = [pair] := by
    rw [params, pieces, splitOn_eq_singleton whole, filter_cons_of_pos (by simpa using nonempty),
      filter_nil]
  split
  · have joined : rawQuery ++ bytes "&" ++ pair = rawQuery ++ 0x26 :: pair := by
      rw [append_assoc]
      rfl
    rw [joined, params, pieces, splitOn_append_cons_self, filter_append]
    exact congrArg (params rawQuery ++ ·) single
  · next empty =>
    rw [not_not.mp empty, nil_append, single]
    rfl

/-! ## Reading -/

/-- A piece that is read carries the name `withoutParam` reads. -/
theorem paramName_of_parsePair {pair key value : Bytes}
    (parsed : parsePair pair = some (key, value)) :
    paramName pair = key := by
  unfold parsePair at parsed
  split at parsed
  · simp at parsed
  · simp only at parsed
    split at parsed
    · next readKey readValue first second =>
      obtain ⟨rfl, rfl⟩ := Prod.mk.inj (Option.some.inj parsed)
      simp [paramName, first]
    · simp at parsed

/-- Taking a name out of the text takes it out of what is read. -/
theorem readParams_withoutParam (rawQuery name : Bytes) :
    readParams (withoutParam rawQuery name) = (readParams rawQuery).filter (·.1 ≠ name) := by
  unfold readParams
  rw [params_withoutParam]
  induction params rawQuery with
  | nil => rfl
  | cons pair rest ih =>
    cases parsed : parsePair pair with
    | none =>
      rw [filterMap_cons_none parsed, ← ih]
      by_cases kept : paramName pair ≠ name
      · rw [filter_cons_of_pos (by simpa using kept), filterMap_cons_none parsed]
      · rw [filter_cons_of_neg (by simpa using kept)]
    | some entry =>
      have named : paramName pair = entry.1 := paramName_of_parsePair parsed
      rw [filterMap_cons_some parsed]
      by_cases kept : entry.1 ≠ name
      · rw [filter_cons_of_pos (by simpa [named] using kept), filterMap_cons_some parsed, ih,
          filter_cons_of_pos (by simpa using kept)]
      · rw [filter_cons_of_neg (by simpa [named] using kept), ih,
          filter_cons_of_neg (by simpa using kept)]

/-- An escaped text holds no separator. -/
theorem queryEscape_plain (s : Bytes) : 0x26 ∉ queryEscape s ∧ 0x3B ∉ queryEscape s ∧
    0x3D ∉ queryEscape s := by
  have each : ∀ c : UInt8, 0x26 ∉ escapeByte c ∧ 0x3B ∉ escapeByte c ∧
      0x3D ∉ escapeByte c := by decide +kernel
  unfold queryEscape
  refine ⟨?_, ?_, ?_⟩ <;> intro member <;> obtain ⟨c, _, inside⟩ := mem_flatMap.mp member
  · exact (each c).1 inside
  · exact (each c).2.1 inside
  · exact (each c).2.2 inside

/-- A text of bytes that are never escaped is its own escape. -/
theorem queryEscape_unreserved {s : Bytes} (plain : ∀ c ∈ s, unreserved c = true) :
    queryEscape s = s := by
  induction s with
  | nil => rfl
  | cons c rest ih =>
    have later := ih fun d member => plain d (mem_cons_of_mem c member)
    unfold queryEscape at later ⊢
    rw [flatMap_cons, later, escapeByte, if_pos (plain c mem_cons_self)]
    rfl

/-- A written parameter is one piece. -/
theorem encodePair_whole (key value : Bytes) : 0x26 ∉ encodePair key value := by
  have first := (queryEscape_plain key).1
  have second := (queryEscape_plain value).1
  simp [encodePair, first, second]

/-- A written parameter is read back. -/
theorem parsePair_encodePair (key value : Bytes) :
    parsePair (encodePair key value) = some (key, value) := by
  obtain ⟨_, keySemicolon, keyEqual⟩ := queryEscape_plain key
  obtain ⟨_, valueSemicolon, _⟩ := queryEscape_plain value
  have accepted : 0x3B ∉ encodePair key value := by simp [encodePair, keySemicolon, valueSemicolon]
  have halves := cut_append keyEqual (queryEscape value)
  simp only [parsePair, if_neg accepted]
  rw [encodePair, halves]
  simp only [queryUnescape_queryEscape]

/-- The values of a name are those it is read with. -/
@[simp] theorem mem_values (parsed : List (Bytes × Bytes)) (name value : Bytes) :
    value ∈ values parsed name ↔ (name, value) ∈ parsed := by
  simp [values]

variable {entry : Bytes × Bytes} {maxParams : Option Nat}

/-- A query in which anything is parsed is parsed as a whole. -/
theorem parseQuery_of_mem {rawQuery : Bytes}
    (read : entry ∈ parseQuery maxParams rawQuery) :
    parseQuery maxParams rawQuery = readParams rawQuery := by
  unfold parseQuery at read ⊢
  cases maxParams with
  | none => rfl
  | some most =>
    simp only at read ⊢
    split at read
    · next within => rw [if_pos within]
    · exact absurd read not_mem_nil

/-- Encoded parameters read back as some of those that were encoded. -/
theorem mem_readParams_encode {parsed : List (Bytes × Bytes)}
    (read : entry ∈ readParams (encode parsed)) : entry ∈ parsed := by
  have written :
    ∀ part ∈ (sortedNames parsed).flatMap fun name => (values parsed name).map (encodePair name),
      ∃ name value, (name, value) ∈ parsed ∧ part = encodePair name value := by
    intro part member
    obtain ⟨name, _, inside⟩ := mem_flatMap.mp member
    obtain ⟨value, held, rfl⟩ := mem_map.mp inside
    exact ⟨name, value, (mem_values parsed name value).mp held, rfl⟩
  have whole :
    ∀ part ∈ (sortedNames parsed).flatMap fun name => (values parsed name).map (encodePair name),
      0x26 ∉ part := by
    intro part member
    obtain ⟨name, value, _, rfl⟩ := written part member
    exact encodePair_whole name value
  rw [readParams, encode, params_intercalate whole] at read
  obtain ⟨pair, member, readBack⟩ := mem_filterMap.mp read
  obtain ⟨name, value, held, rfl⟩ := written pair (mem_of_mem_filter member)
  rw [parsePair_encodePair] at readBack
  cases readBack
  exact held

/-- Whatever is read in the query that is handed on was read in the query that came
in, if that one was parsed at all. -/
theorem mem_readParams_clean {s : Bytes}
    (parsed : parseQuery maxParams s = readParams s)
    (read : entry ∈ readParams (cleanQueryParams maxParams s)) :
    entry ∈ parseQuery maxParams s := by
  unfold cleanQueryParams at read
  split at read
  · rw [parsed]
    exact read
  · exact mem_readParams_encode read

/-- Whatever is parsed in the query that is handed on was parsed in the query that came
in. -/
theorem mem_parseQuery_clean {s : Bytes}
    (read : entry ∈ parseQuery maxParams (cleanQueryParams maxParams s)) :
    entry ∈ parseQuery maxParams s := by
  have within := parseQuery_of_mem read
  unfold cleanQueryParams at read within
  split at read
  · exact read
  · next unclean =>
    rw [if_neg unclean] at within
    rw [within] at read
    exact mem_readParams_encode read

end TrustedCourier.Queries
