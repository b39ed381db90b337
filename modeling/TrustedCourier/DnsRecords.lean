import TrustedCourier.DnsZones
import TrustedCourier.JsonDecode
import TrustedCourier.SetEdits
import TrustedCourier.Xml

/-!
# TXT records at the DNS providers

`Present` and `Cleanup` read the TXT values at a name and submit what makes the set one value
larger or smaller. Route 53 and Google hold quoted values in a set with a TTL, which is
replaced or deleted as a whole; Azure holds records of strings under a path; Cloudflare holds
single records with ids, and lists a hundred of them at a time. The code is a function from
the provider's answer to what is submitted. The providers' part is what their documents
say: what an answer holds and what a change does. Requests fail as a whole or not at all;
only those that succeed are here.

A provider's API is spoken in XML or JSON, which carry texts only. So what a provider holds
are texts, and other bytes arrive as U+FFFD.
-/

namespace TrustedCourier.Dns

open ByteStrings SetEdits

/-- `TTL`, in seconds. -/
def TTL : Int := 60

/-- `unquote`. -/
def unquote (s : Bytes) : Bytes :=
  if 2 ≤ s.length ∧ s.head? = some 0x22 ∧ s.getLast? = some 0x22 then s.tail.dropLast else s

/-- `quote`. -/
def quote (s : Bytes) : Bytes := 0x22 :: (s ++ [0x22])

/-- `fqdn`. -/
def fqdn (name : Bytes) : Bytes := trimTrailing name [0x2E] ++ [0x2E]

@[simp] theorem unquote_quote (s : Bytes) : unquote (quote s) = s := by
  have ends : (quote s).getLast? = some 0x22 := by
    rw [quote, ← List.cons_append]
    exact List.getLast?_concat
  rw [unquote, if_pos ⟨by simp [quote], rfl, ends⟩]
  simp [quote]

/-- A value without quotes is its own. -/
theorem unquote_of_not_mem {s : Bytes} (free : 0x22 ∉ s) : unquote s = s := by
  rw [unquote, if_neg]
  rintro ⟨_, first, _⟩
  exact free (List.mem_of_mem_head? first)

/-! ## What the providers hold -/

/-- A format that carries texts. -/
structure Carrier where
  carried : Bytes → Bytes
  Text : Bytes → Prop
  whole : ∀ {s}, Text s → carried s = s
  settled : ∀ s, Text (carried s)
  empty : Text []
  joins : ∀ {c}, c = 0x22 ∨ c = 0x2E → ∀ front back, Text (front ++ c :: back) ↔
    Text front ∧ Text back

def xml : Carrier where
  carried := Xml.carried
  Text := Xml.Text
  whole := Xml.carried_of_text
  settled := Xml.text_carried
  empty := fun _ member => absurd member List.not_mem_nil
  joins := by
    rintro c (rfl | rfl) front back <;> exact Xml.text_append (by decide) (by decide) front back

def json : Carrier where
  carried := JsonDecode.coerce
  Text := fun s => Utf8.validString s = true
  whole := JsonDecode.coerce_valid
  settled := JsonDecode.validString_coerce
  empty := rfl
  joins := by
    rintro c (rfl | rfl) front back <;>
      rw [Utf8.validString_append_ascii _ (by decide), Bool.and_eq_true]

variable {c : Carrier}

theorem Carrier.text_quote {s : Bytes} (text : c.Text s) : c.Text (quote s) :=
  (c.joins (.inl rfl) [] (s ++ [0x22])).mpr ⟨c.empty, (c.joins (.inl rfl) s []).mpr ⟨text, c.empty⟩⟩

theorem Carrier.text_fqdn {name : Bytes} (text : c.Text name) : c.Text (fqdn name) := by
  rw [fqdn, c.joins (.inr rfl)]
  refine ⟨?_, c.empty⟩
  by_cases dotted : [0x2E] <:+ name
  · obtain ⟨front, rfl⟩ := dotted
    rw [trimTrailing_append]
    exact ((c.joins (.inr rfl) front []).mp text).1
  · rwa [trimTrailing_of_not dotted]

/-- A record set as the APIs of Route 53 and Google carry it. -/
structure RecordSet where
  name : Bytes := []
  type : Bytes := []
  ttl : Int := 0
  values : List Bytes := []
deriving DecidableEq

/-- A TXT set that a provider holds: texts, and at least one. -/
structure TxtSet (c : Carrier) where
  ttl : Int
  values : List Bytes
  nonempty : values ≠ []
  texts : ∀ v ∈ values, c.Text v

/-- The TXT sets by their zones and their names, without regard to letter case. -/
abbrev Store (c : Carrier) := Bytes → List Bytes → Option (TxtSet c)

/-- A name in a zone. -/
structure Place where
  zone : Bytes
  name : Bytes

/-- Names are compared without case. -/
def Place.key (fold : Bytes → Bytes) (p : Place) : List Bytes := Utf8.caseless fold (fqdn p.name)

/-- The set that arrives, if any value does. -/
def received (c : Carrier) (ttl : Int) (values : List Bytes) : Option (TxtSet c) :=
  if some_ : values = [] then none
  else some {
    ttl := ttl
    values := values.map c.carried
    nonempty := by simpa using some_
    texts := by
      intro v member
      obtain ⟨sent, _, rfl⟩ := List.mem_map.mp member
      exact c.settled sent }

/-- The set at a name becomes this. -/
def Store.put (s : Store c) (zone : Bytes) (key : List Bytes) (set : Option (TxtSet c)) : Store c :=
  Function.update s zone (Function.update (s zone) key set)

section Sets

variable (fold : Bytes → Bytes)

/-- The record set the store keeps at a place. -/
def Store.at (s : Store c) (p : Place) : Option (TxtSet c) := s p.zone (p.key fold)

/-- The values at a name, as they are held. -/
def Store.values (s : Store c) (p : Place) : List Bytes := ((s.at fold p).map TxtSet.values).getD []

/-- The set is the TXT set of the name. -/
def RecordSet.isAt (set : RecordSet) (name : Bytes) : Bool :=
  Utf8.equalFold fold set.name (fqdn name) && set.type == bytes "TXT"

/-- What a provider lists for a name: its TXT set, or else none of that name. Route 53 lists
the next set it has then. -/
def Answers (s : Store c) (p : Place) (answer : List RecordSet) : Prop :=
  match s.at fold p with
  | some set => ∃ own, c.Text own ∧ Utf8.equalFold fold own (fqdn p.name) = true ∧
      answer = [{ name := own, type := bytes "TXT", ttl := set.ttl, values := set.values }]
  | none => ∀ set ∈ answer, set.isAt fold p.name = false

/-! ## Route 53 -/

/-- `route53.values`: the values, unquoted, and the TTL. -/
def route53Values (answer : List RecordSet) (name : Bytes) : List Bytes × Int :=
  answer.foldl (fun found set => if set.isAt fold name then
    (found.1 ++ set.values.map unquote, set.ttl) else found) ([], 0)

/-- What a change asks of Route 53. -/
inductive Action where
  | upsert
  | delete
deriving DecidableEq

/-- One change of a Route 53 batch. -/
structure Route53Change where
  action : Action
  set : RecordSet
deriving DecidableEq

/-- `route53.change`. -/
def route53Change (action : Action) (name : Bytes) (ttl : Int) (values : List Bytes) :
    Route53Change :=
  { action := action,
    set := { name := fqdn name, type := bytes "TXT", ttl := ttl, values := values.map quote } }

/-- `route53.Present`, given the answer. -/
def route53Present (answer : List RecordSet) (name value : Bytes) : List Route53Change :=
  let current := (route53Values fold answer name).1
  if current.contains value then [] else [route53Change .upsert name TTL (withValue current value)]

/-- `route53.Cleanup`, given the answer. -/
def route53Cleanup (answer : List RecordSet) (name value : Bytes) : List Route53Change :=
  let (current, ttl) := route53Values fold answer name
  if !current.contains value then []
  else
    let remaining := withoutValue current value
    if 0 < remaining.length then [route53Change .upsert name ttl remaining]
    -- A DELETE must name the set's current values and TTL exactly.
    else [route53Change .delete name ttl current]

/-- What Route 53 makes of a change. It refuses a DELETE of another set than it holds; that
none is sent is `exact` below. -/
def route53Apply (zone : Bytes) (s : Store xml) (change : Route53Change) : Store xml :=
  s.put zone (Utf8.caseless fold (xml.carried change.set.name))
    (match change.action with
      | .upsert => received xml change.set.ttl change.set.values
      | .delete => none)

/-- `route53` and Route 53 at a name. -/
def route53 (p : Place) : Editor Bytes where
  State := Store xml
  Entry := Bytes
  Change := Route53Change
  entries := fun s => s.values fold p
  val := unquote
  step := fun s call changes t => ∃ answer, Answers fold s p answer ∧
    changes = (match call.op with
      | .add => route53Present fold answer p.name call.value
      | .remove => route53Cleanup fold answer p.name call.value) ∧
    t = changes.foldl (route53Apply fold p.zone) s
  deletes := fun change => change.action = .delete
  exact := fun s change => change.action = .delete → ∃ set, s.at fold p = some set ∧
    change.set.ttl = set.ttl ∧
    change.set.values.map xml.carried = set.values
  kept := fun s t => ∀ zone key, (zone, key) ≠ (p.zone, p.key fold) → t zone key = s zone key

/-! ## Google -/

/-- `google.set`. -/
def googleSet (answer : List RecordSet) (name : Bytes) : RecordSet :=
  (answer.find? (·.isAt fold name)).getD {}

/-- `rrset`. -/
def rrset (name : Bytes) (values : List Bytes) : RecordSet :=
  { name := fqdn name, type := bytes "TXT", ttl := TTL, values := values.map quote }

/-- A change of Cloud DNS: sets to delete and to add. -/
structure GoogleChange where
  additions : List RecordSet
  deletions : List RecordSet

/-- `google.change`. -/
def googleChange (name : Bytes) (current : RecordSet) (values : List Bytes) : GoogleChange where
  deletions := if 0 < current.values.length then [current] else []
  additions := if 0 < values.length then [rrset name values] else []

/-- `google.Present`, given the answer. -/
def googlePresent (answer : List RecordSet) (name value : Bytes) : List GoogleChange :=
  let current := googleSet fold answer name
  let values := current.values.map unquote
  if values.contains value then [] else [googleChange name current (withValue values value)]

/-- `google.Cleanup`, given the answer. -/
def googleCleanup (answer : List RecordSet) (name value : Bytes) : List GoogleChange :=
  let current := googleSet fold answer name
  let values := current.values.map unquote
  if !values.contains value then [] else [googleChange name current (withoutValue values value)]

/-- What Google makes of a change: the deletions and then the additions. It refuses deletions
of other sets than it holds; that none is sent is `exact` below. -/
def googleApply (zone : Bytes) (s : Store json) (change : GoogleChange) : Store json :=
  let deleted :=
    change.deletions.foldl (fun s set => s.put zone (Utf8.caseless fold (json.carried set.name))
      none) s
  change.additions.foldl
    (fun s set => s.put zone (Utf8.caseless fold (json.carried set.name))
      (received json set.ttl set.values)) deleted

/-- `google` and Google at a name. -/
def google (p : Place) : Editor Bytes where
  State := Store json
  Entry := Bytes
  Change := GoogleChange
  entries := fun s => s.values fold p
  val := unquote
  step := fun s call changes t => ∃ answer, Answers fold s p answer ∧
    changes = (match call.op with
      | .add => googlePresent fold answer p.name call.value
      | .remove => googleCleanup fold answer p.name call.value) ∧
    t = changes.foldl (googleApply fold p.zone) s
  deletes := fun change => change.additions = []
  exact :=
    fun s change => change.deletions.map (fun set => (set.ttl, set.values.map json.carried)) =
    ((s.at fold p).map fun set => (set.ttl, set.values)).toList
  kept := fun s t => ∀ zone key, (zone, key) ≠ (p.zone, p.key fold) → t zone key = s zone key

/-! ## Route 53 and Google edit sets -/

/-- Quoted values, none of them twice. -/
abbrev Quoted (values : List Bytes) : Prop := Spelled unquote quote values

variable {fold} {s : Store c} {p : Place}

theorem Store.texts (v : Bytes) (member : v ∈ s.values fold p) : c.Text v := by
  unfold Store.values at member
  cases held : s.at fold p with
  | none => simp [held] at member
  | some set => exact set.texts v (by simpa [held] using member)

@[simp] theorem put_put (zone : Bytes) (key : List Bytes) (first second : Option (TxtSet c)) :
    (s.put zone key first).put zone key second = s.put zone key second := by
  simp [Store.put]

theorem put_self (zone : Bytes) (key : List Bytes) : s.put zone key (s zone key) = s := by
  simp [Store.put]

theorem put_elsewhere (set : Option (TxtSet c)) (zone : Bytes) (key : List Bytes)
    (other : (zone, key) ≠ (p.zone, p.key fold)) :
    s.put p.zone (p.key fold) set zone key = s zone key := by
  unfold Store.put
  by_cases same : zone = p.zone
  · subst same
    rw [Function.update_self, Function.update_of_ne (fun equal => other (by rw [equal]))]
  · rw [Function.update_of_ne same]

/-- The values that arrive are there then. -/
theorem values_received (ttl : Int) (values : List Bytes) (texts : ∀ v ∈ values, c.Text v) :
    (s.put p.zone (p.key fold) (received c ttl values)).values fold p = values := by
  have carried : values.map c.carried = values :=
    (List.map_congr_left fun v member => c.whole (texts v member)).trans (List.map_id _)
  simp only [Store.values, Store.at, Store.put, Function.update_self, received]
  split
  · next none => rw [none]; rfl
  · exact carried

variable {value : Bytes}

/-- The set with a value more. -/
theorem values_withValue (quoted : Quoted (s.values fold p)) (ttl : Int) (text : c.Text value)
    (absent : value ∉ (s.values fold p).map unquote) :
    (s.put p.zone (p.key fold) (received c ttl
      ((withValue ((s.values fold p).map unquote) value).map quote))).values fold p =
      s.values fold p ++ [quote value] := by
  rw [quoted.withValue absent, values_received]
  intro v member
  rcases List.mem_append.mp member with old | new
  · exact Store.texts v old
  · rw [List.mem_singleton.mp new]
    exact c.text_quote text

/-- The set with a value less. -/
theorem values_withoutValue (quoted : Quoted (s.values fold p)) (ttl : Int) (value : Bytes) :
    (s.put p.zone (p.key fold) (received c ttl
      ((withoutValue ((s.values fold p).map unquote) value).map quote))).values fold p =
        (s.values fold p).filter (unquote · ≠ value) := by
  rw [quoted.withoutValue, values_received]
  exact fun v member => Store.texts v (List.mem_of_mem_filter member)

variable {answer : List RecordSet}

/-- What is listed for a name is its set, if it has one. -/
theorem Answers.isAt (answers : Answers fold s p answer) :
    (∃ set own, s.at fold p = some set ∧ s.values fold p = set.values ∧ c.Text own ∧
      Utf8.caseless fold own = p.key fold ∧
      answer = [{ name := own, type := bytes "TXT", ttl := set.ttl, values := set.values }] ∧
      (answer.map (·.isAt fold p.name)) = [true]) ∨
    (s.at fold p = none ∧ s.values fold p = [] ∧ ∀ set ∈ answer, set.isAt fold p.name = false) := by
  unfold Answers at answers
  cases held : s.at fold p with
  | some set =>
    rw [held] at answers
    obtain ⟨own, text, same, rfl⟩ := answers
    refine Or.inl ⟨set, own, rfl, by simp [Store.values, held], text, beq_iff_eq.mp same, rfl, ?_⟩
    simp [RecordSet.isAt, same]
  | none =>
    rw [held] at answers
    exact Or.inr ⟨rfl, by simp [Store.values, held], answers⟩

/-- `route53.values` returns the values and the TTL of the set. -/
theorem route53Values_eq (answers : Answers fold s p answer) :
    route53Values fold answer p.name =
      ((s.values fold p).map unquote, ((s.at fold p).map TxtSet.ttl).getD 0) := by
  rcases answers.isAt with ⟨set, own, held, values, _, _, rfl, here⟩ | ⟨held, values, elsewhere⟩
  · rw [List.map_singleton, List.cons.injEq] at here
    simp only [route53Values, List.foldl_cons, List.foldl_nil, here.1, if_true, List.nil_append,
      held, values, Option.map_some, Option.getD_some]
  · have skipped : ∀ (answer : List RecordSet) (found : List Bytes × Int),
      (∀ set ∈ answer, set.isAt fold p.name = false) →
        answer.foldl (fun found set => if set.isAt fold p.name then
          (found.1 ++ set.values.map unquote, set.ttl) else found) found = found := by
      intro answer
      induction answer with
      | nil => exact fun _ _ => rfl
      | cons set rest ih =>
        intro found elsewhere
        obtain ⟨here, later⟩ := List.forall_mem_cons.mp elsewhere
        rw [List.foldl_cons, here]
        exact ih found later
    rw [route53Values, skipped answer _ elsewhere, held, values]
    rfl

theorem route53Apply_change {s : Store xml} (text : xml.Text p.name) (action : Action) (ttl : Int)
    (values : List Bytes) :
    route53Apply fold p.zone s (route53Change action p.name ttl values) =
      s.put p.zone (p.key fold) (match action with
        | .upsert => received xml ttl (values.map quote)
        | .delete => none) := by
  rw [route53Apply, route53Change, xml.whole (xml.text_fqdn text)]
  rfl

/-- What `route53.Present` comes to. -/
theorem route53_present {s t : Store xml} {changes : List Route53Change}
    (quoted : Quoted (s.values fold p)) (named : xml.Text p.name) (text : xml.Text value)
    (taken : (route53 fold p).step s ⟨.add, value⟩ changes t) :
    Quoted (t.values fold p) ∧ (route53 fold p).Edited ⟨s, ⟨.add, value⟩, changes, t⟩ := by
  obtain ⟨answer, answers, submitted, rfl⟩ := taken
  dsimp only at submitted
  rw [route53Present, route53Values_eq answers] at submitted
  by_cases present : value ∈ (s.values fold p).map unquote
  · obtain rfl := submitted.trans (if_pos (by simpa using present))
    exact ⟨quoted, Editor.edited_silent (iff_of_true present rfl) quoted.distinct fun _ _ _ => rfl⟩
  · obtain rfl := submitted.trans (if_neg (by simpa using present))
    rw [List.foldl_cons, List.foldl_nil, route53Apply_change named]
    have after := values_withValue quoted TTL text present
    refine ⟨by rw [after]; exact quoted.append (unquote_quote value) present,
      Editor.Outcome.edited (.added rfl present (quote value) (unquote_quote value) after)
        quoted.distinct ?_ ?_⟩
    · rintro change member deletes
      obtain rfl := List.mem_singleton.mp member
      exact Action.noConfusion deletes
    · exact put_elsewhere _

/-- The one change of a cleanup that finds its value: it leaves the set without the value, and
names the whole set if it deletes that. -/
theorem route53Cleanup_present {s : Store xml}
    (quoted : Quoted (s.values fold p)) (named : xml.Text p.name)
    (answers : Answers fold s p answer)
    (present : value ∈ (s.values fold p).map unquote) :
    ∃ ttl change, route53Cleanup fold answer p.name value = [change] ∧
      route53Apply fold p.zone s change =
        s.put p.zone (p.key fold)
          (received xml ttl ((withoutValue ((s.values fold p).map unquote) value).map quote)) ∧
      (withoutValue ((s.values fold p).map unquote) value = [] → change.action = .delete) ∧
      (route53 fold p).exact s change := by
  rw [route53Cleanup, route53Values_eq answers]
  dsimp only
  rw [if_neg (by simpa using present)]
  split
  · next some_ =>
    refine ⟨_, _, rfl, route53Apply_change named .upsert _ _, fun none => ?_,
      fun deletes => Action.noConfusion deletes⟩
    rw [none] at some_
    exact absurd some_ (Nat.lt_irrefl 0)
  · next nothing =>
    refine ⟨0, _, rfl, ?_, fun _ => rfl, fun _ => ?_⟩
    · rw [route53Apply_change named, List.length_eq_zero_iff.mp (Nat.eq_zero_of_not_pos nothing)]
      rfl
    · obtain ⟨set, held⟩ : ∃ set, s.at fold p = some set := by
        cases held : s.at fold p with
        | some set => exact ⟨set, rfl⟩
        | none => simp [Store.values, held] at present
      have values : s.values fold p = set.values := by simp [Store.values, held]
      refine ⟨set, held, by simp [route53Change, held], ?_⟩
      rw [route53Change, quoted.respell, values]
      exact (List.map_congr_left fun v member => xml.whole (set.texts v member)).trans
        (List.map_id _)

/-- What `route53.Cleanup` comes to. -/
theorem route53_cleanup {s t : Store xml} {changes : List Route53Change}
    (quoted : Quoted (s.values fold p)) (named : xml.Text p.name)
    (taken : (route53 fold p).step s ⟨.remove, value⟩ changes t) :
    Quoted (t.values fold p) ∧ (route53 fold p).Edited ⟨s, ⟨.remove, value⟩, changes, t⟩ := by
  obtain ⟨answer, answers, submitted, rfl⟩ := taken
  dsimp only at submitted
  by_cases present : value ∈ (s.values fold p).map unquote
  · obtain ⟨ttl, change, single, applied, deletes, exact⟩ :=
      route53Cleanup_present quoted named answers present
    obtain rfl := submitted.trans single
    have after := values_withoutValue quoted ttl value
    rw [List.foldl_cons, List.foldl_nil, applied]
    refine ⟨by rw [after]; exact quoted.filter _,
      Editor.Outcome.edited (.removed rfl present (List.cons_ne_nil _ _) after ?_) quoted.distinct
        ?_ (put_elsewhere _)⟩
    · intro none
      exact List.forall_mem_singleton.mpr
        (deletes (quoted.withoutValue_eq_nil (after.symm.trans none)))
    · exact List.forall_mem_singleton.mpr exact
  · rw [route53Cleanup, route53Values_eq answers] at submitted
    obtain rfl := submitted.trans (if_pos (by simpa using present))
    exact ⟨quoted, Editor.edited_silent (iff_of_false present nofun) quoted.distinct fun _ _ _ =>
      rfl⟩

/-- `google.set` returns the set, or one without data. -/
theorem googleSet_eq {s : Store json} (answers : Answers fold s p answer) :
    (googleSet fold answer p.name).values = s.values fold p ∧
      ∀ set, s.at fold p = some set → (googleSet fold answer p.name).ttl = set.ttl ∧
        Utf8.caseless fold (json.carried (googleSet fold answer p.name).name) = p.key fold := by
  rcases answers.isAt with
    ⟨set, own, held, values, text, same, rfl, here⟩ | ⟨held, values, elsewhere⟩
  · rw [List.map_singleton, List.cons.injEq] at here
    simp only [googleSet, List.find?_cons, here.1, Option.getD_some]
    refine ⟨values.symm, fun other found => ?_⟩
    cases held.symm.trans found
    exact ⟨rfl, by rw [json.whole text, same]⟩
  · have none : answer.find? (·.isAt fold p.name) = none :=
      List.find?_eq_none.mpr fun set member => by
      rw [elsewhere set member]
      exact Bool.false_ne_true
    rw [googleSet, none, values]
    exact ⟨rfl, fun set found => by rw [held] at found; cases found⟩

/-- A change at Google replaces the set by these values, and names what it replaces. -/
theorem googleChange_eq {s : Store json} (answers : Answers fold s p answer)
    (named : json.Text p.name) (values : List Bytes) :
    googleApply fold p.zone s (googleChange p.name (googleSet fold answer p.name) values) =
        s.put p.zone (p.key fold) (received json TTL (values.map quote)) ∧
      (google fold p).exact s (googleChange p.name (googleSet fold answer p.name) values) := by
  obtain ⟨same, own⟩ := googleSet_eq answers
  -- Without values the addition is left out, which is what receiving none comes to.
  have added : ∀ s : Store json,
    (googleChange p.name (googleSet fold answer p.name) values).additions.foldl
      (fun s set => s.put p.zone (Utf8.caseless fold (json.carried set.name))
        (received json set.ttl set.values)) s =
        if values = [] then s else s.put p.zone (p.key fold)
          (received json TTL (values.map quote)) := by
    intro s
    by_cases none : values = []
    · rw [if_pos none, none]
      rfl
    · simp only [googleChange, if_pos (List.length_pos_iff.mpr none), if_neg none, List.foldl_cons,
        List.foldl_nil, rrset, json.whole (json.text_fqdn named)]
      rfl
  have nothing : values = [] → received json TTL (values.map quote) = none := by
    rintro rfl
    rfl
  cases held : s.at fold p with
  | none =>
    have empty : s.values fold p = [] := by simp [Store.values, held]
    have kept : (googleChange p.name (googleSet fold answer p.name) values).deletions = [] := by
      rw [googleChange, same, empty]
      rfl
    refine ⟨?_, ?_⟩
    · rw [googleApply, kept]
      dsimp only [List.foldl_nil]
      rw [added]
      split
      · next none =>
        rw [nothing none, ← held]
        exact (put_self _ _).symm
      · rfl
    · change List.map _ _ = Option.toList (Option.map _ (s.at fold p))
      rw [kept, held]
      rfl
  | some set =>
    obtain ⟨ttl, key⟩ := own set held
    have full : s.values fold p = set.values := by simp [Store.values, held]
    have deleted : (googleChange p.name (googleSet fold answer p.name) values).deletions =
        [googleSet fold answer p.name] := by
      rw [googleChange, same, full, if_pos (List.length_pos_iff.mpr set.nonempty)]
    refine ⟨?_, ?_⟩
    · rw [googleApply, deleted]
      dsimp only [List.foldl_cons, List.foldl_nil]
      rw [added, key]
      split
      · next none => rw [nothing none]
      · exact put_put _ _ _ _
    · change List.map _ _ = Option.toList (Option.map _ (s.at fold p))
      have carried : set.values.map json.carried = set.values :=
        (List.map_congr_left fun v member => json.whole (set.texts v member)).trans (List.map_id _)
      rw [deleted, held, List.map_singleton, same, full, ttl, carried]
      rfl

/-- What `google.Present` and `google.Cleanup` come to. -/
theorem google_edits {s t : Store json} {call : Call Bytes} {changes : List GoogleChange}
    (quoted : Quoted (s.values fold p)) (named : json.Text p.name)
    (text : call.op = .add → json.Text call.value) (taken : (google fold p).step s call changes t) :
    Quoted (t.values fold p) ∧ (google fold p).Edited ⟨s, call, changes, t⟩ := by
  obtain ⟨answer, answers, submitted, rfl⟩ := taken
  obtain ⟨op, value⟩ := call
  have same := (googleSet_eq answers).1
  cases op with
  | add =>
    dsimp only [googlePresent] at submitted
    rw [same] at submitted
    by_cases present : value ∈ (s.values fold p).map unquote
    · obtain rfl := submitted.trans (if_pos (by simpa using present))
      exact ⟨quoted, Editor.edited_silent (iff_of_true present rfl) quoted.distinct fun _ _ _ =>
        rfl⟩
    · obtain rfl := submitted.trans (if_neg (by simpa using present))
      obtain ⟨applied, exact⟩ :=
        googleChange_eq answers named (withValue ((s.values fold p).map unquote) value)
      have after := values_withValue quoted TTL (text rfl) present
      rw [List.foldl_cons, List.foldl_nil, applied]
      exact ⟨by rw [after]; exact quoted.append (unquote_quote value) present,
        Editor.Outcome.edited (.added rfl present (quote value) (unquote_quote value) after)
          quoted.distinct (List.forall_mem_singleton.mpr exact) (put_elsewhere _)⟩
  | remove =>
    dsimp only [googleCleanup] at submitted
    rw [same] at submitted
    by_cases present : value ∈ (s.values fold p).map unquote
    · obtain rfl := submitted.trans (if_neg (by simpa using present))
      obtain ⟨applied, exact⟩ :=
        googleChange_eq answers named (withoutValue ((s.values fold p).map unquote) value)
      have after := values_withoutValue quoted TTL value
      rw [List.foldl_cons, List.foldl_nil, applied]
      refine ⟨by rw [after]; exact quoted.filter _,
        Editor.Outcome.edited (.removed rfl present (List.cons_ne_nil _ _) after fun none => ?_)
          quoted.distinct (List.forall_mem_singleton.mpr exact) (put_elsewhere _)⟩
      refine List.forall_mem_singleton.mpr ?_
      rw [quoted.withoutValue_eq_nil (after.symm.trans none)]
      rfl
    · obtain rfl := submitted.trans (if_pos (by simpa using present))
      exact ⟨quoted, Editor.edited_silent (iff_of_false present nofun) quoted.distinct fun _ _ _ =>
        rfl⟩

end Sets

end TrustedCourier.Dns
