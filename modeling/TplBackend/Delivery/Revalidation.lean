import TplBackend.Delivery.Operation
import TplBackend.Library.Dict
import TplBackend.Library.Json
import TplBackend.Library.Raise
import TplBackend.Outbox.NotBefore

namespace TplBackend

open Calendar JsonText Keyed Raise SqlOutboxRepository

/-- What pydantic and `json` make of the objects that a mutated dict may hold; `none` where they
raise. -/
structure Objects (O : Type) where
  /-- `model_dump` of one object. -/
  dump : O → Option O
  /-- The text that a `str` field takes an object for. -/
  text : O → Option String
  /-- What `json.dumps` writes for an object. -/
  json : O → Option Value

/-- An `OutboxEvent` as `enqueue` receives it: the model is frozen, its dicts are not. -/
structure MutableEvent (O : Type) where
  topic : String
  aggregateKey : String
  deduplicationKey : String
  payload : List (O × O)
  headers : List (O × O)
  notBefore : Option AwareDatetime

inductive Refusal
  | raised (error : Raised)
  | overflowError
  | serializationError
  deriving DecidableEq

def headerMembers (items : List (Σ _ : String, String)) : List (Text.Str × Value) :=
  items.map fun item => (item.1.toList, .str item.2.toList)

/-- The text that `validate_serialized_size` measures, for one order of the headers. -/
def encoded (payload : Value) (items : List (Σ _ : String, String)) : Text.Str :=
  dumps (.obj [("payload".toList, payload), ("headers".toList, .obj (headerMembers items))])

theorem utf8Length_encoded_perm (payload : Value) {items items' : List (Σ _ : String, String)}
    (perm : items.Perm items') :
    utf8Length (encoded payload items) = utf8Length (encoded payload items') := by
  have inner : utf8Length (dumps (.obj (headerMembers items))) =
      utf8Length (dumps (.obj (headerMembers items'))) := utf8Length_dumps_perm (perm.map _)
  rw [encoded, encoded, utf8Length_dumps_obj, utf8Length_dumps_obj]
  simp only [List.map_cons, List.map_nil, utf8Length_member, inner]

/-- `len(encoded)`, which does not depend on the order of the headers. -/
def encodedLength (payload : Value) (headers : Headers) : Nat :=
  Quotient.liftOn headers.entries (fun items => utf8Length (encoded payload items))
    fun _ _ perm => utf8Length_encoded_perm payload perm

theorem encodedLength_eq {payload : Value} {headers : Headers} {items : List (Σ _ : String, String)}
    (listed : headers.entries = items) :
    encodedLength payload headers = utf8Length (encoded payload items) := by
  rw [encodedLength, listed]
  rfl

/-- The texts of the standard library, for an event with a `payload` that has its text and is `jsonb`
already. -/
def standardCodec (J : Type) (payload : Value) : Codec J where
  isoformat instant := match DateTime.ofStamp instant with
    | some wall => isoformat wall
    | none => ""
  timestamptz text := (fromisoformat text).map fun value => (value.instant : Timestamp)
  encodedLength _ headers := encodedLength payload headers
  unwritable _ := none
  jsonb _ := true

namespace MutableEvent

variable {O J : Type} (objects : Objects O)

def dumpItems (items : List (O × O)) : Except Refusal (List (O × O)) :=
  expect (items.mapM fun item => do return (← objects.dump item.1, ← objects.dump item.2))
    .serializationError

/-- `event.model_dump()` -/
def modelDump (event : MutableEvent O) : Except Refusal (MutableEvent O) := do
  let payload ← dumpItems objects event.payload
  let headers ← dumpItems objects event.headers
  return { event with payload := payload, headers := headers }

/-- `dict[str, Any]` -/
def payloadField (items : List (O × O)) : Except Refusal (List (String × O)) := do
  let items ← expect (items.mapM fun item => do return (← objects.text item.1, item.2))
    (.raised (.validationError (.field "payload")))
  return Dict.ofPairs items

/-- `dict[str, str]` -/
def headersField (items : List (O × O)) : Except Refusal Headers := do
  let items ← expect (items.mapM fun item => do return (← objects.text item.1, ← objects.text item.2))
    (.raised (.validationError (.field "headers")))
  return items.foldl (fun headers item => headers.insert item.1 item.2) ∅

def normalizeNotBefore : Option AwareDatetime → Except Refusal (Option DateTime)
  | none => .ok none
  | some value => do return some (← expect value.astimezone .overflowError)

/-- The JSON of the payload, as both `validate_serialized_size` and `_json` write it. -/
def payloadJson (fields : List (String × O)) : Except Refusal Value := do
  let members ← expect (fields.mapM fun field => do
    return (field.1.toList, ← objects.json field.2)) .serializationError
  return .obj members

/-- `OutboxEvent.model_validate`. The payload of the result is what `json.dumps` writes. -/
def modelValidate (event : MutableEvent O) : Except Refusal (OutboxEvent Value) := do
  let payload ← payloadField objects event.payload
  let headers ← headersField objects event.headers
  let notBefore ← normalizeNotBefore event.notBefore
  let payload ← payloadJson objects payload
  let event : OutboxEvent Value := ⟨event.topic, event.aggregateKey, event.deduplicationKey,
    payload, headers, notBefore.map DateTime.stamp⟩
  (event.validate (standardCodec Value payload)).mapError .raised
  return event

/-- `SqlOutboxRepository.enqueue`; `jsonb` is `CAST(:payload AS jsonb)`, `none` where it fails. -/
def enqueue [DecidableEq J] (jsonb : Value → Option J) (id : Uuid) (event : MutableEvent O)
    (now : Clock) (s : Tables J) : Except Refusal (Uuid × Tables J) := do
  let event ← modelValidate objects (← modelDump objects event)
  let codec := standardCodec J event.payload
  let payload ← expect (jsonb event.payload) (.raised .dbapiError)
  let event : OutboxEvent J := ⟨event.topic, event.aggregateKey, event.deduplicationKey, payload,
    event.headers, event.notBefore⟩
  (SqlOutboxRepository.enqueue codec id event now s).mapError .raised

/-- The tables after the transaction of an `enqueue`, which a raised exception rolls back. -/
def settled (s : Tables J) : Except Refusal (Uuid × Tables J) → Tables J
  | .ok (_, s') => s'
  | .error _ => s

section Results

variable {objects}

theorem normalizeNotBefore_ok {declared : Option AwareDatetime} {normal : Option DateTime}
    (normalized : normalizeNotBefore declared = .ok normal) :
    declared.bind AwareDatetime.astimezone = normal ∧ normal.isSome = declared.isSome := by
  cases declared with
  | none =>
      cases normalized
      exact ⟨rfl, rfl⟩
  | some value =>
      obtain ⟨wall, found, done⟩ := bind_ok.mp normalized
      obtain rfl := pure_ok.mp done
      exact ⟨expect_ok.mp found, rfl⟩

theorem isoformat_stamp (payload : Value) (wall : DateTime) :
    (standardCodec J payload).isoformat wall.stamp = isoformat wall := by
  simp only [standardCodec, DateTime.ofStamp_eq_some.mpr rfl]

def writtenPayload (objects : Objects O) (event : MutableEvent O) : Except Refusal Value := do
  payloadJson objects (← payloadField objects (← dumpItems objects event.payload))

/-- What an event that passes again is stored from. -/
theorem modelValidate_ok {event dumped : MutableEvent O} {valid : OutboxEvent Value}
    (plain : modelDump objects event = .ok dumped)
    (validated : modelValidate objects dumped = .ok valid) :
    writtenPayload objects event = .ok valid.payload ∧
      ∃ normal, normalizeNotBefore event.notBefore = .ok normal ∧
        valid.notBefore = normal.map DateTime.stamp := by
  obtain ⟨items, dumpedItems, plain⟩ := bind_ok.mp plain
  obtain ⟨_, _, plain⟩ := bind_ok.mp plain
  obtain rfl := pure_ok.mp plain
  obtain ⟨fields, accepted, validated⟩ := bind_ok.mp validated
  obtain ⟨_, _, validated⟩ := bind_ok.mp validated
  obtain ⟨normal, normalized, validated⟩ := bind_ok.mp validated
  obtain ⟨payload, written, validated⟩ := bind_ok.mp validated
  obtain ⟨_, _, validated⟩ := bind_ok.mp validated
  obtain rfl := pure_ok.mp validated
  refine ⟨?_, normal, normalized, rfl⟩
  rw [writtenPayload, dumpedItems, ok_bind, accepted, ok_bind, written]

theorem stored_row [DecidableEq J] {codec : Codec J} {key stored : Uuid} {event : OutboxEvent J}
    {now : Clock} {s s' : Tables J}
    (result : SqlOutboxRepository.enqueue codec key event now s = .ok (stored, s')) :
    ∃ m ∈ s'.outbox, m.id = stored ∧ m.payload = event.payload ∧
      m.headers = event.transportHeaders codec ∧ ∀ row ∈ s'.outbox, row = m ∨ row ∈ s.outbox := by
  obtain ⟨_, _, ⟨rfl, free, _, rfl⟩ | ⟨m, member, _, intent, rfl, rfl⟩⟩ :=
    enqueue_ok result
  · exact ⟨newRow codec stored event now, Table.mem_insert.mpr (.inr ⟨rfl, free⟩), rfl, rfl, rfl,
      fun row present => (Table.mem_insert.mp present).symm.imp And.left id⟩
  · exact ⟨m, member, rfl, intent.2.2.1, intent.2.2.2, fun row present => .inr present⟩

end Results

end MutableEvent

theorem card_le_of_not_headersExceed {headers : Headers}
    (fits : OutboxEvent.headersExceed headers = false) : headers.entries.card ≤ 32 := by
  simp only [OutboxEvent.headersExceed, Bool.or_eq_false_iff, decide_eq_false_iff_not] at fits
  exact Nat.le_of_not_lt fits.1

section Exact

variable {O J : Type} [DecidableEq J]

structure Exact (objects : Objects O) (jsonb : Value → Option J) (event : MutableEvent O)
    (m : OutboxMessage J) : Prop where
  reserved : m.headers.lookup notBeforeHeader =
    (event.notBefore.bind AwareDatetime.astimezone).map isoformat
  declared : (m.headers.lookup notBeforeHeader).isSome = event.notBefore.isSome
  few : m.headers.entries.card ≤ 32
  short : ∃ payload, MutableEvent.writtenPayload objects event = .ok payload ∧
    jsonb payload = some m.payload ∧ ∀ items : List (Σ _ : String, String),
      m.headers.entries = items → utf8Length (encoded payload items) ≤ 262144

theorem exact_of_enqueue {objects : Objects O} {jsonb : Value → Option J} {id stored : Uuid}
    {event : MutableEvent O} {now : Clock} {s s' : Tables J}
    (result : event.enqueue objects jsonb id now s = .ok (stored, s')) :
    ∃ m ∈ s'.outbox, m.id = stored ∧ Exact objects jsonb event m ∧
      ∀ row ∈ s'.outbox, row = m ∨ row ∈ s.outbox := by
  obtain ⟨dumped, plain, result⟩ := bind_ok.mp result
  obtain ⟨valid, validated, result⟩ := bind_ok.mp result
  obtain ⟨payload, cast_, result⟩ := bind_ok.mp result
  obtain ⟨written, normal, normalized, scheduled⟩ :=
    MutableEvent.modelValidate_ok plain validated
  obtain ⟨same, named⟩ := MutableEvent.normalizeNotBefore_ok normalized
  have enqueued := mapError_ok.mp result
  obtain ⟨m, member, identity, body, intent, others⟩ := MutableEvent.stored_row enqueued
  have accepted := (enqueue_ok enqueued).1
  obtain ⟨fits, short⟩ := OutboxEvent.validate_limits _ _ accepted
  have reserved := OutboxEvent.lookup_reserved _ _ accepted
  rw [← intent] at fits short reserved
  have header : m.headers.lookup notBeforeHeader = normal.map isoformat := by
    rw [reserved, scheduled, Option.map_map]
    exact congrArg (Option.map · normal) (funext (MutableEvent.isoformat_stamp valid.payload))
  refine ⟨m, member, identity, ?_, others⟩
  exact {
    reserved := by rw [header, same]
    declared := by rw [header, Option.isSome_map, named]
    few := card_le_of_not_headersExceed fits
    short := ⟨valid.payload, written, (expect_ok.mp cast_).trans (congrArg some body.symm),
      fun items listed => encodedLength_eq listed ▸ short⟩ }

/-- Schedules are written one way for each instant, in the order of the instants, and what is stored
for an event, mutated or not, carries the schedule it declares and no other. -/
theorem schedule_is_declared (objects : Objects O) (jsonb : Value → Option J) (id : Uuid)
    (event : MutableEvent O) (now : Clock) (s : Tables J) :
    (∀ (first second : AwareDatetime) (x y : DateTime),
      first.astimezone = some x → second.astimezone = some y →
        (isoformat x = isoformat y ↔ first.instant = second.instant) ∧
        (fromisoformat (isoformat x)).map AwareDatetime.instant = some first.instant ∧
        (isoformat x < isoformat y ↔ first.instant < second.instant)) ∧
      (∀ refusal, event.enqueue objects jsonb id now s = .error refusal →
        MutableEvent.settled s (event.enqueue objects jsonb id now s) = s) ∧
      ∀ stored s', event.enqueue objects jsonb id now s = .ok (stored, s') →
        ∃ m ∈ s'.outbox, m.id = stored ∧ Exact objects jsonb event m ∧
          ∀ row ∈ s'.outbox, row = m ∨ row ∈ s.outbox := by
  refine ⟨?_, ?_, ?_⟩
  · intro first second x y normal normal'
    rw [AwareDatetime.astimezone_eq_some] at normal normal'
    rw [← normal, ← normal']
    refine ⟨isoformat_inj.trans DateTime.stamp_inj.symm, ?_, isoformat_lt_iff x y⟩
    rw [fromisoformat_isoformat, Option.map_some, AwareDatetime.instant_utc]
  · intro refusal raised
    rw [raised, MutableEvent.settled]
  · intro stored s' result
    exact exact_of_enqueue result

/-- Half past midnight of 2026 in Greenwich, as New Year's morning in Shanghai and as the old year's
last hour an hour west of Greenwich. -/
def sampleDeclared : AwareDatetime × AwareDatetime :=
  (⟨⟨⟨2026, 1, 1, by decide, by decide, by decide, by decide, by decide, by decide⟩,
      ⟨8, 30, 0, 0, by decide, by decide, by decide, by decide⟩⟩, 28800000000, by decide⟩,
    ⟨⟨⟨2025, 12, 31, by decide, by decide, by decide, by decide, by decide, by decide⟩,
      ⟨23, 30, 0, 0, by decide, by decide, by decide, by decide⟩⟩, -3600000000, by decide⟩)

def sampleNormal : DateTime :=
  ⟨⟨2026, 1, 1, by decide, by decide, by decide, by decide, by decide, by decide⟩,
    ⟨0, 30, 0, 0, by decide, by decide, by decide, by decide⟩⟩

def sampleObjects : Objects String := ⟨some, some, fun text => some (.str text.toList)⟩

/-- An event whose headers were mutated after it was made. -/
def sampleMutable : MutableEvent String :=
  ⟨"test.counter.v1", "counter:1", "one", [("n", "1")], [("trace", "t")], some sampleDeclared.1⟩

example : isoformat sampleNormal = "2026-01-01T00:30:00.000000+00:00" := by decide +kernel

theorem schedule_is_declared_sample :
    sampleDeclared.1.instant = sampleDeclared.2.instant ∧
      ∃ stored s', sampleMutable.enqueue sampleObjects (fun _ => some ()) 7 0 Tables.empty =
        .ok (stored, s') ∧ ∃ m ∈ s'.outbox, m.id = stored ∧
          Exact sampleObjects (fun _ => some ()) sampleMutable m := by
  have normal : sampleDeclared.1.astimezone = some sampleNormal := by
    rw [AwareDatetime.astimezone_eq_some]
    decide +kernel
  have normal' : sampleDeclared.2.astimezone = some sampleNormal := by
    rw [AwareDatetime.astimezone_eq_some]
    decide +kernel
  obtain ⟨texts, _, stores⟩ := schedule_is_declared sampleObjects (fun _ => some ()) 7
    sampleMutable 0 Tables.empty
  refine ⟨(texts _ _ _ _ normal normal').1.mp rfl, ?_⟩
  have ran : (sampleMutable.enqueue sampleObjects (fun _ => some ()) 7 0
      (Tables.empty : Tables Unit)).isOk = true := by decide +kernel
  cases result : sampleMutable.enqueue sampleObjects (fun _ => some ()) 7 0
      (Tables.empty : Tables Unit) with
  | error refusal =>
      rw [result] at ran
      cases ran
  | ok value =>
      obtain ⟨m, member, identity, stored_, _⟩ := stores value.1 value.2 result
      exact ⟨value.1, value.2, rfl, m, member, identity, stored_⟩

end Exact

end TplBackend
