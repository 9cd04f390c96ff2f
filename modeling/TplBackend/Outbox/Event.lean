import TplBackend.Outbox.Schema

namespace TplBackend

/-- What a payload makes pydantic and `json` raise. -/
inductive Unwritable
  /-- `model_dump` meets an object inside itself, or too deep. -/
  | dump (message : String)
  /-- A `ValueError` of `json.dumps` or of `encode`, such as one half of a surrogate pair. -/
  | value (message : String)
  /-- `json.dumps` has no text for an object or a key. -/
  | type
  deriving DecidableEq

/-- What the delivery code relies on outside its own modules: the text `datetime.isoformat` gives
a UTC instant, PostgreSQL's cast of a text to `timestamptz` (`none` when it raises), the number
of bytes `json.dumps` needs for a payload with its headers, the payloads that it has no text for, and
those whose text PostgreSQL casts to `jsonb` (none with a NaN, an Infinity or a NUL). -/
structure Codec (J : Type) where
  isoformat : Clock → String
  timestamptz : String → Option Timestamp
  encodedLength : J → Headers → Nat
  unwritable : J → Option Unwritable
  jsonb : J → Bool

inductive ValidationError
  | field (name : String)
  | value (message : String)
  deriving DecidableEq

inductive Raised
  | validationError (error : ValidationError)
  | valueError (message : String)
  | runtimeError (message : String)
  | deliveryLeaseLost (message : String)
  | uniqueViolation
  | typeError
  /-- PostgreSQL refuses a value of the statement. -/
  | dbapiError
  deriving DecidableEq

/-- pydantic's `ValidationError` is a `ValueError`. -/
def Raised.isValueError : Raised → Bool
  | .validationError _ => true
  | .valueError _ => true
  | _ => false

def notBeforeHeader : String := "sunmoonai.not_before.v1"

/-- `not_before` is the instant itself: `normalize_not_before` changes its zone only. -/
structure OutboxEvent (J : Type) where
  topic : String
  aggregateKey : String
  deduplicationKey : String
  payload : J
  headers : Headers
  notBefore : Option Clock

namespace OutboxEvent

variable {J : Type}

def transportHeaders (codec : Codec J) (event : OutboxEvent J) : Headers :=
  match event.notBefore with
  | none => event.headers
  | some instant => event.headers.insert notBeforeHeader (codec.isoformat instant)

/-- `^[a-z0-9][a-z0-9._-]{0,127}$` -/
def topicMatches (topic : String) : Bool :=
  match topic.toList with
  | [] => false
  | first :: rest =>
      (first.isLower || first.isDigit) && decide (rest.length ≤ 127) &&
        rest.all fun c => c.isLower || c.isDigit || c = '.' || c = '_' || c = '-'

theorem topic_chars {topic : String} (accepted : topicMatches topic = true) :
    ∀ c ∈ topic.toList, (c.isLower || c.isDigit || c = '.' || c = '_' || c = '-') = true := by
  unfold topicMatches at accepted
  split at accepted
  · cases accepted
  · rename_i first rest spelled
    simp only [Bool.and_eq_true, List.all_eq_true] at accepted
    obtain ⟨⟨start, _⟩, all⟩ := accepted
    rw [spelled, List.forall_mem_cons]
    exact ⟨by rw [start, Bool.true_or, Bool.true_or, Bool.true_or], all⟩

def lengthWithin (text : String) : Bool := decide (1 ≤ text.length ∧ text.length ≤ 512)

/-- The condition under which `validate_headers` raises. -/
def headersExceed (headers : Headers) : Bool :=
  decide (32 < headers.entries.card) ||
    headers.any fun key item =>
      key.isEmpty || decide (128 < key.length) || decide (2048 < item.length) ||
        key.toList.contains '\n' || key.toList.contains '\r' ||
        item.toList.contains '\n' || item.toList.contains '\r'

/-- The fields in order, then `validate_serialized_size`; a `ValueError` of a validator is a
`ValidationError` of the model. -/
def modelValidate (codec : Codec J) (event : OutboxEvent J) : Except Raised Unit :=
  if !topicMatches event.topic then .error (.validationError (.field "topic"))
  else if !lengthWithin event.aggregateKey then .error (.validationError (.field "aggregate_key"))
  else if !lengthWithin event.deduplicationKey then
    .error (.validationError (.field "deduplication_key"))
  else if headersExceed event.headers then
    .error (.validationError (.value "outbox headers exceed the transport contract"))
  else if (event.headers.lookup notBeforeHeader).isSome then
    .error (.validationError (.value "use not_before, not the reserved delivery header"))
  else if headersExceed (event.transportHeaders codec) then
    .error (.validationError (.value "outbox headers exceed the transport contract"))
  else match codec.unwritable event.payload with
    | some .type => .error .typeError
    | some (.value message) => .error (.validationError (.value message))
    | _ =>
      if 262144 < codec.encodedLength event.payload (event.transportHeaders codec) then
        .error (.validationError (.value "outbox event exceeds 256 KiB"))
      else .ok ()

/-- `OutboxEvent.model_validate(event.model_dump())` -/
def validate (codec : Codec J) (event : OutboxEvent J) : Except Raised Unit :=
  match codec.unwritable event.payload with
  | some (.dump message) => .error (.valueError message)
  | _ => event.modelValidate codec

def hasNul (text : String) : Bool := text.toList.contains '\x00'

/-- PostgreSQL takes the values of the statement: the payload as `jsonb`, and neither keys nor headers
with a NUL. -/
def storable (codec : Codec J) (event : OutboxEvent J) : Bool :=
  !hasNul event.aggregateKey && !hasNul event.deduplicationKey && codec.jsonb event.payload &&
    !(event.transportHeaders codec).any fun key item => hasNul key || hasNul item

structure Valid (codec : Codec J) (event : OutboxEvent J) : Prop where
  topic : topicMatches event.topic = true
  keys : lengthWithin event.aggregateKey = true ∧ lengthWithin event.deduplicationKey = true
  headers : headersExceed event.headers = false
  reserved : (event.headers.lookup notBeforeHeader).isSome = false
  fits : headersExceed (event.transportHeaders codec) = false
  written : codec.unwritable event.payload = none
  short : codec.encodedLength event.payload (event.transportHeaders codec) ≤ 262144

theorem validate_ok {codec : Codec J} {event : OutboxEvent J} :
    event.validate codec = .ok () ↔ Valid codec event := by
  constructor
  · intro accepted
    unfold validate at accepted
    split at accepted
    · cases accepted
    rename_i dumped
    unfold modelValidate at accepted
    split at accepted
    · cases accepted
    rename_i topic
    split at accepted
    · cases accepted
    rename_i aggregateKey
    split at accepted
    · cases accepted
    rename_i deduplicationKey
    split at accepted
    · cases accepted
    rename_i headers
    split at accepted
    · cases accepted
    rename_i reserved
    split at accepted
    · cases accepted
    rename_i fits
    split at accepted
    · cases accepted
    · cases accepted
    rename_i typed valued
    split at accepted
    · cases accepted
    rename_i short
    refine ⟨by simpa using topic, ⟨by simpa using aggregateKey, by simpa using deduplicationKey⟩,
      by simpa using headers, by simpa using reserved, by simpa using fits, ?_,
      Nat.le_of_not_lt short⟩
    cases found : codec.unwritable event.payload with
    | none => rfl
    | some unwritable =>
        cases unwritable with
        | dump message => exact absurd found (dumped message)
        | value message => exact absurd found (valued message)
        | type => exact absurd found typed
  · intro valid
    simp only [validate, modelValidate, valid.written, valid.topic, valid.keys.1, valid.keys.2,
      valid.headers, valid.reserved, valid.fits, Nat.not_lt.mpr valid.short, Bool.not_true,
      Bool.false_eq_true, if_false]

/-- What a refused event raises is a `ValueError`, but where its payload has no text. -/
theorem validate_error {codec : Codec J} {event : OutboxEvent J} {raised : Raised}
    (refused : event.validate codec = .error raised) :
    raised.isValueError = true ∨ raised = .typeError := by
  unfold validate at refused
  split at refused
  · cases refused
    exact Or.inl rfl
  · unfold modelValidate at refused
    repeat' split at refused
    all_goals cases refused
    all_goals first | exact Or.inl rfl | exact Or.inr rfl

theorem lookup_transportHeaders (codec : Codec J) (event : OutboxEvent J) (instant : Clock)
    (declared : event.notBefore = some instant) :
    (event.transportHeaders codec).lookup notBeforeHeader = some (codec.isoformat instant) := by
  simp [transportHeaders, declared]

theorem reserved_absent (codec : Codec J) (event : OutboxEvent J)
    (accepted : event.validate codec = .ok ()) : event.headers.lookup notBeforeHeader = none := by
  simpa using (validate_ok.mp accepted).reserved

theorem validate_limits (codec : Codec J) (event : OutboxEvent J)
    (accepted : event.validate codec = .ok ()) :
    headersExceed (event.transportHeaders codec) = false ∧
      codec.encodedLength event.payload (event.transportHeaders codec) ≤ 262144 := by
  obtain ⟨_, _, _, _, fits, _, short⟩ := validate_ok.mp accepted
  exact ⟨fits, short⟩

theorem lookup_reserved (codec : Codec J) (event : OutboxEvent J)
    (accepted : event.validate codec = .ok ()) :
    (event.transportHeaders codec).lookup notBeforeHeader = event.notBefore.map codec.isoformat := by
  cases declared : event.notBefore with
  | none =>
      rw [transportHeaders, declared]
      exact reserved_absent codec event accepted
  | some instant => exact lookup_transportHeaders codec event instant declared

theorem transportHeaders_absent (codec : Codec J) (event : OutboxEvent J)
    (undeclared : event.notBefore = none) : event.transportHeaders codec = event.headers := by
  simp [transportHeaders, undeclared]

end OutboxEvent

/-- `COALESCE((headers->>'sunmoonai.not_before.v1')::timestamptz, '-infinity'::timestamptz)` -/
def notBefore {J : Type} (codec : Codec J) (headers : Headers) : Option Timestamp :=
  match headers.lookup notBeforeHeader with
  | none => some ⊥
  | some text => codec.timestamptz text

/-- `NOT_BEFORE_DUE_SQL`. A text that does not cast fails the statement, so nothing is due by it. -/
def notBeforeDue {J : Type} (codec : Codec J) (headers : Headers) (clock : Clock) : Bool :=
  (notBefore codec headers).any fun instant => instant ≤ (clock : Timestamp)

theorem notBeforeDue_iff {J : Type} (codec : Codec J) (headers : Headers) (clock : Clock) :
    notBeforeDue codec headers clock = true ↔
      ∃ instant, notBefore codec headers = some instant ∧ instant ≤ (clock : Timestamp) := by
  simp [notBeforeDue, Option.any_eq_true_iff_get, Option.eq_some_iff_get_eq]

end TplBackend
