import TplBackend.Delivery.Operation

namespace TplBackend

open Keyed Transition SqlOutboxRepository

structure Intent (J : Type) where
  id : Uuid
  topic : String
  aggregateKey : String
  deduplicationKey : String
  payload : J
  headers : Headers

variable {J : Type}

def OutboxMessage.intent (m : OutboxMessage J) : Intent J :=
  ⟨m.id, m.topic, m.aggregateKey, m.deduplicationKey, m.payload, m.headers⟩

variable {codec : Codec J} {s s' : Tables J} {op : Op J} {id : Uuid}

theorem Rewrite.intent_eq {m m' : OutboxMessage J} (step : Rewrite codec s op m m') :
    m'.intent = m.intent := by
  cases step <;> rfl

theorem RowStep.intent_eq {m : OutboxMessage J} {row : Option (OutboxMessage J)}
    (step : RowStep codec s op id (some m) row) : ∃ m', row = some m' ∧ m'.intent = m.intent := by
  cases step with
  | rewritten rewrite => exact ⟨_, rfl, rewrite.intent_eq⟩

theorem deduplicationKey_of_intent {m m' : OutboxMessage J} (same : m'.intent = m.intent) :
    m'.deduplicationKey = m.deduplicationKey := congrArg Intent.deduplicationKey same

theorem headers_of_intent {m m' : OutboxMessage J} (same : m'.intent = m.intent) :
    m'.headers = m.headers := congrArg Intent.headers same

theorem topic_of_intent {m m' : OutboxMessage J} (same : m'.intent = m.intent) :
    m'.topic = m.topic := congrArg Intent.topic same

def Carries (intent : Intent J) (s : Tables J) : Prop :=
  ∃ m, s.outbox.find? intent.id = some m ∧ m.intent = intent

theorem carries_of_mem {m : OutboxMessage J} (member : m ∈ s.outbox) : Carries m.intent s :=
  ⟨m, Table.find?_of_mem member, rfl⟩

section Runs

variable [DecidableEq J] {allowed : Op J → Prop} {state : Tables J}
variable {history earlier later : List (Event (Tables J) (Op J))} {event : Event (Tables J) (Op J)}

theorem step_carries {intent : Intent J} (carried : Carries intent s)
    (step : Step codec allowed s op s') : Carries intent s' := by
  obtain ⟨m, present, rfl⟩ := carried
  have row := perform_row codec op s m.intent.id
  rw [present, ← step.2] at row
  obtain ⟨m', found, same⟩ := row.intent_eq
  exact ⟨m', found, same⟩

theorem run_carries (run : Run (Step codec allowed) Tables.empty (earlier ++ event :: later) state)
    {m : OutboxMessage J} (member : m ∈ event.after.outbox) : Carries m.intent state :=
  Run.stable (fun _ _ _ carried step => step_carries carried step) run (carries_of_mem member)

def OnePerKey (s : Tables J) : Prop :=
  ∀ m ∈ s.outbox, ∀ m' ∈ s.outbox, m.deduplicationKey = m'.deduplicationKey → m = m'

theorem perform_origin {m' : OutboxMessage J} (member : m' ∈ (perform codec op s).2.outbox) :
    (∃ m ∈ s.outbox, m.id = m'.id ∧ Rewrite codec s op m m') ∨
      ∃ event now, op = .enqueue m'.id event now ∧ event.validate codec = .ok () ∧
        event.storable codec = true ∧
        (∀ m ∈ s.outbox, m.deduplicationKey ≠ event.deduplicationKey) ∧
        m' = newRow codec m'.id event now := by
  have row := perform_row codec op s m'.id
  rw [Table.find?_of_mem member] at row
  generalize before : s.outbox.find? m'.id = old at row
  generalize after : some m' = new at row
  cases row with
  | absent => cases after
  | inserted inserts accepted storable fresh =>
      exact Or.inr ⟨_, _, inserts, accepted, storable, fresh, Option.some.inj after⟩
  | @rewritten m _ rewrite =>
      cases after
      obtain ⟨present, keyed⟩ := Table.find?_eq_some.mp before
      exact Or.inl ⟨m, present, keyed, rewrite⟩

theorem step_onePerKey (unique : OnePerKey s) (step : Step codec allowed s op s') :
    OnePerKey s' := by
  obtain ⟨_, rfl⟩ := step
  intro m member m' member' same
  rcases perform_origin member with
    ⟨old, present, keyed, rewrite⟩ | ⟨_, _, inserts, _, _, fresh, new⟩
  · have kept := deduplicationKey_of_intent rewrite.intent_eq
    rcases perform_origin member' with
      ⟨old', present', keyed', rewrite'⟩ | ⟨_, _, _, _, _, fresh', new'⟩
    · have kept' := deduplicationKey_of_intent rewrite'.intent_eq
      have equal := unique old present old' present' (kept ▸ kept' ▸ same)
      exact Table.eq_of_key_eq member member' (keyed.symm.trans (equal ▸ keyed'))
    · refine absurd ?_ (fresh' old present)
      rw [← kept, same, new']
      rfl
  · rcases perform_origin member' with
      ⟨old', present', keyed', rewrite'⟩ | ⟨_, _, inserts', _, _, _, _⟩
    · have kept' := deduplicationKey_of_intent rewrite'.intent_eq
      refine absurd ?_ (fresh old' present')
      rw [← kept', ← same, new]
      rfl
    · rw [inserts] at inserts'
      injection inserts' with keyed
      exact Table.eq_of_key_eq member member' keyed

theorem run_onePerKey (run : Run (Step codec allowed) Tables.empty history state) :
    OnePerKey state :=
  run.invariant (fun m member => absurd member (Table.not_mem_empty m))
    fun _ _ _ unique step => step_onePerKey unique step

/-- An enqueue on a taken key writes nothing. It answers with the stored id exactly where the event is
accepted with the whole intent of the row; what it raises otherwise is a `ValueError`, but where the
payload has no text or PostgreSQL takes no value of the event. -/
structure Resent (codec : Codec J) (s : Tables J) (m : OutboxMessage J) (event : OutboxEvent J)
    (result : Reply J × Tables J) : Prop where
  unchanged : result.2 = s
  answered : result.1 = .enqueued m.id ↔
    event.validate codec = .ok () ∧ event.storable codec = true ∧ SameIntent codec event m
  refused : result.1 = .enqueued m.id ∨ ∃ error, result.1 = .raised error ∧
    (error.isValueError = false ↔ event.validate codec = .error .typeError ∨
      event.validate codec = .ok () ∧ event.storable codec = false)

section Taken

variable {m : OutboxMessage J} {event : OutboxEvent J} {now : Clock}

omit [DecidableEq J] in
theorem found_of_taken (unique : OnePerKey s) (member : m ∈ s.outbox)
    (keyed : m.deduplicationKey = event.deduplicationKey) :
    (s.outbox.rows.find? fun row => row.deduplicationKey = event.deduplicationKey) = some m := by
  cases chosen : s.outbox.rows.find? fun row => row.deduplicationKey = event.deduplicationKey with
  | none => simpa [keyed] using List.find?_eq_none.mp chosen m member
  | some other =>
      have same : other.deduplicationKey = event.deduplicationKey := by
        simpa using List.find?_some chosen
      rw [unique other (List.mem_of_find?_eq_some chosen) m member (same.trans keyed.symm)]

theorem resent_of_raised (raised : Raised) (result : enqueue codec id event now s = .error raised)
    (other : ¬ (event.validate codec = .ok () ∧ event.storable codec = true ∧ SameIntent codec event m))
    (kind : raised.isValueError = false ↔ event.validate codec = .error .typeError ∨
      event.validate codec = .ok () ∧ event.storable codec = false) :
    Resent codec s m event (perform codec (.enqueue id event now) s) := by
  have performed : perform codec (.enqueue id event now) s = (.raised raised, s) := by
    simp [perform, settle, result]
  rw [performed]
  exact ⟨rfl, iff_of_false (by simp) other, Or.inr ⟨raised, rfl, kind⟩⟩

theorem resent_of_same (member : m ∈ s.outbox) (keyed : m.deduplicationKey = event.deduplicationKey)
    (found : (s.outbox.rows.find? fun row => row.deduplicationKey = event.deduplicationKey) = some m)
    (accepted : event.validate codec = .ok ()) (storable : event.storable codec = true)
    (same : SameIntent codec event m) :
    Resent codec s m event (perform codec (.enqueue id event now) s) := by
  cases result : enqueue codec id event now s with
  | error raised => simp [enqueue, accepted, storable, found, same] at result
  | ok value =>
      have stored : value.1 = m.id := by
        simp [enqueue, accepted, storable, found, same] at result
        rw [← result]
      obtain ⟨_, _, ⟨_, _, absent, _⟩ | ⟨_, _, _, _, _, kept⟩⟩ := enqueue_ok result
      · exact absurd keyed (absent m member)
      · have answer : (perform codec (.enqueue id event now) s).1 = .enqueued m.id := by
          simp [perform, settle, result, stored]
        refine ⟨by simp [perform, settle, result, kept], ?_, Or.inl answer⟩
        exact iff_of_true answer ⟨accepted, storable, same⟩

theorem enqueue_taken (codec : Codec J) (id : Uuid) (unique : OnePerKey s) (member : m ∈ s.outbox)
    (keyed : m.deduplicationKey = event.deduplicationKey) (now : Clock) :
    Resent codec s m event (perform codec (.enqueue id event now) s) := by
  have found := found_of_taken unique member keyed
  cases accepted : event.validate codec with
  | error raised =>
      refine resent_of_raised raised (by simp [enqueue, accepted]) (by simp [accepted]) ?_
      rw [accepted]
      rcases OutboxEvent.validate_error accepted with value | typed
      · have other : raised ≠ .typeError := by
          rintro rfl
          cases value
        simp [value, other]
      · simp [typed, Raised.isValueError]
  | ok =>
      cases storable : event.storable codec with
      | false =>
          refine resent_of_raised .dbapiError (by simp [enqueue, accepted, storable])
            (by simp [storable]) ?_
          simp [accepted, storable, Raised.isValueError]
      | true =>
          by_cases same : SameIntent codec event m
          · exact resent_of_same member keyed found accepted storable same
          · refine resent_of_raised
              (.valueError "outbox deduplication key reused with different intent")
              (by simp [enqueue, accepted, storable, found, same]) (by simp [same]) ?_
            simp [accepted, storable, Raised.isValueError]

end Taken

/-- One row for each deduplication key, immutable intent, and an enqueue on a taken key that
changes nothing and answers with the stored id exactly when the whole intent agrees. -/
theorem enqueue_idempotent (run : Run (Step codec fun _ => True) Tables.empty history state) :
    OnePerKey state ∧
      (∀ earlier event later, history = earlier ++ event :: later →
        ∀ m ∈ event.after.outbox, ∃ m' ∈ state.outbox, m'.intent = m.intent) ∧
      ∀ event ∈ history, ∀ id intended now, event.label = .enqueue id intended now →
        ∀ m ∈ event.before.outbox, m.deduplicationKey = intended.deduplicationKey →
          Resent codec event.before m intended (reply codec event, event.after) := by
  refine ⟨run_onePerKey run, ?_, ?_⟩
  · rintro earlier event later rfl m member
    obtain ⟨m', found, same⟩ := run_carries run member
    exact ⟨m', (Table.find?_eq_some.mp found).1, same⟩
  · intro event occurred id intended now enqueues m member keyed
    obtain ⟨_, _, _, before, step⟩ := run.of_mem occurred
    have resent := enqueue_taken codec id (run_onePerKey before) member keyed now
    rw [step.2, reply, enqueues]
    exact resent

end Runs

/-- The same intent twice, with a claim in between. -/
def resent : List (Op Unit) :=
  [.enqueue 7 (sampleEvent none) 0,
    .claimDelivery samplePolicy "publisher" (fun _ => false) 1000000,
    .enqueue 8 (sampleEvent none) 2000000]

theorem enqueue_idempotent_resent :
    OnePerKey (tablesAfter sampleCodec resent) ∧
      reply sampleCodec (transactions sampleCodec resent)[2] = .enqueued 7 := by
  have run : Run (Step sampleCodec fun _ => True) Tables.empty (transactions sampleCodec resent)
      (tablesAfter sampleCodec resent) := transactions_run sampleCodec fun _ _ => trivial
  have stored : ∃ m ∈ (transactions sampleCodec resent)[2].before.outbox.rows, m.id = 7 ∧
      m.deduplicationKey = "one" ∧ SameIntent sampleCodec (sampleEvent none) m := by decide
  obtain ⟨single, _, taken⟩ := enqueue_idempotent run
  obtain ⟨m, member, identity, keyed, same⟩ := stored
  have again := taken (transactions sampleCodec resent)[2] (List.getElem_mem _) 8 (sampleEvent none)
    2000000 rfl m member keyed
  have answered : reply sampleCodec (transactions sampleCodec resent)[2] = .enqueued m.id :=
    again.answered.mpr ⟨rfl, rfl, same⟩
  exact ⟨single, answered.trans (congrArg Reply.enqueued identity)⟩

section Refused

def nanCodec : Codec Bool where
  isoformat := sampleCodec.isoformat
  timestamptz := sampleCodec.timestamptz
  encodedLength _ headers := sampleCodec.encodedLength () headers
  unwritable _ := none
  jsonb nan := !nan

def nanEvent (nan : Bool) : OutboxEvent Bool :=
  ⟨"test.counter.v1", "counter:1", "one", nan, ∅, none⟩

/-- A message, and then its key with a payload that PostgreSQL does not take. -/
def resentNan : List (Op Bool) := [.enqueue 7 (nanEvent false) 0, .enqueue 8 (nanEvent true) 1000000]

/-- What is raised is no `ValueError`. -/
theorem enqueue_raises_otherwise : ¬ ∀ history state,
    Run (Step nanCodec fun _ => True) Tables.empty history state →
      ∀ event ∈ history, ∀ id intended now, event.label = .enqueue id intended now →
        ∀ m ∈ event.before.outbox, m.deduplicationKey = intended.deduplicationKey →
          reply nanCodec event = .enqueued m.id ∨
            ∃ error, reply nanCodec event = .raised error ∧ error.isValueError = true := by
  intro raises
  have stored : ∃ m ∈ (tablesAfter nanCodec [.enqueue 7 (nanEvent false) 0]).outbox.rows,
      m.deduplicationKey = "one" := by decide
  obtain ⟨m, member, keyed⟩ := stored
  have second : reply nanCodec (transactions nanCodec resentNan)[1] = .raised .dbapiError := rfl
  have present : m ∈ (transactions nanCodec resentNan)[1].before.outbox := member
  rcases raises _ _ (transactions_run nanCodec fun _ _ => trivial) (transactions nanCodec resentNan)[1]
    (List.getElem_mem _) 8 (nanEvent true) 1000000 rfl m present keyed with
    answered | ⟨error, raised, value⟩
  · rw [second] at answered
    cases answered
  · rw [second] at raised
    cases raised
    cases value

end Refused

end TplBackend
