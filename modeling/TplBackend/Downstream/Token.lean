import TplBackend.Auth.Principal
import TplBackend.Library.Run
import TplBackend.Outbox.Timestamp

/-! The cached service token of a `DownstreamServiceClient`. -/

namespace TplBackend

open Raise Text Transition Url

/-- What `int()` raises. -/
inductive IntError
  | typeError
  | valueError
  | overflowError
  deriving DecidableEq

/-- `int()` on texts and on the literals of floats. -/
structure IntBuiltin where
  str : Str → Except IntError Int
  float : Str → Except IntError Int

def IntBuiltin.int (py : IntBuiltin) : Json → Except IntError Int
  | .int n => .ok n
  | .bool value => .ok (if value then 1 else 0)
  | .str text => py.str text
  | .float repr => py.float repr
  | .null | .arr _ | .obj _ => .error .typeError

inductive TokenError
  /-- `require_downstream_identity` -/
  | valueError (msg : String)
  | serviceUnavailable (msg : String)
  | overflowError
  /-- Whatever the exchange raised, and the cancellation of the task. -/
  | external

/-- What a call of `_token` waits for. -/
inductive TokenCall
  | idle
  | locking
  | exchanging
  | ended
  deriving DecidableEq

structure TokenClient where
  accessToken : Option Str
  accessTokenExpiresAt : Clock
  /-- The call that holds `_token_lock`. -/
  lock : Option Nat
  calls : Nat → TokenCall
  /-- The last reading of `time.monotonic()`. -/
  clock : Clock

/-- One step of a call: from one `await` to the next, with the reading of `time.monotonic()`. A free
lock may go to any of the calls that wait for it. -/
inductive TokenAction
  | enter (call : Nat) (now : Clock)
  | acquire (call : Nat) (now : Clock)
  | exchanged (call : Nat) (answer : Option Claims) (now : Clock)
  | cancel (call : Nat)

def TokenAction.call : TokenAction → Nat
  | .enter call _ | .acquire call _ | .exchanged call _ _ | .cancel call => call

inductive TokenOutcome
  | awaits
  /-- `exchange_client_credentials` is started. -/
  | exchanges
  | returned (token : Str)
  /-- A new token is stored and returned. -/
  | fetched (token : Str) (expiresAt : Clock)
  | raised (error : TokenError)

namespace TokenClient

def cached (c : TokenClient) (now : Clock) : Option Str :=
  c.accessToken.filter fun _ => decide (now + seconds 30 < c.accessTokenExpiresAt)

/-- `max(1, min(int(token.get("expires_in", 300)), 3600))`, or 300 where it has no such value. -/
def ttl (py : IntBuiltin) (token : Claims) : Except TokenError Int :=
  match py.int ((token.lookup "expires_in".toList).getD (.int 300)) with
  | .ok n => .ok (max 1 (min n 3600))
  | .error .overflowError => .error .overflowError
  | .error _ => .ok 300

def accept (py : IntBuiltin) (answer : Option Claims) : Except TokenError (Str × Int) := do
  let token ← expect answer .external
  match Json.get token "access_token" with
  | .str accessToken =>
    require (accessToken ≠ []) (.serviceUnavailable
      "The downstream identity provider returned an invalid token")
    return (accessToken, ← ttl py token)
  | _ => .error (.serviceUnavailable
      "The downstream identity provider returned an invalid token")

end TokenClient

def TokenOutcome.fetched? : TokenOutcome → Option (Str × Clock)
  | .fetched token expiresAt => some (token, expiresAt)
  | _ => none

def TokenOutcome.token? : TokenOutcome → Option Str
  | .returned token | .fetched token _ => some token
  | _ => none

def fetches (history : List (Event TokenClient (TokenAction × TokenOutcome))) : List (Str × Clock) :=
  history.filterMap fun event => event.label.2.fetched?

namespace TokenClient

def enters (c : TokenClient) (call : Nat) (phase : TokenCall) : TokenClient :=
  { c with calls := Function.update c.calls call phase }

variable (py : IntBuiltin) (identity : Except String Unit)

/-- The step of the call; `none` where it is not waiting for it. `identity` is what
`require_downstream_identity` does. -/
def react (c : TokenClient) : TokenAction → Option (TokenOutcome × TokenClient)
  | .enter call now =>
    if c.calls call = .idle then
      let c := { c with clock := now }
      match c.cached now with
      | some token => some (.returned token, c.enters call .ended)
      | none => some (.awaits, c.enters call .locking)
    else none
  | .acquire call now =>
    if c.calls call = .locking ∧ c.lock = none then
      let c := { c with clock := now }
      match c.cached now with
      | some token => some (.returned token, c.enters call .ended)
      | none =>
        match identity with
        | .error msg => some (.raised (.valueError msg), c.enters call .ended)
        | .ok _ => some (.exchanges, { c.enters call .exchanging with lock := some call })
    else none
  | .exchanged call answer now =>
    if c.calls call = .exchanging then
      let c := { c with clock := now }
      match accept py answer with
      | .error raised => some (.raised raised, { c.enters call .ended with lock := none })
      | .ok (accessToken, ttl) =>
        let expiresAt := now + seconds ttl
        some (.fetched accessToken expiresAt, { c.enters call .ended with
          accessToken := some accessToken
          accessTokenExpiresAt := expiresAt
          lock := none })
    else none
  | .cancel call =>
    if c.calls call = .locking then some (.raised .external, c.enters call .ended)
    else if c.calls call = .exchanging then
      some (.raised .external, { c.enters call .ended with lock := none })
    else none

def start (clock : Clock) : TokenClient where
  accessToken := none
  accessTokenExpiresAt := 0
  lock := none
  calls := fun _ => .idle
  clock := clock

/-- Any call takes its next step, at a reading of the clock that is not before the last one. -/
def Step (c : TokenClient) (label : TokenAction × TokenOutcome) (c' : TokenClient) : Prop :=
  react py identity c label.1 = some (label.2, c') ∧ c.clock ≤ c'.clock

inductive Turn (c : TokenClient) : TokenAction × TokenOutcome → TokenClient → Prop
  | hit {action : TokenAction} {call : Nat} {now : Clock} {token : Str} :
      c.calls call ≠ .exchanging → c.cached now = some token →
      Turn c (action, .returned token) ({ c with clock := now }.enters call .ended)
  | wait {call : Nat} {now : Clock} : c.calls call = .idle → c.cached now = none →
      Turn c (.enter call now, .awaits) ({ c with clock := now }.enters call .locking)
  | refuse {call : Nat} {now : Clock} {error : TokenError} : c.calls call = .locking →
      c.lock = none →
      Turn c (.acquire call now, .raised error) ({ c with clock := now }.enters call .ended)
  | begin {call : Nat} {now : Clock} : c.calls call = .locking → c.lock = none →
      c.cached now = none → Turn c (.acquire call now, .exchanges)
        { { c with clock := now }.enters call .exchanging with lock := some call }
  | fail {action : TokenAction} {call : Nat} {now : Clock} {error : TokenError} :
      c.calls call = .exchanging → action.call = call →
      Turn c (action, .raised error) { { c with clock := now }.enters call .ended with lock := none }
  | fetch {call : Nat} {answer : Option Claims} {now : Clock} {token : Str} {ttl : Int} :
      c.calls call = .exchanging → accept py answer = .ok (token, ttl) →
      Turn c (.exchanged call answer now, .fetched token (now + seconds ttl))
        { { c with clock := now }.enters call .ended with
          accessToken := some token
          accessTokenExpiresAt := now + seconds ttl
          lock := none }
  | leave {call : Nat} {error : TokenError} : c.calls call = .locking →
      Turn c (.cancel call, .raised error) (c.enters call .ended)

variable {py identity}

theorem Step.turn {c c' : TokenClient} {label : TokenAction × TokenOutcome}
    (taken : Step py identity c label c') : Turn py c label c' := by
  obtain ⟨action, outcome⟩ := label
  obtain ⟨reacted, _⟩ := taken
  cases action with
  | enter call now =>
      simp only [react] at reacted
      split at reacted
      · rename_i idle
        split at reacted
        · rename_i token hit
          cases reacted
          exact .hit (by simp [idle]) hit
        · rename_i miss
          cases reacted
          exact .wait idle miss
      · cases reacted
  | acquire call now =>
      simp only [react] at reacted
      split at reacted
      · rename_i free
        split at reacted
        · rename_i token hit
          cases reacted
          exact .hit (by simp [free.1]) hit
        · rename_i miss
          split at reacted
          · cases reacted
            exact .refuse free.1 free.2
          · cases reacted
            exact .begin free.1 free.2 miss
      · cases reacted
  | exchanged call answer now =>
      simp only [react] at reacted
      split at reacted
      · rename_i exchanging
        split at reacted
        · cases reacted
          exact .fail exchanging rfl
        · rename_i token ttl accepted
          cases reacted
          exact .fetch exchanging accepted
      · cases reacted
  | cancel call =>
      simp only [react] at reacted
      split at reacted
      · rename_i locking
        cases reacted
        exact .leave locking
      · split at reacted
        · rename_i exchanging
          cases reacted
          exact @Turn.fail _ _ _ call c.clock _ exchanging rfl
        · cases reacted

/-- What a run keeps: the cache is the last fetch, the lock is held by the one call that exchanges,
and the fetches that are not cached any more are past their time, as all are during an exchange. -/
structure Tracks (history : List (Event TokenClient (TokenAction × TokenOutcome)))
    (c : TokenClient) : Prop where
  cache : (fetches history).getLast? = c.accessToken.map fun token => (token, c.accessTokenExpiresAt)
  held : ∀ call, c.calls call = .exchanging ↔ c.lock = some call
  past : ∀ fetch ∈ (fetches history).dropLast, fetch.2 ≤ c.clock + seconds 30
  flight : c.lock ≠ none → ∀ fetch ∈ fetches history, fetch.2 ≤ c.clock + seconds 30

theorem fetches_append (history : List (Event TokenClient (TokenAction × TokenOutcome)))
    (event : Event TokenClient (TokenAction × TokenOutcome)) :
    fetches (history ++ [event]) = fetches history ++ event.label.2.fetched?.toList := by
  rw [fetches, List.filterMap_append]
  cases fetched : event.label.2.fetched? <;> simp [fetches, fetched]

section Keep

variable {history : List (Event TokenClient (TokenAction × TokenOutcome))}
variable {c c' : TokenClient} {label : TokenAction × TokenOutcome} {call : Nat}

theorem Tracks.quiet (kept : Tracks history c) (unfetched : label.2.fetched? = none)
    (token : c'.accessToken = c.accessToken)
    (deadline : c'.accessTokenExpiresAt = c.accessTokenExpiresAt) (later : c.clock ≤ c'.clock)
    (held : ∀ call, c'.calls call = .exchanging ↔ c'.lock = some call)
    (flight : c'.lock ≠ none → ∀ fetch ∈ fetches history, fetch.2 ≤ c'.clock + seconds 30) :
    Tracks (history ++ [⟨c, label, c'⟩]) c' := by
  have same : fetches (history ++ [⟨c, label, c'⟩]) = fetches history := by
    rw [fetches_append, unfetched, Option.toList_none, List.append_nil]
  refine ⟨?_, held, fun fetch member => ?_, fun taken => by rw [same]; exact flight taken⟩
  · rw [same, token, deadline, kept.cache]
  · rw [same] at member
    exact (kept.past fetch member).trans (Int.add_le_add_right later _)

theorem enters_exchanging {phase : TokenCall} (outside : phase ≠ .exchanging)
    (free : c.calls call ≠ .exchanging) (other : Nat) :
    (c.enters call phase).calls other = .exchanging ↔ c.calls other = .exchanging := by
  by_cases same : other = call
  · subst same
    simp [enters, outside, free]
  · simp [enters, Function.update_of_ne same]

theorem Tracks.released (kept : Tracks history c) (exchanging : c.calls call = .exchanging)
    (other : Nat) : (c.enters call .ended).calls other ≠ .exchanging := by
  by_cases same : other = call
  · subst same
    simp [enters]
  · intro second
    have kept_ : (c.enters call .ended).calls other = c.calls other := Function.update_of_ne same ..
    rw [kept_] at second
    have first := (kept.held call).mp exchanging
    rw [(kept.held other).mp second] at first
    exact same (Option.some.inj first)

theorem Tracks.missed (kept : Tracks history c) {now : Clock} (later : c.clock ≤ now)
    (miss : c.cached now = none) : ∀ fetch ∈ fetches history, fetch.2 ≤ now + seconds 30 := by
  intro fetch member
  cases token : c.accessToken with
  | none =>
      have empty := kept.cache
      rw [token, Option.map_none, List.getLast?_eq_none_iff] at empty
      rw [empty] at member
      cases member
  | some text =>
      have last := kept.cache
      rw [token, Option.map_some] at last
      obtain ⟨earlier, split_⟩ := List.getLast?_eq_some_iff.mp last
      have dropped : (fetches history).dropLast = earlier := by rw [split_, List.dropLast_concat]
      rw [split_, List.mem_append, List.mem_singleton] at member
      rcases member with old | rfl
      · exact (kept.past fetch (dropped ▸ old)).trans (Int.add_le_add_right later _)
      · simp only [cached, token, Option.filter_some, decide_eq_true_eq, ite_eq_right_iff,
          reduceCtorEq, imp_false, not_lt] at miss
        exact miss

end Keep

theorem tracks {clock : Clock} {history : List (Event TokenClient (TokenAction × TokenOutcome))}
    {c : TokenClient} (run : Run (Step py identity) (start clock) history c) : Tracks history c := by
  induction run with
  | init => exact ⟨rfl, fun call => by simp [start], by simp [fetches], fun held => absurd rfl held⟩
  | @next history before after label _ taken ih =>
      have later := taken.2
      have flight (held : before.lock ≠ none) :
          ∀ fetch ∈ fetches history, fetch.2 ≤ after.clock + seconds 30 := fun fetch member =>
        (ih.flight held fetch member).trans (Int.add_le_add_right later _)
      cases taken.turn with
      | hit outside cached =>
          exact ih.quiet rfl rfl rfl later
            (fun other => (enters_exchanging (by simp) outside other).trans (ih.held other)) flight
      | wait idle miss =>
          exact ih.quiet rfl rfl rfl later
            (fun other => (enters_exchanging (by simp) (by simp [idle]) other).trans (ih.held other))
            flight
      | refuse locking free =>
          exact ih.quiet rfl rfl rfl later
            (fun other => (enters_exchanging (by simp) (by simp [locking]) other).trans (ih.held other))
            flight
      | leave locking =>
          exact ih.quiet rfl rfl rfl later
            (fun other => (enters_exchanging (by simp) (by simp [locking]) other).trans (ih.held other))
            flight
      | @begin call now locking free miss =>
          refine ih.quiet rfl rfl rfl later (fun other => ?_) fun _ => ih.missed later miss
          by_cases same : other = call
          · subst same
            simp [enters]
          · have outside : before.calls other ≠ .exchanging := by
              rw [Ne, ih.held other, free]
              exact (Option.some_ne_none other).symm
            simp [enters, Function.update_of_ne same, outside, Ne.symm same]
      | fail exchanging same =>
          exact ih.quiet rfl rfl rfl later
            (fun other =>
              iff_of_false (ih.released exchanging other) (Option.some_ne_none other).symm)
            fun held => absurd rfl held
      | @fetch call answer now token ttl exchanging accepted =>
          have held : before.lock ≠ none := by
            rw [(ih.held call).mp exchanging]
            exact Option.some_ne_none call
          refine ⟨?_, fun other => ?_, ?_, fun held => absurd rfl held⟩
          · rw [fetches_append]
            exact List.getLast?_concat
          · exact iff_of_false (ih.released exchanging other) (Option.some_ne_none other).symm
          · rw [fetches_append]
            simpa [TokenOutcome.fetched?] using flight held

section Answer

variable {c c' : TokenClient} {outcome : TokenOutcome} {call : Nat} {now : Clock} {token : Str}

theorem Step.answered {action : TokenAction} (comes : action = .enter call now ∨ action = .acquire call now)
    (taken : Step py identity c (action, outcome) c') (good : c.cached now = some token) :
    outcome = .returned token := by
  have reacted := taken.1
  have same : ({ c with clock := now } : TokenClient).cached now = some token := good
  rcases comes with rfl | rfl <;>
  · simp only [react, same, Option.ite_none_right_eq_some, Option.some_inj, Prod.mk.injEq] at reacted
    exact reacted.2.1.symm

theorem Step.stored {answer : Claims} {n : Int}
    (taken : Step py identity c (.exchanged call (some answer) now, outcome) c')
    (named : Json.get answer "access_token" = .str token) (some_ : token ≠ [])
    (lives : py.int ((answer.lookup "expires_in".toList).getD (.int 300)) = .ok n) :
    outcome = .fetched token (now + seconds (max 1 (min n 3600))) := by
  have accepted : accept py (some answer) = .ok (token, max 1 (min n 3600)) := by
    simp only [accept, expect, ok_bind, named, require, ttl, lives, if_pos some_]
    rfl
  have reacted := taken.1
  simp only [react, accepted, Option.ite_none_right_eq_some, Option.some_inj, Prod.mk.injEq] at reacted
  exact reacted.2.1.symm

end Answer

/-- What each event of a run keeps from the others, after the events `earlier`. -/
structure Apart (earlier : List (Event TokenClient (TokenAction × TokenOutcome)))
    (event : Event TokenClient (TokenAction × TokenOutcome)) : Prop where
  alone : event.label.2 = .exchanges → (∀ call, event.before.calls call ≠ .exchanging) ∧
    ∀ fetch ∈ fetches earlier, fetch.2 ≤ event.after.clock + seconds 30
  latest : ∀ token, event.label.2.token? = some token →
    (fetches (earlier ++ [event])).getLast?.map Prod.fst = some token
  failed : ∀ error, event.label.2 = .raised error →
    event.after.accessToken = event.before.accessToken ∧
      event.after.accessTokenExpiresAt = event.before.accessTokenExpiresAt ∧
      (event.before.calls event.label.1.call = .exchanging → event.after.lock = none)

/-- What each event of a run guarantees: a call is answered from the cache while that is good, and a
response is good for its lifetime. -/
structure SingleFlight (py : IntBuiltin)
    (earlier : List (Event TokenClient (TokenAction × TokenOutcome)))
    (event : Event TokenClient (TokenAction × TokenOutcome)) : Prop extends Apart earlier event where
  answered : ∀ call now token deadline,
    event.label.1 = .enter call now ∨ event.label.1 = .acquire call now →
      (fetches earlier).getLast? = some (token, deadline) → now + seconds 30 < deadline →
        event.label.2 = .returned token
  lives : ∀ call answer now token n, event.label.1 = .exchanged call (some answer) now →
    Json.get answer "access_token" = .str token → token ≠ [] →
      py.int ((answer.lookup "expires_in".toList).getD (.int 300)) = .ok n →
        event.label.2 = .fetched token (now + seconds (max 1 (min n 3600)))

theorem Tracks.answered {earlier : List (Event TokenClient (TokenAction × TokenOutcome))}
    {before after : TokenClient} {label : TokenAction × TokenOutcome} (kept : Tracks earlier before)
    (taken : Step py identity before label after) {call : Nat} {now deadline : Clock} {token : Str}
    (comes : label.1 = .enter call now ∨ label.1 = .acquire call now)
    (last : (fetches earlier).getLast? = some (token, deadline)) (good : now + seconds 30 < deadline) :
    label.2 = .returned token := by
  refine Step.answered comes taken ?_
  rw [kept.cache, Option.map_eq_some_iff] at last
  obtain ⟨_, present, same⟩ := last
  obtain ⟨rfl, rfl⟩ := Prod.mk.inj same
  rw [cached, present, Option.filter_some, if_pos (decide_eq_true good)]

theorem Tracks.apart {earlier : List (Event TokenClient (TokenAction × TokenOutcome))}
    {before after : TokenClient} {label : TokenAction × TokenOutcome} (kept : Tracks earlier before)
    (taken : Step py identity before label after) :
    Apart earlier ⟨before, label, after⟩ := by
  have later := taken.2
  cases taken.turn with
  | @hit action call now token outside cached =>
      refine ⟨fun started => (by cases started), ?_, fun _ raised => (by cases raised)⟩
      rintro _ ⟨⟩
      obtain ⟨present, _⟩ := Option.filter_eq_some_iff.mp cached
      have same : fetches (earlier ++ [⟨before, (action, .returned token),
          { before with clock := now }.enters call .ended⟩]) = fetches earlier := by
        rw [fetches_append]
        exact List.append_nil _
      rw [same, kept.cache, present]
      rfl
  | wait idle miss =>
      exact ⟨fun started => (by cases started), fun _ token => (by cases token),
        fun _ raised => (by cases raised)⟩
  | refuse locking free =>
      exact ⟨fun started => (by cases started), fun _ token => (by cases token),
        fun _ _ => ⟨rfl, rfl, fun _ => free⟩⟩
  | leave locking =>
      refine ⟨fun started => (by cases started), fun _ token => (by cases token),
        fun _ _ => ⟨rfl, rfl, fun exchanging => ?_⟩⟩
      exact absurd (locking.symm.trans exchanging) (by decide)
  | begin locking free miss =>
      refine ⟨fun _ => ⟨fun call => ?_, kept.missed later miss⟩, fun _ token => (by cases token),
        fun _ raised => (by cases raised)⟩
      rw [Ne, kept.held call, free]
      exact (Option.some_ne_none call).symm
  | fail exchanging same =>
      exact ⟨fun started => (by cases started), fun _ token => (by cases token),
        fun _ _ => ⟨rfl, rfl, fun _ => rfl⟩⟩
  | fetch exchanging accepted =>
      refine ⟨fun started => (by cases started), ?_, fun _ raised => (by cases raised)⟩
      rintro _ ⟨⟩
      rw [fetches_append]
      exact congrArg (Option.map Prod.fst) List.getLast?_concat

/-- However the calls interleave, an exchange starts only when every fetched token is past its time,
a call returns the token that was fetched last, from the cache while that lives, and a failure leaves
cache and lock as they were. -/
theorem single_flight {clock : Clock} {state : TokenClient}
    {earlier later : List (Event TokenClient (TokenAction × TokenOutcome))}
    {event : Event TokenClient (TokenAction × TokenOutcome)}
    (run : Run (Step py identity) (start clock) (earlier ++ event :: later) state) :
    SingleFlight py earlier event := by
  obtain ⟨shorter, taken⟩ := Run.at_event run
  obtain ⟨before, ⟨action, outcome⟩, after⟩ := event
  refine ⟨(tracks shorter).apart taken, ?_, ?_⟩
  · intro call now token deadline comes last good
    exact (tracks shorter).answered taken comes last good
  · rintro call answer now token n ⟨⟩ named some_ lives
    exact Step.stored taken named some_ lives

section Sample

def sampleInt : IntBuiltin := ⟨fun _ => .error .valueError, fun _ => .error .valueError⟩

def sampleLabels : List (TokenAction × TokenOutcome) :=
  [(.enter 0 0, .awaits), (.acquire 0 0, .exchanges),
    (.exchanged 0 (some [("access_token".toList, .str ['t']), ("expires_in".toList, .int 100)]) 0,
      .fetched ['t'] 100000000),
    (.enter 1 1, .returned ['t'])]

def sampleNext (c : TokenClient) (label : TokenAction × TokenOutcome) : TokenClient :=
  ((react sampleInt (.ok ()) c label.1).map Prod.snd).getD c

theorem sample_run : Run (Step sampleInt (.ok ())) (start 0)
    (trace sampleNext (start 0) sampleLabels) (sampleLabels.foldl sampleNext (start 0)) := by
  refine Run.of_trace ?_
  rw [sampleLabels, trace, trace, trace, trace, trace]
  refine List.forall_mem_cons.mpr ⟨⟨rfl, by decide⟩, List.forall_mem_cons.mpr ⟨⟨rfl, by decide⟩,
    List.forall_mem_cons.mpr ⟨⟨rfl, by decide⟩, List.forall_mem_singleton.mpr ⟨rfl, by decide⟩⟩⟩⟩

theorem single_flight_sample : ∃ earlier event, event.label.2.token? = some ['t'] ∧
    fetches earlier ≠ [] ∧ SingleFlight sampleInt earlier event := by
  refine ⟨_, _, ?_, ?_, @single_flight _ _ _ _ [_, _, _] [] _ sample_run⟩
  · rfl
  · exact List.cons_ne_nil _ _

end Sample

end TokenClient

end TplBackend
