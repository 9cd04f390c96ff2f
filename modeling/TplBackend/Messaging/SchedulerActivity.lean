import Mathlib.Algebra.Order.Ring.Rat
import Mathlib.Logic.Function.Basic
import TplBackend.Library.Dict
import TplBackend.Library.Program
import TplBackend.Library.Raise
import TplBackend.Library.Text

/-! `messaging/scheduler_activity.py`: the record that Beat keeps of its completed ticks, and its reader. -/

namespace TplBackend.SchedulerActivity

open Effects Effects.Program Raise Text

def maxBytes : Nat := 4096

def writeIntervalSeconds : ℚ := 1

/-- A value of a JSON object; `float` has no number for `NaN` and the infinities. -/
inductive Field
  | null
  | bool (b : Bool)
  | int (n : Int)
  | float (number : Option ℚ)
  | str (text : Str)
  | other
  deriving DecidableEq

/-- What `json.loads` makes of a file. -/
inductive Document
  | dict (items : List (String × Field))
  | other

/-- A file, by what `json.loads` makes of it; nothing where it raises. -/
abbrev File := Option Document

structure Snapshot where
  pid : Nat
  processStart : Str
  bootId : Str
  tickBoottime : ℚ
  tickCount : Nat
  publishReturns : Nat
  publishErrors : Nat

def Snapshot.document (snapshot : Snapshot) : Document :=
  .dict [("schema_version", .int 1), ("pid", .int snapshot.pid),
    ("process_start", .str snapshot.processStart), ("boot_id", .str snapshot.bootId),
    ("tick_boottime", .float (some snapshot.tickBoottime)), ("tick_count", .int snapshot.tickCount),
    ("publish_returns", .int snapshot.publishReturns),
    ("publish_errors", .int snapshot.publishErrors)]

theorem Snapshot.document_inj {first second : Snapshot} (same : first.document = second.document) :
    first = second := by
  obtain ⟨pid, start, boot, tick, ticks, returns, errors⟩ := first
  obtain ⟨pid', start', boot', tick', ticks', returns', errors'⟩ := second
  simpa [Snapshot.document] using same

inductive Op
  | monotonic
  | boottime
  | getpid
  /-- `/proc/{pid}/stat` -/
  | readStat (pid : Int)
  /-- `/proc/sys/kernel/random/boot_id` -/
  | readBootId
  | mkstemp (pre : Str) (beside : Str)
  | dump (name : Str) (snapshot : Snapshot)
  | replace (name path : Str)
  | exists (name : Str)
  | unlink (name : Str)
  /-- Opens without following links or blocking, and reads at most `MAX_BYTES + 1` bytes. -/
  | read (path : Str)
  | warning (msg : String)

inductive Answer
  | raised
  /-- The write has failed and has left this. -/
  | torn (left : File)
  | done
  | time (t : ℚ)
  | pid (n : Nat)
  | text (s : Str)
  | flag (b : Bool)
  | source (regular own : Bool) (size : Nat) (content : File)

inductive Failure
  | valueError (msg : String)
  | decodeError
  | indexError
  | overflowError
  /-- Whatever an operation of the system raised. -/
  | external

namespace Answer

def time? : Answer → Option ℚ
  | .time t => some t
  | _ => none

def pid? : Answer → Option Nat
  | .pid n => some n
  | _ => none

def text? : Answer → Option Str
  | .text s => some s
  | _ => none

def done? : Answer → Option Unit
  | .done => some ()
  | _ => none

/-- `os.path.exists` is false where it cannot tell. -/
def flag? : Answer → Option Bool
  | .flag b => some b
  | _ => some false

variable {answer : Answer}

theorem time?_eq_some {t : ℚ} : answer.time? = some t ↔ answer = .time t := by
  cases answer <;> simp [time?]

theorem pid?_eq_some {n : Nat} : answer.pid? = some n ↔ answer = .pid n := by
  cases answer <;> simp [pid?]

theorem text?_eq_some {s : Str} : answer.text? = some s ↔ answer = .text s := by
  cases answer <;> simp [text?]

theorem done?_eq_some {u : Unit} : answer.done? = some u ↔ answer = .done := by
  cases answer <;> simp [done?]

def source? : Answer → Option (Bool × Bool × Nat × File)
  | .source regular own size content => some (regular, own, size, content)
  | _ => none

end Answer

def boottime : Program Op Answer Failure ℚ := query .boottime Answer.time? .external

/-- The state and the start of a process in the text of its `stat`. -/
def statIdentity (content : Str) : Except Failure (Str × Str) := do
  require (')' ∈ content) (.valueError "substring not found")
  let fields := words ((afterLast ')' content).drop 1)
  let state ← expect fields[0]? .indexError
  let start ← expect fields[19]? .indexError
  return (state, start)

def processIdentity (pid : Int) : Program Op Answer Failure (Str × Str) := do
  let content ← query (.readStat pid) Answer.text? .external
  .done (statIdentity content)

def bootId : Program Op Answer Failure Str := do
  let content ← query .readBootId Answer.text? .external
  return strip content

section Rules

variable {asks : List (Op × Answer) → Op → Prop} {log : List (Op × Answer)}

theorem meets_processIdentity {pid : Int}
    {post : List (Op × Answer) → Except Failure (Str × Str) → Prop} :
    (processIdentity pid).Meets asks log post ↔ asks log (.readStat pid) ∧ ∀ answer : Answer,
      (∀ content, answer.text? = some content →
        post (log ++ [(.readStat pid, answer)]) (statIdentity content)) ∧
      (answer.text? = none → post (log ++ [(.readStat pid, answer)]) (.error .external)) := by
  rw [processIdentity, meets_bind, meets_query]
  exact Iff.rfl

theorem meets_bootId {post : List (Op × Answer) → Except Failure Str → Prop} :
    bootId.Meets asks log post ↔ asks log .readBootId ∧ ∀ answer : Answer,
      (∀ content, answer.text? = some content →
        post (log ++ [(.readBootId, answer)]) (.ok (strip content))) ∧
      (answer.text? = none → post (log ++ [(.readBootId, answer)]) (.error .external)) := by
  rw [bootId, meets_bind, meets_query]
  exact Iff.rfl

end Rules

def activityPath (schedule : Str) : Str := schedule ++ ".activity.json".toList

theorem ne_activityPath {name : Str} (short : name.length < 14) (schedule : Str) :
    name ≠ activityPath schedule := by
  rintro rfl
  rw [activityPath, List.length_append] at short
  exact absurd short (Nat.not_lt.mpr (Nat.le_add_left _ _))

/-- The `finally` block of `atomic_write`. -/
def unlinkLeft (temporary : Str) : Program Op Answer Failure Unit := do
  let found ← query (.exists temporary) Answer.flag? .external
  if found then query (.unlink temporary) Answer.done? .external else pure ()

def atomicWrite (path : Str) (snapshot : Snapshot) : Program Op Answer Failure Unit := do
  let temporary ← query (.mkstemp ".beat-activity-".toList path) Answer.text? .external
  thenAlways
    (do
      query (.dump temporary snapshot) Answer.done? .external
      query (.replace temporary path) Answer.done? .external)
    (unlinkLeft temporary)

/-- What `read_activity` uses of a snapshot. -/
structure Record where
  pid : Int
  tickCount : Int
  publishReturns : Int
  publishErrors : Int
  tickAt : ℚ
  bootId : Option Field
  processStart : Option Field

/-- `type(snapshot.get(key)) is int` and not negative. -/
def counter (items : List (String × Field)) (key : String) : Except Failure Int :=
  match Dict.get items key with
  | some (.int n) => do
    require (0 ≤ n) (.valueError "invalid activity counter")
    return n
  | _ => .error (.valueError "invalid activity counter")

def tickTime (items : List (String × Field)) : Except Failure ℚ :=
  match Dict.get items "tick_boottime" with
  | some (.float (some t)) => do
    require (0 ≤ t) (.valueError "invalid tick time")
    return t
  | some (.int n) => do
    -- `math.isfinite` raises where no float is near.
    require (n.natAbs < 2 ^ 1024 - 2 ^ 970) .overflowError
    require (0 ≤ n) (.valueError "invalid tick time")
    return n
  | _ => .error (.valueError "invalid tick time")

def record (content : File) : Except Failure Record := do
  let snapshot ← expect content .decodeError
  match snapshot with
  | .dict items => do
    require (Dict.get items "schema_version" = some (.int 1)) (.valueError "invalid activity schema")
    let pid ← counter items "pid"
    let tickCount ← counter items "tick_count"
    let publishReturns ← counter items "publish_returns"
    let publishErrors ← counter items "publish_errors"
    require (pid ≠ 0 ∧ tickCount ≠ 0) (.valueError "no completed scheduler tick")
    let tickAt ← tickTime items
    return ⟨pid, tickCount, publishReturns, publishErrors, tickAt, Dict.get items "boot_id",
      Dict.get items "process_start"⟩
  | .other => .error (.valueError "invalid activity schema")

structure Activity where
  pid : Int
  loopAgeSeconds : ℚ
  tickCount : Int
  publishReturns : Int
  publishErrors : Int

/-- `maxAge` is nothing where it is not finite. -/
def readActivity (schedule : Str) (maxAge : Option ℚ) : Program Op Answer Failure Activity := do
  let budget ← take (maxAge.filter fun age => decide (0 < age ∧ age ≤ 3600))
    (.valueError "invalid activity age budget")
  let (regular, own, size, content) ← query (.read (activityPath schedule)) Answer.source? .external
  ensure (regular = true ∧ own = true) (.valueError "invalid activity file")
  ensure (size ≤ maxBytes) (.valueError "activity file too large")
  let snapshot ← .done (record content)
  let now ← boottime
  let age := now - snapshot.tickAt
  ensure (0 ≤ age ∧ age ≤ budget) (.valueError "stale activity")
  let current ← bootId
  ensure (snapshot.bootId = some (.str current)) (.valueError "stale activity")
  let (state, start) ← processIdentity snapshot.pid
  ensure (state ∈ [['R'], ['S'], ['D'], ['I']] ∧ snapshot.processStart = some (.str start))
    (.valueError "inactive or replaced scheduler")
  return ⟨snapshot.pid, age, snapshot.tickCount, snapshot.publishReturns, snapshot.publishErrors⟩

structure ObservedScheduler where
  /-- Nothing where it is not a text. -/
  scheduleFilename : Option Str
  tickCount : Nat
  publishReturns : Nat
  publishErrors : Nat
  /-- Nothing for `float("-inf")`. -/
  lastWriteAttempt : Option ℚ

namespace ObservedScheduler

def init (scheduleFilename : Option Str) : ObservedScheduler := ⟨scheduleFilename, 0, 0, 0, none⟩

/-- Whether `WRITE_INTERVAL_SECONDS` have passed since the last attempt. -/
def Due (self : ObservedScheduler) (now : ℚ) : Prop :=
  ∀ last ∈ self.lastWriteAttempt, ¬ now - last < writeIntervalSeconds

instance (self : ObservedScheduler) (now : ℚ) : Decidable (self.Due now) :=
  inferInstanceAs (Decidable (∀ last ∈ self.lastWriteAttempt, ¬ now - last < writeIntervalSeconds))

def attempt (self : ObservedScheduler) : Program Op Answer Failure Unit := do
  let now ← boottime
  let pid ← query .getpid Answer.pid? .external
  let (_, start) ← processIdentity pid
  let filename ← take self.scheduleFilename (.valueError "activity requires a schedule filename")
  let current ← bootId
  atomicWrite (activityPath filename)
    ⟨pid, start, current, now, self.tickCount, self.publishReturns, self.publishErrors⟩

def warn (self : ObservedScheduler) : Program Op Answer Empty ObservedScheduler :=
  .ask (.warning "scheduler_activity_write_failed") fun _ => pure self

def observeAt (self : ObservedScheduler) (attemptAt : ℚ) :
    Program Op Answer Empty ObservedScheduler :=
  if self.Due attemptAt then do
    let self := { self with lastWriteAttempt := some attemptAt }
    let result ← self.attempt.attempt
    match result with
    | .ok _ => pure self
    | .error _ => self.warn
  else pure self

/-- What `tick` does after the inherited `tick` has returned and is counted. -/
def observe (self : ObservedScheduler) : Program Op Answer Empty ObservedScheduler :=
  .ask .monotonic fun answer => answer.time?.elim self.warn self.observeAt

end ObservedScheduler

/-- The methods that `ObservedScheduler` overrides. -/
inductive Method
  | tick
  | applyAsync
  deriving DecidableEq

/-- A call of such a method: the inherited method runs, or it has returned and `tick` observes. -/
inductive Frame (R : Type)
  | inherited (method : Method)
  | observing (delay : R) (underway : Underway Op Answer Empty ObservedScheduler)

/-- What reaches the scheduler. -/
inductive Move (A R E : Type)
  | call (method : Method) (args : A)
  /-- The innermost inherited method returns or raises. -/
  | ends (result : Except E R)
  | answer (answer : Answer)

inductive Seen (A R E : Type)
  | inherited (method : Method) (args : A)
  | returned (result : Except E R)

structure Beat (R : Type) where
  object : ObservedScheduler
  frames : List (Frame R)

namespace Beat

variable {A R E : Type}

def asking (beat : Beat R) : Option Op :=
  match beat.frames with
  | .observing _ underway :: _ => underway.asking
  | _ => none

/-- The override of `method` after the inherited method. -/
def ended (object : ObservedScheduler) (frames : List (Frame R)) (method : Method)
    (result : Except E R) : Beat R × Option (Seen A R E) :=
  match method, result with
  | .tick, .ok delay =>
    let object := { object with tickCount := object.tickCount + 1 }
    (⟨object, .observing delay (.begin object.observe) :: frames⟩, none)
  | .tick, .error _ => (⟨object, frames⟩, some (.returned result))
  | .applyAsync, .ok _ =>
    (⟨{ object with publishReturns := object.publishReturns + 1 }, frames⟩, some (.returned result))
  | .applyAsync, .error _ =>
    (⟨{ object with publishErrors := object.publishErrors + 1 }, frames⟩, some (.returned result))

/-- A scheduler that observes calls nothing and is not called. -/
def react (beat : Beat R) (move : Move A R E) : Option (Beat R × Option (Seen A R E)) :=
  match move, beat.frames with
  | .call _ _, .observing _ _ :: _ => none
  | .call method args, frames =>
    some (⟨beat.object, .inherited method :: frames⟩, some (.inherited method args))
  | .ends result, .inherited method :: frames => some (ended beat.object frames method result)
  | .ends _, _ => none
  | .answer answer, .observing delay underway :: frames =>
    match (underway.next answer).result with
    | some (.ok object) => some (⟨object, frames⟩, some (.returned (.ok delay)))
    | _ => some (⟨beat.object, .observing delay (underway.next answer) :: frames⟩, none)
  | .answer _, _ => none

end Beat

def answered (beat : Beat R) : Move A R E → Option (Op × Answer)
  | .answer answer => beat.asking.map fun op => (op, answer)
  | _ => none

abbrev Files := Str → Option File

namespace Files

/-- The answers that the file system may give. -/
def Admits (files : Files) : Op → Answer → Prop
  | .mkstemp _ _, .text name => files name = none ∧ ∀ schedule, name ≠ activityPath schedule
  | .dump _ snapshot, .torn left => left = none ∨ left = some snapshot.document
  | .replace name _, .done => files name ≠ none
  | .exists name, .flag b => b = (files name).isSome
  | .unlink name, .done => files name ≠ none
  | _, _ => True

def after (files : Files) : Op → Answer → Files
  | .mkstemp _ _, .text name => Function.update files name (some none)
  | .dump name snapshot, .done => Function.update files name (some (some snapshot.document))
  | .dump name _, .torn left => Function.update files name (some left)
  | .replace name path, .done => Function.update (Function.update files path (files name)) name none
  | .unlink name, .done => Function.update files name none
  | _, _ => files

theorem after_apply (files : Files) (op : Op) (answer : Answer) (name : Str) :
    files.after op answer name = files name ∨
      (∃ pre beside, op = .mkstemp pre beside ∧ answer = .text name) ∨
      (∃ snapshot, op = .dump name snapshot) ∨
      (∃ path, op = .replace name path) ∨
      (∃ temporary, op = .replace temporary name ∧ answer = .done ∧
        files.after op answer name = files temporary) ∨
      op = .unlink name := by
  have update (changed : Str) (file : Option File) (differs : name ≠ changed) :
      Function.update files changed file name = files name := Function.update_of_ne differs _ _
  unfold after
  split
  · rename_i pre beside made
    by_cases same : name = made
    · exact .inr (.inl ⟨pre, beside, rfl, by rw [same]⟩)
    · exact .inl (update made _ same)
  · rename_i dumped snapshot
    by_cases same : name = dumped
    · exact .inr (.inr (.inl ⟨snapshot, by rw [same]⟩))
    · exact .inl (update dumped _ same)
  · rename_i dumped snapshot left
    by_cases same : name = dumped
    · exact .inr (.inr (.inl ⟨snapshot, by rw [same]⟩))
    · exact .inl (update dumped _ same)
  · rename_i temporary path
    by_cases same : name = temporary
    · exact .inr (.inr (.inr (.inl ⟨path, by rw [same]⟩)))
    · rw [Function.update_of_ne same]
      by_cases target : name = path
      · refine .inr (.inr (.inr (.inr (.inl ⟨temporary, by rw [target], rfl, ?_⟩))))
        rw [target, Function.update_self]
      · exact .inl (update path _ target)
  · rename_i unlinked
    by_cases same : name = unlinked
    · exact .inr (.inr (.inr (.inr (.inr (by rw [same])))))
    · exact .inl (update unlinked _ same)
  · exact .inl rfl

theorem origin {files : Files} {op : Op} {answer : Answer} {name : Str} {document : Document}
    (admits : files.Admits op answer) (holds : files.after op answer name = some (some document)) :
    files name = some (some document) ∨
      (∃ snapshot, op = .dump name snapshot ∧ document = snapshot.document) ∨
      ∃ temporary, op = .replace temporary name ∧ files temporary = some (some document) := by
  unfold after at holds
  split at holds
  · rename_i pre beside made
    by_cases same : name = made
    · rw [same, Function.update_self] at holds
      cases holds
    · rw [Function.update_of_ne same] at holds
      exact .inl holds
  · rename_i dumped snapshot
    by_cases same : name = dumped
    · rw [same, Function.update_self] at holds
      cases holds
      exact .inr (.inl ⟨snapshot, by rw [same], rfl⟩)
    · rw [Function.update_of_ne same] at holds
      exact .inl holds
  · rename_i dumped snapshot left
    by_cases same : name = dumped
    · rw [same, Function.update_self] at holds
      cases holds
      obtain none | whole := admits
      · cases none
      · cases whole
        exact .inr (.inl ⟨snapshot, by rw [same], rfl⟩)
    · rw [Function.update_of_ne same] at holds
      exact .inl holds
  · rename_i temporary path
    by_cases same : name = temporary
    · rw [same, Function.update_self] at holds
      cases holds
    · rw [Function.update_of_ne same] at holds
      by_cases target : name = path
      · rw [target, Function.update_self] at holds
        exact .inr (.inr ⟨temporary, by rw [target], holds⟩)
      · rw [Function.update_of_ne target] at holds
        exact .inl holds
  · rename_i unlinked
    by_cases same : name = unlinked
    · rw [same, Function.update_self] at holds
      cases holds
    · rw [Function.update_of_ne same] at holds
      exact .inl holds
  · exact .inl holds

theorem after_none {files : Files} {op : Op} {answer : Answer} {name : Str}
    (moves : (∃ path, op = .replace name path) ∨ op = .unlink name) (gone : files name = none) :
    files.after op answer name = none := by
  obtain ⟨path, rfl⟩ | rfl := moves
  all_goals cases answer <;> first | exact gone | exact Function.update_self _ _ _

end Files

end TplBackend.SchedulerActivity
