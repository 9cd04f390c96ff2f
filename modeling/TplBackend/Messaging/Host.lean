import TplBackend.Messaging.Observer

/-! The schedulers of a host, over its restarts, and the files that they share. -/

namespace TplBackend.SchedulerActivity

open Beat Effects ObservedScheduler Text Transition

/-- The line of a process in its `stat`, whatever its command is called. -/
def StatLine (content state start : Str) : Prop :=
  ∃ command middle rest, List.length middle = 18 ∧
    (∀ field ∈ state :: middle ++ start :: rest, field ≠ [] ∧ ∀ c ∈ field, isSpace c = false ∧ c ≠ ')') ∧
    content = command ++ ')' :: ((state :: middle ++ start :: rest).flatMap (' ' :: ·) ++ ['\n'])

theorem statIdentity_line {content state start : Str} (line : StatLine content state start) :
    statIdentity content = .ok (state, start) := by
  obtain ⟨command, middle, rest, length, plain, rfl⟩ := line
  set fields := state :: middle ++ start :: rest with fields_eq
  have free : ')' ∉ fields.flatMap (' ' :: ·) ++ ['\n'] := by
    simp only [List.mem_append, List.mem_flatMap, List.mem_cons, List.not_mem_nil, or_false, not_or,
      not_exists, not_and]
    exact ⟨fun field member => ⟨by decide, fun closing => ((plain field member).2 _ closing).2 rfl⟩,
      by decide⟩
  have words_eq : words ((fields.flatMap (' ' :: ·) ++ ['\n']).drop 1) = fields :=
    (words_cons rfl _).symm.trans
      (words_line fun field member => ⟨(plain field member).1, fun c inside => ((plain field member).2 c inside).1⟩)
  have second : fields[19]? = some start := by
    rw [fields_eq, List.getElem?_append_right (by simp [length])]
    simp [length]
  rw [statIdentity, Raise.require_pos (by simp), Raise.ok_bind, afterLast_append free, words_eq]
  dsimp only
  rw [second]
  rfl

variable {A R E : Type}

structure Process (R : Type) where
  bootId : Str
  pid : Nat
  start : Str
  alive : Bool
  state : Str
  /-- The scheduler that it runs, if it runs one. -/
  beat : Option (Beat R)

/-- A call of `read_activity`. -/
structure Reader where
  schedule : Str
  maxAge : Option ℚ
  underway : Underway Op Answer Failure Activity

structure Host (R : Type) where
  bootId : Str
  /-- The reading of `CLOCK_BOOTTIME`. -/
  clock : ℚ
  processes : Nat → Option (Process R)
  files : Files
  readers : Nat → Option Reader

inductive Action (A R E : Type)
  | spawn (id : Nat)
  | signal (id : Nat)
  | vanish (id : Nat)
  | elapse
  | reboot
  | move (id : Nat) (move : Move A R E)
  | look (reader : Nat)
  | reads (reader : Nat) (answer : Answer)

namespace Host

/-- What an answer that is no failure tells a process of this host. -/
def Truthful (host : Host R) (own : Nat) : Op → Answer → Prop
  | .boottime, .time t => t = host.clock
  | .getpid, .pid n => n = own
  | .readStat n, .text content => ∃ id process, host.processes id = some process ∧
      process.alive = true ∧ (process.pid : Int) = n ∧ StatLine content process.state process.start
  | .readBootId, .text content => content = host.bootId ++ ['\n']
  | .read path, .source _ _ _ content => host.files path = some content
  | op, answer => host.files.Admits op answer

theorem Truthful.admits {host : Host R} {own : Nat} {op : Op} {answer : Answer}
    (truthful : host.Truthful own op answer) : host.files.Admits op answer := by
  unfold Truthful at truthful
  split at truthful
  case h_6 => exact truthful
  all_goals trivial

def setProcess (host : Host R) (id : Nat) (process : Process R) : Host R :=
  { host with processes := Function.update host.processes id (some process) }

def setReader (host : Host R) (id : Nat) (reader : Reader) : Host R :=
  { host with readers := Function.update host.readers id (some reader) }

/-- What is left of a host that goes down: files that were not yet on the disk may be gone or empty. -/
def Survives (host : Host R) (files : Files) : Prop :=
  ∀ name, files name = host.files name ∨ files name = none ∨ files name = some none

/-- One step of the host. A pid is used again with another start only, and no boot has the identifier of
an earlier one. -/
inductive Step : Host R → Action A R E → Host R → Prop
  | spawn (host : Host R) (id pid : Nat) (start state : Str) (beat : Option (Beat R))
      (new : host.processes id = none)
      (free : ∀ other process, host.processes other = some process → process.bootId = host.bootId →
        process.pid = pid → process.alive = false ∧ process.start ≠ start)
      (fresh : ∀ started ∈ beat, ∃ filename, started = ⟨.init filename, []⟩) :
      Step host (.spawn id) (host.setProcess id ⟨host.bootId, pid, start, true, state, beat⟩)
  | signal (host : Host R) (id : Nat) (process : Process R) (state : Str)
      (runs : host.processes id = some process) :
      Step host (.signal id) (host.setProcess id { process with state })
  | vanish (host : Host R) (id : Nat) (process : Process R)
      (runs : host.processes id = some process) :
      Step host (.vanish id) (host.setProcess id { process with alive := false })
  | elapse (host : Host R) (clock : ℚ) (later : host.clock ≤ clock) :
      Step host .elapse { host with clock }
  | reboot (host : Host R) (bootId : Str) (clock : ℚ) (files : Files)
      (new : ∀ id process, host.processes id = some process → process.bootId ≠ bootId)
      (plain : ∀ c ∈ bootId, isSpace c = false) (survives : host.Survives files) :
      Step host .reboot ⟨bootId, clock, fun id => (host.processes id).map fun process =>
        { process with alive := false }, files, fun _ => none⟩
  | move (host : Host R) (id : Nat) (process : Process R) (beat after : Beat R) (move : Move A R E)
      (seen : Option (Seen A R E)) (runs : host.processes id = some process)
      (alive : process.alive = true) (scheduler : process.beat = some beat)
      (reacts : react beat move = some (after, seen))
      (truthful : ∀ op answer, answered beat move = some (op, answer) →
        host.Truthful process.pid op answer) :
      Step host (.move id move) { host.setProcess id { process with beat := some after } with
        files := (answered beat move).elim host.files fun exchange =>
          host.files.after exchange.1 exchange.2 }
  | look (host : Host R) (id : Nat) (schedule : Str) (maxAge : Option ℚ) (new : host.readers id = none) :
      Step host (.look id)
        (host.setReader id ⟨schedule, maxAge, .begin (readActivity schedule maxAge)⟩)
  | reads (host : Host R) (id own : Nat) (reader : Reader) (op : Op) (answer : Answer)
      (waits : host.readers id = some reader) (asking : reader.underway.asking = some op)
      (truthful : host.Truthful own op answer) :
      Step host (.reads id answer)
        (host.setReader id { reader with underway := reader.underway.next answer })

end Host

abbrev HostHistory (A R E : Type) := List (Event (Host R) (Action A R E))

def Process.Same (process other : Process R) : Prop :=
  process.bootId = other.bootId ∧ process.pid = other.pid ∧ process.start = other.start

def Exchanges (event : Event (Host R) (Action A R E)) (id : Nat) (op : Op) (answer : Answer) : Prop :=
  event.label = .move id (.answer answer) ∧ ∃ process beat, event.before.processes id = some process ∧
    process.beat = some beat ∧ beat.asking = some op

def Ticks (event : Event (Host R) (Action A R E)) (id : Nat) : Prop :=
  ∃ delay, event.label = .move id (.ends (.ok delay)) ∧ ∃ process beat frames,
    event.before.processes id = some process ∧ process.beat = some beat ∧
      beat.frames = .inherited .tick :: frames

def TickedAt (history : HostHistory A R E) (id : Nat) (bootId : Str) (t : ℚ) : Prop :=
  ∃ earlier event later, history = earlier ++ event :: later ∧ event.before.bootId = bootId ∧
    event.before.clock = t ∧
    (∃ process, event.before.processes id = some process ∧ process.alive = true) ∧
    ∃ tick ∈ earlier, Ticks tick id

def Owned (history : HostHistory A R E) (name : Str) : Prop :=
  ∃ event ∈ history, ∃ id pre beside, Exchanges event id (.mkstemp pre beside) (.text name)

/-- The process of the snapshot has written it, and was past a completed tick at its time. -/
def Vouched (history : HostHistory A R E) (host : Host R) (id : Nat) (snapshot : Snapshot) : Prop :=
  (∃ process, host.processes id = some process ∧ process.bootId = snapshot.bootId ∧
      process.pid = snapshot.pid ∧ process.start = snapshot.processStart) ∧
    (∃ event ∈ history, ∃ name answer, Exchanges event id (.dump name snapshot) answer) ∧
    TickedAt history id snapshot.bootId snapshot.tickBoottime

def Known (history : HostHistory A R E) (id : Nat) (process : Process R) : Op × Answer → Prop
  | (.boottime, .time t) => TickedAt history id process.bootId t
  | (.getpid, .pid n) => n = process.pid
  | (.readStat n, .text content) => n = process.pid → ∃ state, StatLine content state process.start
  | (.readBootId, .text content) => strip content = process.bootId
  | (.mkstemp _ _, .text name) => Owned history name
  | _ => True

structure Informed (history : HostHistory A R E) (id : Nat) (process : Process R) (beat : Beat R) :
    Prop where
  sound : beat.Sound
  ticked : beat.asking ≠ none → ∃ tick ∈ history, Ticks tick id
  known : ∀ exchange ∈ beat.log, Known history id process exchange

section Growth

variable {history : HostHistory A R E} {event : Event (Host R) (Action A R E)} {id : Nat}
  {process other : Process R} {beat : Beat R} {host host' : Host R} {snapshot : Snapshot}

theorem TickedAt.grow {bootId : Str} {t : ℚ} (ticked : TickedAt history id bootId t) :
    TickedAt (history ++ [event]) id bootId t := by
  obtain ⟨earlier, moment, later, rfl, rest⟩ := ticked
  exact ⟨earlier, moment, later ++ [event], by simp, rest⟩

theorem Owned.grow {name : Str} (owned : Owned history name) : Owned (history ++ [event]) name := by
  obtain ⟨made, member, rest⟩ := owned
  exact ⟨made, List.mem_append_left _ member, rest⟩

theorem Known.grow {exchange : Op × Answer} (known : Known history id process exchange)
    (same : other.Same process) : Known (history ++ [event]) id other exchange := by
  obtain ⟨boot, pid, start⟩ := same
  unfold Known at known ⊢
  split
  · rw [boot]
    exact TickedAt.grow known
  · rw [pid]
    exact known
  · rw [pid, start]
    exact known
  · rw [boot]
    exact known
  · exact Owned.grow known
  · trivial

theorem Informed.grow (informed : Informed history id process beat) (same : other.Same process) :
    Informed (history ++ [event]) id other beat := by
  refine ⟨informed.sound, fun asks => ?_, fun exchange member => (informed.known exchange member).grow same⟩
  obtain ⟨tick, member, ticks⟩ := informed.ticked asks
  exact ⟨tick, List.mem_append_left _ member, ticks⟩

def Keeps (host host' : Host R) : Prop :=
  ∀ id process, host.processes id = some process →
    ∃ other, host'.processes id = some other ∧ other.Same process

theorem Vouched.grow (vouched : Vouched history host id snapshot) (keeps : Keeps host host') :
    Vouched (history ++ [event]) host' id snapshot := by
  obtain ⟨⟨process, runs, boot, pid, start⟩, ⟨wrote, member, rest⟩, ticked⟩ := vouched
  obtain ⟨other, still, same⟩ := keeps id process runs
  exact ⟨⟨other, still, same.1.trans boot, same.2.1.trans pid, same.2.2.trans start⟩,
    ⟨wrote, List.mem_append_left _ member, rest⟩, ticked.grow⟩

end Growth

def Trusted (schedule : Str) (history : HostHistory A R E) (name : Str) : Prop :=
  name = activityPath schedule ∨ Owned history name

structure Inv (schedule : Str) (history : HostHistory A R E) (host : Host R) : Prop where
  plain : ∀ c ∈ host.bootId, isSpace c = false
  current : ∀ id process, host.processes id = some process → process.alive = true →
    process.bootId = host.bootId
  unique : ∀ id other process process', host.processes id = some process →
    host.processes other = some process' → process.Same process' → id = other
  pids : ∀ id other process process', host.processes id = some process →
    host.processes other = some process' → process.alive = true → process'.alive = true →
      process.pid = process'.pid → id = other
  informed : ∀ id process, host.processes id = some process →
    ∀ beat ∈ process.beat, Informed history id process beat
  vouched : ∀ name document, Trusted schedule history name →
    host.files name = some (some document) →
      ∃ id snapshot, document = snapshot.document ∧ Vouched history host id snapshot

section Writers

variable {schedule : Str} {history : HostHistory A R E} {host : Host R} {id : Nat}
  {process other : Process R} {event : Event (Host R) (Action A R E)}

theorem setProcess_eq_some {id' : Nat}
    (found : (host.setProcess id process).processes id' = some other) :
    id' = id ∧ other = process ∨ id' ≠ id ∧ host.processes id' = some other := by
  replace found : Function.update host.processes id (some process) id' = some other := found
  by_cases same : id' = id
  · rw [same, Function.update_self] at found
    exact .inl ⟨same, (Option.some.inj found).symm⟩
  · rw [Function.update_of_ne same] at found
    exact .inr ⟨same, found⟩

theorem Process.Same.trans {first second third : Process R} (before : first.Same second)
    (after : second.Same third) : first.Same third :=
  ⟨before.1.trans after.1, before.2.1.trans after.2.1, before.2.2.trans after.2.2⟩

theorem Process.Same.symm {first second : Process R} (same : first.Same second) : second.Same first :=
  ⟨same.1.symm, same.2.1.symm, same.2.2.symm⟩

theorem setProcess_before {id' : Nat} {found : Process R} (runs : host.processes id = some process)
    (same : other.Same process) (alive : other.alive = true → process.alive = true)
    (now : (host.setProcess id other).processes id' = some found) :
    ∃ before, host.processes id' = some before ∧ found.Same before ∧
      (found.alive = true → before.alive = true) := by
  obtain ⟨rfl, rfl⟩ | ⟨_, before⟩ := setProcess_eq_some now
  · exact ⟨process, runs, same, alive⟩
  · exact ⟨found, before, ⟨rfl, rfl, rfl⟩, fun lives => lives⟩

theorem keeps_setProcess (runs : host.processes id = some process) (same : other.Same process) :
    Keeps host (host.setProcess id other) := by
  intro id' process' runs'
  by_cases equal : id' = id
  · subst equal
    cases runs.symm.trans runs'
    exact ⟨other, Function.update_self _ _ _, same⟩
  · exact ⟨process', (Function.update_of_ne equal _ _).trans runs', rfl, rfl, rfl⟩

theorem Host.Step.keeps {host' : Host R} {action : Action A R E} (step : Host.Step host action host') :
    Keeps host host' := by
  cases step with
  | spawn id pid start state beat new free fresh =>
      intro other process runs
      have differs : other ≠ id := fun same => by
        rw [same, new] at runs
        cases runs
      exact ⟨process, (Function.update_of_ne differs _ _).trans runs, rfl, rfl, rfl⟩
  | signal id process state runs => exact keeps_setProcess runs ⟨rfl, rfl, rfl⟩
  | vanish id process runs => exact keeps_setProcess runs ⟨rfl, rfl, rfl⟩
  | move id process beat after move seen runs alive scheduler reacts truthful =>
      exact keeps_setProcess runs ⟨rfl, rfl, rfl⟩
  | reboot bootId clock files new plain survives =>
      exact fun id process runs =>
        ⟨_, Option.map_eq_some_iff.mpr ⟨process, runs, rfl⟩, rfl, rfl, rfl⟩
  | elapse | look | reads => exact fun id process runs => ⟨process, runs, rfl, rfl, rfl⟩

theorem Inv.change (inv : Inv schedule history host) (files : Files)
    (runs : host.processes id = some process) (same : other.Same process)
    (alive : other.alive = true → process.alive = true)
    (informed : ∀ beat ∈ other.beat, Informed (history ++ [event]) id other beat)
    (vouched : ∀ name document, Trusted schedule (history ++ [event]) name →
      files name = some (some document) → ∃ id' snapshot, document = snapshot.document ∧
        Vouched (history ++ [event]) (host.setProcess id other) id' snapshot) :
    Inv schedule (history ++ [event]) { host.setProcess id other with files := files } := by
  refine ⟨inv.plain, fun id' process' found lives => ?_, fun id₁ id₂ p₁ p₂ found₁ found₂ equal => ?_,
    fun id₁ id₂ p₁ p₂ found₁ found₂ lives₁ lives₂ equal => ?_, fun id' process' found => ?_, ?_⟩
  · obtain ⟨before, ran, kept, lived⟩ := setProcess_before runs same alive found
    exact kept.1.trans (inv.current id' before ran (lived lives))
  · obtain ⟨before₁, ran₁, kept₁, _⟩ := setProcess_before runs same alive found₁
    obtain ⟨before₂, ran₂, kept₂, _⟩ := setProcess_before runs same alive found₂
    exact inv.unique id₁ id₂ before₁ before₂ ran₁ ran₂ (kept₁.symm.trans (equal.trans kept₂))
  · obtain ⟨before₁, ran₁, kept₁, lived₁⟩ := setProcess_before runs same alive found₁
    obtain ⟨before₂, ran₂, kept₂, lived₂⟩ := setProcess_before runs same alive found₂
    exact inv.pids id₁ id₂ before₁ before₂ ran₁ ran₂ (lived₁ lives₁) (lived₂ lives₂)
      (kept₁.2.1.symm.trans (equal.trans kept₂.2.1))
  · obtain ⟨rfl, rfl⟩ | ⟨_, before⟩ := setProcess_eq_some found
    · exact informed
    · exact fun beat member => (inv.informed id' process' before beat member).grow ⟨rfl, rfl, rfl⟩
  · exact fun name document trusted holds => vouched name document trusted holds

theorem Owned.before {name : Str} (owned : Owned (history ++ [event]) name) :
    Owned history name ∨
      ∃ id pre beside, Exchanges event id (.mkstemp pre beside) (.text name) := by
  obtain ⟨made, member, rest⟩ := owned
  obtain old | last := List.mem_append.mp member
  · exact .inl ⟨made, old, rest⟩
  · rw [List.mem_singleton.mp last] at rest
    exact .inr rest

theorem Inv.still {host' : Host R} {name : Str} {document : Document} (inv : Inv schedule history host)
    (keeps : Keeps host host') (trusted : Trusted schedule (history ++ [event]) name)
    (old : ∀ id pre beside, ¬ Exchanges event id (.mkstemp pre beside) (.text name))
    (holds : host.files name = some (some document)) : ∃ id snapshot, document = snapshot.document ∧
      Vouched (history ++ [event]) host' id snapshot := by
  have before : Trusted schedule history name := trusted.imp id fun owned =>
    owned.before.resolve_right fun made => by
      obtain ⟨id, pre, beside, made⟩ := made
      exact old id pre beside made
  obtain ⟨id, snapshot, same, vouched⟩ := inv.vouched name document before holds
  exact ⟨id, snapshot, same, vouched.grow keeps⟩

section Moves

variable {beat after : Beat R} {move : Move A R E} {seen : Option (Seen A R E)} {op : Op}
  {answer : Answer}

theorem known_of_truthful (inv : Inv schedule history host) (started : event.before = host)
    (runs : host.processes id = some process) (alive : process.alive = true)
    (scheduler : process.beat = some beat) (asking : beat.asking = some op)
    (label : event.label = .move id (.answer answer))
    (truthful : host.Truthful process.pid op answer) (ticked : ∃ tick ∈ history, Ticks tick id) :
    Known (history ++ [event]) id process (op, answer) := by
  subst started
  unfold Known
  split
  · rename_i t same
    cases same
    exact ⟨history, event, [], rfl, (inv.current id process runs alive).symm, truthful.symm,
      ⟨process, runs, alive⟩, ticked⟩
  · rename_i n same
    cases same
    exact truthful
  · rename_i n content same
    cases same
    intro own
    obtain ⟨other, found, ran, lives, pid, line⟩ := truthful
    obtain rfl := inv.pids id other process found runs ran alive lives
      (Int.ofNat.inj (own.symm.trans pid.symm))
    cases runs.symm.trans ran
    exact ⟨_, line⟩
  · rename_i content same
    cases same
    rw [show content = _ from truthful, inv.current id process runs alive]
    exact strip_line inv.plain
  · rename_i pre beside name same
    cases same
    exact ⟨event, List.mem_append_right _ (List.mem_singleton_self _), id, pre, beside, label, process,
      beat, runs, scheduler, asking⟩
  · trivial

theorem informed_move (inv : Inv schedule history host) (started : event.before = host)
    (runs : host.processes id = some process) (alive : process.alive = true)
    (scheduler : process.beat = some beat) (label : event.label = .move id move)
    (reaction : Reaction beat move after seen)
    (truthful : ∀ op answer, answered beat move = some (op, answer) →
      host.Truthful process.pid op answer) :
    Informed (history ++ [event]) id { process with beat := some after } after := by
  have same : Process.Same { process with beat := some after } process := ⟨rfl, rfl, rfl⟩
  have before := inv.informed id process runs beat scheduler
  obtain ⟨empty, quiet⟩ | ⟨op, answer, rfl, asking, longer⟩ := reaction.grows
  · refine ⟨reaction.sound, fun asks => ?_, by simp [empty]⟩
    obtain ⟨delay, frames, rfl, inner⟩ := quiet.resolve_left asks
    exact ⟨event, List.mem_append_right _ (List.mem_singleton_self _), delay, label, process, beat, frames,
      started ▸ runs, scheduler, inner⟩
  · have ticked := before.ticked (by simp [asking])
    have grown : Informed (history ++ [event]) id { process with beat := some after } beat :=
      before.grow same
    refine ⟨reaction.sound, fun _ => grown.ticked (by simp [asking]), ?_⟩
    rw [longer]
    refine List.forall_mem_append.mpr ⟨grown.known, List.forall_mem_singleton.mpr ?_⟩
    have known := known_of_truthful inv started runs alive scheduler asking label
      (truthful op answer (by rw [answered, asking, Option.map_some])) ticked
    exact known

theorem vouched_snapshot {snapshot : Snapshot} {name : Str} {host' : Host R}
    (inv : Inv schedule history host) (started : event.before = host)
    (runs : host.processes id = some process) (scheduler : process.beat = some beat)
    (asking : beat.asking = some (.dump name snapshot)) (label : event.label = .move id (.answer answer))
    (of : snapshot.Of beat.object beat.log) (keeps : Keeps host host') :
    Vouched (history ++ [event]) host' id snapshot := by
  have known := (inv.informed id process runs beat scheduler).known
  obtain ⟨time, pid, ⟨content, state, stat, read⟩, ⟨text, boot, stripped⟩, _⟩ := of
  have ticked : TickedAt history id process.bootId snapshot.tickBoottime := known _ time
  have own : snapshot.pid = process.pid := known _ pid
  have same_boot : snapshot.bootId = process.bootId := stripped.trans (known _ boot)
  have same_start : snapshot.processStart = process.start := by
    obtain ⟨state', line⟩ := known _ stat (by rw [own])
    exact (congrArg Prod.snd (Except.ok.inj ((statIdentity_line line).symm.trans read))).symm
  obtain ⟨other, still, boot, pid, start⟩ := keeps id process runs
  refine ⟨⟨other, still, boot.trans same_boot.symm, pid.trans own.symm, start.trans same_start.symm⟩,
    ⟨event, List.mem_append_right _ (List.mem_singleton_self _), name, answer, label, process, beat,
      started ▸ runs, scheduler, asking⟩, ?_⟩
  rw [same_boot]
  exact ticked.grow

theorem vouched_move {host' : Host R} (inv : Inv schedule history host) (started : event.before = host)
    (runs : host.processes id = some process) (scheduler : process.beat = some beat)
    (asking : beat.asking = some op) (label : event.label = .move id (.answer answer))
    (admits : host.files.Admits op answer) (keeps : Keeps host host') (name : Str) (document : Document)
    (trusted : Trusted schedule (history ++ [event]) name)
    (holds : host.files.after op answer name = some (some document)) :
    ∃ id' snapshot, document = snapshot.document ∧ Vouched (history ++ [event]) host' id' snapshot := by
  have informed := inv.informed id process runs beat scheduler
  have asks := informed.sound.asks asking
  obtain old | ⟨snapshot, rfl, rfl⟩ | ⟨temporary, rfl, old⟩ := host.files.origin admits holds
  · refine inv.still keeps trusted (fun id' pre beside made => ?_) old
    obtain ⟨same, other, beat', ran, observer, asked⟩ := made
    cases label.symm.trans same
    subst started
    cases runs.symm.trans ran
    cases scheduler.symm.trans observer
    cases asking.symm.trans asked
    cases admits.1.symm.trans old
  · exact ⟨id, snapshot, rfl, vouched_snapshot inv started runs scheduler asking label asks.2.1 keeps⟩
  · obtain ⟨pre, beside, made⟩ := asks.2.1
    have owned : Owned history temporary := informed.known _ made
    obtain ⟨id', snapshot, rfl, vouched⟩ := inv.vouched temporary document (.inr owned) old
    exact ⟨id', snapshot, rfl, vouched.grow keeps⟩

end Moves

theorem Inv.pass {host' : Host R} (inv : Inv schedule history host) (keeps : Keeps host host') (boot : host'.bootId = host.bootId)
    (processes : host'.processes = host.processes) (files : host'.files = host.files)
    (silent : ∀ id op answer, ¬ Exchanges event id op answer) : Inv schedule (history ++ [event]) host' := by
  constructor
  · exact boot ▸ inv.plain
  · rw [boot, processes]
    exact inv.current
  · rw [processes]
    exact inv.unique
  · rw [processes]
    exact inv.pids
  · intro id process runs beat member
    rw [processes] at runs
    exact (inv.informed id process runs beat member).grow ⟨rfl, rfl, rfl⟩
  · intro name document trusted holds
    rw [files] at holds
    exact inv.still keeps trusted (fun id pre beside => silent id _ _) holds

theorem Inv.spawn {pid : Nat} {start state : Str} {beat : Option (Beat R)}
    (inv : Inv schedule history host)
    (keeps : Keeps host (host.setProcess id ⟨host.bootId, pid, start, true, state, beat⟩))
    (free : ∀ other process, host.processes other = some process → process.bootId = host.bootId →
      process.pid = pid → process.alive = false ∧ process.start ≠ start)
    (fresh : ∀ started ∈ beat, ∃ filename, started = ⟨.init filename, []⟩)
    (silent : ∀ id op answer, ¬ Exchanges event id op answer) :
    Inv schedule (history ++ [event])
      (host.setProcess id ⟨host.bootId, pid, start, true, state, beat⟩) := by
  refine ⟨inv.plain, fun other process found lives => ?_, fun id₁ id₂ p₁ p₂ found₁ found₂ equal => ?_,
    fun id₁ id₂ p₁ p₂ found₁ found₂ lives₁ lives₂ equal => ?_, fun other process found => ?_, ?_⟩
  · obtain ⟨_, rfl⟩ | ⟨_, old⟩ := setProcess_eq_some found
    · rfl
    · exact inv.current other process old lives
  · obtain ⟨rfl, rfl⟩ | ⟨_, old₁⟩ := setProcess_eq_some found₁ <;>
      obtain ⟨rfl, rfl⟩ | ⟨_, old₂⟩ := setProcess_eq_some found₂
    · rfl
    · exact absurd equal.2.2.symm (free id₂ p₂ old₂ equal.1.symm equal.2.1.symm).2
    · exact absurd equal.2.2 (free id₁ p₁ old₁ equal.1 equal.2.1).2
    · exact inv.unique id₁ id₂ p₁ p₂ old₁ old₂ equal
  · obtain ⟨rfl, rfl⟩ | ⟨_, old₁⟩ := setProcess_eq_some found₁ <;>
      obtain ⟨rfl, rfl⟩ | ⟨_, old₂⟩ := setProcess_eq_some found₂
    · rfl
    · have dead := (free id₂ p₂ old₂ (inv.current id₂ p₂ old₂ lives₂) equal.symm).1
      rw [lives₂] at dead
      cases dead
    · have dead := (free id₁ p₁ old₁ (inv.current id₁ p₁ old₁ lives₁) equal).1
      rw [lives₁] at dead
      cases dead
    · exact inv.pids id₁ id₂ p₁ p₂ old₁ old₂ lives₁ lives₂ equal
  · obtain ⟨rfl, rfl⟩ | ⟨_, old⟩ := setProcess_eq_some found
    · intro started member
      obtain ⟨filename, rfl⟩ := fresh started member
      exact ⟨.inl (by simp [Idle]), fun asks => absurd rfl asks, by simp [log]⟩
    · exact fun beat member => (inv.informed other process old beat member).grow ⟨rfl, rfl, rfl⟩
  · exact fun name document trusted holds =>
      inv.still keeps trusted (fun id pre beside => silent id _ _) holds

theorem Inv.reboot {bootId : Str} {clock : ℚ} {files : Files} (inv : Inv schedule history host)
    (keeps : Keeps host ⟨bootId, clock, fun id => (host.processes id).map fun process =>
      { process with alive := false }, files, fun _ => none⟩)
    (plain : ∀ c ∈ bootId, isSpace c = false) (survives : host.Survives files)
    (silent : ∀ id op answer, ¬ Exchanges event id op answer) :
    Inv schedule (history ++ [event]) ⟨bootId, clock, fun id => (host.processes id).map fun process =>
      { process with alive := false }, files, fun _ => none⟩ := by
  have before {id : Nat} {found : Process R}
      (now : (host.processes id).map (fun process => { process with alive := false }) = some found) :
      ∃ process, host.processes id = some process ∧ { process with alive := false } = found :=
    Option.map_eq_some_iff.mp now
  refine ⟨plain, fun id process found lives => ?_, fun id₁ id₂ p₁ p₂ found₁ found₂ equal => ?_,
    fun id₁ id₂ p₁ p₂ found₁ found₂ lives₁ lives₂ equal => ?_, fun id process found => ?_,
    fun name document trusted holds => ?_⟩
  · obtain ⟨_, _, rfl⟩ := before found
    cases lives
  · obtain ⟨q₁, ran₁, rfl⟩ := before found₁
    obtain ⟨q₂, ran₂, rfl⟩ := before found₂
    exact inv.unique id₁ id₂ q₁ q₂ ran₁ ran₂ equal
  · obtain ⟨_, _, rfl⟩ := before found₁
    cases lives₁
  · obtain ⟨process, ran, rfl⟩ := before found
    exact fun beat member => (inv.informed id process ran beat member).grow ⟨rfl, rfl, rfl⟩
  · refine inv.still keeps trusted (fun id pre beside => silent id _ _) ?_
    obtain same | gone | empty := survives name
    · exact same.symm.trans holds
    · cases gone.symm.trans holds
    · cases empty.symm.trans holds

theorem Inv.step {host' : Host R} {action : Action A R E} (inv : Inv schedule history host)
    (step : Host.Step host action host') : Inv schedule (history ++ [⟨host, action, host'⟩]) host' := by
  have keeps := step.keeps
  cases step with
  | spawn id pid start state beat new free fresh =>
      exact inv.spawn keeps free fresh fun _ _ _ exchanged => by cases exchanged.1
  | signal id process state runs =>
      have same : Process.Same { process with state } process := ⟨rfl, rfl, rfl⟩
      refine inv.change host.files runs same (fun lives => lives)
        (fun beat member => (inv.informed id process runs beat member).grow same)
        fun name document trusted holds => inv.still keeps trusted ?_ holds
      exact fun _ _ _ exchanged => by cases exchanged.1
  | vanish id process runs =>
      have same : Process.Same { process with alive := false } process := ⟨rfl, rfl, rfl⟩
      refine inv.change host.files runs same (fun lives => by cases lives)
        (fun beat member => (inv.informed id process runs beat member).grow same)
        fun name document trusted holds => inv.still keeps trusted ?_ holds
      exact fun _ _ _ exchanged => by cases exchanged.1
  | elapse clock later => exact inv.pass keeps rfl rfl rfl fun _ _ _ exchanged => by cases exchanged.1
  | reboot bootId clock files new plain survives =>
      exact inv.reboot keeps plain survives fun _ _ _ exchanged => by cases exchanged.1
  | move id process beat after move seen runs alive scheduler reacts truthful =>
      have reaction := react_reaction (inv.informed id process runs beat scheduler).sound reacts
      have same : Process.Same { process with beat := some after } process := ⟨rfl, rfl, rfl⟩
      refine inv.change _ runs same (fun lives => lives) (fun started member => ?_)
        fun name document trusted holds => ?_
      · cases member
        exact informed_move inv rfl runs alive scheduler rfl reaction truthful
      · obtain exchange | ⟨⟨op, answer⟩, exchange⟩ := (answered beat move).eq_none_or_eq_some
        · rw [exchange] at holds
          refine inv.still keeps trusted (fun id' pre beside exchanged => ?_) holds
          obtain ⟨label, other, beat', ran, observer, asking⟩ := exchanged
          cases label
          cases runs.symm.trans ran
          cases scheduler.symm.trans observer
          rw [answered, asking] at exchange
          cases exchange
        · obtain ⟨rfl, asking⟩ := answered_eq_some exchange
          rw [exchange] at holds
          exact vouched_move inv rfl runs scheduler asking rfl (truthful op answer exchange).admits keeps
            name document trusted holds
  | look id schedule maxAge new => exact inv.pass keeps rfl rfl rfl fun _ _ _ exchanged => by cases exchanged.1
  | reads id own reader op answer waits asking truthful =>
      exact inv.pass keeps rfl rfl rfl fun _ _ _ exchanged => by cases exchanged.1

structure Host.Fresh (host : Host R) (schedule : Str) : Prop where
  plain : ∀ c ∈ host.bootId, isSpace c = false
  processes : ∀ id, host.processes id = none
  readers : ∀ id, host.readers id = none
  record : host.files (activityPath schedule) = none

theorem Inv.run {start : Host R} (fresh : start.Fresh schedule) (run : Run Host.Step start history host) :
    Inv schedule history host := by
  induction run with
  | init =>
      have none {id : Nat} {process : Process R} (runs : start.processes id = some process) : False := by
        cases (fresh.processes id).symm.trans runs
      refine ⟨fresh.plain, fun _ _ runs => (none runs).elim, fun _ _ _ _ runs => (none runs).elim,
        fun _ _ _ _ runs => (none runs).elim, fun _ _ runs => (none runs).elim,
        fun name document trusted holds => ?_⟩
      obtain rfl | ⟨made, member, _⟩ := trusted
      · cases fresh.record.symm.trans holds
      · cases member
  | next _ step ih => exact ih.step step

end Writers

end TplBackend.SchedulerActivity
