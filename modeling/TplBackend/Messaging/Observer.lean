import Mathlib.Logic.Function.Basic
import Mathlib.Tactic.Linarith
import TplBackend.Library.Run
import TplBackend.Messaging.SchedulerActivity

/-! The observed scheduler beside a plain one, and the files that it leaves. -/

namespace TplBackend.SchedulerActivity

open Effects Effects.Program Text Transition

abbrev Log := List (Op × Answer)

def Made (name : Str) (log : Log) : Prop :=
  ∃ pre beside, (Op.mkstemp pre beside, Answer.text name) ∈ log

def Removed (name : Str) (log : Log) : Prop :=
  (Op.exists name, Answer.flag false) ∈ log ∨ (Op.unlink name, Answer.done) ∈ log

def RemovalFails (name : Str) (exchange : Op × Answer) : Prop :=
  exchange.1 = .exists name ∧ (∀ b, exchange.2 ≠ .flag b) ∨
    exchange.1 = .unlink name ∧ exchange.2 ≠ .done

/-- A snapshot of the counters of `self` and of what the system has answered. -/
def Snapshot.Of (self : ObservedScheduler) (log : Log) (snapshot : Snapshot) : Prop :=
  (Op.boottime, Answer.time snapshot.tickBoottime) ∈ log ∧
    (Op.getpid, Answer.pid snapshot.pid) ∈ log ∧
    (∃ content state, (Op.readStat snapshot.pid, Answer.text content) ∈ log ∧
      statIdentity content = .ok (state, snapshot.processStart)) ∧
    (∃ content, (Op.readBootId, Answer.text content) ∈ log ∧ snapshot.bootId = strip content) ∧
    snapshot.tickCount = self.tickCount ∧ snapshot.publishReturns = self.publishReturns ∧
    snapshot.publishErrors = self.publishErrors

namespace ObservedScheduler

def Attempting (self : ObservedScheduler) (log : Log) : Prop :=
  ∃ t later, log = (.monotonic, .time t) :: later ∧ self.Due t

def Asks (self : ObservedScheduler) (log : Log) : Op → Prop
  | .monotonic => log = []
  | .boottime | .getpid | .readStat _ | .readBootId => self.Attempting log
  | .mkstemp _ _ => self.Attempting log ∧ ∀ name, ¬ Made name log ∧ ¬ Removed name log
  | .dump name snapshot => self.Attempting log ∧ snapshot.Of self log ∧ ¬ Removed name log ∧
      ∃ earlier pre beside, log = earlier ++ [(.mkstemp pre beside, .text name)]
  | .replace name path => self.Attempting log ∧ Made name log ∧
      (∃ filename ∈ self.scheduleFilename, path = activityPath filename) ∧
      ∃ earlier snapshot, log = earlier ++ [(.dump name snapshot, .done)] ∧ snapshot.Of self earlier
  | .exists name | .unlink name => self.Attempting log ∧ Made name log
  | .read _ => False
  | .warning _ => self.Attempting log ∨ ∃ answer : Answer, log = [(.monotonic, answer)] ∧ answer.time? = none

def Observed (self : ObservedScheduler) (log : Log) (after : ObservedScheduler) : Prop :=
  (∃ t later, log = (.monotonic, .time t) :: later ∧ later ≠ [] ∧
    after = { self with lastWriteAttempt := some t }) ∨
  after = self ∧ ∀ t later, log = (.monotonic, .time t) :: later → later = []

def Tidy (log : Log) : Prop :=
  ∀ name, Made name log → Removed name log ∨ ∃ exchange ∈ log, RemovalFails name exchange

theorem Observed.same {self after : ObservedScheduler} {log : Log} (observed : self.Observed log after) :
    after = { self with lastWriteAttempt := after.lastWriteAttempt } := by
  obtain ⟨t, later, _, _, rfl⟩ | ⟨rfl, _⟩ := observed <;> rfl

variable {self : ObservedScheduler} {log : Log} {op : Op} {answer : Answer} {name : Str}
  {snapshot : Snapshot}

theorem Asks.order (asks : self.Asks log op) : op = .monotonic ∧ log = [] ∨
    op ≠ .monotonic ∧
      (self.Attempting log ∨ ∃ answer : Answer, log = [(.monotonic, answer)] ∧ answer.time? = none) := by
  cases op with
  | monotonic => exact .inl ⟨rfl, asks⟩
  | boottime | getpid | readStat | readBootId => exact .inr ⟨by simp, .inl asks⟩
  | mkstemp | dump | replace | «exists» | unlink => exact .inr ⟨by simp, .inl asks.1⟩
  | read => exact asks.elim
  | warning => exact .inr ⟨by simp, asks⟩

theorem Attempting.append (attempting : self.Attempting log) (more : Log) :
    self.Attempting (log ++ more) := by
  obtain ⟨t, later, rfl, due⟩ := attempting
  exact ⟨t, later ++ more, rfl, due⟩

theorem of_append (of : snapshot.Of self log) (more : Log) : snapshot.Of self (log ++ more) := by
  obtain ⟨time, pid, ⟨content, state, stat, read⟩, ⟨boot, line, stripped⟩, counters⟩ := of
  exact ⟨List.mem_append_left _ time, List.mem_append_left _ pid,
    ⟨content, state, List.mem_append_left _ stat, read⟩,
    ⟨boot, List.mem_append_left _ line, stripped⟩, counters⟩

theorem made_append {more : Log} : Made name (log ++ more) ↔ Made name log ∨ Made name more := by
  simp only [Made, List.mem_append, exists_or]

theorem made_concat : Made name (log ++ [(op, answer)]) ↔
    Made name log ∨ (∃ pre beside, op = .mkstemp pre beside) ∧ answer = .text name := by
  rw [made_append]
  simp only [Made, List.mem_singleton, Prod.mk.injEq]
  constructor
  · rintro (made | ⟨pre, beside, rfl, rfl⟩)
    · exact .inl made
    · exact .inr ⟨⟨pre, beside, rfl⟩, rfl⟩
  · rintro (made | ⟨⟨pre, beside, rfl⟩, rfl⟩)
    · exact .inl made
    · exact .inr ⟨pre, beside, rfl, rfl⟩

theorem removed_concat : Removed name (log ++ [(op, answer)]) ↔
    Removed name log ∨ op = .exists name ∧ answer = .flag false ∨ op = .unlink name ∧ answer = .done := by
  simp only [Removed, List.mem_append, List.mem_singleton, Prod.mk.injEq, @eq_comm _ _ op,
    @eq_comm _ _ answer]
  exact or_or_or_comm

def Writing (self : ObservedScheduler) (name : Str) (log : Log) : Prop :=
  self.Attempting log ∧ ∀ other, Made other log ↔ other = name

theorem Writing.append {more : Log} (writing : self.Writing name log)
    (none : ∀ other, ¬ Made other more) : self.Writing name (log ++ more) :=
  ⟨writing.1.append more, fun other => by simp [made_append, none, writing.2]⟩

theorem Writing.exchange (writing : self.Writing name log) (exchange : Op × Answer)
    (other : ∀ pre beside, exchange.1 ≠ .mkstemp pre beside) :
    self.Writing name (log ++ [exchange]) := by
  refine writing.append fun made made_now => ?_
  obtain ⟨pre, beside, member⟩ := made_now
  exact other pre beside (by rw [← List.mem_singleton.mp member])

theorem Writing.tidy (writing : self.Writing name log)
    (gone : Removed name log ∨ ∃ exchange ∈ log, RemovalFails name exchange) : Tidy log := by
  intro other made
  rw [(writing.2 other).mp made]
  exact gone

theorem tidy_concat {exchange : Op × Answer} (tidy : Tidy log)
    (other : ∀ pre beside, exchange.1 ≠ .mkstemp pre beside) : Tidy (log ++ [exchange]) := by
  intro name made
  rcases made_concat.mp made with old | ⟨⟨pre, beside, made⟩, _⟩
  · rcases tidy name old with gone | ⟨failure, member, fails⟩
    · exact .inl (removed_concat.mpr (.inl gone))
    · exact .inr ⟨failure, List.mem_append_left _ member, fails⟩
  · exact absurd made (other pre beside)

theorem unlinkLeft_meets (writing : self.Writing name log) :
    (unlinkLeft name).Meets self.Asks log fun after _ => log <+: after ∧ Tidy after := by
  rw [unlinkLeft, meets_bind, meets_query]
  refine ⟨⟨writing.1, (writing.2 name).mpr rfl⟩, fun found => ⟨fun b reads => ?_, fun silent => ?_⟩⟩
  · have looked := writing.exchange (.exists name, found) (by simp)
    have last : (Op.exists name, found) ∈ log ++ [(.exists name, found)] := by simp
    cases b with
    | true =>
        have tidy (answer : Answer) : Tidy (log ++ [(.exists name, found)] ++ [(.unlink name, answer)]) := by
          refine (looked.exchange (.unlink name, answer) (by simp)).tidy ?_
          by_cases done : answer = .done
          · exact .inl (.inr (by simp [done]))
          · exact .inr ⟨_, List.mem_append_right _ (List.mem_singleton_self _), .inr ⟨rfl, done⟩⟩
        refine meets_query.mpr ⟨⟨looked.1, (looked.2 name).mpr rfl⟩, fun answer => ⟨fun _ _ => ?_, fun _ => ?_⟩⟩
        · exact ⟨(List.prefix_append _ _).trans (List.prefix_append _ _), tidy answer⟩
        · exact ⟨(List.prefix_append _ _).trans (List.prefix_append _ _), tidy answer⟩
    | false =>
        refine ⟨List.prefix_append _ _, looked.tidy ?_⟩
        cases found with
        | flag b =>
            cases reads
            exact .inl (.inl last)
        | _ => exact .inr ⟨_, last, .inl ⟨rfl, by simp⟩⟩
  · cases found <;> cases silent

theorem atomicWrite_meets {filename : Str} (attempting : self.Attempting log)
    (of : snapshot.Of self log) (clean : ∀ name, ¬ Made name log ∧ ¬ Removed name log)
    (named : self.scheduleFilename = some filename) :
    (atomicWrite (activityPath filename) snapshot).Meets self.Asks log
      fun after _ => log <+: after ∧ Tidy after := by
  rw [atomicWrite, meets_bind, meets_query]
  refine ⟨⟨attempting, clean⟩, fun temporary => ⟨fun name reads => ?_, fun silent => ?_⟩⟩
  · cases Answer.text?_eq_some.mp reads
    set made := log ++ [(Op.mkstemp ".beat-activity-".toList (activityPath filename), Answer.text name)]
    have writing : self.Writing name made := by
      refine ⟨attempting.append _, fun other => ?_⟩
      simp [made, made_concat, (clean other).1, eq_comm]
    have left (more : Log) {next : Log} (still : self.Writing name (made ++ more)) (same : next = made ++ more) :
        (unlinkLeft name).Meets self.Asks next (carry
          (fun _ after => log <+: after ∧ Tidy after)
          fun _ after => log <+: after ∧ Tidy after) := by
      subst same
      refine (unlinkLeft_meets still).mono fun after result ends => ?_
      have whole : log <+: after ∧ Tidy after := by
        exact ⟨((List.prefix_append _ _).trans (List.prefix_append _ _)).trans ends.1, ends.2⟩
      cases result <;> exact whole
    refine meets_thenAlways.mpr (meets_bind.mpr (meets_query.mpr ?_))
    refine ⟨⟨writing.1, of_append of _, ?_, log, _, _, rfl⟩, fun dumped => ⟨fun _ wrote => ?_, fun _ => ?_⟩⟩
    · simp [made, removed_concat, (clean name).2]
    · cases Answer.done?_eq_some.mp wrote
      have written := writing.exchange (.dump name snapshot, .done) (by simp)
      refine meets_query.mpr ⟨⟨written.1, (written.2 name).mpr rfl, ⟨filename, named, rfl⟩, made, snapshot, rfl, of_append of _⟩,
        fun replaced => ?_⟩
      have tried := written.exchange (.replace name (activityPath filename), replaced) (by simp)
      refine ⟨fun _ _ => ?_, fun _ => ?_⟩
      · exact left [_, _] (by simpa using tried) (by simp)
      · exact left [_, _] (by simpa using tried) (by simp)
    · exact left [_] (writing.exchange (.dump name snapshot, dumped) (by simp)) rfl
  · refine ⟨List.prefix_append _ _, fun other made => ?_⟩
    rcases made_concat.mp made with old | ⟨_, rfl⟩
    · exact absurd old (clean other).1
    · cases silent

def Reading (self : ObservedScheduler) (log : Log) : Prop :=
  self.Attempting log ∧ ∀ name, ¬ Made name log ∧ ¬ Removed name log

theorem Reading.exchange (reading : self.Reading log) (answer : Answer)
    (reads : op = .boottime ∨ op = .getpid ∨ (∃ pid, op = .readStat pid) ∨ op = .readBootId) :
    self.Reading (log ++ [(op, answer)]) := by
  refine ⟨reading.1.append _, fun name => ?_⟩
  rw [made_concat, removed_concat]
  rcases reads with rfl | rfl | ⟨pid, rfl⟩ | rfl <;> simp [reading.2 name]

theorem Reading.tidy (reading : self.Reading log) : Tidy log :=
  fun name made => absurd made (reading.2 name).1

theorem attempt_meets {t : ℚ} (due : self.Due t) :
    { self with lastWriteAttempt := some t }.attempt.Meets self.Asks [(.monotonic, .time t)]
      fun after _ =>
        (∃ answer, [(Op.monotonic, Answer.time t), (.boottime, answer)] <+: after) ∧ Tidy after := by
  have start : self.Reading [(.monotonic, .time t)] :=
    ⟨⟨t, [], rfl, due⟩, fun name => by simp [Made, Removed]⟩
  rw [attempt, boottime, meets_bind, meets_query]
  refine ⟨start.1, fun clock => ?_⟩
  have first := start.exchange clock (.inl rfl)
  have ends (more : Log) (reading : self.Reading ([(.monotonic, .time t), (.boottime, clock)] ++ more)) :
      (∃ answer, [(.monotonic, .time t), (.boottime, answer)] <+:
        [(.monotonic, .time t), (.boottime, clock)] ++ more) ∧
        Tidy ([(.monotonic, .time t), (.boottime, clock)] ++ more) :=
    ⟨⟨clock, List.prefix_append _ _⟩, reading.tidy⟩
  refine ⟨fun now timed => meets_bind.mpr (meets_query.mpr ⟨first.1, fun own => ?_⟩), fun _ => ends [] first⟩
  have second := first.exchange own (.inr (.inl rfl))
  refine ⟨fun pid numbered => meets_bind.mpr (meets_processIdentity.mpr ⟨second.1, fun stat => ?_⟩),
    fun _ => ends [_] second⟩
  have third := second.exchange stat (.inr (.inr (.inl ⟨(pid : Int), rfl⟩)))
  refine ⟨fun content read => ?_, fun _ => ends [_, _] third⟩
  cases identity : statIdentity content with
  | error raised => exact ends [_, _] third
  | ok fields =>
      obtain ⟨state, start⟩ := fields
      refine meets_bind.mpr (meets_take.mpr ⟨fun filename named => ?_, fun _ => ends [_, _] third⟩)
      refine meets_bind.mpr (meets_bootId.mpr ⟨third.1, fun boot => ?_⟩)
      have fourth := third.exchange boot (.inr (.inr (.inr rfl)))
      refine ⟨fun line text => ?_, fun _ => ends [_, _, _] fourth⟩
      cases Answer.time?_eq_some.mp timed
      cases Answer.pid?_eq_some.mp numbered
      cases Answer.text?_eq_some.mp read
      cases Answer.text?_eq_some.mp text
      have of : Snapshot.Of self
          [(.monotonic, .time t), (.boottime, .time now), (.getpid, .pid pid),
            (.readStat pid, .text content), (.readBootId, .text line)]
          ⟨pid, start, strip line, now, self.tickCount, self.publishReturns, self.publishErrors⟩ :=
        ⟨by simp, by simp, ⟨content, state, by simp, identity⟩, ⟨line, by simp, rfl⟩, rfl, rfl, rfl⟩
      refine (atomicWrite_meets fourth.1 of fourth.2 named).mono fun after result written => ?_
      exact ⟨⟨_, (List.prefix_append _ [_, _, _]).trans written.1⟩, written.2⟩

def Post (self : ObservedScheduler) (log : Log) : Except Empty ObservedScheduler → Prop
  | .ok after => self.Observed log after ∧ Tidy log
  | .error _ => False

theorem warn_meets {after : ObservedScheduler}
    (failed : self.Attempting log ∨ ∃ answer : Answer, log = [(.monotonic, answer)] ∧ answer.time? = none)
    (post : ∀ answer, self.Post (log ++ [(.warning "scheduler_activity_write_failed", answer)]) (.ok after)) :
    after.warn.Meets self.Asks log self.Post := ⟨failed, post⟩

theorem observeAt_meets (self : ObservedScheduler) (t : ℚ) :
    (self.observeAt t).Meets self.Asks [(.monotonic, .time t)] self.Post := by
  rw [observeAt]
  split
  · rename_i due
    refine meets_bind.mpr (meets_attempt.mpr ((attempt_meets due).mono fun log result ends => ?_))
    obtain ⟨⟨clock, more, rfl⟩, tidy⟩ := ends
    cases result with
    | ok done => exact ⟨.inl ⟨t, _, rfl, List.cons_ne_nil _ _, rfl⟩, tidy⟩
    | error raised =>
        refine warn_meets (.inl ⟨t, _, rfl, due⟩) fun answer =>
          ⟨.inl ⟨t, _, rfl, List.cons_ne_nil _ _, rfl⟩, ?_⟩
        exact tidy_concat tidy (by simp)
  · refine ⟨.inr ⟨rfl, fun other later same => ?_⟩, fun name made => ?_⟩
    · cases same
      rfl
    · simp [Made] at made

theorem observe_meets (self : ObservedScheduler) : self.observe.Meets self.Asks [] self.Post := by
  refine ⟨rfl, fun answer => ?_⟩
  change (answer.time?.elim self.warn self.observeAt).Meets self.Asks [(.monotonic, answer)] self.Post
  cases timed : answer.time? with
  | none =>
      refine warn_meets (.inr ⟨answer, rfl, timed⟩) fun _ =>
        ⟨.inr ⟨rfl, fun t later same => ?_⟩, fun name made => ?_⟩
      · cases same
        cases timed
      · simp [Made] at made
  | some t =>
      cases Answer.time?_eq_some.mp timed
      exact self.observeAt_meets t

theorem unlinkLeft_within (name : Str) : (unlinkLeft name).Within 2 := by
  refine within_bind (m := 1) (within_query _ _ _) fun found => ?_
  cases found
  · trivial
  · exact within_query _ _ _

theorem atomicWrite_within (path : Str) (snapshot : Snapshot) : (atomicWrite path snapshot).Within 5 := by
  refine within_bind (m := 4) (within_query _ _ _) fun temporary => ?_
  refine within_bind (n := 2) (m := 2) (within_attempt ?_) fun result => ?_
  · exact within_bind (within_query _ _ _) fun _ => within_query _ _ _
  · refine within_bind (m := 0) (unlinkLeft_within temporary) fun _ => ?_
    trivial

theorem attempt_within (self : ObservedScheduler) : self.attempt.Within 9 := by
  refine within_bind (m := 8) (within_query _ _ _) fun now => ?_
  refine within_bind (m := 7) (within_query _ _ _) fun pid => ?_
  refine within_bind (n := 1) (m := 6) ?_ fun fields => ?_
  · exact within_bind (m := 0) (within_query _ _ _) fun content => trivial
  obtain ⟨state, start⟩ := fields
  refine within_bind (n := 0) (m := 6) (within_take _ _) fun filename => ?_
  refine within_bind (n := 1) (m := 5) ?_ fun current => atomicWrite_within _ _
  exact within_bind (m := 0) (within_query _ _ _) fun content => trivial

theorem observe_within (self : ObservedScheduler) : self.observe.Within 11 := by
  intro answer
  change (answer.time?.elim self.warn self.observeAt).Within 10
  have warned (after : ObservedScheduler) : after.warn.Within 1 := fun answer => trivial
  cases answer.time? with
  | none => exact within_mono (warned self) (by omega)
  | some t =>
      rw [Option.elim, observeAt]
      split
      · refine within_bind (m := 1) (within_attempt (attempt_within _)) fun result => ?_
        cases result
        · exact warned _
        · trivial
      · trivial

end ObservedScheduler

namespace Beat

variable {A R E : Type} {beat after : Beat R} {move : Move A R E} {seen : Option (Seen A R E)}

def Idle (frames : List (Frame R)) : Prop := ∀ frame ∈ frames, ∃ method, frame = .inherited method

structure Observing (beat : Beat R) (delay : R)
    (underway : Underway Op Answer Empty ObservedScheduler) (op : Op) (frames : List (Frame R)) :
    Prop where
  inner : beat.frames = .observing delay underway :: frames
  idle : Idle frames
  asking : underway.asking = some op
  meets : underway.Meets beat.object.Asks beat.object.Post
  within : underway.rest.Within (11 - underway.log.length)

def Sound (beat : Beat R) : Prop :=
  Idle beat.frames ∨ ∃ delay underway op frames, beat.Observing delay underway op frames

inductive Reaction (beat : Beat R) : Move A R E → Beat R → Option (Seen A R E) → Prop
  | called (method : Method) (args : A) (idle : Idle beat.frames) :
      Reaction beat (.call method args) ⟨beat.object, .inherited method :: beat.frames⟩
        (some (.inherited method args))
  | ended {method : Method} {frames : List (Frame R)} (result : Except E R) (idle : Idle frames)
      (inner : beat.frames = .inherited method :: frames) :
      Reaction beat (.ends result) (ended (A := A) beat.object frames method result).1
        (ended beat.object frames method result).2
  | asked {delay : R} {underway : Underway Op Answer Empty ObservedScheduler} {op next : Op}
      {frames : List (Frame R)} (answer : Answer)
      (observing : beat.Observing delay underway op frames)
      (more : (underway.next answer).asking = some next) :
      Reaction beat (.answer answer) ⟨beat.object, .observing delay (underway.next answer) :: frames⟩ none
  | finished {delay : R} {underway : Underway Op Answer Empty ObservedScheduler} {op : Op}
      {frames : List (Frame R)} {object : ObservedScheduler} (answer : Answer)
      (observing : beat.Observing delay underway op frames)
      (closed : (underway.next answer).result = some (.ok object)) :
      Reaction beat (.answer answer) ⟨object, frames⟩ (some (.returned (.ok delay)))

theorem react_call (idle : Idle beat.frames) (method : Method) (args : A) :
    react beat (.call method args : Move A R E) =
      some (⟨beat.object, .inherited method :: beat.frames⟩, some (.inherited method args)) := by
  obtain ⟨object, frames⟩ := beat
  cases frames with
  | nil => rfl
  | cons frame frames =>
      obtain ⟨outer, rfl⟩ := idle _ List.mem_cons_self
      rfl

theorem react_asked {delay : R} {underway : Underway Op Answer Empty ObservedScheduler}
    {frames : List (Frame R)} {answer : Answer} (inner : beat.frames = .observing delay underway :: frames)
    (more : (underway.next answer).result = none) :
    react beat (.answer answer : Move A R E) =
      some (⟨beat.object, .observing delay (underway.next answer) :: frames⟩, none) := by
  obtain ⟨object, outer⟩ := beat
  cases inner
  simp only [react, more]

theorem react_finished {delay : R} {underway : Underway Op Answer Empty ObservedScheduler}
    {frames : List (Frame R)} {answer : Answer} {object : ObservedScheduler}
    (inner : beat.frames = .observing delay underway :: frames)
    (closed : (underway.next answer).result = some (.ok object)) :
    react beat (.answer answer : Move A R E) =
      some (⟨object, frames⟩, some (.returned (.ok delay))) := by
  obtain ⟨before, outer⟩ := beat
  cases inner
  simp only [react, closed]

theorem react_reaction (sound : Sound beat) (reacts : react beat move = some (after, seen)) :
    Reaction beat move after seen := by
  obtain idle | ⟨delay, underway, op, frames, observing⟩ := sound
  · cases move with
    | call method args =>
        cases (react_call idle method args).symm.trans reacts
        exact .called method args idle
    | ends result =>
        obtain ⟨object, frames⟩ := beat
        cases frames with
        | nil => cases reacts
        | cons frame frames =>
            obtain ⟨method, rfl⟩ := idle _ List.mem_cons_self
            have same := Option.some.inj reacts
            obtain rfl := congrArg Prod.fst same
            obtain rfl := congrArg Prod.snd same
            exact .ended result (fun frame member => idle frame (List.mem_cons_of_mem _ member)) rfl
    | answer answer =>
        obtain ⟨object, frames⟩ := beat
        cases frames with
        | nil => cases reacts
        | cons frame frames =>
            obtain ⟨method, rfl⟩ := idle _ List.mem_cons_self
            cases reacts
  · cases move with
    | answer answer =>
        obtain ⟨next, more, none⟩ | ⟨object, _, closed⟩ := (underway.next answer).asks_or_returns
        · cases (react_asked observing.inner none).symm.trans reacts
          exact .asked answer observing more
        · cases (react_finished observing.inner closed).symm.trans reacts
          exact .finished answer observing closed
    | _ =>
        obtain ⟨object, outer⟩ := beat
        cases observing.inner
        cases reacts

theorem Idle.cons {frames : List (Frame R)} (idle : Idle frames) (method : Method) :
    Idle (.inherited method :: frames) :=
  List.forall_mem_cons.mpr ⟨⟨method, rfl⟩, idle⟩

theorem Reaction.sound (reaction : Reaction beat move after seen) : Sound after := by
  cases reaction with
  | called method args idle => exact .inl (idle.cons method)
  | ended result idle inner =>
      rename_i method frames
      cases method <;> cases result
      case tick.ok delay =>
        exact .inr ⟨delay, _, .monotonic, frames, rfl, idle, rfl,
          ObservedScheduler.observe_meets _, ObservedScheduler.observe_within _⟩
      all_goals exact .inl idle
  | asked answer observing more =>
      rename_i delay underway op next frames
      refine .inr ⟨delay, _, next, frames, rfl, observing.idle, more, observing.meets.next, ?_⟩
      rw [Underway.log_next observing.asking, List.length_append, List.length_singleton]
      exact Underway.within_next observing.within observing.asking
  | finished answer observing closed => exact .inl observing.idle

def log (beat : Beat R) : Log :=
  match beat.frames with
  | .observing _ underway :: _ => underway.log
  | _ => []

theorem asking_idle {beat : Beat R} (idle : Idle beat.frames) : beat.asking = none := by
  obtain ⟨object, frames⟩ := beat
  cases frames with
  | nil => rfl
  | cons frame frames =>
      obtain ⟨method, rfl⟩ := idle _ List.mem_cons_self
      rfl

theorem log_idle {beat : Beat R} (idle : Idle beat.frames) : beat.log = [] := by
  obtain ⟨object, frames⟩ := beat
  cases frames with
  | nil => rfl
  | cons frame frames =>
      obtain ⟨method, rfl⟩ := idle _ List.mem_cons_self
      rfl

theorem Observing.log_eq {beat : Beat R} {delay : R}
    {underway : Underway Op Answer Empty ObservedScheduler} {op : Op} {frames : List (Frame R)}
    (observing : beat.Observing delay underway op frames) : beat.log = underway.log := by
  simp only [log, observing.inner]

theorem Observing.asking_eq {beat : Beat R} {delay : R}
    {underway : Underway Op Answer Empty ObservedScheduler} {op : Op} {frames : List (Frame R)}
    (observing : beat.Observing delay underway op frames) : beat.asking = some op := by
  simp only [Beat.asking, observing.inner, observing.asking]

theorem Sound.asks {op : Op} (sound : beat.Sound) (asking : beat.asking = some op) :
    beat.object.Asks beat.log op := by
  obtain idle | ⟨delay, underway, asked, frames, observing⟩ := sound
  · cases (asking_idle idle).symm.trans asking
  · cases observing.asking_eq.symm.trans asking
    rw [observing.log_eq]
    exact observing.meets.allowed observing.asking

theorem answered_eq_some {beat : Beat R} {move : Move A R E} {op : Op} {answer : Answer}
    (exchange : answered beat move = some (op, answer)) :
    move = .answer answer ∧ beat.asking = some op := by
  cases move with
  | answer given =>
      obtain ⟨asked, asking, same⟩ := Option.map_eq_some_iff.mp exchange
      cases same
      exact ⟨rfl, asking⟩
  | _ => cases exchange

theorem Observing.answered_eq {beat : Beat R} {delay : R}
    {underway : Underway Op Answer Empty ObservedScheduler} {op : Op} {frames : List (Frame R)}
    (observing : beat.Observing delay underway op frames) (answer : Answer) :
    answered beat (.answer answer : Move A R E) = some (op, answer) := by
  rw [answered, observing.asking_eq, Option.map_some]

theorem Reaction.grows (reaction : Reaction beat move after seen) :
    after.log = [] ∧ (after.asking = none ∨
        ∃ delay frames, move = .ends (.ok delay) ∧ beat.frames = .inherited .tick :: frames) ∨
      ∃ op answer, move = .answer answer ∧ beat.asking = some op ∧
        after.log = beat.log ++ [(op, answer)] := by
  cases reaction with
  | called method args idle =>
      exact .inl ⟨log_idle (idle.cons method), .inl (asking_idle (idle.cons method))⟩
  | ended result idle inner =>
      rename_i method frames
      cases method <;> cases result
      case tick.ok delay => exact .inl ⟨rfl, .inr ⟨delay, frames, rfl, inner⟩⟩
      all_goals exact .inl ⟨log_idle idle, .inl (asking_idle idle)⟩
  | asked answer observing more =>
      refine .inr ⟨_, answer, rfl, observing.asking_eq, ?_⟩
      rw [observing.log_eq]
      exact Underway.log_next observing.asking
  | finished answer observing closed =>
      exact .inl ⟨log_idle observing.idle, .inl (asking_idle observing.idle)⟩

end Beat

end TplBackend.SchedulerActivity
