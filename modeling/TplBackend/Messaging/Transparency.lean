import TplBackend.Messaging.Observer

/-! An observed scheduler and its files over whole runs. -/

namespace TplBackend.SchedulerActivity

open Beat Effects ObservedScheduler Text Transition

variable {A R E : Type}

structure World (R : Type) where
  beat : Beat R
  files : Files

structure Label (A R E : Type) where
  move : Move A R E
  seen : Option (Seen A R E)

def Step (before : World R) (label : Label A R E) (after : World R) : Prop :=
  react before.beat label.move = some (after.beat, label.seen) ∧
    match answered before.beat label.move with
    | some (op, answer) => before.files.Admits op answer ∧ after.files = before.files.after op answer
    | none => after.files = before.files

abbrev History (A R E : Type) := List (Event (World R) (Label A R E))

/-- A scheduler without an observer: it calls the inherited method and passes on what that does. -/
def plain (methods : List Method) : Move A R E → Option (List Method × Option (Seen A R E))
  | .call method args => some (method :: methods, some (.inherited method args))
  | .ends result =>
    match methods with
    | [] => none
    | _ :: methods => some (methods, some (.returned result))
  | .answer _ => none

def plainRun : List (Move A R E) → Option (List Method × List (Seen A R E)) :=
  List.foldlM (fun reached move => (plain reached.1 move).map fun next =>
    (next.1, reached.2 ++ next.2.toList)) ([], [])

def calls (history : History A R E) : List (Move A R E) :=
  history.filterMap fun event =>
    match event.label.move with
    | .answer _ => none
    | move => some move

def shown (history : History A R E) : List (Seen A R E) := history.filterMap fun event => event.label.seen

namespace Beat

def methods (beat : Beat R) : List Method :=
  beat.frames.filterMap fun frame =>
    match frame with
    | .inherited method => some method
    | .observing _ _ => none

def pending (beat : Beat R) : List (Seen A R E) :=
  match beat.frames with
  | .observing delay _ :: _ => [.returned (.ok delay)]
  | _ => []

def lastAttempt (beat : Beat R) : Option ℚ :=
  match beat.log.head? with
  | some (.monotonic, .time t) => some t
  | _ => beat.object.lastWriteAttempt

end Beat

/-- The caller and the inherited methods see a plain scheduler. After at most eleven answers the
scheduler that observes is a plain one again. -/
structure Transparent (history : History A R E) (world : World R) : Prop where
  shows : plainRun (calls history) = some (world.beat.methods, shown history ++ world.beat.pending)
  ready : (∃ delay underway frames, world.beat.frames = .observing delay underway :: frames ∧
      underway.rest.Within (11 - underway.log.length) ∧
      ∀ answer, (react world.beat (.answer answer : Move A R E)).isSome = true) ∨
    ∀ move : Move A R E, (react world.beat move).isSome = (plain world.beat.methods move).isSome

def exchanges (history : History A R E) : Log :=
  history.filterMap fun event => answered event.before.beat event.label.move

def attempted (event : Event (World R) (Label A R E)) : Option ℚ :=
  match answered event.before.beat event.label.move, event.after.beat.asking with
  | some (.monotonic, .time t), some _ => some t
  | _, _ => none

def attempts (history : History A R E) : List ℚ := history.filterMap attempted

def completed (event : Event (World R) (Label A R E)) : Option (Method × Bool) :=
  match event.label.move, event.before.beat.frames with
  | .ends result, .inherited method :: _ => some (method, result.isOk)
  | _, _ => none

def count (history : History A R E) (method : Method) (returned : Bool) : Nat :=
  history.countP fun event => completed event = some (method, returned)

def Records (history : History A R E) (snapshot : Snapshot) : Prop :=
  snapshot.tickCount = count history .tick true ∧
    snapshot.publishReturns = count history .applyAsync true ∧
    snapshot.publishErrors = count history .applyAsync false

def Writes (path : Str) (event : Event (World R) (Label A R E)) (snapshot : Snapshot) : Prop :=
  event.after.files path = some (some snapshot.document) ∧
    event.after.files path ≠ event.before.files path

/-- The record of a run holds what it held at the start or one complete snapshot. -/
structure Honest (start : Files) (history : History A R E) (world : World R) (path : Str) : Prop where
  current : world.files path = start path ∨
    ∃ event ∈ history, ∃ snapshot, Writes path event snapshot ∧ world.files path = event.after.files path
  counted : ∀ earlier event later, history = earlier ++ event :: later →
    event.after.files path = event.before.files path ∨
      ∃ snapshot, Writes path event snapshot ∧ Records earlier snapshot
  ordered : ∀ earlier first middle second later snapshot snapshot',
    history = earlier ++ first :: (middle ++ second :: later) →
      Writes path first snapshot → Writes path second snapshot' →
        snapshot.tickCount ≤ snapshot'.tickCount ∧
          snapshot.publishReturns ≤ snapshot'.publishReturns ∧
          snapshot.publishErrors ≤ snapshot'.publishErrors

def Leaked (past : Log) (name : Str) : Prop := ∃ exchange ∈ past, RemovalFails name exchange

/-- What is known of the files while an observation runs that has had the exchanges of `log`. -/
structure Filed (start files : Files) (past log : Log) : Prop where
  known : ∀ exchange ∈ log, exchange ∈ past
  dumped : ∀ earlier name snapshot, log = earlier ++ [(.dump name snapshot, .done)] →
    files name = some (some snapshot.document)
  made : ∀ name, Made name log → start name = none ∧ ∀ schedule, name ≠ activityPath schedule
  removed : ∀ name, Made name log → Removed name log → files name = none
  others : ∀ name, (∀ schedule, name ≠ activityPath schedule) →
    files name = start name ∨ start name = none ∧ (Leaked past name ∨ Made name log)

namespace Filed

variable {start files : Files} {past log : Log} {object : ObservedScheduler} {op : Op} {answer : Answer}

theorem close (filed : Filed start files past log) (tidy : Tidy log) :
    Filed start files past [] := by
  refine ⟨by simp, by simp, by simp [Made], by simp [Removed], fun name temporary => ?_⟩
  obtain same | ⟨new, leaked | made⟩ := filed.others name temporary
  · exact .inl same
  · exact .inr ⟨new, .inl leaked⟩
  · obtain gone | ⟨exchange, member, fails⟩ := tidy name made
    · exact .inl ((filed.removed name made gone).trans new.symm)
    · exact .inr ⟨new, .inl ⟨exchange, filed.known exchange member, fails⟩⟩

theorem touched (files : Files) (answer : Answer) (asks : object.Asks log op) (name : Str) :
    files.after op answer name = files name ∨ Made name (log ++ [(op, answer)]) ∨
      (∃ filename ∈ object.scheduleFilename, name = activityPath filename) ∧
      ∃ temporary, op = .replace temporary name ∧ answer = .done ∧
        files.after op answer name = files temporary := by
  obtain same | ⟨pre, beside, rfl, rfl⟩ | ⟨snapshot, rfl⟩ | ⟨path, rfl⟩ | ⟨temporary, rfl, rfl, came⟩ | rfl :=
    files.after_apply op answer name
  · exact .inl same
  · exact .inr (.inl ⟨pre, beside, by simp⟩)
  · obtain ⟨_, _, _, earlier, pre, beside, rfl⟩ := asks
    exact .inr (.inl ⟨pre, beside, by simp⟩)
  · exact .inr (.inl (made_append.mpr (.inl asks.2.1)))
  · exact .inr (.inr ⟨asks.2.2.1, temporary, rfl, rfl, came⟩)
  · exact .inr (.inl (made_append.mpr (.inl asks.2)))

theorem made_concat (filed : Filed start files past log) (admits : files.Admits op answer)
    (name : Str) (made : Made name (log ++ [(op, answer)])) :
    start name = none ∧ ∀ schedule, name ≠ activityPath schedule := by
  obtain old | ⟨⟨pre, beside, rfl⟩, rfl⟩ := ObservedScheduler.made_concat.mp made
  · exact filed.made name old
  · refine ⟨?_, admits.2⟩
    obtain same | ⟨new, _⟩ := filed.others name admits.2
    · exact same.symm.trans admits.1
    · exact new

theorem exchange (filed : Filed start files past log) (asks : object.Asks log op)
    (admits : files.Admits op answer) :
    Filed start (files.after op answer) (past ++ [(op, answer)]) (log ++ [(op, answer)]) := by
  refine ⟨fun exchange member => ?_, fun earlier name snapshot same => ?_, filed.made_concat admits,
    fun name made removed => ?_, fun name temporary => ?_⟩
  · exact (List.mem_append.mp member).elim
      (fun old => List.mem_append_left _ (filed.known exchange old)) (List.mem_append_right _)
  · cases (List.append_inj' same rfl).2
    exact Function.update_self _ _ _
  · have temporary := (filed.made_concat admits name made).2
    rcases removed_concat.mp removed with old | ⟨rfl, rfl⟩ | ⟨rfl, rfl⟩
    · have gone (earlier : Made name log) : files name = none := filed.removed name earlier old
      obtain same | ⟨pre, beside, rfl, rfl⟩ | ⟨snapshot, rfl⟩ | ⟨path, rfl⟩ | ⟨source, rfl, rfl, _⟩ | rfl :=
        files.after_apply op answer name
      · obtain earlier | ⟨⟨pre, beside, rfl⟩, _⟩ := ObservedScheduler.made_concat.mp made
        · exact same.trans (gone earlier)
        · exact absurd old (asks.2 name).2
      · exact absurd old (asks.2 name).2
      · exact absurd old asks.2.2.1
      · exact files.after_none (.inl ⟨path, rfl⟩) (gone asks.2.1)
      · obtain ⟨filename, _, named⟩ := asks.2.2.1
        exact absurd named (temporary filename)
      · exact files.after_none (.inr rfl) (gone asks.2)
    · have gone : files name = none := by simpa using admits.symm
      exact gone
    · exact Function.update_self _ _ _
  · obtain same | made | ⟨⟨filename, _, named⟩, _⟩ := touched files answer asks name
    · rw [same]
      refine (filed.others name temporary).imp id (And.imp id (Or.imp ?_ fun made => ?_))
      · exact fun ⟨failure, member, fails⟩ => ⟨failure, List.mem_append_left _ member, fails⟩
      · exact made_append.mpr (.inl made)
    · exact .inr ⟨(filed.made_concat admits name made).1, .inr made⟩
    · exact absurd named (temporary filename)

theorem recorded (filed : Filed start files past log) (asks : object.Asks log op)
    (admits : files.Admits op answer) (schedule : Str) :
    files.after op answer (activityPath schedule) = files (activityPath schedule) ∨
      ∃ earlier snapshot, Snapshot.Of object earlier snapshot ∧
        files.after op answer (activityPath schedule) = some (some snapshot.document) := by
  obtain same | made | ⟨_, temporary, rfl, rfl, came⟩ :=
    touched files answer asks (activityPath schedule)
  · exact .inl same
  · exact absurd rfl ((filed.made_concat admits _ made).2 schedule)
  · obtain ⟨earlier, snapshot, whole, of⟩ := asks.2.2.2
    exact .inr ⟨earlier, snapshot, of, came.trans (filed.dumped earlier temporary snapshot whole)⟩

end Filed

namespace Beat

theorem pending_idle {beat : Beat R} (idle : Idle beat.frames) :
    (beat.pending : List (Seen A R E)) = [] := by
  obtain ⟨object, frames⟩ := beat
  cases frames with
  | nil => rfl
  | cons frame frames =>
      obtain ⟨method, rfl⟩ := idle _ List.mem_cons_self
      rfl

theorem lastAttempt_nil {beat : Beat R} (quiet : beat.log = []) :
    beat.lastAttempt = beat.object.lastWriteAttempt := by
  rw [lastAttempt, quiet, List.head?_nil]

theorem lastAttempt_append {beat beat' : Beat R} {more : Log} (begun : beat.log ≠ [])
    (longer : beat'.log = beat.log ++ more) (same : beat'.object = beat.object) :
    beat'.lastAttempt = beat.lastAttempt := by
  obtain ⟨first, later, log⟩ := List.exists_cons_of_ne_nil begun
  simp only [lastAttempt, longer, log, same, List.cons_append, List.head?_cons]

end Beat

section Steps

variable {before after : World R} {label : Label A R E}

theorem count_single (method : Method) (returned : Bool) :
    count [⟨before, label, after⟩] method returned =
      if completed ⟨before, label, after⟩ = some (method, returned) then 1 else 0 := by
  simp [count, List.countP_cons]

theorem counters_step (reaction : Reaction before.beat label.move after.beat label.seen) :
    after.beat.object.scheduleFilename = before.beat.object.scheduleFilename ∧
      after.beat.object.tickCount =
        before.beat.object.tickCount + count [⟨before, label, after⟩] .tick true ∧
      after.beat.object.publishReturns =
        before.beat.object.publishReturns + count [⟨before, label, after⟩] .applyAsync true ∧
      after.beat.object.publishErrors =
        before.beat.object.publishErrors + count [⟨before, label, after⟩] .applyAsync false := by
  obtain ⟨beat, files⟩ := before
  obtain ⟨beat', files'⟩ := after
  obtain ⟨move, seen⟩ := label
  cases reaction with
  | called method args idle => simp [count_single, completed]
  | ended result idle inner =>
      rename_i method frames
      dsimp only at inner
      cases method <;> cases result <;>
        simp [count_single, completed, inner, ended, Except.isOk, Except.toBool]
  | asked answer observing more => simp [count_single, completed]
  | finished answer observing closed =>
      obtain ⟨observed, _⟩ := observing.meets.next.ended closed
      dsimp only
      rw [observed.same]
      simp [count_single, completed]

theorem plainRun_concat (moves : List (Move A R E)) (move : Move A R E) :
    plainRun (moves ++ [move]) = (plainRun moves).bind fun reached =>
      (plain reached.1 move).map fun next => (next.1, reached.2 ++ next.2.toList) := by
  rw [plainRun, List.foldlM_append]
  refine bind_congr fun reached => ?_
  exact List.foldlM_cons.trans (bind_pure _)

variable {history : History A R E}

/-- Every event of an observed scheduler is one of the plain scheduler, or the plain one is ahead by
the result of the `tick` that observes. -/
theorem shows_step (reaction : Reaction before.beat label.move after.beat label.seen)
    (shows : plainRun (calls history) = some (before.beat.methods, shown history ++ before.beat.pending)) :
    plainRun (calls (history ++ [⟨before, label, after⟩])) =
      some (after.beat.methods, shown (history ++ [⟨before, label, after⟩]) ++ after.beat.pending) := by
  obtain ⟨beat, files⟩ := before
  obtain ⟨beat', files'⟩ := after
  obtain ⟨move, seen⟩ := label
  rw [calls, shown, List.filterMap_append, List.filterMap_append, ← calls, ← shown]
  cases reaction with
  | called method args idle =>
      rw [pending_idle idle] at shows
      rw [pending_idle (idle.cons method)]
      simp only [List.filterMap_cons, List.filterMap_nil, plainRun_concat, shows]
      simp [plain, methods]
  | ended result idle inner =>
      rename_i method frames
      replace inner : beat.frames = .inherited method :: frames := inner
      have outer : Idle beat.frames := inner ▸ idle.cons method
      have running : beat.methods = method :: methods ⟨beat.object, frames⟩ := by
        simp [methods, inner]
      rw [pending_idle outer, running] at shows
      simp only [List.filterMap_cons, List.filterMap_nil, plainRun_concat, shows]
      cases method <;> cases result
      case tick.ok delay => simp [plain, ended, methods, pending]
      all_goals
        rw [pending_idle (by exact idle)]
        simp [plain, ended, methods]
  | asked answer observing more =>
      have inner : beat.frames = _ := observing.inner
      simpa [methods, pending, inner] using shows
  | finished answer observing closed =>
      have inner : beat.frames = _ := observing.inner
      rw [pending_idle (by exact observing.idle)]
      simpa [methods, pending, inner] using shows

def Spaced (history : History A R E) (beat : Beat R) : Prop :=
  (attempts history).Pairwise (fun first second => first + writeIntervalSeconds ≤ second) ∧
    ∀ t ∈ attempts history, ∃ last ∈ beat.lastAttempt, t ≤ last

theorem Spaced.kept {beat beat' : Beat R} {event : Event (World R) (Label A R E)}
    (spaced : Spaced history beat) (none : attempted event = none)
    (same : beat'.lastAttempt = beat.lastAttempt) : Spaced (history ++ [event]) beat' := by
  have attempts_eq : attempts (history ++ [event]) = attempts history := by
    simp [attempts, List.filterMap_append, none]
  rw [Spaced, attempts_eq, same]
  exact spaced

theorem Spaced.attempt {beat beat' : Beat R} {event : Event (World R) (Label A R E)} {t : ℚ}
    (spaced : Spaced history beat) (started : attempted event = some t)
    (quiet : beat.lastAttempt = beat.object.lastWriteAttempt) (due : beat.object.Due t)
    (later : beat'.lastAttempt = some t) : Spaced (history ++ [event]) beat' := by
  have attempts_eq : attempts (history ++ [event]) = attempts history ++ [t] := by
    simp [attempts, List.filterMap_append, started]
  have apart (first : ℚ) (member : first ∈ attempts history) : first + writeIntervalSeconds ≤ t := by
    obtain ⟨last, latest, before⟩ := spaced.2 first member
    have passed := due last (quiet ▸ latest)
    linarith
  rw [Spaced, attempts_eq, later]
  refine ⟨List.pairwise_append.mpr ⟨spaced.1, List.pairwise_singleton _ _, ?_⟩, fun first member => ⟨t, rfl, ?_⟩⟩
  · exact fun first member second single => List.mem_singleton.mp single ▸ apart first member
  · obtain old | single := List.mem_append.mp member
    · exact le_trans (by simp [writeIntervalSeconds]) (apart first old)
    · exact (List.mem_singleton.mp single).le

theorem attempted_eq_some {event : Event (World R) (Label A R E)} {t : ℚ}
    (started : attempted event = some t) :
    answered event.before.beat event.label.move = some (.monotonic, .time t) ∧
      ∃ op, event.after.beat.asking = some op := by
  unfold attempted at started
  split at started
  · rename_i exchange asking
    cases started
    exact ⟨exchange, _, asking⟩
  · cases started

theorem spaced_step (reaction : Reaction before.beat label.move after.beat label.seen)
    (spaced : Spaced history before.beat) :
    Spaced (history ++ [⟨before, label, after⟩]) after.beat := by
  obtain ⟨beat, files⟩ := before
  obtain ⟨beat', files'⟩ := after
  obtain ⟨move, seen⟩ := label
  cases reaction with
  | called method args idle =>
      exact spaced.kept rfl ((lastAttempt_nil (log_idle (idle.cons method))).trans
        (lastAttempt_nil (log_idle idle)).symm)
  | ended result idle inner =>
      rename_i method frames
      replace inner : beat.frames = .inherited method :: frames := inner
      refine spaced.kept rfl (Eq.trans ?_ (lastAttempt_nil (log_idle (inner ▸ idle.cons method))).symm)
      cases method <;> cases result
      case tick.ok delay => rfl
      all_goals exact lastAttempt_nil (log_idle idle)
  | asked answer observing more =>
      rename_i delay underway op next frames
      have longer : log ⟨beat.object, .observing delay (underway.next answer) :: frames⟩ =
          underway.log ++ [(op, answer)] := Underway.log_next observing.asking
      cases started : attempted ⟨⟨beat, files⟩, ⟨.answer answer, none⟩,
          ⟨⟨beat.object, .observing delay (underway.next answer) :: frames⟩, files'⟩⟩ with
      | none =>
          refine spaced.kept started ?_
          obtain ⟨rfl, empty⟩ | ⟨_, begun⟩ := (observing.meets.allowed observing.asking).order
          · have quiet : beat.log = [] := observing.log_eq.trans empty
            rw [lastAttempt_nil quiet, lastAttempt, longer, empty]
            cases answer
            case time t =>
              have exchange := observing.answered_eq (A := A) (E := E) (.time t)
              simp only [attempted, exchange, asking, more] at started
              cases started
            all_goals rfl
          · refine lastAttempt_append ?_ (longer.trans (by rw [observing.log_eq])) rfl
            rw [observing.log_eq]
            obtain ⟨t, later, same, _⟩ | ⟨first, same, _⟩ := begun <;> rw [same] <;>
              exact List.cons_ne_nil _ _
      | some t =>
          obtain ⟨exchange, _⟩ := attempted_eq_some started
          rw [observing.answered_eq] at exchange
          cases exchange
          have empty : underway.log = [] := observing.meets.allowed observing.asking
          have quiet : beat.log = [] := observing.log_eq.trans empty
          rw [empty] at longer
          obtain ⟨_, none⟩ | ⟨_, ⟨t', later, same, due⟩ | ⟨_, same, silent⟩⟩ :=
            (observing.meets.next.allowed more).order
          · cases longer.symm.trans none
          · cases longer.symm.trans same
            exact spaced.attempt started (lastAttempt_nil quiet) due
              (by rw [lastAttempt, longer]; rfl)
          · cases longer.symm.trans same
            cases silent
  | finished answer observing closed =>
      rename_i delay underway op frames object
      have longer : (underway.next answer).log = underway.log ++ [(op, answer)] :=
        Underway.log_next observing.asking
      obtain ⟨observed, _⟩ := observing.meets.next.ended closed
      rw [longer] at observed
      refine spaced.kept ?_ ((lastAttempt_nil (log_idle observing.idle)).trans ?_)
      · refine Option.eq_none_iff_forall_ne_some.mpr fun t started => ?_
        obtain ⟨_, op, asks⟩ := attempted_eq_some started
        cases (asking_idle observing.idle).symm.trans asks
      · rw [lastAttempt, observing.log_eq]
        obtain ⟨t, later, same, more, rfl⟩ | ⟨rfl, alone⟩ := observed
        · cases begun : underway.log with
          | nil =>
              rw [begun] at same
              cases same
              exact absurd rfl more
          | cons first rest =>
              rw [begun] at same
              cases same
              rfl
        · split
          · rename_i t head
            obtain ⟨rest, begun⟩ := List.head?_eq_some_iff.mp head
            rw [begun] at alone
            cases List.append_ne_nil_of_right_ne_nil _ (List.cons_ne_nil _ _) (alone t _ rfl)
          · rfl

theorem files_kept (step : Step before label after) (none : answered before.beat label.move = none) :
    after.files = before.files := by
  have files := step.2
  rw [none] at files
  exact files

theorem files_after {op : Op} {answer : Answer} (step : Step before label after)
    (some : answered before.beat label.move = some (op, answer)) :
    before.files.Admits op answer ∧ after.files = before.files.after op answer := by
  have files := step.2
  rw [some] at files
  exact files

theorem filed_step {start : Files} (step : Step before label after)
    (reaction : Reaction before.beat label.move after.beat label.seen)
    (filed : Filed start before.files (exchanges history) before.beat.log) :
    Filed start after.files (exchanges (history ++ [⟨before, label, after⟩])) after.beat.log := by
  obtain ⟨beat, files⟩ := before
  obtain ⟨beat', files'⟩ := after
  obtain ⟨move, seen⟩ := label
  rw [exchanges, List.filterMap_append, ← exchanges]
  cases reaction with
  | called method args idle =>
      rw [files_kept step rfl, log_idle (idle.cons method)]
      rw [log_idle idle] at filed
      simpa [answered] using filed
  | ended result idle inner =>
      rename_i method frames
      replace inner : beat.frames = .inherited method :: frames := inner
      rw [log_idle (inner ▸ idle.cons method)] at filed
      have quiet : (ended (A := A) beat.object frames method result).1.log = [] := by
        cases method <;> cases result
        case tick.ok => rfl
        all_goals exact log_idle idle
      rw [files_kept step rfl, quiet]
      simpa [answered] using filed
  | asked answer observing more =>
      have exchange := observing.answered_eq (A := A) (E := E) answer
      obtain ⟨admits, files⟩ := files_after step exchange
      rename_i delay underway op next frames
      have longer : log ⟨beat.object, .observing delay (underway.next answer) :: frames⟩ =
          underway.log ++ [(op, answer)] := Underway.log_next observing.asking
      rw [observing.log_eq] at filed
      rw [files, longer]
      simpa [exchange] using filed.exchange (observing.meets.allowed observing.asking) admits
  | finished answer observing closed =>
      have exchange := observing.answered_eq (A := A) (E := E) answer
      obtain ⟨admits, files⟩ := files_after step exchange
      rw [observing.log_eq] at filed
      obtain ⟨_, tidy⟩ := observing.meets.next.ended closed
      rw [Underway.log_next observing.asking] at tidy
      rw [files, log_idle observing.idle]
      simpa [exchange] using (filed.exchange (observing.meets.allowed observing.asking) admits).close tidy

end Steps

structure Reached (filename : Option Str) (start : Files) (history : History A R E) (world : World R) :
    Prop where
  sound : world.beat.Sound
  filename : world.beat.object.scheduleFilename = filename
  ticks : world.beat.object.tickCount = count history .tick true
  returns : world.beat.object.publishReturns = count history .applyAsync true
  errors : world.beat.object.publishErrors = count history .applyAsync false
  shows : plainRun (calls history) = some (world.beat.methods, shown history ++ world.beat.pending)
  spaced : Spaced history world.beat
  filed : Filed start world.files (exchanges history) world.beat.log

section Runs

variable {filename : Option Str} {start : Files} {history : History A R E} {world : World R}

def World.init (filename : Option Str) (start : Files) : World R := ⟨⟨.init filename, []⟩, start⟩

theorem Step.reaction {before after : World R} {label : Label A R E} (step : Step before label after)
    (sound : before.beat.Sound) : Reaction before.beat label.move after.beat label.seen :=
  react_reaction sound step.1

theorem reached (run : Run Step (World.init filename start) history world) :
    Reached filename start history world := by
  induction run with
  | init =>
      refine ⟨.inl (by simp [Idle, World.init]), rfl, rfl, rfl, rfl, rfl, ⟨List.Pairwise.nil, by simp [attempts]⟩, ?_⟩
      exact ⟨by simp [World.init, log], by simp [World.init, log], by simp [World.init, log, Made],
        by simp [World.init, log, Made], fun name _ => .inl rfl⟩
  | @next history before after label shorter step ih =>
      have reaction := step.reaction ih.sound
      obtain ⟨filename, ticks, returns, errors⟩ := counters_step reaction
      refine ⟨reaction.sound, filename.trans ih.filename, ?_, ?_, ?_, shows_step reaction ih.shows,
        spaced_step reaction ih.spaced, filed_step step reaction ih.filed⟩
      · rw [ticks, ih.ticks, count, count, count, List.countP_append]
      · rw [returns, ih.returns, count, count, count, List.countP_append]
      · rw [errors, ih.errors, count, count, count, List.countP_append]

theorem ready (sound : world.beat.Sound) :
    (∃ delay underway frames, world.beat.frames = .observing delay underway :: frames ∧
      underway.rest.Within (11 - underway.log.length) ∧
      ∀ answer, (react world.beat (.answer answer : Move A R E)).isSome = true) ∨
    ∀ move : Move A R E, (react world.beat move).isSome = (plain world.beat.methods move).isSome := by
  obtain idle | ⟨delay, underway, op, frames, observing⟩ := sound
  · refine .inr fun move => ?_
    obtain ⟨⟨object, frames⟩, files⟩ := world
    cases move with
    | call method args => rw [react_call idle, plain, Option.isSome_some, Option.isSome_some]
    | ends result =>
        cases frames with
        | nil => rfl
        | cons frame frames =>
            obtain ⟨method, rfl⟩ := idle _ List.mem_cons_self
            rfl
    | answer answer =>
        cases frames with
        | nil => rfl
        | cons frame frames =>
            obtain ⟨method, rfl⟩ := idle _ List.mem_cons_self
            rfl
  · refine .inl ⟨delay, underway, frames, observing.inner, observing.within, fun answer => ?_⟩
    obtain ⟨next, _, none⟩ | ⟨object, _, closed⟩ := (underway.next answer).asks_or_returns
    · rw [react_asked observing.inner none, Option.isSome_some]
    · rw [react_finished observing.inner closed, Option.isSome_some]

theorem recorded_step {before after : World R} {label : Label A R E} (step : Step before label after)
    (sound : before.beat.Sound) (filed : Filed start before.files (exchanges history) before.beat.log)
    (schedule : Str) : after.files (activityPath schedule) = before.files (activityPath schedule) ∨
      ∃ earlier snapshot, Snapshot.Of before.beat.object earlier snapshot ∧
        after.files (activityPath schedule) = some (some snapshot.document) := by
  obtain none | ⟨⟨op, answer⟩, exchange⟩ := (answered before.beat label.move).eq_none_or_eq_some
  · exact .inl (congrFun (files_kept step none) _)
  · obtain ⟨admits, files⟩ := files_after step exchange
    obtain ⟨_, asking⟩ := answered_eq_some exchange
    obtain idle | ⟨delay, underway, asked, frames, observing⟩ := sound
    · cases (asking_idle idle).symm.trans asking
    · rw [observing.log_eq] at filed
      cases observing.asking_eq.symm.trans asking
      rw [files]
      exact filed.recorded (observing.meets.allowed observing.asking) admits schedule

theorem records {before : World R} (reached : Reached filename start history before) {earlier : Log}
    {snapshot : Snapshot} (of : snapshot.Of before.beat.object earlier) : Records history snapshot := by
  obtain ⟨_, _, _, _, ticks, returns, errors⟩ := of
  exact ⟨ticks.trans reached.ticks, returns.trans reached.returns, errors.trans reached.errors⟩

theorem counted (run : Run Step (World.init filename start) history world) (schedule : Str)
    {earlier later : History A R E} {event : Event (World R) (Label A R E)}
    (split : history = earlier ++ event :: later) :
    event.after.files (activityPath schedule) = event.before.files (activityPath schedule) ∨
      ∃ snapshot, Writes (activityPath schedule) event snapshot ∧ Records earlier snapshot := by
  subst split
  obtain ⟨shorter, step⟩ := Run.at_event run
  have known := reached shorter
  obtain same | ⟨log, snapshot, of, written⟩ := recorded_step step known.sound known.filed schedule
  · exact .inl same
  · by_cases same : event.after.files (activityPath schedule) = event.before.files (activityPath schedule)
    · exact .inl same
    · exact .inr ⟨snapshot, ⟨written, same⟩, records known of⟩

theorem records_of_writes (run : Run Step (World.init filename start) history world) {schedule : Str}
    {earlier later : History A R E} {event : Event (World R) (Label A R E)} {snapshot : Snapshot}
    (split : history = earlier ++ event :: later) (writes : Writes (activityPath schedule) event snapshot) :
    Records earlier snapshot := by
  obtain same | ⟨other, ⟨written, _⟩, records⟩ := counted run schedule split
  · exact absurd same writes.2
  · cases Snapshot.document_inj (Option.some.inj (Option.some.inj (written.symm.trans writes.1)))
    exact records

theorem count_le (earlier later : History A R E) (method : Method) (returned : Bool) :
    count earlier method returned ≤ count (earlier ++ later) method returned := by
  rw [count, count, List.countP_append]
  exact Nat.le_add_right _ _

theorem current (run : Run Step (World.init filename start) history world) (schedule : Str) :
    world.files (activityPath schedule) = start (activityPath schedule) ∨
      ∃ event ∈ history, ∃ snapshot, Writes (activityPath schedule) event snapshot ∧
        world.files (activityPath schedule) = event.after.files (activityPath schedule) := by
  induction run with
  | init => exact .inl rfl
  | @next history before after label shorter step ih =>
      obtain same | ⟨snapshot, writes, _⟩ := counted (shorter.next step) schedule rfl
      · dsimp only at same
        rw [same]
        exact ih.imp id fun ⟨event, member, rest⟩ => ⟨event, List.mem_append_left _ member, rest⟩
      · exact .inr ⟨_, List.mem_append_right _ (List.mem_singleton_self _), snapshot, writes, rfl⟩

theorem honest (run : Run Step (World.init filename start) history world) (schedule : Str) :
    Honest start history world (activityPath schedule) := by
  refine ⟨current run schedule, fun earlier event later split => counted run schedule split, ?_⟩
  intro earlier first middle second later snapshot snapshot' split wrote wrote'
  obtain ⟨ticks, returns, errors⟩ := records_of_writes run split wrote
  have resplit : history = (earlier ++ first :: middle) ++ second :: later := by
    rw [split, List.append_assoc, List.cons_append]
  obtain ⟨ticks', returns', errors'⟩ := records_of_writes run resplit wrote'
  rw [ticks, returns, errors, ticks', returns', errors']
  exact ⟨count_le _ _ _ _, count_le _ _ _ _, count_le _ _ _ _⟩

/-- The caller sees a plain scheduler, the write attempts are an interval apart, the record is at all
times what it was or one complete snapshot of the counters, and temporary files stay only where their
removal has failed. -/
theorem observed_scheduler_honest (run : Run Step (World.init filename start) history world) :
    Transparent history world ∧
      ((attempts history).Pairwise fun first second => first + writeIntervalSeconds ≤ second) ∧
      (∀ schedule, Honest start history world (activityPath schedule)) ∧
      (world.beat.asking = none → ∀ name, (∀ schedule, name ≠ activityPath schedule) →
        world.files name = start name ∨ Leaked (exchanges history) name) := by
  have known := reached run
  refine ⟨⟨known.shows, ready known.sound⟩, known.spaced.1, honest run, fun quiet name temporary => ?_⟩
  obtain same | ⟨_, leaked | made⟩ := known.filed.others name temporary
  · exact .inl same
  · exact .inr leaked
  · obtain idle | ⟨delay, underway, asked, frames, observing⟩ := known.sound
    · rw [log_idle idle] at made
      simp [Made] at made
    · cases observing.asking_eq.symm.trans quiet

end Runs

section Sample

def sampleNext (world : World Nat) (label : Label Unit Nat Unit) : World Nat :=
  match react world.beat label.move with
  | some (beat, _) => ⟨beat, (answered world.beat label.move).elim world.files fun exchange =>
      world.files.after exchange.1 exchange.2⟩
  | none => world

def sampleStat : Str := ['1', ' ', '(', 'b', ')', ' ', 'S'] ++ (List.replicate 18 [' ', '0']).flatten ++ [' ', '7']

def sampleLabels : List (Label Unit Nat Unit) :=
  [⟨.call .tick (), some (.inherited .tick ())⟩, ⟨.ends (.ok 5), none⟩,
    ⟨.answer (.time 100), none⟩, ⟨.answer (.time 90), none⟩, ⟨.answer (.pid 1), none⟩,
    ⟨.answer (.text sampleStat), none⟩, ⟨.answer (.text ['x', '\n']), none⟩,
    ⟨.answer (.text ['t']), none⟩, ⟨.answer .done, none⟩, ⟨.answer .done, none⟩,
    ⟨.answer (.flag false), some (.returned (.ok 5))⟩]

def sampleStart : World Nat := World.init (some ['b']) fun _ => none

def sampleHistory : History Unit Nat Unit := trace sampleNext sampleStart sampleLabels

def sampleWorld : World Nat := sampleLabels.foldl sampleNext sampleStart

theorem sample_run : Run Step sampleStart sampleHistory sampleWorld := by
  refine Run.of_trace ?_
  simp only [sampleLabels, trace, List.forall_mem_cons]
  refine ⟨⟨rfl, rfl⟩, ⟨rfl, rfl⟩, ⟨rfl, trivial, rfl⟩, ⟨rfl, trivial, rfl⟩, ⟨rfl, trivial, rfl⟩,
    ⟨rfl, trivial, rfl⟩, ⟨rfl, trivial, rfl⟩, ⟨rfl, ⟨rfl, ne_activityPath (by decide)⟩, rfl⟩, ⟨rfl, trivial, rfl⟩,
    ⟨rfl, Option.some_ne_none _, rfl⟩, ⟨rfl, rfl, rfl⟩, by simp⟩

theorem observed_scheduler_honest_sample :
    Honest sampleStart.files sampleHistory sampleWorld (activityPath ['b']) ∧
      attempts sampleHistory = [100] ∧
      sampleWorld.files (activityPath ['b']) =
        some (some (Snapshot.document ⟨1, ['7'], ['x'], 90, 1, 0, 0⟩)) :=
  ⟨(observed_scheduler_honest sample_run).2.2.1 ['b'], rfl, rfl⟩

end Sample

end TplBackend.SchedulerActivity
