import TplBackend.Consumer.Soundness

namespace TplBackend

open Keyed Transition

variable {J W : Type}

def Commit.marker (commit : Commit W) : Option InboxMessage := commit.receipt.map Prod.snd

namespace Consumers

variable [DecidableEq J] {codec : Codec J} {state after : Consumers J W} {label : Label J W}
variable {pid : Nat}

section Writes

def Label.uncommitted (pid : Nat) (writes : List W) : Label J W → List W
  | .write actor w => if actor = pid then writes ++ [w] else writes
  | .rollback actor | .commit actor => if actor = pid then [] else writes
  | _ => writes

def uncommitted (pid : Nat) (history : List (Event (Consumers J W) (Label J W))) : List W :=
  history.foldl (fun writes event => event.label.uncommitted pid writes) []

omit [DecidableEq J] in
theorem uncommitted_other (other : label.actor ≠ some pid) (writes : List W) :
    label.uncommitted pid writes = writes := by
  cases label with
  | write actor w => exact if_neg fun same => other (congrArg some same)
  | rollback actor | commit actor => exact if_neg fun same => other (congrArg some same)
  | _ => rfl

theorem moves_writes (moves : Moves codec state label after) {writes : List W}
    (before : state.calls pid ≠ .ended →
      (state.calls pid).session?.elim [] Session.writes = writes)
    (running : after.calls pid ≠ .ended) :
    (after.calls pid).session?.elim [] Session.writes = label.uncommitted pid writes := by
  have open_before : state.calls pid ≠ .ended := fun ended => running (moves_ended moves ended)
  have same := before open_before
  by_cases acts : label.actor = some pid
  · cases moves with
    | unguarded => exact same
    | kept | renewed | released | delivered => cases acts
    | aborted =>
        cases acts
        simp [aborted, put] at running
    | committed =>
        cases acts
        simp only [sessionCommitted, put_calls_self] at running ⊢
        split at running
        · cases running rfl
        · rename_i unmarked
          rw [if_neg unmarked]
          simp [Label.uncommitted, Call.session?]
    | written executing | rolledBack executing =>
        cases acts
        rw [executing] at same
        rw [put_calls_self, ← same]
        simp [Label.uncommitted, Call.session?]
    | selected held | upserted held | rechecked held | granted held | begun held | marked held
    | guarded held =>
        cases acts
        rw [held] at same
        simp only [claimCommitted, put_calls_self, Bool.false_eq_true, if_false]
        exact same
    | _ =>
        cases acts
        simp [claimCommitted] at running
  · rw [moves_calls moves acts, uncommitted_other acts, same]

theorem run_writes {history : List (Event (Consumers J W) (Label J W))}
    (run : Run (Step codec) start history state) (pid : Nat) (running : state.calls pid ≠ .ended) :
    (state.calls pid).session?.elim [] Session.writes = uncommitted pid history := by
  induction run with
  | init => rfl
  | next _ step ih =>
      rw [uncommitted, List.foldl_append]
      exact moves_writes (step_moves step) ih running

end Writes

section Visibility

/-- The inbox and the business writes are what the commits made visible, and a message has no
commit after its final one. -/
structure Settled (state : Consumers J W) : Prop where
  inbox : state.tables.inbox.rows = state.commits.filterMap Commit.marker
  business : state.business = state.commits.flatMap Commit.writes
  once : state.commits.Pairwise fun earlier later =>
    earlier.receipt.isSome = true → later.lease.messageId ≠ earlier.lease.messageId

omit [DecidableEq J] in
theorem start_settled : Settled (start : Consumers J W) := ⟨rfl, rfl, List.Pairwise.nil⟩

omit [DecidableEq J] in
theorem inbox_sessionCommitted (sound : Sound state) {session : Session J W}
    (guarded : state.calls pid = .guarded session) :
    (state.sessionCommitted pid session).tables.inbox.rows =
      state.tables.inbox.rows ++ (session.receipt.map Prod.snd).toList := by
  cases receipt : session.receipt with
  | none => simp [sessionCommitted, put, free, marked, receipt]
  | some pair =>
      obtain ⟨fresh, row⟩ := pair
      obtain ⟨rfl, keyed⟩ := guarded_receipt sound guarded receipt
      have unacknowledged := guarded_unacknowledged sound guarded
      have absent : state.tables.inbox.find? row.key = none := by
        rw [Table.find?_eq_none]
        intro i member same
        rw [(Tables.acknowledged_iff _ _ _).mpr ⟨i, member, same.trans keyed⟩] at unacknowledged
        cases unacknowledged
      simp [sessionCommitted, put, free, marked, receipt, Table.insert_rows absent]

omit [DecidableEq J] in
theorem guarded_not_final (sound : Sound state) {session : Session J W}
    (guarded : state.calls pid = .guarded session) {commit : Commit W}
    (member : commit ∈ state.commits) (final : commit.receipt.isSome = true) :
    session.lease.messageId ≠ commit.lease.messageId := by
  intro same
  obtain ⟨⟨fresh, row⟩, receipt⟩ := Option.isSome_iff_exists.mp final
  have recorded := sound.recorded commit member fresh row receipt
  obtain ⟨intent, carried, keyed, topic⟩ := recorded.topic
  have attached := sound.attached_guarded guarded
  have own := sound.carried_guarded guarded
  have id : session.message.id = row.messageId :=
    attached.messageId.symm.trans (same.trans recorded.messageId.symm)
  have equal := intent_eq_of_carries own carried (id.trans keyed.symm)
  have consumer : session.message.topic = row.consumer :=
    (congrArg Intent.topic equal).trans topic
  have unacknowledged := guarded_unacknowledged sound guarded
  rw [consumer, id, recorded.acknowledged] at unacknowledged
  cases unacknowledged

theorem step_settled (sound : Sound state) (settled : Settled state)
    (moves : Moves codec state label after) : Settled after := by
  rcases moves_commit moves with ⟨inbox, business, commits⟩ | ⟨actor, session, _, guarded, rfl⟩
  · exact ⟨by rw [inbox, commits, settled.inbox], by rw [business, commits, settled.business],
      by rw [commits]; exact settled.once⟩
  · refine ⟨?_, ?_, ?_⟩
    · rw [inbox_sessionCommitted sound guarded, settled.inbox]
      cases receipt : session.receipt <;>
        simp [sessionCommitted, put, free, Commit.marker, receipt]
    · simp [sessionCommitted, put, free, settled.business]
    · exact Fence.pairwise_concat settled.once fun commit member final =>
        guarded_not_final sound guarded member final

variable {history : List (Event (Consumers J W) (Label J W))}

theorem run_sound (run : Run (Step codec) start history state) : Sound state :=
  run.invariant start_sound fun _ _ _ sound step => step_sound sound step

theorem run_settled (run : Run (Step codec) start history state) : Settled state := by
  induction run with
  | init => exact start_settled
  | next shorter step ih => exact step_settled (run_sound shorter) ih (step_moves step)

def finalCommits (id : Uuid) (state : Consumers J W) : List (Commit W) :=
  state.commits.filter fun commit =>
    commit.receipt.isSome && decide (commit.lease.messageId = id)

omit [DecidableEq J] in
theorem finalCommits_length (settled : Settled state) (id : Uuid) :
    (finalCommits id state).length ≤ 1 := by
  have ordered := settled.once.filter fun commit =>
    commit.receipt.isSome && decide (commit.lease.messageId = id)
  rw [finalCommits]
  generalize finals : (state.commits.filter fun commit =>
    commit.receipt.isSome && decide (commit.lease.messageId = id)) = found at ordered
  have every : ∀ commit ∈ found, commit.receipt.isSome = true ∧ commit.lease.messageId = id := by
    intro commit member
    rw [← finals] at member
    simpa using (List.mem_filter.mp member).2
  match found with
  | [] | [_] => simp
  | first :: second :: _ =>
      have later := (List.pairwise_cons.mp ordered).1 second List.mem_cons_self
      have one := every first List.mem_cons_self
      have two := every second (List.mem_cons_of_mem _ List.mem_cons_self)
      exact absurd (two.2.trans one.2.symm) (later one.1)

/-- What a guarded commit of a call does, all at once. -/
structure Effect (before after : Consumers J W) (pid : Nat) (session : Session J W)
    (writes : List W) : Prop where
  guarded : before.calls pid = .guarded session
  messageId : session.lease.messageId = session.message.id
  unacknowledged :
    before.tables.acknowledged session.message.topic session.message.id = false
  marker : ∀ fresh row, session.receipt = some (fresh, row) →
    fresh = true ∧ row.key = (session.message.topic, session.message.id)
  inbox : after.tables.inbox.rows =
    before.tables.inbox.rows ++ (session.receipt.map Prod.snd).toList
  business : after.business = before.business ++ writes
  commits : after.commits = before.commits ++ [⟨pid, session.lease, writes, session.receipt⟩]

theorem commit_effect (run : Run (Step codec) start history state)
    (step : Step codec state (.commit pid) after) :
    ∃ session, Effect state after pid session (uncommitted pid history) := by
  have sound := run_sound run
  have moves := step_moves step
  cases moves with
  | @committed _ session guarded =>
      have running : state.calls pid ≠ .ended := by
        rw [guarded]
        nofun
      have writes : session.writes = uncommitted pid history := by
        rw [← run_writes run pid running, guarded]
        rfl
      rw [← writes]
      exact ⟨session, {
        guarded := guarded
        messageId := (sound.attached_guarded guarded).messageId
        unacknowledged := guarded_unacknowledged sound guarded
        marker := fun _ _ => guarded_receipt sound guarded
        inbox := inbox_sessionCommitted sound guarded
        business := rfl
        commits := rfl }⟩

def Closed (pid : Nat) (commits : List (Commit W)) (state : Consumers J W) : Prop :=
  state.calls pid = .ended ∧ ∀ commit ∈ state.commits, commit.pid = pid → commit ∈ commits

theorem step_closed {commits : List (Commit W)} (closed : Closed pid commits state)
    (step : Step codec state label after) : Closed pid commits after := by
  obtain ⟨ended, within⟩ := closed
  have moves := step_moves step
  refine ⟨moves_ended moves ended, ?_⟩
  rcases moves_commit moves with ⟨_, _, same⟩ | ⟨actor, session, _, guarded, rfl⟩
  · rw [same]
    exact within
  · intro commit member own
    rcases List.mem_append.mp member with old | new
    · exact within commit old own
    · rw [List.mem_singleton.mp new] at own
      subst own
      rw [ended] at guarded
      cases guarded

theorem step_ends (sound : Sound state) (step : Step codec state label after)
    (running : state.calls pid ≠ .ended) (ended : after.calls pid = .ended) :
    (label = .commit pid ∧ ∃ session, state.calls pid = .guarded session ∧
        session.receipt.isSome = true) ∨
      (after.tables.inbox = state.tables.inbox ∧ after.business = state.business ∧
        after.commits = state.commits ∧
        ∀ commit ∈ state.commits, commit.pid = pid → commit.receipt = none) := by
  have moves := step_moves step
  rcases moves_commit moves with ⟨inbox, business, commits⟩ | ⟨actor, session, rfl, guarded, rfl⟩
  · refine Or.inr ⟨inbox, business, commits, fun commit member own => ?_⟩
    cases receipt : commit.receipt with
    | none => rfl
    | some pair =>
        have final := (sound.recorded commit member pair.1 pair.2 receipt).ended
        exact absurd (own ▸ final) running
  · by_cases own : actor = pid
    · subst own
      refine Or.inl ⟨rfl, session, guarded, ?_⟩
      cases receipt : session.receipt with
      | none => simp [sessionCommitted, receipt] at ended
      | some pair => rfl
    · rw [moves_calls moves fun same => own (Option.some.inj same)] at ended
      exact absurd ended running

/-- At most one call completes the consumption of a message; what is visible is what guarded
commits made visible, and a call that fails leaves nothing of what it had open. -/
theorem consumed_once (run : Run (Step codec) start history state) :
    (∀ id, (finalCommits id state).length ≤ 1) ∧
      (∀ commit ∈ state.commits, ∀ row, commit.receipt ≠ some (false, row)) ∧
      Settled state ∧
      (∀ earlier event later pid, history = earlier ++ event :: later →
        event.label = .commit pid →
        ∃ session, Effect event.before event.after pid session (uncommitted pid earlier)) ∧
      ∀ earlier event later pid, history = earlier ++ event :: later →
        event.before.calls pid ≠ .ended → event.after.calls pid = .ended →
        (event.label = .commit pid ∧ ∃ session, event.before.calls pid = .guarded session ∧
            session.receipt.isSome = true) ∨
          (event.after.tables.inbox = event.before.tables.inbox ∧
            event.after.business = event.before.business ∧
            ∀ commit ∈ state.commits, commit.pid = pid →
              commit ∈ event.before.commits ∧ commit.receipt = none) := by
  refine ⟨finalCommits_length (run_settled run), ?_, run_settled run, ?_, ?_⟩
  · intro commit member row receipt
    exact absurd ((run_sound run).recorded commit member _ _ receipt).fresh (by decide)
  · rintro earlier event later pid rfl commits
    obtain ⟨before, step⟩ := run.at_event
    exact commit_effect before (commits ▸ step)
  · rintro earlier event later pid rfl running ended
    obtain ⟨before, step⟩ := run.at_event
    rcases step_ends (run_sound before) step running ended with
      final | ⟨inbox, business, commits, intermediate⟩
    · exact Or.inl final
    · refine Or.inr ⟨inbox, business, fun commit member own => ?_⟩
      have closed : Closed pid event.after.commits state :=
        Run.stable (fun _ _ _ closed step => step_closed closed step) run
          ⟨ended, fun _ member _ => member⟩
      have earlier := closed.2 commit member own
      rw [commits] at earlier
      exact ⟨earlier, intermediate commit earlier own⟩

end Visibility

/-- Two calls find a message eligible; the second gets the lease after the first has committed. -/
def raced : List (Label Unit Nat) :=
  [.delivery (.enqueue 7 (sampleEvent none) 0),
    .select 0 sampleTasks 7 1000000,
    .select 1 sampleTasks 7 1000000,
    .upsert 0 11 1000000, .recheck 0, .commitClaim 0, .begin 0 1000000, .write 0 5,
    .mark 0 2000000, .guard 0 2000000, .commit 0,
    .release ⟨"test.counter.v1:counter:1", 7, 11, 1⟩,
    .upsert 1 12 3000000, .recheck 1, .commitClaim 1]

theorem consumed_once_raced :
    (finalCommits 7 (stateAfter sampleCodec raced)).map Commit.pid = [0] ∧
      (stateAfter sampleCodec raced).business = [5] ∧
      (finalCommits 7 (stateAfter sampleCodec raced)).length ≤ 1 :=
  ⟨by decide, by decide, (consumed_once (events_run sampleCodec raced (by decide))).1 7⟩

end Consumers

end TplBackend
