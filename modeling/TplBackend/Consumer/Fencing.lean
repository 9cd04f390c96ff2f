import TplBackend.Consumer.Session
import TplBackend.Library.Fence

namespace TplBackend

open Keyed Transition

variable {J W : Type}

/-- The lease that the execution row of a resource stands for, expired or not. -/
def Tables.occupant (s : Tables J) (resource : String) : Option ConsumerLease :=
  (s.executions.find? resource).map DurableTasks.leaseOf

namespace DurableTasks

theorem occupant_putExecution (row : Execution) (s : Tables J) (resource : String) :
    (putExecution row s).occupant resource =
      if row.resourceKey = resource then some (leaseOf row) else s.occupant resource := by
  rw [Tables.occupant, find?_putExecution]
  by_cases same : row.resourceKey = resource
  · rw [if_pos same, if_pos same, Option.map_some]
  · rw [if_neg same, if_neg same, Tables.occupant]

theorem occupant_congr {s s' : Tables J} (same : s'.executions = s.executions) :
    s'.occupant = s.occupant := by
  funext resource
  simp only [Tables.occupant, same]

theorem occupant_update (s : Tables J) (p : Execution → Bool) (f : Execution → Execution)
    (keeps : ∀ l, (f l).resourceKey = l.resourceKey) (lease : ∀ l, leaseOf (f l) = leaseOf l) :
    ({ s with executions := s.executions.update p f keeps } : Tables J).occupant = s.occupant := by
  funext resource
  simp only [Tables.occupant, Table.find?_update]
  cases s.executions.find? resource with
  | none => rfl
  | some l => by_cases chosen : p l <;> simp [chosen, lease]

theorem occupant_renew {D : DurableTasks} {lease : ConsumerLease} {now : Clock} {s s' : Tables J}
    (result : D.renew lease now s = .ok s') : s'.occupant = s.occupant := by
  obtain ⟨_, rfl⟩ := renew_ok result
  exact occupant_update s _ _ _ fun _ => rfl

theorem occupant_release (lease : ConsumerLease) (s : Tables J) :
    (release lease s).occupant = s.occupant :=
  occupant_update s _ _ _ fun _ => rfl

theorem occupant_of_owned {s : Tables J} {l : Execution} {lease : ConsumerLease}
    (member : l ∈ s.executions) (own : owned l lease = true) :
    s.occupant lease.resourceKey = some lease := by
  have same : leaseOf l = lease := of_decide_eq_true own
  subst same
  rw [Tables.occupant, leaseOf, Table.find?_of_mem member]
  rfl

theorem occupant_of_checkLease {s : Tables J} {lease : ConsumerLease} {now : Clock}
    (current : checkLease s lease now = true) : s.occupant lease.resourceKey = some lease := by
  obtain ⟨l, member, passed⟩ := List.any_eq_true.mp current
  exact occupant_of_owned member (Bool.and_eq_true_iff.mp passed).1

theorem release_of_replaced {lease : ConsumerLease} {s : Tables J}
    (replaced : s.occupant lease.resourceKey ≠ some lease) : release lease s = s := by
  have idle : s.executions.update (fun l => owned l lease) vacated vacated_resourceKey =
      s.executions :=
    Table.update_eq_self fun l member own => absurd (occupant_of_owned member own) replaced
  rw [release, idle]

end DurableTasks

namespace Consumers

open DurableTasks

def Fits (state : Consumers J W) (pid : Nat) : Call J W → Prop
  | .upserted message taken | .rechecked message taken _ =>
      state.lock taken.resourceKey = some pid ∧ taken.resourceKey = message.resource ∧
        taken.messageId = message.id ∧
        taken.epoch = (state.tables.occupant taken.resourceKey).elim 0 ConsumerLease.epoch + 1
  | .guarded session =>
      state.lock session.lease.resourceKey = some pid ∧
        state.tables.occupant session.lease.resourceKey = some session.lease
  | _ => True

def Fenced (state : Consumers J W) : Prop := ∀ pid, Fits state pid (state.calls pid)

variable {codec : Codec J} {state after : Consumers J W} {label : Label J W} {pid : Nat}

theorem Fenced.fits (fenced : Fenced state) {call : Call J W} (reached : state.calls pid = call) :
    Fits state pid call := by
  rw [← reached]
  exact fenced pid

theorem Fits.lock_eq {call : Call J W} {resource : String} (fits : Fits state pid call)
    (holds : call.holds = some resource) : state.lock resource = some pid := by
  cases call with
  | upserted message taken =>
      cases holds
      exact fits.1
  | rechecked message taken done =>
      cases holds
      exact fits.1
  | guarded session =>
      cases holds
      exact fits.1
  | idle | selected | claimed | executing | ended => cases holds

theorem Fits.frame {call : Call J W} (fits : Fits state pid call)
    (kept : ∀ resource, state.lock resource = some pid → after.lock resource = some pid ∧
      after.tables.occupant resource = state.tables.occupant resource) :
    Fits after pid call := by
  cases call with
  | upserted message taken | rechecked message taken done =>
      obtain ⟨locked, facts⟩ := fits
      obtain ⟨still, same⟩ := kept _ locked
      rw [← same] at facts
      exact ⟨still, facts⟩
  | guarded session =>
      obtain ⟨locked, current⟩ := fits
      obtain ⟨still, same⟩ := kept _ locked
      exact ⟨still, same.trans current⟩
  | idle | selected | claimed | executing | ended => trivial

theorem start_fenced : Fenced (start : Consumers J W) := fun _ => trivial

def grantedEpochs (resource : String) (state : Consumers J W) : List Nat :=
  (state.granted.filter fun lease => lease.resourceKey = resource).map ConsumerLease.epoch

def committedEpochs (resource : String) (state : Consumers J W) : List Nat :=
  (state.commits.filter fun commit => commit.lease.resourceKey = resource).map
    fun commit => commit.lease.epoch

def register (resource : String) (state : Consumers J W) : Fence.Register Nat where
  top := (state.tables.occupant resource).elim ⊥ fun lease => WithBot.some lease.epoch
  issued := grantedEpochs resource state
  used := committedEpochs resource state

theorem top_of_occupant {lease : ConsumerLease} {resource : String}
    (present : state.tables.occupant resource = some lease) :
    (register resource state).top = WithBot.some lease.epoch := by
  simp [register, present]

theorem top_lt_taken {message : OutboxMessage J} {taken : Execution} {done : Bool}
    (fits : Fits state pid (.rechecked message taken done)) :
    (register taken.resourceKey state).top < WithBot.some taken.epoch := by
  obtain ⟨_, _, _, epoch⟩ := fits
  rw [epoch, register]
  cases state.tables.occupant taken.resourceKey with
  | none => exact WithBot.bot_lt_coe _
  | some lease => exact WithBot.coe_lt_coe.mpr (Nat.lt_succ_self _)

theorem register_congr {resource : String}
    (occupant : after.tables.occupant resource = state.tables.occupant resource)
    (granted : after.granted = state.granted) (commits : after.commits = state.commits) :
    register resource after = register resource state := by
  simp only [register, grantedEpochs, committedEpochs, occupant, granted, commits]

theorem occupant_claimCommitted (message : OutboxMessage J) (taken : Execution) (done : Bool)
    (resource : String) : (state.claimCommitted pid message taken done).tables.occupant resource =
      if taken.resourceKey = resource then some (leaseOf taken)
      else state.tables.occupant resource := by
  cases done <;> simp [claimCommitted, put, free, occupant_putExecution, leaseOf, vacated]

theorem register_refused (message : OutboxMessage J) (taken : Execution) :
    register taken.resourceKey (state.claimCommitted pid message taken true) =
      ⟨WithBot.some taken.epoch, (register taken.resourceKey state).issued,
        (register taken.resourceKey state).used⟩ := by
  simp only [register, occupant_claimCommitted]
  simp [grantedEpochs, committedEpochs, claimCommitted, put, free, leaseOf]

theorem register_granted (message : OutboxMessage J) (taken : Execution) :
    register taken.resourceKey (state.claimCommitted pid message taken false) =
      ⟨WithBot.some taken.epoch, (register taken.resourceKey state).issued ++ [taken.epoch],
        (register taken.resourceKey state).used⟩ := by
  simp only [register, occupant_claimCommitted]
  simp [grantedEpochs, committedEpochs, claimCommitted, put, free, leaseOf]

theorem register_elsewhere {message : OutboxMessage J} {taken : Execution} {done : Bool}
    {resource : String} (elsewhere : taken.resourceKey ≠ resource) :
    register resource (state.claimCommitted pid message taken done) = register resource state := by
  simp only [register, occupant_claimCommitted]
  cases done <;>
    simp [grantedEpochs, committedEpochs, claimCommitted, put, free, leaseOf, elsewhere]

theorem occupant_sessionCommitted (session : Session J W) :
    (state.sessionCommitted pid session).tables.occupant = state.tables.occupant := by
  refine occupant_congr ?_
  simp only [sessionCommitted, put, free, marked]
  split <;> rfl

theorem register_sessionCommitted (session : Session J W) :
    register session.lease.resourceKey (state.sessionCommitted pid session) =
      ⟨(register session.lease.resourceKey state).top,
        (register session.lease.resourceKey state).issued,
        (register session.lease.resourceKey state).used ++ [session.lease.epoch]⟩ := by
  simp only [register, occupant_sessionCommitted]
  simp [grantedEpochs, committedEpochs, sessionCommitted, put, free]

theorem register_sessionElsewhere {session : Session J W} {resource : String}
    (elsewhere : session.lease.resourceKey ≠ resource) :
    register resource (state.sessionCommitted pid session) = register resource state := by
  simp only [register, occupant_sessionCommitted]
  simp [grantedEpochs, committedEpochs, sessionCommitted, put, free, elsewhere]

variable [DecidableEq J]

theorem moves_calls (moves : Moves codec state label after) (other : label.actor ≠ some pid) :
    after.calls pid = state.calls pid := by
  have different {actor : Nat} (acts : some actor ≠ some pid) : pid ≠ actor :=
    fun same => acts (congrArg some same.symm)
  cases moves with
  | unguarded | kept | renewed | released | delivered => rfl
  | _ => exact put_calls_ne _ _ (different other)

theorem moves_occupant (moves : Moves codec state label after) (resource : String) :
    after.tables.occupant resource = state.tables.occupant resource ∨
      ∃ actor message taken done, label = .commitClaim actor ∧
        state.calls actor = .rechecked message taken done ∧
        after = state.claimCommitted actor message taken done ∧ taken.resourceKey = resource := by
  cases moves with
  | @refused actor message taken rechecked | @granted actor message taken rechecked =>
      by_cases same : taken.resourceKey = resource
      · exact Or.inr ⟨_, _, _, _, rfl, rechecked, rfl, same⟩
      · refine Or.inl ?_
        rw [occupant_claimCommitted, if_neg same]
  | renewed _ _ result => exact Or.inl (congrFun (occupant_renew result) resource)
  | released => exact Or.inl (congrFun (occupant_release _ _) resource)
  | @delivered op outside _ =>
      exact Or.inl (congrFun (occupant_congr ((perform_frame codec op _).executions outside)) _)
  | committed => exact Or.inl (congrFun (occupant_sessionCommitted _) resource)
  | _ => exact Or.inl rfl

theorem moves_lock (fenced : Fenced state) (moves : Moves codec state label after)
    (other : label.actor ≠ some pid) {resource : String} (locked : state.lock resource = some pid) :
    after.lock resource = some pid := by
  have apart {actor : Nat} (acts : some actor ≠ some pid) :
      (state.calls actor).holds ≠ some resource := by
    intro holds
    exact acts (((fenced actor).lock_eq holds).symm.trans locked)
  cases moves with
  | @upserted actor _ _ _ message _ _ unlocked _ =>
      have different : resource ≠ message.resource := by
        rintro rfl
        rw [unlocked] at locked
        cases locked
      simpa [put, hold, different] using locked
  | @guarded actor _ session _ unlocked _ =>
      have different : resource ≠ session.lease.resourceKey := by
        rintro rfl
        rw [unlocked] at locked
        cases locked
      simpa [put, hold, different] using locked
  | @refused actor message taken rechecked | @granted actor message taken rechecked =>
      have different : resource ≠ taken.resourceKey := by
        rintro rfl
        exact apart other (by rw [rechecked]; rfl)
      simpa [claimCommitted, put, free, different] using locked
  | @committed actor session guarded =>
      have different : resource ≠ session.lease.resourceKey := by
        rintro rfl
        exact apart other (by rw [guarded]; rfl)
      simpa [sessionCommitted, put, free, different] using locked
  | @aborted actor =>
      simpa [aborted, apart other] using locked
  | _ => exact locked

theorem moves_fits (fenced : Fenced state) (moves : Moves codec state label after)
    (acts : label.actor = some pid) : Fits after pid (after.calls pid) := by
  have before := fenced pid
  cases moves with
  | @upserted actor owner now D message taken _ unlocked upserted =>
      cases acts
      obtain ⟨rfl, _⟩ := takeover_spec upserted
      rw [put_calls_self]
      refine ⟨by simp [put, hold], rfl, rfl, ?_⟩
      change _ = ((state.tables.executions.find? message.resource).map leaseOf).elim 0 _ + 1
      cases state.tables.executions.find? message.resource <;> rfl
  | @rechecked actor message taken upserted =>
      cases acts
      rw [upserted] at before
      rw [put_calls_self]
      exact before
  | @guarded actor now session executing unlocked current =>
      cases acts
      rw [put_calls_self]
      exact ⟨by simp [put, hold], occupant_of_checkLease current⟩
  | @committed actor session guarded =>
      cases acts
      simp only [sessionCommitted, put_calls_self]
      split <;> trivial
  | unguarded =>
      cases acts
      exact before
  | aborted =>
      cases acts
      simp [aborted, put, Fits]
  | kept | renewed | released | delivered => cases acts
  | _ =>
      cases acts
      simp only [claimCommitted, put_calls_self, if_true, Bool.false_eq_true, if_false]
      trivial

theorem step_fenced (fenced : Fenced state) (step : Step codec state label after) :
    Fenced after := by
  have moves := step_moves step
  intro pid
  by_cases acts : label.actor = some pid
  · exact moves_fits fenced moves acts
  · rw [moves_calls moves acts]
    refine (fenced pid).frame fun resource locked => ⟨moves_lock fenced moves acts locked, ?_⟩
    rcases moves_occupant moves resource with same | ⟨actor, message, taken, done, rfl, held, _, rfl⟩
    · exact same
    · have holds : (state.calls actor).holds = some taken.resourceKey := by
        rw [held]
        rfl
      exact absurd (((fenced actor).lock_eq holds).symm.trans locked) acts

theorem register_step (resource : String) (fenced : Fenced state)
    (step : Step codec state label after) :
    register resource after = register resource state ∨
      ∃ move, Fence.Step (register resource state) move (register resource after) := by
  have moves := step_moves step
  cases moves with
  | @refused actor message taken rechecked =>
      by_cases here : taken.resourceKey = resource
      · subst here
        refine Or.inr ⟨.burn taken.epoch, ?_⟩
        rw [register_refused]
        exact .burn (top_lt_taken (fenced.fits rechecked))
      · exact Or.inl (register_elsewhere here)
  | @granted actor message taken rechecked =>
      by_cases here : taken.resourceKey = resource
      · subst here
        refine Or.inr ⟨.issue taken.epoch, ?_⟩
        rw [register_granted]
        exact .issue (top_lt_taken (fenced.fits rechecked))
      · exact Or.inl (register_elsewhere here)
  | @committed actor session guarded =>
      by_cases here : session.lease.resourceKey = resource
      · subst here
        refine Or.inr ⟨.use session.lease.epoch, ?_⟩
        rw [register_sessionCommitted]
        exact .use (top_of_occupant (fenced.fits guarded).2)
      · exact Or.inl (register_sessionElsewhere here)
  | renewed _ _ result =>
      exact Or.inl (register_congr (congrFun (occupant_renew result) resource) rfl rfl)
  | released => exact Or.inl (register_congr (congrFun (occupant_release _ _) resource) rfl rfl)
  | @delivered op outside _ =>
      have same := occupant_congr ((perform_frame codec op state.tables).executions outside)
      exact Or.inl (register_congr (congrFun same resource) rfl rfl)
  | _ => exact Or.inl rfl

def fencing (codec : Codec J) (resource : String) :
    Simulation (Step codec (W := W)) (Fence.Step (τ := Nat)) start where
  view := register resource
  good := Fenced
  good_start := start_fenced
  good_step _ _ _ := step_fenced
  matches_step _ _ _ := register_step resource

section Runs

variable {history : List (Event (Consumers J W) (Label J W))}

theorem run_register (run : Run (Step codec) start history state) (resource : String) :
    Fence.Valid (register resource state) := by
  obtain ⟨_, moves, abstract⟩ := (fencing codec resource).run run
  exact Fence.run_valid abstract

def Supersedes (state : Consumers J W) (later lease : ConsumerLease) : Prop :=
  [lease, later].Sublist state.granted ∧ later.resourceKey = lease.resourceKey

theorem epoch_lt_of_supersedes (run : Run (Step codec) start history state)
    {lease later : ConsumerLease} (supersedes : Supersedes state later lease) :
    lease.epoch < later.epoch := by
  obtain ⟨ordered, same⟩ := supersedes
  have epochs : [lease.epoch, later.epoch].Sublist (grantedEpochs lease.resourceKey state) := by
    have kept := ordered.filter fun other => other.resourceKey = lease.resourceKey
    simpa [grantedEpochs, same] using kept.map ConsumerLease.epoch
  simpa using (run_register run lease.resourceKey).issued_increasing.sublist epochs

theorem replaced_of_supersedes (run : Run (Step codec) start history state)
    {lease later : ConsumerLease} (supersedes : Supersedes state later lease) :
    state.tables.occupant lease.resourceKey ≠ some lease := by
  intro occupies
  have above := epoch_lt_of_supersedes run supersedes
  obtain ⟨ordered, same⟩ := supersedes
  have issued : later.epoch ∈ grantedEpochs lease.resourceKey state :=
    List.mem_map_of_mem (List.mem_filter.mpr ⟨ordered.subset (by simp), by simp [same]⟩)
  have bound := (run_register run lease.resourceKey).issued_le later.epoch issued
  rw [top_of_occupant occupies] at bound
  exact absurd (WithBot.coe_le_coe.mp bound) (Nat.not_le_of_lt above)

theorem step_superseded (run : Run (Step codec) start history state)
    (step : Step codec state label after) {lease later : ConsumerLease}
    (supersedes : Supersedes state later lease)
    (cleansUp : (∃ D now, label = .renew D lease now) ∨ label = .release lease) :
    after.tables = state.tables := by
  have replaced := replaced_of_supersedes run supersedes
  have moves := step_moves step
  rcases cleansUp with ⟨D, now, rfl⟩ | rfl
  · cases moves with
    | kept => rfl
    | renewed _ _ result => exact absurd (occupant_of_checkLease (renew_ok result).1) replaced
  · cases moves with
    | released => exact release_of_replaced replaced

/-- Epochs on a resource only go up, one lease at most is current, and what an owner does after
it was superseded changes nothing. -/
theorem consumer_fencing (run : Run (Step codec) start history state) :
    (∀ resource, (grantedEpochs resource state).Pairwise (· < ·)) ∧
      (∀ lease later, Supersedes state later lease → ∀ now now',
        ¬ (checkLease state.tables lease now = true ∧
          checkLease state.tables later now' = true)) ∧
      (∀ resource, (committedEpochs resource state).Pairwise (· ≤ ·)) ∧
      ∀ event ∈ history, ∀ lease later, Supersedes event.before later lease →
        (∃ D now, event.label = .renew D lease now) ∨ event.label = .release lease →
          event.after.tables = event.before.tables := by
  refine ⟨fun resource => (run_register run resource).issued_increasing, ?_,
    fun resource => (run_register run resource).used_monotone, ?_⟩
  · rintro lease later supersedes now now' ⟨current, _⟩
    exact replaced_of_supersedes run supersedes (occupant_of_checkLease current)
  · intro event occurred lease later supersedes cleansUp
    obtain ⟨_, _, _, before, step⟩ := run.of_mem occurred
    exact step_superseded before step supersedes cleansUp

end Runs

/-- An owner whose lease runs out, the owner that takes over, and the first one's late cleanup. -/
def takenOver : List (Label Unit Nat) :=
  [.delivery (.enqueue 7 (sampleEvent none) 0),
    .select 0 sampleTasks 7 1000000, .upsert 0 11 1000000, .recheck 0,
    .commitClaim 0, .begin 0 1000000, .write 0 5, .guard 0 2000000, .commit 0,
    .select 1 sampleTasks 7 61000000, .upsert 1 12 61000000, .recheck 1,
    .commitClaim 1, .begin 1 62000000, .guard 1 62000000, .commit 1,
    .release ⟨"test.counter.v1:counter:1", 7, 11, 1⟩]

theorem consumer_fencing_takenOver :
    grantedEpochs "test.counter.v1:counter:1" (stateAfter sampleCodec takenOver) = [1, 2] ∧
      (grantedEpochs "test.counter.v1:counter:1" (stateAfter sampleCodec takenOver)).Pairwise
        (· < ·) :=
  ⟨by decide, (consumer_fencing (events_run sampleCodec takenOver (by decide))).1 _⟩

end Consumers

end TplBackend
