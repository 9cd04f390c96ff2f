import TplBackend.Delivery.Publishers

namespace TplBackend

open Keyed Transition SqlOutboxRepository DurableDelivery

variable {J : Type}

structure Grant where
  id : Uuid
  owner : String
  deriving DecidableEq

def Op.grants : Op J → Reply J → List Grant
  | .claimBatch owner .., .batch messages => messages.map fun m => ⟨m.id, owner⟩
  | .claimDelivery _ owner .., .claimed (some m) => [⟨m.id, owner⟩]
  | _, _ => []

def Op.completion : Op J → Option (Uuid × String × Clock)
  | .markPublished id owner _ clock => some (id, owner, clock)
  | .markFailed id owner error retrySeconds _ clock =>
    if error.isEmpty ∨ 256 < error.length ∨ ¬ (1 ≤ retrySeconds ∧ retrySeconds ≤ 86400) then none
    else some (id, owner, clock)
  | _ => none

def Op.completes : Op J → Option Grant
  | .markPublished id owner .. | .markFailed id owner .. => some ⟨id, owner⟩
  | _ => none

/-- An operation; a completion may be issued for a claim, given by its number. -/
structure Issued (J : Type) where
  op : Op J
  claim : Option Nat

/-- Callers around the tables; `grants` are the claims made, oldest first. -/
structure Callers (J : Type) where
  tables : Tables J
  grants : List Grant

namespace Callers

def start : Callers J := ⟨Tables.empty, []⟩

def Admits (before : Callers J) (issued : Issued J) : Prop :=
  ∀ n ∈ issued.claim, ∀ named ∈ issued.op.completes, before.grants[n]? = some named

def next [DecidableEq J] (codec : Codec J) (before : Callers J) (issued : Issued J) : Callers J :=
  ⟨(perform codec issued.op before.tables).2,
    before.grants ++ issued.op.grants (perform codec issued.op before.tables).1⟩

def Step [DecidableEq J] (codec : Codec J) (before : Callers J) (issued : Issued J)
    (after : Callers J) : Prop :=
  before.Admits issued ∧ after = before.next codec issued

def holder (state : Callers J) (id : Uuid) : Option String :=
  (state.grants.reverse.find? fun grant => grant.id = id).map Grant.owner

def Leased (s : Tables J) (id : Uuid) (clock : Clock) : Prop :=
  ∃ m, s.outbox.find? id = some m ∧ m.status = .delivering ∧
    ∃ expiry, m.leaseExpiresAt = some expiry ∧ (clock : Timestamp) < expiry

/-- The event is a completion for a claim of a message that was claimed again since. -/
def Late (event : Event (Callers J) (Issued J)) : Prop :=
  ∃ front named back, event.before.grants = front ++ named :: back ∧
    event.label.claim = some front.length ∧ event.label.op.completes = some named ∧
    ∃ again ∈ back, again.id = named.id

def Completes [DecidableEq J] (codec : Codec J) (event : Event (Callers J) (Issued J)) : Prop :=
  event.label.op.completes ≠ none ∧ (perform codec event.label.op event.before.tables).1 = .done

/-- The owner of a completion is the one that claimed the message last, and that lease is running. -/
def Reused (event : Event (Callers J) (Issued J)) : Prop :=
  ∃ id owner clock, event.label.op.completion = some (id, owner, clock) ∧
    event.before.holder id = some owner ∧ Leased event.before.tables id clock

variable [DecidableEq J] {codec : Codec J} {before after state : Callers J} {issued : Issued J}
variable {s : Tables J} {op : Op J} {history : List (Event (Callers J) (Issued J))}

def Held (state : Callers J) : Prop :=
  ∀ m ∈ state.tables.outbox, m.status = .delivering → m.leaseOwner = state.holder m.id

theorem perform_grants {m' : OutboxMessage J} (member : m' ∈ (perform codec op s).2.outbox)
    (delivering : m'.status = .delivering) :
    (∃ grant ∈ op.grants (perform codec op s).1, grant.id = m'.id) ∧
        (∀ grant ∈ op.grants (perform codec op s).1, m'.leaseOwner = some grant.owner) ∨
      (∀ grant ∈ op.grants (perform codec op s).1, grant.id ≠ m'.id) ∧ m' ∈ s.outbox := by
  have kept (none_ : op.grants (perform codec op s).1 = [])
      (unclaimed : ∀ m ∈ s.outbox, Rewrite codec s op m m' → m' = m) :
      (∀ grant ∈ op.grants (perform codec op s).1, grant.id ≠ m'.id) ∧ m' ∈ s.outbox := by
    refine ⟨fun grant granted => ?_, ?_⟩
    · rw [none_] at granted
      cases granted
    · rcases perform_origin member with ⟨m, present, _, rewrite⟩ | ⟨_, _, _, _, _, _, new⟩
      · exact unclaimed m present rewrite ▸ present
      · rw [new] at delivering
        cases delivering
  cases op with
  | claimBatch owner limit leaseSeconds locked now clock =>
      cases result : claimBatch codec owner limit leaseSeconds locked now clock s with
      | error raised =>
          have performed : perform codec (.claimBatch owner limit leaseSeconds locked now clock) s =
              (.raised raised, s) := by simp [perform, settle, result]
          rw [performed] at member ⊢
          exact Or.inr ⟨fun _ granted => (by cases granted), member⟩
      | ok value =>
          obtain ⟨messages, s'⟩ := value
          have performed : perform codec (.claimBatch owner limit leaseSeconds locked now clock) s =
              (.batch messages, s') := by simp [perform, settle, result]
          obtain ⟨rfl, rfl⟩ := claimBatch_ok result
          rw [performed] at member ⊢
          simp only at member
          obtain ⟨m, present, rfl⟩ := Table.mem_update.mp member
          simp only [Op.grants, List.map_map, List.mem_map, forall_exists_index, and_imp,
            forall_apply_eq_imp_iff₂, Function.comp]
          split
          · rename_i chosen
            obtain ⟨row, member, keyed⟩ := of_decide_eq_true chosen
            exact Or.inl ⟨⟨_, ⟨row, member, rfl⟩, keyed⟩, fun _ _ => rfl⟩
          · rename_i other
            exact Or.inr ⟨fun row member keyed => other (decide_eq_true ⟨row, member, keyed⟩), present⟩
  | claimDelivery P owner locked now =>
      cases chosen : P.nextCandidate codec locked now s with
      | none =>
          have performed : perform codec (.claimDelivery P owner locked now) s = (.claimed none, s) := by
            simp [perform, claimDelivery, chosen]
          rw [performed] at member ⊢
          exact Or.inr ⟨fun _ granted => (by cases granted), member⟩
      | some m =>
          rw [Publishers.perform_claimDelivery owner chosen] at member ⊢
          simp only at member
          obtain ⟨row, present, rfl⟩ := Table.mem_update.mp member
          simp only [Op.grants, List.mem_singleton, forall_eq, exists_eq_left]
          split
          · rename_i same
            exact Or.inl ⟨(of_decide_eq_true same).symm, rfl⟩
          · rename_i other
            exact Or.inr ⟨fun keyed => other (decide_eq_true keyed.symm), present⟩
  | finishDelivery P message error now =>
      refine Or.inr (kept rfl fun m present rewrite => ?_)
      cases rewrite with
      | same => rfl
      | finished =>
          simp only [finished] at delivering
          split at delivering <;> cases delivering
  | _ =>
      refine Or.inr (kept rfl fun m present rewrite => ?_)
      cases rewrite <;> first | rfl | cases delivering

theorem step_held (held : Held before) (step : Step codec before issued after) : Held after := by
  obtain ⟨_, rfl⟩ := step
  intro m' member delivering
  rw [holder, next, List.reverse_append, List.find?_append]
  rcases perform_grants member delivering with ⟨⟨grant, granted, keyed⟩, owned⟩ | ⟨others, present⟩
  · cases found : (issued.op.grants (perform codec issued.op before.tables).1).reverse.find? fun grant =>
        grant.id = m'.id with
    | none =>
        have missed := List.find?_eq_none.mp found grant (List.mem_reverse.mpr granted)
        exact absurd keyed (by simpa using missed)
    | some last => exact owned last (List.mem_reverse.mp (List.mem_of_find?_eq_some found))
  · have none_ : (issued.op.grants (perform codec issued.op before.tables).1).reverse.find?
        (fun grant => grant.id = m'.id) = none :=
      List.find?_eq_none.mpr fun grant member => by simpa using others grant (List.mem_reverse.mp member)
    rw [none_]
    exact held m' present delivering

theorem run_held (run : Run (Step codec) start history state) : Held state :=
  run.invariant (fun m member => absurd member (Table.not_mem_empty m)) fun _ _ _ held step =>
    step_held held step

omit [DecidableEq J] in
theorem heldBy_iff_leased (held : Held state) (id : Uuid) (owner : String) (clock : Clock) :
    (state.tables.outbox.rows.any fun m => m.heldBy id (some owner) clock) = true ↔
      state.holder id = some owner ∧ Leased state.tables id clock := by
  rw [List.any_eq_true]
  constructor
  · rintro ⟨m, member, owned⟩
    obtain ⟨rfl, delivering, ⟨_, ⟨⟩, leased⟩, running⟩ := (m.heldBy_iff _ _ _).mp owned
    exact ⟨(held m member delivering).symm.trans leased, m, Table.find?_of_mem member, delivering, running⟩
  · rintro ⟨last, m, found, delivering, running⟩
    obtain ⟨member, rfl⟩ := Table.find?_eq_some.mp found
    exact ⟨m, member, (m.heldBy_iff _ _ _).mpr
      ⟨rfl, delivering, ⟨owner, rfl, (held m member delivering).trans last⟩, running⟩⟩

theorem markPublished_done (id : Uuid) (owner : String) (now clock : Clock) :
    (perform codec (.markPublished id owner now clock) s).1 = .done ↔
      (s.outbox.rows.any fun m => m.heldBy id (some owner) clock) = true := by
  by_cases owned : (s.outbox.rows.any fun m => m.heldBy id (some owner) clock) = true <;>
    simp [perform, settle, markPublished, complete, owned]

theorem markFailed_done (id : Uuid) (owner error : String) (retrySeconds : Int) (now clock : Clock) :
    (perform codec (.markFailed id owner error retrySeconds now clock) s).1 = .done ↔
      (Op.completion (.markFailed id owner error retrySeconds now clock : Op J)).isSome ∧
      (s.outbox.rows.any fun m => m.heldBy id (some owner) clock) = true := by
  by_cases refused : error.isEmpty ∨ 256 < error.length ∨ ¬ (1 ≤ retrySeconds ∧ retrySeconds ≤ 86400)
  · simp only [perform, settle, markFailed, Op.completion, if_pos refused]
    simp
  · simp only [perform, settle, markFailed, Op.completion, if_neg refused]
    by_cases owned : (s.outbox.rows.any fun m => m.heldBy id (some owner) clock) = true <;>
      simp [complete, owned]

omit [DecidableEq J] in
theorem completes_of_completion {id : Uuid} {owner : String} {clock : Clock}
    (compared : op.completion = some (id, owner, clock)) : op.completes = some ⟨id, owner⟩ := by
  cases op with
  | markPublished =>
      cases compared
      rfl
  | markFailed =>
      simp only [Op.completion, Option.ite_none_left_eq_some] at compared
      cases compared.2
      rfl
  | _ => cases compared

theorem completes_iff {event : Event (Callers J) (Issued J)} (held : Held event.before) :
    Completes codec event ↔ Reused event := by
  obtain ⟨before, ⟨op, claim⟩, after⟩ := event
  simp only [Completes, Reused]
  cases op with
  | markPublished id owner now clock =>
      rw [markPublished_done, heldBy_iff_leased held]
      simp [Op.completes, Op.completion]
  | markFailed id owner error retrySeconds now clock =>
      rw [markFailed_done, heldBy_iff_leased held]
      simp [Op.completes, Op.completion]
  | _ => simp [Op.completes, Op.completion]

omit [DecidableEq J] in
theorem holder_ne {front back : List Grant} {named again : Grant}
    (differ : (front ++ named :: back).Nodup) (member : again ∈ back) (same : again.id = named.id)
    (s : Tables J) : (⟨s, front ++ named :: back⟩ : Callers J).holder named.id ≠ some named.owner := by
  intro last
  obtain ⟨grant, found, owned⟩ := Option.map_eq_some_iff.mp last
  have inner : grant ∈ back := by
    rw [List.reverse_append, List.reverse_cons, List.append_assoc, List.find?_append,
      Option.or_of_isSome] at found
    · exact List.mem_reverse.mp (List.mem_of_find?_eq_some found)
    · exact List.find?_isSome.mpr ⟨again, List.mem_reverse.mpr member, by simpa using same⟩
  have equal : grant = named := by
    have keyed : grant.id = named.id := by simpa using List.find?_some found
    cases grant
    cases named
    cases keyed
    cases owned
    rfl
  exact (List.nodup_cons.mp (List.nodup_append.mp differ).2.1).1 (equal ▸ inner)

theorem step_grants {front : List Grant} (kept : front <+: before.grants)
    (step : Step codec before issued after) : front <+: after.grants := by
  rw [step.2]
  exact kept.trans (List.prefix_append _ _)

/-- A completion for a claim of a message that was claimed again fails exactly where the owner of the
last claim is another one or that lease does not run; so it fails in every run that never claims a
message twice for one owner. -/
theorem completion_of_claim_iff (run : Run (Step codec) start history state) :
    (∀ event ∈ history, Late event → (¬ Completes codec event ↔ ¬ Reused event)) ∧
    (state.grants.Nodup → ∀ event ∈ history, Late event → ¬ Completes codec event) := by
  refine ⟨fun event member _ => ?_, fun differ event member late completed => ?_⟩
  · obtain ⟨_, _, _, before, _⟩ := run.of_mem member
    exact not_congr (completes_iff (run_held before))
  · obtain ⟨_, _, rfl, before, step⟩ := run.of_mem member
    obtain ⟨id, owner, clock, compared, last, _⟩ := (completes_iff (run_held before)).mp completed
    obtain ⟨front, named, back, grants, _, completes, again, member, same⟩ := late
    have grown : event.before.grants <+: state.grants :=
      Run.carried (fun reached => event.before.grants <+: reached.grants) run
        (fun _ _ kept taken => step_grants kept taken) (step_grants (List.prefix_refl _) step)
    cases Option.some.inj (completes.symm.trans (completes_of_completion compared))
    rw [grants] at grown
    refine holder_ne (differ.sublist grown.sublist) member same event.before.tables ?_
    rw [← grants]
    exact last

/-- A worker whose lease runs out before it completes; the message is claimed again for `second`. -/
def reclaimed (second : String) : List (Issued Unit) :=
  [⟨.enqueue 7 (sampleEvent none) 0, none⟩,
    ⟨.claimBatch "worker" 1 60 (fun _ => false) 1000000 1000000, none⟩,
    ⟨.claimBatch second 1 60 (fun _ => false) 62000000 62000000, none⟩,
    ⟨.markPublished 7 "worker" 63000000 63000000, some 0⟩]

theorem reclaimed_run {second : String} (known : second = "worker" ∨ second = "other") :
    Run (Step sampleCodec) start (trace (next sampleCodec) start (reclaimed second))
      ((reclaimed second).foldl (next sampleCodec) start) := by
  refine Run.of_trace fun event member => ⟨?_, rfl⟩
  simp only [reclaimed, trace, List.mem_cons, List.not_mem_nil, or_false] at member
  rcases member with rfl | rfl | rfl | rfl
  · exact fun _ none_ => by cases none_
  · exact fun _ none_ => by cases none_
  · exact fun _ none_ => by cases none_
  · rintro _ ⟨⟩ _ ⟨⟩
    rcases known with rfl | rfl <;> decide

theorem completion_of_claim_renamed :
    ((reclaimed "other").foldl (next sampleCodec) start).grants = [⟨7, "worker"⟩, ⟨7, "other"⟩] ∧
      ∀ event ∈ trace (next sampleCodec) start (reclaimed "other"), Late event →
        ¬ Completes sampleCodec event :=
  ⟨by decide, (completion_of_claim_iff (reclaimed_run (Or.inr rfl))).2 (by decide)⟩

/-- The worker claims the message again itself, and the completion for its first claim publishes it. -/
theorem completion_of_earlier_claim : ¬ ∀ history (state : Callers Unit),
    Run (Step sampleCodec) start history state →
      ∀ event ∈ history, Late event → ¬ Completes sampleCodec event := by
  intro fenced
  refine fenced _ _ (reclaimed_run (Or.inl rfl)) _ (List.mem_of_mem_getLast? rfl) ?_ ?_
  · exact ⟨[], ⟨7, "worker"⟩, [⟨7, "worker"⟩], by decide, rfl, rfl, ⟨7, "worker"⟩, by decide, rfl⟩
  · exact ⟨by decide, (markPublished_done 7 "worker" 63000000 63000000).mpr (by decide)⟩

end Callers

end TplBackend
