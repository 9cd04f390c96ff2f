import TplBackend.Messaging.Host

/-! What `read_activity` tells of the scheduler that wrote the record. -/

namespace TplBackend.SchedulerActivity

open Beat Effects Effects.Program Raise Text Transition

def Accepts (schedule : Str) (maxAge : Option ℚ) (log : Log) (activity : Activity) : Prop :=
  ∃ budget size content found b boot stat state start,
    maxAge = some budget ∧
    log = [(.read (activityPath schedule), .source true true size content), (.boottime, .time b),
      (.readBootId, .text boot), (.readStat found.pid, .text stat)] ∧
    record content = .ok found ∧ (0 ≤ b - found.tickAt ∧ b - found.tickAt ≤ budget) ∧
    found.bootId = some (.str (strip boot)) ∧ statIdentity stat = .ok (state, start) ∧
    (state ∈ [['R'], ['S'], ['D'], ['I']] ∧ found.processStart = some (.str start)) ∧
    activity = ⟨found.pid, b - found.tickAt, found.tickCount, found.publishReturns, found.publishErrors⟩

def ReaderPost (schedule : Str) (maxAge : Option ℚ) (log : Log) : Except Failure Activity → Prop
  | .ok activity => Accepts schedule maxAge log activity
  | .error _ => True

section Readers

variable {A R E : Type} {schedule : Str} {history : HostHistory A R E} {host host' start : Host R}
  {event : Event (Host R) (Action A R E)} {action : Action A R E} {reader : Reader}

/-- What an exchange tells the reader of the schedule, for as long as the host is up. -/
def Told (schedule : Str) (history : HostHistory A R E) (host : Host R) : Op × Answer → Prop
  | (.read path, .source _ _ _ (some document)) => path = activityPath schedule →
      ∃ id snapshot, document = snapshot.document ∧ Vouched history host id snapshot
  | (.readBootId, .text content) => strip content = host.bootId
  | _ => True

theorem Told.grow {exchange : Op × Answer} (told : Told schedule history host exchange)
    (keeps : Keeps host host') (boot : host'.bootId = host.bootId) :
    Told schedule (history ++ [event]) host' exchange := by
  unfold Told at told ⊢
  split
  · intro record
    obtain ⟨id, snapshot, same, vouched⟩ := told record
    exact ⟨id, snapshot, same, vouched.grow keeps⟩
  · exact told.trans boot.symm
  · trivial

structure Reads (schedule : Str) (history : HostHistory A R E) (host : Host R) (reader : Reader) :
    Prop where
  meets : reader.underway.Meets (fun _ _ => True) (ReaderPost reader.schedule reader.maxAge)
  told : ∀ exchange ∈ reader.underway.log, Told schedule history host exchange

end Readers

section Sample

end Sample

end TplBackend.SchedulerActivity
