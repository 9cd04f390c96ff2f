import TplBackend.Delivery.Conservation
import TplBackend.Library.Exposition

namespace TplBackend

open Exposition Raise Text

variable {J : Type}

namespace DeliveryObservation

inductive Reading
  | count (n : Nat)
  | seconds (at_ : Timestamp)

structure Gauge where
  key : Str
  help : Str
  value : Gauges → Reading

def gauges : List Gauge :=
  [⟨"messages".toList, "Retained outbox messages, not a lifetime counter.".toList,
      fun row => .count row.messages⟩,
    ⟨"retained_receipt_messages".toList,
      "Retained messages with a committed receipt for the required consumer.".toList,
      fun row => .count row.retainedReceiptMessages⟩,
    ⟨"latest_receipt_recorded_timestamp_seconds".toList,
      "Maximum retained receipt processed_at, not commit time or a heartbeat; ".toList ++
        "zero without matching receipts.".toList,
      fun row => .seconds row.latestReceiptRecordedTimestamp⟩,
    ⟨"incomplete_messages".toList, "Messages without the policy's required completion.".toList,
      fun row => .count row.incompleteMessages⟩,
    ⟨"scheduled_messages".toList, "Incomplete messages before immutable not-before.".toList,
      fun row => .count row.scheduledMessages⟩,
    ⟨"publishable_messages".toList,
      "Due incomplete messages without dead letter or execution.".toList,
      fun row => .count row.publishableMessages⟩,
    ⟨"awaiting_receipt_messages".toList, "Published messages without required receipt.".toList,
      fun row => .count row.awaitingReceiptMessages⟩,
    ⟨"active_execution_messages".toList,
      "Incomplete messages with this policy's active lease.".toList,
      fun row => .count row.activeExecutionMessages⟩,
    ⟨"expired_publisher_leases".toList,
      "Incomplete delivering messages with expired lease.".toList,
      fun row => .count row.expiredPublisherLeases⟩,
    ⟨"dead_letter_messages".toList, "Messages with an unreplayed dead-letter record.".toList,
      fun row => .count row.deadLetterMessages⟩,
    ⟨"reconcile_candidates".toList,
      "Timed-out unacknowledged publish without execution/DLQ.".toList,
      fun row => .count row.reconcileCandidates⟩,
    ⟨"oldest_due_incomplete_age_seconds".toList,
      "Age since creation or not-before of oldest due incomplete non-DLQ message, ".toList ++
        "including active work.".toList,
      fun row => .seconds row.oldestDueIncompleteAge⟩]

def metricOf (key : Str) : Str := "sunmoonai_delivery_".toList ++ key

def headerLines (metric help : Str) : List Str :=
  ["# HELP ".toList ++ metric ++ ' ' :: help, "# TYPE ".toList ++ metric ++ " gauge".toList]

section Registration

variable {topics registered : List String}

theorem registerTopic_match {names : List String}
    (ran : names.foldlM registerTopic topics = .ok registered) :
    ∀ name ∈ names, OutboxEvent.topicMatches name = true := by
  induction names generalizing topics with
  | nil => exact fun _ none_ => absurd none_ List.not_mem_nil
  | cons name names ih =>
      rw [List.foldlM_cons] at ran
      obtain ⟨longer, first, rest⟩ := bind_ok.mp ran
      unfold registerTopic at first
      split at first
      · cases first
      · rename_i accepted
        simp only [Bool.or_eq_true, Bool.not_eq_true', not_or, Bool.not_eq_false] at accepted
        exact List.forall_mem_cons.mpr ⟨accepted.1, ih rest⟩

theorem registerPolicy_match {entries : List (Sigma fun _ : String => ObservedPolicy J)}
    (ran : entries.foldlM registerPolicy topics = .ok registered) :
    ∀ entry ∈ entries, OutboxEvent.topicMatches entry.1 = true ∧
      ∀ topic ∈ entry.2.delivery.topics.keys, OutboxEvent.topicMatches topic = true := by
  induction entries generalizing topics with
  | nil => exact fun _ none_ => absurd none_ List.not_mem_nil
  | cons entry entries ih =>
      rw [List.foldlM_cons] at ran
      obtain ⟨longer, first, rest⟩ := bind_ok.mp ran
      unfold registerPolicy at first
      split at first
      · cases first
      · rename_i accepted
        exact List.forall_mem_cons.mpr
          ⟨⟨by simpa using accepted, registerTopic_match first⟩, ih rest⟩

theorem registeredTopics_match {policies : Policies J}
    (accepted : registeredTopics policies = .ok registered) :
    ∀ entry ∈ policies.entries, OutboxEvent.topicMatches entry.1 = true ∧
      ∀ topic ∈ entry.2.delivery.topics.keys, OutboxEvent.topicMatches topic = true := by
  unfold registeredTopics at accepted
  split at accepted
  · cases accepted
  · obtain ⟨topics, folded, _⟩ := bind_ok.mp accepted
    exact registerPolicy_match folded

end Registration

theorem snapshot_rows {codec : Codec J} {policies : Policies J} {now : Clock} {s : Tables J}
    {snapshot : Snapshot} (collected : collectDeliverySnapshot codec policies now s = .ok snapshot) :
    (snapshot.topics.map Observation.topic).Nodup ∧ ∀ row ∈ snapshot.topics,
      OutboxEvent.topicMatches row.policy = true ∧ OutboxEvent.topicMatches row.topic = true := by
  obtain ⟨topics, accepted, collected⟩ := bind_ok.mp collected
  obtain ⟨observations, ran, same⟩ := bind_ok.mp collected
  rw [pure_ok] at same
  subst same
  have matching := registeredTopics_match accepted
  obtain ⟨rfl, distinct⟩ := registeredTopics_ok accepted
  refine ⟨(topics_observed ran).nodup_iff.mpr distinct, fun row member => ?_⟩
  obtain ⟨rows, listed, inner⟩ := List.mem_flatten.mp member
  obtain ⟨policy, present, ofPolicy⟩ := (mem_mapM_iff ran).mp listed
  obtain ⟨entry, kept, ofTopic⟩ := (mem_mapM_iff ofPolicy).mp inner
  obtain ⟨gauges, _, same⟩ := bind_ok.mp ofTopic
  rw [pure_ok] at same
  subst same
  obtain ⟨named, all⟩ := matching policy ((mem_sortedItems policies policy).mp present)
  exact ⟨named, all entry.1 (List.mem_map_of_mem ((mem_sortedItems _ entry).mp kept))⟩

section Render

-- `str()` of a float number of seconds.
variable (secondsText : Timestamp → Str)

def Reading.text : Reading → Str
  | .count n => Nat.toDigits 10 n
  | .seconds at_ => secondsText at_

def rowLine (gauge : Gauge) (row : Observation) : Str :=
  metricOf gauge.key ++ '\x7b' :: ("policy=\"".toList ++ row.policy.toList ++
    "\",topic=\"".toList ++ row.topic.toList ++ ['"', '\x7d', ' ']) ++
    (gauge.value row.gauges).text secondsText

def renderLines (snapshot : Snapshot) : List Str :=
  headerLines (metricOf "snapshot_timestamp_seconds".toList) "Snapshot start time.".toList ++
    [metricOf "snapshot_timestamp_seconds".toList ++ ' ' :: secondsText snapshot.observedAt] ++
    headerLines (metricOf "unregistered_messages".toList)
      "Retained messages outside configured observation policies.".toList ++
    [metricOf "unregistered_messages".toList ++
      ' ' :: Nat.toDigits 10 snapshot.unregisteredMessages] ++
    gauges.flatMap fun gauge => headerLines (metricOf gauge.key) gauge.help ++
      snapshot.topics.map (rowLine secondsText gauge)

def renderPrometheus (snapshot : Snapshot) : Str :=
  ['\n'].intercalate (renderLines secondsText snapshot) ++ ['\n']

def gaugeKind : Str := ['g', 'a', 'u', 'g', 'e']

def rowLabels (row : Observation) : List (Str × Str) :=
  [("policy".toList, row.policy.toList), ("topic".toList, row.topic.toList)]

def gaugeFamily (snapshot : Snapshot) (gauge : Gauge) : Family where
  name := metricOf gauge.key
  help := gauge.help
  kind := gaugeKind
  samples := snapshot.topics.map fun row =>
    ⟨metricOf gauge.key, rowLabels row, (gauge.value row.gauges).text secondsText, none⟩

def globalFamily (key help value : Str) : Family where
  name := metricOf key
  help := help
  kind := gaugeKind
  samples := [⟨metricOf key, [], value, none⟩]

def snapshotFamilies (snapshot : Snapshot) : List Family :=
  globalFamily "snapshot_timestamp_seconds".toList "Snapshot start time.".toList
      (secondsText snapshot.observedAt) ::
    globalFamily "unregistered_messages".toList
      "Retained messages outside configured observation policies.".toList
      (Nat.toDigits 10 snapshot.unregisteredMessages) ::
    gauges.map (gaugeFamily secondsText snapshot)

theorem headerLines_eq (metric help : Str) :
    headerLines metric help = [Entry.line (.help metric help), Entry.line (.type metric gaugeKind)] := by
  have keywords : "# HELP ".toList = ['#', ' ', 'H', 'E', 'L', 'P', ' '] ∧
      "# TYPE ".toList = ['#', ' ', 'T', 'Y', 'P', 'E', ' '] ∧
      " gauge".toList = ' ' :: gaugeKind := by decide
  rw [headerLines, keywords.1, keywords.2.1, keywords.2.2]
  rfl

theorem rowLine_eq (gauge : Gauge) (row : Observation) :
    rowLine secondsText gauge row = Sample.line
      ⟨metricOf gauge.key, rowLabels row, (gauge.value row.gauges).text secondsText, none⟩ := by
  have quoted : "policy=\"".toList = "policy".toList ++ ['=', '"'] ∧
      "\",topic=\"".toList = '"' :: ',' :: ("topic".toList ++ ['=', '"']) := by decide
  rw [rowLine, quoted.1, quoted.2]
  simp [Sample.line, rowLabels, labelsText, labelText]

theorem familyLines (family : Family) : family.entries.map Entry.line =
    Entry.line (.help family.name family.help) :: Entry.line (.type family.name family.kind) ::
      family.samples.map Sample.line := by
  rw [Family.entries, List.map_cons, List.map_cons, List.map_map]
  rfl

theorem renderLines_eq (snapshot : Snapshot) : renderLines secondsText snapshot =
    ((snapshotFamilies secondsText snapshot).flatMap Family.entries).map Entry.line := by
  have global (key help value : Str) : (globalFamily key help value).entries.map Entry.line =
      headerLines (metricOf key) help ++ [metricOf key ++ ' ' :: value] := by
    rw [familyLines, headerLines_eq]
    simp [globalFamily, Sample.line, labelsText]
  have each (gauge : Gauge) : (gaugeFamily secondsText snapshot gauge).entries.map Entry.line =
      headerLines (metricOf gauge.key) gauge.help ++
        snapshot.topics.map (rowLine secondsText gauge) := by
    rw [familyLines, headerLines_eq, gaugeFamily, List.map_map]
    simp [rowLine_eq]
  rw [renderLines, snapshotFamilies, List.flatMap_cons, List.flatMap_cons, List.map_append,
    List.map_append, global, global, List.flatMap_map, List.map_flatMap]
  simp only [each, List.append_assoc]

theorem names_distinct :
    (metricOf "snapshot_timestamp_seconds".toList :: metricOf "unregistered_messages".toList ::
      gauges.map fun gauge => metricOf gauge.key).Nodup := by
  decide

theorem metricOf_name {key : Str} (chars : key.all (isNameChar true) = true) :
    isName true (metricOf key) = true :=
  isName_append (by decide) chars

def plainHelp (help : Str) : Bool :=
  help.all (fun c => c != '\\' && c != '\n') && help.head?.all fun c => !Exposition.isBlank c

def Gauge.plain (gauge : Gauge) : Bool :=
  gauge.key.all (isNameChar true) && plainHelp gauge.help

theorem gauges_plain : gauges.all Gauge.plain = true := by decide +kernel

theorem plain_label {row : Observation} (policy : OutboxEvent.topicMatches row.policy = true)
    (topic : OutboxEvent.topicMatches row.topic = true) :
    ∀ label ∈ rowLabels row, PlainLabel label := by
  have chars {text : String} (accepted : OutboxEvent.topicMatches text = true) :
      ∀ c ∈ text.toList, c ≠ '"' ∧ c ≠ '\\' ∧ c ≠ '\n' := by
    intro c member
    have allowed := OutboxEvent.topic_chars accepted c member
    refine ⟨?_, ?_, ?_⟩ <;> (rintro rfl; exact absurd allowed (by decide))
  have names : isName false "policy".toList = true ∧ isName false "topic".toList = true := by decide
  rw [rowLabels]
  refine List.forall_mem_cons.mpr ⟨⟨names.1, chars policy⟩, ?_⟩
  exact List.forall_mem_singleton.mpr ⟨names.2, chars topic⟩

theorem token_toDigits (n : Nat) : Token (Nat.toDigits 10 n) := by
  have digits : ∀ c ∈ Nat.toDigits 10 n, isDigit c = true := fun c member => isDigit_toDigits member
  refine ⟨Nat.toDigits_ne_nil, fun c member => ?_, fun head => ?_⟩
  · have digit := digits c member
    simp only [isDigit, Bool.and_eq_true, decide_eq_true_eq, Char.le_def,
      UInt32.le_iff_toNat_le] at digit
    have low : 48 ≤ c.toNat := digit.1
    have high : c.toNat ≤ 57 := digit.2
    simp only [isSpace, Bool.or_eq_false_iff, Bool.and_eq_false_iff, decide_eq_false_iff_not,
      beq_eq_false_iff_ne]
    omega
  · exact absurd (digits _ (List.mem_of_mem_head? head)) (by decide)

theorem rowLabels_perm {first second : Observation} (same : (rowLabels first).Perm (rowLabels second)) :
    first.topic = second.topic := by
  have member : ("topic".toList, first.topic.toList) ∈ rowLabels second :=
    same.subset (List.mem_cons_of_mem _ List.mem_cons_self)
  have keys : "topic".toList ≠ "policy".toList := by decide
  rcases List.mem_cons.mp member with policy | topic
  · exact absurd (congrArg Prod.fst policy) keys
  · exact String.toList_inj.mp (congrArg Prod.snd (List.mem_singleton.mp topic))

section Faithful

variable {secondsText} {snapshot : Snapshot}

theorem token_text (token : ∀ at_, Token (secondsText at_)) (reading : Reading) :
    Token (reading.text secondsText) := by
  cases reading with
  | count n => exact token_toDigits n
  | seconds at_ => exact token at_

theorem families_plain (token : ∀ at_, Token (secondsText at_))
    (labels : ∀ row ∈ snapshot.topics, ∀ label ∈ rowLabels row, PlainLabel label) :
    ∀ entry ∈ (snapshotFamilies secondsText snapshot).flatMap Family.entries, entry.Plain := by
  have entries (family : Family) (named : isName true family.name = true)
      (told : plainHelp family.help = true) (kind : family.kind = gaugeKind)
      (samples : ∀ sample ∈ family.samples, sample.Plain) : ∀ entry ∈ family.entries, entry.Plain := by
    simp only [plainHelp, Bool.and_eq_true, List.all_eq_true, bne_iff_ne, ne_eq] at told
    refine List.forall_mem_cons.mpr ⟨⟨named, told.1, ?_⟩, List.forall_mem_cons.mpr ⟨⟨named, ?_⟩, ?_⟩⟩
    · intro c head
      have starts := told.2
      rw [Option.mem_def.mp head, Option.all_some, Bool.not_eq_true'] at starts
      exact starts
    · rw [kind]
      exact List.mem_cons_of_mem _ List.mem_cons_self
    · intro entry member
      obtain ⟨sample, listed, rfl⟩ := List.mem_map.mp member
      exact samples sample listed
  have alone (key help value : Str) (named : key.all (isNameChar true) = true)
      (told : plainHelp help = true) (valued : Token value) :
      ∀ entry ∈ (globalFamily key help value).entries, entry.Plain := by
    refine entries _ (metricOf_name named) told rfl (List.forall_mem_singleton.mpr ?_)
    exact ⟨metricOf_name named, fun _ none_ => absurd none_ List.not_mem_nil, valued, rfl⟩
  have each (gauge : Gauge) (member : gauge ∈ gauges) :
      ∀ entry ∈ (gaugeFamily secondsText snapshot gauge).entries, entry.Plain := by
    obtain ⟨named, told⟩ :=
      (Bool.and_eq_true _ _).mp (List.all_eq_true.mp gauges_plain gauge member)
    refine entries _ (metricOf_name named) told rfl fun sample listed => ?_
    obtain ⟨row, present, rfl⟩ := List.mem_map.mp listed
    exact ⟨metricOf_name named, labels row present, token_text token _, rfl⟩
  rw [snapshotFamilies, List.flatMap_cons, List.flatMap_cons]
  refine List.forall_mem_append.mpr ⟨?_, List.forall_mem_append.mpr ⟨?_, ?_⟩⟩
  · exact alone _ _ _ (by decide) (by decide +kernel) (token _)
  · exact alone _ _ _ (by decide) (by decide +kernel) (token_toDigits _)
  · intro entry member
    obtain ⟨family, listed, inner⟩ := List.mem_flatMap.mp member
    obtain ⟨gauge, present, rfl⟩ := List.mem_map.mp listed
    exact each gauge present entry inner

theorem families_grouped (topics : (snapshot.topics.map Observation.topic).Nodup) :
    Grouped (snapshotFamilies secondsText snapshot) := by
  refine apart_of_own ?_ ?_ ?_
  · rw [snapshotFamilies, List.map_cons, List.map_cons, List.map_map]
    exact names_distinct
  · refine List.forall_mem_cons.mpr ⟨?_, List.forall_mem_cons.mpr ⟨?_, ?_⟩⟩
    · exact List.forall_mem_singleton.mpr rfl
    · exact List.forall_mem_singleton.mpr rfl
    · intro family listed sample member
      obtain ⟨gauge, _, rfl⟩ := List.mem_map.mp listed
      obtain ⟨row, _, rfl⟩ := List.mem_map.mp member
      rfl
  · refine List.forall_mem_cons.mpr ⟨?_, List.forall_mem_cons.mpr ⟨?_, ?_⟩⟩
    · exact List.pairwise_singleton _ _
    · exact List.pairwise_singleton _ _
    · intro family listed
      obtain ⟨gauge, _, rfl⟩ := List.mem_map.mp listed
      refine List.pairwise_map.mpr ((List.pairwise_map.mp topics).imp fun different same => ?_)
      exact different (rowLabels_perm same)

theorem valuesOf_row (topics : (snapshot.topics.map Observation.topic).Nodup) {row : Observation}
    (present : row ∈ snapshot.topics) {gauge : Gauge} (member : gauge ∈ gauges) :
    valuesOf ((snapshotFamilies secondsText snapshot).flatMap Family.samples) (metricOf gauge.key)
      (rowLabels row) = [(gauge.value row.gauges).text secondsText] :=
  valuesOf_eq (families_grouped topics).apart (List.mem_flatMap.mpr
    ⟨gaugeFamily secondsText snapshot gauge,
      List.mem_cons_of_mem _ (List.mem_cons_of_mem _ (List.mem_map_of_mem member)),
      List.mem_map_of_mem present⟩)

theorem length_samples (snapshot : Snapshot) :
    ((snapshotFamilies secondsText snapshot).flatMap Family.samples).length =
      12 * snapshot.topics.length + 2 := by
  rw [snapshotFamilies, List.flatMap_cons, List.flatMap_cons, List.length_append,
    List.length_append, List.flatMap_map, List.length_flatMap]
  simp only [gaugeFamily, globalFamily, List.length_map, List.map_const', List.sum_replicate,
    List.length_cons, List.length_nil]
  change 0 + 1 + (0 + 1 + 12 * snapshot.topics.length) = _
  omega

end Faithful

end Render

def counts (row : Gauges) : List (String × Nat) :=
  [("messages", row.messages),
    ("retained_receipt_messages", row.retainedReceiptMessages),
    ("incomplete_messages", row.incompleteMessages),
    ("scheduled_messages", row.scheduledMessages),
    ("publishable_messages", row.publishableMessages),
    ("awaiting_receipt_messages", row.awaitingReceiptMessages),
    ("active_execution_messages", row.activeExecutionMessages),
    ("expired_publisher_leases", row.expiredPublisherLeases),
    ("dead_letter_messages", row.deadLetterMessages),
    ("reconcile_candidates", row.reconcileCandidates)]

def times (row : Gauges) : List (String × Timestamp) :=
  [("latest_receipt_recorded_timestamp_seconds", row.latestReceiptRecordedTimestamp),
    ("oldest_due_incomplete_age_seconds", row.oldestDueIncompleteAge)]

/-- A float for each number of seconds, and the text that `str` makes of a float: one that `float` reads
back, without whitespace. -/
structure Floats (F : Type) where
  ofSeconds : Timestamp → F
  text : F → Str
  read : Str → Option F
  token : ∀ x, Token (text x)
  read_text : ∀ x, read (text x) = some x

section Recovered

variable {F : Type} {floats : Floats F} {snapshot : Snapshot}

/-- The series of a gauge has one value, which reads as the number. -/
def Recovers {α : Type} (read : Str → Option α) (samples : List Sample) (key : String)
    (labels : List (Str × Str)) (number : α) : Prop :=
  ∃ text, valuesOf samples ("sunmoonai_delivery_".toList ++ key.toList) labels = [text] ∧
    read text = some number

structure Shows (floats : Floats F) (snapshot : Snapshot) (samples : List Sample) : Prop where
  counts : ∀ row ∈ snapshot.topics, ∀ column ∈ counts row.gauges, Recovers readDecimal samples column.1
    [("policy".toList, row.policy.toList), ("topic".toList, row.topic.toList)] column.2
  times : ∀ row ∈ snapshot.topics, ∀ column ∈ times row.gauges, Recovers floats.read samples column.1
    [("policy".toList, row.policy.toList), ("topic".toList, row.topic.toList)]
    (floats.ofSeconds column.2)
  observedAt : Recovers floats.read samples "snapshot_timestamp_seconds" []
    (floats.ofSeconds snapshot.observedAt)
  unregistered : Recovers readDecimal samples "unregistered_messages" [] snapshot.unregisteredMessages
  only : samples.length = 12 * snapshot.topics.length + 2

def Reading.count? : Reading → Option Nat
  | .count n => some n
  | .seconds _ => none

def Reading.seconds? : Reading → Option Timestamp
  | .count _ => none
  | .seconds at_ => some at_

theorem counts_eq (row : Gauges) : (counts row).map (Prod.map String.toList id) =
    gauges.filterMap fun gauge => (gauge.value row).count?.map (Prod.mk gauge.key) := rfl

theorem times_eq (row : Gauges) : (times row).map (Prod.map String.toList id) =
    gauges.filterMap fun gauge => (gauge.value row).seconds?.map (Prod.mk gauge.key) := rfl

theorem gauge_of_column {α : Type} {columns : List (String × α)} {pick : Gauge → Option α}
    (table : columns.map (Prod.map String.toList id) =
      gauges.filterMap fun gauge => (pick gauge).map (Prod.mk gauge.key))
    {column : String × α} (member : column ∈ columns) :
    ∃ gauge ∈ gauges, gauge.key = column.1.toList ∧ pick gauge = some column.2 := by
  have listed : Prod.map String.toList id column ∈
      gauges.filterMap fun gauge => (pick gauge).map (Prod.mk gauge.key) :=
    table ▸ List.mem_map_of_mem member
  obtain ⟨gauge, present, found⟩ := List.mem_filterMap.mp listed
  obtain ⟨number, picked, same⟩ := Option.map_eq_some_iff.mp found
  obtain ⟨key, value⟩ := Prod.mk.inj same
  exact ⟨gauge, present, key, picked.trans (congrArg some value)⟩

theorem families_show (topics : (snapshot.topics.map Observation.topic).Nodup) :
    Shows floats snapshot
      ((snapshotFamilies (fun at_ => floats.text (floats.ofSeconds at_)) snapshot).flatMap
        Family.samples) := by
  have grouped : Grouped (snapshotFamilies (fun at_ => floats.text (floats.ofSeconds at_)) snapshot) :=
    families_grouped topics
  have found {family : Family} {sample : Sample}
      (listed : family ∈ snapshotFamilies (fun at_ => floats.text (floats.ofSeconds at_)) snapshot)
      (member : sample ∈ family.samples) :=
    valuesOf_eq grouped.apart (List.mem_flatMap.mpr ⟨family, listed, member⟩)
  constructor
  · intro row present column member
    obtain ⟨gauge, listed, key, counted⟩ := gauge_of_column (counts_eq row.gauges) member
    refine ⟨_, key ▸ valuesOf_row topics present listed, ?_⟩
    cases value : gauge.value row.gauges with
    | count n =>
        rw [value] at counted
        exact (readDecimal_toDigits n).trans counted
    | seconds at_ =>
        rw [value] at counted
        cases counted
  · intro row present column member
    obtain ⟨gauge, listed, key, timed⟩ := gauge_of_column (times_eq row.gauges) member
    refine ⟨_, key ▸ valuesOf_row topics present listed, ?_⟩
    cases value : gauge.value row.gauges with
    | count n =>
        rw [value] at timed
        cases timed
    | seconds at_ =>
        rw [value] at timed
        rw [← Option.some.inj timed]
        exact floats.read_text _
  · exact ⟨_, found List.mem_cons_self (List.mem_singleton.mpr rfl), floats.read_text _⟩
  · exact ⟨_, found (List.mem_cons_of_mem _ List.mem_cons_self) (List.mem_singleton.mpr rfl),
      readDecimal_toDigits _⟩
  · exact length_samples snapshot

end Recovered

/-- The text of a snapshot of accepted policies is read back as families of gauges, and the samples
have every number of the snapshot. -/
theorem rendering_is_faithful {F : Type} (floats : Floats F) {codec : Codec J} {policies : Policies J}
    {now : Clock} {s : Tables J} {snapshot : Snapshot}
    (collected : collectDeliverySnapshot codec policies now s = .ok snapshot) :
    ∃ families : List Family,
      parse (renderPrometheus (fun at_ => floats.text (floats.ofSeconds at_)) snapshot) =
          some (families.flatMap Family.entries) ∧
        Grouped families ∧
        Shows floats snapshot (families.flatMap Family.samples) ∧
        ∀ policy ∈ policies.entries, ∀ topic ∈ policy.2.delivery.topics.keys,
          ∃ row ∈ snapshot.topics, row.policy = policy.1 ∧ row.topic = topic := by
  obtain ⟨topics, matching⟩ := snapshot_rows collected
  refine ⟨snapshotFamilies (fun at_ => floats.text (floats.ofSeconds at_)) snapshot, ?_,
    families_grouped topics, families_show topics, ?_⟩
  · have some_ : renderLines (fun at_ => floats.text (floats.ofSeconds at_)) snapshot ≠ [] :=
      List.cons_ne_nil _ _
    rw [renderPrometheus, intercalate_eq_unlines some_, renderLines_eq]
    refine parse_lines (families_plain (fun _ => floats.token _) fun row member => ?_)
    exact plain_label (matching row member).1 (matching row member).2
  · intro policy listed topic member
    obtain ⟨entry, kept, rfl⟩ := List.mem_map.mp member
    obtain ⟨gauges, _, row⟩ := mem_snapshot collected (AList.mem_lookup_iff.mpr listed) kept
    exact ⟨_, row, rfl, rfl⟩

section Sample

def wholeText : Option Nat → Str
  | some n => Nat.toDigits 10 n ++ ['.', '0']
  | none => ['i', 'n', 'f']

def readWhole (text : Str) : Option (Option Nat) :=
  if text = ['i', 'n', 'f'] then some none else (readDecimal text.dropLast.dropLast).map some

theorem token_wholeText (x : Option Nat) : Token (wholeText x) := by
  cases x with
  | none =>
      have printed : ∀ c ∈ ['i', 'n', 'f'], isSpace c = false :=
        List.forall_mem_cons.mpr ⟨rfl, List.forall_mem_cons.mpr ⟨rfl, List.forall_mem_singleton.mpr rfl⟩⟩
      exact ⟨List.cons_ne_nil _ _, printed, by simp [wholeText]⟩
  | some n =>
      obtain ⟨some_, printed, head⟩ := token_toDigits n
      refine ⟨by simp [wholeText], fun c member => ?_, ?_⟩
      · rcases List.mem_append.mp member with digit | point
        · exact printed c digit
        · simp only [List.mem_cons, List.not_mem_nil, or_false] at point
          rcases point with rfl | rfl <;> decide
      · rw [wholeText, List.head?_append_of_ne_nil _ some_]
        exact head

theorem readWhole_wholeText (x : Option Nat) : readWhole (wholeText x) = some x := by
  cases x with
  | none => rfl
  | some n =>
      have shape : wholeText (some n) = Nat.toDigits 10 n ++ ['.'] ++ ['0'] := by simp [wholeText]
      have other : Nat.toDigits 10 n ++ ['.'] ++ ['0'] ≠ ['i', 'n', 'f'] := fun same =>
        absurd (List.append_inj_right' (same.trans (rfl : _ = ['i', 'n'] ++ ['f'])) rfl) (by decide)
      rw [readWhole, shape, if_neg other, List.dropLast_concat, List.dropLast_concat,
        readDecimal_toDigits]
      rfl

def wholeFloats : Floats (Option Nat) where
  ofSeconds
    | .instant at_ => some (at_ / 1000000).toNat
    | _ => none
  text := wholeText
  read := readWhole
  token := token_wholeText
  read_text := readWhole_wholeText

def observedCodec : Codec Unit :=
  { sampleCodec with
    isoformat := fun _ => "1970-01-01T00:33:20.000000+00:00"
    timestamptz := fun text =>
      if text = "1970-01-01T00:33:20.000000+00:00" then some (2000000000 : Int) else none }

/-- Published, delivering, pending, scheduled, and of a topic of no policy. -/
def observedRow (id : Nat) : OutboxMessage Unit :=
  let due := if 10 ≤ id ∧ id < 16 then some (seconds 2000) else none
  let row := SqlOutboxRepository.newRow observedCodec id (sampleEvent due) (seconds 100)
  if id = 0 then { row with status := .published, publishedAt := some (seconds 200) }
  else if id < 5 then { row with status := .published, publishedAt := some (seconds 990) }
  else if id < 9 then { row with status := .delivering, leaseExpiresAt := some (seconds 300) }
  else if id < 17 then row
  else { row with topic := "other.v1" }

/-- Tables in which no two gauges count the same number. -/
def observedTables : Tables Unit where
  outbox := { rows := (List.range 26).map observedRow, nodup := by decide }
  inbox :=
    { rows := [2, 3, 4].map fun id => ⟨"test.counter.v1", id, seconds 995⟩
      nodup := by decide }
  deadLetters :=
    { rows := [2, 3, 4, 10, 11, 12, 13, 14].map fun id => ⟨id, "attempts", seconds 500, none⟩
      nodup := by decide }
  executions :=
    { rows := [10, 11, 12, 13, 14, 15, 16].map fun id => ⟨toString id, id, 1, 1, seconds 1060⟩
      nodup := by decide }

def observedSnapshot : Snapshot where
  schemaVersion := 1
  observedAt := seconds 1000
  unregisteredMessages := 9
  topics := [⟨"default", "test.counter.v1", true,
    ⟨17, 3, seconds 995, 14, 6, 5, 2, 7, 4, 8, 1, seconds 900⟩⟩]

theorem rendering_is_faithful_observed : ∃ families : List Family,
    parse (renderPrometheus (fun at_ => wholeFloats.text (wholeFloats.ofSeconds at_)) observedSnapshot) =
        some (families.flatMap Family.entries) ∧
      Grouped families ∧
      Shows wholeFloats observedSnapshot (families.flatMap Family.samples) ∧
      ∀ policy ∈ samplePolicies.entries, ∀ topic ∈ policy.2.delivery.topics.keys,
        ∃ row ∈ observedSnapshot.topics, row.policy = policy.1 ∧ row.topic = topic :=
  rendering_is_faithful wholeFloats (rfl : collectDeliverySnapshot observedCodec samplePolicies
    (seconds 1000) observedTables = .ok observedSnapshot)

/-- The numbers that are read back from the snapshot of these tables. -/
example : observedSnapshot.topics.map (fun row => (counts row.gauges).map Prod.snd) =
      [[17, 3, 14, 6, 5, 2, 7, 4, 8, 1]] ∧
    observedSnapshot.topics.map (fun row => (times row.gauges).map (wholeFloats.ofSeconds ·.2)) =
      [[some 995, some 900]] := ⟨rfl, rfl⟩

end Sample

end DeliveryObservation

end TplBackend
