import TplBackend.Interaction.Identifier
import TplBackend.Library.EventStream

/-! The event stream of a run. -/

namespace TplBackend.Interaction

open EventStream JsonText Text

def runEvent : Str := ['r', 'u', 'n', '-', 'e', 'v', 'e', 'n', 't']

section Stream

-- The text that the validation library gives a timestamp.
variable (dateText : AwareDatetime → Str)

def eventFrame (event : RunEvent) : Str :=
  frame event.base.eventId.text runEvent (dumps (event.dump dateText))

def events (stream : List RunEvent) : List Str := stream.map (eventFrame dateText)

def eventMessage (event : RunEvent) : Message :=
  ⟨runEvent, dumps (event.dump dateText), event.base.eventId.text⟩

theorem UUID.text_oneLine (id : UUID) : OneLine id.text := by
  intro c member
  have known := id.text_chars c member
  constructor <;> (rintro rfl; exact absurd known (by decide))

theorem UUID.text_no_null (id : UUID) : '\x00' ∉ id.text :=
  fun member => absurd (id.text_chars _ member) (by decide)

theorem dumps_oneLine {value : Value} (exact : Exact value) : OneLine (dumps value) := by
  intro c member
  have printed := printed_dumps exact c member
  constructor <;> (rintro rfl; exact absurd printed (by decide))

theorem messages_events (stream : List RunEvent) :
    messages (events dateText stream).flatten = stream.map (eventMessage dateText) := by
  have joined : (events dateText stream).flatten =
      (stream.map (eventMessage dateText)).flatMap fun m => frame m.lastEventId m.type m.data := by
    rw [events, List.flatMap_map, List.flatMap_def]
    rfl
  rw [joined]
  refine messages_frames ?_
  intro m member
  obtain ⟨event, _, rfl⟩ := List.mem_map.mp member
  exact ⟨event.base.eventId.text_oneLine, by simp [OneLine, eventMessage, runEvent],
    dumps_oneLine (event.dump_exact dateText), List.cons_ne_nil _ _,
    event.base.eventId.text_no_null⟩

theorem stream_is_lossless (stream : List RunEvent) :
    (messages (events dateText stream).flatten).map
        (fun m => (m.type, m.lastEventId, loads m.data)) =
      stream.map fun event =>
        (runEvent, event.base.eventId.text, some (event.dump dateText)) := by
  rw [messages_events, List.map_map]
  refine List.map_congr_left fun event _ => ?_
  have read := loads_dumps (event.dump_exact dateText)
  simp only [Function.comp_apply, eventMessage, read]

end Stream

/-! The dump of an event leaves nothing of it out. -/

section Dump

variable {dateText : AwareDatetime → Str}

theorem BrowserCitation.dump_inj {first second : BrowserCitation} (same : first.dump = second.dump) :
    first = second := by
  obtain ⟨evidence, document, version, chunk, title, _, source, sourceVersion, _, _, _⟩ := first
  obtain ⟨evidence', document', version', chunk', title', _, source', sourceVersion', _, _, _⟩ := second
  simp only [BrowserCitation.dump, Value.obj.injEq, List.cons.injEq, Prod.mk.injEq, Value.str.injEq,
    true_and, and_true] at same
  obtain ⟨evidences, documents, versions, chunks, titles, rfl, sources, sourceVersions, rfl, rfl⟩ := same
  obtain rfl := UUID.text_inj evidences
  obtain rfl := UUID.text_inj documents
  obtain rfl := UUID.text_inj versions
  obtain rfl := UUID.text_inj chunks
  obtain rfl := UUID.text_inj sources
  obtain rfl := UUID.text_inj sourceVersions
  have titled : title = title' := by
    cases title <;> cases title' <;> simp_all
  subst titled
  rfl

theorem ActionKind.text_inj {first second : ActionKind} (same : first.text = second.text) :
    first = second := by
  cases first <;> cases second <;> first | rfl | exact absurd same (by decide)

theorem RequiredAction.dump_inj {first second : RequiredAction} (same : first.dump = second.dump) :
    first = second := by
  obtain ⟨id, kind, _, _⟩ := first
  obtain ⟨id', kind', _, _⟩ := second
  simp only [RequiredAction.dump, Value.obj.injEq, List.cons.injEq, Prod.mk.injEq, Value.str.injEq,
    true_and, and_true] at same
  obtain ⟨ids, kinds, rfl⟩ := same
  obtain rfl := UUID.text_inj ids
  obtain rfl := ActionKind.text_inj kinds
  rfl

theorem RunStatus.text_inj {first second : RunStatus} (same : first.text = second.text) :
    first = second := by
  cases first <;> cases second <;> first | rfl | exact absurd same (by decide)

theorem RunEvent.eq_of_parts {first second : RunEvent} (bases : first.base = second.base)
    (types : first.type = second.type) (data : first.dumpData = second.dumpData) :
    first = second := by
  -- two of different types differ in the texts of these
  cases first <;> cases second <;>
    first | exact absurd (String.toList_inj.mp types) (by decide) | skip
  all_goals
    simp only [RunEvent.base] at bases
    subst bases
    simp only [RunEvent.dumpData, Value.obj.injEq, List.cons.injEq, Prod.mk.injEq, Value.str.injEq,
      true_and, and_true] at data
  case status.status known other =>
    exact congrArg (fun status => RunEvent.status _ ⟨status⟩) (RunStatus.text_inj data)
  case delta.delta known other =>
    cases known; cases other; cases data; rfl
  case citation.citation known other =>
    exact congrArg (fun citation => RunEvent.citation _ ⟨citation⟩) (BrowserCitation.dump_inj data)
  case inputRequired.inputRequired known other =>
    exact congrArg (fun action => RunEvent.inputRequired _ ⟨action⟩) (RequiredAction.dump_inj data)
  case completed.completed known other =>
    cases known; cases other; cases data; rfl
  case failed.failed known other =>
    cases known; cases other
    obtain ⟨codes, messages⟩ := data
    cases codes; cases messages; rfl
  case heartbeat.heartbeat => rfl

/-- Whatever tells timestamps apart tells the events of two dumps apart. -/
theorem RunEvent.dump_inj (dated : Function.Injective dateText) {first second : RunEvent}
    (same : first.dump dateText = second.dump dateText) : first = second := by
  simp only [RunEvent.dump, Value.obj.injEq, List.cons.injEq, Prod.mk.injEq, Value.str.injEq,
    Value.int.injEq, true_and, and_true] at same
  obtain ⟨ids, runs, numbers, dates, types, data⟩ := same
  refine RunEvent.eq_of_parts ?_ types data
  generalize first.base = base at *
  generalize second.base = base' at *
  obtain ⟨id, run, number, date, _⟩ := base
  obtain ⟨id', run', number', date', _⟩ := base'
  obtain rfl : id = id' := UUID.text_inj ids
  obtain rfl : run = run' := UUID.text_inj runs
  obtain rfl : number = number' := numbers
  obtain rfl : date = date' := dated dates
  rfl

theorem events_inj (dated : Function.Injective dateText) {stream other : List RunEvent}
    (same : (events dateText stream).flatten = (events dateText other).flatten) : stream = other := by
  have read := messages_events dateText stream
  rw [same, messages_events] at read
  refine List.map_injective_iff.mpr (fun first second told => ?_) read.symm
  have dumped := congrArg loads (congrArg Message.data told)
  simp only [eventMessage, loads_dumps (RunEvent.dump_exact dateText _), Option.some.injEq] at dumped
  exact RunEvent.dump_inj dated dumped

end Dump

end TplBackend.Interaction
