import TplBackend.Auth.Principal
import TplBackend.Interaction.Identifier
import TplBackend.Interaction.Stream
import TplBackend.Library.EventSource

/-! Streams of run events that are opened again behind the last event received. -/

namespace TplBackend.Interaction

open Calendar EventStream JsonText Raise Text

structure SourceResolution where
  location : Str

structure WebInteractionPort where
  openRunStream : Str → Option Str → Principal → Except AppException (List RunEvent)
  resolveCitationSource : Str → Principal → Except AppException SourceResolution

def given : Option Str → Bool
  | none | some [] => false
  | some (_ :: _) => true

section Routes

variable (decimal : Char → Option (Fin 10))

/-- The cursor of a request, as `_uuid` leaves it. -/
def streamCursor (headerCursor queryCursor : Option Str) : Except AppException (Option Str) := do
  require (¬ (given headerCursor ∧ given queryCursor ∧ headerCursor ≠ queryCursor))
    (badRequestError "Conflicting event cursors were supplied" "cursor_invalid")
  let cursor := if given headerCursor then headerCursor else queryCursor
  match cursor with
  | some (c :: rest) => some <$> uuid decimal (c :: rest) "cursor_invalid"
  | cursor => return cursor

/-- `stream_run` up to the frames. -/
def streamRun (port : WebInteractionPort) (principal : Principal) (runId : Str)
    (headerCursor queryCursor : Option Str) : Except AppException (List RunEvent) := do
  let cursor ← streamCursor decimal headerCursor queryCursor
  let normalizedRunId ← uuid decimal runId "resource_invalid"
  port.openRunStream normalizedRunId cursor principal

variable (dateText : AwareDatetime → Str)

def serveRun (port : WebInteractionPort) (principal : Principal) (runId : Str)
    (queryCursor headerCursor : Option Str) : Except AppException Str :=
  (streamRun decimal port principal runId headerCursor queryCursor).map fun stream =>
    (events dateText stream).flatten

end Routes

/-- The provider has these events of a run for a principal, and gives what stands behind the one
whose id it is given. -/
structure WebInteractionPort.Streams (port : WebInteractionPort) (principal : Principal)
    (runId : UUID) (feed : List RunEvent) : Prop where
  accepted : runId.Accepted
  each : ∀ event ∈ feed, event.base.eventId.Accepted
  first : port.openRunStream runId.text none principal = .ok feed
  behind : ∀ event earlier later, feed = earlier ++ event :: later →
    port.openRunStream runId.text (some event.base.eventId.text) principal = .ok later

section Streams

variable {decimal : Char → Option (Fin 10)} {dateText : AwareDatetime → Str}
variable {port : WebInteractionPort} {principal : Principal} {run : UUID} {runId : Str}
variable {feed : List RunEvent}

theorem events_flatten (stream : List RunEvent) :
    (events dateText stream).flatten = framed (stream.map (eventMessage dateText)) := by
  rw [events, framed, List.flatMap_map, List.flatMap_def]
  rfl

theorem eventMessage_framed (event : RunEvent) : (eventMessage dateText event).Framed where
  id := event.base.eventId.text_oneLine
  type := by simp [OneLine, eventMessage, runEvent]
  data := dumps_oneLine (event.dump_exact dateText)
  typed := List.cons_ne_nil _ _
  identified := event.base.eventId.text_no_null

theorem UUID.text_ne_nil (id : UUID) : id.text ≠ [] := by
  intro none_
  have length := id.text_length
  rw [none_] at length
  cases length

theorem given_text (id : UUID) : given (some id.text) = true := by
  obtain ⟨c, rest, shape⟩ := List.exists_cons_of_ne_nil id.text_ne_nil
  rw [shape]
  rfl

theorem uuid_text (decimal : Char → Option (Fin 10)) {id : UUID} (accepted : id.Accepted)
    (code : String) : uuid decimal id.text code = .ok id.text :=
  uuid_ok.mpr ⟨id, id.parse_text decimal, accepted, rfl⟩

theorem streamCursor_header {id : UUID} (accepted : id.Accepted) :
    streamCursor decimal (some id.text) none = .ok (some id.text) := by
  obtain ⟨c, rest, shape⟩ := List.exists_cons_of_ne_nil id.text_ne_nil
  have read := uuid_text decimal accepted "cursor_invalid"
  rw [shape] at read ⊢
  have quiet : ¬ (given (some (c :: rest)) ∧ given none ∧ some (c :: rest) ≠ none) := by
    simp [given]
  rw [streamCursor, require_pos quiet, ok_bind]
  simp only [given, if_true, read]
  rfl

theorem streamCursor_query {id : UUID} (accepted : id.Accepted) :
    streamCursor decimal none (some id.text) = .ok (some id.text) := by
  obtain ⟨c, rest, shape⟩ := List.exists_cons_of_ne_nil id.text_ne_nil
  have read := uuid_text decimal accepted "cursor_invalid"
  rw [shape] at read ⊢
  have quiet : ¬ (given none ∧ given (some (c :: rest)) ∧ none ≠ some (c :: rest)) := by
    simp [given]
  rw [streamCursor, require_pos quiet, ok_bind]
  simp only [given, Bool.false_eq_true, if_false, read]
  rfl

theorem streamCursor_conflict {id id' : UUID} (apart : id ≠ id') :
    streamCursor decimal (some id.text) (some id'.text) =
      .error (badRequestError "Conflicting event cursors were supplied" "cursor_invalid") := by
  have conflict : ¬ ¬ (given (some id.text) ∧ given (some id'.text) ∧
      some id.text ≠ some id'.text) := by
    rw [not_not]
    refine ⟨given_text id, given_text id', fun same => apart ?_⟩
    exact UUID.text_inj (Option.some.inj same)
  rw [streamCursor, require_neg conflict, error_bind]

theorem serveRun_resumes (streams : port.Streams principal run feed) (written : run.Written runId) :
    Resumes (serveRun decimal dateText port principal runId none)
      (feed.map (eventMessage dateText)) := by
  have named : uuid decimal runId "resource_invalid" = .ok run.text :=
    uuid_ok.mpr ⟨run, UUID.parse_written written, streams.accepted, rfl⟩
  constructor
  · intro m member
    obtain ⟨event, _, rfl⟩ := List.mem_map.mp member
    exact eventMessage_framed event
  · intro m member
    obtain ⟨event, _, rfl⟩ := List.mem_map.mp member
    exact event.base.eventId.text_ne_nil
  · have opened : streamRun decimal port principal runId none none = .ok feed := by
      rw [streamRun, show streamCursor decimal none none = .ok none from rfl, ok_bind, named,
        ok_bind, streams.first]
    rw [serveRun, opened, ← events_flatten]
    rfl
  · intro m earlier later split
    obtain ⟨first, rest, rfl, rfl, joined⟩ := List.map_eq_append_iff.mp split
    obtain ⟨event, behind, rfl, rfl, rfl⟩ := List.map_eq_cons_iff.mp joined
    have accepted := streams.each event (by simp)
    have opened : streamRun decimal port principal runId
        (some (eventMessage dateText event).lastEventId) none = .ok behind := by
      rw [streamRun, show (eventMessage dateText event).lastEventId = event.base.eventId.text from rfl,
        streamCursor_header accepted, ok_bind, named, ok_bind]
      exact streams.behind event first behind rfl
    rw [serveRun, opened, ← events_flatten]
    rfl

/-- However the connections of a page are cut, and however it writes the run, the events reach it in
order, none twice and none left out; all of them once a connection lasts. -/
theorem stream_resumes (streams : port.Streams principal run feed) (written : run.Written runId)
    (cuts : List Nat) :
    let page := cuts.foldl (Source.connect (serveRun decimal dateText port principal runId none))
      .opened
    page.closed = false ∧ page.received <+: feed.map (eventMessage dateText) ∧
      ((∃ length ∈ cuts, (events dateText feed).flatten.length ≤ length) →
        page.received = feed.map (eventMessage dateText)) := by
  rw [events_flatten]
  exact Source.resumed (serveRun_resumes streams written) cuts

theorem WebInteractionPort.Streams.apart (streams : port.Streams principal run feed)
    {event other : RunEvent} {earlier later : List RunEvent}
    (split : feed = earlier ++ event :: later) (member : other ∈ later) :
    other.base.eventId ≠ event.base.eventId := by
  intro same
  obtain ⟨between, rest, rfl⟩ := List.append_of_mem member
  have here := streams.behind event earlier _ split
  have there := streams.behind other (earlier ++ event :: between) rest (by rw [split]; simp)
  rw [same, here] at there
  have lengths := congrArg List.length (Except.ok.inj there)
  rw [List.length_append, List.length_cons] at lengths
  omega

section AddressCursor

variable {event : RunEvent} {earlier later : List RunEvent}

/-- What a page has that was opened behind `event` and has received something. -/
structure Spent (dateText : AwareDatetime → Str) (event : RunEvent) (later : List RunEvent)
    (page : Source) : Prop where
  received : page.received <+: later.map (eventMessage dateText)
  some_ : page.received ≠ []
  other : ∃ last : RunEvent, last.base.eventId ≠ event.base.eventId ∧
    page.lastEventId = last.base.eventId.text

theorem Spent.header {page : Source} (spent : Spent dateText event later page) :
    ∃ other, other ≠ event.base.eventId ∧ page.header = some other.text := by
  obtain ⟨last, apart, id⟩ := spent.other
  exact ⟨last.base.eventId, apart, by rw [Source.header, id, if_neg last.base.eventId.text_ne_nil]⟩

theorem Spent.conflict {page : Source} (spent : Spent dateText event later page) :
    serveRun decimal dateText port principal runId (some event.base.eventId.text) page.header =
      .error (badRequestError "Conflicting event cursors were supplied" "cursor_invalid") := by
  obtain ⟨other, apart, header⟩ := spent.header
  rw [header, serveRun, streamRun, streamCursor_conflict apart, error_bind]
  rfl

theorem Spent.refused {page : Source} (spent : Spent dateText event later page) (length : Nat) :
    page.connect (serveRun decimal dateText port principal runId (some event.base.eventId.text))
      length = { page with closed := true } := by
  cases closed : page.closed with
  | false => rw [Source.connect, closed, spent.conflict]; rfl
  | true =>
      rw [Source.connect, closed, if_pos rfl, ← closed]

theorem Spent.stays {page : Source} (spent : Spent dateText event later page) (more : List Nat) :
    (more.foldl (Source.connect
      (serveRun decimal dateText port principal runId (some event.base.eventId.text))) page).received =
        page.received := by
  induction more generalizing page with
  | nil => rfl
  | cons length more ih =>
      rw [List.foldl_cons, spent.refused]
      exact ih ⟨spent.received, spent.some_, spent.other⟩

theorem connect_opened (streams : port.Streams principal run feed) (written : run.Written runId)
    (split : feed = earlier ++ event :: later) (length : Nat) :
    ∃ read rest, later.map (eventMessage dateText) = read ++ rest ∧
      ((events dateText later).flatten.length ≤ length → rest = []) ∧
      Source.opened.connect
        (serveRun decimal dateText port principal runId (some event.base.eventId.text)) length =
          ⟨false, lastId [] read, read⟩ := by
  have named : uuid decimal runId "resource_invalid" = .ok run.text :=
    uuid_ok.mpr ⟨run, UUID.parse_written written, streams.accepted, rfl⟩
  have accepted := streams.each event (by rw [split]; simp)
  have answer : serveRun decimal dateText port principal runId (some event.base.eventId.text) none =
      .ok (framed (later.map (eventMessage dateText))) := by
    rw [serveRun, streamRun, streamCursor_query accepted, ok_bind, named, ok_bind,
      streams.behind event earlier later split, ← events_flatten]
    rfl
  have clean : ∀ m ∈ later.map (eventMessage dateText), m.Framed := by
    intro m member
    obtain ⟨sent, _, rfl⟩ := List.mem_map.mp member
    exact eventMessage_framed sent
  obtain ⟨read, rest, whole, all, got, left⟩ := cut_framed clean length []
  refine ⟨read, rest, whole, fun long => all (by rwa [← events_flatten]), ?_⟩
  rw [Source.connect, show Source.opened.header = none from rfl, answer]
  simp only [Source.opened, got, left, Bool.false_eq_true, if_false, List.nil_append]

theorem connect_behind (streams : port.Streams principal run feed) (written : run.Written runId)
    (split : feed = earlier ++ event :: later) (length : Nat) :
    let page := Source.opened.connect
      (serveRun decimal dateText port principal runId (some event.base.eventId.text)) length
    page = .opened ∨ Spent dateText event later page := by
  obtain ⟨read, rest, whole, _, taken⟩ := connect_opened streams written split length
  show _ ∨ _
  rw [taken]
  induction read using List.reverseRecOn with
  | nil => exact Or.inl rfl
  | append_singleton read m _ =>
      have member : m ∈ later.map (eventMessage dateText) := by
        rw [whole]
        simp
      obtain ⟨last, sent, rfl⟩ := List.mem_map.mp member
      refine Or.inr ⟨⟨rest, whole.symm⟩, by simp, last, streams.apart split sent, ?_⟩
      simp [lastId, eventMessage]

theorem connect_all (streams : port.Streams principal run feed) (written : run.Written runId)
    (split : feed = earlier ++ event :: later) {length : Nat}
    (long : (events dateText later).flatten.length ≤ length) :
    (Source.opened.connect
      (serveRun decimal dateText port principal runId (some event.base.eventId.text)) length).received =
        later.map (eventMessage dateText) := by
  obtain ⟨read, rest, whole, all, taken⟩ := connect_opened streams written split length
  rw [taken, whole, all long, List.append_nil]

/-- A page that carries a cursor in its address is served by one connection only: once it has
received an event, every further request has two cursors and is refused. -/
theorem address_cursor_ends (streams : port.Streams principal run feed)
    (written : run.Written runId) (split : feed = earlier ++ event :: later)
    (cuts more : List Nat) :
    let serve := serveRun decimal dateText port principal runId (some event.base.eventId.text)
    let page := cuts.foldl (Source.connect serve) .opened
    page.received <+: later.map (eventMessage dateText) ∧
      (∀ length, cuts = [length] → (events dateText later).flatten.length ≤ length →
        page.received = later.map (eventMessage dateText)) ∧
      (page.received ≠ [] →
        (∃ other, other ≠ event.base.eventId ∧ page.header = some other.text) ∧
        serve page.header =
          .error (badRequestError "Conflicting event cursors were supplied" "cursor_invalid") ∧
        (more.foldl (Source.connect serve) page).received = page.received ∧
        ∀ length, (page.connect serve length).closed = true) := by
  have lasting : ∀ length, cuts = [length] → (events dateText later).flatten.length ≤ length →
      (cuts.foldl (Source.connect
        (serveRun decimal dateText port principal runId (some event.base.eventId.text)))
          .opened).received = later.map (eventMessage dateText) := by
    rintro length rfl long
    rw [List.foldl_cons, List.foldl_nil]
    exact connect_all streams written split long
  intro serve page
  have reached : page = .opened ∨ Spent dateText event later page := by
    clear lasting
    induction cuts using List.reverseRecOn with
    | nil => exact Or.inl rfl
    | append_singleton cuts length ih =>
        have last : page = (cuts.foldl (Source.connect serve) .opened).connect serve length :=
          List.foldl_append
        rcases ih with fresh | spent
        · rw [last, fresh]
          exact connect_behind streams written split length
        · rw [last, spent.refused]
          exact Or.inr ⟨spent.received, spent.some_, spent.other⟩
  have whole : ∀ length, cuts = [length] → (events dateText later).flatten.length ≤ length →
      page.received = later.map (eventMessage dateText) := lasting
  clear_value page
  rcases reached with rfl | spent
  · exact ⟨List.nil_prefix, whole, fun some_ => absurd rfl some_⟩
  · refine ⟨spent.received, whole, fun _ => ⟨spent.header, ?_, ?_, fun length => ?_⟩⟩
    · exact spent.conflict
    · exact spent.stays more
    · rw [spent.refused]

end AddressCursor

end Streams

namespace ReferenceWebInteractionAdapter

def runId : UUID := ⟨0x00000000000050008000000000000001, by decide⟩

def actionId : UUID := ⟨0x00000000000050008000000000000020, by decide⟩

def eventId (index : Fin 5) : UUID :=
  ⟨0x00000000000050008000000000000010 + index, by omega⟩

def eventIds : List UUID := List.ofFn eventId

def timestamp (second : Fin 60) : AwareDatetime :=
  .utc
    { date := (Date.ofFields 2030 1 1).get (by decide)
      time := (Time.ofFields 0 0 second 0).get (by decide +revert) }

def citation : BrowserCitation where
  evidenceId := referenceEvidenceId
  knowledgeDocumentId := ⟨0x00000000000050008000000000000031, by decide⟩
  knowledgeDocumentVersionId := ⟨0x00000000000050008000000000000032, by decide⟩
  chunkId := ⟨0x00000000000050008000000000000033, by decide⟩
  title := some "FastAPI authorized reference".toList
  quote := "This bounded reference proves the browser citation contract.".toList
  sourceDocumentId := ⟨0x00000000000050008000000000000034, by decide⟩
  sourceDocumentVersionId := ⟨0x00000000000050008000000000000035, by decide⟩
  contentHash := List.replicate 64 'c'
  sourceHref := citationSource referenceEvidenceId.text
  title_sized := by simp
  quote_sized := by simp [Sized]
  contentHash_pattern := by
    refine ⟨List.length_replicate, List.all_eq_true.mpr fun c member => ?_⟩
    rw [List.eq_of_mem_replicate member]
    decide
  sourceHref_sized := (citationSource_valid _).1
  sourceHref_pattern := (citationSource_valid _).2
  source_matches_evidence := rfl

def base (index : Fin 5) (sequenceNo : Int) (second : Fin 60) (ge : 1 ≤ sequenceNo) : EventBase :=
  ⟨eventId index, runId, sequenceNo, timestamp second, ge⟩

def events : List RunEvent :=
  [.delta (base 1 2 1 (by decide)) ⟨"A streamed FastAPI response fragment. ".toList, by simp [Sized]⟩,
    .citation (base 2 3 2 (by decide)) ⟨citation⟩,
    .inputRequired (base 3 4 3 (by decide))
      ⟨⟨actionId, .confirmation, "Confirm the reference action.".toList, by simp [Sized]⟩⟩]

def authorize (settings : Settings) (principal : Principal) : Except AppException Unit :=
  require (principal.surface = .web ∧ principal.app = settings.appSlug)
    (forbiddenError "The browser identity is not authorized" "resource_forbidden")

def authorizeRun (settings : Settings) (runId : Str) (principal : Principal) :
    Except AppException Unit := do
  authorize settings principal
  require (runId = ReferenceWebInteractionAdapter.runId.text)
    (forbiddenError "The requested run is not available" "resource_forbidden")

section Adapter

variable (decimal : Char → Option (Fin 10)) (settings : Settings)

def cursorOf : Option Str → Except AppException Nat
  | none | some [] => .ok 0
  | some text =>
      expect
        ((UUID.parse decimal text).bind fun id => eventIds.findIdx? fun other => other.int = id.int)
        concurrencyConflictError

def openRunStream (runId : Str) (lastEventId : Option Str) (principal : Principal) :
    Except AppException (List RunEvent) := do
  authorizeRun settings runId principal
  let cursor ← cursorOf decimal lastEventId
  return events.filter fun event => ¬ event.base.sequenceNo ≤ cursor + 1

def resolveCitationSource (evidenceId : Str) (principal : Principal) :
    Except AppException SourceResolution := do
  authorize settings principal
  require (evidenceId = referenceEvidenceId.text)
    (forbiddenError "The requested citation is not available" "resource_forbidden")
  return ⟨"/api/web/v1/reference/sources/".toList ++ referenceEvidenceId.text⟩

def port : WebInteractionPort where
  openRunStream := openRunStream decimal settings
  resolveCitationSource := resolveCitationSource settings

end Adapter

variable {decimal : Char → Option (Fin 10)} {settings : Settings} {principal : Principal}

theorem authorizeRun_ok (surface : principal.surface = .web)
    (app : principal.app = settings.appSlug) :
    authorizeRun settings runId.text principal = .ok () := by
  rw [authorizeRun, authorize, require_pos ⟨surface, app⟩, ok_bind]
  exact require_pos rfl

theorem cursorOf_text {id : UUID} (index : Nat)
    (found : (eventIds.findIdx? fun other => other.int = id.int) = some index) :
    cursorOf decimal (some id.text) = .ok index := by
  obtain ⟨c, rest, shape⟩ := List.exists_cons_of_ne_nil id.text_ne_nil
  have parsed := id.parse_text decimal
  rw [shape] at parsed ⊢
  rw [cursorOf, parsed, Option.bind_some, found]
  · rfl
  · exact List.cons_ne_nil c rest

theorem streams (surface : principal.surface = .web) (app : principal.app = settings.appSlug) :
    (port decimal settings).Streams principal runId events := by
  have opened (cursor : Option Str) (index : Nat) (read : cursorOf decimal cursor = .ok index) :
      openRunStream decimal settings runId.text cursor principal =
        .ok (events.filter fun event => ¬ event.base.sequenceNo ≤ index + 1) := by
    rw [openRunStream, authorizeRun_ok surface app, ok_bind, read, ok_bind]
    rfl
  constructor
  · decide
  · decide
  · exact opened none 0 rfl
  · intro event earlier later split
    rcases earlier with _ | ⟨first, _ | ⟨second, _ | ⟨third, rest⟩⟩⟩
    · obtain ⟨rfl, rfl⟩ := List.cons.inj split
      exact opened _ 1 (cursorOf_text 1 (by decide))
    · obtain ⟨_, next⟩ := List.cons.inj split
      obtain ⟨rfl, rfl⟩ := List.cons.inj next
      exact opened _ 2 (cursorOf_text 2 (by decide))
    · obtain ⟨_, next⟩ := List.cons.inj split
      obtain ⟨_, last⟩ := List.cons.inj next
      obtain ⟨rfl, rfl⟩ := List.cons.inj last
      exact opened _ 3 (cursorOf_text 3 (by decide))
    · have lengths := congrArg List.length split
      simp [events] at lengths

end ReferenceWebInteractionAdapter

def samplePrincipal (app : Str) : Principal where
  subject := "ada".toList
  issuer := "https://id.example".toList
  app := app
  surface := .web
  audience := "tpl-web-client".toList
  actorId := 1
  displayName := none
  email := none
  roles := []
  scopes := []
  authenticatedAt := 0
  expiresAt := 1
  policyVersion := "tpl-web-v2".toList

/-- `2030-01-01T00:00:01Z`: the text of a time in UTC without parts of a second. -/
def utcText (date : AwareDatetime) : Str := (isoformat date.wall).toList.take 19 ++ ['Z']

def serveReference (queryCursor headerCursor : Option Str) : Except AppException Str :=
  serveRun (fun _ => none) utcText
    (ReferenceWebInteractionAdapter.port (fun _ => none) Settings.sampleSettings)
    (samplePrincipal Settings.sampleSettings.appSlug) ReferenceWebInteractionAdapter.runId.text
    queryCursor headerCursor

theorem stream_resumes_reference :
    let page := [5, 100000, 3].foldl (Source.connect (serveReference none)) .opened
    page.closed = false ∧
      page.received <+: ReferenceWebInteractionAdapter.events.map (eventMessage utcText) ∧
      ((∃ length ∈ [5, 100000, 3],
        (events utcText ReferenceWebInteractionAdapter.events).flatten.length ≤ length) →
          page.received = ReferenceWebInteractionAdapter.events.map (eventMessage utcText)) :=
  stream_resumes (ReferenceWebInteractionAdapter.streams rfl rfl)
    (.plain (UUID.spells_text _)) [5, 100000, 3]

/-- Behind its first event the reference run has two more, and a page that got these is refused. -/
theorem address_cursor_ends_reference :
    ∃ event later, ReferenceWebInteractionAdapter.events = event :: later ∧
      ∃ length, let serve := serveReference (some event.base.eventId.text)
        let page := [length].foldl (Source.connect serve) .opened
        page.received = later.map (eventMessage utcText) ∧ page.received.length = 2 ∧
          serve page.header =
            .error (badRequestError "Conflicting event cursors were supplied" "cursor_invalid") ∧
          ([3].foldl (Source.connect serve) page).received = page.received := by
  let event := ReferenceWebInteractionAdapter.events.head (List.cons_ne_nil _ _)
  let later := ReferenceWebInteractionAdapter.events.tail
  have split : ReferenceWebInteractionAdapter.events = event :: later :=
    (List.cons_head_tail (List.cons_ne_nil _ _)).symm
  refine ⟨event, later, split, (events utcText later).flatten.length, ?_⟩
  intro serve page
  obtain ⟨_, all, refused⟩ : page.received <+: later.map (eventMessage utcText) ∧ _ :=
    address_cursor_ends (ReferenceWebInteractionAdapter.streams rfl rfl)
      (.plain (UUID.spells_text _)) (List.nil_append _).symm [(events utcText later).flatten.length] [3]
  have received : page.received = later.map (eventMessage utcText) := all _ rfl (Nat.le_refl _)
  have two : page.received.length = 2 := by
    rw [received, List.length_map]
    rfl
  have some_ : page.received ≠ [] := List.length_pos_iff.mp (two ▸ Nat.succ_pos 1)
  obtain ⟨_, conflict, stays, _⟩ := refused some_
  exact ⟨received, two, conflict, stays⟩

end TplBackend.Interaction
